import SpudLib.Tube.Host
import SpudLib.Tube.Life

/-!
# The lives of the tubes of a manager

What a manager and its record say of one tube, and how that changes when the
tube is made, added, used or destroyed.  Every change is a step in the life of
the tube.
-/

namespace SpudLib

def Effect.deed (t : Nat) : Effect → Option Deed
  | .triggered notice => if notice.tube = t then some (.event notice.event) else none
  | .destroyed other => if other = t then some .destroyed else none
  | .sent .. => none

def deeds (t : Nat) (effects : List Effect) : List Deed := effects.filterMap (Effect.deed t)

theorem deeds_append (t : Nat) (first second : List Effect) :
    deeds t (first ++ second) = deeds t first ++ deeds t second :=
  List.filterMap_append

theorem deeds_effects (t : Nat) (env : Environment) (datagram : Datagram) :
    deeds t (env.effects datagram) = [] := by
  unfold Environment.effects
  split <;> rfl

theorem deeds_closing (t : Nat) (env : Environment) (cell : Tube) :
    deeds t (env.closing cell) = [] := by
  unfold Environment.closing
  split
  · exact deeds_effects ..
  · rfl

/-- What a host and the map of its table say of one tube. -/
@[ext] structure Glimpse where
  cell : Option Tube
  born : Bool
  found : SpudTubeId → Bool
  created : Bool
  unadded : Bool
  opened : Bool
  closed : Bool
  story : List Deed

namespace Glimpse

def origin (glimpse : Glimpse) : Origin :=
  if glimpse.opened then .opened else if glimpse.created then .added else .accepted

def phase (glimpse : Glimpse) : Phase :=
  match glimpse.cell with
  | none => if glimpse.born then .destroyed glimpse.origin else .absent
  | some cell =>
      if glimpse.unadded then .detached cell.state else .managed glimpse.origin cell.state

/-- A live tube is either in the application's hands or in the table, under its own
identifier; once closed it stays closed. -/
structure Sound (glimpse : Glimpse) : Prop where
  live : ∀ id, glimpse.found id = true → ∃ cell, glimpse.cell = some cell ∧ cell.id = id
  handed : glimpse.unadded = true → glimpse.cell.isSome = true ∧ glimpse.created = true ∧
    glimpse.opened = false ∧ glimpse.closed = false ∧ ∀ id, glimpse.found id = false
  owned : glimpse.cell.isSome = true → glimpse.unadded = false →
    ∃ id, glimpse.found id = true
  known : glimpse.created = true ∨ glimpse.opened = true ∨ glimpse.closed = true ∨
    glimpse.cell.isSome = true → glimpse.born = true
  shut : glimpse.closed = true → ∀ cell, glimpse.cell = some cell → cell.state = .unknown

structure Good (glimpse : Glimpse) : Prop extends Sound glimpse where
  told : glimpse.phase.Told glimpse.story

/-- The tube has lived on, by at most one step. -/
structure Turn (glimpse next : Glimpse) : Prop where
  good : next.Good
  step : next.story = glimpse.story ∨
    ∃ deeds, Phase.Step glimpse.phase deeds next.phase ∧ next.story = glimpse.story ++ deeds

variable {glimpse next : Glimpse} {cell changed : Tube} {story : List Deed}

theorem phase_absent (gone : glimpse.cell = none) (unborn : glimpse.born = false) :
    glimpse.phase = .absent := by
  rw [phase, gone, unborn]
  rfl

theorem phase_destroyed (gone : glimpse.cell = none) (born : glimpse.born = true) :
    glimpse.phase = .destroyed glimpse.origin := by
  rw [phase, gone, born]
  rfl

theorem phase_detached (stored : glimpse.cell = some cell) (held : glimpse.unadded = true) :
    glimpse.phase = .detached cell.state := by
  rw [phase, stored, held]
  rfl

theorem phase_managed (stored : glimpse.cell = some cell) (free : glimpse.unadded = false) :
    glimpse.phase = .managed glimpse.origin cell.state := by
  rw [phase, stored, free]
  rfl

theorem Turn.refl (good : glimpse.Good) : glimpse.Turn glimpse := ⟨good, .inl rfl⟩

theorem Turn.of_eq {seen : Glimpse} (turn : glimpse.Turn next) (same : seen = next) :
    glimpse.Turn seen := same ▸ turn

theorem Good.turn (good : glimpse.Good) (sound : next.Sound) {first second : Phase}
    (was : glimpse.phase = first) (is : next.phase = second)
    (step : Phase.Step first story second) (told : next.story = glimpse.story ++ story) :
    glimpse.Turn next := by
  subst was
  subst is
  exact ⟨⟨sound, told ▸ good.told.step step⟩, .inr ⟨story, step, told⟩⟩

theorem Good.unborn (good : glimpse.Good) (unborn : glimpse.born = false) :
    glimpse.cell = none ∧ glimpse.created = false ∧ glimpse.unadded = false ∧
      glimpse.opened = false ∧ glimpse.closed = false ∧ glimpse.found = fun _ => false := by
  have never : ∀ {known : Bool}, (known = true → glimpse.born = true) → known = false := by
    intro known born
    cases known with
    | false => rfl
    | true =>
      rw [unborn] at born
      exact absurd (born rfl) Bool.false_ne_true
  have created := never fun is => good.known (.inl is)
  have opened := never fun is => good.known (.inr (.inl is))
  have closed := never fun is => good.known (.inr (.inr (.inl is)))
  have cell := never fun is => good.known (.inr (.inr (.inr is)))
  have none : glimpse.cell = none := Option.not_isSome_iff_eq_none.mp (by rw [cell]; decide)
  have unadded := never fun is => absurd (good.handed is).1 (by rw [cell]; decide)
  refine ⟨none, created, unadded, opened, closed, ?_⟩
  funext id
  refine never fun is => ?_
  obtain ⟨cell, found, _⟩ := good.live id is
  rw [none] at found
  cases found

/-- A live tube that the application does not hold back is in the table under its
identifier alone. -/
theorem Good.managed (good : glimpse.Good) (stored : glimpse.cell = some cell)
    (free : glimpse.unadded = false) :
    glimpse.born = true ∧ ∀ id, glimpse.found id = true ↔ id = cell.id := by
  refine ⟨good.known (.inr (.inr (.inr (by rw [stored]; rfl)))), ?_⟩
  have own : ∀ id, glimpse.found id = true → id = cell.id := by
    intro id found
    obtain ⟨other, same, own⟩ := good.live id found
    rw [stored] at same
    cases same
    exact own.symm
  intro id
  refine ⟨own id, ?_⟩
  rintro rfl
  obtain ⟨id, found⟩ := good.owned (by rw [stored]; rfl) free
  rw [← own id found]
  exact found

theorem Sound.of_managed (stored : glimpse.cell = some cell)
    (free : glimpse.unadded = false) (born : glimpse.born = true)
    (found : ∀ id, glimpse.found id = true ↔ id = cell.id)
    (shut : glimpse.closed = true → cell.state = .unknown) : glimpse.Sound where
  live id member := ⟨cell, stored, ((found id).mp member).symm⟩
  handed held := by
    rw [free] at held
    cases held
  owned _ _ := ⟨cell.id, (found _).mpr rfl⟩
  known _ := born
  shut closed other same := by
    rw [stored] at same
    cases same
    exact shut closed

theorem Sound.of_detached (stored : glimpse.cell = some cell)
    (held : glimpse.unadded = true) (born : glimpse.born = true)
    (created : glimpse.created = true) (opened : glimpse.opened = false)
    (closed : glimpse.closed = false) (missing : ∀ id, glimpse.found id = false) :
    glimpse.Sound where
  live id member := by
    rw [missing] at member
    cases member
  handed _ := ⟨by rw [stored]; rfl, created, opened, closed, missing⟩
  owned _ free := by
    rw [held] at free
    cases free
  known _ := born
  shut is := by
    rw [closed] at is
    cases is

theorem Sound.of_destroyed (gone : glimpse.cell = none) (free : glimpse.unadded = false)
    (born : glimpse.born = true) (missing : ∀ id, glimpse.found id = false) : glimpse.Sound where
  live id member := by
    rw [missing] at member
    cases member
  handed held := by
    rw [free] at held
    cases held
  owned is := by
    rw [gone] at is
    cases is
  known _ := born
  shut _ cell stored := by
    rw [gone] at stored
    cases stored

theorem Good.made (good : glimpse.Good) (unborn : glimpse.born = false) (cell : Tube) :
    glimpse.Turn
      { glimpse with cell := some cell, born := true, created := true, unadded := true } := by
  obtain ⟨none, _, _, opened, closed, found⟩ := good.unborn unborn
  have sound := @Sound.of_detached
    { glimpse with cell := some cell, born := true, created := true, unadded := true }
    cell rfl rfl rfl rfl opened closed (congrFun found)
  exact good.turn sound (phase_absent none unborn) (phase_detached rfl rfl) (.made cell.state)
    (List.append_nil _).symm

theorem Good.failed (good : glimpse.Good) (unborn : glimpse.born = false) :
    glimpse.Turn { glimpse with born := true, story := glimpse.story ++ [.destroyed] } := by
  obtain ⟨none, _, unadded, _, _, found⟩ := good.unborn unborn
  exact good.turn (Sound.of_destroyed none unadded rfl (congrFun found))
    (phase_absent none unborn) (phase_destroyed none rfl) (.failed _) rfl

theorem Good.entered (good : glimpse.Good) (unborn : glimpse.born = false) {opened : Bool}
    (state : cell.state = if opened then .opening else .running) :
    glimpse.Turn { glimpse with
      cell := some cell
      born := true
      found := fun id => decide (id = cell.id)
      opened := opened
      story := glimpse.story ++ [.event .add] } := by
  obtain ⟨none, created, unadded, _, closed, _⟩ := good.unborn unborn
  have shut : glimpse.closed = true → cell.state = .unknown := by
    intro is
    rw [is] at closed
    cases closed
  refine good.turn (Sound.of_managed rfl unadded rfl (fun id => decide_eq_true_iff) shut)
    (phase_absent none unborn) (phase_managed rfl unadded) ?_ rfl
  rw [state, origin, created]
  cases opened with
  | true => exact .opened
  | false => exact .accepted

theorem Good.set (good : glimpse.Good) (held : glimpse.unadded = true) (cell : Tube) :
    glimpse.Turn { glimpse with cell := some cell } := by
  obtain ⟨live, created, opened, closed, missing⟩ := good.handed held
  obtain ⟨old, stored⟩ := Option.isSome_iff_exists.mp live
  have sound := @Sound.of_detached { glimpse with cell := some cell } cell rfl held
    (good.known (.inl created)) created opened closed missing
  exact good.turn sound (phase_detached stored held) (phase_detached rfl held)
    (.set old.state cell.state) (List.append_nil _).symm

theorem Good.added (good : glimpse.Good) (held : glimpse.unadded = true)
    (stored : glimpse.cell = some cell) :
    glimpse.Turn { glimpse with
      found := fun id => decide (id = cell.id)
      unadded := false
      story := glimpse.story ++ [.event .add] } := by
  obtain ⟨_, created, opened, closed, _⟩ := good.handed held
  have shut : glimpse.closed = true → cell.state = .unknown := by
    intro is
    rw [is] at closed
    cases closed
  refine good.turn (Sound.of_managed stored rfl (good.known (.inl created))
    (fun id => decide_eq_true_iff) shut) (phase_detached stored held) (phase_managed stored rfl)
    ?_ rfl
  rw [origin, opened, created]
  exact .added cell.state

theorem Good.used (good : glimpse.Good) (stored : glimpse.cell = some cell)
    (free : glimpse.unadded = false) (same : changed.id = cell.id)
    (step : Phase.Step (.managed glimpse.origin cell.state) story
      (.managed glimpse.origin changed.state))
    (closed : Bool) (shut : closed = true → changed.state = .unknown) :
    glimpse.Turn { glimpse with
      cell := some changed
      closed := closed
      story := glimpse.story ++ story } := by
  obtain ⟨born, found⟩ := good.managed stored free
  have own : ∀ id, glimpse.found id = true ↔ id = changed.id := by
    intro id
    rw [same]
    exact found id
  exact good.turn (Sound.of_managed rfl free born own shut) (phase_managed stored free)
    (phase_managed rfl free) step rfl

theorem Good.ended (good : glimpse.Good) (stored : glimpse.cell = some cell)
    (free : glimpse.unadded = false)
    (step : Phase.Step (.managed glimpse.origin cell.state) story (.destroyed glimpse.origin)) :
    glimpse.Turn { glimpse with
      cell := none
      found := fun _ => false
      story := glimpse.story ++ story } := by
  obtain ⟨born, _⟩ := good.managed stored free
  exact good.turn (Sound.of_destroyed rfl free born fun _ => rfl) (phase_managed stored free)
    (phase_destroyed rfl born) step rfl

end Glimpse

section Records

variable {mgr : TubeManager} {env : Environment} {old : Option Nat}

theorem deeds_triggered (t : Nat) (notice : Notice) :
    deeds t [.triggered notice] = if notice.tube = t then [.event notice.event] else [] := by
  by_cases same : notice.tube = t
  · simp [deeds, Effect.deed, same]
  · simp [deeds, Effect.deed, same]

theorem deeds_own (notice : Notice) :
    deeds notice.tube [.triggered notice] = [.event notice.event] := by
  rw [deeds_triggered, if_pos rfl]

theorem deeds_of_ne {t : Nat} {notice : Notice} (different : t ≠ notice.tube) :
    deeds t [.triggered notice] = [] := by
  rw [deeds_triggered, if_neg different.symm]

theorem deeds_destroyed (t other : Nat) :
    deeds t [.destroyed other] = if other = t then [.destroyed] else [] := by
  by_cases same : other = t
  · simp [deeds, Effect.deed, same]
  · simp [deeds, Effect.deed, same]

theorem deeds_noted (t : Nat) (mgr : TubeManager) (effects : List Effect) :
    deeds t (mgr.noted effects).trace = deeds t mgr.trace ++ deeds t effects :=
  deeds_append ..

theorem evict_cells_self (mgr : TubeManager) (env : Environment) (t : Nat) :
    (mgr.evict env (some t)).tubes.cells t = none := by
  cases found : mgr.tubes.cells t with
  | none => simp only [TubeManager.evict, found]
  | some cell =>
    rw [TubeManager.evict_some found]
    exact Memory.erase_cells_self ..

theorem deeds_evict (live : ∀ t, old = some t → ∃ cell, mgr.tubes.cells t = some cell) (t : Nat) :
    deeds t (mgr.evict env old).trace =
      deeds t mgr.trace ++ if old = some t then [.destroyed] else [] := by
  cases old with
  | none => simp
  | some other =>
    obtain ⟨cell, found⟩ := live other rfl
    rw [TubeManager.evict_some found]
    simp only [deeds_append, deeds_closing, deeds_destroyed, List.nil_append, Option.some.injEq]

end Records

namespace Host

def glimpse (host : Host) (find : SpudTubeId → Option Nat) (t : Nat) : Glimpse where
  cell := host.mgr.tubes.cells t
  born := decide (t < host.mgr.tubes.fresh)
  found id := decide (find id = some t)
  created := decide (t ∈ host.created)
  unadded := decide (t ∈ host.unadded)
  opened := decide (t ∈ host.opened)
  closed := decide (t ∈ host.closed)
  story := deeds t host.mgr.trace

/-- The table registers the map until it is destroyed, and every tube has lived as a
tube may. -/
structure Keeps (host : Host) (find : SpudTubeId → Option Nat) : Prop where
  holds : host.gone = false → host.mgr.Holds find
  emptied : host.gone = true → find = fun _ => none
  good : ∀ t, (host.glimpse find t).Good

structure Advances (host after : Host) (find later : SpudTubeId → Option Nat) : Prop where
  holds : after.gone = false → after.mgr.Holds later
  emptied : after.gone = true → later = fun _ => none
  turns : ∀ t, (host.glimpse find t).Turn (after.glimpse later t)

theorem Advances.keeps {host after : Host} {find later : SpudTubeId → Option Nat}
    (advances : host.Advances after find later) : after.Keeps later :=
  ⟨advances.holds, advances.emptied, fun t => (advances.turns t).good⟩

structure Listed (host after : Host) (t : Nat) : Prop where
  created : t ∈ after.created ↔ t ∈ host.created
  unadded : t ∈ after.unadded ↔ t ∈ host.unadded
  opened : t ∈ after.opened ↔ t ∈ host.opened
  closed : t ∈ after.closed ↔ t ∈ host.closed

theorem Listed.refl (host : Host) (t : Nat) : Listed host host t :=
  ⟨Iff.rfl, Iff.rfl, Iff.rfl, Iff.rfl⟩

variable {host after : Host} {find later : SpudTubeId → Option Nat} {t : Nat} {cell changed : Tube}
  {effects : List Effect}

theorem glimpse_eq (listed : Listed host after t) :
    after.glimpse later t = { host.glimpse find t with
      cell := after.mgr.tubes.cells t
      born := decide (t < after.mgr.tubes.fresh)
      found := fun id => decide (later id = some t)
      story := deeds t after.mgr.trace } := by
  refine Glimpse.ext rfl rfl rfl ?_ ?_ ?_ ?_ rfl
  · exact decide_eq_decide.mpr listed.created
  · exact decide_eq_decide.mpr listed.unadded
  · exact decide_eq_decide.mpr listed.opened
  · exact decide_eq_decide.mpr listed.closed

structure Aloof (host after : Host) (find later : SpudTubeId → Option Nat) (t : Nat) : Prop where
  listed : Listed host after t
  cells : after.mgr.tubes.cells t = host.mgr.tubes.cells t
  born : t < after.mgr.tubes.fresh ↔ t < host.mgr.tubes.fresh
  found : ∀ id, later id = some t ↔ find id = some t
  story : deeds t after.mgr.trace = deeds t host.mgr.trace

theorem Aloof.glimpse (aloof : Aloof host after find later t) :
    after.glimpse later t = host.glimpse find t := by
  rw [@glimpse_eq host after find later t aloof.listed]
  refine Glimpse.ext aloof.cells ?_ ?_ rfl rfl rfl rfl aloof.story
  · exact decide_eq_decide.mpr aloof.born
  · funext id
    exact decide_eq_decide.mpr (aloof.found id)

end Host

end SpudLib
