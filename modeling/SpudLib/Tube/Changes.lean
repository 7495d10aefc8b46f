import SpudLib.Tube.Lifetimes

/-!
# How a host changes

A tube enters the table, is used there, and leaves it.  Each is one change of a
host in which every tube has lived as it may; other tubes are not touched, but
for one that makes room.
-/

namespace SpudLib

open TubeManager

namespace Host

section Changes

variable {host after : Host} {find later : SpudTubeId → Option Nat} {t : Nat} {cell changed : Tube}
  {env : Environment} {effects : List Effect}

theorem Keeps.of_touched (keeps : host.Keeps find) (holds : after.mgr.Holds later)
    (present : after.gone = false) (turn : (host.glimpse find t).Turn (after.glimpse later t))
    (others : ∀ other, other ≠ t → Aloof host after find later other ∨
      (host.glimpse find other).Turn (after.glimpse later other)) :
    host.Advances after find later := by
  refine ⟨fun _ => holds, ?_, ?_⟩
  · intro gone
    rw [present] at gone
    cases gone
  · intro other
    by_cases here : other = t
    · rw [here]
      exact turn
    · rcases others other here with aloof | turn
      · exact (Glimpse.Turn.refl (keeps.good other)).of_eq aloof.glimpse
      · exact turn

theorem Keeps.idle (keeps : host.Keeps find) (present : after.gone = false)
    (holds : after.mgr.Holds find) (aloof : ∀ t, Aloof host after find find t) :
    host.Advances after find find :=
  keeps.of_touched holds present ((Glimpse.Turn.refl (keeps.good 0)).of_eq (aloof 0).glimpse)
    fun other _ => .inl (aloof other)

theorem Keeps.stored (keeps : host.Keeps find) {id : SpudTubeId} (stored : find id = some t) :
    ∃ cell, host.mgr.tubes.cells t = some cell ∧ cell.id = id ∧ t ∉ host.unadded := by
  obtain ⟨cell, found, own⟩ := (keeps.good t).live id (decide_eq_true stored)
  refine ⟨cell, found, own, ?_⟩
  intro held
  have missing := ((keeps.good t).handed (decide_eq_true held)).2.2.2.2 id
  exact absurd stored (of_decide_eq_false missing)

theorem Keeps.use (keeps : host.Keeps find) (present : after.gone = false)
    (stored : find cell.id = some t) (found : host.mgr.tubes.cells t = some cell)
    (same : changed.id = cell.id) (table : after.mgr.table = host.mgr.table)
    (holds : host.mgr.Holds find) (changes : after.mgr.tubes.cells t = some changed)
    (cells : ∀ other, other ≠ t → after.mgr.tubes.cells other = host.mgr.tubes.cells other)
    (fresh : after.mgr.tubes.fresh = host.mgr.tubes.fresh)
    (trace : after.mgr.trace = host.mgr.trace ++ effects)
    (silent : ∀ other, other ≠ t → deeds other effects = [])
    (step : Phase.Step (.managed (host.glimpse find t).origin cell.state) (deeds t effects)
      (.managed (host.glimpse find t).origin changed.state))
    (shut : t ∈ after.closed → changed.state = .unknown)
    (created : after.created = host.created) (unadded : after.unadded = host.unadded)
    (opened : after.opened = host.opened)
    (closed : ∀ other, other ≠ t → (other ∈ after.closed ↔ other ∈ host.closed)) :
    host.Advances after find find := by
  obtain ⟨_, _, _, free⟩ := keeps.stored stored
  have holdsAfter : after.mgr.Holds find := by
    refine holds.keep table ?_
    intro id other old _ foundOld
    by_cases here : other = t
    · subst here
      rw [found] at foundOld
      cases foundOld
      exact ⟨changed, changes, same⟩
    · exact ⟨old, (cells other here).trans foundOld, rfl⟩
  refine keeps.of_touched (t := t) holdsAfter present ?_ ?_
  · have used := (keeps.good t).used found (decide_eq_false free) same step
      (decide (t ∈ after.closed)) fun is => shut (of_decide_eq_true is)
    refine used.of_eq (Glimpse.ext ?_ ?_ rfl ?_ ?_ ?_ rfl ?_)
    · exact changes
    · exact decide_eq_decide.mpr (by rw [fresh])
    · exact decide_eq_decide.mpr (by rw [created])
    · exact decide_eq_decide.mpr (by rw [unadded])
    · exact decide_eq_decide.mpr (by rw [opened])
    · change deeds t after.mgr.trace = _
      rw [trace, deeds_append]
      rfl
  · intro other different
    refine .inl ⟨⟨by rw [created], by rw [unadded], by rw [opened], closed other different⟩,
      cells other different, by rw [fresh], fun _ => Iff.rfl, ?_⟩
    rw [trace, deeds_append, silent other different, List.append_nil]

theorem Keeps.leave (keeps : host.Keeps find) (present : after.gone = false)
    (stored : find cell.id = some t) (found : host.mgr.tubes.cells t = some cell)
    (holds : after.mgr.Holds (Function.update find cell.id none))
    (erased : after.mgr.tubes.cells t = none)
    (cells : ∀ other, other ≠ t → after.mgr.tubes.cells other = host.mgr.tubes.cells other)
    (fresh : after.mgr.tubes.fresh = host.mgr.tubes.fresh)
    (trace : after.mgr.trace = host.mgr.trace ++ effects)
    (silent : ∀ other, other ≠ t → deeds other effects = [])
    (step : Phase.Step (.managed (host.glimpse find t).origin cell.state) (deeds t effects)
      (.destroyed (host.glimpse find t).origin))
    (listed : ∀ other, Listed host after other) :
    host.Advances after find (Function.update find cell.id none) := by
  obtain ⟨_, _, _, free⟩ := keeps.stored stored
  have kept : ∀ id other, Function.update find cell.id none id = some other ↔
      find id = some other ∧ id ≠ cell.id := by
    intro id other
    by_cases here : id = cell.id
    · rw [here, Function.update_self]
      simp
    · rw [Function.update_of_ne here]
      simp [here]
  have only : ∀ id, find id = some t → id = cell.id := by
    intro id member
    obtain ⟨same, foundSame, own, _⟩ := keeps.stored member
    rw [found] at foundSame
    cases foundSame
    exact own.symm
  refine keeps.of_touched (t := t) holds present ?_ ?_
  · have ended := (keeps.good t).ended found (decide_eq_false free) step
    rw [@glimpse_eq host after find _ t (listed t)]
    refine ended.of_eq (Glimpse.ext erased ?_ ?_ rfl rfl rfl rfl ?_)
    · exact decide_eq_decide.mpr (by rw [fresh])
    · funext id
      refine decide_eq_false ?_
      rw [kept]
      exact fun member => member.2 (only id member.1)
    · change deeds t after.mgr.trace = _
      rw [trace, deeds_append]
      rfl
  · intro other different
    refine .inl ⟨listed other, cells other different, by rw [fresh], ?_, ?_⟩
    · intro id
      rw [kept]
      refine ⟨And.left, fun member => ⟨member, ?_⟩⟩
      rintro rfl
      rw [stored] at member
      exact different (Option.some.inj member).symm
    · rw [trace, deeds_append, silent other different, List.append_nil]

theorem Keeps.join (keeps : host.Keeps find) (present : after.gone = false) {base : TubeManager}
    {table : HTable TubeKey Nat} (holds : base.Holds find)
    (found : base.tubes.cells t = some cell) (new : ∀ id, find id ≠ some t)
    (cells : ∀ other, other ≠ t → base.tubes.cells other = host.mgr.tubes.cells other)
    (fresh : ∀ other, other ≠ t →
      (other < base.tubes.fresh ↔ other < host.mgr.tubes.fresh))
    (trace : base.trace = host.mgr.trace)
    (registers : Registers table (Function.update find cell.id (some t)))
    (became : after.mgr = ((base.withTable table).evict env (find cell.id)).noted effects)
    (silent : ∀ other, other ≠ t → deeds other effects = [])
    (listed : ∀ other, other ≠ t → Listed host after other)
    (turn : (host.glimpse find t).Turn { after.glimpse find t with
      cell := some cell
      found := fun id => decide (id = cell.id)
      story := deeds t host.mgr.trace ++ deeds t effects }) :
    host.Advances after find (Function.update find cell.id (some t)) := by
  have live : ∀ old, find cell.id = some old →
      ∃ oldCell, (base.withTable table).tubes.cells old = some oldCell := by
    intro old taken
    obtain ⟨oldCell, foundOld, _⟩ := holds.live _ old taken
    exact ⟨oldCell, foundOld⟩
  have tubes : ∀ other, find cell.id ≠ some other →
      after.mgr.tubes.cells other = base.tubes.cells other := by
    intro other different
    rw [became]
    exact evict_cells_of_ne different
  have story : ∀ other, deeds other after.mgr.trace =
      (deeds other host.mgr.trace ++ if find cell.id = some other then [.destroyed] else []) ++
        deeds other effects := by
    intro other
    rw [became, deeds_noted, deeds_evict live other]
    exact congrArg (fun trace => (deeds other trace ++ _) ++ _) trace
  have born : after.mgr.tubes.fresh = base.tubes.fresh := by
    rw [became]
    exact evict_fresh ..
  refine keeps.of_touched (t := t) (became ▸ (holds.replace found new registers).noted effects)
    present ?_ ?_
  · refine turn.of_eq (Glimpse.ext ((tubes t (new _)).trans found) rfl ?_ rfl rfl rfl rfl ?_)
    · funext id
      refine decide_eq_decide.mpr ?_
      by_cases here : id = cell.id
      · rw [here, Function.update_self]
        exact ⟨fun _ => rfl, fun _ => rfl⟩
      · rw [Function.update_of_ne here]
        exact ⟨fun stored => absurd stored (new id), fun same => absurd same here⟩
    · change deeds t after.mgr.trace = _
      rw [story, if_neg (new _), List.append_nil]
  · intro other different
    have fresh' : other < after.mgr.tubes.fresh ↔ other < host.mgr.tubes.fresh := by
      rw [born]
      exact fresh other different
    by_cases displaced : find cell.id = some other
    · obtain ⟨oldCell, foundOld, own, free⟩ := keeps.stored displaced
      have ended := (keeps.good other).ended foundOld (decide_eq_false free)
        (.dropped _ oldCell.state)
      refine .inr ?_
      rw [@glimpse_eq host after find _ other (listed other different)]
      refine ended.of_eq (Glimpse.ext ?_ (decide_eq_decide.mpr fresh') ?_ rfl rfl rfl rfl ?_)
      · rw [became, displaced]
        exact evict_cells_self ..
      · funext id
        refine decide_eq_false ?_
        intro stored
        by_cases here : id = cell.id
        · rw [here, Function.update_self] at stored
          exact different (Option.some.inj stored).symm
        · rw [Function.update_of_ne here] at stored
          exact here (holds.injective stored displaced)
      · change deeds other after.mgr.trace = _
        rw [story, if_pos displaced, silent other different, List.append_nil]
        rfl
    · refine .inl ⟨listed other different, ?_, fresh', ?_, ?_⟩
      · exact (tubes other displaced).trans (cells other different)
      · intro id
        by_cases here : id = cell.id
        · rw [here, Function.update_self]
          exact ⟨fun same => absurd (Option.some.inj same).symm different,
            fun stored => absurd stored displaced⟩
        · rw [Function.update_of_ne here]
      · rw [story, if_neg displaced, silent other different, List.append_nil, List.append_nil]

end Changes

def Acknowledges (library : CborLibrary) (host : Host) (request : Request) (t : Nat) : Prop :=
  ∃ env hasErr received msg, request = .receive env hasErr received ∧
    spudParse library received.buf = .ok msg ∧
    SpudCommand.ofFlags msg.header.flags = .spudAck ∧
    host.mgr.lookup msg.header.tubeId = .ok (some t)

/-- A host goes on and adds to its record; the event running is for an `ACK`. -/
structure Proceeds (library : CborLibrary) (host : Host) (request : Request) (after : Host)
    (find later : SpudTubeId → Option Nat) : Prop extends Advances host after find later where
  record : ∃ effects, after.mgr.trace = host.mgr.trace ++ effects ∧
    ∀ d, .triggered (.running d) ∈ effects → Acknowledges library host request d.t

section Records

variable {library : CborLibrary} {host after : Host} {find later : SpudTubeId → Option Nat}
  {t : Nat} {env : Environment} {request : Request}

theorem Advances.quietly (advances : host.Advances after find later) {effects : List Effect}
    (trace : after.mgr.trace = host.mgr.trace ++ effects)
    (quiet : ∀ d, .triggered (.running d) ∉ effects) :
    Proceeds library host request after find later :=
  ⟨advances, effects, trace, fun d member => absurd member (quiet d)⟩

theorem effects_quiet (env : Environment) (datagram : Datagram) (notice : Notice) :
    .triggered notice ∉ env.effects datagram := by
  unfold Environment.effects
  split_ifs <;> simp

theorem leaving_quiet (env : Environment) (cell : Tube) (t : Nat) (notice : Notice) :
    Effect.triggered notice ∉ env.closing cell ++ [.destroyed t] := by
  unfold Environment.closing Environment.effects
  split_ifs <;> simp

theorem evict_trace (mgr : TubeManager) (env : Environment) (old : Option Nat) :
    ∃ effects, (mgr.evict env old).trace = mgr.trace ++ effects ∧
      ∀ notice, .triggered notice ∉ effects := by
  cases old with
  | none => exact ⟨[], (List.append_nil _).symm, fun _ => nofun⟩
  | some t =>
    cases found : mgr.tubes.cells t with
    | none =>
      refine ⟨[], ?_, fun _ => nofun⟩
      simp only [TubeManager.evict, found, List.append_nil]
    | some cell => exact ⟨_, by rw [evict_some found], leaving_quiet env cell t⟩

theorem Advances.entering (advances : host.Advances after find later) {base : TubeManager}
    {table : HTable TubeKey Nat} {old : Option Nat} {effects : List Effect}
    (trace : base.trace = host.mgr.trace)
    (became : after.mgr = ((base.withTable table).evict env old).noted effects)
    (quiet : ∀ d, .triggered (.running d) ∉ effects) :
    Proceeds library host request after find later := by
  obtain ⟨evicted, same, silent⟩ := evict_trace (base.withTable table) env old
  have whole : after.mgr.trace = host.mgr.trace ++ (evicted ++ effects) := by
    rw [became, TubeManager.noted, same, List.append_assoc]
    exact congrArg (· ++ _) trace
  refine advances.quietly whole ?_
  intro d member
  rcases List.mem_append.mp member with member | member
  · exact silent _ member
  · exact quiet d member

end Records

end Host

end SpudLib
