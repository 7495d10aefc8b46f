import SpudLib.Tube.Calls

/-!
# The events add and remove

Applications keep something for each tube from its event add to its event
remove.  The events mirror the table as long as no tube is displaced by another
with its identifier, and no tube is removed in the name of another.
-/

namespace SpudLib

open TubeManager

def TubeManager.tubeManagerSize (mgr : TubeManager) : Nat := mgr.table.lsHtableGetCount

def tally (tubes : List Nat) : Effect → List Nat
  | .triggered (.add t) => tubes ++ [t]
  | .triggered (.remove t) => tubes.filter fun other => other ≠ t
  | _ => tubes

/-- The tubes for which an event add was triggered that no event remove followed. -/
def outstanding (effects : List Effect) : List Nat := effects.foldl tally []

section Tally

variable {env : Environment} {effects : List Effect}

theorem outstanding_append (first second : List Effect) :
    outstanding (first ++ second) = second.foldl tally (outstanding first) :=
  List.foldl_append

def Unheard (effects : List Effect) : Prop :=
  ∀ t, .triggered (.add t) ∉ effects ∧ .triggered (.remove t) ∉ effects

theorem tally_unheard (unheard : Unheard effects) (tubes : List Nat) :
    effects.foldl tally tubes = tubes := by
  induction effects generalizing tubes with
  | nil => rfl
  | cons effect rest inductionHypothesis =>
    have later : Unheard rest := fun t =>
      ⟨fun member => (unheard t).1 (List.mem_cons_of_mem _ member),
        fun member => (unheard t).2 (List.mem_cons_of_mem _ member)⟩
    have same : tally tubes effect = tubes := by
      cases effect with
      | triggered notice =>
        cases notice with
        | add t => exact absurd List.mem_cons_self (unheard t).1
        | remove t => exact absurd List.mem_cons_self (unheard t).2
        | running d => rfl
        | data d => rfl
        | close d => rfl
      | sent datagram answer => rfl
      | destroyed t => rfl
    rw [List.foldl_cons, same]
    exact inductionHypothesis later tubes

theorem unheard_closing (env : Environment) (cell : Tube) (t : Nat) :
    Unheard (env.closing cell ++ [.destroyed t]) := by
  intro other
  unfold Environment.closing Environment.effects
  split_ifs <;> simp

end Tally

namespace TubeManager

/-- The tubes with an outstanding event are exactly those in the table. -/
structure Mirrors (mgr : TubeManager) (find : SpudTubeId → Option Nat) : Prop where
  holds : mgr.Holds find
  once : (outstanding mgr.trace).Nodup
  exact : ∀ t, t ∈ outstanding mgr.trace ↔ ∃ id, find id = some t

variable {mgr after : TubeManager} {find : SpudTubeId → Option Nat} {t : Nat} {id : SpudTubeId}

theorem Mirrors.quiet (mirrors : mgr.Mirrors find) (holds : after.Holds find)
    (same : outstanding after.trace = outstanding mgr.trace) : after.Mirrors find := by
  refine ⟨holds, ?_, ?_⟩
  · rw [same]
    exact mirrors.once
  · rw [same]
    exact mirrors.exact

theorem Mirrors.enters (mirrors : mgr.Mirrors find)
    (holds : after.Holds (Function.update find id (some t))) (missing : find id = none)
    (new : ∀ other, find other ≠ some t)
    (added : outstanding after.trace = outstanding mgr.trace ++ [t]) :
    after.Mirrors (Function.update find id (some t)) := by
  refine ⟨holds, ?_, ?_⟩
  · rw [added]
    refine List.nodup_append.mpr ⟨mirrors.once, List.nodup_singleton t, ?_⟩
    intro other member second inside same
    rw [List.mem_singleton.mp inside] at same
    subst same
    obtain ⟨name, stored⟩ := (mirrors.exact other).mp member
    exact new name stored
  · intro other
    rw [added, List.mem_append, List.mem_singleton, mirrors.exact]
    constructor
    · rintro (⟨name, stored⟩ | rfl)
      · refine ⟨name, ?_⟩
        rw [Function.update_of_ne]
        · exact stored
        · rintro rfl
          rw [missing] at stored
          cases stored
      · exact ⟨id, Function.update_self ..⟩
    · rintro ⟨name, stored⟩
      by_cases here : name = id
      · rw [here, Function.update_self] at stored
        exact .inr (Option.some.inj stored).symm
      · rw [Function.update_of_ne here] at stored
        exact .inl ⟨name, stored⟩

theorem Mirrors.leaves (mirrors : mgr.Mirrors find)
    (holds : after.Holds (Function.update find id none)) (stored : find id = some t)
    (removed : outstanding after.trace =
      (outstanding mgr.trace).filter fun other => other ≠ t) :
    after.Mirrors (Function.update find id none) := by
  refine ⟨holds, ?_, ?_⟩
  · rw [removed]
    exact mirrors.once.filter _
  · intro other
    rw [removed, List.mem_filter, mirrors.exact, decide_eq_true_eq]
    constructor
    · rintro ⟨⟨name, found⟩, different⟩
      refine ⟨name, ?_⟩
      rw [Function.update_of_ne]
      · exact found
      · rintro rfl
        rw [stored] at found
        exact different (Option.some.inj found).symm
    · rintro ⟨name, found⟩
      by_cases here : name = id
      · rw [here, Function.update_self] at found
        cases found
      · rw [Function.update_of_ne here] at found
        refine ⟨⟨name, found⟩, ?_⟩
        rintro rfl
        exact here (mirrors.holds.injective found stored)

theorem Mirrors.absent (mirrors : mgr.Mirrors find) (missing : ∀ other, find other ≠ some t) :
    ((outstanding mgr.trace).filter fun other => other ≠ t) = outstanding mgr.trace := by
  refine List.filter_eq_self.mpr ?_
  intro other member
  refine decide_eq_true ?_
  rintro rfl
  obtain ⟨name, stored⟩ := (mirrors.exact other).mp member
  exact missing name stored

theorem Mirrors.size (mirrors : mgr.Mirrors find) :
    (outstanding mgr.trace).length = mgr.tubeManagerSize := by
  have registers := mirrors.holds.registers
  let tubes := mgr.table.nodes.map fun p => p.value.getD 0
  have stored : ∀ p ∈ mgr.table.nodes, find p.key.id = some (p.value.getD 0) := by
    intro p member
    obtain ⟨t, found, _, value, _⟩ := registers.node member
    rw [show p.value = some t from value]
    exact found
  have nodup : tubes.Nodup := by
    rw [List.nodup_iff_pairwise_ne, List.pairwise_map]
    refine (List.pairwise_map.mp (List.nodup_iff_pairwise_ne.mp registers.ids_nodup)).imp_of_mem ?_
    intro p q memberP memberQ different same
    refine different (mirrors.holds.injective (stored p memberP) ?_)
    rw [same]
    exact stored q memberQ
  have same : (outstanding mgr.trace).Perm tubes := by
    refine (List.perm_ext_iff_of_nodup mirrors.once nodup).mpr ?_
    intro t
    rw [mirrors.exact, List.mem_map]
    constructor
    · rintro ⟨id, found⟩
      obtain ⟨slot, member, belongs⟩ := registers.all id t found
      obtain ⟨p, inside, rfl⟩ := List.mem_map.mp member
      refine ⟨p, inside, ?_⟩
      rw [show p.value = some t from belongs.2.1]
      rfl
    · rintro ⟨p, member, rfl⟩
      exact ⟨_, stored p member⟩
  rw [same.length_eq, List.length_map]
  exact registers.wf.exact.symm

end TubeManager

section Functions

variable {mgr : TubeManager} {env : Environment} {find : SpudTubeId → Option Nat} {t : Nat}
  {cell : Tube}

theorem TubeManager.Mirrors.add (mirrors : mgr.Mirrors find) (found : mgr.tubes.cells t = some cell)
    (missing : find cell.id = none) (succeeds : env.Succeeds) (roomy : mgr.table.Roomy) :
    ∃ after, (tubeManagerAdd env t).straight mgr = .ok (true, after) ∧
      after.Mirrors (Function.update find cell.id (some t)) := by
  have holds := mirrors.holds
  have new : ∀ other, find other ≠ some t := by
    intro other stored
    obtain ⟨same, foundSame, own⟩ := holds.live other t stored
    rw [found] at foundSame
    cases foundSame
    rw [own, stored] at missing
    cases missing
  obtain ⟨table, returned, registers⟩ := tubeManagerAdd_succeeds holds found succeeds roomy
  have replaced := @Holds.replace mgr env find t cell holds table found new registers
  refine ⟨_, returned, mirrors.enters (replaced.noted _) missing new ?_⟩
  rw [missing]
  exact outstanding_append _ _

theorem TubeManager.Mirrors.remove (mirrors : mgr.Mirrors find)
    (found : mgr.tubes.cells t = some cell)
    (own : find cell.id = some t ∨ find cell.id = none) (succeeds : env.Succeeds) :
    ∃ after, (tubeManagerRemove env t).straight mgr = .ok ((), after) ∧
      after.Mirrors (Function.update find cell.id none) := by
  have holds := mirrors.holds
  obtain ⟨table, returned, registers⟩ := @tubeManagerRemove_straight _ env _ _ _ holds found
  refine ⟨_, returned, ?_⟩
  have dropped := @Holds.drop (mgr.noted (env.triggers (.remove t))) env find (holds.noted _)
    table cell.id registers
  rw [succeeds.triggers] at dropped ⊢
  have told : outstanding (mgr.noted [.triggered (.remove t)]).trace =
      (outstanding mgr.trace).filter fun other => other ≠ t := outstanding_append _ _
  rcases own with stored | missing
  · refine mirrors.leaves dropped stored ?_
    have live : ((mgr.noted [.triggered (.remove t)]).withTable table).tubes.cells t = some cell :=
      found
    rw [stored, evict_some live]
    refine (outstanding_append _ _).trans ?_
    rw [tally_unheard (unheard_closing env cell t)]
    exact told
  · rw [missing, evict_none] at dropped ⊢
    have same : Function.update find cell.id none = find := by
      rw [← missing]
      exact Function.update_eq_self _ _
    rw [same] at dropped ⊢
    refine mirrors.quiet dropped (told.trans (mirrors.absent ?_))
    intro other stored
    obtain ⟨same, foundSame, own⟩ := holds.live other t stored
    rw [found] at foundSame
    cases foundSame
    rw [own, stored] at missing
    cases missing

theorem TubeManager.Mirrors.openTube (mirrors : mgr.Mirrors find) (succeeds : env.Succeeds)
    (roomy : mgr.table.Roomy) {dest : SockAddr}
    (missing : dest.isInternet = true → ∀ id, env.randomId = some id → find id = none) :
    ∃ answer after later, (tubeManagerOpenTube env dest).straight mgr = .ok (answer, after) ∧
      after.Mirrors later := by
  have holds := mirrors.holds
  have created := created_cells mgr Tube.created
  rcases tubeManagerOpenTube_succeeds holds succeeds roomy dest with
    failed | ⟨cell, table, _, ⟨drawn, internet⟩, opened, registers⟩
  · refine ⟨_, _, find, failed, mirrors.quiet ?_ ?_⟩
    · refine holds.keep ((evict_table ..).trans rfl) ?_
      intro id t cell stored found
      have old : t ≠ mgr.tubes.fresh := Nat.ne_of_lt (Memory.lt_fresh found)
      refine ⟨cell, (evict_cells_of_ne fun same => old (Option.some.inj same).symm).trans ?_, rfl⟩
      exact Memory.alloc_cells_of_some _ _ found
    · rw [evict_some created]
      refine (outstanding_append _ _).trans ?_
      exact tally_unheard (unheard_closing env _ _) _
  · have free := missing internet cell.id drawn
    have replaced := @Holds.replace (mgr.created cell) env find mgr.tubes.fresh cell
      (holds.created cell) table (created_cells mgr cell) holds.unused registers
    refine ⟨_, _, _, opened, mirrors.enters (replaced.noted _) free holds.unused ?_⟩
    rw [free]
    exact outstanding_append _ _

theorem TubeManager.Mirrors.obey (mirrors : mgr.Mirrors find) (succeeds : env.Succeeds)
    {d : TubeEventData} (found : mgr.tubes.cells d.t = some cell)
    (stored : find cell.id = some d.t) (cmd : SpudCommand) :
    ∃ after later, (obey env d cmd).straight mgr = .ok (.next, after) ∧ after.Mirrors later := by
  have holds := mirrors.holds
  by_cases idle : Environment.acts cmd cell.state = false
  · exact ⟨mgr, find, obey_idle found idle, mirrors⟩
  · rw [Bool.not_eq_false] at idle
    cases cmd with
    | spudOpen => cases idle
    | spudData =>
      have returned := @obey_data _ env _ _ found (of_decide_eq_true idle)
      rw [succeeds.verdict, succeeds.triggers] at returned
      exact ⟨_, find, returned, mirrors.quiet (holds.noted _) (outstanding_append _ _)⟩
    | spudAck =>
      have returned := @obey_ack _ env _ _ found (of_decide_eq_true idle)
      rw [succeeds.verdict, succeeds.triggers] at returned
      have changed := @Holds.setTube mgr find d.t cell holds found { cell with state := .running }
        (.inl rfl)
      exact ⟨_, find, returned, mirrors.quiet (changed.noted _) (outstanding_append _ _)⟩
    | spudClose =>
      have known : cell.state ≠ .unknown := of_decide_eq_true idle
      obtain ⟨table, returned, registers⟩ :=
        obey_close holds stored found known (succeeds.granted _)
      rw [succeeds.triggers] at returned
      refine ⟨_, _, returned, mirrors.leaves ?_ stored (outstanding_append _ _)⟩
      refine ⟨registers, ?_⟩
      intro id other member
      by_cases here : id = cell.id
      · rw [here, Function.update_self] at member
        cases member
      · rw [Function.update_of_ne here] at member
        obtain ⟨old, foundOld, own⟩ := holds.live id other member
        refine ⟨old, (Memory.erase_cells_of_ne _ ?_).trans foundOld, own⟩
        rintro rfl
        exact here (holds.injective member stored)

theorem TubeManager.Mirrors.handle (mirrors : mgr.Mirrors find) (succeeds : env.Succeeds)
    (roomy : mgr.table.Roomy) (received : Reception) (msg : SpudMessage) :
    ∃ after later, (handleMessage env received msg).straight mgr = .ok (.next, after) ∧
      after.Mirrors later := by
  have holds := mirrors.holds
  cases stored : find msg.header.tubeId with
  | some t =>
    obtain ⟨cell, found, own⟩ := holds.live _ t stored
    rw [handleMessage_found holds stored]
    exact @Mirrors.obey mgr env find cell mirrors succeeds ⟨t, msg.cbor, received.source⟩ found
      (own ▸ stored) _
  | none =>
    by_cases responds : mgr.Responds msg
    · obtain ⟨table, handled, registers⟩ :=
        handleMessage_accepts holds succeeds roomy received stored responds
      exact ⟨_, _, handled, mirrors.enters (holds.accepted stored registers _) stored
        holds.unused (outstanding_append _ _)⟩
    · exact ⟨mgr, find, handleMessage_ignored holds stored responds, mirrors⟩

theorem TubeManager.Mirrors.receive (mirrors : mgr.Mirrors find) (succeeds : env.Succeeds)
    (roomy : mgr.table.Roomy) {library : CborLibrary} {hasErr : Bool} {received : Reception}
    {verdict : Verdict} {after : TubeManager}
    (returned : (tubeManagerLoopBody env library hasErr received).straight mgr =
      .ok (verdict, after)) : ∃ later, after.Mirrors later := by
  have now : (mgr.at env received).Mirrors find :=
    mirrors.quiet (mirrors.holds.at env received) rfl
  have filled : received.buf ≠ [] := by
    intro empty
    rw [tubeManagerLoopBody_empty empty] at returned
    cases returned
  cases parsed : spudParse library received.buf with
  | error reason =>
    rw [tubeManagerLoopBody_rejected filled parsed] at returned
    split_ifs at returned
    cases returned
    exact ⟨find, now⟩
  | ok msg =>
    obtain ⟨last, later, handled, mirrorsLast⟩ := now.handle succeeds roomy received msg
    rw [tubeManagerLoopBody_parsed filled parsed, handled] at returned
    cases returned
    exact ⟨later, mirrorsLast⟩

end Functions

inductive Handling where
  | create (env : Environment)
  | setInfo (t : Nat) (socket : Int) (peer : Option SockAddr) (id : Option SpudTubeId)
  | setState (t : Nat) (state : TubeState)
  | add (env : Environment) (t : Nat)
  | openTube (env : Environment) (dest : SockAddr)
  | remove (env : Environment) (t : Nat)
  | receive (env : Environment) (hasErr : Bool) (received : Reception)

namespace TubeManager

def handle (mgr : TubeManager) (library : CborLibrary) : Handling → Exec TubeManager
  | .create env => do
      let (_, after) ← (tubeCreate env).straight mgr
      pure after
  | .setInfo t socket peer id => do
      let (_, after) ← (tubeSetInfo t socket peer id).straight mgr
      pure after
  | .setState t state => do
      let (_, after) ← (tubeSetState t state).straight mgr
      pure after
  | .add env t => do
      let (_, after) ← (tubeManagerAdd env t).straight mgr
      pure after
  | .openTube env dest => do
      let (_, after) ← (tubeManagerOpenTube env dest).straight mgr
      pure after
  | .remove env t => do
      let (_, after) ← (tubeManagerRemove env t).straight mgr
      pure after
  | .receive env hasErr received => do
      let (_, after) ← (tubeManagerLoopBody env library hasErr received).straight mgr
      pure after

def Live (mgr : TubeManager) (t : Nat) : Prop := (mgr.tubes.cells t).isSome

/-- Calls are about tubes that were created, whether in the table or not; the identifier of a
tube in the table is not changed; allocations and sends succeed. -/
def MayHandle (mgr : TubeManager) : Handling → Prop
  | .create env => env.Succeeds
  | .setInfo t _ peer _ =>
      mgr.Live t ∧ ¬ mgr.InTable t ∧ ∀ addr, peer = some addr → addr.isInternet = true
  | .setState t _ => mgr.Live t
  | .add env t => mgr.Live t ∧ env.Succeeds ∧ mgr.table.Roomy
  | .remove env t => mgr.Live t ∧ env.Succeeds
  | .openTube env _ | .receive env _ _ => env.Succeeds ∧ mgr.table.Roomy

def handling (library : CborLibrary) : System TubeManager Handling where
  Enabled := MayHandle
  step mgr request := mgr.handle library request

def Unused (mgr : TubeManager) (t : Nat) : Prop :=
  ∀ cell, mgr.tubes.cells t = some cell → mgr.lookup cell.id = .ok none

/-- A tube enters the table under an identifier that is not in use, and the tube that is
removed is in the table or its identifier is not in use. -/
def KeepsApart (mgr : TubeManager) : Handling → Prop
  | .add _ t => mgr.Unused t
  | .openTube env dest =>
      dest.isInternet = true → ∀ id, env.randomId = some id → mgr.lookup id = .ok none
  | .remove _ t => mgr.InTable t ∨ mgr.Unused t
  | _ => True

variable {mgr after start last : TubeManager} {library : CborLibrary} {request : Handling}
  {find : SpudTubeId → Option Nat} {t : Nat}

theorem Mirrors.step (mirrors : mgr.Mirrors find)
    (enabled : ((handling library).restrict KeepsApart).Enabled mgr request)
    (stepped : (handling library).step mgr request = .ok after) : ∃ later, after.Mirrors later := by
  have holds := mirrors.holds
  obtain ⟨may, apart⟩ := enabled
  have missing : ∀ {id}, mgr.lookup id = .ok none → find id = none := by
    intro id looked
    rw [holds.lookup, Except.ok.injEq] at looked
    exact looked
  cases request with
  | create env =>
    obtain ⟨⟨_, last⟩, returned, same⟩ := Exec.bind_eq_ok.mp stepped
    cases same
    have created := @tubeCreate_granted mgr env (may.granted _)
    rw [Proc.straight_of_done created] at returned
    cases returned
    exact ⟨find, mirrors.quiet (holds.created _) rfl⟩
  | setInfo t socket peer id =>
    obtain ⟨live, absent, internet⟩ := may
    obtain ⟨cell, found⟩ := Option.isSome_iff_exists.mp live
    obtain ⟨⟨_, last⟩, returned, same⟩ := Exec.bind_eq_ok.mp stepped
    cases same
    obtain ⟨changed, set⟩ := Host.tubeSetInfo_ok found socket id internet
    rw [Proc.straight_of_done set] at returned
    cases returned
    refine ⟨find, mirrors.quiet (holds.setTube found (.inr ?_)) rfl⟩
    intro name stored
    refine absent ⟨name, ?_⟩
    rw [holds.lookup, stored]
  | setState t state =>
    obtain ⟨cell, found⟩ := Option.isSome_iff_exists.mp may
    obtain ⟨⟨_, last⟩, returned, same⟩ := Exec.bind_eq_ok.mp stepped
    cases same
    rw [Proc.straight_of_done (tubeSetState_ok found state)] at returned
    cases returned
    have changed := @Holds.setTube mgr find t cell holds found { cell with state := state }
      (.inl rfl)
    exact ⟨find, mirrors.quiet changed rfl⟩
  | add env t =>
    obtain ⟨live, succeeds, roomy⟩ := may
    obtain ⟨cell, found⟩ := Option.isSome_iff_exists.mp live
    obtain ⟨⟨_, last⟩, returned, same⟩ := Exec.bind_eq_ok.mp stepped
    cases same
    obtain ⟨reached, added, kept⟩ :=
      mirrors.add found (missing (apart cell found)) succeeds roomy
    rw [added] at returned
    cases returned
    exact ⟨_, kept⟩
  | openTube env dest =>
    obtain ⟨succeeds, roomy⟩ := may
    obtain ⟨⟨_, last⟩, returned, same⟩ := Exec.bind_eq_ok.mp stepped
    cases same
    obtain ⟨_, reached, later, opened, kept⟩ := mirrors.openTube succeeds roomy
      fun internet id drawn => missing (apart internet id drawn)
    rw [opened] at returned
    cases returned
    exact ⟨later, kept⟩
  | remove env t =>
    obtain ⟨live, succeeds⟩ := may
    obtain ⟨cell, found⟩ := Option.isSome_iff_exists.mp live
    obtain ⟨⟨_, last⟩, returned, same⟩ := Exec.bind_eq_ok.mp stepped
    cases same
    have own : find cell.id = some t ∨ find cell.id = none := by
      rcases apart with ⟨id, stored⟩ | unused
      · rw [holds.lookup, Except.ok.injEq] at stored
        obtain ⟨other, foundOther, mine⟩ := holds.live id t stored
        rw [found] at foundOther
        cases foundOther
        rw [mine]
        exact .inl stored
      · exact .inr (missing (unused cell found))
    obtain ⟨reached, removed, kept⟩ := mirrors.remove found own succeeds
    rw [removed] at returned
    cases returned
    exact ⟨_, kept⟩
  | receive env hasErr received =>
    obtain ⟨⟨_, last⟩, returned, same⟩ := Exec.bind_eq_ok.mp stepped
    cases same
    exact mirrors.receive may.1 may.2 returned

theorem IsNew.mirrors (new : mgr.IsNew) : mgr.Mirrors fun _ => none := by
  obtain ⟨_, _, _, _, _, _, _, base, refused, created, rfl⟩ := new
  obtain ⟨holds, _, trace⟩ := tubeManagerCreate_ok refused created
  have nothing : outstanding base.trace = [] := by
    rw [trace]
    rfl
  refine ⟨⟨holds.registers, nofun⟩, ?_, ?_⟩
  · exact nothing ▸ List.nodup_nil
  · intro t
    constructor
    · intro member
      exact absurd (nothing ▸ member) List.not_mem_nil
    · rintro ⟨_, stored⟩
      cases stored

/-- As long as no identifier is used for two tubes at a time, the tubes with an event add
that no event remove has followed are those in the table, each once. -/
theorem run_mirrors (library : CborLibrary) (start last : TubeManager) (requests : List Handling)
    (new : start.IsNew)
    (run : ((handling library).restrict KeepsApart).Run start requests last) :
    (outstanding last.trace).Nodup ∧ (∀ t, t ∈ outstanding last.trace ↔ last.InTable t) ∧
      (outstanding last.trace).length = last.tubeManagerSize := by
  obtain ⟨find, mirrors⟩ : ∃ find, last.Mirrors find := by
    refine run.preserves (fun mgr => ∃ find, mgr.Mirrors find) ?_ ⟨_, new.mirrors⟩
    rintro mgr request next ⟨find, mirrors⟩ enabled stepped
    exact mirrors.step enabled stepped
  refine ⟨mirrors.once, ?_, mirrors.size⟩
  intro t
  rw [mirrors.exact]
  constructor
  · rintro ⟨id, stored⟩
    exact ⟨id, (mirrors.holds.lookup id).trans (congrArg Except.ok stored)⟩
  · rintro ⟨id, stored⟩
    rw [mirrors.holds.lookup, Except.ok.injEq] at stored
    exact ⟨id, stored⟩

theorem newResponder_isNew : newResponder.IsNew := by
  refine ⟨3, true, fun size => decide (size < 2 ^ 30), ⟨0, 0⟩, 4, 6, tpWillRespond, _, ?_, rfl, rfl⟩
  exact fun _ huge => decide_eq_false (Nat.not_lt.mpr huge)

theorem run_mirrors_added : ∃ last : TubeManager, last.InTable 0 ∧ 0 ∈ outstanding last.trace ∧
    (outstanding last.trace).length = last.tubeManagerSize := by
  obtain ⟨last, run, inTable⟩ : ∃ last, ((handling minimalCbor).restrict KeepsApart).Run
      newResponder [.create obliging, .add obliging 0] last ∧ last.InTable 0 := by
    refine System.Run.exists_cons ⟨obliging_succeeds, trivial⟩ rfl ?_
    refine System.Run.exists_cons ⟨⟨rfl, obliging_succeeds, by decide⟩, ?_⟩ rfl ?_
    · rintro _ ⟨⟩
      rfl
    exact ⟨_, .nil _, ⟨fun _ => 0⟩, rfl⟩
  obtain ⟨_, exact_, size⟩ := run_mirrors minimalCbor newResponder last _ newResponder_isNew run
  exact ⟨last, inTable, (exact_ 0).mpr inTable, size⟩

/-- Two tubes with the same identifier are added: the first is destroyed and nothing is said. -/
theorem displaced_outstanding : ∃ last : TubeManager, newResponder.IsNew ∧
    (handling minimalCbor).Run newResponder
      [.create obliging, .create obliging, .add obliging 0, .add obliging 1] last ∧
    outstanding last.trace = [0, 1] ∧ last.tubes.cells 0 = none ∧ last.tubeManagerSize = 1 := by
  suffices displaced : ∃ last, (handling minimalCbor).Run newResponder
      [.create obliging, .create obliging, .add obliging 0, .add obliging 1] last ∧
      outstanding last.trace = [0, 1] ∧ last.tubes.cells 0 = none ∧ last.tubeManagerSize = 1 by
    obtain ⟨last, run, known⟩ := displaced
    exact ⟨last, newResponder_isNew, run, known⟩
  refine System.Run.exists_cons obliging_succeeds rfl ?_
  refine System.Run.exists_cons obliging_succeeds rfl ?_
  refine System.Run.exists_cons_seen (fun mgr : TubeManager =>
      ((mgr.tubes.cells 1).isSome, decide mgr.table.Roomy,
        (mgr.handle minimalCbor (.add obliging 1)).toOption.map fun last =>
          (outstanding last.trace, (last.tubes.cells 0).isNone, last.tubeManagerSize)))
    ⟨rfl, obliging_succeeds, by decide⟩
    (show _ = some (true, true, some ([0, 1], true, 1)) by decide +kernel) ?_
  intro added seen
  obtain ⟨live, seen⟩ := Prod.mk.inj seen
  obtain ⟨roomy, seen⟩ := Prod.mk.inj seen
  obtain ⟨last, returned, seen⟩ := Exec.exists_of_map _ seen
  obtain ⟨outstands, seen⟩ := Prod.mk.inj seen
  obtain ⟨gone, size⟩ := Prod.mk.inj seen
  refine System.Run.exists_cons ⟨live, obliging_succeeds, of_decide_eq_true roomy⟩ returned ?_
  exact ⟨last, .nil last, outstands, Option.isNone_iff_eq_none.mp gone, size⟩

end TubeManager

end SpudLib
