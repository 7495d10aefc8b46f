import SpudLib.Tube.Mirroring
import SpudLib.Tube.Reaction

/-!
# Adding and opening tubes when something fails

A tube that could not be added or opened is to be in no table, and a call that
failed is to have changed nothing else.  The put comes before the event, and
the table destroys its tubes itself, so that both go wrong once the tube is in
the table.
-/

namespace SpudLib

open TubeManager

namespace Registers

variable {tbl after : HTable TubeKey Nat} {find : SpudTubeId → Option Nat} {id : SpudTubeId}

theorem mem_ids (registers : Registers tbl find) :
    id ∈ (tbl.nodes.map fun p => p.key.id) ↔ (find id).isSome := by
  rw [List.mem_map]
  constructor
  · rintro ⟨p, member, rfl⟩
    obtain ⟨t, stored, _⟩ := registers.node member
    rw [stored]
    rfl
  · intro taken
    obtain ⟨t, stored⟩ := Option.isSome_iff_exists.mp taken
    obtain ⟨slot, member, belongs⟩ := registers.all id t stored
    obtain ⟨p, inside, rfl⟩ := List.mem_map.mp member
    exact ⟨p, inside, congrArg TubeKey.id belongs.1⟩

theorem count_eq (registers : Registers tbl find) (still : Registers after find) :
    after.count = tbl.count := by
  have same : (after.nodes.map fun p => p.key.id).Perm (tbl.nodes.map fun p => p.key.id) := by
    refine (List.perm_ext_iff_of_nodup still.ids_nodup registers.ids_nodup).mpr fun id => ?_
    rw [still.mem_ids, registers.mem_ids]
  have length := same.length_eq
  rw [List.length_map, List.length_map] at length
  rw [still.wf.exact, registers.wf.exact, length]

theorem count_succ (registers : Registers tbl find) {t : Nat} (missing : find id = none)
    (grown : Registers after (Function.update find id (some t))) :
    after.count = tbl.count + 1 := by
  have new : id ∉ tbl.nodes.map fun p => p.key.id := by
    rw [registers.mem_ids, missing]
    exact Bool.false_ne_true
  have same : (after.nodes.map fun p => p.key.id).Perm
      (id :: tbl.nodes.map fun p => p.key.id) := by
    refine (List.perm_ext_iff_of_nodup grown.ids_nodup
      (List.nodup_cons.mpr ⟨new, registers.ids_nodup⟩)).mpr fun other => ?_
    rw [grown.mem_ids, List.mem_cons, registers.mem_ids]
    by_cases here : other = id
    · simp [here]
    · simp [here]
  have length := same.length_eq
  rw [List.length_cons, List.length_map, List.length_map] at length
  rw [grown.wf.exact, registers.wf.exact, length]

end Registers

namespace TubeManager

structure SameTubes (mgr after : TubeManager) : Prop where
  lookup : ∀ id, after.lookup id = mgr.lookup id
  size : after.tubeManagerSize = mgr.tubeManagerSize

structure Gains (mgr after : TubeManager) (id : SpudTubeId) (t : Nat) : Prop where
  own : after.lookup id = .ok (some t)
  others : ∀ other, other ≠ id → after.lookup other = mgr.lookup other
  size : mgr.lookup id = .ok none → after.tubeManagerSize = mgr.tubeManagerSize + 1

variable {mgr after : TubeManager} {find : SpudTubeId → Option Nat} {id : SpudTubeId} {t : Nat}

theorem SameTubes.of_registers (registers : Registers mgr.table find)
    (still : Registers after.table find) : mgr.SameTubes after := by
  constructor
  · intro id
    rw [TubeManager.lookup, still.get, TubeManager.lookup, registers.get]
  · exact registers.count_eq still

theorem Gains.of_registers (registers : Registers mgr.table find)
    (grown : Registers after.table (Function.update find id (some t))) :
    mgr.Gains after id t := by
  constructor
  · rw [TubeManager.lookup, grown.get, Function.update_self]
  · intro other different
    rw [TubeManager.lookup, grown.get, Function.update_of_ne different, TubeManager.lookup,
      registers.get]
  · intro missing
    rw [TubeManager.lookup, registers.get, Except.ok.injEq] at missing
    exact registers.count_succ missing grown

theorem Gains.not_sameTubes (gains : mgr.Gains after id t)
    (missing : mgr.lookup id = .ok none) : ¬ mgr.SameTubes after := by
  intro same
  have own := gains.own
  rw [same.lookup, missing] at own
  cases own

/-- `tube_manager_add` declines and leaves everything alone, or hands the tube in the
table to the callbacks of its event, and returns true whatever they do. -/
def AddsOrDeclines (mgr : TubeManager) (id : SpudTubeId) (t : Nat) :
    Outcome Notice TubeManager Bool → Prop
  | .done answer after =>
      answer = false ∧ mgr.SameTubes after ∧ after.tubes = mgr.tubes ∧ after.trace = mgr.trace
  | .fault _ => False
  | .calling notice after resume =>
      notice = .add t ∧ mgr.Gains after id t ∧
        after.trace = mgr.trace ++ [.triggered (.add t)] ∧
        ∀ later, resume later = .done true later

/-- For a tube whose identifier is not in use, `tube_manager_add` keeps to the contract
exactly when memory is refused for its node or granted for its event. -/
theorem tubeManagerAdd_declines_iff {mgr : TubeManager} (wellFormed : mgr.WellFormed)
    {t : Nat} {cell : Tube} (found : mgr.tubes.cells t = some cell)
    (unused : mgr.lookup cell.id = .ok none) {env : Environment}
    (refused : ∀ size, 2 ^ 30 ≤ size → env.calloc size = false) :
    mgr.AddsOrDeclines cell.id t ((tubeManagerAdd env t).run mgr) ↔
      (mgr.table.Accepts env.calloc (env.granted .node) →
        env.granted (.moment .add) = true) := by
  obtain ⟨find, holds⟩ := wellFormed
  have missing : find cell.id = none := by
    rw [holds.lookup] at unused
    exact Except.ok.inj unused
  obtain ⟨answer, table, returned, registers, _, accepted, accepts⟩ :=
    tubeManagerAdd_ok holds found refused
  rw [returned, missing, evict_none]
  cases answer with
  | false =>
    have same : mgr.SameTubes (mgr.withTable table) :=
      SameTubes.of_registers holds.registers registers
    refine iff_of_true ⟨rfl, same, rfl, rfl⟩ fun room => ?_
    cases accepted room
  | true =>
    have gains : mgr.Gains (mgr.withTable table) cell.id t :=
      Gains.of_registers holds.registers registers
    rw [if_pos rfl]
    cases granted : env.granted (.moment .add) with
    | false =>
      rw [lsEventTrigger_refused granted]
      refine iff_of_false ?_ fun enough => ?_
      · rintro ⟨_, same, _⟩
        exact gains.not_sameTubes unused same
      · exact Bool.false_ne_true (enough (accepts missing rfl))
    | true =>
      rw [lsEventTrigger_granted granted]
      refine iff_of_true ⟨rfl, ?_, rfl, fun _ => rfl⟩ fun _ => rfl
      exact ⟨gains.own, gains.others, gains.size⟩

def withoutMoments : Environment where
  granted allocation := match allocation with
    | .moment _ => false
    | _ => true
  calloc := obliging.calloc
  randomId := obliging.randomId
  sendmsg _ := true
  clock := obliging.clock

def besideTube : TubeManager := newResponder.created Tube.created

theorem besideTube_wellFormed : besideTube.WellFormed := ⟨_, newResponder_holds.created _⟩

theorem tubeManagerAdd_declines_iff_obliging :
    besideTube.AddsOrDeclines Tube.created.id 0 ((tubeManagerAdd obliging 0).run besideTube) :=
  (tubeManagerAdd_declines_iff besideTube_wellFormed (created_cells newResponder _) rfl
    obliging_refused).mpr fun _ => rfl

/-- Without memory for the event `tube_manager_add` returns false, and the tube is in the
table. -/
theorem refused_but_added : besideTube.WellFormed ∧ besideTube.Live 0 ∧
    besideTube.lookup Tube.created.id = .ok none ∧
    (∃ after, (tubeManagerAdd withoutMoments 0).straight besideTube = .ok (false, after) ∧
      after.lookup Tube.created.id = .ok (some 0) ∧ after.tubeManagerSize = 1) ∧
    ¬ besideTube.AddsOrDeclines Tube.created.id 0
      ((tubeManagerAdd withoutMoments 0).run besideTube) := by
  refine ⟨besideTube_wellFormed, rfl, rfl, ⟨_, rfl, rfl, rfl⟩, ?_⟩
  rintro ⟨_, same, _⟩
  exact absurd same.size (by decide)

end TubeManager

def Datagram.command (datagram : Datagram) : SpudCommand :=
  .ofFlags (SpudHeader.ofBytes datagram.bytes).flags

def destroyals (effects : List Effect) : List Nat :=
  effects.filterMap fun effect => match effect with
    | .destroyed t => some t
    | _ => none

namespace TubeManager

def sockFor (mgr : TubeManager) : SockAddr → Int
  | .inet .. => mgr.sock4
  | .inet6 .. => mgr.sock6
  | .other _ => -1

def tubeFor (mgr : TubeManager) (dest : SockAddr) (id : SpudTubeId) (state : TubeState) : Tube where
  state := state
  peer := dest
  id := id
  pktinfo := none
  sock := if 0 ≤ mgr.sockFor dest then mgr.sockFor dest else -1

def opening (mgr : TubeManager) (dest : SockAddr) (id : SpudTubeId) : Datagram :=
  (mgr.tubeFor dest id .opening).datagram .spudOpen false false []

/-- What a failed call leaves: the tubes of before, and none it has made. -/
structure OpensNothing (mgr : TubeManager) (env : Environment) (effects : List Effect)
    (after : TubeManager) : Prop where
  tubes : (∀ id, env.randomId = some id → mgr.lookup id = .ok none) → mgr.SameTubes after
  released : ∀ t, mgr.tubes.fresh ≤ t → t < after.tubes.fresh →
    (destroyals effects).count t = 1 ∧ after.tubes.cells t = none ∧ ¬ after.InTable t

/-- What a call that succeeds leaves: one more tube, and one `OPEN` for it. -/
structure OpensOne (mgr : TubeManager) (env : Environment) (dest : SockAddr)
    (effects : List Effect) (t : Nat) (after : TubeManager) (id : SpudTubeId) : Prop where
  made : mgr.tubes.fresh ≤ t
  drawn : env.randomId = some id
  gains : mgr.Gains after id t
  cell : ∃ cell, after.tubes.cells t = some cell ∧ cell.id = id ∧ cell.state = .opening
  sent : ∃ datagram, (sendings effects).filter (fun datagram => datagram.command = .spudOpen) =
      [datagram] ∧ datagram.dest = dest ∧
    datagram.bytes = (sentHeader id .spudOpen false false).bytes

/-- `tube_manager_open_tube` opens a tube, or nothing comes of it. -/
def AllOrNothing (mgr : TubeManager) (env : Environment) (dest : SockAddr)
    (result : Exec (Option Nat × TubeManager)) : Prop :=
  ∃ answer after effects, result = .ok (answer, after) ∧ after.trace = mgr.trace ++ effects ∧
    match answer with
    | none => mgr.OpensNothing env effects after
    | some t => ∃ id, mgr.OpensOne env dest effects t after id

/-- Once its tube is in the table, the event finds memory and the `OPEN` is sent. -/
def OpensOnceAdded (mgr : TubeManager) (env : Environment) (dest : SockAddr) : Prop :=
  ∀ id, env.granted .tube = true → env.randomId = some id → dest.isInternet = true →
    (mgr.lookup id = .ok none → mgr.table.Accepts env.calloc (env.granted .node)) →
    env.granted (.moment .add) = true ∧ env.answer (mgr.opening dest id) = true

section Opening

variable {mgr : TubeManager} {env : Environment} {find : SpudTubeId → Option Nat}
  {dest : SockAddr} {id : SpudTubeId}

theorem tubeDestroy_dead {t : Nat} (dead : mgr.tubes.cells t = none) :
    (tubeDestroy t).run mgr = .fault .useAfterFree := by
  have freed : mgr.tubes.free t = .error .useAfterFree := by rw [Memory.free, dead]
  change Outcome.bind _ (Proc.run (Proc.lift _) mgr) = _
  simp only [Proc.lift, freed]
  rfl

theorem command_datagram (cell : Tube) (cmd : SpudCommand) :
    (cell.datagram cmd false false []).command = cmd := by
  have header := (sentHeader cell.id cmd false false).ofBytes_bytes []
  have bytes : (cell.datagram cmd false false []).bytes =
      (sentHeader cell.id cmd false false).bytes ++ [] := rfl
  rw [Datagram.command, bytes, header]
  exact SpudCommand.ofFlags_value cmd false false

theorem evict_closes (mgr : TubeManager) (env : Environment) (old : Option Nat) :
    ∃ effects, (mgr.evict env old).trace = mgr.trace ++ effects ∧
      (sendings effects).filter (fun datagram => datagram.command = .spudOpen) = [] := by
  cases old with
  | none => exact ⟨[], (List.append_nil _).symm, rfl⟩
  | some t =>
    cases found : mgr.tubes.cells t with
    | none =>
      refine ⟨[], ?_, rfl⟩
      simp only [TubeManager.evict, found, List.append_nil]
    | some cell =>
      refine ⟨_, by rw [evict_some found], ?_⟩
      rw [List.filter_eq_nil_iff]
      intro datagram member
      rw [sendings_append, List.mem_append] at member
      rcases member with member | member
      · obtain ⟨effect, inside, same⟩ := List.mem_filterMap.mp member
        unfold Environment.closing Environment.effects at inside
        split_ifs at inside
        · rw [List.mem_singleton.mp inside] at same
          cases answered : env.sendmsg (cell.datagram .spudClose false false []) with
          | false =>
            rw [answered] at same
            cases same
          | true =>
            rw [answered] at same
            cases same
            rw [command_datagram]
            exact Bool.false_ne_true
        · cases inside
        · cases inside
      · cases member

theorem openTubeWith_ends (holds : mgr.Holds find) (bare : Tube)
    (refused : ∀ size, 2 ^ 30 ≤ size → env.calloc size = false) {opening : Tube}
    (opened : { bare with state := .opening } = opening) :
    ∃ placed table, Registers table
        (if placed then Function.update find opening.id (some mgr.tubes.fresh) else find) ∧
      (placed = false → find opening.id = none) ∧
      (mgr.table.Accepts env.calloc (env.granted .node) → placed = true) ∧
      (find opening.id = none → placed = true →
        mgr.table.Accepts env.calloc (env.granted .node)) ∧
      (openTubeWith env mgr.tubes.fresh).straight (mgr.created bare) =
        let entered := ((mgr.created opening).withTable table).evict env (find opening.id)
        if placed && env.granted (.moment .add) then
          if env.answer (opening.datagram .spudOpen false false []) then
            .ok (some mgr.tubes.fresh, entered.noted (.triggered (.add mgr.tubes.fresh) ::
              env.effects (opening.datagram .spudOpen false false [])))
          else .error .useAfterFree
        else .ok (none, { entered with
          tubes := entered.tubes.erase mgr.tubes.fresh
          trace := entered.trace ++ [.destroyed mgr.tubes.fresh] }) := by
  let fresh := mgr.tubes.fresh
  obtain ⟨placed, table, added, registers, displaced, accepted, accepts⟩ :=
    tubeManagerAdd_straight (holds.created opening) (created_cells mgr opening) refused
  refine ⟨placed, table, registers, displaced, accepted, accepts, ?_⟩
  let entered := ((mgr.created opening).withTable table).evict env (find opening.id)
  have found : entered.tubes.cells fresh = some opening :=
    (evict_cells_of_ne (holds.unused _)).trans (created_cells mgr opening)
  rw [openTubeWith, straight_bind_of_done (tubeSetState_ok (created_cells mgr bare) _),
    created_setTube, opened, straight_bind_of added]
  cases placed with
  | false =>
    rw [Bool.false_and, if_neg Bool.false_ne_true, if_neg Bool.false_ne_true, noted_nil,
      if_neg Bool.false_ne_true]
    rw [straight_bind_of_done (tubeDestroy_ok found)]
    rfl
  | true =>
    rw [Bool.true_and, if_pos rfl]
    cases granted : env.granted (.moment .add) with
    | false =>
      have silent : env.triggers (.add fresh) = [] := if_neg (by simp [Notice.event, granted])
      rw [if_neg Bool.false_ne_true, if_neg Bool.false_ne_true, silent, noted_nil,
        straight_bind_of_done (tubeDestroy_ok found)]
      rfl
    | true =>
      have loud : env.triggers (.add fresh) = [.triggered (.add fresh)] := if_pos granted
      rw [if_pos rfl, if_pos rfl, loud, straight_bind_of_done (tubeSend_ok
        (show (entered.noted [.triggered (.add fresh)]).tubes.cells fresh = some opening
          from found) _ _ _ _), noted_noted]
      cases answered : env.answer (opening.datagram .spudOpen false false []) with
      | true => rfl
      | false =>
        -- the removal destroys the tube, which is then destroyed again
        let said := entered.noted ([.triggered (.add fresh)] ++
          env.effects (opening.datagram .spudOpen false false []))
        have holdsSaid : said.Holds (Function.update find opening.id (some fresh)) :=
          ((holds.created opening).replace (created_cells mgr opening) holds.unused
            registers).noted _
        obtain ⟨last, removed, _⟩ := @tubeManagerRemove_straight said env _ fresh opening holdsSaid
          (show said.tubes.cells fresh = some opening from found)
        rw [Function.update_self] at removed
        rw [if_neg Bool.false_ne_true, straight_bind_of removed, Proc.straight_bind, Proc.straight,
          tubeDestroy_dead (evict_cells_self ..)]
        rfl

theorem OpensNothing.of_destroyed (holds : mgr.Holds find) {after : TubeManager}
    {effects : List Effect} (registers : Registers after.table find)
    (grown : after.tubes.fresh = mgr.tubes.fresh + 1)
    (dead : after.tubes.cells mgr.tubes.fresh = none)
    (once : (destroyals effects).count mgr.tubes.fresh = 1) :
    mgr.OpensNothing env effects after := by
  refine ⟨fun _ => SameTubes.of_registers holds.registers registers, ?_⟩
  intro t new old
  obtain rfl : t = mgr.tubes.fresh := by omega
  refine ⟨once, dead, ?_⟩
  rintro ⟨id, stored⟩
  rw [TubeManager.lookup, registers.get, Except.ok.injEq] at stored
  exact holds.unused id stored

theorem AllOrNothing.of_dropped (holds : mgr.Holds find) {cell : Tube} :
    mgr.AllOrNothing env dest ((tubeDestroy mgr.tubes.fresh >>= fun _ => pure none :
      Tubing (Option Nat)).straight (mgr.created cell)) := by
  rw [straight_bind_of_done (tubeDestroy_ok (created_cells mgr cell))]
  refine ⟨none, _, [.destroyed mgr.tubes.fresh], rfl, rfl, ?_⟩
  refine OpensNothing.of_destroyed holds holds.registers rfl (Memory.erase_cells_self ..) ?_
  exact List.count_singleton_self ..

theorem tubeManagerOpenTube_internet (granted : env.granted .tube = true)
    (drawn : env.randomId = some id) (internet : dest.isInternet = true) :
    (tubeManagerOpenTube env dest).straight mgr =
      (openTubeWith env mgr.tubes.fresh).straight
        (mgr.created (mgr.tubeFor dest id .unknown)) := by
  rw [tubeManagerOpenTube, straight_bind_of_done (tubeCreate_granted granted)]
  simp only [drawn]
  rw [straight_bind_of_done rfl]
  cases dest with
  | inet port address => exact straight_bind_of_done (tubeSetInfo_created _ _ internet id)
  | inet6 port address => exact straight_bind_of_done (tubeSetInfo_created _ _ internet id)
  | other family => cases internet

/-- A call that gets so far is all or nothing exactly if what is in the table is also
announced and opened. -/
theorem openTubeWith_allOrNothing_iff (holds : mgr.Holds find)
    (refused : ∀ size, 2 ^ 30 ≤ size → env.calloc size = false)
    (granted : env.granted .tube = true) (drawn : env.randomId = some id)
    (internet : dest.isInternet = true) :
    mgr.AllOrNothing env dest ((openTubeWith env mgr.tubes.fresh).straight
        (mgr.created (mgr.tubeFor dest id .unknown))) ↔
      mgr.OpensOnceAdded env dest := by
  let fresh := mgr.tubes.fresh
  let cell := mgr.tubeFor dest id .opening
  obtain ⟨placed, table, registers, displaced, accepted, accepts, ended⟩ :=
    @openTubeWith_ends mgr env find holds (mgr.tubeFor dest id .unknown) refused cell rfl
  rw [show cell.id = id from rfl] at registers displaced accepts ended
  rw [ended]
  let entered := ((mgr.created cell).withTable table).evict env (find id)
  have grown : entered.tubes.fresh = fresh + 1 := evict_fresh ..
  have sameTable : entered.table = table := evict_table ..
  cases placed with
  | false =>
    have missing := displaced rfl
    refine iff_of_true ?_ ?_
    · rw [missing]
      refine ⟨none, _, [.destroyed fresh], rfl, rfl, ?_⟩
      exact OpensNothing.of_destroyed holds registers rfl (Memory.erase_cells_self ..)
        (List.count_singleton_self ..)
    · intro other _ again _ room
      rw [drawn] at again
      cases again
      have unused : mgr.lookup id = .ok none := by rw [holds.lookup, missing]
      cases accepted (room unused)
  | true =>
    have room : mgr.lookup id = .ok none →
        mgr.table.Accepts env.calloc (env.granted .node) := by
      intro unused
      rw [holds.lookup, Except.ok.injEq] at unused
      exact accepts unused rfl
    have enough : mgr.OpensOnceAdded env dest ↔
        env.granted (.moment .add) = true ∧ env.answer (mgr.opening dest id) = true := by
      refine ⟨fun once => once id granted drawn internet room, ?_⟩
      intro both other _ again _ _
      rw [drawn] at again
      cases again
      exact both
    rw [enough, Bool.true_and]
    have gains : ∀ after : TubeManager, after.table = table → mgr.Gains after id fresh := by
      intro after same
      refine Gains.of_registers holds.registers ?_
      rw [same]
      exact registers
    cases triggered : env.granted (.moment .add) with
    | false =>
      refine iff_of_false ?_ (fun both => Bool.false_ne_true both.1)
      rintro ⟨answer, after, effects, same, _, left⟩
      cases same
      have last : fresh < entered.tubes.fresh := grown ▸ Nat.lt_succ_self _
      exact (left.released fresh (Nat.le_refl _) last).2.2 ⟨id, (gains _ sameTable).own⟩
    | true =>
      cases answered : env.answer (mgr.opening dest id) with
      | false =>
        refine iff_of_false ?_ (fun both => Bool.false_ne_true both.2)
        rintro ⟨answer, after, effects, same, _⟩
        rw [show env.answer (cell.datagram .spudOpen false false []) = false from answered] at same
        cases same
      | true =>
        refine iff_of_true ?_ ⟨rfl, rfl⟩
        rw [show env.answer (cell.datagram .spudOpen false false []) = true from answered]
        obtain ⟨iovec, sends⟩ := Bool.and_eq_true_iff.mp answered
        have effects : env.effects (cell.datagram .spudOpen false false []) =
            [.sent (mgr.opening dest id) true] := by
          rw [← sends]
          exact if_pos iovec
        rw [effects]
        obtain ⟨leaving, trace, closes⟩ := evict_closes ((mgr.created cell).withTable table) env
          (find id)
        refine ⟨some fresh, _,
          leaving ++ [.triggered (.add fresh), .sent (mgr.opening dest id) true],
          rfl, ?_, id, Nat.le_refl _, drawn, gains _ sameTable, ⟨cell, ?_, rfl, rfl⟩, ?_⟩
        · rw [← List.append_assoc]
          exact congrArg (· ++ _) trace
        · exact (evict_cells_of_ne (holds.unused _)).trans (created_cells mgr cell)
        · refine ⟨mgr.opening dest id, ?_, rfl, ?_⟩
          · have own : decide ((mgr.opening dest id).command = .spudOpen) = true :=
              decide_eq_true (command_datagram cell .spudOpen)
            have said : sendings [.triggered (.add fresh), .sent (mgr.opening dest id) true] =
                [mgr.opening dest id] := rfl
            rw [sendings_append, List.filter_append, closes, said, List.nil_append,
              List.filter_singleton, own, cond_true]
          · exact List.append_nil _

end Opening

/-- In every state and for every destination, whatever fails, `tube_manager_open_tube` is
all or nothing exactly if a tube that it gets into the table is announced and opened. -/
theorem tubeManagerOpenTube_allOrNothing_iff {mgr : TubeManager} (wellFormed : mgr.WellFormed)
    (env : Environment) (refused : ∀ size, 2 ^ 30 ≤ size → env.calloc size = false)
    (dest : SockAddr) :
    mgr.AllOrNothing env dest ((tubeManagerOpenTube env dest).straight mgr) ↔
      mgr.OpensOnceAdded env dest := by
  obtain ⟨find, holds⟩ := wellFormed
  by_cases granted : env.granted .tube = true
  · cases drawn : env.randomId with
    | none =>
      refine iff_of_true ?_ ?_
      · rw [tubeManagerOpenTube, straight_bind_of_done (tubeCreate_granted granted)]
        simp only [drawn]
        exact AllOrNothing.of_dropped holds
      · intro id _ again
        rw [drawn] at again
        cases again
    | some id =>
      by_cases internet : dest.isInternet = true
      · rw [tubeManagerOpenTube_internet granted drawn internet]
        exact openTubeWith_allOrNothing_iff holds refused granted drawn internet
      · refine iff_of_true ?_ fun _ _ _ yes => absurd yes internet
        rw [tubeManagerOpenTube, straight_bind_of_done (tubeCreate_granted granted)]
        simp only [drawn]
        rw [straight_bind_of_done rfl]
        cases dest with
        | inet port address => exact absurd rfl internet
        | inet6 port address => exact absurd rfl internet
        | other family => exact AllOrNothing.of_dropped holds
  · refine iff_of_true ?_ fun _ yes => absurd yes granted
    have none : (tubeCreate env).run mgr = .done none mgr := by
      rw [tubeCreate, if_neg granted]
      rfl
    rw [tubeManagerOpenTube, straight_bind_of_done none]
    refine ⟨_, mgr, [], rfl, (List.append_nil _).symm, fun _ => ⟨fun _ => rfl, rfl⟩, ?_⟩
    intro t new old
    omega

theorem tubeManagerOpenTube_allOrNothing_iff_new : newResponder.AllOrNothing obliging
    (.inet 1402 0x7f000001)
    ((tubeManagerOpenTube obliging (.inet 1402 0x7f000001)).straight newResponder) :=
  (tubeManagerOpenTube_allOrNothing_iff ⟨_, newResponder_holds⟩ obliging obliging_refused
    (.inet 1402 0x7f000001)).mpr fun _ _ _ _ _ => ⟨rfl, rfl⟩

def mute : Environment := { obliging with sendmsg := fun _ => false }

/-- When the `OPEN` cannot be sent, the tube is destroyed twice; when there is no memory for
the event, it is destroyed and stays in the table. -/
theorem unsent_destroyed_twice : newResponder.WellFormed ∧
    (tubeManagerOpenTube mute (.inet 1402 0x7f000001)).straight newResponder =
      .error .useAfterFree ∧
    ¬ newResponder.AllOrNothing mute (.inet 1402 0x7f000001)
      ((tubeManagerOpenTube mute (.inet 1402 0x7f000001)).straight newResponder) ∧
    ∃ after, (tubeManagerOpenTube withoutMoments (.inet 1402 0x7f000001)).straight newResponder =
        .ok (none, after) ∧
      after.tubes.cells 0 = none ∧ after.lookup ⟨fun _ => 7⟩ = .ok (some 0) := by
  have failed : (tubeManagerOpenTube mute (.inet 1402 0x7f000001)).straight newResponder =
      .error .useAfterFree := by
    have seen : (match (tubeManagerOpenTube mute (.inet 1402 0x7f000001)).straight newResponder with
        | .error fault => some fault
        | .ok _ => none) = some Fault.useAfterFree := by decide +kernel
    split at seen
    next fault stopped => rw [stopped, Option.some.inj seen]
    next => cases seen
  obtain ⟨⟨answer, after⟩, returned, seen⟩ := Exec.exists_of_map
    (fun result : Option Nat × TubeManager => (result.1, (result.2.tubes.cells 0).isNone,
      (result.2.lookup ⟨fun _ => 7⟩).toOption))
    (show ((tubeManagerOpenTube withoutMoments (.inet 1402 0x7f000001)).straight
      newResponder).toOption.map _ = some (none, true, some (some 0)) by decide +kernel)
  refine ⟨⟨_, newResponder_holds⟩, failed, ?_, after, ?_⟩
  · rintro ⟨answer, after, effects, returned, _⟩
    rw [failed] at returned
    cases returned
  · obtain ⟨none, seen⟩ := Prod.mk.inj seen
    obtain ⟨dead, stored⟩ := Prod.mk.inj seen
    rw [show answer = Option.none from none] at returned
    refine ⟨returned, Option.isNone_iff_eq_none.mp dead, ?_⟩
    cases found : after.lookup ⟨fun _ => 7⟩ with
    | error fault =>
      rw [found] at stored
      cases stored
    | ok entry =>
      rw [found] at stored
      exact congrArg Except.ok (Option.some.inj stored)

end TubeManager

end SpudLib
