import SpudLib.Tube.Calls

/-!
# Datagrams and the end of a manager

Each datagram is one change of the host, too, and so is the destruction of the
table with the tubes in it.
-/

namespace SpudLib

open TubeManager

namespace Host

section Requests

variable {library : CborLibrary} {host after : Host} {find later : SpudTubeId → Option Nat}
  {t : Nat} {env : Environment} {request : Request}

theorem Keeps.rests (keeps : host.Keeps find) (present : host.gone = false) :
    Proceeds library host request host find find :=
  (keeps.idle present (keeps.holds present) fun other =>
    ⟨Listed.refl host other, rfl, Iff.rfl, fun _ => Iff.rfl, rfl⟩).quietly
    (List.append_nil _).symm fun _ => nofun

theorem obey_proceeds (keeps : host.Keeps find) (present : host.gone = false)
    (succeeds : env.Succeeds) {d : TubeEventData} {cell : Tube}
    (found : host.mgr.tubes.cells d.t = some cell) (stored : find cell.id = some d.t)
    {cmd : SpudCommand} (acks : cmd = .spudAck → Acknowledges library host request d.t) :
    ∃ mgr later, (obey env d cmd).straight host.mgr = .ok (.next, mgr) ∧
      mgr.keepGoing = host.mgr.keepGoing ∧
      Proceeds library host request { host with mgr := mgr } find later := by
  have holds := keeps.holds present
  by_cases idle : Environment.acts cmd cell.state = false
  · exact ⟨host.mgr, find, obey_idle found idle, rfl, keeps.rests present⟩
  · rw [Bool.not_eq_false] at idle
    have shut := (keeps.good d.t).shut
    cases cmd with
    | spudOpen => cases idle
    | spudData =>
      have running : cell.state = .running := of_decide_eq_true idle
      have returned := @obey_data _ env _ _ found running
      rw [succeeds.verdict, succeeds.triggers] at returned
      have advances : host.Advances
          { host with mgr := host.mgr.noted [.triggered (.data d)] } find find := by
        refine keeps.use present stored found rfl rfl holds found (fun _ _ => rfl) rfl rfl
          (fun other => @deeds_of_ne other (.data d)) ?_ ?_ rfl rfl rfl fun _ _ => Iff.rfl
        · rw [show deeds d.t [.triggered (.data d)] = _ from deeds_own (.data d), running]
          exact .data _
        · exact fun is => shut (decide_eq_true is) cell found
      exact ⟨_, find, returned, rfl, advances.quietly rfl fun _ => by simp⟩
    | spudAck =>
      have opening : cell.state = .opening := of_decide_eq_true idle
      have returned := @obey_ack _ env _ _ found opening
      rw [succeeds.verdict, succeeds.triggers] at returned
      let running : Tube := { cell with state := .running }
      let after : Host := { host with
        mgr := (host.mgr.setTube d.t running).noted [.triggered (.running d)] }
      have changes : after.mgr.tubes.cells d.t = some running := Memory.set_cells_self _ found
      have same : running.id = cell.id := rfl
      have advances : host.Advances after find find := by
        refine keeps.use present stored found same rfl holds changes
          (fun other different => Memory.set_cells_of_ne _ _ different) rfl rfl
          (fun other => @deeds_of_ne other (.running d)) ?_ ?_ rfl rfl rfl fun _ _ => Iff.rfl
        · rw [show deeds d.t [.triggered (.running d)] = _ from deeds_own (.running d), opening]
          exact .acked _
        · intro is
          have unknown := shut (decide_eq_true is) cell found
          rw [opening] at unknown
          cases unknown
      refine ⟨_, find, returned, rfl, advances, [.triggered (.running d)], rfl, ?_⟩
      intro other member
      cases List.mem_singleton.mp member
      exact acks rfl
    | spudClose =>
      have known : cell.state ≠ .unknown := of_decide_eq_true idle
      obtain ⟨table, returned, registers⟩ :=
        obey_close holds stored found known (succeeds.granted _)
      rw [succeeds.triggers] at returned
      let effects : List Effect :=
        [.triggered (.close d), .triggered (.remove d.t), .destroyed d.t]
      let after : Host := { host with
        mgr := { host.mgr with
          table := table
          tubes := host.mgr.tubes.erase d.t
          trace := host.mgr.trace ++ effects } }
      have cells : ∀ other, other ≠ d.t →
          after.mgr.tubes.cells other = host.mgr.tubes.cells other :=
        fun other different => Memory.erase_cells_of_ne _ different
      have kept : after.mgr.Holds (Function.update find cell.id none) := by
        refine ⟨registers, ?_⟩
        intro id other member
        by_cases here : id = cell.id
        · rw [here, Function.update_self] at member
          cases member
        · rw [Function.update_of_ne here] at member
          obtain ⟨old, foundOld, own⟩ := holds.live id other member
          refine ⟨old, (cells other ?_).trans foundOld, own⟩
          rintro rfl
          exact here (holds.injective member stored)
      have advances : host.Advances after find (Function.update find cell.id none) := by
        refine keeps.leave present stored found kept (Memory.erase_cells_self ..) cells rfl rfl ?_
          ?_ fun other => ⟨Iff.rfl, Iff.rfl, Iff.rfl, Iff.rfl⟩
        · intro other different
          simp [effects, deeds, Effect.deed, Notice.tube, different.symm]
        · rw [show deeds d.t effects = [.event .close, .event .remove, .destroyed] by
            simp [effects, deeds, Effect.deed, Notice.tube, Notice.event]]
          exact .hungUp _ _ known
      exact ⟨_, _, returned, rfl, advances.quietly rfl fun _ => by simp [effects]⟩

theorem Keeps.accept (env : Environment) (keeps : host.Keeps find) (present : host.gone = false)
    {received : Reception} {uid : SpudTubeId} {table : HTable TubeKey Nat}
    (missing : find uid = none)
    (registers : Registers table (Function.update find uid (some host.mgr.tubes.fresh)))
    (datagram : Datagram) :
    Proceeds library host request
      { host with
        mgr := ((host.mgr.created (received.tube uid)).withTable table).noted
          [.triggered (.add host.mgr.tubes.fresh), .sent datagram true] } find
      (Function.update find uid (some host.mgr.tubes.fresh)) := by
  obtain ⟨good, unborn⟩ := keeps.unborn
  have holds := keeps.holds present
  let fresh := host.mgr.tubes.fresh
  let cell := received.tube uid
  let effects : List Effect := [.triggered (.add fresh), .sent datagram true]
  let after : Host := { host with
    mgr := ((host.mgr.created cell).withTable table).noted effects }
  have said : ∀ other, deeds other effects = deeds other [.triggered (.add fresh)] := by
    intro other
    rw [show effects = [.triggered (.add fresh)] ++ [.sent datagram true] from rfl, deeds_append]
    exact List.append_nil _
  have same : (host.glimpse find fresh).opened = false := (good.unborn unborn).2.2.2.1
  have turn : (host.glimpse find fresh).Turn { after.glimpse find fresh with
      cell := some cell
      found := fun id => decide (id = cell.id)
      story := deeds fresh host.mgr.trace ++ deeds fresh effects } := by
    have entered := @Glimpse.Good.entered _ cell good unborn false rfl
    refine entered.of_eq (Glimpse.ext rfl ?_ rfl rfl rfl same rfl ?_)
    · exact decide_eq_true (Nat.lt_succ_self _)
    · exact congrArg (_ ++ ·) ((said fresh).trans (deeds_own (.add fresh)))
  have became : after.mgr =
      (((host.mgr.created cell).withTable table).evict env (find cell.id)).noted effects := by
    rw [show find cell.id = none from missing]
    rfl
  have advances : host.Advances after find (Function.update find cell.id (some fresh)) := by
    refine keeps.join present (holds.created cell) (created_cells host.mgr cell) holds.unused
      (fun other different => Memory.alloc_cells_of_ne _ _ different)
      (fun other different => lt_created _ _ different) rfl registers became ?_
      (fun _ _ => ⟨Iff.rfl, Iff.rfl, Iff.rfl, Iff.rfl⟩) turn
    intro other different
    rw [said]
    exact @deeds_of_ne other (.add fresh) different
  exact advances.quietly rfl fun _ => by simp [effects]

theorem handleMessage_proceeds (keeps : host.Keeps find) (present : host.gone = false)
    (succeeds : env.Succeeds) (roomy : host.mgr.table.Roomy) (received : Reception)
    {msg : SpudMessage}
    (acks : ∀ t, SpudCommand.ofFlags msg.header.flags = .spudAck →
      host.mgr.lookup msg.header.tubeId = .ok (some t) → Acknowledges library host request t) :
    ∃ mgr later, (handleMessage env received msg).straight host.mgr = .ok (.next, mgr) ∧
      mgr.keepGoing = host.mgr.keepGoing ∧
      Proceeds library host request { host with mgr := mgr } find later := by
  have holds := keeps.holds present
  cases stored : find msg.header.tubeId with
  | some t =>
    obtain ⟨cell, found, own⟩ := holds.live _ t stored
    rw [handleMessage_found holds stored]
    have inTable : host.mgr.lookup msg.header.tubeId = .ok (some t) := by
      rw [holds.lookup, stored]
    exact @obey_proceeds library host find env request keeps present succeeds
      ⟨t, msg.cbor, received.source⟩ cell found (own ▸ stored) _ fun ack => acks t ack inTable
  | none =>
    by_cases responds : host.mgr.Responds msg
    · obtain ⟨table, handled, registers⟩ :=
        handleMessage_accepts holds succeeds roomy received stored responds
      exact ⟨_, _, handled, rfl, keeps.accept env present stored registers _⟩
    · exact ⟨host.mgr, find, handleMessage_ignored holds stored responds, rfl,
        keeps.rests present⟩

theorem Proceeds.of_at {received : Reception}
    (proceeds : Proceeds library { host with mgr := host.mgr.at env received } request after find
      later) : Proceeds library host request after find later :=
  ⟨⟨proceeds.holds, proceeds.emptied, proceeds.turns⟩, proceeds.record⟩

/-- The body of the loop goes on with the next datagram, unless `spud_parse` rejects
this one and there is no `err`. -/
theorem tubeManagerLoopBody_proceeds (keeps : host.Keeps find) (present : host.gone = false)
    (succeeds : env.Succeeds) (roomy : host.mgr.table.Roomy) {received : Reception}
    (nonempty : received.bytes ≠ []) {hasErr : Bool}
    (accepted : hasErr = true ∨ ∃ msg, spudParse library received.buf = .ok msg) :
    ∃ mgr later, (tubeManagerLoopBody env library hasErr received).straight host.mgr =
        .ok (.next, mgr) ∧
      mgr.keepGoing = host.mgr.keepGoing ∧
      Proceeds library host (.receive env hasErr received) { host with mgr := mgr } find later := by
  have filled := buf_ne_nil nonempty
  let now : Host := { host with mgr := host.mgr.at env received }
  have keepsNow : now.Keeps find := ⟨fun _ => (keeps.holds present).at env received,
    keeps.emptied, keeps.good⟩
  cases parsed : spudParse library received.buf with
  | error reason =>
    obtain rfl : hasErr = true := by
      rcases accepted with has | ⟨msg, parses⟩
      · exact has
      · rw [parsed] at parses
        cases parses
    exact ⟨_, find, tubeManagerLoopBody_rejected filled parsed, rfl,
      (keepsNow.rests present).of_at⟩
  | ok msg =>
    rw [tubeManagerLoopBody_parsed filled parsed]
    obtain ⟨mgr, later, returned, going, proceeds⟩ := @handleMessage_proceeds library now find env
      (.receive env hasErr received) keepsNow present succeeds roomy received msg
      fun t ack inTable => ⟨env, hasErr, received, msg, rfl, parsed, ack, inTable⟩
    exact ⟨mgr, later, returned, going, proceeds.of_at⟩

theorem receive_proceeds (keeps : host.Keeps find) (present : host.gone = false)
    (succeeds : env.Succeeds) (roomy : host.mgr.table.Roomy) {received : Reception}
    (nonempty : received.bytes ≠ []) {hasErr : Bool}
    (accepted : hasErr = true ∨ ∃ msg, spudParse library received.buf = .ok msg) :
    ∃ after later, host.perform library (.receive env hasErr received) = .ok after ∧
      Proceeds library host (.receive env hasErr received) after find later := by
  obtain ⟨mgr, later, returned, _, proceeds⟩ := @tubeManagerLoopBody_proceeds library host find
    env keeps present succeeds roomy received nonempty hasErr accepted
  refine ⟨_, later, ?_, proceeds⟩
  rw [perform, returned]
  rfl

theorem runCleaners_ok {calls : List (CleanerCall TubeKey Nat)} {held : List Nat}
    (values : calls.map CleanerCall.value = held.map some) (nodup : held.Nodup)
    {mgr : TubeManager} (live : ∀ t ∈ held, ∃ cell, mgr.tubes.cells t = some cell) :
    ∃ after effects, (runCleaners env calls).run mgr = .done () after ∧
      after.tubes.fresh = mgr.tubes.fresh ∧ after.trace = mgr.trace ++ effects ∧
      (∀ notice, .triggered notice ∉ effects) ∧
      (∀ t, deeds t effects = if t ∈ held then [.destroyed] else []) ∧
      ∀ t, after.tubes.cells t = if t ∈ held then none else mgr.tubes.cells t := by
  induction held generalizing calls mgr with
  | nil =>
    obtain rfl := List.map_eq_nil_iff.mp values
    exact ⟨mgr, [], rfl, rfl, (List.append_nil _).symm, fun _ => nofun, fun _ => rfl,
      fun _ => rfl⟩
  | cons t held inductionHypothesis =>
    obtain ⟨call, rest, rfl, value, values⟩ := List.map_eq_cons_iff.mp values
    obtain ⟨other, nodup⟩ := List.nodup_cons.mp nodup
    obtain ⟨cell, found⟩ := live t List.mem_cons_self
    have apart : ∀ second ∈ held, second ≠ t := by
      rintro second member rfl
      exact other member
    have liveAfter : ∀ second ∈ held,
        ∃ cell, (mgr.evict env (some t)).tubes.cells second = some cell := by
      intro second member
      obtain ⟨old, foundOld⟩ := live second (List.mem_cons_of_mem _ member)
      refine ⟨old, (evict_cells_of_ne ?_).trans foundOld⟩
      exact fun same => apart second member (Option.some.inj same).symm
    obtain ⟨after, effects, returned, fresh, trace, quiet, said, cells⟩ :=
      inductionHypothesis values nodup liveAfter
    refine ⟨after, (env.closing cell ++ [.destroyed t]) ++ effects, ?_, ?_, ?_, ?_, ?_, ?_⟩
    · rw [runCleaners, value, Proc.run_bind_of_done (cleanTube_ok found)]
      exact returned
    · rw [fresh, evict_fresh]
    · rw [trace, evict_some found]
      exact List.append_assoc ..
    · intro notice member
      rcases List.mem_append.mp member with member | member
      · exact leaving_quiet _ _ _ _ member
      · exact quiet notice member
    · intro second
      rw [deeds_append, deeds_append, deeds_closing, deeds_destroyed, said]
      by_cases here : second = t
      · subst here
        rw [if_pos rfl, if_neg other, if_pos List.mem_cons_self]
        rfl
      · simp [here, Ne.symm here]
    · intro second
      rw [cells]
      by_cases here : second = t
      · subst here
        rw [if_neg other, if_pos List.mem_cons_self]
        exact evict_cells_self ..
      · rw [evict_cells_of_ne fun same => here (Option.some.inj same).symm]
        simp [here]

theorem destroy_proceeds (keeps : host.Keeps find) (present : host.gone = false) :
    ∃ after later, host.perform library (.destroy env) = .ok after ∧
      Proceeds library host (.destroy env) after find later := by
  have holds := keeps.holds present
  obtain ⟨held, nodup, values, members⟩ := holds.registers.destroy
  let tubes := held.map Prod.snd
  have inside : ∀ t, t ∈ tubes ↔ ∃ id, find id = some t := by
    intro t
    rw [List.mem_map]
    constructor
    · rintro ⟨⟨id, same⟩, member, rfl⟩
      exact ⟨id, (members id same).mp member⟩
    · rintro ⟨id, stored⟩
      exact ⟨(id, t), (members id t).mpr stored, rfl⟩
  have different : tubes.Nodup := by
    refine List.Nodup.map_on ?_ (List.Nodup.of_map _ nodup)
    rintro ⟨first, t⟩ one ⟨second, u⟩ two same
    obtain rfl : t = u := same
    rw [holds.injective ((members _ _).mp one) ((members _ _).mp two)]
  have live : ∀ t ∈ tubes, ∃ cell, host.mgr.tubes.cells t = some cell := by
    intro t member
    obtain ⟨id, stored⟩ := (inside t).mp member
    obtain ⟨cell, found, _⟩ := holds.live id t stored
    exact ⟨cell, found⟩
  let stopped : TubeManager := { host.mgr with keepGoing := false }
  obtain ⟨mgr, effects, returned, fresh, trace, quiet, said, cells⟩ :=
    @runCleaners_ok env _ tubes (by rw [values, List.map_map]; rfl) different stopped live
  let after : Host := { host with mgr := mgr, gone := true }
  refine ⟨after, fun _ => none, ?_, ?_⟩
  · have ended : (tubeManagerDestroy env).straight host.mgr = .ok ((), mgr) := by
      have got : (Proc.get : Tubing TubeManager).run stopped = .done stopped stopped := rfl
      have cleaned : (Proc.get >>= fun mgr =>
          runCleaners env mgr.table.lsHtableDestroy).straight stopped = .ok ((), mgr) :=
        (straight_bind_of_done got).trans (Proc.straight_of_done returned)
      rw [tubeManagerDestroy]
      exact (straight_bind_of_done rfl).trans cleaned
    rw [perform, ended]
    rfl
  · have advances : host.Advances after find fun _ => none := by
      refine ⟨by simp [after], fun _ => rfl, ?_⟩
      intro t
      by_cases member : t ∈ tubes
      · obtain ⟨id, stored⟩ := (inside t).mp member
        obtain ⟨cell, found, _, free⟩ := keeps.stored stored
        have ended := (keeps.good t).ended found (decide_eq_false free) (.dropped _ cell.state)
        refine ended.of_eq (Glimpse.ext ?_ ?_ rfl rfl rfl rfl rfl ?_)
        · exact (cells t).trans (if_pos member)
        · exact decide_eq_decide.mpr (by rw [show after.mgr.tubes.fresh = _ from fresh])
        · exact (congrArg (deeds t) trace).trans (by rw [deeds_append, said, if_pos member]; rfl)
      · have aloof : Aloof host after find (fun _ => none) t := by
          refine ⟨⟨Iff.rfl, Iff.rfl, Iff.rfl, Iff.rfl⟩, (cells t).trans (if_neg member), ?_, ?_, ?_⟩
          · rw [show after.mgr.tubes.fresh = _ from fresh]
          · intro id
            exact ⟨by simp, fun stored => absurd ((inside t).mpr ⟨id, stored⟩) member⟩
          · exact (congrArg (deeds t) trace).trans
              (by rw [deeds_append, said, if_neg member, List.append_nil])
        exact (Glimpse.Turn.refl (keeps.good t)).of_eq aloof.glimpse
    exact advances.quietly trace fun d => quiet _

end Requests

/-- Every request that is allowed returns, and the host goes on. -/
theorem Keeps.step {library : CborLibrary} {host : Host} {find : SpudTubeId → Option Nat}
    {request : Request} (keeps : host.Keeps find)
    (enabled : (system library).Enabled host request) :
    ∃ after later, (system library).step host request = .ok after ∧
      Proceeds library host request after find later := by
  obtain ⟨present, allowed⟩ := enabled
  cases request with
  | openTube env dest => exact openTube_proceeds keeps present allowed.1 allowed.2 dest
  | create env => exact create_proceeds keeps present allowed
  | setInfo t socket peer id => exact setInfo_proceeds keeps present allowed.1 socket id allowed.2
  | setState t state => exact setState_proceeds keeps present allowed state
  | add env t => exact add_proceeds keeps present allowed.1 allowed.2.1 allowed.2.2
  | close env t => exact close_proceeds keeps present allowed.2
  | data env t bytes => exact data_proceeds keeps present allowed.2 bytes
  | remove env t => exact remove_proceeds keeps present allowed.2 allowed.1
  | setPolicy willRespond => exact setPolicy_proceeds keeps present willRespond
  | receive env hasErr received =>
    obtain ⟨succeeds, roomy, _, nonempty, accepted⟩ := allowed
    exact receive_proceeds keeps present succeeds roomy nonempty accepted
  | destroy env => exact destroy_proceeds keeps present

end Host

end SpudLib
