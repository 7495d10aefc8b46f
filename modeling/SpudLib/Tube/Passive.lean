import SpudLib.Tube.Operations

/-!
# Calls and datagrams with passive callbacks

What the functions of the manager do when no callback calls the library: the
events they trigger are recorded, and they run straight on.
-/

namespace SpudLib

open TubeManager

/-- What is recorded of an event that may find no memory. -/
def Environment.triggers (env : Environment) (notice : Notice) : List Effect :=
  if env.granted (.moment notice.event) then [.triggered notice] else []

section Parts

variable {mgr : TubeManager} {env : Environment} {find : SpudTubeId → Option Nat} {t : Nat}
  {cell : Tube}

theorem straight_bind_of {Alpha Beta : Type} {procedure : Tubing Alpha}
    {next : Alpha → Tubing Beta} {value : Alpha} {after : TubeManager}
    (returned : procedure.straight mgr = .ok (value, after)) :
    (procedure >>= next).straight mgr = (next value).straight after := by
  rw [Proc.straight_bind, returned]
  rfl

theorem straight_bind_of_done {Alpha Beta : Type} {procedure : Tubing Alpha}
    {next : Alpha → Tubing Beta} {value : Alpha} {after : TubeManager}
    (returned : procedure.run mgr = .done value after) :
    (procedure >>= next).straight mgr = (next value).straight after :=
  straight_bind_of (Proc.straight_of_done returned)

theorem lsEventTrigger_straight (notice : Notice) :
    (lsEventTrigger env notice).straight mgr =
      .ok (env.granted (.moment notice.event), mgr.noted (env.triggers notice)) := by
  unfold Proc.straight Environment.triggers
  cases granted : env.granted (.moment notice.event) with
  | true =>
    rw [lsEventTrigger_granted granted]
    rfl
  | false =>
    rw [lsEventTrigger_refused granted]
    simp [Outcome.straight]

theorem tubeManagerAdd_straight (holds : mgr.Holds find) (found : mgr.tubes.cells t = some cell)
    (refused : ∀ size, 2 ^ 30 ≤ size → env.calloc size = false) :
    ∃ answer table, (tubeManagerAdd env t).straight mgr =
        .ok (answer && env.granted (.moment .add),
          ((mgr.withTable table).evict env (find cell.id)).noted
            (if answer then env.triggers (.add t) else [])) ∧
      Registers table (if answer then Function.update find cell.id (some t) else find) ∧
      (answer = false → find cell.id = none) ∧
      (mgr.table.Accepts env.calloc (env.granted .node) → answer = true) ∧
      (find cell.id = none → answer = true →
        mgr.table.Accepts env.calloc (env.granted .node)) := by
  obtain ⟨answer, table, returned, known⟩ := tubeManagerAdd_ok holds found refused
  refine ⟨answer, table, ?_, known⟩
  rw [Proc.straight, returned]
  cases answer with
  | true => exact lsEventTrigger_straight (.add t)
  | false => simp [Proc.run_pure, Outcome.straight]

theorem tubeManagerRemove_straight (holds : mgr.Holds find)
    (found : mgr.tubes.cells t = some cell) :
    ∃ table, (tubeManagerRemove env t).straight mgr =
        .ok ((), ((mgr.noted (env.triggers (.remove t))).withTable table).evict env
          (find cell.id)) ∧
      Registers table (Function.update find cell.id none) := by
  have holdsAfter := holds.noted (env.triggers (.remove t))
  have foundAfter : (mgr.noted (env.triggers (.remove t))).tubes.cells t = some cell := found
  obtain ⟨table, returned, registers⟩ := @unregister_ok _ env _ _ _ holdsAfter foundAfter
  refine ⟨table, ?_, registers⟩
  rw [tubeManagerRemove, straight_bind_of (lsEventTrigger_straight (.remove t))]
  exact Proc.straight_of_done returned

end Parts

namespace Environment

/-- What the loop does with a command for a tube in a state; otherwise it goes on. -/
def acts (cmd : SpudCommand) (state : TubeState) : Bool :=
  match cmd with
  | .spudData => state = .running
  | .spudClose => state ≠ .unknown
  | .spudOpen => false
  | .spudAck => state = .opening

end Environment

section Switch

variable {mgr : TubeManager} {env : Environment} {find : SpudTubeId → Option Nat}
  {d : TubeEventData} {cell : Tube} {cmd : SpudCommand}

theorem obey_idle (found : mgr.tubes.cells d.t = some cell)
    (idle : Environment.acts cmd cell.state = false) :
    (obey env d cmd).straight mgr = .ok (.next, mgr) := by
  rw [obey, straight_bind_of_done (readTube_ok found)]
  cases cmd with
  | spudData => rw [if_neg (of_decide_eq_false idle)]; rfl
  | spudClose => rw [if_neg (of_decide_eq_false idle)]; rfl
  | spudOpen => rfl
  | spudAck => rw [if_neg (of_decide_eq_false idle)]; rfl

def Environment.verdict (env : Environment) (event : TubeEvent) : Verdict :=
  if env.granted (.moment event) then .next else .failed

theorem obey_data (found : mgr.tubes.cells d.t = some cell) (running : cell.state = .running) :
    (obey env d .spudData).straight mgr =
      .ok (env.verdict .data, mgr.noted (env.triggers (.data d))) := by
  rw [obey, straight_bind_of_done (readTube_ok found)]
  simp only [if_pos running]
  exact straight_bind_of (lsEventTrigger_straight _)

theorem obey_ack (found : mgr.tubes.cells d.t = some cell) (opening : cell.state = .opening) :
    (obey env d .spudAck).straight mgr =
      .ok (env.verdict .running,
        (mgr.setTube d.t { cell with state := .running }).noted (env.triggers (.running d))) := by
  rw [obey, straight_bind_of_done (readTube_ok found)]
  simp only [if_pos opening]
  rw [straight_bind_of_done (tubeSetState_ok found _)]
  exact straight_bind_of (lsEventTrigger_straight _)

theorem obey_close_refused (found : mgr.tubes.cells d.t = some cell)
    (known : cell.state ≠ .unknown) (refused : env.granted (.moment .close) = false) :
    (obey env d .spudClose).straight mgr =
      .ok (.failed, mgr.setTube d.t { cell with state := .unknown }) := by
  have silent : env.triggers (.close d) = [] := if_neg (by simp [Notice.event, refused])
  rw [obey, straight_bind_of_done (readTube_ok found)]
  simp only [ne_eq, if_pos known]
  rw [straight_bind_of_done (tubeSetState_ok found _),
    straight_bind_of (lsEventTrigger_straight _), silent, noted_nil, Notice.event, refused]
  rfl

/-- A `CLOSE` for a tube in the table destroys it, once its removal returns. -/
theorem obey_close_of {table : HTable TubeKey Nat} (found : mgr.tubes.cells d.t = some cell)
    (known : cell.state ≠ .unknown) (granted : env.granted (.moment .close) = true)
    (removed : (tubeManagerRemove env d.t).straight
        ((mgr.setTube d.t { cell with state := .unknown }).noted [.triggered (.close d)]) =
      .ok ((), ((((mgr.setTube d.t { cell with state := .unknown }).noted
        [.triggered (.close d)]).noted (env.triggers (.remove d.t))).withTable table).evict env
          (some d.t))) :
    (obey env d .spudClose).straight mgr = .ok (.next, { mgr with
      table := table
      tubes := mgr.tubes.erase d.t
      trace := mgr.trace ++
        (.triggered (.close d) :: env.triggers (.remove d.t) ++ [.destroyed d.t]) }) := by
  have triggers : env.triggers (.close d) = [.triggered (.close d)] := if_pos granted
  let closed : Tube := { cell with state := .unknown }
  let middle : TubeManager := (mgr.setTube d.t closed).noted [.triggered (.close d)]
  have foundMiddle : middle.tubes.cells d.t = some closed := Memory.set_cells_self _ found
  rw [obey, straight_bind_of_done (readTube_ok found)]
  simp only [ne_eq, if_pos known]
  rw [straight_bind_of_done (tubeSetState_ok found _),
    straight_bind_of (lsEventTrigger_straight _), triggers, Notice.event, granted]
  simp only [if_true]
  rw [straight_bind_of removed]
  have evicted : ((middle.noted (env.triggers (.remove d.t))).withTable table).tubes.cells d.t =
      some closed := foundMiddle
  rw [evict_some evicted]
  simp [Proc.straight, Proc.run_pure, Outcome.straight, middle, closed, TubeManager.noted,
    TubeManager.setTube, TubeManager.withTable, Memory.erase_set, Environment.closing]

theorem obey_close (holds : mgr.Holds find) (stored : find cell.id = some d.t)
    (found : mgr.tubes.cells d.t = some cell) (known : cell.state ≠ .unknown)
    (granted : env.granted (.moment .close) = true) :
    ∃ table, (obey env d .spudClose).straight mgr =
        .ok (.next, { mgr with
          table := table
          tubes := mgr.tubes.erase d.t
          trace := mgr.trace ++
            (.triggered (.close d) :: env.triggers (.remove d.t) ++ [.destroyed d.t]) }) ∧
      Registers table (Function.update find cell.id none) := by
  let closed : Tube := { cell with state := .unknown }
  let middle : TubeManager := (mgr.setTube d.t closed).noted [.triggered (.close d)]
  have holdsClosed : (mgr.setTube d.t closed).Holds find := holds.setTube found (.inl rfl)
  have holdsMiddle : middle.Holds find := holdsClosed.noted _
  have foundMiddle : middle.tubes.cells d.t = some closed := Memory.set_cells_self _ found
  obtain ⟨table, returned, registers⟩ :=
    @tubeManagerRemove_straight middle env find d.t closed holdsMiddle foundMiddle
  rw [show closed.id = cell.id from rfl, stored] at returned
  exact ⟨table, obey_close_of found known granted returned, registers⟩

end Switch

section Creation

variable {mgr : TubeManager} {env : Environment} {find : SpudTubeId → Option Nat}

def TubeManager.created (mgr : TubeManager) (cell : Tube) : TubeManager :=
  { mgr with tubes := mgr.tubes.alloc cell }

theorem created_cells (mgr : TubeManager) (cell : Tube) :
    (mgr.created cell).tubes.cells mgr.tubes.fresh = some cell :=
  Memory.alloc_cells_self _ _

theorem TubeManager.Holds.unused (holds : mgr.Holds find) :
    ∀ id, find id ≠ some mgr.tubes.fresh := by
  intro id stored
  obtain ⟨cell, found, _⟩ := holds.live id _ stored
  exact Nat.lt_irrefl _ (Memory.lt_fresh found)

theorem TubeManager.Holds.created (holds : mgr.Holds find) (cell : Tube) :
    (mgr.created cell).Holds find := by
  refine holds.keep rfl ?_
  intro id t old stored found
  exact ⟨old, Memory.alloc_cells_of_some _ _ found, rfl⟩

theorem created_setTube (mgr : TubeManager) (first second : Tube) :
    (mgr.created first).setTube mgr.tubes.fresh second = mgr.created second := by
  simp only [TubeManager.created, TubeManager.setTube, Memory.set_alloc]

theorem tubeCreate_granted (granted : env.granted .tube = true) :
    (tubeCreate env).run mgr = .done (some mgr.tubes.fresh) (mgr.created Tube.created) := by
  rw [tubeCreate, if_pos granted]
  rfl

theorem tubeSetInfo_created (cell : Tube) (socket : Int) {peer : SockAddr}
    (internet : peer.isInternet = true) (id : SpudTubeId) :
    (tubeSetInfo mgr.tubes.fresh socket (some peer) (some id)).run (mgr.created cell) =
      .done () (mgr.created { cell with
        sock := if 0 ≤ socket then socket else cell.sock
        peer := peer
        id := id }) := by
  have copied : lsSockaddrCopy peer = .ok peer := if_pos internet
  rw [tubeSetInfo, Proc.run_bind_of_done (Proc.run_lift_of_ok (by simp only [copied]; rfl)),
    modifyTube_ok (created_cells mgr cell), created_setTube]
  rfl

def Reception.tube (received : Reception) (uid : SpudTubeId) : Tube where
  state := .running
  peer := received.source
  id := uid
  pktinfo := some received.info
  sock := if 0 ≤ received.sock then received.sock else -1

def Reception.bareTube (received : Reception) (env : Environment) (uid : SpudTubeId) : Tube :=
  { received.tube uid with
    state := .unknown
    pktinfo := if env.granted .pktinfo then some received.info else none }

def Reception.ack (received : Reception) (uid : SpudTubeId) : Datagram :=
  (received.tube uid).datagram .spudAck false false []

theorem getStarted_run (granted : env.granted .tube = true) (received : Reception)
    (uid : SpudTubeId) :
    (getStarted env received uid).run mgr = (if env.granted .pktinfo then do
        let added ← tubeManagerAdd env mgr.tubes.fresh
        if added then do
          tubeSetState mgr.tubes.fresh .running
          let sent ← tubeSend env mgr.tubes.fresh .spudAck false false []
          if sent then pure (.ok mgr.tubes.fresh) else pure (.error .next)
        else pure (.error .failed)
      else pure (.error .failed) : Tubing (Except Verdict Nat)).run
        (mgr.created (received.bareTube env uid)) := by
  rw [getStarted, Proc.run_bind_of_done (tubeCreate_granted granted)]
  simp only []
  rw [Proc.run_bind_of_done (tubeSetInfo_created _ _ received.internet uid), tubeSetLocal,
    Proc.run_bind_of_done (Proc.run_bind_of_done (modifyTube_ok (created_cells mgr _) _)),
    created_setTube]
  rfl

theorem getStarted_created (granted : env.granted .tube = true) (received : Reception)
    (uid : SpudTubeId) :
    (getStarted env received uid).straight mgr = (if env.granted .pktinfo then do
        let added ← tubeManagerAdd env mgr.tubes.fresh
        if added then do
          tubeSetState mgr.tubes.fresh .running
          let sent ← tubeSend env mgr.tubes.fresh .spudAck false false []
          if sent then pure (.ok mgr.tubes.fresh) else pure (.error .next)
        else pure (.error .failed)
      else pure (.error .failed) : Tubing (Except Verdict Nat)).straight
        (mgr.created (received.bareTube env uid)) :=
  congrArg Outcome.straight (getStarted_run granted received uid)

/-- An `OPEN` for an identifier not in the table, once its tube is in the table. -/
theorem getStarted_of {answer : Bool} {table : HTable TubeKey Nat} (received : Reception)
    (uid : SpudTubeId) (granted : env.granted .tube = true) (copied : env.granted .pktinfo = true)
    (added : (tubeManagerAdd env mgr.tubes.fresh).straight
        (mgr.created (received.bareTube env uid)) =
      .ok (answer && env.granted (.moment .add),
        ((mgr.created (received.bareTube env uid)).withTable table).noted
          (if answer then env.triggers (.add mgr.tubes.fresh) else []))) :
    (getStarted env received uid).straight mgr =
      if answer && env.granted (.moment .add) then
        .ok (if env.answer (received.ack uid) then .ok mgr.tubes.fresh else .error .next,
          ((mgr.created (received.tube uid)).withTable table).noted
            (.triggered (.add mgr.tubes.fresh) :: env.effects (received.ack uid)))
      else .ok (.error .failed,
        (mgr.created (received.bareTube env uid)).withTable table) := by
  let bare := received.bareTube env uid
  rw [getStarted_created granted, if_pos copied, straight_bind_of added]
  cases answer with
  | false =>
    rw [Bool.false_and, if_neg Bool.false_ne_true, if_neg Bool.false_ne_true,
      if_neg Bool.false_ne_true, noted_nil]
    rfl
  | true =>
    rw [Bool.true_and, if_pos rfl]
    by_cases triggered : env.granted (.moment .add) = true
    · have triggers : env.triggers (.add mgr.tubes.fresh) =
          [.triggered (.add mgr.tubes.fresh)] := if_pos triggered
      have stored : (((mgr.created bare).withTable table).noted
          (env.triggers (.add mgr.tubes.fresh))).tubes.cells mgr.tubes.fresh = some bare :=
        created_cells mgr bare
      have running : { bare with state := TubeState.running } = received.tube uid := by
        simp [bare, Reception.bareTube, Reception.tube, copied]
      rw [if_pos triggered, if_pos triggered, straight_bind_of_done (tubeSetState_ok stored _),
        running]
      have created : (((mgr.created bare).withTable table).noted
          (env.triggers (.add mgr.tubes.fresh))).setTube mgr.tubes.fresh (received.tube uid) =
          ((mgr.created (received.tube uid)).withTable table).noted
            [.triggered (.add mgr.tubes.fresh)] := by
        rw [triggers, ← created_setTube mgr bare (received.tube uid)]
        rfl
      rw [created]
      have live : (((mgr.created (received.tube uid)).withTable table).noted
          [.triggered (.add mgr.tubes.fresh)]).tubes.cells mgr.tubes.fresh =
            some (received.tube uid) := created_cells mgr _
      rw [straight_bind_of_done (tubeSend_ok live _ _ _ _), noted_noted]
      cases sent : env.answer (received.ack uid) with
      | true =>
        rw [show env.answer ((received.tube uid).datagram .spudAck false false []) = true
          from sent]
        rfl
      | false =>
        rw [show env.answer ((received.tube uid).datagram .spudAck false false []) = false
          from sent]
        rfl
    · have triggers : env.triggers (.add mgr.tubes.fresh) = [] := if_neg triggered
      rw [if_neg triggered, if_neg triggered, triggers, noted_nil]
      rfl

theorem getStarted_added (holds : mgr.Holds find) (received : Reception) {uid : SpudTubeId}
    (missing : find uid = none) (refused : ∀ size, 2 ^ 30 ≤ size → env.calloc size = false)
    (granted : env.granted .tube = true) (copied : env.granted .pktinfo = true) :
    ∃ answer table, (getStarted env received uid).straight mgr =
        (if answer && env.granted (.moment .add) then
          .ok (if env.answer (received.ack uid) then .ok mgr.tubes.fresh else .error .next,
            ((mgr.created (received.tube uid)).withTable table).noted
              (.triggered (.add mgr.tubes.fresh) :: env.effects (received.ack uid)))
        else .ok (.error .failed,
          (mgr.created (received.bareTube env uid)).withTable table)) ∧
      Registers table
        (if answer then Function.update find uid (some mgr.tubes.fresh) else find) ∧
      (answer = true ↔ mgr.table.Accepts env.calloc (env.granted .node)) := by
  let bare := received.bareTube env uid
  have holdsBare := holds.created bare
  obtain ⟨answer, table, added, registers, _, accepted, unused⟩ :=
    @tubeManagerAdd_straight _ env _ _ _ holdsBare (created_cells mgr bare) refused
  have own : bare.id = uid := rfl
  rw [own] at added registers unused
  rw [missing, evict_none] at added
  exact ⟨answer, table, getStarted_of received uid granted copied added, registers,
    unused missing, accepted⟩

end Creation

section Messages

variable {mgr : TubeManager} {env : Environment} {find : SpudTubeId → Option Nat}
  {received : Reception} {msg : SpudMessage} {t : Nat}

theorem lookup_ok (holds : mgr.Holds find) (key : TubeKey) :
    (Proc.lift fun mgr => do
      let found ← mgr.table.lsHtableGet key
      pure (found, mgr) : Tubing (Option Nat)).run mgr = .done (find key.id) mgr := by
  refine Proc.run_lift_of_ok ?_
  simp only [holds.registers.get key, Exec.ok_bind, Exec.pure_eq_ok]

theorem handleMessage_found (holds : mgr.Holds find)
    (stored : find msg.header.tubeId = some t) :
    (handleMessage env received msg).straight mgr =
      (obey env ⟨t, msg.cbor, received.source⟩
        (SpudCommand.ofFlags msg.header.flags)).straight mgr := by
  have found := lookup_ok holds ⟨none, msg.header.tubeId⟩
  rw [stored] at found
  rw [handleMessage, straight_bind_of_done (readKeys_ok holds _), straight_bind_of_done found]

def TubeManager.Responds (mgr : TubeManager) (msg : SpudMessage) : Prop :=
  mgr.tubeManagerIsResponder = true ∧ SpudCommand.ofFlags msg.header.flags = .spudOpen

theorem handleMessage_ignored (holds : mgr.Holds find) (missing : find msg.header.tubeId = none)
    (ignored : ¬ mgr.Responds msg) :
    (handleMessage env received msg).straight mgr = .ok (.next, mgr) := by
  have found := lookup_ok holds ⟨none, msg.header.tubeId⟩
  rw [missing] at found
  have punt : (!mgr.tubeManagerIsResponder ||
      decide (SpudCommand.ofFlags msg.header.flags ≠ .spudOpen)) = true := by
    rw [Bool.or_eq_true, decide_eq_true_eq]
    by_cases responder : mgr.tubeManagerIsResponder = true
    · exact .inr fun opening => ignored ⟨responder, opening⟩
    · exact .inl (by simpa using responder)
  rw [handleMessage, straight_bind_of_done (readKeys_ok holds _), straight_bind_of_done found]
  refine (straight_bind_of_done rfl).trans ?_
  rw [if_pos punt]
  rfl

theorem handleMessage_started (holds : mgr.Holds find) (missing : find msg.header.tubeId = none)
    (responds : mgr.Responds msg) :
    (handleMessage env received msg).straight mgr = (do
      let started ← getStarted env received msg.header.tubeId
      match started with
      | .error verdict => pure verdict
      | .ok t => obey env ⟨t, msg.cbor, received.source⟩ .spudOpen : Tubing Verdict).straight
        mgr := by
  have found := lookup_ok holds ⟨none, msg.header.tubeId⟩
  rw [missing] at found
  rw [handleMessage, straight_bind_of_done (readKeys_ok holds _), straight_bind_of_done found]
  refine (straight_bind_of_done rfl).trans ?_
  rw [responds.1, responds.2]
  rfl

/-- The time of a datagram becomes the manager's. -/
def TubeManager.at (mgr : TubeManager) (env : Environment) (received : Reception) : TubeManager :=
  { mgr with last := received.stamp.getD env.clock }

theorem TubeManager.Holds.at (holds : mgr.Holds find) (env : Environment) (received : Reception) :
    (mgr.at env received).Holds find :=
  ⟨holds.registers, holds.live⟩

variable {library : CborLibrary} {hasErr : Bool}

theorem tubeManagerLoopBody_parsed (some : received.buf ≠ [])
    (parsed : spudParse library received.buf = .ok msg) :
    (tubeManagerLoopBody env library hasErr received).straight mgr =
      (handleMessage env received msg).straight (mgr.at env received) := by
  have bytes : received.buf.length ≠ 0 := fun empty => some (List.length_eq_zero_iff.mp empty)
  rw [tubeManagerLoopBody, if_neg bytes]
  refine (straight_bind_of_done rfl).trans ?_
  rw [parsed]
  rfl

theorem tubeManagerLoopBody_rejected (some : received.buf ≠ []) {reason : SpudError}
    (rejected : spudParse library received.buf = .error reason) :
    (tubeManagerLoopBody env library hasErr received).straight mgr =
      if hasErr then .ok (.next, mgr.at env received) else .error .nullDereference := by
  have bytes : received.buf.length ≠ 0 := fun empty => some (List.length_eq_zero_iff.mp empty)
  rw [tubeManagerLoopBody, if_neg bytes]
  refine (straight_bind_of_done rfl).trans ?_
  rw [rejected]
  cases hasErr <;> rfl

theorem tubeManagerLoopBody_empty (none : received.buf = []) :
    (tubeManagerLoopBody env library hasErr received).straight mgr = .error .assertFailed := by
  rw [tubeManagerLoopBody, none]
  rfl

end Messages

end SpudLib
