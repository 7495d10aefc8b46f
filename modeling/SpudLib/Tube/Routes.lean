import SpudLib.Foundation.Nesting
import SpudLib.Tube.Callbacks
import SpudLib.Tube.Mirroring

/-!
# Where datagrams and events come from

Every function that works on tubes may be called at any time, also from the callbacks
of another call, and with any answers of the system.  A tube sends only along the route
that it was given, and whatever nesting of calls has led there, the route and each event
go back to one call that gave grounds for them.
-/

namespace SpudLib

open TubeManager

def tubeSendPdec (env : Environment) (library : CborLibrary) (t : Nat) (cbor : Cbor)
    (reflect : Bool) : Tubing Bool :=
  tubeSendCbor env library t .spudData reflect true cbor

inductive TubeCall where
  | request (request : Request)
  | setLocal (env : Environment) (t : Nat) (info : Option PktInfo)
  | send (env : Environment) (t : Nat) (cmd : SpudCommand) (adec pdec : Bool)
      (data : List (List UInt8))
  | sendCbor (env : Environment) (t : Nat) (cmd : SpudCommand) (adec pdec : Bool) (cbor : Cbor)
  | sendPdec (env : Environment) (t : Nat) (cbor : Cbor) (reflect : Bool)
  | free (t : Nat)

def TubeCall.procedure (library : CborLibrary) : TubeCall → Tubing Unit
  | .request asked => asked.procedure library
  | .setLocal env t info => do
      let _ ← tubeSetLocal env t info
      pure ()
  | .send env t cmd adec pdec data => do
      let _ ← tubeSend env t cmd adec pdec data
      pure ()
  | .sendCbor env t cmd adec pdec cbor => do
      let _ ← tubeSendCbor env library t cmd adec pdec cbor
      pure ()
  | .sendPdec env t cbor reflect => do
      let _ ← tubeSendPdec env library t cbor reflect
      pure ()
  | .free t => tubeDestroy t

/-- What a tube sends with: its socket, the local address, its peer and its identifier. -/
structure Route where
  sock : Int
  source : Option PktInfo
  dest : SockAddr
  id : SpudTubeId

def Tube.route (cell : Tube) : Route := ⟨cell.sock, cell.pktinfo, cell.peer, cell.id⟩

structure Datagram.Takes (datagram : Datagram) (route : Route) : Prop where
  sock : datagram.sock = route.sock
  source : datagram.source = route.source
  dest : datagram.dest = route.dest
  header : ∃ header rest, datagram.bytes = SpudHeader.bytes header ++ rest ∧
    header.tubeId = route.id

def TubeManager.routeTo (mgr : TubeManager) (dest : SockAddr) (id : SpudTubeId) : Route where
  sock :=
    let sock := match dest with
      | .inet6 .. => mgr.sock6
      | _ => mgr.sock4
    if 0 ≤ sock then sock else -1
  source := none
  dest := dest
  id := id

/-- What a tube or an event is there for. -/
inductive Ground where
  | route (route : Route)
  | notice (notice : Notice)

structure TubeManager.Finds (mgr : TubeManager) (library : CborLibrary) (received : Reception)
    (cmd : SpudCommand) (d : TubeEventData) (cell : Tube) : Prop where
  message : ∃ msg, spudParse library received.buf = .ok msg ∧
    SpudCommand.ofFlags msg.header.flags = cmd ∧
    mgr.lookup msg.header.tubeId = .ok (some d.t) ∧ d.cbor = msg.cbor
  peer : d.peer = received.source
  found : mgr.tubes.cells d.t = some cell

/-- The datagram is an `OPEN` under an identifier that is not in the table, and the manager
is a responder. -/
def TubeManager.Answers (mgr : TubeManager) (library : CborLibrary) (received : Reception)
    (id : SpudTubeId) : Prop :=
  ∃ msg, spudParse library received.buf = .ok msg ∧ mgr.Responds msg ∧
    mgr.lookup msg.header.tubeId = .ok none ∧ msg.header.tubeId = id

/-- The grounds that a call gives, in the state in which it is called. -/
inductive TubeCall.Gives (library : CborLibrary) (mgr : TubeManager) : TubeCall → Ground → Prop
  | openRoute {env dest id} : env.randomId = some id → dest.isInternet = true →
      Gives library mgr (.request (.openTube env dest)) (.route (mgr.routeTo dest id))
  | openAdd {env dest} : env.granted .tube = true → dest.isInternet = true →
      Gives library mgr (.request (.openTube env dest)) (.notice (.add mgr.tubes.fresh))
  | openRemove {env dest} : env.granted .tube = true → dest.isInternet = true →
      Gives library mgr (.request (.openTube env dest)) (.notice (.remove mgr.tubes.fresh))
  | create {env} : env.granted .tube = true →
      Gives library mgr (.request (.create env)) (.route Tube.created.route)
  | setInfo {t socket peer id cell} : mgr.tubes.cells t = some cell →
      Gives library mgr (.request (.setInfo t socket peer id))
        (.route ⟨if 0 ≤ socket then socket else cell.sock, cell.pktinfo, peer.getD cell.peer,
          id.getD cell.id⟩)
  | setLocal {env t info cell} : mgr.tubes.cells t = some cell →
      Gives library mgr (.setLocal env t info)
        (.route { cell.route with source := if env.granted .pktinfo then info else none })
  | add {env t} : mgr.tubes.Live t → Gives library mgr (.request (.add env t)) (.notice (.add t))
  | remove {env t} : Gives library mgr (.request (.remove env t)) (.notice (.remove t))
  | answer {env hasErr received id} : mgr.Answers library received id →
      Gives library mgr (.request (.receive env hasErr received))
        (.route (received.bareTube env id).route)
  | answerAdd {env hasErr received id} : mgr.Answers library received id →
      Gives library mgr (.request (.receive env hasErr received)) (.notice (.add mgr.tubes.fresh))
  | data {env hasErr received d cell} : mgr.Finds library received .spudData d cell →
      cell.state = .running →
      Gives library mgr (.request (.receive env hasErr received)) (.notice (.data d))
  | running {env hasErr received d cell} : mgr.Finds library received .spudAck d cell →
      cell.state = .opening →
      Gives library mgr (.request (.receive env hasErr received)) (.notice (.running d))
  | close {env hasErr received d cell} : mgr.Finds library received .spudClose d cell →
      cell.state ≠ .unknown →
      Gives library mgr (.request (.receive env hasErr received)) (.notice (.close d))
  | closeRemove {env hasErr received d cell} : mgr.Finds library received .spudClose d cell →
      cell.state ≠ .unknown →
      Gives library mgr (.request (.receive env hasErr received)) (.notice (.remove d.t))

def TubeCall.grants (library : CborLibrary) (call : TubeCall) (mgr : TubeManager) : Set Ground :=
  {ground | Gives library mgr call ground}

def Effect.Accounted (known : Set Ground) : Effect → Prop
  | .triggered notice => .notice notice ∈ known
  | .sent datagram _ => ∃ route, .route route ∈ known ∧ datagram.Takes route
  | .destroyed _ => True

/-- Tubes have their routes on known grounds, and all effects are accounted for. -/
structure TubeManager.Founded (known : Set Ground) (mgr : TubeManager) : Prop where
  tubes : ∀ t cell, mgr.tubes.cells t = some cell → .route cell.route ∈ known
  trace : ∀ effect ∈ mgr.trace, effect.Accounted known

/-- The call keeps everything founded, given the grounds in `base`. -/
abbrev Grounded {Alpha : Type} (base : Set Ground) (procedure : Tubing Alpha) : Prop :=
  Proc.Keeps Founded base procedure

theorem Tube.datagram_takes (cell : Tube) (cmd : SpudCommand) (adec pdec : Bool)
    (data : List (List UInt8)) : (cell.datagram cmd adec pdec data).Takes cell.route :=
  ⟨rfl, rfl, rfl, sentHeader cell.id cmd adec pdec, _, List.flatten_cons, rfl⟩

theorem Effect.Accounted.mono {known more : Set Ground} {effect : Effect}
    (accounted : effect.Accounted known) (grown : known ⊆ more) : effect.Accounted more := by
  cases effect with
  | triggered notice => exact grown accounted
  | sent datagram answer =>
    obtain ⟨route, given, takes⟩ := accounted
    exact ⟨route, grown given, takes⟩
  | destroyed t => trivial

namespace TubeManager.Founded

variable {known more : Set Ground} {mgr : TubeManager} {t : Nat} {cell : Tube}

theorem mono (founded : Founded known mgr) (grown : known ⊆ more) : Founded more mgr :=
  ⟨fun t cell found => grown (founded.tubes t cell found),
    fun effect member => (founded.trace effect member).mono grown⟩

theorem noted (founded : Founded known mgr) {effects : List Effect}
    (accounted : ∀ effect ∈ effects, effect.Accounted known) :
    Founded known (mgr.noted effects) := by
  refine ⟨founded.tubes, ?_⟩
  intro effect member
  rcases List.mem_append.mp member with old | new
  · exact founded.trace effect old
  · exact accounted effect new

theorem setTube (founded : Founded known mgr) {changed : Tube}
    (given : Ground.route changed.route ∈ known) : Founded known (mgr.setTube t changed) := by
  refine ⟨?_, founded.trace⟩
  intro other now found
  by_cases here : other = t
  · subst here
    obtain ⟨old, before⟩ : mgr.tubes.Live other := Memory.live_of_set ⟨now, found⟩
    rw [TubeManager.setTube, Memory.set_cells_self _ before] at found
    cases found
    exact given
  · exact founded.tubes other now ((Memory.set_cells_of_ne _ _ here).symm.trans found)

theorem created (founded : Founded known mgr) (given : Ground.route cell.route ∈ known) :
    Founded known (mgr.created cell) := by
  refine ⟨?_, founded.trace⟩
  intro other now found
  by_cases here : other = mgr.tubes.fresh
  · subst here
    rw [created_cells] at found
    cases found
    exact given
  · exact founded.tubes other now ((Memory.alloc_cells_of_ne _ _ here).symm.trans found)

theorem erased (founded : Founded known mgr) (t : Nat) :
    Founded known { mgr with tubes := mgr.tubes.erase t } := by
  refine ⟨?_, founded.trace⟩
  intro other now found
  by_cases here : other = t
  · subst here
    rw [Memory.erase_cells_self] at found
    cases found
  · exact founded.tubes other now ((Memory.erase_cells_of_ne _ here).symm.trans found)

end TubeManager.Founded

section Functions

variable {base : Set Ground} {env : Environment} {t : Nat}

theorem readTube_grounded : Grounded base (readTube t) := by
  apply Proc.Keeps.lift
  intro known mgr cell after _ founded returned
  obtain ⟨_, _, same⟩ := Exec.bind_eq_ok.mp returned
  cases same
  exact founded

theorem readTube_routed {known : Set Ground} {mgr : TubeManager} (founded : Founded known mgr) :
    ((readTube t).run mgr).Sustains Founded
      (fun later cell after => Founded later after ∧ .route cell.route ∈ later) known := by
  cases found : mgr.tubes.cells t with
  | none => simp only [readTube, Proc.lift, Memory.read_of_none found, Exec.error_bind]; trivial
  | some cell =>
    rw [readTube_ok found]
    exact ⟨founded, founded.tubes t cell found⟩

theorem modifyTube_grounded {change : Tube → Tube}
    (same : ∀ cell, (change cell).route = cell.route) : Grounded base (modifyTube t change) := by
  intro known mgr _ founded
  cases found : mgr.tubes.cells t with
  | none => simp only [modifyTube, Proc.lift, Memory.modify, found, Exec.error_bind]; trivial
  | some cell =>
    rw [modifyTube_ok found]
    apply founded.setTube
    rw [same]
    exact founded.tubes t cell found

theorem tubeSetState_grounded (state : TubeState) : Grounded base (tubeSetState t state) :=
  modifyTube_grounded fun _ => rfl

theorem record_grounded {effect : Effect} (accounted : effect.Accounted base) :
    Grounded base (record effect) := by
  apply Proc.Keeps.modify
  intro known mgr later founded
  apply founded.noted
  intro other member
  rw [List.mem_singleton.mp member]
  exact accounted.mono later

theorem tubeDestroy_grounded : Grounded base (tubeDestroy t) := by
  apply Proc.Keeps.bind
  · apply Proc.Keeps.lift
    intro known mgr value after _ founded returned
    obtain ⟨tubes, freed, same⟩ := Exec.bind_eq_ok.mp returned
    cases same
    unfold Memory.free at freed
    split at freed
    · cases freed
      exact founded.erased t
    · cases freed
  · exact fun _ => record_grounded trivial

theorem tubeSend_grounded (cmd : SpudCommand) (adec pdec : Bool) (data : List (List UInt8)) :
    Grounded base (tubeSend env t cmd adec pdec data) := by
  refine .ite (fun _ => ?_) fun _ => .pure _
  intro known mgr _ founded
  apply Outcome.Sustains.bind (readTube_routed founded)
  rintro later cell after _ ⟨foundedAfter, given⟩
  apply foundedAfter.noted
  intro effect member
  rw [List.mem_singleton.mp member]
  exact ⟨cell.route, given, cell.datagram_takes cmd adec pdec data⟩

theorem tubeSendCbor_grounded (library : CborLibrary) (cmd : SpudCommand) (adec pdec : Bool)
    (cbor : Cbor) : Grounded base (tubeSendCbor env library t cmd adec pdec cbor) := by
  unfold tubeSendCbor
  split
  · exact .pure _
  · exact tubeSend_grounded _ _ _ _

theorem tubeData_grounded (library : CborLibrary) (bytes : List UInt8) :
    Grounded base (tubeData env library t bytes) :=
  .ite (fun _ => tubeSend_grounded _ _ _ _) fun _ =>
    .ite (fun _ => tubeSendCbor_grounded _ _ _ _ _) fun _ => .pure _

theorem tubeClose_grounded : Grounded base (tubeClose env t) :=
  .bind (tubeSetState_grounded _) fun _ => tubeSend_grounded _ _ _ _

theorem readKeys_grounded (key : TubeKey) : Grounded base (readKeys key) := by
  apply Proc.Keeps.lift
  intro known mgr value after _ founded returned
  obtain ⟨_, _, same⟩ := Exec.bind_eq_ok.mp returned
  cases same
  exact founded

theorem lsEventTrigger_grounded {notice : Notice} (given : .notice notice ∈ base) :
    Grounded base (lsEventTrigger env notice) :=
  .ite (fun _ => .bind (record_grounded given) fun _ => .bind (.callBack _) fun _ => .pure _)
    fun _ => .pure _

theorem cleanTube_grounded (data : Option Nat) : Grounded base (cleanTube env data) := by
  cases data with
  | none => exact .fail _
  | some t =>
    exact .bind readTube_grounded fun cell =>
      .ite (fun _ => .bind tubeClose_grounded fun _ => tubeDestroy_grounded)
        fun _ => .bind (.pure _) fun _ => tubeDestroy_grounded

theorem runCleaners_grounded (calls : List (CleanerCall TubeKey Nat)) :
    Grounded base (runCleaners env calls) := by
  induction calls with
  | nil => exact .pure _
  | cons call calls inductionHypothesis =>
    exact .bind (cleanTube_grounded _) fun _ => inductionHypothesis

theorem table_grounded {Found Alpha : Type} {compute : TubeManager → Exec Found}
    {value : Found → Alpha} {table : Found → HTable TubeKey Nat} :
    Grounded base (Proc.lift fun mgr => do
      let found ← compute mgr
      pure (value found, { mgr with table := table found })) := by
  apply Proc.Keeps.lift
  intro known mgr value after _ founded returned
  obtain ⟨_, _, same⟩ := Exec.bind_eq_ok.mp returned
  cases same
  exact ⟨founded.tubes, founded.trace⟩

theorem tubeManagerAdd_grounded (given : .notice (.add t) ∈ base) :
    Grounded base (tubeManagerAdd env t) :=
  .bind readTube_grounded fun _ => .bind (readKeys_grounded _) fun _ =>
    .bind table_grounded fun _ => .bind (runCleaners_grounded _) fun _ =>
      .ite (fun _ => lsEventTrigger_grounded given) fun _ => .pure _

theorem tubeManagerRemove_grounded (given : .notice (.remove t) ∈ base) :
    Grounded base (tubeManagerRemove env t) :=
  .bind (lsEventTrigger_grounded given) fun _ => .bind readTube_grounded fun _ =>
    .bind (readKeys_grounded _) fun _ => .bind table_grounded fun _ => runCleaners_grounded _

theorem openTubeWith_grounded (added : .notice (.add t) ∈ base)
    (removed : .notice (.remove t) ∈ base) : Grounded base (openTubeWith env t) := by
  refine .bind (tubeSetState_grounded _) fun _ => .bind (tubeManagerAdd_grounded added) ?_
  refine fun _ => .ite (fun _ => .bind (tubeSend_grounded _ _ _ _) fun _ => ?_) fun _ => ?_
  · exact .ite (fun _ => .pure _) fun _ =>
      .bind (tubeManagerRemove_grounded removed) fun _ =>
        .bind tubeDestroy_grounded fun _ => .pure _
  · exact .bind tubeDestroy_grounded fun _ => .pure _

theorem tubeManagerDestroy_grounded : Grounded base (tubeManagerDestroy env) :=
  .bind (.modify fun _ _ _ founded => ⟨founded.tubes, founded.trace⟩) fun _ =>
    .bind .get fun _ => runCleaners_grounded _

end Functions

section Datagrams

variable {known : Set Ground} {mgr : TubeManager} {env : Environment}

/-- The switch of the loop has grounds for every event that it triggers. -/
theorem obey_sustains (founded : Founded known mgr) {d : TubeEventData} {cmd : SpudCommand}
    {cell : Tube} (found : mgr.tubes.cells d.t = some cell)
    (data : cmd = .spudData → cell.state = .running → .notice (.data d) ∈ known)
    (running : cmd = .spudAck → cell.state = .opening → .notice (.running d) ∈ known)
    (close : cmd = .spudClose → cell.state ≠ .unknown →
      .notice (.close d) ∈ known ∧ .notice (.remove d.t) ∈ known) :
    ((obey env d cmd).run mgr).Sustains Founded
      (fun later _ after => Founded later after) known := by
  rw [obey, Proc.run_bind_of_done (readTube_ok found)]
  cases cmd with
  | spudOpen => exact founded
  | spudData =>
    have switched : Grounded known (if cell.state = .running then do
        let triggered ← lsEventTrigger env (.data d)
        pure (if triggered then .next else .failed)
      else pure .next : Tubing Verdict) :=
      .ite (fun live => .bind (lsEventTrigger_grounded (data rfl live)) fun _ => .pure _)
        fun _ => .pure _
    exact switched known mgr subset_rfl founded
  | spudAck =>
    have switched : Grounded known (if cell.state = .opening then do
        tubeSetState d.t .running
        let triggered ← lsEventTrigger env (.running d)
        pure (if triggered then .next else .failed)
      else pure .next : Tubing Verdict) :=
      .ite (fun opening => .bind (tubeSetState_grounded _) fun _ =>
        .bind (lsEventTrigger_grounded (running rfl opening)) fun _ => .pure _) fun _ => .pure _
    exact switched known mgr subset_rfl founded
  | spudClose =>
    have switched : Grounded known (if cell.state ≠ .unknown then do
        tubeSetState d.t .unknown
        let triggered ← lsEventTrigger env (.close d)
        if triggered then do
          tubeManagerRemove env d.t
          pure .next
        else pure .failed
      else pure .next : Tubing Verdict) :=
      .ite (fun alive => .bind (tubeSetState_grounded _) fun _ =>
        .bind (lsEventTrigger_grounded (close rfl alive).1) fun _ =>
          .ite (fun _ => .bind (tubeManagerRemove_grounded (close rfl alive).2) fun _ => .pure _)
            fun _ => .pure _) fun _ => .pure _
    exact switched known mgr subset_rfl founded

/-- A tube made for an `OPEN` is ignored by the switch. -/
theorem obey_open_grounded (d : TubeEventData) : Grounded known (obey env d .spudOpen) :=
  .bind readTube_grounded fun _ => .pure _

theorem getStarted_sustains (founded : Founded known mgr) (received : Reception)
    (uid : SpudTubeId) (route : .route (received.bareTube env uid).route ∈ known)
    (add : .notice (.add mgr.tubes.fresh) ∈ known) :
    ((getStarted env received uid).run mgr).Sustains Founded
      (fun later _ after => Founded later after) known := by
  by_cases granted : env.granted .tube = true
  · rw [getStarted_run granted]
    have onward : Grounded known (if env.granted .pktinfo then do
        let added ← tubeManagerAdd env mgr.tubes.fresh
        if added then do
          tubeSetState mgr.tubes.fresh .running
          let sent ← tubeSend env mgr.tubes.fresh .spudAck false false []
          if sent then pure (.ok mgr.tubes.fresh) else pure (.error .next)
        else pure (.error .failed)
      else pure (.error .failed) : Tubing (Except Verdict Nat)) :=
      .ite (fun _ => .bind (tubeManagerAdd_grounded add) fun _ =>
        .ite (fun _ => .bind (tubeSetState_grounded _) fun _ =>
          .bind (tubeSend_grounded _ _ _ _) fun _ => .ite (fun _ => .pure _) fun _ => .pure _)
          fun _ => .pure _) fun _ => .pure _
    exact onward known _ subset_rfl (founded.created route)
  · rw [getStarted, tubeCreate, if_neg granted]
    exact founded

theorem handleMessage_sustains {library : CborLibrary} {hasErr : Bool} {received : Reception}
    {msg : SpudMessage} (founded : Founded known mgr)
    (parsed : spudParse library received.buf = .ok msg)
    (given : TubeCall.grants library (.request (.receive env hasErr received)) mgr ⊆ known) :
    ((handleMessage env received msg).run
        { mgr with last := received.stamp.getD env.clock }).Sustains Founded
      (fun later _ after => Founded later after) known := by
  let now : TubeManager := { mgr with last := received.stamp.getD env.clock }
  have foundedNow : Founded known now := ⟨founded.tubes, founded.trace⟩
  have read : ((readKeys ⟨none, msg.header.tubeId⟩).run now).Sustains Founded
      (fun _ _ after => after = now) known := by
    unfold readKeys Proc.lift
    dsimp only
    split
    next returned =>
      obtain ⟨_, _, same⟩ := Exec.bind_eq_ok.mp returned
      cases same
      rfl
    next => trivial
  apply Outcome.Sustains.bind read
  rintro later _ _ grown rfl
  have foundedLater := foundedNow.mono grown
  cases looked : mgr.lookup msg.header.tubeId with
  | error reason =>
    have failed : (Proc.lift fun mgr => do
        let found ← mgr.table.lsHtableGet ⟨none, msg.header.tubeId⟩
        pure (found, mgr) : Tubing (Option Nat)).run now = .fault reason := by
      simp only [Proc.lift, now, show mgr.table.lsHtableGet _ = _ from looked, Exec.error_bind]
    change Outcome.Sustains _ _ _ ((Proc.run _ now).bind _)
    rw [failed]
    trivial
  | ok found =>
    have done : (Proc.lift fun mgr => do
        let found ← mgr.table.lsHtableGet ⟨none, msg.header.tubeId⟩
        pure (found, mgr) : Tubing (Option Nat)).run now = .done found now := by
      apply Proc.run_lift_of_ok
      simp only [now, show mgr.table.lsHtableGet _ = _ from looked, Exec.ok_bind, Exec.pure_eq_ok]
    rw [Proc.run_bind_of_done done]
    cases found with
    | some t =>
      cases exists? : mgr.tubes.cells t with
      | none =>
        have lost : ((readTube t).run now).Sustains Founded (fun _ _ _ => False) later := by
          simp only [readTube, Proc.lift, now, Memory.read_of_none exists?, Exec.error_bind]
          trivial
        exact Outcome.Sustains.bind lost fun _ _ _ _ absurd => absurd.elim
      | some cell =>
        have finds : ∀ cmd, SpudCommand.ofFlags msg.header.flags = cmd →
            mgr.Finds library received cmd ⟨t, msg.cbor, received.source⟩ cell :=
          fun cmd same => ⟨⟨msg, parsed, same, looked, rfl⟩, rfl, exists?⟩
        apply obey_sustains foundedLater exists?
        · intro data running
          exact grown (given (.data (finds _ data) running))
        · intro ack opening
          exact grown (given (.running (finds _ ack) opening))
        · intro close alive
          exact ⟨grown (given (.close (finds _ close) alive)),
            grown (given (.closeRemove (finds _ close) alive))⟩
    | none =>
      rw [Proc.run_bind_of_done rfl]
      by_cases ignored : (!now.tubeManagerIsResponder ||
          decide (SpudCommand.ofFlags msg.header.flags ≠ .spudOpen)) = true
      · rw [if_pos ignored]
        exact foundedLater
      · rw [if_neg ignored]
        have responds : mgr.Responds msg := by
          simpa [Responds, tubeManagerIsResponder, now] using ignored
        have answers : mgr.Answers library received msg.header.tubeId :=
          ⟨msg, parsed, responds, looked, rfl⟩
        apply Outcome.Sustains.bind (getStarted_sustains foundedLater received msg.header.tubeId
          (grown (given (.answer answers))) (grown (given (.answerAdd answers))))
        rintro last (verdict | t) after _ foundedLast
        · exact foundedLast
        · rw [responds.2]
          exact obey_open_grounded _ last after subset_rfl foundedLast

theorem tubeManagerLoopBody_sustains {library : CborLibrary} {hasErr : Bool}
    {received : Reception} (founded : Founded known mgr)
    (given : TubeCall.grants library (.request (.receive env hasErr received)) mgr ⊆ known) :
    ((tubeManagerLoopBody env library hasErr received).run mgr).Sustains Founded
      (fun later _ after => Founded later after) known := by
  unfold tubeManagerLoopBody
  by_cases empty : received.buf.length = 0
  · rw [if_pos empty]
    trivial
  · rw [if_neg empty, Proc.run_bind_of_done rfl]
    cases parsed : spudParse library received.buf with
    | error reason =>
      cases hasErr with
      | true => exact ⟨founded.tubes, founded.trace⟩
      | false => trivial
    | ok msg => exact handleMessage_sustains founded parsed given

end Datagrams

section Calls

variable {known : Set Ground} {mgr : TubeManager} {env : Environment}

theorem tubeManagerOpenTube_sustains {library : CborLibrary} (founded : Founded known mgr)
    (dest : SockAddr)
    (given : TubeCall.grants library (.request (.openTube env dest)) mgr ⊆ known) :
    ((tubeManagerOpenTube env dest).run mgr).Sustains Founded
      (fun later _ after => Founded later after) known := by
  by_cases granted : env.granted .tube = true
  · rw [tubeManagerOpenTube, Proc.run_bind_of_done (tubeCreate_granted granted)]
    have undone : ((tubeDestroy mgr.tubes.fresh >>= fun _ => pure none :
        Tubing (Option Nat)).run (mgr.created Tube.created)).Sustains Founded
          (fun later _ after => Founded later after) known := by
      rw [Proc.run_bind_of_done (tubeDestroy_ok (created_cells mgr Tube.created))]
      refine ⟨?_, ?_⟩
      · intro t cell found
        by_cases here : t = mgr.tubes.fresh
        · rw [here, Memory.erase_cells_self] at found
          cases found
        · rw [Memory.erase_cells_of_ne _ here] at found
          exact founded.tubes t cell ((Memory.alloc_cells_of_ne _ _ here).symm.trans found)
      · intro effect member
        rcases List.mem_append.mp member with old | new
        · exact founded.trace effect old
        · rw [List.mem_singleton.mp new]
          trivial
    cases chosen : env.randomId with
    | none => exact undone
    | some id =>
      rw [Proc.run_bind_of_done rfl]
      have opens : ∀ socket, dest.isInternet = true →
          mgr.routeTo dest id = ⟨if 0 ≤ socket then socket else -1, none, dest, id⟩ →
          ((tubeSetInfo mgr.tubes.fresh socket (some dest) (some id) >>=
            fun _ => openTubeWith env mgr.tubes.fresh : Tubing (Option Nat)).run
              (mgr.created Tube.created)).Sustains Founded
                (fun later _ after => Founded later after) known := by
        intro socket internet same
        rw [Proc.run_bind_of_done (tubeSetInfo_created _ _ internet id)]
        have onward : Grounded known (openTubeWith env mgr.tubes.fresh) :=
          openTubeWith_grounded (given (.openAdd granted internet))
            (given (.openRemove granted internet))
        apply onward known _ subset_rfl
        apply founded.created
        have route := given (.openRoute chosen internet)
        rw [same] at route
        exact route
      cases dest with
      | inet port address => exact opens mgr.sock4 rfl rfl
      | inet6 port address => exact opens mgr.sock6 rfl rfl
      | other family => exact undone
  · rw [tubeManagerOpenTube, tubeCreate, if_neg granted]
    exact founded

end Calls

section Calls

variable {library : CborLibrary} {known : Set Ground} {mgr : TubeManager}

theorem modifyTube_sustains (founded : Founded known mgr) {t : Nat} {change : Tube → Tube}
    (given : ∀ cell, mgr.tubes.cells t = some cell → .route (change cell).route ∈ known) :
    ((modifyTube t change).run mgr).Sustains Founded
      (fun later _ after => Founded later after) known := by
  cases found : mgr.tubes.cells t with
  | none => simp only [modifyTube, Proc.lift, Memory.modify, found, Exec.error_bind]; trivial
  | some cell =>
    rw [modifyTube_ok found]
    exact founded.setTube (given cell found)

theorem tubeSetInfo_sustains (founded : Founded known mgr) {t : Nat} {socket : Int}
    {peer : Option SockAddr} {id : Option SpudTubeId}
    (given : TubeCall.grants library (.request (.setInfo t socket peer id)) mgr ⊆ known) :
    ((tubeSetInfo t socket peer id).run mgr).Sustains Founded
      (fun later _ after => Founded later after) known := by
  cases peer with
  | none =>
    apply modifyTube_sustains founded
    intro cell found
    exact given (.setInfo found)
  | some peer =>
    by_cases internet : peer.isInternet = true
    · have copied : lsSockaddrCopy peer = .ok peer := if_pos internet
      rw [tubeSetInfo, Proc.run_bind_of_done (Proc.run_lift_of_ok (by simp only [copied]; rfl))]
      apply modifyTube_sustains founded
      intro cell found
      exact given (.setInfo found)
    · have refused : lsSockaddrCopy peer = .error .outOfBounds := if_neg internet
      simp only [tubeSetInfo, Proc.lift, refused]
      trivial

theorem tubeSetLocal_sustains (founded : Founded known mgr) {env : Environment} {t : Nat}
    {info : Option PktInfo}
    (given : TubeCall.grants library (.setLocal env t info) mgr ⊆ known) :
    ((tubeSetLocal env t info).run mgr).Sustains Founded
      (fun later _ after => Founded later after) known := by
  have written : ∀ cell, mgr.tubes.cells t = some cell →
      Ground.route { cell.route with source := if env.granted .pktinfo then info else none } ∈
        known := fun cell found => given (.setLocal found)
  cases info with
  | none =>
    refine Outcome.Sustains.bind (modifyTube_sustains founded ?_) fun _ _ _ _ kept => kept
    intro cell found
    have route := written cell found
    rwa [ite_self] at route
  | some info =>
    exact Outcome.Sustains.bind (modifyTube_sustains founded written) fun _ _ _ _ kept => kept

/-- Every call has grounds for what it does. -/
theorem procedure_sustains (call : TubeCall) (given : call.grants library mgr ⊆ known)
    (founded : Founded known mgr) :
    ((call.procedure library).run mgr).Sustains Founded
      (fun later _ after => Founded later after) known := by
  have ended : ∀ {Alpha : Type} {procedure : Tubing Alpha},
      (procedure.run mgr).Sustains Founded (fun later _ after => Founded later after) known →
      ((procedure >>= fun _ => pure () : Tubing Unit).run mgr).Sustains Founded
        (fun later _ after => Founded later after) known :=
    fun sustains => Outcome.Sustains.bind sustains fun _ _ _ _ kept => kept
  have kept : ∀ {Alpha : Type} {procedure : Tubing Alpha}, Grounded known procedure →
      (procedure.run mgr).Sustains Founded (fun later _ after => Founded later after) known :=
    fun grounded => grounded known mgr subset_rfl founded
  cases call with
  | setLocal env t info => exact ended (tubeSetLocal_sustains founded given)
  | send env t cmd adec pdec data => exact ended (kept (tubeSend_grounded cmd adec pdec data))
  | sendCbor env t cmd adec pdec cbor =>
    exact ended (kept (tubeSendCbor_grounded library cmd adec pdec cbor))
  | sendPdec env t cbor reflect =>
    exact ended (kept (tubeSendCbor_grounded library .spudData reflect true cbor))
  | free t => exact kept tubeDestroy_grounded
  | request asked =>
    cases asked with
    | openTube env dest => exact ended (tubeManagerOpenTube_sustains founded dest given)
    | create env =>
      apply ended
      by_cases granted : env.granted .tube = true
      · rw [tubeCreate_granted granted]
        exact founded.created (given (.create granted))
      · rw [tubeCreate, if_neg granted]
        exact founded
    | setInfo t socket peer id => exact tubeSetInfo_sustains founded given
    | setState t state => exact kept (tubeSetState_grounded state)
    | add env t =>
      apply ended
      by_cases live : mgr.tubes.Live t
      · exact kept (tubeManagerAdd_grounded (given (.add live)))
      · have missing : mgr.tubes.cells t = none := by
          by_contra present
          exact live (Option.ne_none_iff_exists'.mp present)
        have lost : ((readTube t).run mgr).Sustains Founded (fun _ _ _ => False) known := by
          simp only [readTube, Proc.lift, Memory.read_of_none missing, Exec.error_bind]
          trivial
        exact Outcome.Sustains.bind lost fun _ _ _ _ impossible => impossible.elim
    | close env t => exact ended (kept tubeClose_grounded)
    | data env t bytes => exact ended (kept (tubeData_grounded library bytes))
    | remove env t => exact kept (tubeManagerRemove_grounded (given .remove))
    | setPolicy willRespond => exact ⟨founded.tubes, founded.trace⟩
    | receive env hasErr received => exact ended (tubeManagerLoopBody_sustains founded given)
    | destroy env => exact kept tubeManagerDestroy_grounded

def tubeCalls (library : CborLibrary) : System (Nest Notice TubeManager) (NestLabel TubeCall) :=
  Nest.system (TubeCall.procedure library)

def Nest.HadGround (library : CborLibrary) (start : Nest Notice TubeManager)
    (labels : List (NestLabel TubeCall)) (ground : Ground) : Prop :=
  (tubeCalls library).Past start labels fun nest label _ =>
    ∃ call, label = .call call ∧ TubeCall.Gives library nest.state call ground

theorem run_founded {start last : Nest Notice TubeManager} {labels : List (NestLabel TubeCall)}
    (new : start.state.IsNew) (idle : start.pending = [])
    (run : (tubeCalls library).Run start labels last) :
    Founded {ground | start.HadGround library labels ground} last.state := by
  obtain ⟨buckets, granted, calloc, clock, sock4, sock6, policy, created, refused, made, same⟩ :=
    new
  obtain ⟨_, tubes, trace⟩ := tubeManagerCreate_ok refused made
  have initially : Founded ∅ start.state := by
    rw [same]
    refine ⟨?_, ?_⟩
    · intro t cell found
      rw [show created.tubes = Memory.empty from tubes] at found
      cases found
    · intro effect member
      rw [show created.trace = [] from trace] at member
      exact absurd member List.not_mem_nil
  exact Nest.run_sustains (fun _ _ _ grown founded => founded.mono grown)
    (fun call known mgr given founded => procedure_sustains call given founded) initially idle run

end Calls

/-- An `OPEN` is received, its tube is announced, and the policy is changed meanwhile. -/
def answersInside : List (NestLabel TubeCall) :=
  [.call (.request (.receive obliging true (bareHeader ⟨fun _ => 9⟩ .spudOpen))),
    .call (.request (.setPolicy false)), .ret]

section Runs

variable {library : CborLibrary} {start last : Nest Notice TubeManager}
  {labels : List (NestLabel TubeCall)}

/-- Every datagram handed to `sendmsg`, in whatever nesting of calls, takes a route that an
earlier call gave to a tube. -/
theorem run_keeps_to_routes (new : start.state.IsNew) (idle : start.pending = [])
    (run : (tubeCalls library).Run start labels last) {datagram : Datagram} {answer : Bool}
    (sent : .sent datagram answer ∈ last.state.trace) :
    ∃ route, datagram.Takes route ∧ start.HadGround library labels (.route route) := by
  obtain ⟨route, given, takes⟩ := (run_founded new idle run).trace _ sent
  exact ⟨route, takes, given⟩

theorem run_keeps_to_routes_answered : ∃ last datagram answer,
    (tubeCalls minimalCbor).Run ⟨newResponder, []⟩ answersInside last ∧
    .sent datagram answer ∈ last.state.trace ∧
    ∃ route, datagram.Takes route ∧
      Nest.HadGround minimalCbor ⟨newResponder, []⟩ answersInside (.route route) := by
  obtain ⟨last, run, datagram, answer, sent⟩ : ∃ last,
      (tubeCalls minimalCbor).Run ⟨newResponder, []⟩ answersInside last ∧
      ∃ datagram answer, Effect.sent datagram answer ∈ last.state.trace := by
    refine System.Run.exists_cons trivial rfl ?_
    refine System.Run.exists_cons trivial rfl ?_
    refine System.Run.exists_cons (List.cons_ne_nil _ _) rfl ?_
    exact ⟨_, .nil _, _, _, List.mem_cons_of_mem _ List.mem_cons_self⟩
  exact ⟨last, datagram, answer, run, sent,
    run_keeps_to_routes newResponder_isNew rfl run sent⟩

/-- Every event, in whatever nesting of calls, is triggered on the grounds of a call that was
about this tube, with the data of the datagram received. -/
theorem run_events_have_grounds (new : start.state.IsNew) (idle : start.pending = [])
    (run : (tubeCalls library).Run start labels last) {notice : Notice}
    (triggered : .triggered notice ∈ last.state.trace) :
    start.HadGround library labels (.notice notice) :=
  (run_founded new idle run).trace _ triggered

theorem run_events_have_grounds_answered : ∃ last notice,
    (tubeCalls minimalCbor).Run ⟨newResponder, []⟩ answersInside last ∧
    .triggered notice ∈ last.state.trace ∧
    Nest.HadGround minimalCbor ⟨newResponder, []⟩ answersInside (.notice notice) := by
  obtain ⟨last, run, notice, triggered⟩ : ∃ last,
      (tubeCalls minimalCbor).Run ⟨newResponder, []⟩ answersInside last ∧
      ∃ notice, Effect.triggered notice ∈ last.state.trace := by
    refine System.Run.exists_cons trivial rfl ?_
    refine System.Run.exists_cons trivial rfl ?_
    refine System.Run.exists_cons (List.cons_ne_nil _ _) rfl ?_
    exact ⟨_, .nil _, _, List.mem_cons_self⟩
  exact ⟨last, notice, run, triggered,
    run_events_have_grounds newResponder_isNew rfl run triggered⟩

end Runs

namespace Reentrant

variable {library : CborLibrary}

/-- The call that waits is the innermost one that waits. -/
def Waits (suspended : Option Suspension)
    (pending : List (TubeManager → Outcome Notice TubeManager Unit)) : Prop :=
  ∀ suspension, suspended = some suspension → ∃ rest, pending = suspension.resume :: rest

def requests (labels : List ReentrantLabel) : List TubeCall :=
  labels.filterMap fun label =>
    match label with
    | .call request => some (.request request)
    | _ => none

def nestedRequests (labels : List (NestLabel TubeCall)) : List TubeCall :=
  labels.filterMap fun label =>
    match label with
    | .call call => some call
    | .ret => none

/-- A call that goes on without waiting for the dispatcher returns from its events at once. -/
theorem proceed_nests {request : Request} {suspended : Option Suspension}
    {outcome : Outcome Notice TubeManager Unit} {machine : Machine Notice} {next : Reentrant}
    {pending : List (TubeManager → Outcome Notice TubeManager Unit)}
    (waits : Waits suspended pending)
    (returned : proceed request suspended outcome machine = .ok next) :
    ∃ nest labels later, Nest.settle pending outcome = .ok nest ∧
      (tubeCalls library).Run nest labels ⟨next.mgr, later⟩ ∧ nestedRequests labels = [] ∧
      Waits next.suspended later := by
  induction outcome generalizing machine with
  | done value mgr =>
    cases returned
    exact ⟨_, [], pending, rfl, .nil _, rfl, waits⟩
  | fault reason => cases returned
  | calling notice mgr resume inductionHypothesis =>
    obtain ⟨triggered, _, onward⟩ := Exec.bind_eq_ok.mp returned
    by_cases dispatching : triggered.control = .dispatching
    · rw [if_pos dispatching] at onward
      cases onward
      refine ⟨_, [], resume :: pending, rfl, .nil _, rfl, ?_⟩
      rintro suspension ⟨⟩
      exact ⟨pending, rfl⟩
    · rw [if_neg dispatching] at onward
      obtain ⟨nest, labels, later, settled, run, quiet, waitsLater⟩ :=
        inductionHypothesis mgr onward
      exact ⟨_, .ret :: labels, later, rfl, .cons (List.cons_ne_nil _ _) settled run, quiet,
        waitsLater⟩

theorem step_nests {state next : Reentrant} {label : ReentrantLabel}
    {pending : List (TubeManager → Outcome Notice TubeManager Unit)}
    (waits : Waits state.suspended pending) (returned : perform library state label = .ok next) :
    ∃ calls later, (tubeCalls library).Run ⟨state.mgr, pending⟩ calls ⟨next.mgr, later⟩ ∧
      nestedRequests calls = requests [label] ∧ Waits next.suspended later := by
  cases label with
  | dispatch =>
    obtain ⟨machine, _, same⟩ := Exec.bind_eq_ok.mp returned
    cases same
    exact ⟨[], pending, .nil _, rfl, waits⟩
  | ret left =>
    obtain ⟨machine, _, same⟩ := Exec.bind_eq_ok.mp returned
    cases same
    exact ⟨[], pending, .nil _, rfl, waits⟩
  | bind event cb granted =>
    obtain ⟨machine, _, same⟩ := Exec.bind_eq_ok.mp returned
    cases same
    exact ⟨[], pending, .nil _, rfl, waits⟩
  | proceed =>
    unfold perform at returned
    cases waiting : state.suspended with
    | none =>
      rw [waiting] at returned
      cases returned
      exact ⟨[], pending, .nil _, rfl, waits⟩
    | some suspension =>
      rw [waiting] at returned
      obtain ⟨rest, rfl⟩ := waits suspension waiting
      have nobody : Waits none rest := fun _ none => absurd none.symm (Option.some_ne_none _)
      obtain ⟨nest, labels, later, settled, run, quiet, waitsLater⟩ :=
        @proceed_nests library _ _ _ _ _ rest nobody returned
      exact ⟨.ret :: labels, later, .cons (List.cons_ne_nil _ _) settled run, quiet, waitsLater⟩
  | call request =>
    obtain ⟨nest, labels, later, settled, run, quiet, waitsLater⟩ :=
      @proceed_nests library _ _ _ _ _ pending waits returned
    refine ⟨.call (.request request) :: labels, later, .cons trivial settled run, ?_, waitsLater⟩
    exact congrArg (TubeCall.request request :: ·) quiet

/-- The calls of a manager with its dispatcher are calls inside calls. -/
theorem run_nests {start last : Reentrant} {labels : List ReentrantLabel}
    {pending : List (TubeManager → Outcome Notice TubeManager Unit)}
    (waits : Waits start.suspended pending) (run : (system library).Run start labels last) :
    ∃ calls later, (tubeCalls library).Run ⟨start.mgr, pending⟩ calls ⟨last.mgr, later⟩ ∧
      nestedRequests calls = requests labels := by
  induction run generalizing pending with
  | nil state => exact ⟨[], pending, .nil _, rfl⟩
  | cons _ returned _ inductionHypothesis =>
    obtain ⟨first, middle, begun, same, waitsMiddle⟩ := step_nests waits returned
    obtain ⟨rest, later, onward, sameRest⟩ := inductionHypothesis waitsMiddle
    refine ⟨first ++ rest, later, begun.append onward, ?_⟩
    rw [nestedRequests, List.filterMap_append]
    change nestedRequests first ++ nestedRequests rest = _
    rw [same, sameRest]
    exact List.filterMap_append.symm

end Reentrant

end SpudLib
