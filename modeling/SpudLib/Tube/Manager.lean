import SpudLib.Tube.Tube

/-!
# The tube manager

The functions of `src/tube_manager.c` that work on tubes, and the body of the
receive loop.  A table key points into the tube it belongs to, so the keys that
a search compares are read from the tubes' memory.
-/

namespace SpudLib

/-- `hash_id` and `compare_id` on what a key points to. -/
def hashKey (key : TubeKey) : UInt32 := hashId key.id

def compareKey (key1 key2 : TubeKey) : Int := compareId key1.id key2.id

def tpWillRespond : UInt32 := 2

def defaultHashSize : Int := 65521

/-- The address of `clean_tube`, the cleaner of every node. -/
def cleanTubeAddress : Nat := 0

/-- The nodes of a chain whose keys `_find_node` compares with the key it searches. -/
def comparedNodes (tbl : HTable TubeKey Nat) (key : TubeKey) :
    List (HNode TubeKey Nat) → List (HNode TubeKey Nat)
  | [] => []
  | p :: chain =>
      if tbl.hash key ≠ p.khash then comparedNodes tbl key chain
      else if tbl.cmp key p.key = 0 then [p]
      else p :: comparedNodes tbl key chain

/-- Read the keys of nodes from the tubes they point into. -/
def derefKeys (tubes : Memory Tube) : List (HNode TubeKey Nat) → Exec Unit
  | [] => pure ()
  | p :: nodes =>
      match p.key.owner with
      | none => derefKeys tubes nodes
      | some t => do
          let _ ← tubes.read t
          derefKeys tubes nodes

def readKeys (key : TubeKey) : Tubing Unit :=
  Proc.lift fun mgr => do
    let chain := mgr.table.buckets (mgr.table.bucketFromKhash (mgr.table.hash key))
    derefKeys mgr.tubes (comparedNodes mgr.table key chain)
    pure ((), mgr)

/-- `ls_event_trigger` on one of the manager's events. -/
def lsEventTrigger (env : Environment) (notice : Notice) : Tubing Bool :=
  if env.granted (.moment notice.event) then do
    record (.triggered notice)
    Proc.callBack notice
    pure true
  else pure false

def cleanTube (env : Environment) (data : Option Nat) : Tubing Unit :=
  match data with
  | none => Proc.fail .assertFailed
  | some t => do
      let cell ← readTube t
      let _ ← if cell.state = .running then tubeClose env t else pure true
      tubeDestroy t

/-- The calls of `clean_tube` that a table function makes. -/
def runCleaners (env : Environment) : List (CleanerCall TubeKey Nat) → Tubing Unit
  | [] => pure ()
  | call :: calls => do
      cleanTube env call.value
      runCleaners env calls

def tubeManagerAdd (env : Environment) (t : Nat) : Tubing Bool := do
  let cell ← readTube t
  let key : TubeKey := ⟨some t, cell.id⟩
  readKeys key
  let put ← Proc.lift fun mgr => do
    let (answer, calls, table) ←
      mgr.table.lsHtablePut key (some t) (some cleanTubeAddress) env.calloc (env.granted .node)
    pure ((answer, calls), { mgr with table := table })
  runCleaners env put.2
  if put.1 then lsEventTrigger env (.add t) else pure false

/-- The end of `tube_manager_remove`, where the tube leaves the table. -/
def unregister (env : Environment) (t : Nat) : Tubing Unit := do
  let cell ← readTube t
  let key : TubeKey := ⟨some t, cell.id⟩
  readKeys key
  let calls ← Proc.lift fun mgr => do
    let (calls, table) ← mgr.table.lsHtableRemove key
    pure (calls, { mgr with table := table })
  runCleaners env calls

/-- `tube_manager_remove`; a failure to trigger the event is only logged. -/
def tubeManagerRemove (env : Environment) (t : Nat) : Tubing Unit := do
  let _ ← lsEventTrigger env (.remove t)
  unregister env t

def TubeManager.tubeManagerIsResponder (mgr : TubeManager) : Bool :=
  mgr.policy &&& tpWillRespond == tpWillRespond

def tubeManagerSetPolicyResponder (willRespond : Bool) : Tubing Unit :=
  Proc.modify fun mgr =>
    { mgr with
      policy := if willRespond then mgr.policy ||| tpWillRespond
        else mgr.policy &&& ~~~tpWillRespond }

/-- The end of `tube_manager_open_tube`, from the new state on. -/
def openTubeWith (env : Environment) (t : Nat) : Tubing (Option Nat) := do
  tubeSetState t .opening
  let added ← tubeManagerAdd env t
  if added then do
    let sent ← tubeSend env t .spudOpen false false []
    if sent then pure (some t)
    else do
      tubeManagerRemove env t
      tubeDestroy t
      pure none
  else do
    tubeDestroy t
    pure none

def tubeManagerOpenTube (env : Environment) (dest : SockAddr) : Tubing (Option Nat) := do
  let created ← tubeCreate env
  match created with
  | none => pure none
  | some t =>
      match env.randomId with
      | none => do
          tubeDestroy t
          pure none
      | some id => do
          let mgr ← Proc.get
          match dest with
          | .inet .. => do
              tubeSetInfo t mgr.sock4 (some dest) (some id)
              openTubeWith env t
          | .inet6 .. => do
              tubeSetInfo t mgr.sock6 (some dest) (some id)
              openTubeWith env t
          | .other _ => do
              tubeDestroy t
              pure none

/-- What `recvmsg` delivers: a datagram of any length from an internet address,
with the control messages that are there. -/
structure Reception where
  sock : Int
  bytes : List UInt8
  source : SockAddr
  internet : source.isInternet = true
  info : PktInfo
  stamp : Option Timeval

/-- The bytes that fit the buffer; `recvmsg` discards the rest. -/
def Reception.buf (received : Reception) : List UInt8 := received.bytes.take maxBufLen

/-- How the body of the loop ends: with the next iteration, or at `error`. -/
inductive Verdict where
  | next
  | failed
  deriving DecidableEq

/-- The `get started` part of the loop: a tube for an `OPEN`, or how the body ends. -/
def getStarted (env : Environment) (received : Reception) (uid : SpudTubeId) :
    Tubing (Except Verdict Nat) := do
  let created ← tubeCreate env
  match created with
  | none => pure (.error .failed)
  | some t => do
      tubeSetInfo t received.sock (some received.source) (some uid)
      let copied ← tubeSetLocal env t (some received.info)
      if copied then do
        let added ← tubeManagerAdd env t
        if added then do
          tubeSetState t .running
          let sent ← tubeSend env t .spudAck false false []
          if sent then pure (.ok t) else pure (.error .next)
        else pure (.error .failed)
      else pure (.error .failed)

/-- The switch of the loop. -/
def obey (env : Environment) (d : TubeEventData) (cmd : SpudCommand) : Tubing Verdict := do
  let cell ← readTube d.t
  match cmd with
  | .spudData =>
      if cell.state = .running then do
        let triggered ← lsEventTrigger env (.data d)
        pure (if triggered then .next else .failed)
      else pure .next
  | .spudClose =>
      if cell.state ≠ .unknown then do
        tubeSetState d.t .unknown
        let triggered ← lsEventTrigger env (.close d)
        if triggered then do
          tubeManagerRemove env d.t
          pure .next
        else pure .failed
      else pure .next
  | .spudOpen => pure .next
  | .spudAck =>
      if cell.state = .opening then do
        tubeSetState d.t .running
        let triggered ← lsEventTrigger env (.running d)
        pure (if triggered then .next else .failed)
      else pure .next

/-- The loop once a message has been parsed. -/
def handleMessage (env : Environment) (received : Reception) (msg : SpudMessage) :
    Tubing Verdict := do
  let uid := msg.header.tubeId
  let cmd := SpudCommand.ofFlags msg.header.flags
  readKeys ⟨none, uid⟩
  let found ← Proc.lift fun mgr => do
    let found ← mgr.table.lsHtableGet ⟨none, uid⟩
    pure (found, mgr)
  match found with
  | some t => obey env ⟨t, msg.cbor, received.source⟩ cmd
  | none => do
      let mgr ← Proc.get
      if !mgr.tubeManagerIsResponder || cmd ≠ .spudOpen then pure .next
      else do
        let started ← getStarted env received uid
        match started with
        | .error verdict => pure verdict
        | .ok t => obey env ⟨t, msg.cbor, received.source⟩ cmd

/-- The body of the loop in `tube_manager_loop`, from `recvmsg` on; `hasErr` says
whether `err` points to something. -/
def tubeManagerLoopBody (env : Environment) (library : CborLibrary) (hasErr : Bool)
    (received : Reception) : Tubing Verdict :=
  if received.buf.length = 0 then Proc.fail .assertFailed
  else do
    Proc.modify fun mgr => { mgr with last := received.stamp.getD env.clock }
    match spudParse library received.buf with
    | .error _ => if hasErr then pure .next else Proc.fail .nullDereference
    | .ok msg => handleMessage env received msg

/-- `tube_manager_create`, as far as tubes are concerned. -/
def tubeManagerCreate (buckets : Int) (granted : Bool) (calloc : Nat → Bool) (clock : Timeval) :
    Option TubeManager :=
  let buckets := if buckets ≤ 0 then defaultHashSize else buckets
  match HTable.lsHtableCreate buckets hashKey compareKey granted calloc with
  | none => none
  | some table => some ⟨table, Memory.empty, -1, -1, 0, clock, true, []⟩

/-- `tube_manager_destroy`, as far as tubes are concerned. -/
def tubeManagerDestroy (env : Environment) : Tubing Unit := do
  Proc.modify fun mgr => { mgr with keepGoing := false }
  let mgr ← Proc.get
  runCleaners env mgr.table.lsHtableDestroy

end SpudLib
