import SpudLib.Signal.SelfPipe
import SpudLib.Timer.Timeouts
import SpudLib.Tube.Manager

/-!
# The main loop

`tube_manager_loop` with the loops of `tube_manager_wait` and `pending_timers`
inside it, each of which goes on while `keep_going` does.  The callbacks of the
event loopstart, of timers, of signals and of the events of tubes are called
back: they may change anything, and stop the manager.  The system answers as the
environment decides.  The trees of the datagrams are those of `Receiver`, and
left out here.
-/

namespace SpudLib

/-- What the loop hands control to. -/
inductive LoopCall where
  | loopstart
  | timer (func arg : Nat)
  | signal (cb : Nat) (b : Int)
  | event (notice : Notice)

/-- The manager, its timers and the end of its pipe that is read, the registrations of signals,
how many times the system was asked, and the datagrams received. -/
structure LoopState where
  mgr : TubeManager
  timers : Memory LsTimer
  timerQ : GpriorityQueue Nat
  pipeR : Int
  sigContexts : List SigContext
  requests : Nat
  received : List Reception

/-- What `select` answers; `ready` says which descriptors can be read. -/
inductive Selection where
  | interrupted
  | failed
  | timeout
  | ready (reads : Int → Bool)

/-- What `recvmsg` answers. -/
inductive Receipt where
  | interrupted
  | failed
  | datagram (received : Reception)

/-- The system: `ls_pktinfo_create`, the moment of loopstart, the mutex, `select`, `read` and
`recvmsg` on a descriptor, `gettimeofday`, and the answers while a datagram is handled. -/
structure LoopEnv where
  pktinfo : LoopState → Bool
  moment : LoopState → Bool
  lock : LoopState → Bool
  unlock : LoopState → Bool
  select : Option Timeval → LoopState → Selection
  read : LoopState → Option Int
  recvmsg : Int → LoopState → Receipt
  gettimeofday : LoopState → Option Timeval
  environment : LoopState → Environment

abbrev Looping (Alpha : Type) : Type := Proc LoopCall LoopState Alpha

def LoopState.timing (state : LoopState) : TimerManager :=
  ⟨state.timers, state.timerQ, state.mgr.last, state.mgr.keepGoing, state.requests, []⟩

namespace MainLoop

variable {Alpha : Type}

def ask (answer : LoopState → Alpha) : Looping Alpha :=
  .lift fun state => pure (answer state, { state with requests := state.requests + 1 })

def onTimers (computation : TimerManager → Exec (Alpha × TimerManager)) : Looping Alpha :=
  .lift fun state => do
    let computed ← computation state.timing
    pure (computed.1, { state with timers := computed.2.timers, timerQ := computed.2.timerQ })

def onTubes (procedure : Tubing Alpha) : Looping Alpha :=
  procedure.zoom LoopState.mgr (fun mgr state => { state with mgr := mgr }) .event

/-- `while (mgr->keep_going)`: a turn may leave the loop with a value, and so does the end of
the loop. -/
def whileGoing (stopped : Alpha) (turn : Looping (Option Alpha)) : Nat → Looping Alpha
  | 0 => do
      let state ← Proc.get
      if state.mgr.keepGoing then Proc.fail .diverges else pure stopped
  | bound + 1 => do
      let state ← Proc.get
      if state.mgr.keepGoing then do
        let left ← turn
        match left with
        | some value => pure value
        | none => whileGoing stopped turn bound
      else pure stopped

/-- `*tim` for the address of a slot, and what it points to. -/
def readSlot (slot : Nat) : Looping (Nat × LsTimer) :=
  onTimers fun mgr => do
    let tim ← mgr.loadSlot slot
    let timer ← mgr.timers.read tim
    pure ((tim, timer), mgr)

/-- `ls_timer_exec(*tim)` for the address of a slot. -/
def execSlot (slot : Nat) : Looping Unit := do
  let (tim, timer) ← readSlot slot
  Proc.callBack (.timer timer.cb tim)

def pendingTurn (env : LoopEnv) : Looping (Option PendingResult) := do
  let locked ← ask env.lock
  if !locked then pure (some ⟨-1, none⟩)
  else do
    let state ← Proc.get
    match state.timerQ.gpriorityQueueTop with
    | none => do
        let unlocked ← ask env.unlock
        pure (some ⟨if unlocked then 0 else -1, none⟩)
    | some slot => do
        let (_, timer) ← readSlot slot
        if timer.lsTimerGreaterTv state.mgr.last then do
          let unlocked ← ask env.unlock
          pure (some ⟨if unlocked then 1 else -1, timer.lsTimerGetTime⟩)
        else do
          onTimers fun mgr => do
            let mgr ← mgr.popTimer
            pure ((), mgr)
          let unlocked ← ask env.unlock
          if !unlocked then pure (some ⟨-1, none⟩)
          else do
            execSlot slot
            pure none

def pendingTimers (env : LoopEnv) (bound : Nat) : Looping PendingResult :=
  whileGoing ⟨-2, none⟩ (pendingTurn env) bound

def callSignals (b : Int) : List SigContext → Looping Unit
  | [] => pure ()
  | c :: next =>
      if c.sig = b then do
        Proc.callBack (.signal c.cb b)
        callSignals b next
      else callSignals b next

/-- The end of a turn of `tube_manager_wait`: the socket that can be read. -/
def readySocket (reads : Int → Bool) : Looping (Option Int) := do
  let state ← Proc.get
  if 0 ≤ state.mgr.sock6 && reads state.mgr.sock6 then pure (some state.mgr.sock6)
  else if 0 ≤ state.mgr.sock4 && reads state.mgr.sock4 then pure (some state.mgr.sock4)
  else pure none

def waitTurn (env : LoopEnv) (bound : Nat) (pipeR : Int) : Looping (Option Int) := do
  let pending ← pendingTimers env bound
  if pending.ret < 0 then pure (some pending.ret)
  else do
    let timeout ← onTimers fun mgr => do
      let timeout ← mgr.waitTimeout pending
      pure (timeout, mgr)
    let selected ← ask (env.select timeout)
    match selected with
    | .interrupted => pure none
    | .failed => pure (some (-1))
    | .timeout => do
        let now ← ask env.gettimeofday
        match now with
        | none => pure (some (-1))
        | some now => do
            Proc.modify fun state => { state with mgr := { state.mgr with last := now } }
            pure none
    | .ready reads =>
        if reads pipeR then do
          let byte ← ask env.read
          match byte with
          | none => readySocket reads
          | some b => do
              let state ← Proc.get
              callSignals b state.sigContexts
              readySocket reads
        else readySocket reads

/-- `tube_manager_wait`: a socket, `-1` for an error, `-2` once the manager is stopped. -/
def tubeManagerWait (env : LoopEnv) (bound : Nat) : Looping Int := do
  let state ← Proc.get
  whileGoing (-2) (waitTurn env bound state.pipeR) bound

/-- A turn of `tube_manager_loop` once the time is known; `some false` is its exit at `error`. -/
def handle (env : LoopEnv) (library : CborLibrary) (hasErr : Bool) (received : Reception)
    (now : Timeval) : Looping (Option Bool) := do
  let environment ← ask env.environment
  let verdict ← onTubes
    (tubeManagerLoopBody { environment with clock := now } library hasErr received)
  pure (if verdict = .next then none else some false)

/-- A turn of `tube_manager_loop` from the datagram on. -/
def receive (env : LoopEnv) (library : CborLibrary) (hasErr : Bool) (received : Reception) :
    Looping (Option Bool) := do
  Proc.modify fun state => { state with received := state.received ++ [received] }
  if received.buf.length = 0 then Proc.fail .assertFailed
  else
    match received.stamp with
    | some stamp => handle env library hasErr received stamp
    | none => do
        let now ← ask env.gettimeofday
        match now with
        | none => pure (some false)
        | some now => handle env library hasErr received now

def loopTurn (env : LoopEnv) (library : CborLibrary) (hasErr : Bool) (bound : Nat) :
    Looping (Option Bool) := do
  let sock ← tubeManagerWait env bound
  if sock = -1 then pure (some false)
  else if sock = -2 then pure none
  else do
    let receipt ← ask (env.recvmsg sock)
    match receipt with
    | .interrupted => pure none
    | .failed => pure (some false)
    | .datagram received => receive env library hasErr { received with sock := sock }

/-- `tube_manager_loop`; each loop makes at most `bound` turns. -/
def tubeManagerLoop (env : LoopEnv) (library : CborLibrary) (hasErr : Bool) (bound : Nat) :
    Looping Bool := do
  let created ← ask env.pktinfo
  if !created then pure false
  else do
    let triggered ← ask env.moment
    if !triggered then pure false
    else do
      Proc.callBack .loopstart
      whileGoing true (loopTurn env library hasErr bound) bound

/-- `tube_manager_stop`; the answer is that of `tube_manager_interrupt`. -/
def tubeManagerStop (interrupted : Bool) (state : LoopState) : Bool × LoopState :=
  (interrupted, { state with mgr := { state.mgr with keepGoing := false } })

end MainLoop

end SpudLib
