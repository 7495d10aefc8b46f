import SpudLib.Timer.PriorityQueue
import SpudLib.Timer.Time

/-!
# Expiring timers

The timer half of `src/tube_manager.c`: scheduling, cancelling and the loop of
`pending_timers`.  The loop keeps the address of the top slot across the pop
and reads the slot again to run the callback, so the model reads it twice too.

Callbacks are arbitrary functions of the manager's state that name the calls
they make; mutexes and allocations answer as the environment decides.
-/

namespace SpudLib

inductive TimerEvent where
  | scheduled (tim : Nat) (timer : LsTimer)
  | called (func arg : Nat) (queued : List (Nat × Timeval))
  | destroyed (tim : Nat)
  deriving DecidableEq

/-- The fields of `struct _tube_manager` that timers use, the timer objects,
and how many times the environment was asked for a lock or for memory. -/
structure TimerManager where
  timers : Memory LsTimer
  timerQ : GpriorityQueue Nat
  last : Timeval
  keepGoing : Bool
  requests : Nat
  trace : List TimerEvent

inductive TimerCall where
  | schedule (tv : Timeval) (cb context : Nat)
  | scheduleMs (ms : Nat) (cb context : Nat)
  | cancel (tim : Nat)
  | stop
  deriving DecidableEq

structure TimerEnv where
  callback : (func arg : Nat) → TimerManager → List TimerCall
  lock : Nat → Bool
  unlock : Nat → Bool
  malloc : Nat → Bool

/-- The return value of `pending_timers` and what it stored in `*tv`. -/
structure PendingResult where
  ret : Int
  tv : Option Timeval
  deriving DecidableEq

namespace TimerManager

/-- `_timer_less` on two slots.  The queue holds allocated timers only, so the
last case is never reached. -/
def timerLess (timers : Memory LsTimer) : Option Nat → Option Nat → Bool
  | some a, some b =>
      match timers.cells a, timers.cells b with
      | some a, some b => a.lsTimerGreater b
      | _, _ => false
  | _, _ => false

/-- `paged_binary_heap_ctx`. -/
def heapCtx (timers : Memory LsTimer) : GheapCtx (Option Nat) where
  fanout := 2
  pageChunks := 512
  lessComparer := timerLess timers

/-- `sizeof(ls_timer*)`. -/
def itemSize : Nat := 8

def asked (mgr : TimerManager) : TimerManager := { mgr with requests := mgr.requests + 1 }

def queued (mgr : TimerManager) : List (Nat × Timeval) :=
  mgr.timerQ.items.filterMap fun slot =>
    slot.bind fun tim => (mgr.timers.cells tim).map fun timer => (tim, timer.tv)

def tubeManagerScheduleTimer (env : TimerEnv) (tim : Nat) (mgr : TimerManager) :
    Exec (Bool × TimerManager) :=
  if !env.lock mgr.requests then pure (false, mgr.asked)
  else do
    let mgr := mgr.asked
    let (pushed, queue) ←
      mgr.timerQ.gpriorityQueuePush (heapCtx mgr.timers) itemSize (env.malloc mgr.requests) tim
    let news := if pushed then (mgr.timers.cells tim).toList.map (.scheduled tim) else []
    let mgr := { mgr.asked with timerQ := queue, trace := mgr.trace ++ news }
    pure (pushed && env.unlock mgr.requests, mgr.asked)

def tubeManagerSchedule (env : TimerEnv) (tv : Timeval) (cb context : Nat) (mgr : TimerManager) :
    Exec (Bool × TimerManager) :=
  if !env.malloc mgr.requests then pure (false, mgr.asked)
  else
    let mgr := mgr.asked
    tubeManagerScheduleTimer env mgr.timers.fresh
      { mgr with timers := mgr.timers.alloc ⟨cb, context, tv⟩ }

def tubeManagerScheduleMs (env : TimerEnv) (ms cb context : Nat) (mgr : TimerManager) :
    Exec (Bool × TimerManager) :=
  tubeManagerSchedule env (LsTimer.dueTime mgr.last ms) cb context mgr

def tubeManagerCancelTimer (env : TimerEnv) (tim : Nat) (mgr : TimerManager) :
    Exec (Bool × TimerManager) := do
  let timers ← mgr.timers.modify tim LsTimer.lsTimerCancel
  let mgr := { mgr with timers := timers }
  if !env.lock mgr.requests then pure (false, mgr.asked)
  else do
    let mgr := mgr.asked
    let queue := mgr.timerQ
    let base ← (heapCtx mgr.timers).gheapMakeHeap queue.base queue.size
    let mgr := { mgr with timerQ := { queue with base := base } }
    pure (env.unlock mgr.requests, mgr.asked)

def perform (env : TimerEnv) (mgr : TimerManager) : TimerCall → Exec TimerManager
  | .schedule tv cb context => do
      let (_, mgr) ← mgr.tubeManagerSchedule env tv cb context
      pure mgr
  | .scheduleMs ms cb context => do
      let (_, mgr) ← mgr.tubeManagerScheduleMs env ms cb context
      pure mgr
  | .cancel tim => do
      let (_, mgr) ← mgr.tubeManagerCancelTimer env tim
      pure mgr
  | .stop => pure { mgr with keepGoing := false }

/-- `*tim` for the address of a slot. -/
def loadSlot (mgr : TimerManager) (slot : Nat) : Exec Nat :=
  match mgr.timerQ.base slot with
  | some tim => .ok tim
  | none => .error .outOfBounds

/-- `gpriority_queue_pop` with `_timer_del` on the removed item. -/
def popTimer (mgr : TimerManager) : Exec TimerManager := do
  let queue ← mgr.timerQ.gpriorityQueuePop (heapCtx mgr.timers) itemSize
  match queue.base queue.size with
  | none => .error .outOfBounds
  | some tim =>
      let timers ← mgr.timers.free tim
      pure { mgr with
        timers := timers
        timerQ := queue
        trace := mgr.trace ++ [.destroyed tim] }

/-- `ls_timer_exec(*tim)` for the address of a slot. -/
def execSlot (env : TimerEnv) (slot : Nat) (mgr : TimerManager) : Exec TimerManager := do
  let tim ← mgr.loadSlot slot
  let timer ← mgr.timers.read tim
  let mgr := { mgr with trace := mgr.trace ++ [.called timer.cb tim mgr.queued] }
  (env.callback timer.cb tim mgr).foldlM (perform env) mgr

/-- `pending_timers`; the bound counts the iterations of its loop. -/
def pendingTimers (env : TimerEnv) : Nat → TimerManager → Exec (PendingResult × TimerManager)
  | 0, _ => .error .diverges
  | bound + 1, mgr =>
      if !mgr.keepGoing then pure (⟨-2, none⟩, mgr)
      else if !env.lock mgr.requests then pure (⟨-1, none⟩, mgr.asked)
      else
        let mgr := mgr.asked
        match mgr.timerQ.gpriorityQueueTop with
        | none => pure (⟨if env.unlock mgr.requests then 0 else -1, none⟩, mgr.asked)
        | some slot => do
            let tim ← mgr.loadSlot slot
            let timer ← mgr.timers.read tim
            if timer.lsTimerGreaterTv mgr.last then
              pure (⟨if env.unlock mgr.requests then 1 else -1, timer.lsTimerGetTime⟩, mgr.asked)
            else do
              let mgr ← mgr.popTimer
              if !env.unlock mgr.requests then pure (⟨-1, none⟩, mgr.asked)
              else do
                let mgr ← mgr.asked.execSlot env slot
                pendingTimers env bound mgr

section Returns

variable {env : TimerEnv} {mgr after : TimerManager} {tim : Nat} {done : Bool}

theorem tubeManagerScheduleTimer_cases
    (returned : mgr.tubeManagerScheduleTimer env tim = .ok (done, after)) :
    env.lock mgr.requests = false ∧ done = false ∧ after = mgr.asked ∨
      env.lock mgr.requests = true ∧ ∃ pushed queue,
        mgr.timerQ.gpriorityQueuePush (heapCtx mgr.timers) itemSize (env.malloc (mgr.requests + 1))
          tim = .ok (pushed, queue) ∧
        done = (pushed && env.unlock (mgr.requests + 2)) ∧
        after = { mgr with
          timerQ := queue
          requests := mgr.requests + 3
          trace := mgr.trace ++
            if pushed then (mgr.timers.cells tim).toList.map (.scheduled tim) else [] } := by
  unfold tubeManagerScheduleTimer at returned
  split at returned
  next refused =>
    cases returned
    exact .inl ⟨(Bool.not_eq_true' _).mp refused, rfl, rfl⟩
  next granted =>
    obtain ⟨⟨pushed, queue⟩, push, returned⟩ := Exec.bind_eq_ok.mp returned
    cases returned
    refine .inr ⟨?_, pushed, queue, push, rfl, rfl⟩
    rwa [Bool.not_eq_true', Bool.not_eq_false] at granted

theorem tubeManagerScheduleTimer_ok {pushed : Bool} {queue : GpriorityQueue Nat}
    (lock : env.lock mgr.requests = true)
    (push : mgr.timerQ.gpriorityQueuePush (heapCtx mgr.timers) itemSize
      (env.malloc (mgr.requests + 1)) tim = .ok (pushed, queue)) :
    mgr.tubeManagerScheduleTimer env tim = .ok (pushed && env.unlock (mgr.requests + 2),
      { mgr with
        timerQ := queue
        requests := mgr.requests + 3
        trace := mgr.trace ++
          if pushed then (mgr.timers.cells tim).toList.map (.scheduled tim) else [] }) := by
  rw [tubeManagerScheduleTimer, lock, Bool.not_true, if_neg Bool.false_ne_true]
  exact Exec.bind_eq_ok.mpr ⟨(pushed, queue), push, rfl⟩

theorem tubeManagerSchedule_cases {tv : Timeval} {cb context : Nat}
    (returned : mgr.tubeManagerSchedule env tv cb context = .ok (done, after)) :
    env.malloc mgr.requests = false ∧ done = false ∧ after = mgr.asked ∨
      env.malloc mgr.requests = true ∧
        tubeManagerScheduleTimer env mgr.timers.fresh
          { mgr.asked with timers := mgr.timers.alloc ⟨cb, context, tv⟩ } = .ok (done, after) := by
  unfold tubeManagerSchedule at returned
  split at returned
  next refused =>
    cases returned
    exact .inl ⟨(Bool.not_eq_true' _).mp refused, rfl, rfl⟩
  next granted =>
    rw [Bool.not_eq_true', Bool.not_eq_false] at granted
    exact .inr ⟨granted, returned⟩

theorem tubeManagerCancelTimer_cases
    (returned : mgr.tubeManagerCancelTimer env tim = .ok (done, after)) :
    ∃ timer, mgr.timers.cells tim = some timer ∧
      (env.lock mgr.requests = false ∧ done = false ∧
        after = { mgr with
          timers := mgr.timers.set tim timer.lsTimerCancel
          requests := mgr.requests + 1 } ∨
      env.lock mgr.requests = true ∧ done = env.unlock (mgr.requests + 1) ∧ ∃ base,
        (heapCtx (mgr.timers.set tim timer.lsTimerCancel)).gheapMakeHeap mgr.timerQ.base
          mgr.timerQ.size = .ok base ∧
        after = { mgr with
          timers := mgr.timers.set tim timer.lsTimerCancel
          timerQ := { mgr.timerQ with base := base }
          requests := mgr.requests + 2 }) := by
  obtain ⟨timers, modified, returned⟩ := Exec.bind_eq_ok.mp returned
  cases found : mgr.timers.cells tim with
  | none =>
    rw [Memory.modify, found] at modified
    cases modified
  | some timer =>
    rw [Memory.modify_of_some found] at modified
    obtain rfl := Except.ok.inj modified
    refine ⟨timer, rfl, ?_⟩
    dsimp only at returned
    split at returned
    next refused =>
      cases returned
      exact .inl ⟨(Bool.not_eq_true' _).mp refused, rfl, rfl⟩
    next granted =>
      obtain ⟨base, made, returned⟩ := Exec.bind_eq_ok.mp returned
      cases returned
      rw [Bool.not_eq_true', Bool.not_eq_false] at granted
      exact .inr ⟨granted, rfl, base, made, rfl⟩

theorem popTimer_eq_ok : mgr.popTimer = .ok after ↔
    ∃ queue tim timers,
      mgr.timerQ.gpriorityQueuePop (heapCtx mgr.timers) itemSize = .ok queue ∧
      queue.base queue.size = some tim ∧ mgr.timers.free tim = .ok timers ∧
      after = { mgr with
        timers := timers
        timerQ := queue
        trace := mgr.trace ++ [.destroyed tim] } := by
  unfold popTimer
  rw [Exec.bind_eq_ok]
  constructor
  · rintro ⟨queue, popped, returned⟩
    split at returned
    · cases returned
    · next tim slot =>
      obtain ⟨timers, freed, returned⟩ := Exec.bind_eq_ok.mp returned
      cases returned
      exact ⟨queue, tim, timers, popped, slot, freed, rfl⟩
  · rintro ⟨queue, tim, timers, popped, slot, freed, rfl⟩
    refine ⟨queue, popped, ?_⟩
    simp only [slot, freed, Exec.ok_bind, Exec.pure_eq_ok]

end Returns

inductive Turned (env : TimerEnv) (bound : Nat) (mgr : TimerManager) :
    PendingResult × TimerManager → Prop
  | stopped (stopped : mgr.keepGoing = false) : Turned env bound mgr (⟨-2, none⟩, mgr)
  | refused (refused : env.lock mgr.requests = false) :
      Turned env bound mgr (⟨-1, none⟩, mgr.asked)
  | empty (empty : mgr.timerQ.size = 0) :
      Turned env bound mgr
        (⟨if env.unlock mgr.asked.requests then 0 else -1, none⟩, mgr.asked.asked)
  | waits {first : Nat} {timer : LsTimer} (nonempty : mgr.timerQ.size ≠ 0)
      (load : mgr.loadSlot 0 = .ok first) (read : mgr.timers.read first = .ok timer)
      (later : timer.tv.After mgr.last) :
      Turned env bound mgr
        (⟨if env.unlock mgr.asked.requests then 1 else -1, timer.lsTimerGetTime⟩, mgr.asked.asked)
  | popped {popped : TimerManager} (nonempty : mgr.timerQ.size ≠ 0)
      (pop : mgr.asked.popTimer = .ok popped) :
      Turned env bound mgr (⟨-1, none⟩, popped.asked)
  | fired {popped executed : TimerManager} {outcome : PendingResult × TimerManager}
      (nonempty : mgr.timerQ.size ≠ 0) (pop : mgr.asked.popTimer = .ok popped)
      (exec : popped.asked.execSlot env 0 = .ok executed)
      (rest : executed.pendingTimers env bound = .ok outcome) : Turned env bound mgr outcome

theorem pendingTimers_turned {env : TimerEnv} {bound : Nat} {mgr : TimerManager}
    {outcome : PendingResult × TimerManager}
    (returned : mgr.pendingTimers env (bound + 1) = .ok outcome) :
    Turned env bound mgr outcome := by
  unfold pendingTimers at returned
  split at returned
  next stopped =>
    cases returned
    exact .stopped ((Bool.not_eq_true' _).mp stopped)
  split at returned
  next refused =>
    cases returned
    exact .refused ((Bool.not_eq_true' _).mp refused)
  dsimp only at returned
  by_cases empty : mgr.timerQ.size = 0
  · rw [show mgr.asked.timerQ.gpriorityQueueTop = none from if_pos empty] at returned
    cases returned
    exact .empty empty
  rw [show mgr.asked.timerQ.gpriorityQueueTop = some 0 from if_neg empty] at returned
  obtain ⟨first, load, returned⟩ := Exec.bind_eq_ok.mp returned
  obtain ⟨timer, read, returned⟩ := Exec.bind_eq_ok.mp returned
  split at returned
  next later =>
    cases returned
    exact .waits empty load read ((timer.lsTimerGreaterTv_iff _).mp later)
  obtain ⟨popped, pop, returned⟩ := Exec.bind_eq_ok.mp returned
  split at returned
  · cases returned
    exact .popped empty pop
  · obtain ⟨executed, exec, rest⟩ := Exec.bind_eq_ok.mp returned
    exact .fired empty pop exec rest

end TimerManager

end SpudLib
