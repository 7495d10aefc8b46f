import SpudLib.Timer.PendingTimers

/-!
# Which timers fire

`FiresDueTimers` says what one call of `pending_timers` is for: every due timer
runs once, earliest first, before it is destroyed, and no other timer runs.
The loop pops and destroys a due timer before it reads the top slot again, so
the first due timer is always destroyed before its callback was called.  The
call is therefore right exactly when no queued timer is due.
-/

namespace SpudLib.TimerManager

/-- The queue holds allocated timers only, in heap order. -/
structure QueueOk (mgr : TimerManager) : Prop where
  allocated : ∀ u < mgr.timerQ.size, ∃ tim timer,
    mgr.timerQ.base u = some tim ∧ mgr.timers.cells tim = some timer
  heap : (heapCtx mgr.timers).GheapIsHeap mgr.timerQ.base mgr.timerQ.size

def Queued (mgr : TimerManager) (tim : Nat) (timer : LsTimer) : Prop :=
  some tim ∈ mgr.timerQ.items ∧ mgr.timers.cells tim = some timer

/-- `timer` is due: its time is not later than `mgr->last`. -/
def Due (mgr : TimerManager) (timer : LsTimer) : Prop := ¬ timer.tv.After mgr.last

instance (mgr : TimerManager) (timer : LsTimer) : Decidable (mgr.Due timer) :=
  inferInstanceAs (Decidable (¬ _))

def calledTimer : TimerEvent → Option Nat
  | .called _ arg _ => some arg
  | _ => none

/-- What the events of one call must say, given the manager before it. -/
structure FiringOk (before : TimerManager) (news : List TimerEvent) : Prop where
  dueOnce : ∀ tim timer, before.Queued tim timer ∨ .scheduled tim timer ∈ news →
    before.Due timer → (news.filterMap calledTimer).count tim = 1
  neverEarly : ∀ tim timer, before.Queued tim timer ∨ .scheduled tim timer ∈ news →
    ¬ before.Due timer → (news.filterMap calledTimer).count tim = 0
  earliestFirst : ∀ func arg queued, .called func arg queued ∈ news →
    ∃ timer, (before.Queued arg timer ∨ .scheduled arg timer ∈ news) ∧ func = timer.cb ∧
      ∀ other ∈ queued, ¬ timer.tv.After other.2
  calledBeforeDestroyed : ∀ past tim rest, news = past ++ .destroyed tim :: rest →
    ∃ func queued, .called func tim queued ∈ past

/-- The call returns and its events are as they must be. -/
def FiresDueTimers (before : TimerManager) (outcome : Exec (PendingResult × TimerManager)) : Prop :=
  ∃ result after news, outcome = .ok (result, after) ∧
    after.trace = before.trace ++ news ∧ FiringOk before news

section HeapOrder

variable (timers : Memory LsTimer)

theorem parentIndex_lt (u : Nat) (positive : 0 < u) :
    (heapCtx timers).gheapGetParentIndex u < u := by
  have fanout : (heapCtx timers).fanout = 2 := rfl
  have pageChunks : (heapCtx timers).pageChunks = 512 := rfl
  simp only [GheapCtx.gheapGetParentIndex, fanout, pageChunks]
  split_ifs <;> omega

theorem timerLess_iff {a b : Nat} {first second : LsTimer}
    (foundFirst : timers.cells a = some first) (foundSecond : timers.cells b = some second) :
    timerLess timers (some a) (some b) = false ↔ ¬ first.tv.After second.tv := by
  simp only [timerLess, foundFirst, foundSecond]
  rw [← LsTimer.lsTimerGreater_iff, Bool.not_eq_true]

end HeapOrder

def HoldsTimer (timers : Memory LsTimer) (slot : Option Nat) : Prop :=
  ∃ tim timer, slot = some tim ∧ timers.cells tim = some timer

/-- The top slot of a valid queue holds a timer no later than any queued one. -/
theorem QueueOk.top_earliest {mgr : TimerManager} (ok : mgr.QueueOk) {u : Nat}
    (inside : u < mgr.timerQ.size) {top timer : LsTimer} {first tim : Nat}
    (slotTop : mgr.timerQ.base 0 = some first) (foundTop : mgr.timers.cells first = some top)
    (slot : mgr.timerQ.base u = some tim) (found : mgr.timers.cells tim = some timer) :
    ¬ top.tv.After timer.tv := by
  apply (timerLess_iff mgr.timers foundTop found).mp
  rw [← slotTop, ← slot]
  refine ok.heap.root_greatest (parentIndex_lt mgr.timers) (HoldsTimer mgr.timers)
    ok.allocated ?_ ?_ inside
  · rintro _ ⟨a, first, rfl, foundFirst⟩
    exact (timerLess_iff mgr.timers foundFirst foundFirst).mpr (Timeval.After.irrefl _)
  · rintro _ _ _ ⟨a, first, rfl, foundA⟩ ⟨b, second, rfl, foundB⟩ ⟨c, third, rfl, foundC⟩ ab bc
    exact (timerLess_iff mgr.timers foundA foundC).mpr
      (Timeval.not_after_trans ((timerLess_iff mgr.timers foundA foundB).mp ab)
        ((timerLess_iff mgr.timers foundB foundC).mp bc))

theorem Queued.slot {mgr : TimerManager} {tim : Nat} {timer : LsTimer}
    (queued : mgr.Queued tim timer) : ∃ u < mgr.timerQ.size, mgr.timerQ.base u = some tim := by
  obtain ⟨u, inside, slot⟩ := List.mem_map.mp queued.1
  exact ⟨u, List.mem_range.mp inside, slot⟩

section Traces

variable (env : TimerEnv)

@[simp] theorem asked_trace (mgr : TimerManager) : mgr.asked.trace = mgr.trace := rfl

theorem tubeManagerScheduleTimer_trace {tim : Nat} {mgr after : TimerManager} {done : Bool}
    (scheduled : mgr.tubeManagerScheduleTimer env tim = .ok (done, after)) :
    mgr.trace <+: after.trace := by
  obtain ⟨_, _, rfl⟩ | ⟨_, pushed, queue, _, _, rfl⟩ := tubeManagerScheduleTimer_cases scheduled
  · exact List.prefix_refl _
  · exact List.prefix_append _ _

theorem tubeManagerSchedule_trace {tv : Timeval} {cb context : Nat} {mgr after : TimerManager}
    {done : Bool} (scheduled : mgr.tubeManagerSchedule env tv cb context = .ok (done, after)) :
    mgr.trace <+: after.trace := by
  obtain ⟨_, _, rfl⟩ | ⟨_, scheduled⟩ := tubeManagerSchedule_cases scheduled
  · exact List.prefix_refl _
  · have grows := tubeManagerScheduleTimer_trace env scheduled
    exact grows

theorem tubeManagerCancelTimer_trace {tim : Nat} {mgr after : TimerManager} {done : Bool}
    (cancelled : mgr.tubeManagerCancelTimer env tim = .ok (done, after)) :
    after.trace = mgr.trace := by
  obtain ⟨_, _, ⟨_, _, rfl⟩ | ⟨_, _, _, _, rfl⟩⟩ := tubeManagerCancelTimer_cases cancelled
  · rfl
  · rfl

theorem perform_trace {mgr after : TimerManager} {call : TimerCall}
    (performed : mgr.perform env call = .ok after) : mgr.trace <+: after.trace := by
  cases call with
  | schedule tv cb context =>
    obtain ⟨⟨done, later⟩, scheduled, performed⟩ := Exec.bind_eq_ok.mp performed
    cases performed
    exact tubeManagerSchedule_trace env scheduled
  | scheduleMs ms cb context =>
    obtain ⟨⟨done, later⟩, scheduled, performed⟩ := Exec.bind_eq_ok.mp performed
    cases performed
    exact tubeManagerSchedule_trace env scheduled
  | cancel tim =>
    obtain ⟨⟨done, later⟩, cancelled, performed⟩ := Exec.bind_eq_ok.mp performed
    cases performed
    exact (tubeManagerCancelTimer_trace env cancelled).symm ▸ List.prefix_refl _
  | stop =>
    cases performed
    exact List.prefix_refl _

theorem performAll_trace {calls : List TimerCall} {mgr after : TimerManager}
    (performed : calls.foldlM (perform env) mgr = .ok after) : mgr.trace <+: after.trace := by
  induction calls generalizing mgr with
  | nil =>
    cases performed
    exact List.prefix_refl _
  | cons call calls inductionHypothesis =>
    rw [List.foldlM_cons, Exec.bind_eq_ok] at performed
    obtain ⟨middle, first, rest⟩ := performed
    exact (perform_trace env first).trans (inductionHypothesis rest)

theorem execSlot_trace {slot : Nat} {mgr after : TimerManager}
    (executed : mgr.execSlot env slot = .ok after) : mgr.trace <+: after.trace := by
  simp only [execSlot, Exec.bind_eq_ok] at executed
  obtain ⟨tim, _, timer, _, performed⟩ := executed
  exact (List.prefix_append _ _).trans (performAll_trace env performed)

/-- The first event of a pop is the destruction of the popped timer. -/
theorem popTimer_trace {mgr after : TimerManager} (popped : mgr.popTimer = .ok after) :
    ∃ tim, after.trace = mgr.trace ++ [.destroyed tim] := by
  obtain ⟨queue, tim, timers, _, _, _, rfl⟩ := popTimer_eq_ok.mp popped
  exact ⟨tim, rfl⟩

theorem pendingTimers_trace {bound : Nat} {mgr after : TimerManager} {result : PendingResult}
    (returned : mgr.pendingTimers env bound = .ok (result, after)) :
    mgr.trace <+: after.trace := by
  induction bound generalizing mgr with
  | zero => cases returned
  | succ bound inductionHypothesis =>
    cases pendingTimers_turned returned with
    | stopped => exact List.prefix_refl _
    | refused => exact List.prefix_refl _
    | empty => exact List.prefix_refl _
    | waits => exact List.prefix_refl _
    | popped _ pop =>
      obtain ⟨dead, popTrace⟩ := popTimer_trace pop
      exact popTrace ▸ List.prefix_append _ _
    | fired _ pop exec rest =>
      obtain ⟨dead, popTrace⟩ := popTimer_trace pop
      have grows : mgr.trace <+: _ := popTrace ▸ List.prefix_append _ _
      exact grows.trans ((execSlot_trace env exec).trans (inductionHypothesis rest))

/-- A call that finds a due timer on top destroys a timer before it does
anything an observer can see. -/
theorem pendingTimers_due_trace {bound : Nat} {mgr after : TimerManager} {result : PendingResult}
    (going : mgr.keepGoing = true) (locks : ∀ n, env.lock n = true)
    (nonempty : mgr.timerQ.size ≠ 0) {tim : Nat} {timer : LsTimer}
    (slot : mgr.timerQ.base 0 = some tim) (found : mgr.timers.cells tim = some timer)
    (due : mgr.Due timer) (returned : mgr.pendingTimers env bound = .ok (result, after)) :
    ∃ dead rest, after.trace = mgr.trace ++ .destroyed dead :: rest := by
  cases bound with
  | zero => cases returned
  | succ bound =>
    have destroys : ∀ {popped : TimerManager}, mgr.asked.popTimer = .ok popped →
        popped.trace <+: after.trace →
        ∃ dead rest, after.trace = mgr.trace ++ .destroyed dead :: rest := by
      intro popped pop grows
      obtain ⟨dead, popTrace⟩ := popTimer_trace pop
      obtain ⟨rest, appended⟩ := grows
      exact ⟨dead, rest, by rw [← appended, popTrace, List.append_assoc]; rfl⟩
    cases pendingTimers_turned returned with
    | stopped stopped => cases stopped.symm.trans going
    | refused refused => cases refused.symm.trans (locks _)
    | empty empty => exact absurd empty nonempty
    | waits _ load read later =>
      have loaded : mgr.loadSlot 0 = .ok tim := by simp only [loadSlot, slot]
      cases loaded.symm.trans load
      cases (Memory.read_of_some found).symm.trans read
      exact absurd later due
    | popped _ pop => exact destroys pop (List.prefix_refl _)
    | fired _ pop exec rest =>
      exact destroys pop ((execSlot_trace env exec).trans (pendingTimers_trace env rest))

theorem pendingTimers_idle {bound : Nat} {mgr : TimerManager} (ok : mgr.QueueOk)
    (going : mgr.keepGoing = true) (locks : ∀ n, env.lock n = true)
    (noneDue : ∀ tim timer, mgr.Queued tim timer → ¬ mgr.Due timer) :
    ∃ result after, mgr.pendingTimers env (bound + 1) = .ok (result, after) ∧
      after.trace = mgr.trace := by
  unfold pendingTimers
  by_cases empty : mgr.timerQ.size = 0
  · simp [going, locks, GpriorityQueue.gpriorityQueueTop, asked, empty]
  · obtain ⟨tim, timer, slot, found⟩ := ok.allocated 0 (Nat.pos_of_ne_zero empty)
    have queued : mgr.Queued tim timer :=
      ⟨List.mem_map.mpr ⟨0, List.mem_range.mpr (Nat.pos_of_ne_zero empty), slot⟩, found⟩
    have later : timer.tv.After mgr.last := not_not.mp (noneDue tim timer queued)
    simp [going, locks, GpriorityQueue.gpriorityQueueTop, asked, empty, loadSlot, slot,
      Memory.read_of_some found, later]

end Traces

/-- No queued timer is due: the condition under which nothing has to fire. -/
def NoneDue (mgr : TimerManager) : Prop := ∀ tim timer, mgr.Queued tim timer → ¬ mgr.Due timer

/-- A call that ends, by returning or by a fault, fires the timers it must
exactly when it has none to fire. -/
theorem firesDueTimers_iff_noneDue (env : TimerEnv) (bound : Nat) (mgr : TimerManager)
    (ok : mgr.QueueOk) (going : mgr.keepGoing = true) (locks : ∀ n, env.lock n = true)
    (ends : mgr.pendingTimers env bound ≠ .error .diverges) :
    mgr.FiresDueTimers (mgr.pendingTimers env bound) ↔ mgr.NoneDue := by
  constructor
  · rintro ⟨result, after, news, returned, trace, firing⟩ tim timer queued due
    obtain ⟨u, inside, slot⟩ := queued.slot
    obtain ⟨first, top, slotTop, foundTop⟩ := ok.allocated 0 (Nat.zero_lt_of_lt inside)
    have topDue : mgr.Due top := fun after =>
      due (by
        by_contra notAfter
        exact Timeval.not_after_trans
          (ok.top_earliest inside slotTop foundTop slot queued.2) notAfter after)
    obtain ⟨dead, rest, destroyedFirst⟩ := pendingTimers_due_trace env going locks
      (Nat.ne_of_gt (Nat.zero_lt_of_lt inside)) slotTop foundTop topDue returned
    have split : news = [] ++ .destroyed dead :: rest :=
      List.append_cancel_left (trace.symm.trans destroyedFirst)
    obtain ⟨func, queued, called⟩ := firing.calledBeforeDestroyed [] dead rest split
    cases called
  · intro noneDue
    obtain ⟨fewer, rfl⟩ : ∃ fewer, bound = fewer + 1 :=
      Nat.exists_eq_succ_of_ne_zero fun none => ends (none ▸ rfl)
    obtain ⟨result, after, returned, trace⟩ := pendingTimers_idle env ok going locks noneDue
    refine ⟨result, after, [], returned, by rw [trace, List.append_nil], ?_⟩
    constructor
    · rintro tim timer (queued | scheduled) due
      · exact absurd due (noneDue tim timer queued)
      · cases scheduled
    · intro tim timer _ _
      rfl
    · intro func arg queued called
      cases called
    · intro past tim rest split
      simp at split

/-- Timer 0 was due at 1 s and timer 1 is due at 9 s; it is 5 s now. -/
def dueAndWaiting : TimerManager where
  timers := (Memory.empty.alloc ⟨100, 0, ⟨1, 0⟩⟩).alloc ⟨101, 0, ⟨9, 0⟩⟩
  timerQ := ⟨fun u => if u = 0 then some 0 else if u = 1 then some 1 else none, 2, 2, 16⟩
  last := ⟨5, 0⟩
  keepGoing := true
  requests := 0
  trace := []

def quietEnv : TimerEnv := ⟨fun _ _ _ => [], fun _ => true, fun _ => true, fun _ => true⟩

theorem dueAndWaiting_queueOk : dueAndWaiting.QueueOk where
  allocated u inside := by
    have : u = 0 ∨ u = 1 := by change u < 2 at inside; omega
    rcases this with rfl | rfl
    · exact ⟨0, _, rfl, rfl⟩
    · exact ⟨1, _, rfl, rfl⟩
  heap u positive inside := by
    have : u = 1 := by change u < 2 at inside; omega
    subst this
    decide

theorem firesDueTimers_iff_noneDue_dueAndWaiting :
    dueAndWaiting.FiresDueTimers (dueAndWaiting.pendingTimers quietEnv 3) ↔
      dueAndWaiting.NoneDue :=
  firesDueTimers_iff_noneDue quietEnv 3 dueAndWaiting dueAndWaiting_queueOk rfl (fun _ => rfl)
    (by intro diverges; cases diverges)

/-- The due timer is destroyed unfired and the waiting one fires four seconds early. -/
theorem dueAndWaiting_misfires :
    dueAndWaiting.QueueOk ∧
      (∃ after, dueAndWaiting.pendingTimers quietEnv 3 = .ok (⟨1, some ⟨9, 0⟩⟩, after) ∧
        after.trace = [.destroyed 0, .called 101 1 [(1, ⟨9, 0⟩)]]) ∧
      ¬ dueAndWaiting.FiresDueTimers (dueAndWaiting.pendingTimers quietEnv 3) := by
  refine ⟨dueAndWaiting_queueOk, ⟨_, rfl, by decide⟩, ?_⟩
  rintro ⟨result, after, news, returned, trace, firing⟩
  obtain ⟨dead, rest, destroyedFirst⟩ := pendingTimers_due_trace quietEnv rfl (fun _ => rfl)
    (by decide) rfl rfl (by decide) returned
  have split : news = [] ++ .destroyed dead :: rest :=
    List.append_cancel_left (trace.symm.trans destroyedFirst)
  obtain ⟨func, queued, called⟩ := firing.calledBeforeDestroyed [] dead rest split
  cases called

end SpudLib.TimerManager
