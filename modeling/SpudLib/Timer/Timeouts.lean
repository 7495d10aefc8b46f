import SpudLib.Timer.Queueing

/-!
# Due times and timeouts

The instants of `struct timeval` as counts of microseconds, and what the loop
of `tube_manager_wait` computes with them.  A queue of timers with normalized
times stays one whatever the callbacks schedule and cancel, so that the time
that `pending_timers` reports lies after `mgr->last` and the difference is a
timeout that `select` accepts.
-/

namespace SpudLib

namespace Timeval

/-- An instant not before the epoch, with less than a second of microseconds. -/
structure Normalized (tv : Timeval) : Prop where
  sec : 0 ≤ tv.tvSec
  usec : 0 ≤ tv.tvUsec
  usecLt : tv.tvUsec < 1000000

def micros (tv : Timeval) : Int := tv.tvSec * 1000000 + tv.tvUsec

/-- No sum that `timeradd` forms leaves the range of a signed 64-bit integer. -/
def AddsWithin (a b : Timeval) : Prop :=
  -2 ^ 63 ≤ a.tvSec + b.tvSec ∧ a.tvSec + b.tvSec + 1 < 2 ^ 63 ∧
    -2 ^ 63 ≤ a.tvUsec + b.tvUsec ∧ a.tvUsec + b.tvUsec < 2 ^ 63

variable {a b : Timeval}

theorem epoch_normalized : epoch.Normalized := ⟨by decide, by decide, by decide⟩

theorem Normalized.after_iff (first : a.Normalized) (second : b.Normalized) :
    a.After b ↔ b.micros < a.micros := by
  obtain ⟨_, usecA, usecLtA⟩ := first
  obtain ⟨_, usecB, usecLtB⟩ := second
  rw [Timeval.after_iff]
  unfold micros
  omega

theorem timeradd_micros (a b : Timeval) : (a.timeradd b).micros = a.micros + b.micros := by
  unfold timeradd micros
  dsimp only
  split <;> dsimp only <;> omega

theorem timersub_micros (a b : Timeval) : (a.timersub b).micros = a.micros - b.micros := by
  unfold timersub micros
  dsimp only
  split <;> dsimp only <;> omega

/-- The carry of `timeradd` is all that a sum needs. -/
theorem Normalized.timeradd (first : a.Normalized) (second : b.Normalized) :
    (a.timeradd b).Normalized := by
  obtain ⟨secA, usecA, usecLtA⟩ := first
  obtain ⟨secB, usecB, usecLtB⟩ := second
  unfold Timeval.timeradd
  dsimp only
  split
  · exact ⟨by dsimp only; omega, by dsimp only; omega, by dsimp only; omega⟩
  · exact ⟨by dsimp only; omega, by dsimp only; omega, by dsimp only; omega⟩

/-- The borrow of `timersub` is all that the difference to an earlier instant needs. -/
theorem Normalized.timersub (first : a.Normalized) (second : b.Normalized) (later : a.After b) :
    (a.timersub b).Normalized := by
  obtain ⟨_, usecA, usecLtA⟩ := first
  obtain ⟨_, usecB, usecLtB⟩ := second
  rw [Timeval.after_iff] at later
  unfold Timeval.timersub
  dsimp only
  split
  · exact ⟨by dsimp only; omega, by dsimp only; omega, by dsimp only; omega⟩
  · exact ⟨by dsimp only; omega, by dsimp only; omega, by dsimp only; omega⟩

theorem Normalized.timersub_pos (first : a.Normalized) (second : b.Normalized)
    (later : a.After b) : 0 < (a.timersub b).micros := by
  rw [timersub_micros]
  have order := (first.after_iff second).mp later
  omega

end Timeval

namespace LsTimer

theorem delta_normalized (ms : Nat) :
    Timeval.Normalized ⟨(ms / 1000 : Nat), ((ms % 1000) * 1000 : Nat)⟩ :=
  ⟨by dsimp only; omega, by dsimp only; omega, by dsimp only; omega⟩

theorem dueTime_normalized {now : Timeval} (normalized : now.Normalized) (ms : Nat) :
    (dueTime now ms).Normalized :=
  normalized.timeradd (delta_normalized ms)

theorem dueTime_micros (now : Timeval) (ms : Nat) :
    (dueTime now ms).micros = now.micros + ms * 1000 := by
  rw [dueTime, Timeval.timeradd_micros]
  unfold Timeval.micros
  dsimp only
  omega

/-- Below 2^62 seconds the due time of any `unsigned long` can be represented. -/
theorem dueTime_within {now : Timeval} (normalized : now.Normalized) (early : now.tvSec < 2 ^ 62)
    {ms : Nat} (small : ms < 2 ^ 64) :
    now.AddsWithin ⟨(ms / 1000 : Nat), ((ms % 1000) * 1000 : Nat)⟩ := by
  obtain ⟨sec, usec, usecLt⟩ := normalized
  unfold Timeval.AddsWithin
  dsimp only
  omega

variable {a b : LsTimer} {tv : Timeval}

theorem lsTimerLess_micros (first : a.tv.Normalized) (second : b.tv.Normalized) :
    a.lsTimerLess b = true ↔ a.tv.micros < b.tv.micros := by
  rw [lsTimerLess_iff, second.after_iff first]

theorem lsTimerGreater_micros (first : a.tv.Normalized) (second : b.tv.Normalized) :
    a.lsTimerGreater b = true ↔ b.tv.micros < a.tv.micros := by
  rw [lsTimerGreater_iff, first.after_iff second]

theorem lsTimerGreaterTv_micros (first : a.tv.Normalized) (second : tv.Normalized) :
    a.lsTimerGreaterTv tv = true ↔ tv.micros < a.tv.micros := by
  rw [lsTimerGreaterTv_iff, first.after_iff second]

end LsTimer

namespace TimerManager

/-- The timeout that `tube_manager_wait` passes to `select`: NULL when no timer is pending. -/
def waitTimeout (pending : PendingResult) (mgr : TimerManager) : Exec (Option Timeval) :=
  if pending.ret = 0 then pure none
  else
    match pending.tv with
    | none => .error .nullDereference
    | some term => pure (some (term.timersub mgr.last))

/-- Every queued timer is queued once, in heap order and with a normalized time,
and the array can be indexed. -/
structure TimersOk (mgr : TimerManager) : Prop where
  queue : mgr.QueueOk
  distinct : mgr.timerQ.items.Nodup
  size : mgr.timerQ.size ≤ mgr.timerQ.capacity
  positive : 0 < mgr.timerQ.capacity
  capacity : mgr.timerQ.capacity ≤ sizeMax
  normalized : ∀ tim timer, mgr.Queued tim timer → timer.tv.Normalized
  clock : mgr.last.Normalized

def SchedulesNormalized (env : TimerEnv) : Prop :=
  ∀ func arg mgr tv cb context, .schedule tv cb context ∈ env.callback func arg mgr →
    tv.Normalized

theorem tubeManagerScheduleMs_creates (env : TimerEnv) (ms cb context : Nat)
    (mgr : TimerManager) :
    mgr.tubeManagerScheduleMs env ms cb context =
      match LsTimer.lsTimerCreateMs (env.malloc mgr.requests) mgr.last ms cb context
          mgr.timers with
      | none => .ok (false, mgr.asked)
      | some (tim, timers) =>
          tubeManagerScheduleTimer env tim { mgr.asked with timers := timers } := by
  unfold tubeManagerScheduleMs tubeManagerSchedule LsTimer.lsTimerCreateMs LsTimer.lsTimerCreate
  cases env.malloc mgr.requests <;> rfl

section Preservation

variable {mgr after : TimerManager} {env : TimerEnv} {tim : Nat}

theorem TimersOk.congr {later : TimerManager} (ok : mgr.TimersOk)
    (timers : later.timers = mgr.timers) (timerQ : later.timerQ = mgr.timerQ)
    (last : later.last = mgr.last) : later.TimersOk := by
  obtain ⟨⟨allocated, heap⟩, distinct, size, positive, capacity, normalized, clock⟩ := ok
  cases later
  subst timers timerQ last
  exact ⟨⟨allocated, heap⟩, distinct, size, positive, capacity, normalized, clock⟩

theorem TimersOk.small (ok : mgr.TimersOk) : mgr.timerQ.size ≤ sizeMax :=
  Nat.le_trans ok.size ok.capacity

theorem TimersOk.live (ok : mgr.TimersOk) (queued : some tim ∈ mgr.timerQ.items) :
    mgr.timers.Live tim := by
  obtain ⟨u, inside, slot⟩ := List.mem_map.mp queued
  obtain ⟨other, timer, held, found⟩ := ok.queue.allocated u (List.mem_range.mp inside)
  obtain rfl := Option.some.inj (slot.symm.trans held)
  exact ⟨timer, found⟩

theorem TimersOk.alloc (ok : mgr.TimersOk) (timer : LsTimer) :
    TimersOk { mgr with timers := mgr.timers.alloc timer } := by
  refine ⟨ok.queue.alloc timer, ok.distinct, ok.size, ok.positive, ok.capacity, ?_, ok.clock⟩
  rintro tim carried ⟨queued, found⟩
  obtain ⟨old, foundOld⟩ := ok.live queued
  have kept : (mgr.timers.alloc timer).cells tim = some old :=
    Memory.alloc_cells_of_some _ _ foundOld
  obtain rfl := Option.some.inj (kept.symm.trans found)
  exact ok.normalized tim old ⟨queued, foundOld⟩

theorem TimersOk.place (ok : mgr.TimersOk) {timer : LsTimer}
    (found : mgr.timers.cells tim = some timer) (normalized : timer.tv.Normalized)
    (unqueued : some tim ∉ mgr.timerQ.items) {done : Bool} {queue : GpriorityQueue Nat}
    (placed : mgr.timerQ.place (heapCtx mgr.timers) itemSize tim = .ok (done, queue)) :
    TimersOk { mgr with timerQ := queue } := by
  obtain ⟨room, _, _, base, pushed, rfl⟩ := GpriorityQueue.place_eq_ok.mp placed
  obtain ⟨_, same, heap, allocated, perm⟩ := ok.queue.push (Nat.le_trans room ok.capacity) found
  obtain rfl := Except.ok.inj (same.symm.trans pushed)
  refine ⟨⟨allocated, heap⟩, ?_, room, ok.positive, ok.capacity, ?_, ok.clock⟩
  · exact perm.nodup_iff.mpr (List.nodup_cons.mpr ⟨unqueued, ok.distinct⟩)
  · rintro other carried ⟨queued, foundOther⟩
    rcases List.mem_cons.mp (perm.mem_iff.mp queued) with new | before
    · obtain rfl := Option.some.inj new
      obtain rfl := Option.some.inj (found.symm.trans foundOther)
      exact normalized
    · exact ok.normalized other carried ⟨before, foundOther⟩

theorem TimersOk.double (ok : mgr.TimersOk) (bytes : Nat)
    (small : mgr.timerQ.capacity ≤ sizeMax / 2 / itemSize) :
    TimersOk { mgr with
      timerQ := { mgr.timerQ with
        capacity := mgr.timerQ.capacity * 2 % 2 ^ 64
        bytes := bytes } } := by
  have limit : sizeMax / 2 / itemSize = 1152921504606846975 := by decide
  have most : sizeMax = 18446744073709551615 := rfl
  have size := ok.size
  have positive := ok.positive
  have unwrapped : mgr.timerQ.capacity * 2 % 2 ^ 64 = mgr.timerQ.capacity * 2 :=
    Nat.mod_eq_of_lt (by omega)
  rw [unwrapped]
  exact ⟨⟨ok.queue.allocated, ok.queue.heap⟩, ok.distinct, by dsimp only; omega,
    by dsimp only; omega, by dsimp only; omega, ok.normalized, ok.clock⟩

/-- Scheduling a timer that is not queued keeps the queue in order. -/
theorem tubeManagerScheduleTimer_timersOk (ok : mgr.TimersOk) {timer : LsTimer}
    (found : mgr.timers.cells tim = some timer) (normalized : timer.tv.Normalized)
    (unqueued : some tim ∉ mgr.timerQ.items) {done : Bool}
    (returned : mgr.tubeManagerScheduleTimer env tim = .ok (done, after)) :
    after.TimersOk ∧ after.last = mgr.last := by
  obtain ⟨_, _, rfl⟩ | ⟨_, pushed, queue, push, _, rfl⟩ := tubeManagerScheduleTimer_cases returned
  · exact ⟨ok.congr rfl rfl rfl, rfl⟩
  refine ⟨?_, rfl⟩
  cases GpriorityQueue.gpriorityQueuePush_eq_ok.mp push with
  | excessive full large => exact ok.congr rfl rfl rfl
  | refused full small denied => exact (ok.double mgr.timerQ.bytes small).congr rfl rfl rfl
  | stored room placed => exact (ok.place found normalized unqueued placed).congr rfl rfl rfl
  | grown full small granted copied placed =>
    exact ((ok.double _ small).place found normalized unqueued placed).congr rfl rfl rfl

theorem tubeManagerSchedule_timersOk (ok : mgr.TimersOk) {tv : Timeval}
    (normalized : tv.Normalized) {cb context : Nat} {done : Bool}
    (returned : mgr.tubeManagerSchedule env tv cb context = .ok (done, after)) :
    after.TimersOk ∧ after.last = mgr.last := by
  obtain ⟨_, _, rfl⟩ | ⟨_, scheduled⟩ := tubeManagerSchedule_cases returned
  · exact ⟨ok.congr rfl rfl rfl, rfl⟩
  · have okAlloc : TimersOk { mgr.asked with timers := mgr.timers.alloc ⟨cb, context, tv⟩ } :=
      (ok.alloc ⟨cb, context, tv⟩).congr rfl rfl rfl
    obtain ⟨kept, last⟩ := tubeManagerScheduleTimer_timersOk okAlloc
      (Memory.alloc_cells_self mgr.timers ⟨cb, context, tv⟩) normalized ok.queue.fresh_unqueued
      scheduled
    exact ⟨kept, last⟩

/-- Cancelling under the lock gives a timer the epoch and keeps the queue in order. -/
theorem tubeManagerCancelTimer_timersOk {done : Bool} (ok : mgr.TimersOk)
    (lock : env.lock mgr.requests = true)
    (cancelled : mgr.tubeManagerCancelTimer env tim = .ok (done, after)) :
    after.TimersOk ∧ after.last = mgr.last := by
  obtain ⟨timer, base, found, rfl, queue, perm⟩ :=
    tubeManagerCancelTimer_locked ok.queue ok.small lock cancelled
  refine ⟨⟨queue, perm.nodup_iff.mpr ok.distinct, ok.size, ok.positive, ok.capacity, ?_,
    ok.clock⟩, rfl⟩
  rintro other carried ⟨queued, foundOther⟩
  by_cases here : other = tim
  · subst here
    have cell : (mgr.timers.set other timer.lsTimerCancel).cells other =
        some timer.lsTimerCancel := Memory.set_cells_self _ found
    obtain rfl := Option.some.inj (cell.symm.trans foundOther)
    exact Timeval.epoch_normalized
  · have cell : (mgr.timers.set tim timer.lsTimerCancel).cells other = mgr.timers.cells other :=
      Memory.set_cells_of_ne _ _ here
    exact ok.normalized other carried ⟨perm.mem_iff.mp queued, cell.symm.trans foundOther⟩

theorem perform_timersOk {call : TimerCall} (ok : mgr.TimersOk) (locks : ∀ n, env.lock n = true)
    (normalized : ∀ tv cb context, call = .schedule tv cb context → tv.Normalized)
    (performed : mgr.perform env call = .ok after) : after.TimersOk ∧ after.last = mgr.last := by
  cases call with
  | schedule tv cb context =>
    obtain ⟨⟨done, later⟩, scheduled, performed⟩ := Exec.bind_eq_ok.mp performed
    cases performed
    exact tubeManagerSchedule_timersOk ok (normalized tv cb context rfl) scheduled
  | scheduleMs ms cb context =>
    obtain ⟨⟨done, later⟩, scheduled, performed⟩ := Exec.bind_eq_ok.mp performed
    cases performed
    exact tubeManagerSchedule_timersOk ok (LsTimer.dueTime_normalized ok.clock ms) scheduled
  | cancel tim =>
    obtain ⟨⟨done, later⟩, cancelled, performed⟩ := Exec.bind_eq_ok.mp performed
    cases performed
    exact tubeManagerCancelTimer_timersOk ok (locks _) cancelled
  | stop =>
    cases performed
    exact ⟨ok.congr rfl rfl rfl, rfl⟩

theorem performAll_timersOk {calls : List TimerCall} (ok : mgr.TimersOk)
    (locks : ∀ n, env.lock n = true)
    (normalized : ∀ tv cb context, .schedule tv cb context ∈ calls → tv.Normalized)
    (performed : calls.foldlM (perform env) mgr = .ok after) :
    after.TimersOk ∧ after.last = mgr.last := by
  induction calls generalizing mgr with
  | nil =>
    cases performed
    exact ⟨ok, rfl⟩
  | cons call calls inductionHypothesis =>
    rw [List.foldlM_cons, Exec.bind_eq_ok] at performed
    obtain ⟨middle, first, rest⟩ := performed
    obtain ⟨okMiddle, last⟩ := perform_timersOk ok locks
      (fun tv cb context same => normalized tv cb context (same ▸ List.mem_cons_self)) first
    obtain ⟨okAfter, lastAfter⟩ := inductionHypothesis okMiddle
      (fun tv cb context member => normalized tv cb context (List.mem_cons_of_mem _ member)) rest
    exact ⟨okAfter, lastAfter.trans last⟩

theorem execSlot_timersOk {slot : Nat} (ok : mgr.TimersOk) (locks : ∀ n, env.lock n = true)
    (normalized : SchedulesNormalized env) (executed : mgr.execSlot env slot = .ok after) :
    after.TimersOk ∧ after.last = mgr.last := by
  simp only [execSlot, Exec.bind_eq_ok] at executed
  obtain ⟨tim, _, timer, _, performed⟩ := executed
  have called : TimersOk { mgr with trace := mgr.trace ++ [.called timer.cb tim mgr.queued] } :=
    ok.congr rfl rfl rfl
  have kept := performAll_timersOk called locks (normalized _ _ _) performed
  exact kept

/-- Popping the top timer keeps the others in order. -/
theorem popTimer_timersOk (ok : mgr.TimersOk) (popped : mgr.popTimer = .ok after) :
    after.TimersOk ∧ after.last = mgr.last := by
  obtain ⟨queue, _, _, returned, _⟩ := popTimer_eq_ok.mp popped
  obtain ⟨nonempty, fits, _⟩ := GpriorityQueue.gpriorityQueuePop_eq_ok.mp returned
  obtain ⟨first, _, slot, _⟩ := ok.queue.allocated 0 nonempty
  obtain ⟨_, again, pop⟩ :=
    popTimer_ok ok.queue ok.distinct ok.small fits (Nat.ne_of_gt nonempty) slot
  obtain rfl := Except.ok.inj (again.symm.trans popped)
  refine ⟨⟨pop.queue, (List.nodup_cons.mp (pop.items.nodup_iff.mpr ok.distinct)).2, ?_, ?_, ?_, ?_,
    ?_⟩, pop.last⟩
  · have size := pop.size
    have most := ok.size
    have capacity := pop.capacity
    omega
  · exact pop.capacity ▸ ok.positive
  · exact pop.capacity ▸ ok.capacity
  · exact fun tim carried queued => ok.normalized tim carried (pop.queued queued).1
  · exact pop.last ▸ ok.clock

end Preservation

section Report

variable {mgr after : TimerManager} {env : TimerEnv}

/-- `term` is the earliest time in the queue and later than `mgr->last`. -/
structure Earliest (mgr : TimerManager) (term : Timeval) : Prop where
  queued : ∃ tim timer, mgr.Queued tim timer ∧ timer.tv = term
  least : ∀ tim timer, mgr.Queued tim timer → ¬ term.After timer.tv
  future : ∀ tim timer, mgr.Queued tim timer → timer.tv.After mgr.last

/-- When `pending_timers` returns 1, it reports the earliest time left in the queue. -/
theorem pendingTimers_reports {bound : Nat} {tv : Option Timeval} (ok : mgr.TimersOk)
    (locks : ∀ n, env.lock n = true) (normalized : SchedulesNormalized env)
    (returned : mgr.pendingTimers env bound = .ok (⟨1, tv⟩, after)) :
    after.TimersOk ∧ after.last = mgr.last ∧ ∃ term, tv = some term ∧ after.Earliest term := by
  induction bound generalizing mgr with
  | zero => cases returned
  | succ bound inductionHypothesis =>
    generalize outcomeIs : ((⟨1, tv⟩, after) : PendingResult × TimerManager) = outcome at returned
    cases pendingTimers_turned returned with
    | stopped => cases outcomeIs
    | refused => cases outcomeIs
    | empty =>
      have pending := congrArg PendingResult.ret (Prod.mk.inj outcomeIs).1
      dsimp only at pending
      split at pending <;> cases pending
    | popped => cases outcomeIs
    | @waits first timer nonempty load read future =>
      obtain ⟨pending, rfl⟩ := Prod.mk.inj outcomeIs
      obtain ⟨_, reported⟩ := (PendingResult.mk.injEq _ _ _ _).mp pending
      have held : mgr.timerQ.base 0 = some first := by
        obtain ⟨other, _, held, _⟩ := ok.queue.allocated 0 (Nat.pos_of_ne_zero nonempty)
        simp only [loadSlot, held] at load
        exact held.trans (congrArg some (Except.ok.inj load))
      have found : mgr.timers.cells first = some timer := Memory.read_eq_ok_iff.mp read
      have least : ∀ tim other, mgr.Queued tim other → ¬ timer.tv.After other.tv := by
        intro tim other queued
        obtain ⟨u, inside, slot⟩ := queued.slot
        exact ok.queue.top_earliest inside held found slot queued.2
      -- a cancelled timer is not later than a normalized clock
      have uncancelled : ¬ timer.lsTimerIsCancelled = true := by
        intro cancelled
        obtain ⟨sec, usec, usecLt⟩ := ok.clock
        have epoch : timer.tv = Timeval.epoch := timer.lsTimerIsCancelled_iff.mp cancelled
        rw [epoch, Timeval.after_iff] at future
        change mgr.last.tvSec < 0 ∨ 0 = mgr.last.tvSec ∧ mgr.last.tvUsec < 0 at future
        omega
      refine ⟨ok.congr rfl rfl rfl, rfl, timer.tv, ?_, ⟨first, timer, ⟨?_, found⟩, rfl⟩, least,
        ?_⟩
      · rw [reported, LsTimer.lsTimerGetTime, if_neg uncancelled]
      · exact List.mem_map.mpr ⟨0, List.mem_range.mpr (Nat.pos_of_ne_zero nonempty), held⟩
      · intro tim other queued
        by_contra past
        exact Timeval.not_after_trans (least tim other queued) past future
    | @fired popped _ _ nonempty pop exec rest =>
      obtain rfl := outcomeIs
      have okAsked : mgr.asked.TimersOk := ok.congr rfl rfl rfl
      obtain ⟨okPopped, lastPopped⟩ := popTimer_timersOk okAsked pop
      have okUnlocked : popped.asked.TimersOk := okPopped.congr rfl rfl rfl
      obtain ⟨okExecuted, lastExecuted⟩ := execSlot_timersOk okUnlocked locks normalized exec
      obtain ⟨okAfter, lastAfter, reported⟩ := inductionHypothesis okExecuted rest
      exact ⟨okAfter, lastAfter.trans (lastExecuted.trans lastPopped), reported⟩

/-- Times are computed and compared exactly, and what `pending_timers` reports
gives `select` a timeout it accepts. -/
theorem timeouts_exact (env : TimerEnv) (locks : ∀ n, env.lock n = true)
    (normalized : SchedulesNormalized env) :
    (∀ (now : Timeval) (ms cb context : Nat) (timers : Memory LsTimer), now.Normalized →
      now.tvSec < 2 ^ 62 → ms < 2 ^ 64 →
      now.AddsWithin ⟨(ms / 1000 : Nat), ((ms % 1000) * 1000 : Nat)⟩ ∧
      ∃ tim later timer,
        LsTimer.lsTimerCreateMs true now ms cb context timers = some (tim, later) ∧
        later.cells tim = some timer ∧ timer.tv.micros = now.micros + ms * 1000 ∧
        timer.tv.Normalized) ∧
    (∀ a : LsTimer, a.tv.Normalized →
      (∀ b : LsTimer, b.tv.Normalized →
        (a.lsTimerLess b = true ↔ a.tv.micros < b.tv.micros) ∧
        (a.lsTimerGreater b = true ↔ b.tv.micros < a.tv.micros)) ∧
      ∀ tv : Timeval, tv.Normalized →
        (a.lsTimerGreaterTv tv = true ↔ tv.micros < a.tv.micros)) ∧
    ∀ (bound : Nat) (mgr after : TimerManager) (tv : Option Timeval), mgr.TimersOk →
      mgr.pendingTimers env bound = .ok (⟨1, tv⟩, after) →
      after.last = mgr.last ∧ ∃ term timeout, tv = some term ∧
        (∃ tim timer, after.Queued tim timer ∧ timer.tv = term) ∧
        (∀ tim timer, after.Queued tim timer →
          term.micros ≤ timer.tv.micros ∧ after.last.micros < timer.tv.micros) ∧
        after.waitTimeout ⟨1, tv⟩ = .ok (some timeout) ∧ timeout.Normalized ∧
        0 < timeout.micros := by
  refine ⟨?_, ?_, ?_⟩
  · intro now ms cb context timers clock early small
    exact ⟨LsTimer.dueTime_within clock early small, _, _, _, rfl, Memory.alloc_cells_self _ _,
      LsTimer.dueTime_micros now ms, LsTimer.dueTime_normalized clock ms⟩
  · intro a first
    exact ⟨fun b second => ⟨LsTimer.lsTimerLess_micros first second,
      LsTimer.lsTimerGreater_micros first second⟩,
      fun tv second => LsTimer.lsTimerGreaterTv_micros first second⟩
  · intro bound mgr after tv ok returned
    obtain ⟨okAfter, last, term, rfl, earliest⟩ :=
      pendingTimers_reports ok locks normalized returned
    obtain ⟨tim, timer, queued, rfl⟩ := earliest.queued
    have term := okAfter.normalized tim timer queued
    have later := earliest.future tim timer queued
    refine ⟨last, timer.tv, timer.tv.timersub after.last, rfl, ⟨tim, timer, queued, rfl⟩, ?_, rfl,
      term.timersub okAfter.clock later, term.timersub_pos okAfter.clock later⟩
    intro other carried queuedOther
    have time := okAfter.normalized other carried queuedOther
    refine ⟨?_, (time.after_iff okAfter.clock).mp (earliest.future other carried queuedOther)⟩
    exact Int.not_lt.mp fun less =>
      earliest.least other carried queuedOther ((term.after_iff time).mpr less)

theorem dueAndWaiting_timersOk : dueAndWaiting.TimersOk where
  queue := dueAndWaiting_queueOk
  distinct := by decide
  size := by decide
  positive := by decide
  capacity := by decide
  normalized tim timer queued := by
    obtain ⟨u, inside, slot⟩ := queued.slot
    have : u = 0 ∨ u = 1 := by change u < 2 at inside; omega
    rcases this with rfl | rfl
    · obtain rfl := Option.some.inj slot
      obtain rfl := Option.some.inj queued.2
      exact ⟨by decide, by decide, by decide⟩
    · obtain rfl := Option.some.inj slot
      obtain rfl := Option.some.inj queued.2
      exact ⟨by decide, by decide, by decide⟩
  clock := ⟨by decide, by decide, by decide⟩

theorem timeouts_exact_dueAndWaiting :
    ∃ after, dueAndWaiting.pendingTimers quietEnv 3 = .ok (⟨1, some ⟨9, 0⟩⟩, after) ∧
      ∃ timeout, after.waitTimeout ⟨1, some ⟨9, 0⟩⟩ = .ok (some timeout) ∧ timeout.Normalized ∧
        0 < timeout.micros := by
  refine ⟨_, rfl, ?_⟩
  obtain ⟨_, _, pending⟩ := timeouts_exact quietEnv (fun _ => rfl)
    (fun func arg mgr tv cb context scheduled => absurd scheduled List.not_mem_nil)
  obtain ⟨_, term, timeout, same, _, _, computed⟩ :=
    pending 3 dueAndWaiting _ _ dueAndWaiting_timersOk rfl
  exact ⟨timeout, computed⟩

end Report

end TimerManager

end SpudLib
