import SpudLib.Foundation.System
import SpudLib.Timer.Queueing

/-!
# Cancelled timers

A cancelled timer carries the epoch, and the queue is made a heap again with the
same timers.  The loop of `pending_timers` finds it due, pops it, and runs the
callback of whatever timer comes to the top then: early, or freed already.

Whether a cancellation leaves the other timers alone is a question about two
managers, the one whose timer was cancelled and the one whose timer was not.
-/

namespace SpudLib

namespace TimerManager

/-- What may follow a cancellation: the clock goes on and the loop runs its
timers, or the application makes one of the calls. -/
inductive TimerStep where
  | elapse (env : TimerEnv) (bound : Nat) (now : Timeval)
  | call (env : TimerEnv) (call : TimerCall)

def TimerStep.CancelFree : TimerStep → Prop
  | .elapse env _ _ => ∀ func arg mgr tim, .cancel tim ∉ env.callback func arg mgr
  | .call _ made => ∀ tim, made ≠ .cancel tim

def later : System TimerManager TimerStep where
  Enabled _ label := label.CancelFree
  step mgr
    | .elapse env bound now => do
        let (_, mgr) ← ({ mgr with last := now } : TimerManager).pendingTimers env bound
        pure mgr
    | .call env call => mgr.perform env call

/-- In this step, `other` runs before its time. -/
def RunsEarly (other : Nat) (before : TimerManager) (label : TimerStep) (after : TimerManager) :
    Prop :=
  ∃ env bound now news timer func queued, label = .elapse env bound now ∧
    after.trace = before.trace ++ news ∧
    (before.Queued other timer ∨ .scheduled other timer ∈ news) ∧ timer.tv.After now ∧
    .called func other queued ∈ news

inductive Harmed (start : TimerManager) (labels : List TimerStep) (last : TimerManager)
    (other : Nat) : Prop where
  | early (early : later.Past start labels (RunsEarly other))
  | twice (news : List TimerEvent) (appended : last.trace = start.trace ++ news)
      (twice : 1 < (news.filterMap calledTimer).count other)
  | dropped (past rest : List TimerEvent)
      (appended : last.trace = start.trace ++ (past ++ .destroyed other :: rest))
      (silent : ∀ func queued, .called func other queued ∉ past)

/-- From here on `tim` never runs, and no other timer runs early, twice or not at all unless it
does so in `undone`, where `tim` was not cancelled. -/
structure LeavesAlone (undone after : TimerManager) (tim : Nat) : Prop where
  silent : ∀ labels last news, later.Run after labels last → last.trace = after.trace ++ news →
    ∀ func queued, .called func tim queued ∉ news
  undisturbed : ∀ labels lastUndone, later.Run undone labels lastUndone →
    ∃ last, later.Run after labels last ∧ ∀ other, other ≠ tim → Harmed after labels last other →
      Harmed undone labels lastUndone other

/-- At a time at which the loop leaves the timers of `undone` alone, it pops `tim` from `after`
and then runs a timer that is not due, or `tim` itself where it is queued alone. -/
structure PopsNext (undone after : TimerManager) (tim : Nat) (env : TimerEnv) (bound : Nat) :
    Prop where
  quiet : ∃ result last, undone.pendingTimers env bound = .ok (result, last) ∧
    last.trace = undone.trace
  alone : after.timerQ.size = 1 → after.pendingTimers env bound = .error .useAfterFree
  early : ∀ result last, after.pendingTimers env bound = .ok (result, last) →
    ∃ other timer queued rest, other ≠ tim ∧ undone.Queued other timer ∧ ¬ undone.Due timer ∧
      last.trace = after.trace ++ .destroyed tim :: .called timer.cb other queued :: rest

section Times

theorem exists_latest (times : List Timeval) : ∃ now, ∀ tv ∈ times, ¬ tv.After now := by
  induction times with
  | nil => exact ⟨Timeval.epoch, fun tv member => absurd member List.not_mem_nil⟩
  | cons first times inductionHypothesis =>
    obtain ⟨now, latest⟩ := inductionHypothesis
    by_cases later : first.After now
    · refine ⟨first, ?_⟩
      intro tv member
      rcases List.mem_cons.mp member with rfl | member
      · exact Timeval.After.irrefl tv
      · have notLater := latest tv member
        rw [Timeval.after_iff] at *
        omega
    · refine ⟨now, ?_⟩
      intro tv member
      rcases List.mem_cons.mp member with rfl | member
      · exact later
      · exact latest tv member

theorem exists_allDue (mgr : TimerManager) :
    ∃ now, ∀ tim timer, mgr.Queued tim timer → ¬ timer.tv.After now := by
  obtain ⟨now, latest⟩ := exists_latest (mgr.queued.map Prod.snd)
  refine ⟨now, ?_⟩
  intro tim timer queued
  apply latest
  apply List.mem_map.mpr
  refine ⟨(tim, timer.tv), List.mem_filterMap.mpr ⟨some tim, queued.1, ?_⟩, rfl⟩
  simp [queued.2]

end Times

section Popping

variable {mgr popped : TimerManager} {env : TimerEnv} {bound first : Nat} {timer : LsTimer}

/-- The loop pops a due timer and, holding the lock no more, executes the top slot. -/
theorem pendingTimers_due (going : mgr.keepGoing = true) (lock : env.lock mgr.requests = true)
    (nonempty : mgr.timerQ.size ≠ 0) (slot : mgr.timerQ.base 0 = some first)
    (found : mgr.timers.cells first = some timer) (due : mgr.Due timer)
    (pop : mgr.asked.popTimer = .ok popped) :
    mgr.pendingTimers env (bound + 1) =
      if !env.unlock popped.requests then .ok (⟨-1, none⟩, popped.asked)
      else popped.asked.execSlot env 0 >>= fun mgr => mgr.pendingTimers env bound := by
  have top : mgr.asked.timerQ.gpriorityQueueTop = some 0 := if_neg nonempty
  have loaded : mgr.asked.loadSlot 0 = .ok first := by simp only [loadSlot, asked, slot]
  have read : mgr.asked.timers.read first = .ok timer := Memory.read_of_some found
  have notAfter : timer.lsTimerGreaterTv mgr.asked.last = false := by
    rw [← Bool.not_eq_true, LsTimer.lsTimerGreaterTv_iff]
    exact due
  rw [pendingTimers]
  simp only [going, lock, top, loaded, read, notAfter, pop, Exec.ok_bind, Bool.not_true,
    Bool.false_eq_true, if_false, Exec.pure_eq_ok]

theorem execSlot_freed {mgr : TimerManager} {slot tim : Nat} (held : mgr.timerQ.base slot = some tim)
    (gone : mgr.timers.cells tim = none) : mgr.execSlot env slot = .error .useAfterFree := by
  have loaded : mgr.loadSlot slot = .ok tim := by simp only [loadSlot, held]
  simp only [execSlot, loaded, Memory.read_of_none gone, Exec.ok_bind, Exec.error_bind]

theorem execSlot_called {mgr : TimerManager} {slot tim : Nat}
    (held : mgr.timerQ.base slot = some tim) (found : mgr.timers.cells tim = some timer) :
    mgr.execSlot env slot = (env.callback timer.cb tim
      { mgr with trace := mgr.trace ++ [.called timer.cb tim mgr.queued] }).foldlM (perform env)
      { mgr with trace := mgr.trace ++ [.called timer.cb tim mgr.queued] } := by
  have loaded : mgr.loadSlot slot = .ok tim := by simp only [loadSlot, held]
  simp only [execSlot, loaded, Memory.read_of_some found, Exec.ok_bind]

end Popping

section Next

variable {undone after : TimerManager} {env : TimerEnv} {bound tim : Nat} {timer : LsTimer}

theorem top_of_cancelled (ok : after.QueueOk) (queued : some tim ∈ after.timerQ.items)
    (found : after.timers.cells tim = some timer) (epoch : timer.tv = Timeval.epoch)
    (late : ¬ Timeval.epoch.After after.last)
    (others : ∀ other carried, other ≠ tim → after.Queued other carried → ¬ after.Due carried) :
    after.timerQ.base 0 = some tim := by
  obtain ⟨u, inside, slot⟩ := Queued.slot ⟨queued, found⟩
  obtain ⟨first, carried, top, foundTop⟩ := ok.allocated 0 (Nat.zero_lt_of_lt inside)
  have earliest := ok.top_earliest inside top foundTop slot found
  by_cases here : first = tim
  · rw [top, here]
  · have first : after.Queued first carried :=
      ⟨List.mem_map.mpr ⟨0, List.mem_range.mpr (Nat.zero_lt_of_lt inside), top⟩, foundTop⟩
    have waits : carried.tv.After after.last := not_not.mp (others _ _ here first)
    rw [epoch] at earliest
    rw [Timeval.after_iff] at *
    omega

/-- The cancelled timer is popped first, and the callback of another is called too early. -/
theorem popsNext (ok : undone.QueueOk) (okAfter : after.QueueOk)
    (distinct : after.timerQ.items.Nodup) (small : after.timerQ.size ≤ sizeMax)
    (fits : after.timerQ.size * itemSize ≤ after.timerQ.bytes)
    (goingUndone : undone.keepGoing = true) (going : after.keepGoing = true)
    (locks : ∀ n, env.lock n = true) (unlocks : ∀ n, env.unlock n = true)
    (items : after.timerQ.items.Perm undone.timerQ.items)
    (others : ∀ other, other ≠ tim → after.timers.cells other = undone.timers.cells other)
    (queued : some tim ∈ after.timerQ.items) (found : after.timers.cells tim = some timer)
    (epoch : timer.tv = Timeval.epoch) (last : after.last = undone.last)
    (late : ¬ Timeval.epoch.After after.last) (noneDue : undone.NoneDue) :
    PopsNext undone after tim env (bound + 1) := by
  have waiting : ∀ other carried, other ≠ tim → after.Queued other carried →
      undone.Queued other carried ∧ ¬ undone.Due carried := by
    rintro other carried different ⟨member, cell⟩
    have before : undone.Queued other carried :=
      ⟨items.mem_iff.mp member, (others other different).symm.trans cell⟩
    exact ⟨before, noneDue other carried before⟩
  have top := top_of_cancelled okAfter queued found epoch late <| by
    intro other carried different member
    rw [Due, last]
    exact (waiting other carried different member).2
  obtain ⟨u, inside, _⟩ := Queued.slot ⟨queued, found⟩
  have nonempty : after.timerQ.size ≠ 0 := Nat.ne_of_gt (Nat.zero_lt_of_lt inside)
  have due : after.Due timer := by
    change ¬ timer.tv.After after.last
    rw [epoch]
    exact late
  obtain ⟨popped, returned, pop⟩ := @popTimer_ok after.asked (okAfter.congr rfl rfl) distinct small
    fits nonempty tim top
  have loop : after.pendingTimers env (bound + 1) =
      (popped.asked.execSlot env 0 >>= fun mgr => mgr.pendingTimers env bound) := by
    rw [pendingTimers_due going (locks _) nonempty top found due returned, unlocks]
    rfl
  have size : popped.timerQ.size + 1 = after.timerQ.size := pop.size
  have alone : after.timerQ.size = 1 →
      after.pendingTimers env (bound + 1) = .error .useAfterFree := by
    intro one
    have emptied : popped.timerQ.size = 0 := by omega
    have held := pop.freed
    rw [emptied] at held
    rw [loop, @execSlot_freed env popped.asked 0 tim held]
    · rfl
    · change popped.timers.cells tim = none
      rw [pop.timers]
      exact Memory.erase_cells_self _ _
  refine ⟨pendingTimers_idle env ok goingUndone locks noneDue, alone, ?_⟩
  intro result finish ran
  by_cases one : after.timerQ.size = 1
  · cases (alone one).symm.trans ran
  · obtain ⟨other, carried, slot, cell⟩ := pop.queue.allocated 0 (by omega)
    have member : popped.Queued other carried :=
      ⟨List.mem_map.mpr ⟨0, List.mem_range.mpr (by omega), slot⟩, cell⟩
    obtain ⟨still, different⟩ := pop.queued member
    obtain ⟨before, waits⟩ := waiting other carried different still
    rw [loop, @execSlot_called env carried popped.asked 0 other slot cell] at ran
    obtain ⟨executed, performed, rest⟩ := Exec.bind_eq_ok.mp ran
    obtain ⟨rest, appended⟩ := (performAll_trace env performed).trans (pendingTimers_trace env rest)
    refine ⟨other, carried, popped.asked.queued, rest, different, before, waits, ?_⟩
    rw [← appended, asked_trace, pop.trace]
    simp

/-- A timer runs early that would have waited but for the cancellation. -/
theorem PopsNext.disturbs {now : Timeval}
    (pops : PopsNext { undone with last := now } { after with last := now } tim env bound)
    (cancelFree : (TimerStep.elapse env bound now).CancelFree)
    (carries : ∀ other timer, other ≠ tim → undone.Queued other timer → after.Queued other timer) :
    ¬ LeavesAlone undone after tim := by
  intro leavesAlone
  obtain ⟨result, lastUndone, returned, quiet⟩ := pops.quiet
  have stepUndone : later.step undone (.elapse env bound now) = .ok lastUndone :=
    Exec.bind_eq_ok.mpr ⟨_, returned, rfl⟩
  obtain ⟨last, run, harmless⟩ := leavesAlone.undisturbed [.elapse env bound now] lastUndone
    (.cons cancelFree stepUndone (.nil lastUndone))
  cases run with
  | cons _ step nil =>
  cases nil
  obtain ⟨⟨result, finish⟩, ran, same⟩ := Exec.bind_eq_ok.mp step
  cases same
  obtain ⟨other, timer, queued, rest, different, member, waits, appended⟩ := pops.early result last
    ran
  have early : RunsEarly other after (.elapse env bound now) last :=
    ⟨env, bound, now, _, timer, timer.cb, queued, rfl, appended,
      .inl (carries other timer different member), not_not.mp waits, by simp⟩
  cases harmless other different (.early ⟨[], _, [], after, last, rfl, .nil after, cancelFree, step,
    early⟩) with
  | early past =>
    obtain ⟨front, label, back, state, next, split, reached, _, stepped, runsEarly⟩ := past
    obtain ⟨rfl, alone⟩ : front = [] ∧ .elapse env bound now :: [] = label :: back := by
      cases front with
      | nil => exact ⟨rfl, split⟩
      | cons first front => simp at split
    cases alone
    cases reached
    cases stepUndone.symm.trans stepped
    obtain ⟨_, _, _, news, _, _, _, _, grown, _, _, called⟩ := runsEarly
    obtain rfl : news = [] := by rwa [quiet, eq_comm, List.append_right_eq_self] at grown
    cases called
  | twice news grown twice =>
    obtain rfl : news = [] := by rwa [quiet, eq_comm, List.append_right_eq_self] at grown
    cases twice
  | dropped past rest grown _ =>
    rw [quiet, eq_comm, List.append_right_eq_self] at grown
    simp at grown

end Next

section Buried

variable {mgr : TimerManager} {tim : Nat}

/-- The mutex cannot be unlocked, so that the loop returns after its first pop. -/
def diggingEnv : TimerEnv := ⟨fun _ _ _ => [], fun _ => true, fun _ => false, fun _ => true⟩

def stoppingEnv : TimerEnv := ⟨fun _ _ _ => [.stop], fun _ => true, fun _ => true, fun _ => true⟩

theorem diggingEnv_cancelFree (bound : Nat) (now : Timeval) :
    (TimerStep.elapse diggingEnv bound now).CancelFree := fun _ _ _ _ => List.not_mem_nil

theorem stoppingEnv_cancelFree (bound : Nat) (now : Timeval) :
    (TimerStep.elapse stoppingEnv bound now).CancelFree := by
  intro func arg mgr tim member
  cases List.mem_singleton.mp member

/-- A queued timer that is not on top is called in some later run: the due timers above it are
popped one after the other, and with the last of them it comes to the top. -/
theorem called_of_buried (ok : mgr.QueueOk) (distinct : mgr.timerQ.items.Nodup)
    (small : mgr.timerQ.size ≤ sizeMax) (fits : mgr.timerQ.size * itemSize ≤ mgr.timerQ.bytes)
    (going : mgr.keepGoing = true) (queued : some tim ∈ mgr.timerQ.items)
    (buried : mgr.timerQ.base 0 ≠ some tim) {now : Timeval}
    (allDue : ∀ other timer, mgr.Queued other timer → ¬ timer.tv.After now) :
    ∃ labels last news func queued, later.Run mgr labels last ∧ last.trace = mgr.trace ++ news ∧
      .called func tim queued ∈ news := by
  generalize remaining : mgr.timerQ.size = size
  induction size generalizing mgr with
  | zero =>
    obtain ⟨u, inside, _⟩ := List.mem_map.mp queued
    rw [remaining] at inside
    exact absurd (List.mem_range.mp inside) (Nat.not_lt_zero u)
  | succ size inductionHypothesis =>
    let current : TimerManager := { mgr with last := now }
    have nonempty : mgr.timerQ.size ≠ 0 := by omega
    obtain ⟨first, carried, top, found⟩ := ok.allocated 0 (Nat.pos_of_ne_zero nonempty)
    have due : current.Due carried := allDue first carried
      ⟨List.mem_map.mpr ⟨0, List.mem_range.mpr (Nat.pos_of_ne_zero nonempty), top⟩, found⟩
    obtain ⟨popped, returned, pop⟩ := @popTimer_ok current.asked (ok.congr rfl rfl) distinct small
      fits nonempty first top
    have left : popped.timerQ.size = size := by
      have shrunk : popped.timerQ.size + 1 = mgr.timerQ.size := pop.size
      omega
    have still : some tim ∈ popped.timerQ.items := by
      rcases List.mem_cons.mp (pop.items.mem_iff.mpr queued) with same | member
      · exact absurd (top.trans same.symm) buried
      · exact member
    obtain ⟨u, inside, _⟩ := List.mem_map.mp still
    have some : popped.timerQ.size ≠ 0 := Nat.ne_of_gt (Nat.zero_lt_of_lt (List.mem_range.mp inside))
    by_cases surfaced : popped.timerQ.base 0 = .some tim
    · -- the timer is on top, and the loop executes the top slot
      obtain ⟨_, timer, slot, cell⟩ := pop.queue.allocated 0 (Nat.pos_of_ne_zero some)
      obtain rfl := Option.some.inj (surfaced.symm.trans slot)
      let executed : TimerManager := { popped.asked with
        trace := popped.trace ++ [.called timer.cb tim popped.asked.queued]
        keepGoing := false }
      have loop : current.pendingTimers stoppingEnv 2 = .ok (⟨-2, none⟩, executed) := by
        rw [@pendingTimers_due current popped stoppingEnv 1 first carried going rfl nonempty top
          found due returned, @execSlot_called stoppingEnv timer popped.asked 0 tim surfaced cell]
        rfl
      refine ⟨[.elapse stoppingEnv 2 now], executed,
        [.destroyed first, .called timer.cb tim popped.asked.queued], timer.cb,
        popped.asked.queued, .cons (stoppingEnv_cancelFree 2 now) ?_ (.nil executed), ?_, by simp⟩
      · exact Exec.bind_eq_ok.mpr ⟨_, loop, rfl⟩
      · change popped.trace ++ _ = _
        rw [pop.trace, List.append_assoc]
        rfl
    · have loop : current.pendingTimers diggingEnv 1 = .ok (⟨-1, none⟩, popped.asked) := by
        rw [@pendingTimers_due current popped diggingEnv 0 first carried going rfl nonempty top
          found due returned]
        rfl
      have fitsLeft : popped.timerQ.size * itemSize ≤ popped.timerQ.bytes := by
        rw [pop.bytes]
        have fewer : popped.timerQ.size ≤ mgr.timerQ.size := by omega
        exact (Nat.mul_le_mul_right _ fewer).trans fits
      obtain ⟨labels, last, news, func, others, run, appended, member⟩ :=
        @inductionHypothesis popped.asked (pop.queue.congr rfl rfl)
          (List.nodup_cons.mp (pop.items.nodup_iff.mpr distinct)).2
          (by change popped.timerQ.size ≤ sizeMax; omega) fitsLeft (pop.keepGoing.trans going) still
          surfaced (fun other timer among => allDue other timer (pop.queued among).1) left
      refine ⟨.elapse diggingEnv 1 now :: labels, last, .destroyed first :: news, func, others,
        .cons (diggingEnv_cancelFree 1 now) (Exec.bind_eq_ok.mpr ⟨_, loop, rfl⟩) run, ?_,
        List.mem_cons_of_mem _ member⟩
      rw [appended, asked_trace, pop.trace, List.append_assoc]
      rfl

theorem schedule_granted (ok : mgr.QueueOk) (block : mgr.timerQ.BlockOk itemSize) (tv : Timeval)
    (cb context : Nat) :
    ∃ next, mgr.perform quietEnv (.schedule tv cb context) = .ok next ∧ next.QueueOk ∧
      next.timerQ.items.Perm (some mgr.timers.fresh :: mgr.timerQ.items) ∧
      next.timers = mgr.timers.alloc ⟨cb, context, tv⟩ ∧
      next.timerQ.size * itemSize ≤ next.timerQ.bytes ∧ next.timerQ.bytes ≤ sizeMax ∧
      next.keepGoing = mgr.keepGoing ∧ mgr.trace <+: next.trace := by
  let made : TimerManager := { mgr.asked with timers := mgr.timers.alloc ⟨cb, context, tv⟩ }
  have okMade : made.QueueOk := (ok.alloc ⟨cb, context, tv⟩).congr rfl rfl
  obtain ⟨capacity, bytes, pushed, below, fits, addressable⟩ := block.push
    (heapCtx made.timers) (by decide) mgr.timers.fresh
  obtain ⟨base, placed, okPlaced, perm⟩ := @QueueOk.place
    { made with timerQ := { mgr.timerQ with capacity := capacity, bytes := bytes } }
    mgr.timers.fresh ⟨okMade.allocated, okMade.heap⟩ _ (Memory.alloc_cells_self _ _) below fits
    addressable
  have scheduled := @tubeManagerScheduleTimer_ok quietEnv made mgr.timers.fresh true _ rfl
    (pushed.trans placed)
  exact ⟨_, Exec.bind_eq_ok.mpr ⟨_, scheduled, rfl⟩, okPlaced.congr rfl rfl, perm, rfl, fits,
    addressable, rfl, List.prefix_append _ _⟩

/-- A timer that carries the epoch is buried under one that is due earlier, and called with it. -/
theorem called_of_going (ok : mgr.QueueOk) (distinct : mgr.timerQ.items.Nodup)
    (block : mgr.timerQ.BlockOk itemSize) (going : mgr.keepGoing = true)
    (queued : some tim ∈ mgr.timerQ.items) {timer : LsTimer}
    (found : mgr.timers.cells tim = some timer) (epoch : timer.tv = Timeval.epoch) :
    ∃ labels last news func queued, later.Run mgr labels last ∧ last.trace = mgr.trace ++ news ∧
      .called func tim queued ∈ news := by
  obtain ⟨next, scheduled, okNext, items, timers, fits, addressable, keepGoing, grows⟩ :=
    schedule_granted ok block ⟨-1, 0⟩ 0 0
  have kept : next.timers.cells tim = some timer := by
    rw [timers]
    exact Memory.alloc_cells_of_some _ _ found
  have made : next.timers.cells mgr.timers.fresh = some ⟨0, 0, ⟨-1, 0⟩⟩ := by
    rw [timers]
    exact Memory.alloc_cells_self _ _
  have buried : next.timerQ.base 0 ≠ some tim := by
    intro top
    obtain ⟨u, inside, slot⟩ := Queued.slot ⟨items.mem_iff.mpr List.mem_cons_self, made⟩
    have earliest := okNext.top_earliest inside top kept slot made
    rw [epoch] at earliest
    exact earliest (by decide)
  have distinctNext : next.timerQ.items.Nodup :=
    items.nodup_iff.mpr (List.nodup_cons.mpr ⟨ok.fresh_unqueued, distinct⟩)
  have small : next.timerQ.size ≤ sizeMax :=
    (Nat.le_mul_of_pos_right _ (by decide : 0 < itemSize)).trans (fits.trans addressable)
  obtain ⟨now, allDue⟩ := next.exists_allDue
  obtain ⟨labels, last, news, func, others, run, appended, member⟩ := called_of_buried okNext
    distinctNext small fits (keepGoing.trans going)
    (items.mem_iff.mpr (List.mem_cons_of_mem _ queued)) buried allDue
  obtain ⟨before, same⟩ := grows
  refine ⟨.call quietEnv (.schedule ⟨-1, 0⟩ 0 0) :: labels, last, before ++ news, func, others,
    .cons nofun scheduled run, ?_, List.mem_append_right _ member⟩
  rw [appended, ← same, List.append_assoc]

end Buried

section Stopped

variable {mgr after : TimerManager} {env : TimerEnv}

def OnlySchedules (before after : TimerManager) : Prop :=
  ∃ news, after.trace = before.trace ++ news ∧
    ∀ event ∈ news, ∃ tim timer, event = .scheduled tim timer

theorem onlySchedules_of_eq (same : after.trace = mgr.trace) : mgr.OnlySchedules after :=
  ⟨[], by rw [same, List.append_nil], fun event member => absurd member List.not_mem_nil⟩

theorem OnlySchedules.trans {last : TimerManager} (first : mgr.OnlySchedules after)
    (second : after.OnlySchedules last) : mgr.OnlySchedules last := by
  obtain ⟨news, appended, schedules⟩ := first
  obtain ⟨more, appendedMore, schedulesMore⟩ := second
  refine ⟨news ++ more, by rw [appendedMore, appended, List.append_assoc], ?_⟩
  intro event member
  rcases List.mem_append.mp member with member | member
  · exact schedules event member
  · exact schedulesMore event member

theorem OnlySchedules.silent (added : mgr.OnlySchedules after) {news : List TimerEvent}
    (appended : after.trace = mgr.trace ++ news) (func arg : Nat) (queued : List (Nat × Timeval)) :
    .called func arg queued ∉ news := by
  obtain ⟨_, same, schedules⟩ := added
  obtain rfl := List.append_cancel_left (same.symm.trans appended)
  intro member
  obtain ⟨_, _, impossible⟩ := schedules _ member
  cases impossible

theorem tubeManagerScheduleTimer_stopped {tim : Nat} {done : Bool}
    (returned : mgr.tubeManagerScheduleTimer env tim = .ok (done, after)) :
    after.keepGoing = mgr.keepGoing ∧ mgr.OnlySchedules after := by
  obtain ⟨_, _, rfl⟩ | ⟨_, pushed, queue, _, _, rfl⟩ := tubeManagerScheduleTimer_cases returned
  · exact ⟨rfl, onlySchedules_of_eq rfl⟩
  · refine ⟨rfl, _, rfl, ?_⟩
    intro event member
    split at member
    · obtain ⟨timer, _, rfl⟩ := List.mem_map.mp member
      exact ⟨tim, timer, rfl⟩
    · cases member

theorem tubeManagerSchedule_stopped {tv : Timeval} {cb context : Nat} {done : Bool}
    (returned : mgr.tubeManagerSchedule env tv cb context = .ok (done, after)) :
    after.keepGoing = mgr.keepGoing ∧ mgr.OnlySchedules after := by
  obtain ⟨_, _, rfl⟩ | ⟨_, scheduled⟩ := tubeManagerSchedule_cases returned
  · exact ⟨rfl, onlySchedules_of_eq rfl⟩
  · obtain ⟨going, added⟩ := tubeManagerScheduleTimer_stopped scheduled
    exact ⟨going, (onlySchedules_of_eq rfl).trans added⟩

theorem pendingTimers_stopped (bound : Nat) (stopped : mgr.keepGoing = false) :
    mgr.pendingTimers env (bound + 1) = .ok (⟨-2, none⟩, mgr) := by
  rw [pendingTimers, stopped]
  rfl

theorem step_stopped {label : TimerStep} (stopped : mgr.keepGoing = false)
    (cancelFree : label.CancelFree) (returned : later.step mgr label = .ok after) :
    after.keepGoing = false ∧ mgr.OnlySchedules after := by
  cases label with
  | elapse env bound now =>
    obtain ⟨⟨result, last⟩, expired, returned⟩ := Exec.bind_eq_ok.mp returned
    cases returned
    cases bound with
    | zero => cases expired
    | succ bound =>
      have quiet := @pendingTimers_stopped { mgr with last := now } env bound stopped
      obtain ⟨_, rfl⟩ := Prod.mk.inj (Except.ok.inj (expired.symm.trans quiet))
      exact ⟨stopped, onlySchedules_of_eq rfl⟩
  | call env made =>
    cases made with
    | schedule tv cb context =>
      obtain ⟨⟨done, later⟩, scheduled, returned⟩ := Exec.bind_eq_ok.mp returned
      cases returned
      obtain ⟨going, added⟩ := tubeManagerSchedule_stopped scheduled
      exact ⟨going.trans stopped, added⟩
    | scheduleMs ms cb context =>
      obtain ⟨⟨done, later⟩, scheduled, returned⟩ := Exec.bind_eq_ok.mp returned
      cases returned
      obtain ⟨going, added⟩ := tubeManagerSchedule_stopped scheduled
      exact ⟨going.trans stopped, added⟩
    | cancel tim => exact absurd rfl (cancelFree tim)
    | stop =>
      cases returned
      exact ⟨rfl, onlySchedules_of_eq rfl⟩

theorem later_stopped {labels : List TimerStep} (stopped : mgr.keepGoing = false)
    (run : later.Run mgr labels after) : after.keepGoing = false ∧ mgr.OnlySchedules after := by
  refine run.preserves (fun state => state.keepGoing = false ∧ mgr.OnlySchedules state) ?_
    ⟨stopped, onlySchedules_of_eq rfl⟩
  intro state label next ⟨stopped, added⟩ cancelFree returned
  obtain ⟨stoppedNext, addedNext⟩ := step_stopped stopped cancelFree returned
  exact ⟨stoppedNext, added.trans addedNext⟩

theorem not_harmed_of_stopped {labels : List TimerStep} {other : Nat}
    (stopped : mgr.keepGoing = false) (run : later.Run mgr labels after) :
    ¬ Harmed mgr labels after other := by
  obtain ⟨_, added⟩ := later_stopped stopped run
  intro harmed
  cases harmed with
  | early early =>
    obtain ⟨front, label, back, before, next, rfl, reached, cancelFree, returned, runsEarly⟩ := early
    obtain ⟨env, bound, now, news, timer, func, queued, _, appended, _, _, called⟩ := runsEarly
    have stoppedBefore := (later_stopped stopped reached).1
    exact (step_stopped stoppedBefore cancelFree returned).2.silent appended func other queued called
  | twice news appended twice =>
    have nobody : news.filterMap calledTimer = [] := by
      apply List.filterMap_eq_nil_iff.mpr
      intro event member
      cases event with
      | called func arg queued => exact absurd member (added.silent appended func arg queued)
      | scheduled => rfl
      | destroyed => rfl
    rw [nobody] at twice
    cases twice
  | dropped past rest appended _ =>
    obtain ⟨news, same, schedules⟩ := added
    obtain rfl := List.append_cancel_left (same.symm.trans appended)
    obtain ⟨_, _, impossible⟩ := schedules (.destroyed other) (by simp)
    cases impossible

end Stopped

section Alike

variable {env : TimerEnv}

/-- Two stopped managers that differ in their timers and in the order of their queues. -/
structure Alike (first second : TimerManager) : Prop where
  stopped : first.keepGoing = false
  stoppedSecond : second.keepGoing = false
  requests : second.requests = first.requests
  last : second.last = first.last
  fresh : second.timers.fresh = first.timers.fresh
  size : second.timerQ.size = first.timerQ.size
  capacity : second.timerQ.capacity = first.timerQ.capacity
  bytes : second.timerQ.bytes = first.timerQ.bytes
  addressable : first.timerQ.bytes ≤ sizeMax
  ok : first.QueueOk
  okSecond : second.QueueOk

variable {first second after : TimerManager} {tim : Nat} {timer other : LsTimer}
  {queue : GpriorityQueue Nat}

theorem Alike.congr (alike : Alike first second) {next twin : TimerManager}
    (timers : next.timers = first.timers) (timersTwin : twin.timers = second.timers)
    (timerQ : next.timerQ = first.timerQ) (timerQTwin : twin.timerQ = second.timerQ)
    (requests : twin.requests = next.requests) (last : twin.last = next.last)
    (stopped : next.keepGoing = false) (stoppedTwin : twin.keepGoing = false) :
    Alike next twin := by
  refine ⟨stopped, stoppedTwin, requests, last, ?_, ?_, ?_, ?_, ?_, alike.ok.congr timers timerQ,
    alike.okSecond.congr timersTwin timerQTwin⟩
  · rw [timers, timersTwin, alike.fresh]
  · rw [timerQ, timerQTwin, alike.size]
  · rw [timerQ, timerQTwin, alike.capacity]
  · rw [timerQ, timerQTwin, alike.bytes]
  · rw [timerQ]
    exact alike.addressable

theorem Alike.place (alike : Alike first second) (found : first.timers.cells tim = some timer)
    (foundSecond : second.timers.cells tim = some other)
    (placed : first.timerQ.place (heapCtx first.timers) itemSize tim = .ok (true, queue)) :
    ∃ twin, second.timerQ.place (heapCtx second.timers) itemSize tim = .ok (true, twin) ∧
      Alike { first with timerQ := queue } { second with timerQ := twin } := by
  obtain ⟨stopped, stoppedSecond, requests, last, fresh, size, capacity, bytes, addressable, ok,
    okSecond⟩ := alike
  obtain ⟨below, fits, _⟩ := GpriorityQueue.place_eq_ok.mp placed
  obtain ⟨base, again, okAfter, _⟩ := ok.place found below fits addressable
  cases again.symm.trans placed
  obtain ⟨twin, placedTwin, okTwin, _⟩ := okSecond.place foundSecond (by rwa [size, capacity])
    (by rwa [size, bytes]) (by rwa [bytes])
  exact ⟨_, placedTwin, stopped, stoppedSecond, requests, last, fresh, congrArg (· + 1) size,
    capacity, bytes, addressable, okAfter, okTwin⟩

theorem Alike.push (alike : Alike first second) {mallocOk done : Bool}
    (found : first.timers.cells tim = some timer)
    (foundSecond : second.timers.cells tim = some other)
    (pushed : first.timerQ.gpriorityQueuePush (heapCtx first.timers) itemSize mallocOk tim =
      .ok (done, queue)) :
    ∃ twin, second.timerQ.gpriorityQueuePush (heapCtx second.timers) itemSize mallocOk tim =
        .ok (done, twin) ∧
      Alike { first with timerQ := queue } { second with timerQ := twin } := by
  have size := alike.size
  have capacity := alike.capacity
  have bytes := alike.bytes
  -- both queues believe to have grown
  have double : ∀ bytes bytesSecond, bytesSecond = bytes → bytes ≤ sizeMax →
      Alike { first with timerQ := { first.timerQ with
        capacity := first.timerQ.capacity * 2 % 2 ^ 64, bytes := bytes } }
      { second with timerQ := { second.timerQ with
        capacity := second.timerQ.capacity * 2 % 2 ^ 64, bytes := bytesSecond } } := by
    intro bytes bytesSecond same addressable
    exact ⟨alike.stopped, alike.stoppedSecond, alike.requests, alike.last, alike.fresh, size,
      congrArg (· * 2 % 2 ^ 64) capacity, same, addressable, ⟨alike.ok.allocated, alike.ok.heap⟩,
      ⟨alike.okSecond.allocated, alike.okSecond.heap⟩⟩
  cases GpriorityQueue.gpriorityQueuePush_eq_ok.mp pushed with
  | excessive full large =>
    refine ⟨second.timerQ, GpriorityQueue.gpriorityQueuePush_eq_ok.mpr (.excessive ?_ ?_),
      alike.congr rfl rfl rfl rfl alike.requests alike.last alike.stopped alike.stoppedSecond⟩
    · rw [size, capacity, full]
    · rwa [capacity]
  | refused full small denied =>
    refine ⟨_, GpriorityQueue.gpriorityQueuePush_eq_ok.mpr (.refused ?_ ?_ denied),
      double _ _ bytes alike.addressable⟩
    · rw [size, capacity, full]
    · rwa [capacity]
  | stored room placed =>
    obtain ⟨twin, placedTwin, placedAlike⟩ := alike.place found foundSecond placed
    refine ⟨twin, GpriorityQueue.gpriorityQueuePush_eq_ok.mpr (.stored ?_ placedTwin), placedAlike⟩
    rwa [size, capacity]
  | grown full small granted copied placed =>
    obtain ⟨twin, placedTwin, placedAlike⟩ := (double
      (first.timerQ.capacity * 2 % 2 ^ 64 * itemSize % 2 ^ 64)
      (second.timerQ.capacity * 2 % 2 ^ 64 * itemSize % 2 ^ 64) (by rw [capacity])
      (Nat.le_of_lt_succ (Nat.mod_lt _ (by decide)))).place found foundSecond placed
    refine ⟨twin, GpriorityQueue.gpriorityQueuePush_eq_ok.mpr (.grown ?_ ?_ granted ?_ placedTwin),
      placedAlike⟩
    · rw [size, capacity, full]
    · rwa [capacity]
    · rwa [size, bytes, capacity]

theorem Alike.schedule (alike : Alike first second) {tv : Timeval} {cb context : Nat} {done : Bool}
    (returned : first.tubeManagerSchedule env tv cb context = .ok (done, after)) :
    ∃ twin, second.tubeManagerSchedule env tv cb context = .ok (done, twin) ∧
      Alike after twin := by
  obtain ⟨refused, rfl, rfl⟩ | ⟨granted, scheduled⟩ := tubeManagerSchedule_cases returned
  · refine ⟨second.asked, ?_, alike.congr rfl rfl rfl rfl (congrArg (· + 1) alike.requests)
      alike.last alike.stopped alike.stoppedSecond⟩
    rw [tubeManagerSchedule, alike.requests, refused]
    rfl
  · let made : TimerManager :=
      { first.asked with timers := first.timers.alloc ⟨cb, context, tv⟩ }
    let madeSecond : TimerManager :=
      { second.asked with timers := second.timers.alloc ⟨cb, context, tv⟩ }
    have allocates : second.tubeManagerSchedule env tv cb context =
        madeSecond.tubeManagerScheduleTimer env first.timers.fresh := by
      rw [tubeManagerSchedule, alike.requests, granted, ← alike.fresh]
      rfl
    have asked : madeSecond.requests = made.requests := congrArg (· + 1) alike.requests
    have both : Alike made madeSecond :=
      ⟨alike.stopped, alike.stoppedSecond, asked, alike.last, congrArg (· + 1) alike.fresh,
        alike.size, alike.capacity, alike.bytes, alike.addressable,
        (alike.ok.alloc ⟨cb, context, tv⟩).congr rfl rfl,
        (alike.okSecond.alloc ⟨cb, context, tv⟩).congr rfl rfl⟩
    have foundSecond : madeSecond.timers.cells first.timers.fresh = some ⟨cb, context, tv⟩ := by
      rw [← alike.fresh]
      exact Memory.alloc_cells_self _ _
    rw [allocates]
    obtain ⟨refused, rfl, rfl⟩ | ⟨lock, pushed, queue, push, rfl, rfl⟩ :=
      tubeManagerScheduleTimer_cases scheduled
    · refine ⟨madeSecond.asked, ?_, both.congr rfl rfl rfl rfl (congrArg (· + 1) asked) both.last
        both.stopped both.stoppedSecond⟩
      rw [tubeManagerScheduleTimer, asked, show env.lock made.requests = false from refused]
      rfl
    · obtain ⟨twin, pushedTwin, queues⟩ := both.push
        (Memory.alloc_cells_self first.timers ⟨cb, context, tv⟩) foundSecond push
      have scheduledTwin := @tubeManagerScheduleTimer_ok env madeSecond first.timers.fresh pushed
        twin (by rw [asked]; exact lock) (by rw [asked]; exact pushedTwin)
      rw [asked] at scheduledTwin
      exact ⟨_, scheduledTwin, queues.congr rfl rfl rfl rfl rfl both.last both.stopped
        both.stoppedSecond⟩

theorem Alike.step (alike : Alike first second) {label : TimerStep} (cancelFree : label.CancelFree)
    (returned : later.step first label = .ok after) :
    ∃ twin, later.step second label = .ok twin ∧ Alike after twin := by
  cases label with
  | elapse env bound now =>
    obtain ⟨⟨result, last⟩, expired, returned⟩ := Exec.bind_eq_ok.mp returned
    cases returned
    cases bound with
    | zero => cases expired
    | succ bound =>
      have quiet := @pendingTimers_stopped { first with last := now } env bound alike.stopped
      obtain ⟨rfl, rfl⟩ := Prod.mk.inj (Except.ok.inj (expired.symm.trans quiet))
      have quietTwin := @pendingTimers_stopped { second with last := now } env bound
        alike.stoppedSecond
      exact ⟨_, Exec.bind_eq_ok.mpr ⟨_, quietTwin, rfl⟩, alike.congr rfl rfl rfl rfl
        alike.requests rfl alike.stopped alike.stoppedSecond⟩
  | call env made =>
    cases made with
    | schedule tv cb context =>
      obtain ⟨⟨done, later⟩, scheduled, returned⟩ := Exec.bind_eq_ok.mp returned
      cases returned
      obtain ⟨twin, scheduledTwin, alikeAfter⟩ := alike.schedule scheduled
      exact ⟨twin, Exec.bind_eq_ok.mpr ⟨_, scheduledTwin, rfl⟩, alikeAfter⟩
    | scheduleMs ms cb context =>
      obtain ⟨⟨done, later⟩, scheduled, returned⟩ := Exec.bind_eq_ok.mp returned
      cases returned
      obtain ⟨twin, scheduledTwin, alikeAfter⟩ := alike.schedule scheduled
      rw [← alike.last] at scheduledTwin
      exact ⟨twin, Exec.bind_eq_ok.mpr ⟨_, scheduledTwin, rfl⟩, alikeAfter⟩
    | cancel tim => exact absurd rfl (cancelFree tim)
    | stop =>
      cases returned
      exact ⟨_, rfl, alike.congr rfl rfl rfl rfl alike.requests alike.last rfl rfl⟩

/-- The run of the one is a run of the other, and in neither does anything happen to a timer. -/
theorem Alike.leavesAlone (alike : Alike first second) (tim : Nat) :
    LeavesAlone first second tim := by
  constructor
  · intro labels last news run appended func queued
    exact (later_stopped alike.stoppedSecond run).2.silent appended func tim queued
  · intro labels lastUndone run
    obtain ⟨last, runSecond, _⟩ : ∃ last, later.Run second labels last ∧ Alike lastUndone last :=
      run.simulates Alike
        (fun _ _ _ _ alike cancelFree returned => ⟨cancelFree, alike.step cancelFree returned⟩)
        alike
    exact ⟨last, runSecond, fun other _ harmed =>
      absurd harmed (not_harmed_of_stopped alike.stoppedSecond runSecond)⟩

end Alike

section Cancelling

variable {mgr after : TimerManager} {env : TimerEnv} {tim : Nat}

theorem blockOk_small (block : mgr.timerQ.BlockOk itemSize) : mgr.timerQ.size ≤ sizeMax ∧
    mgr.timerQ.size * itemSize ≤ mgr.timerQ.bytes ∧ mgr.timerQ.bytes ≤ sizeMax := by
  have fits := (Nat.mul_le_mul_right itemSize block.inside).trans block.room
  have bounded := block.addressable.trans (Nat.div_le_self _ _)
  exact ⟨(Nat.le_mul_of_pos_right _ (by decide)).trans (fits.trans bounded), fits, bounded⟩

theorem tubeManagerCancelTimer_popsNext (ok : mgr.QueueOk) (distinct : mgr.timerQ.items.Nodup)
    (block : mgr.timerQ.BlockOk itemSize) (queued : some tim ∈ mgr.timerQ.items)
    (cancelled : mgr.tubeManagerCancelTimer env tim = .ok (true, after))
    (going : mgr.keepGoing = true) {during : TimerEnv} (locks : ∀ n, during.lock n = true)
    (unlocks : ∀ n, during.unlock n = true) {now : Timeval} (late : ¬ Timeval.epoch.After now)
    (noneDue : ({ mgr with last := now } : TimerManager).NoneDue) (bound : Nat) :
    PopsNext { mgr with requests := after.requests, last := now } { after with last := now } tim
      during (bound + 1) := by
  obtain ⟨small, fits, _⟩ := blockOk_small block
  obtain ⟨timer, base, found, rfl, okAfter, perm⟩ := tubeManagerCancelTimer_ok ok small cancelled
  exact popsNext (ok.congr rfl rfl) (okAfter.congr rfl rfl) (perm.nodup_iff.mpr distinct) small fits
    going going locks unlocks perm (fun other different => Memory.set_cells_of_ne _ _ different)
    (perm.mem_iff.mpr queued) (Memory.set_cells_self _ found) rfl rfl late noneDue

theorem tubeManagerCancelTimer_disturbs (ok : mgr.QueueOk) (distinct : mgr.timerQ.items.Nodup)
    (block : mgr.timerQ.BlockOk itemSize) (queued : some tim ∈ mgr.timerQ.items)
    (cancelled : mgr.tubeManagerCancelTimer env tim = .ok (true, after))
    (going : mgr.keepGoing = true) {now : Timeval} (late : ¬ Timeval.epoch.After now)
    (noneDue : ({ mgr with last := now } : TimerManager).NoneDue) :
    ¬ LeavesAlone { mgr with requests := after.requests } after tim := by
  have pops := @tubeManagerCancelTimer_popsNext mgr after env tim ok distinct block queued cancelled
    going quietEnv (fun _ => rfl) (fun _ => rfl) now late noneDue 0
  obtain ⟨timer, base, found, rfl, okAfter, perm⟩ :=
    tubeManagerCancelTimer_ok ok (blockOk_small block).1 cancelled
  refine pops.disturbs (fun _ _ _ _ => List.not_mem_nil) ?_
  rintro other carried different ⟨member, cell⟩
  exact ⟨perm.mem_iff.mpr member, (Memory.set_cells_of_ne _ _ different).trans cell⟩

/-- A successful cancellation gives the timer the epoch and keeps the queued timers and the heap.
Whenever nothing is due otherwise, the loop pops the cancelled timer and runs another early; and
later runs are as they should be, compared with those without the cancellation, exactly when the
manager was stopped. -/
theorem tubeManagerCancelTimer_leavesAlone_iff (ok : mgr.QueueOk)
    (distinct : mgr.timerQ.items.Nodup) (block : mgr.timerQ.BlockOk itemSize)
    (queued : some tim ∈ mgr.timerQ.items)
    (cancelled : mgr.tubeManagerCancelTimer env tim = .ok (true, after)) :
    (after.QueueOk ∧ after.timerQ.items.Perm mgr.timerQ.items ∧
      (∀ other, other ≠ tim → after.timers.cells other = mgr.timers.cells other) ∧
      after.timers.cells tim = (mgr.timers.cells tim).map LsTimer.lsTimerCancel) ∧
    (∀ during bound now, mgr.keepGoing = true → (∀ n, during.lock n = true) →
      (∀ n, during.unlock n = true) → ¬ Timeval.epoch.After now →
      ({ mgr with last := now } : TimerManager).NoneDue →
      PopsNext { mgr with requests := after.requests, last := now } { after with last := now } tim
        during (bound + 1)) ∧
    (LeavesAlone { mgr with requests := after.requests } after tim ↔ mgr.keepGoing = false) := by
  obtain ⟨small, fits, bounded⟩ := blockOk_small block
  refine ⟨?_, ?_, ?_⟩
  · obtain ⟨timer, base, found, rfl, okAfter, perm⟩ := tubeManagerCancelTimer_ok ok small cancelled
    refine ⟨okAfter, perm, fun other different => Memory.set_cells_of_ne _ _ different, ?_⟩
    rw [found]
    exact Memory.set_cells_self _ found
  · intro during bound now going locks unlocks late noneDue
    exact tubeManagerCancelTimer_popsNext ok distinct block queued cancelled going locks unlocks late
      noneDue bound
  · obtain ⟨timer, base, found, rfl, okAfter, perm⟩ := tubeManagerCancelTimer_ok ok small cancelled
    constructor
    · intro leavesAlone
      by_contra goes
      obtain ⟨labels, last, news, func, others, run, appended, called⟩ :=
        called_of_going okAfter (perm.nodup_iff.mpr distinct)
          ⟨block.positive, block.inside, block.room, block.addressable⟩
          ((Bool.not_eq_false _).mp goes) (perm.mem_iff.mpr queued) (Memory.set_cells_self _ found)
          rfl
      exact leavesAlone.silent labels last news run appended func others called
    · intro stopped
      refine Alike.leavesAlone ?_ tim
      exact ⟨stopped, stopped, rfl, rfl, rfl, rfl, rfl, rfl, bounded, ok.congr rfl rfl, okAfter⟩

/-- Timer 0 was due at 1 s and timer 1 is due at 9 s, and the loop was stopped at 5 s. -/
def stoppedAndWaiting : TimerManager := { dueAndWaiting with keepGoing := false }

theorem tubeManagerCancelTimer_leavesAlone_iff_stopped :
    ∃ after, stoppedAndWaiting.tubeManagerCancelTimer quietEnv 0 = .ok (true, after) ∧
      LeavesAlone { stoppedAndWaiting with requests := after.requests } after 0 := by
  refine ⟨_, rfl, ?_⟩
  exact (@tubeManagerCancelTimer_leavesAlone_iff stoppedAndWaiting _ quietEnv 0
    ⟨dueAndWaiting_queueOk.allocated, dueAndWaiting_queueOk.heap⟩ (by decide)
    ⟨by decide, by decide, by decide, by decide⟩ (by decide) rfl).2.2.mpr rfl

/-- Timer 0 is due at 8 s and timer 1 at 9 s; it is 5 s now. -/
def bothWaiting : TimerManager :=
  { dueAndWaiting with timers := (Memory.empty.alloc ⟨100, 0, ⟨8, 0⟩⟩).alloc ⟨101, 0, ⟨9, 0⟩⟩ }

def oneWaiting : TimerManager :=
  { dueAndWaiting with
    timers := Memory.empty.alloc ⟨100, 0, ⟨8, 0⟩⟩
    timerQ := ⟨fun u => if u = 0 then some 0 else none, 1, 1, 8⟩ }

theorem bothWaiting_ready : bothWaiting.QueueOk ∧ bothWaiting.NoneDue := by
  have slots : ∀ u < 2, u = 0 ∨ u = 1 := by omega
  refine ⟨⟨?_, ?_⟩, ?_⟩
  · intro u inside
    rcases slots u inside with rfl | rfl
    · exact ⟨0, _, rfl, rfl⟩
    · exact ⟨1, _, rfl, rfl⟩
  · intro u positive inside
    rcases slots u inside with rfl | rfl
    · cases positive
    · decide
  · intro tim timer queued
    obtain ⟨u, inside, slot⟩ := queued.slot
    rcases slots u inside with rfl | rfl
    · obtain rfl := Option.some.inj slot
      obtain rfl := Option.some.inj queued.2
      decide
    · obtain rfl := Option.some.inj slot
      obtain rfl := Option.some.inj queued.2
      decide

theorem oneWaiting_ready : oneWaiting.QueueOk ∧ oneWaiting.NoneDue := by
  refine ⟨⟨?_, ?_⟩, ?_⟩
  · intro u inside
    obtain rfl := Nat.lt_one_iff.mp inside
    exact ⟨0, _, rfl, rfl⟩
  · intro u positive inside
    obtain rfl := Nat.lt_one_iff.mp inside
    cases positive
  · intro tim timer queued
    obtain ⟨u, inside, slot⟩ := queued.slot
    obtain rfl := Nat.lt_one_iff.mp inside
    obtain rfl := Option.some.inj slot
    obtain rfl := Option.some.inj queued.2
    decide

/-- Once timer 0 is cancelled, the loop runs timer 1 four seconds early; a
timer that was queued alone is run itself, after it was destroyed. -/
theorem bothWaiting_cancelled :
    (∃ after last, bothWaiting.tubeManagerCancelTimer quietEnv 0 = .ok (true, after) ∧
      after.pendingTimers quietEnv 3 = .ok (⟨1, some ⟨9, 0⟩⟩, last) ∧
      last.trace = [.destroyed 0, .called 101 1 [(1, ⟨9, 0⟩)]] ∧
      ¬ LeavesAlone { bothWaiting with requests := after.requests } after 0) ∧
    ∃ after, oneWaiting.tubeManagerCancelTimer quietEnv 0 = .ok (true, after) ∧
      after.pendingTimers quietEnv 3 = .error .useAfterFree ∧
      ¬ LeavesAlone { oneWaiting with requests := after.requests } after 0 := by
  refine ⟨⟨_, _, rfl, rfl, by decide, ?_⟩, _, rfl, rfl, ?_⟩
  · exact @tubeManagerCancelTimer_disturbs bothWaiting _ quietEnv 0 bothWaiting_ready.1 (by decide)
      ⟨by decide, by decide, by decide, by decide⟩ (by decide) rfl rfl ⟨5, 0⟩ (by decide)
      bothWaiting_ready.2
  · exact @tubeManagerCancelTimer_disturbs oneWaiting _ quietEnv 0 oneWaiting_ready.1 (by decide)
      ⟨by decide, by decide, by decide, by decide⟩ (by decide) rfl rfl ⟨5, 0⟩ (by decide)
      oneWaiting_ready.2

end Cancelling

end TimerManager

end SpudLib
