import SpudLib.Timer.Cancellation
import SpudLib.Timer.Shuffling
import Mathlib.Data.List.Perm.Basic

/-!
# Who destroys a timer

A timer that joined the queue is destroyed by the loop of `pending_timers` or
with the queue, when the manager is.  Which of the two and when depends on what
its callbacks do and on times that a failed cancellation leaves out of order, so
nothing is said here of the order of the queue.
-/

namespace SpudLib.TimerManager

def scheduledOf (trace : List TimerEvent) : List Nat := trace.filterMap fun
  | .scheduled tim _ => some tim
  | _ => none

def destroyedOf (trace : List TimerEvent) : List Nat := trace.filterMap fun
  | .destroyed tim => some tim
  | _ => none

def timerDel (mgr : TimerManager) : Option Nat → Exec TimerManager
  | none => .error .outOfBounds
  | some tim => do
      let timers ← mgr.timers.free tim
      pure { mgr with timers := timers, trace := mgr.trace ++ [.destroyed tim] }

/-- `_tube_manager_finalize`, as far as timers go: `gpriority_queue_delete` calls `_timer_del` on
every slot. -/
def tubeManagerFinalize (mgr : TimerManager) : Exec TimerManager :=
  mgr.timerQ.items.foldlM timerDel { mgr with keepGoing := false }

def new (now : Timeval) : TimerManager :=
  ⟨Memory.empty, GpriorityQueue.gpriorityQueueCreate itemSize, now, true, 0, []⟩

def anyhow : System TimerManager TimerStep := ⟨fun _ _ => True, later.step⟩

def Sized (queue : GpriorityQueue Nat) : Prop :=
  queue.size ≤ queue.capacity ∧ 0 < queue.capacity ∧ queue.capacity ≤ sizeMax

/-- Every timer that joined the queue is in it or was destroyed, and no other was. -/
structure Owns (mgr : TimerManager) : Prop where
  balance : ((destroyedOf mgr.trace).map some ++ mgr.timerQ.items).Perm
    ((scheduledOf mgr.trace).map some)
  once : (scheduledOf mgr.trace).Nodup
  made : ∀ tim ∈ scheduledOf mgr.trace, tim < mgr.timers.fresh
  live : ∀ tim, mgr.timers.Live tim ↔ tim < mgr.timers.fresh ∧ tim ∉ destroyedOf mgr.trace
  sized : Sized mgr.timerQ

variable {mgr after : TimerManager} {env : TimerEnv} {tim : Nat}

section Trace

@[simp] theorem scheduledOf_append (front back : List TimerEvent) :
    scheduledOf (front ++ back) = scheduledOf front ++ scheduledOf back := List.filterMap_append

@[simp] theorem destroyedOf_append (front back : List TimerEvent) :
    destroyedOf (front ++ back) = destroyedOf front ++ destroyedOf back := List.filterMap_append

theorem Owns.of_eq (owns : mgr.Owns) (timers : after.timers.fresh = mgr.timers.fresh)
    (live : ∀ tim, after.timers.Live tim ↔ mgr.timers.Live tim)
    (items : after.timerQ.items.Perm mgr.timerQ.items) (sized : Sized after.timerQ)
    (scheduled : scheduledOf after.trace = scheduledOf mgr.trace)
    (destroyed : destroyedOf after.trace = destroyedOf mgr.trace) : after.Owns := by
  refine ⟨?_, scheduled ▸ owns.once, ?_, ?_, sized⟩
  · rw [scheduled, destroyed]
    exact (items.append_left _).trans owns.balance
  · rw [scheduled, timers]
    exact owns.made
  · intro tim
    rw [live, timers, destroyed]
    exact owns.live tim

theorem Owns.asked (owns : mgr.Owns) : mgr.asked.Owns :=
  owns.of_eq rfl (fun _ => Iff.rfl) (List.Perm.refl _) owns.sized rfl rfl

theorem Owns.destroyed_queued (owns : mgr.Owns) :
    (destroyedOf mgr.trace).Nodup ∧ mgr.timerQ.items.Nodup ∧
      ∀ tim, tim ∈ destroyedOf mgr.trace → some tim ∉ mgr.timerQ.items := by
  have nodup := owns.balance.nodup_iff.mpr (owns.once.map (Option.some_injective _))
  obtain ⟨destroyed, items, apart⟩ := List.nodup_append.mp nodup
  refine ⟨List.Nodup.of_map _ destroyed, items, ?_⟩
  intro tim member queued
  exact apart _ (List.mem_map_of_mem member) _ queued rfl

theorem Owns.queued (owns : mgr.Owns) {slot : Option Nat} (member : slot ∈ mgr.timerQ.items) :
    ∃ tim, slot = some tim ∧ mgr.timers.Live tim := by
  obtain ⟨tim, scheduled, rfl⟩ := List.mem_map.mp
    (owns.balance.mem_iff.mp (List.mem_append_right _ member))
  refine ⟨tim, rfl, (owns.live tim).mpr ⟨owns.made tim scheduled, ?_⟩⟩
  intro destroyed
  exact owns.destroyed_queued.2.2 tim destroyed member

end Trace

section Scheduling

theorem Owns.alloc (owns : mgr.Owns) (timer : LsTimer) :
    ({ mgr with timers := mgr.timers.alloc timer } : TimerManager).Owns := by
  refine ⟨owns.balance, owns.once, ?_, ?_, owns.sized⟩
  · exact fun tim member => Nat.lt_succ_of_lt (owns.made tim member)
  · intro tim
    by_cases new : tim = mgr.timers.fresh
    · have unscheduled : mgr.timers.fresh ∉ destroyedOf mgr.trace := by
        intro member
        have scheduled := List.mem_map.mp (owns.balance.subset
          (List.mem_append_left _ (List.mem_map_of_mem member)))
        obtain ⟨other, among, same⟩ := scheduled
        have below := owns.made other among
        rw [Option.some.inj same] at below
        exact Nat.lt_irrefl _ below
      rw [new]
      exact iff_of_true ⟨timer, Memory.alloc_cells_self ..⟩ ⟨Nat.lt_succ_self _, unscheduled⟩
    · have kept : (mgr.timers.alloc timer).Live tim ↔ mgr.timers.Live tim := by
        rw [Memory.Live, Memory.Live, Memory.alloc_cells_of_ne _ _ new]
      rw [kept, owns.live tim, Memory.alloc_fresh]
      constructor
      · exact fun ⟨below, left⟩ => ⟨Nat.lt_succ_of_lt below, left⟩
      · exact fun ⟨below, left⟩ => ⟨by omega, left⟩

theorem place_items {timers : Memory LsTimer} {queue placed : GpriorityQueue Nat} {done : Bool}
    (returned : queue.place (heapCtx timers) itemSize tim = .ok (done, placed)) :
    placed.items.Perm (some tim :: queue.items) := by
  obtain ⟨_, _, _, base, pushed, rfl⟩ := GpriorityQueue.place_eq_ok.mp returned
  rw [GheapCtx.gheapPushHeap_eq, GheapCtx.asserting_eq_ok] at pushed
  obtain ⟨_, rfl⟩ := pushed
  have moves := @GheapCtx.pushedHeap_moves _ (heapCtx timers) (queue.size + 1)
    (Function.update queue.base queue.size (some tim)) (parentIndex_lt timers)
  exact moves.1.trans (GpriorityQueue.contents_stored queue tim)

theorem push_cases {queue pushed : GpriorityQueue Nat} {timers : Memory LsTimer}
    {mallocOk done : Bool} (sized : Sized queue)
    (answer : queue.gpriorityQueuePush (heapCtx timers) itemSize mallocOk tim =
      .ok (done, pushed)) :
    Sized pushed ∧ (done = false ∧ pushed.items = queue.items ∨
      done = true ∧ pushed.items.Perm (some tim :: queue.items)) := by
  obtain ⟨inside, positive, small⟩ := sized
  have limit : sizeMax / 2 / itemSize = 1152921504606846975 := by decide
  have most : sizeMax = 18446744073709551615 := rfl
  have doubled : queue.capacity ≤ sizeMax / 2 / itemSize →
      queue.capacity * 2 % 2 ^ 64 = queue.capacity * 2 ∧ queue.capacity * 2 ≤ sizeMax := by
    intro few
    exact ⟨Nat.mod_eq_of_lt (by omega), by omega⟩
  cases GpriorityQueue.gpriorityQueuePush_eq_ok.mp answer with
  | excessive full large => exact ⟨⟨inside, positive, small⟩, .inl ⟨rfl, rfl⟩⟩
  | refused full few denied =>
    obtain ⟨unwrapped, fits⟩ := doubled few
    rw [unwrapped]
    have room : queue.size ≤ queue.capacity * 2 := by omega
    exact ⟨⟨room, Nat.mul_pos positive Nat.two_pos, fits⟩, .inl ⟨rfl, rfl⟩⟩
  | stored unfull placed =>
    have items := place_items placed
    obtain ⟨room, _, _, _, _, rfl⟩ := GpriorityQueue.place_eq_ok.mp placed
    exact ⟨⟨room, positive, small⟩, .inr ⟨rfl, items⟩⟩
  | grown full few granted copied placed =>
    obtain ⟨unwrapped, fits⟩ := doubled few
    rw [unwrapped] at placed
    have items := place_items placed
    obtain ⟨room, _, _, _, _, rfl⟩ := GpriorityQueue.place_eq_ok.mp placed
    exact ⟨⟨room, Nat.mul_pos positive Nat.two_pos, fits⟩, .inr ⟨rfl, items⟩⟩

theorem Owns.joined (owns : mgr.Owns) {timer : LsTimer} (found : mgr.timers.cells tim = some timer)
    (new : tim ∉ scheduledOf mgr.trace) (timers : after.timers = mgr.timers)
    (items : after.timerQ.items.Perm (some tim :: mgr.timerQ.items)) (sized : Sized after.timerQ)
    (trace : after.trace = mgr.trace ++ [.scheduled tim timer]) : after.Owns := by
  have scheduled : scheduledOf after.trace = scheduledOf mgr.trace ++ [tim] := by
    rw [trace, scheduledOf_append]
    rfl
  have destroyed : destroyedOf after.trace = destroyedOf mgr.trace := by
    rw [trace, destroyedOf_append]
    exact List.append_nil _
  refine ⟨?_, ?_, ?_, ?_, sized⟩
  · rw [scheduled, destroyed, List.map_append, List.map_singleton]
    refine (items.append_left _).trans (List.perm_middle.trans ?_)
    exact (owns.balance.cons _).trans (List.perm_append_singleton _ _).symm
  · rw [scheduled]
    exact List.nodup_append.mpr ⟨owns.once, List.nodup_singleton _, fun a member b last same =>
      new (by rwa [← List.mem_singleton.mp last, ← same])⟩
  · intro other member
    rw [scheduled] at member
    rw [timers]
    rcases List.mem_append.mp member with old | last
    · exact owns.made other old
    · rw [List.mem_singleton.mp last]
      exact Memory.lt_fresh found
  · intro other
    rw [timers, destroyed]
    exact owns.live other

/-- A timer that is not queued yet joins the queue, or is left where it is. -/
theorem Owns.scheduleTimer (owns : mgr.Owns) {timer : LsTimer} {done : Bool}
    (found : mgr.timers.cells tim = some timer) (new : tim ∉ scheduledOf mgr.trace)
    (returned : mgr.tubeManagerScheduleTimer env tim = .ok (done, after)) : after.Owns := by
  obtain ⟨_, _, rfl⟩ | ⟨_, pushed, queue, push, _, rfl⟩ := tubeManagerScheduleTimer_cases returned
  · exact owns.asked
  · obtain ⟨sized, ⟨rfl, same⟩ | ⟨rfl, items⟩⟩ := push_cases owns.sized push
    · exact owns.of_eq rfl (fun _ => Iff.rfl) (List.Perm.of_eq same) sized
        (congrArg scheduledOf (List.append_nil _)) (congrArg destroyedOf (List.append_nil _))
    · have news : (mgr.timers.cells tim).toList.map (TimerEvent.scheduled tim) =
          [.scheduled tim timer] := by
        rw [found]
        rfl
      exact owns.joined found new rfl items sized (congrArg (mgr.trace ++ ·) news)

theorem Owns.schedule (owns : mgr.Owns) {tv : Timeval} {cb context : Nat} {done : Bool}
    (returned : mgr.tubeManagerSchedule env tv cb context = .ok (done, after)) : after.Owns := by
  obtain ⟨_, _, rfl⟩ | ⟨_, scheduled⟩ := tubeManagerSchedule_cases returned
  · exact owns.asked
  · refine (owns.asked.alloc ⟨cb, context, tv⟩).scheduleTimer (Memory.alloc_cells_self ..) ?_
      scheduled
    intro member
    exact Nat.lt_irrefl _ (owns.made _ member)

end Scheduling

section Steps

/-- A cancelled timer is still queued, in order or not. -/
theorem Owns.cancel (owns : mgr.Owns) {done : Bool}
    (returned : mgr.tubeManagerCancelTimer env tim = .ok (done, after)) : after.Owns := by
  obtain ⟨timer, found, outcome⟩ := tubeManagerCancelTimer_cases returned
  have live : ∀ other, (mgr.timers.set tim timer.lsTimerCancel).Live other ↔
      mgr.timers.Live other := by
    intro other
    by_cases here : other = tim
    · rw [here]
      exact iff_of_true ⟨_, Memory.set_cells_self _ found⟩ ⟨_, found⟩
    · rw [Memory.Live, Memory.Live, Memory.set_cells_of_ne _ _ here]
  obtain ⟨_, _, rfl⟩ | ⟨_, _, base, made, rfl⟩ := outcome
  · exact owns.of_eq rfl live (List.Perm.refl _) owns.sized rfl rfl
  · have short := owns.sized.1.trans owns.sized.2.2
    rw [GheapCtx.gheapMakeHeap_eq, GheapCtx.asserting_eq_ok] at made
    obtain ⟨_, rfl⟩ := made
    exact owns.of_eq rfl live (GheapCtx.madeHeap_moves (heapCtx_indexes _ short)).1 owns.sized rfl
      rfl

/-- A timer is destroyed as it leaves the queue. -/
theorem Owns.left (owns : mgr.Owns) (timers : after.timers = mgr.timers.erase tim)
    (items : (some tim :: after.timerQ.items).Perm mgr.timerQ.items) (sized : Sized after.timerQ)
    (trace : after.trace = mgr.trace ++ [.destroyed tim]) : after.Owns := by
  have scheduled : scheduledOf after.trace = scheduledOf mgr.trace := by
    rw [trace, scheduledOf_append]
    exact List.append_nil _
  have destroyed : destroyedOf after.trace = destroyedOf mgr.trace ++ [tim] := by
    rw [trace, destroyedOf_append]
    rfl
  refine ⟨?_, scheduled ▸ owns.once, ?_, ?_, sized⟩
  · rw [scheduled, destroyed, List.map_append, List.map_singleton, List.append_assoc]
    exact (items.append_left _).trans owns.balance
  · rw [scheduled, timers]
    exact owns.made
  · intro other
    rw [timers, destroyed, List.mem_append, List.mem_singleton, Memory.erase_fresh, not_or]
    by_cases here : other = tim
    · rw [here]
      refine iff_of_false ?_ fun ⟨_, _, different⟩ => different rfl
      rintro ⟨cell, found⟩
      cases (Memory.erase_cells_self _ _).symm.trans found
    · rw [Memory.Live, Memory.erase_cells_of_ne _ here]
      exact (owns.live other).trans (and_congr_right fun _ => (and_iff_left here).symm)

theorem Owns.pop (owns : mgr.Owns) (returned : mgr.popTimer = .ok after) : after.Owns := by
  obtain ⟨queue, tim, timers, popped, last, freed, rfl⟩ := popTimer_eq_ok.mp returned
  obtain ⟨some, _, base, pop, rfl⟩ := GpriorityQueue.gpriorityQueuePop_eq_ok.mp popped
  obtain ⟨rest, size⟩ : ∃ rest, mgr.timerQ.size = rest + 1 :=
    Nat.exists_eq_succ_of_ne_zero (Nat.ne_of_gt some)
  have short := owns.sized.1.trans owns.sized.2.2
  obtain ⟨moves, _⟩ := @GheapCtx.poppedHeap_moves _ (heapCtx mgr.timers) mgr.timerQ.base rest
    (heapCtx_indexes _ (by omega))
  rw [size, GheapCtx.gheapPopHeap_eq, GheapCtx.asserting_eq_ok] at pop
  obtain ⟨_, rfl⟩ := pop
  dsimp only at last
  rw [size, Nat.add_sub_cancel] at last ⊢
  have erased : timers = mgr.timers.erase tim := by
    unfold Memory.free at freed
    split at freed
    · exact (Except.ok.inj freed).symm
    · cases freed
  refine owns.left erased ?_ ?_ rfl
  · have whole : GheapCtx.contents (rest + 1)
        ((heapCtx mgr.timers).poppedHeap mgr.timerQ.base (rest + 1)) =
        GheapCtx.contents rest ((heapCtx mgr.timers).poppedHeap mgr.timerQ.base (rest + 1)) ++
          [.some tim] := by
      rw [GheapCtx.contents, List.range_succ, List.map_append, List.map_singleton, last]
      rfl
    have perm := moves.1
    rw [whole, ← GpriorityQueue.items_eq_contents size] at perm
    exact (List.perm_append_singleton _ _).symm.trans perm
  · exact ⟨(Nat.le_of_succ_le size.ge).trans owns.sized.1, owns.sized.2⟩

theorem Owns.perform (owns : mgr.Owns) {call : TimerCall}
    (returned : mgr.perform env call = .ok after) : after.Owns := by
  cases call with
  | schedule tv cb context =>
    obtain ⟨⟨done, later⟩, scheduled, returned⟩ := Exec.bind_eq_ok.mp returned
    cases returned
    exact owns.schedule scheduled
  | scheduleMs ms cb context =>
    obtain ⟨⟨done, later⟩, scheduled, returned⟩ := Exec.bind_eq_ok.mp returned
    cases returned
    exact owns.schedule scheduled
  | cancel tim =>
    obtain ⟨result, cancelled, returned⟩ := Exec.bind_eq_ok.mp returned
    cases returned
    exact owns.cancel cancelled
  | stop =>
    cases returned
    exact owns.of_eq rfl (fun _ => Iff.rfl) (List.Perm.refl _) owns.sized rfl rfl

theorem Owns.performAll (owns : mgr.Owns) {calls : List TimerCall}
    (returned : calls.foldlM (TimerManager.perform env) mgr = .ok after) : after.Owns := by
  induction calls generalizing mgr with
  | nil =>
    cases returned
    exact owns
  | cons call calls inductionHypothesis =>
    rw [List.foldlM_cons] at returned
    obtain ⟨next, performed, rest⟩ := Exec.bind_eq_ok.mp returned
    exact inductionHypothesis (owns.perform performed) rest

theorem Owns.exec (owns : mgr.Owns) {slot : Nat} (returned : mgr.execSlot env slot = .ok after) :
    after.Owns := by
  obtain ⟨tim, _, returned⟩ := Exec.bind_eq_ok.mp returned
  obtain ⟨timer, _, returned⟩ := Exec.bind_eq_ok.mp returned
  have called : ({ mgr with
      trace := mgr.trace ++ [.called timer.cb tim mgr.queued] } : TimerManager).Owns := by
    refine owns.of_eq rfl (fun _ => Iff.rfl) (List.Perm.refl _) owns.sized ?_ ?_
    · rw [scheduledOf_append]
      exact List.append_nil _
    · rw [destroyedOf_append]
      exact List.append_nil _
  exact called.performAll returned

theorem Owns.pending (owns : mgr.Owns) {bound : Nat} {result : PendingResult}
    (returned : mgr.pendingTimers env bound = .ok (result, after)) : after.Owns := by
  induction bound generalizing mgr with
  | zero => cases returned
  | succ bound inductionHypothesis =>
    cases pendingTimers_turned returned with
    | stopped => exact owns
    | refused => exact owns.asked
    | empty => exact owns.asked.asked
    | waits => exact owns.asked.asked
    | popped _ pop => exact (owns.asked.pop pop).asked
    | fired _ pop exec rest =>
      exact inductionHypothesis ((owns.asked.pop pop).asked.exec exec) rest

theorem Owns.step (owns : mgr.Owns) {label : TimerStep}
    (returned : anyhow.step mgr label = .ok after) : after.Owns := by
  cases label with
  | elapse env bound now =>
    obtain ⟨result, pending, returned⟩ := Exec.bind_eq_ok.mp returned
    cases returned
    have later : ({ mgr with last := now } : TimerManager).Owns :=
      owns.of_eq rfl (fun _ => Iff.rfl) (List.Perm.refl _) owns.sized rfl rfl
    exact later.pending pending
  | call env call => exact owns.perform returned

end Steps

section Runs

variable {labels : List TimerStep} {now : Timeval}

theorem owns_new (now : Timeval) : (new now).Owns := by
  refine ⟨List.Perm.refl _, List.nodup_nil, fun _ member => absurd member List.not_mem_nil, ?_,
    Nat.zero_le _, Nat.one_pos, (by decide : 1 ≤ sizeMax)⟩
  intro tim
  refine iff_of_false ?_ fun ⟨below, _⟩ => Nat.not_lt_zero _ below
  rintro ⟨cell, found⟩
  cases found

theorem timerDel_all {slots : List (Option Nat)}
    (queued : ∀ slot ∈ slots, ∃ tim, slot = some tim ∧ mgr.timers.Live tim) (once : slots.Nodup) :
    ∃ final, slots.foldlM timerDel mgr = .ok final ∧
      (destroyedOf final.trace).map some = (destroyedOf mgr.trace).map some ++ slots ∧
      scheduledOf final.trace = scheduledOf mgr.trace ∧ final.timers.fresh = mgr.timers.fresh ∧
      ∀ tim, final.timers.Live tim ↔ mgr.timers.Live tim ∧ some tim ∉ slots := by
  induction slots generalizing mgr with
  | nil => exact ⟨mgr, rfl, (List.append_nil _).symm, rfl, rfl, by simp⟩
  | cons slot slots inductionHypothesis =>
    obtain ⟨tim, rfl, cell, found⟩ := queued _ List.mem_cons_self
    obtain ⟨missing, onceRest⟩ := List.nodup_cons.mp once
    let next : TimerManager := { mgr with
      timers := mgr.timers.erase tim, trace := mgr.trace ++ [.destroyed tim] }
    have queuedRest : ∀ slot ∈ slots, ∃ tim, slot = some tim ∧ next.timers.Live tim := by
      intro slot member
      obtain ⟨other, rfl, live⟩ := queued slot (List.mem_cons_of_mem _ member)
      refine ⟨other, rfl, live.erase ?_⟩
      rintro rfl
      exact missing member
    obtain ⟨final, folded, destroyed, scheduled, fresh, live⟩ :=
      inductionHypothesis queuedRest onceRest
    have freed : mgr.timerDel (some tim) = .ok next := by
      simp only [timerDel, Memory.free_of_some found, Exec.ok_bind, Exec.pure_eq_ok]
      rfl
    refine ⟨final, ?_, ?_, ?_, fresh, ?_⟩
    · rw [List.foldlM_cons, freed, Exec.ok_bind, folded]
    · rw [destroyed, destroyedOf_append, List.map_append, List.append_assoc]
      rfl
    · rw [scheduled, scheduledOf_append]
      exact List.append_nil _
    · intro other
      rw [live other, List.mem_cons, not_or]
      by_cases here : other = tim
      · rw [here]
        refine iff_of_false ?_ fun ⟨_, different, _⟩ => different rfl
        rintro ⟨⟨cell, again⟩, _⟩
        cases (Memory.erase_cells_self _ _).symm.trans again
      · have kept : next.timers.Live other ↔ mgr.timers.Live other := by
          rw [Memory.Live, Memory.erase_cells_of_ne _ here]
          rfl
        have different : some other ≠ some tim := fun same => here (Option.some.inj same)
        rw [kept]
        exact and_congr_right fun _ => (and_iff_right different).symm

/-- Whatever an application does, every timer that joined the queue is destroyed once by the time
the manager is, and the timers left are those that could not join it. -/
theorem run_destroys_once (run : anyhow.Run (new now) labels mgr) :
    ∃ final, mgr.tubeManagerFinalize = .ok final ∧
      (destroyedOf final.trace).Perm (scheduledOf final.trace) ∧
      (scheduledOf final.trace).Nodup ∧
      ∀ tim, final.timers.Live tim ↔
        tim < final.timers.fresh ∧ tim ∉ scheduledOf final.trace := by
  have owns : mgr.Owns := run.preserves Owns
    (fun _ _ _ owns _ returned => owns.step returned) (owns_new now)
  obtain ⟨_, once, _⟩ := owns.destroyed_queued
  obtain ⟨final, folded, destroyed, scheduled, fresh, live⟩ :=
    @timerDel_all { mgr with keepGoing := false } mgr.timerQ.items
      (fun slot member => owns.queued member) once
  have balance : (destroyedOf final.trace).Perm (scheduledOf final.trace) := by
    have mapped := owns.balance
    rw [← show scheduledOf final.trace = scheduledOf mgr.trace from scheduled,
      ← show _ = (destroyedOf mgr.trace).map some ++ mgr.timerQ.items from destroyed] at mapped
    exact (List.map_perm_map_iff (Option.some_injective _)).mp mapped
  refine ⟨final, folded, balance, scheduled ▸ owns.once, ?_⟩
  intro tim
  rw [live tim, ← balance.mem_iff, fresh]
  change mgr.timers.Live tim ∧ _ ↔ tim < mgr.timers.fresh ∧ _
  rw [owns.live tim, and_assoc]
  refine and_congr_right fun _ => ?_
  have split : tim ∈ destroyedOf final.trace ↔
      tim ∈ destroyedOf mgr.trace ∨ some tim ∈ mgr.timerQ.items := by
    rw [← List.mem_map_of_injective (Option.some_injective _), destroyed, List.mem_append,
      List.mem_map_of_injective (Option.some_injective _)]
  rw [split, not_or]

theorem run_destroys_once_two :
    ∃ mgr final, anyhow.Run (new ⟨0, 0⟩) [.call quietEnv (.schedule ⟨5, 0⟩ 1 0),
        .call quietEnv (.schedule ⟨3, 0⟩ 2 0), .elapse quietEnv 2 ⟨4, 0⟩] mgr ∧
      mgr.tubeManagerFinalize = .ok final ∧ (destroyedOf final.trace).Perm [0, 1] := by
  obtain ⟨mgr, executed, seen⟩ := Exec.exists_of_map
    (fun mgr : TimerManager => (mgr.tubeManagerFinalize).toOption.map fun final =>
      scheduledOf final.trace)
    (show (anyhow.execute (fun _ _ => true) (new ⟨0, 0⟩) [.call quietEnv (.schedule ⟨5, 0⟩ 1 0),
      .call quietEnv (.schedule ⟨3, 0⟩ 2 0), .elapse quietEnv 2 ⟨4, 0⟩]).toOption.map _ =
        some (some [0, 1]) by decide)
  have run := System.Run.of_execute_enabled (fun _ _ _ => trivial) executed
  obtain ⟨final, finalized, destroyed, _⟩ := run_destroys_once run
  rw [finalized] at seen
  exact ⟨mgr, final, run, finalized, Option.some.inj seen ▸ destroyed⟩

end Runs

end SpudLib.TimerManager
