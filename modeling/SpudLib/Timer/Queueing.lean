import SpudLib.Timer.Expiry

/-!
# The queue of a manager

`_timer_less` orders the slots that hold timers, so that the operations on a
manager's queue keep it in heap order: a timer that is scheduled joins it, one
that is cancelled changes its place, and a pop takes out the earliest.
-/

namespace SpudLib.TimerManager

section Heap

theorem heapCtx_indexes (timers : Memory LsTimer) {heapSize : Nat} (small : heapSize ≤ sizeMax) :
    (heapCtx timers).Indexes heapSize := by
  have fanout : (heapCtx timers).fanout = 2 := rfl
  have pageChunks : (heapCtx timers).pageChunks = 512 := rfl
  have limit : sizeMax = 18446744073709551615 := rfl
  rw [limit] at small
  constructor
  · rw [fanout]
    omega
  · exact parentIndex_lt timers
  · intro u
    simp only [GheapCtx.gheapGetChildIndex, fanout, pageChunks, limit]
    split_ifs <;> omega
  · intro u v positive inside
    simp only [GheapCtx.gheapGetParentIndex, GheapCtx.gheapGetChildIndex, fanout, pageChunks, limit]
    split_ifs <;> omega
  · intro u
    simp only [GheapCtx.gheapGetChildIndex, fanout, pageChunks, limit]
    split_ifs <;> omega
  · intro u
    simp only [GheapCtx.gheapGetChildIndex, fanout, pageChunks, limit]
    split_ifs <;> omega
  · intro u
    simp only [GheapCtx.gheapGetChildIndex, fanout, pageChunks, limit]
    split_ifs <;> omega
  · intro unpaged
    cases unpaged

theorem after_asymm {a b : Timeval} (later : a.After b) : ¬ b.After a := by
  rw [Timeval.after_iff] at *
  omega

theorem heapCtx_orders (timers : Memory LsTimer) :
    (heapCtx timers).Orders (HoldsTimer timers) := by
  constructor
  · rintro _ _ ⟨a, first, rfl, foundA⟩ ⟨b, second, rfl, foundB⟩ less
    refine (timerLess_iff timers foundB foundA).mpr (after_asymm ?_)
    by_contra ordered
    cases less.symm.trans ((timerLess_iff timers foundA foundB).mpr ordered)
  · rintro _ _ _ ⟨a, first, rfl, foundA⟩ ⟨b, second, rfl, foundB⟩ ⟨c, third, rfl, foundC⟩ ab bc
    exact (timerLess_iff timers foundA foundC).mpr
      (Timeval.not_after_trans ((timerLess_iff timers foundA foundB).mp ab)
        ((timerLess_iff timers foundB foundC).mp bc))

theorem isHeap_of_same {timers later : Memory LsTimer} {base : Nat → Option Nat} {heapSize : Nat}
    (same : ∀ u < heapSize, ∃ tim timer, base u = some tim ∧ timers.cells tim = some timer ∧
      later.cells tim = some timer) (heap : (heapCtx timers).GheapIsHeap base heapSize) :
    (heapCtx later).GheapIsHeap base heapSize := by
  intro u positive inside
  obtain ⟨tim, timer, slot, found, foundLater⟩ := same u inside
  obtain ⟨above, top, slotAbove, foundAbove, foundAboveLater⟩ :=
    same _ (Nat.lt_trans (parentIndex_lt timers u positive) inside)
  have edge := heap u positive inside
  rw [slot, slotAbove] at edge
  change timerLess later (base ((heapCtx timers).gheapGetParentIndex u)) (base u) = false
  rw [slot, slotAbove, timerLess_iff later foundAboveLater foundLater]
  exact (timerLess_iff timers foundAbove found).mp edge

end Heap

section Calls

variable {mgr after : TimerManager} {env : TimerEnv} {tim : Nat}

/-- A timer whose address takes the slot behind a valid queue joins it. -/
theorem QueueOk.push (ok : mgr.QueueOk) (short : mgr.timerQ.size + 1 ≤ sizeMax) {timer : LsTimer}
    (found : mgr.timers.cells tim = some timer) :
    ∃ base, (heapCtx mgr.timers).gheapPushHeap
        (Function.update mgr.timerQ.base mgr.timerQ.size (some tim)) (mgr.timerQ.size + 1) =
        .ok base ∧
      (heapCtx mgr.timers).GheapIsHeap base (mgr.timerQ.size + 1) ∧
      (∀ u < mgr.timerQ.size + 1, HoldsTimer mgr.timers (base u)) ∧
      (GheapCtx.contents (mgr.timerQ.size + 1) base).Perm (some tim :: mgr.timerQ.items) :=
  GpriorityQueue.gheapPushHeap_stored (heapCtx_indexes mgr.timers short)
    (heapCtx_orders mgr.timers) ok.allocated ⟨tim, timer, rfl, found⟩ ok.heap

theorem QueueOk.place (ok : mgr.QueueOk) {timer : LsTimer}
    (found : mgr.timers.cells tim = some timer) (below : mgr.timerQ.size < mgr.timerQ.capacity)
    (fits : (mgr.timerQ.size + 1) * itemSize ≤ mgr.timerQ.bytes)
    (addressable : mgr.timerQ.bytes ≤ sizeMax) :
    ∃ base, mgr.timerQ.place (heapCtx mgr.timers) itemSize tim =
        .ok (true, { mgr.timerQ with base := base, size := mgr.timerQ.size + 1 }) ∧
      QueueOk { mgr with
        timerQ := { mgr.timerQ with base := base, size := mgr.timerQ.size + 1 } } ∧
      (GheapCtx.contents (mgr.timerQ.size + 1) base).Perm (some tim :: mgr.timerQ.items) := by
  have short : mgr.timerQ.size + 1 ≤ sizeMax :=
    ((Nat.le_mul_of_pos_right _ (by decide : 0 < itemSize)).trans fits).trans addressable
  obtain ⟨base, pushed, heap, allocated, perm⟩ := ok.push short found
  exact ⟨base, GpriorityQueue.place_eq_ok.mpr ⟨below, fits, rfl, base, pushed, rfl⟩,
    ⟨allocated, heap⟩, perm⟩

theorem QueueOk.congr (ok : mgr.QueueOk) (timers : after.timers = mgr.timers)
    (timerQ : after.timerQ = mgr.timerQ) : after.QueueOk := by
  obtain ⟨allocated, heap⟩ := ok
  cases after
  subst timers timerQ
  exact ⟨allocated, heap⟩

theorem QueueOk.alloc (ok : mgr.QueueOk) (timer : LsTimer) :
    QueueOk { mgr with timers := mgr.timers.alloc timer } := by
  have same : ∀ u < mgr.timerQ.size, ∃ tim old, mgr.timerQ.base u = some tim ∧
      mgr.timers.cells tim = some old ∧ (mgr.timers.alloc timer).cells tim = some old := by
    intro u inside
    obtain ⟨tim, old, slot, found⟩ := ok.allocated u inside
    exact ⟨tim, old, slot, found, Memory.alloc_cells_of_some _ _ found⟩
  refine ⟨?_, isHeap_of_same same ok.heap⟩
  intro u inside
  obtain ⟨tim, old, slot, _, found⟩ := same u inside
  exact ⟨tim, old, slot, found⟩

theorem QueueOk.fresh_unqueued (ok : mgr.QueueOk) : some mgr.timers.fresh ∉ mgr.timerQ.items := by
  intro queued
  obtain ⟨u, inside, slot⟩ := List.mem_map.mp queued
  obtain ⟨other, timer, held, found⟩ := ok.allocated u (List.mem_range.mp inside)
  obtain rfl := Option.some.inj (slot.symm.trans held)
  exact absurd (Memory.lt_fresh found) (Nat.lt_irrefl _)

theorem tubeManagerCancelTimer_locked {done : Bool} (ok : mgr.QueueOk)
    (small : mgr.timerQ.size ≤ sizeMax) (lock : env.lock mgr.requests = true)
    (cancelled : mgr.tubeManagerCancelTimer env tim = .ok (done, after)) :
    ∃ timer base, mgr.timers.cells tim = some timer ∧
      after = { mgr with
        timers := mgr.timers.set tim timer.lsTimerCancel
        timerQ := { mgr.timerQ with base := base }
        requests := mgr.requests + 2 } ∧
      after.QueueOk ∧ after.timerQ.items.Perm mgr.timerQ.items := by
  obtain ⟨timer, found, ⟨refused, _, _⟩ | ⟨_, _, base, made, rfl⟩⟩ :=
    tubeManagerCancelTimer_cases cancelled
  · cases refused.symm.trans lock
  · have used : ∀ u < mgr.timerQ.size,
        HoldsTimer (mgr.timers.set tim timer.lsTimerCancel) (mgr.timerQ.base u) := by
      intro u inside
      obtain ⟨other, old, slot, foundOld⟩ := ok.allocated u inside
      by_cases here : other = tim
      · exact ⟨tim, _, here ▸ slot, Memory.set_cells_self _ found⟩
      · exact ⟨other, old, slot, (Memory.set_cells_of_ne _ _ here).trans foundOld⟩
    obtain ⟨_, returned, heap, perm⟩ := GheapCtx.gheapMakeHeap_ok (heapCtx_indexes _ small)
      (heapCtx_orders (mgr.timers.set tim timer.lsTimerCancel)) used
    obtain rfl := Except.ok.inj (returned.symm.trans made)
    have allocated := @GheapCtx.inUse_of_perm _ mgr.timerQ.size mgr.timerQ.base
      (HoldsTimer (mgr.timers.set tim timer.lsTimerCancel)) _ perm used
    exact ⟨timer, _, found, rfl, ⟨allocated, heap⟩, perm⟩

/-- `tube_manager_cancel_timer` overwrites the time and makes the queue a heap again. -/
theorem tubeManagerCancelTimer_ok (ok : mgr.QueueOk) (small : mgr.timerQ.size ≤ sizeMax)
    (cancelled : mgr.tubeManagerCancelTimer env tim = .ok (true, after)) :
    ∃ timer base, mgr.timers.cells tim = some timer ∧
      after = { mgr with
        timers := mgr.timers.set tim timer.lsTimerCancel
        timerQ := { mgr.timerQ with base := base }
        requests := mgr.requests + 2 } ∧
      after.QueueOk ∧ after.timerQ.items.Perm mgr.timerQ.items := by
  refine tubeManagerCancelTimer_locked ok small ?_ cancelled
  obtain ⟨_, _, ⟨_, refused, _⟩ | ⟨granted, _, _⟩⟩ := tubeManagerCancelTimer_cases cancelled
  · cases refused
  · exact granted

structure Popped (mgr popped : TimerManager) (first : Nat) : Prop where
  queue : popped.QueueOk
  items : (some first :: popped.timerQ.items).Perm mgr.timerQ.items
  size : popped.timerQ.size + 1 = mgr.timerQ.size
  capacity : popped.timerQ.capacity = mgr.timerQ.capacity
  bytes : popped.timerQ.bytes = mgr.timerQ.bytes
  freed : popped.timerQ.base popped.timerQ.size = some first
  timers : popped.timers = mgr.timers.erase first
  trace : popped.trace = mgr.trace ++ [.destroyed first]
  last : popped.last = mgr.last
  keepGoing : popped.keepGoing = mgr.keepGoing

theorem Popped.queued {popped : TimerManager} {first other : Nat} {timer : LsTimer}
    (pop : mgr.Popped popped first) (queued : popped.Queued other timer) :
    mgr.Queued other timer ∧ other ≠ first := by
  have found := queued.2
  rw [pop.timers] at found
  have different : other ≠ first := by
    rintro rfl
    rw [Memory.erase_cells_self] at found
    cases found
  rw [Memory.erase_cells_of_ne _ different] at found
  exact ⟨⟨pop.items.mem_iff.mp (List.mem_cons_of_mem _ queued.1), found⟩, different⟩

/-- `gpriority_queue_pop` destroys the top timer and keeps the others in heap order. -/
theorem popTimer_ok (ok : mgr.QueueOk) (distinct : mgr.timerQ.items.Nodup)
    (small : mgr.timerQ.size ≤ sizeMax) (fits : mgr.timerQ.size * itemSize ≤ mgr.timerQ.bytes)
    (nonempty : mgr.timerQ.size ≠ 0) {first : Nat} (top : mgr.timerQ.base 0 = some first) :
    ∃ popped, mgr.popTimer = .ok popped ∧ mgr.Popped popped first := by
  obtain ⟨rest, size⟩ : ∃ rest, mgr.timerQ.size = rest + 1 :=
    Nat.exists_eq_succ_of_ne_zero nonempty
  have ctxIndexes := heapCtx_indexes mgr.timers (show rest ≤ sizeMax by omega)
  obtain ⟨base, returned, heap, popped, perm⟩ := GheapCtx.gheapPopHeap_ok ctxIndexes
    (heapCtx_orders mgr.timers) (size ▸ ok.allocated) (size ▸ ok.heap)
  obtain ⟨_, timer, same, found⟩ := ok.allocated 0 (by omega)
  obtain rfl := Option.some.inj (top.symm.trans same)
  rw [top] at popped perm
  rw [← GpriorityQueue.items_eq_contents size] at perm
  -- the top timer was queued once, so that the other slots do not hold it
  have others : ∀ u < rest, ∃ tim timer, base u = some tim ∧
      mgr.timers.cells tim = some timer ∧ (mgr.timers.erase first).cells tim = some timer := by
    intro u inside
    have member : base u ∈ GheapCtx.contents rest base := GheapCtx.mem_contents inside
    obtain ⟨v, inRange, slot⟩ := List.mem_map.mp
      (perm.mem_iff.mp (List.mem_cons_of_mem _ member))
    obtain ⟨other, old, held, foundOld⟩ := ok.allocated v (List.mem_range.mp inRange)
    refine ⟨other, old, slot.symm.trans held, foundOld, ?_⟩
    refine (Memory.erase_cells_of_ne _ ?_).trans foundOld
    rintro rfl
    have once := perm.nodup_iff.mpr distinct
    rw [← slot, held] at member
    exact (List.nodup_cons.mp once).1 member
  have pop : mgr.timerQ.gpriorityQueuePop (heapCtx mgr.timers) itemSize =
      .ok { mgr.timerQ with base := base, size := rest } := by
    refine GpriorityQueue.gpriorityQueuePop_eq_ok.mpr ⟨by omega, fits, base, size ▸ returned, ?_⟩
    rw [size, Nat.add_sub_cancel]
  have allocated : ∀ u < rest, HoldsTimer (mgr.timers.erase first) (base u) := by
    intro u inside
    obtain ⟨tim, timer, slot, _, foundLater⟩ := others u inside
    exact ⟨tim, timer, slot, foundLater⟩
  exact ⟨_, popTimer_eq_ok.mpr ⟨_, first, _, pop, popped, Memory.free_of_some found, rfl⟩,
    ⟨allocated, isHeap_of_same others heap⟩, perm, size.symm, rfl, rfl, popped, rfl, rfl, rfl, rfl⟩

end Calls

end SpudLib.TimerManager
