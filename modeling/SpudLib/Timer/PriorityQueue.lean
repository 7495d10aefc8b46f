import SpudLib.Timer.Heapify

/-!
# The priority queue of `vendor/gheap`

`gpriority_queue` keeps a heap in the first `size` slots of a block of bytes that
it believes to have room for `capacity` slots.  `gpriority_queue_top` returns the
address of a slot, not an item: what it points to is whatever the slot holds when
it is read.
-/

namespace SpudLib

/-- `struct gpriority_queue`, and the size of the block at `base`.  A slot never written holds
`none`. -/
structure GpriorityQueue (Item : Type) where
  base : Nat → Option Item
  size : Nat
  capacity : Nat
  bytes : Nat

namespace GpriorityQueue

variable {Item : Type} (ctx : GheapCtx (Option Item)) (itemSize : Nat)

/-- `gpriority_queue_create`, both allocations granted. -/
def gpriorityQueueCreate : GpriorityQueue Item := ⟨fun _ => none, 0, 1, itemSize⟩

def items (queue : GpriorityQueue Item) : List (Option Item) :=
  (List.range queue.size).map queue.base

/-- `gpriority_queue_top`: the index of the top slot. -/
def gpriorityQueueTop (queue : GpriorityQueue Item) : Option Nat :=
  if queue.size = 0 then none else some 0

/-- The end of `gpriority_queue_push`: the item is stored behind the others and sifted up. -/
def place (queue : GpriorityQueue Item) (item : Item) : Exec (Bool × GpriorityQueue Item) :=
  if queue.size < queue.capacity then
    if (queue.size + 1) * itemSize ≤ queue.bytes then do
      let base := Function.update queue.base queue.size (some item)
      let base ← ctx.gheapPushHeap base (queue.size + 1)
      pure (true, { queue with base := base, size := queue.size + 1 })
    else .error .outOfBounds
  else .error .assertFailed

/-- `gpriority_queue_push`.  A full queue doubles its capacity before it asks
for the larger block, and keeps the doubled capacity when that is refused. -/
def gpriorityQueuePush (mallocOk : Bool) (queue : GpriorityQueue Item) (item : Item) :
    Exec (Bool × GpriorityQueue Item) :=
  if queue.size = queue.capacity then
    if queue.capacity > sizeMax / 2 / itemSize then pure (false, queue)
    else
      let capacity := queue.capacity * 2 % 2 ^ 64
      let bytes := capacity * itemSize % 2 ^ 64
      if !mallocOk then pure (false, { queue with capacity := capacity })
      -- the items are copied to the new block
      else if queue.size * itemSize ≤ queue.bytes ∧ queue.size * itemSize ≤ bytes then
        place ctx itemSize { queue with capacity := capacity, bytes := bytes } item
      else .error .outOfBounds
  else place ctx itemSize queue item

/-- `gpriority_queue_pop`, up to the call of the item deleter: the removed item
is in the slot just past the shrunk heap. -/
def gpriorityQueuePop (queue : GpriorityQueue Item) : Exec (GpriorityQueue Item) :=
  if queue.size > 0 then
    if queue.size * itemSize ≤ queue.bytes then do
      let base ← ctx.gheapPopHeap queue.base queue.size
      pure { queue with base := base, size := queue.size - 1 }
    else .error .outOfBounds
  else .error .assertFailed

variable {ctx itemSize} {queue after : GpriorityQueue Item} {item : Item} {done mallocOk : Bool}

/-- What a push that returns has done: refused the item, or stored it in the block or in a
larger one. -/
inductive Pushed (ctx : GheapCtx (Option Item)) (itemSize : Nat) (mallocOk : Bool)
    (queue : GpriorityQueue Item) (item : Item) : Bool → GpriorityQueue Item → Prop where
  | excessive (full : queue.size = queue.capacity)
      (large : sizeMax / 2 / itemSize < queue.capacity) :
      Pushed ctx itemSize mallocOk queue item false queue
  | refused (full : queue.size = queue.capacity)
      (small : queue.capacity ≤ sizeMax / 2 / itemSize) (denied : mallocOk = false) :
      Pushed ctx itemSize mallocOk queue item false
        { queue with capacity := queue.capacity * 2 % 2 ^ 64 }
  | stored {after : GpriorityQueue Item} (room : queue.size ≠ queue.capacity)
      (placed : queue.place ctx itemSize item = .ok (true, after)) :
      Pushed ctx itemSize mallocOk queue item true after
  | grown {after : GpriorityQueue Item} (full : queue.size = queue.capacity)
      (small : queue.capacity ≤ sizeMax / 2 / itemSize) (granted : mallocOk = true)
      (copied : queue.size * itemSize ≤ queue.bytes ∧
        queue.size * itemSize ≤ queue.capacity * 2 % 2 ^ 64 * itemSize % 2 ^ 64)
      (placed : place ctx itemSize { queue with
        capacity := queue.capacity * 2 % 2 ^ 64
        bytes := queue.capacity * 2 % 2 ^ 64 * itemSize % 2 ^ 64 } item = .ok (true, after)) :
      Pushed ctx itemSize mallocOk queue item true after

theorem place_eq_ok : queue.place ctx itemSize item = .ok (done, after) ↔
    queue.size < queue.capacity ∧ (queue.size + 1) * itemSize ≤ queue.bytes ∧ done = true ∧
      ∃ base, ctx.gheapPushHeap (Function.update queue.base queue.size (some item))
        (queue.size + 1) = .ok base ∧
        after = { queue with base := base, size := queue.size + 1 } := by
  unfold place
  split_ifs with below fits
  · rw [Exec.bind_eq_ok]
    constructor
    · rintro ⟨base, sifted, returned⟩
      cases returned
      exact ⟨below, fits, rfl, base, sifted, rfl⟩
    · rintro ⟨_, _, rfl, base, sifted, rfl⟩
      exact ⟨base, sifted, rfl⟩
  · exact iff_of_false nofun fun stored => fits stored.2.1
  · exact iff_of_false nofun fun stored => below stored.1

theorem gpriorityQueuePush_eq_ok :
    queue.gpriorityQueuePush ctx itemSize mallocOk item = .ok (done, after) ↔
      Pushed ctx itemSize mallocOk queue item done after := by
  unfold gpriorityQueuePush
  dsimp only
  constructor
  · intro returned
    split_ifs at returned with full large refused copied
    · cases returned
      exact .excessive full large
    · cases returned
      exact .refused full (Nat.le_of_not_lt large) ((Bool.not_eq_true' _).mp refused)
    · obtain ⟨_, _, rfl, _⟩ := place_eq_ok.mp returned
      rw [Bool.not_eq_true', Bool.not_eq_false] at refused
      exact .grown full (Nat.le_of_not_lt large) refused copied returned
    · obtain ⟨_, _, rfl, _⟩ := place_eq_ok.mp returned
      exact .stored full returned
  · intro pushed
    cases pushed with
    | excessive full large =>
      rw [if_pos full, if_pos large]
      rfl
    | refused full small denied =>
      rw [if_pos full, if_neg (Nat.not_lt_of_le small), if_pos ((Bool.not_eq_true' _).mpr denied)]
      rfl
    | stored room placed =>
      rw [if_neg room]
      exact placed
    | grown full small granted copied placed =>
      rw [if_pos full, if_neg (Nat.not_lt_of_le small), granted, Bool.not_true,
        if_neg Bool.false_ne_true, if_pos copied]
      exact placed

theorem gpriorityQueuePop_eq_ok : queue.gpriorityQueuePop ctx itemSize = .ok after ↔
    0 < queue.size ∧ queue.size * itemSize ≤ queue.bytes ∧
      ∃ base, ctx.gheapPopHeap queue.base queue.size = .ok base ∧
        after = { queue with base := base, size := queue.size - 1 } := by
  unfold gpriorityQueuePop
  split_ifs with some fits
  · rw [Exec.bind_eq_ok]
    constructor
    · rintro ⟨base, popped, returned⟩
      cases returned
      exact ⟨some, fits, base, popped, rfl⟩
    · rintro ⟨_, _, base, popped, rfl⟩
      exact ⟨base, popped, rfl⟩
  · exact iff_of_false nofun fun popped => fits popped.2.1
  · exact iff_of_false nofun fun popped => some popped.1

section Blocks

/-- The block has room for all that the queue believes it to have room for: no larger one was
refused. -/
structure BlockOk (itemSize : Nat) (queue : GpriorityQueue Item) : Prop where
  positive : 0 < queue.capacity
  inside : queue.size ≤ queue.capacity
  room : queue.capacity * itemSize ≤ queue.bytes
  addressable : queue.bytes ≤ sizeMax / 2

theorem BlockOk.push (block : queue.BlockOk itemSize) (ctx : GheapCtx (Option Item))
    (sized : 0 < itemSize) (item : Item) :
    ∃ capacity bytes, queue.gpriorityQueuePush ctx itemSize true item =
        place ctx itemSize { queue with capacity := capacity, bytes := bytes } item ∧
      queue.size < capacity ∧ (queue.size + 1) * itemSize ≤ bytes ∧ bytes ≤ sizeMax := by
  obtain ⟨positive, inside, room, addressable⟩ := block
  by_cases full : queue.size = queue.capacity
  · have small : queue.capacity ≤ sizeMax / 2 / itemSize :=
      (Nat.le_div_iff_mul_le sized).mpr (room.trans addressable)
    have doubled : queue.capacity * 2 * itemSize ≤ sizeMax := by
      rw [Nat.mul_right_comm]
      exact Nat.mul_le_of_le_div 2 _ _ (room.trans addressable)
    have capacity : queue.capacity * 2 % 2 ^ 64 = queue.capacity * 2 := Nat.mod_eq_of_lt
      (Nat.lt_of_le_of_lt ((Nat.le_mul_of_pos_right _ sized).trans doubled) (by decide))
    have bytes : queue.capacity * 2 * itemSize % 2 ^ 64 = queue.capacity * 2 * itemSize :=
      Nat.mod_eq_of_lt (Nat.lt_of_le_of_lt doubled (by decide))
    have copied : queue.size * itemSize ≤ queue.bytes ∧
        queue.size * itemSize ≤ queue.capacity * 2 * itemSize :=
      ⟨(Nat.mul_le_mul_right _ inside).trans room, Nat.mul_le_mul_right _ (by omega)⟩
    refine ⟨queue.capacity * 2, queue.capacity * 2 * itemSize, ?_, by omega,
      Nat.mul_le_mul_right _ (by omega), doubled⟩
    rw [gpriorityQueuePush, if_pos full, if_neg (Nat.not_lt_of_le small)]
    simp only [capacity, bytes, copied, Bool.not_true, Bool.false_eq_true, if_false, and_self,
      if_true]
  · exact ⟨queue.capacity, queue.bytes, if_neg full, by omega,
      (Nat.mul_le_mul_right _ (by omega)).trans room, addressable.trans (Nat.div_le_self _ _)⟩

end Blocks

section Heaps

variable {InUse : Option Item → Prop}

theorem items_eq_contents {size : Nat} (same : queue.size = size) :
    queue.items = GheapCtx.contents size queue.base := by
  rw [items, same]
  rfl

theorem contents_stored (queue : GpriorityQueue Item) (item : Item) :
    (GheapCtx.contents (queue.size + 1)
      (Function.update queue.base queue.size (some item))).Perm (some item :: queue.items) := by
  have whole : GheapCtx.contents (queue.size + 1)
      (Function.update queue.base queue.size (some item)) = queue.items ++ [some item] := by
    rw [GheapCtx.contents, List.range_succ, List.map_append, List.map_singleton,
      Function.update_self]
    refine congrArg (· ++ _) (List.map_congr_left fun u member => ?_)
    exact Function.update_of_ne (Nat.ne_of_lt (List.mem_range.mp member)) ..
  rw [whole]
  exact List.perm_append_singleton _ _

theorem gheapPushHeap_stored (indexes : ctx.Indexes (queue.size + 1)) (orders : ctx.Orders InUse)
    (used : ∀ u < queue.size, InUse (queue.base u)) (usedItem : InUse (some item))
    (heap : ctx.GheapIsHeap queue.base queue.size) :
    ∃ base, ctx.gheapPushHeap (Function.update queue.base queue.size (some item))
        (queue.size + 1) = .ok base ∧ ctx.GheapIsHeap base (queue.size + 1) ∧
      (∀ u < queue.size + 1, InUse (base u)) ∧
      (GheapCtx.contents (queue.size + 1) base).Perm (some item :: queue.items) := by
  let stored := Function.update queue.base queue.size (some item)
  have same : ∀ u < queue.size, stored u = queue.base u :=
    fun u inside => Function.update_of_ne (Nat.ne_of_lt inside) ..
  have usedStored : ∀ u < queue.size + 1, InUse (stored u) := by
    intro u inside
    rcases Nat.lt_succ_iff_lt_or_eq.mp inside with before | rfl
    · rw [same u before]
      exact used u before
    · rw [show stored queue.size = some item from Function.update_self ..]
      exact usedItem
  have heapStored : ctx.GheapIsHeap stored queue.size := by
    intro u positive inside
    rw [same u inside, same _ (Nat.lt_trans (indexes.descends u positive) inside)]
    exact heap u positive inside
  obtain ⟨base, pushed, heapAfter, perm⟩ :=
    GheapCtx.gheapPushHeap_ok indexes orders usedStored heapStored
  exact ⟨base, pushed, heapAfter, GheapCtx.inUse_of_perm perm usedStored,
    perm.trans (contents_stored queue item)⟩

end Heaps

end GpriorityQueue

end SpudLib
