import SpudLib.Foundation.Bags
import SpudLib.Foundation.System
import SpudLib.Timer.Paging
import SpudLib.Timer.PriorityQueue

/-!
# The block of a priority queue

`gpriority_queue` keeps its items in a block of bytes, and hands each of them to
a deleter when it leaves the queue.  A queue that outgrows its block asks for one
of twice the size; what it then believes its capacity to be and what its block
has room for are not always the same.
-/

namespace SpudLib

/-- A `struct gpriority_queue`, whether `malloc` has refused it a larger block, and the items that
were copied in and handed to the deleter. -/
structure QueueSession (Item : Type) where
  queue : GpriorityQueue Item
  refused : Bool
  history : List (BagEvent (Option Item))

def Filled {Item : Type} (slot : Option Item) : Prop := slot.isSome = true

inductive QueueCall (Item : Type) where
  | push (mallocOk : Bool) (item : Item)
  | pop

namespace QueueSession

variable {Item : Type} (ctx : GheapCtx (Option Item)) (itemSize : Nat)

def bytes (session : QueueSession Item) : Nat := session.queue.bytes

/-- `gpriority_queue_create`, both allocations granted. -/
def gpriorityQueueCreate : QueueSession Item :=
  ⟨GpriorityQueue.gpriorityQueueCreate itemSize, false, []⟩

/-- `gpriority_queue_create_from_array`, both allocations granted. -/
def gpriorityQueueCreateFromArray (array : List Item) : Exec (QueueSession Item) :=
  if array.length ≤ sizeMax / itemSize then do
    let base ← ctx.gheapMakeHeap (fun i => array[i]?) array.length
    pure ⟨⟨base, array.length, array.length, array.length * itemSize % 2 ^ 64⟩, false,
      (array.map some).map .put⟩
  else .error .assertFailed

def asks (session : QueueSession Item) : Bool :=
  session.queue.size = session.queue.capacity ∧
    session.queue.capacity ≤ sizeMax / 2 / itemSize

def gpriorityQueuePush (mallocOk : Bool) (item : Item) (session : QueueSession Item) :
    Exec (Bool × QueueSession Item) := do
  let (done, queue) ← session.queue.gpriorityQueuePush ctx itemSize mallocOk item
  pure (done, {
    queue := queue
    refused := session.refused || session.asks itemSize && !mallocOk
    history := session.history ++ if done then [.put (some item)] else [] })

def gpriorityQueuePop (session : QueueSession Item) : Exec (QueueSession Item) := do
  let queue ← session.queue.gpriorityQueuePop ctx itemSize
  pure { session with
    queue := queue
    history := session.history ++ [.taken (queue.base queue.size)] }

/-- The history of a queue that `gpriority_queue_delete` has ended. -/
def gpriorityQueueDelete (session : QueueSession Item) : List (BagEvent (Option Item)) :=
  session.history ++ session.queue.items.map .taken

def system : System (QueueSession Item) (QueueCall Item) where
  Enabled _ _ := True
  step session
    | .push mallocOk item => (session.gpriorityQueuePush ctx itemSize mallocOk item).map Prod.snd
    | .pop => session.gpriorityQueuePop ctx itemSize

inductive Created : QueueSession Item → Prop where
  | empty : Created (gpriorityQueueCreate itemSize)
  | array {array session} : gpriorityQueueCreateFromArray ctx itemSize array = .ok session →
      Created session

structure Kept (session : QueueSession Item) (slots : Nat) : Prop where
  block : session.bytes = slots * itemSize
  small : slots * itemSize ≤ sizeMax
  inside : session.queue.size ≤ slots
  /-- A capacity that was doubled in vain is twice what the block has room for. -/
  capacity : session.queue.capacity = if session.refused then slots * 2 else slots
  heap : ctx.GheapIsHeap session.queue.base session.queue.size
  filled : ∀ u < session.queue.size, Filled (session.queue.base u)
  serves : GivesGreatest ctx.Tops session.history session.queue.items

/-- The end of a push: the item is stored in the block as it is then. -/
def place (item : Item) (session : QueueSession Item) : Exec (Bool × QueueSession Item) := do
  let (done, queue) ← session.queue.place ctx itemSize item
  pure (done, { session with
    queue := queue
    history := session.history ++ if done then [.put (some item)] else [] })

variable {ctx itemSize} {session next : QueueSession Item} {slots : Nat} {mallocOk : Bool}
  {item : Item}

theorem Kept.short (kept : session.Kept ctx itemSize slots) (sized : 0 < itemSize) :
    session.queue.size ≤ sizeMax :=
  kept.inside.trans ((Nat.le_mul_of_pos_right slots sized).trans kept.small)

section Creation

theorem Created.kept (sizeable : ctx.Sizeable) (orders : ctx.Orders Filled)
    (sized : 0 < itemSize) (fits : itemSize ≤ sizeMax) (created : session.Created ctx itemSize) :
    session.Kept ctx itemSize session.queue.capacity ∧ session.refused = false := by
  cases created with
  | empty =>
    refine ⟨⟨(Nat.one_mul _).symm, ?_, Nat.zero_le _, rfl, ?_, ?_, .nil⟩, rfl⟩
    · rw [show (gpriorityQueueCreate itemSize : QueueSession Item).queue.capacity = 1 from rfl,
        Nat.one_mul]
      exact fits
    · exact fun u _ inside => absurd inside (Nat.not_lt_zero _)
    · exact fun u inside => absurd inside (Nat.not_lt_zero _)
  | @array array _ returned =>
    unfold gpriorityQueueCreateFromArray at returned
    split at returned
    next few =>
      have small := (Nat.le_div_iff_mul_le sized).mp few
      have short : array.length ≤ sizeMax := (Nat.le_mul_of_pos_right _ sized).trans small
      have used : ∀ u < array.length, Filled array[u]? :=
        fun u inside => by rw [Filled, List.getElem?_eq_getElem inside]; rfl
      obtain ⟨base, made, heap, perm⟩ :=
        GheapCtx.gheapMakeHeap_ok (GheapCtx.indexes sizeable short) orders used
      rw [made] at returned
      cases returned
      have whole : GheapCtx.contents array.length (fun i => array[i]?) = array.map some :=
        List.ext_getElem (by simp [GheapCtx.contents]) (by simp [GheapCtx.contents])
      rw [whole] at perm
      have usedAfter := GheapCtx.inUse_of_perm (perm.trans (List.Perm.of_eq whole.symm)) used
      have bytes := Nat.mod_eq_of_lt (Nat.lt_of_le_of_lt small (by decide : sizeMax < 2 ^ 64))
      have serves := (GivesGreatest.nil : GivesGreatest ctx.Tops [] 0).puts (array.map some)
      rw [add_zero, List.nil_append, ← Multiset.coe_eq_coe.mpr perm] at serves
      exact ⟨⟨bytes, small, Nat.le_refl _, rfl, heap, usedAfter, serves⟩, rfl⟩
    next => cases returned

end Creation

section Pushes

/-- The item of a block with room for it joins the queue. -/
theorem Kept.place_ok (sizeable : ctx.Sizeable)
    (orders : ctx.Orders Filled) (sized : 0 < itemSize)
    (kept : session.Kept ctx itemSize slots) (room : session.queue.size < slots) (item : Item) :
    ∃ next, session.place ctx itemSize item = .ok (true, next) ∧ next.Kept ctx itemSize slots ∧
      next.refused = session.refused := by
  have below : session.queue.size < session.queue.capacity := by
    rw [kept.capacity]
    split_ifs <;> omega
  have fits : (session.queue.size + 1) * itemSize ≤ session.queue.bytes := by
    rw [show session.queue.bytes = slots * itemSize from kept.block]
    exact Nat.mul_le_mul_right _ room
  have short : session.queue.size + 1 ≤ sizeMax :=
    room.trans_le ((Nat.le_mul_of_pos_right slots sized).trans kept.small)
  obtain ⟨base, pushed, heap, filled, perm⟩ := @GpriorityQueue.gheapPushHeap_stored _ ctx
    session.queue item Filled (GheapCtx.indexes sizeable short) orders kept.filled rfl kept.heap
  have stored := GpriorityQueue.place_eq_ok.mpr ⟨below, fits, rfl, base, pushed, rfl⟩
  have serves := kept.serves.put (some item)
  rw [Multiset.cons_coe, ← Multiset.coe_eq_coe.mpr perm] at serves
  have placed : session.place ctx itemSize item = .ok (true, { session with
      queue := { session.queue with base := base, size := session.queue.size + 1 }
      history := session.history ++ [.put (some item)] }) := by
    rw [place, stored]
    rfl
  exact ⟨_, placed, ⟨kept.block, kept.small, room, kept.capacity, heap, filled, serves⟩, rfl⟩

/-- A block without room for one more item is overrun, unless the queue knows. -/
theorem Kept.place_full (sized : 0 < itemSize) (kept : session.Kept ctx itemSize slots)
    (full : session.queue.size = slots) (item : Item) :
    session.place ctx itemSize item =
      .error (if session.queue.size < session.queue.capacity then .outOfBounds
        else .assertFailed) := by
  unfold place GpriorityQueue.place
  split_ifs with below fits
  · rw [show session.queue.bytes = slots * itemSize from kept.block, full] at fits
    exact absurd (Nat.le_of_mul_le_mul_right fits sized) (Nat.not_succ_le_self _)
  · rfl
  · rfl

theorem Kept.capacity_eq (kept : session.Kept ctx itemSize slots)
    (known : session.queue.size = session.queue.capacity) : session.queue.capacity = slots := by
  have inside := kept.inside
  have capacity := kept.capacity
  split_ifs at capacity <;> omega

inductive Growth (ctx : GheapCtx (Option Item)) (itemSize slots : Nat) (mallocOk : Bool)
    (item : Item) (session : QueueSession Item) : Prop where
  | excessive (positive : slots ≠ 0)
      (same : session.gpriorityQueuePush ctx itemSize mallocOk item = .ok (false, session))
  | granted (grown : QueueSession Item) (asked : mallocOk = true)
      (placed : session.gpriorityQueuePush ctx itemSize mallocOk item =
        grown.place ctx itemSize item)
      (kept : grown.Kept ctx itemSize (slots * 2)) (size : grown.queue.size = slots)
      (capacity : grown.queue.capacity = slots * 2) (refused : grown.refused = session.refused)
  | refused (next : QueueSession Item) (asked : mallocOk = false)
      (returned : session.gpriorityQueuePush ctx itemSize mallocOk item = .ok (false, next))
      (kept : next.Kept ctx itemSize slots) (refused : next.refused = true)

theorem Kept.growth (kept : session.Kept ctx itemSize slots) (sized : 0 < itemSize)
    (known : session.queue.size = session.queue.capacity) (mallocOk : Bool) (item : Item) :
    session.Growth ctx itemSize slots mallocOk item := by
  have capacity := kept.capacity_eq known
  by_cases excessive : session.queue.capacity > sizeMax / 2 / itemSize
  · refine .excessive (capacity ▸ Nat.ne_of_gt (Nat.zero_lt_of_lt excessive)) ?_
    have content : session.asks itemSize = false := by
      rw [asks, decide_eq_false_iff_not]
      exact fun asking => Nat.not_le_of_lt excessive asking.2
    have returned : session.queue.gpriorityQueuePush ctx itemSize mallocOk item =
        .ok (false, session.queue) := (if_pos known).trans (if_pos excessive)
    rw [gpriorityQueuePush, returned, content]
    simp
  · have fits : slots * 2 * itemSize ≤ sizeMax := by
      have half := (Nat.le_div_iff_mul_le sized).mp (Nat.le_of_not_lt excessive)
      rw [capacity] at half
      have twice := Nat.mul_le_of_le_div 2 _ _ half
      rwa [Nat.mul_right_comm]
    have unwrapped : slots * 2 * itemSize % 2 ^ 64 = slots * 2 * itemSize :=
      Nat.mod_eq_of_lt (Nat.lt_of_le_of_lt fits (by decide))
    have small : slots * 2 % 2 ^ 64 = slots * 2 := Nat.mod_eq_of_lt (Nat.lt_of_le_of_lt
      ((Nat.le_mul_of_pos_right _ sized).trans fits) (by decide))
    have pushed : session.queue.gpriorityQueuePush ctx itemSize mallocOk item = _ :=
      (if_pos known).trans (if_neg excessive)
    rw [capacity, small] at pushed
    dsimp only at pushed
    rw [unwrapped] at pushed
    have asking : session.asks itemSize = true := by
      rw [asks, decide_eq_true_iff]
      exact ⟨known, Nat.le_of_not_lt excessive⟩
    have doubled : slots * 2 = if session.refused then slots * 2 * 2 else slots * 2 := by
      have known' := kept.capacity
      rw [capacity] at known'
      split_ifs at known' ⊢ <;> omega
    cases mallocOk with
    | true =>
      have inside : session.queue.size * itemSize ≤ session.queue.bytes ∧
          session.queue.size * itemSize ≤ slots * 2 * itemSize := by
        rw [show session.queue.bytes = slots * itemSize from kept.block]
        have inside := kept.inside
        exact ⟨Nat.mul_le_mul_right _ inside, Nat.mul_le_mul_right _ (by omega)⟩
      rw [Bool.not_true, if_neg Bool.false_ne_true, if_pos inside] at pushed
      refine .granted { session with queue := { session.queue with
        capacity := slots * 2
        bytes := slots * 2 * itemSize } } rfl ?_ ⟨rfl, fits, ?_, doubled, kept.heap, kept.filled,
        kept.serves⟩ (known.trans capacity) rfl rfl
      · rw [gpriorityQueuePush, pushed, place]
        simp only [Bool.not_true, Bool.and_false, Bool.or_false]
      · have inside := kept.inside
        dsimp only
        omega
    | false =>
      rw [Bool.not_false, if_pos rfl] at pushed
      refine .refused { session with
        queue := { session.queue with capacity := slots * 2 }
        refused := true } rfl ?_ ⟨kept.block, kept.small, kept.inside, rfl, kept.heap,
        kept.filled, kept.serves⟩ rfl
      rw [gpriorityQueuePush, pushed, asking]
      simp

theorem gpriorityQueuePush_unfull (unfull : session.queue.size ≠ session.queue.capacity)
    (mallocOk : Bool) (item : Item) :
    session.gpriorityQueuePush ctx itemSize mallocOk item =
      session.place ctx itemSize item := by
  have content : session.asks itemSize = false := by
    rw [asks, decide_eq_false_iff_not]
    exact fun asking => unfull asking.1
  have placed : session.queue.gpriorityQueuePush ctx itemSize mallocOk item =
      session.queue.place ctx itemSize item := if_neg unfull
  rw [gpriorityQueuePush, placed, content, place]
  simp only [Bool.false_and, Bool.or_false]

/-- A push that returns keeps the queue, and the block if a larger one was refused before. -/
theorem Kept.pushed (sizeable : ctx.Sizeable)
    (orders : ctx.Orders Filled) (sized : 0 < itemSize)
    (kept : session.Kept ctx itemSize slots) {done : Bool}
    (returned : session.gpriorityQueuePush ctx itemSize mallocOk item = .ok (done, next)) :
    ∃ room, next.Kept ctx itemSize room ∧
      (session.refused = true → next.refused = true ∧ room = slots) ∧ (0 < slots ↔ 0 < room) := by
  by_cases known : session.queue.size = session.queue.capacity
  · cases kept.growth sized known mallocOk item with
    | excessive _ same =>
      cases same.symm.trans returned
      exact ⟨slots, kept, fun refused => ⟨refused, rfl⟩, Iff.rfl⟩
    | granted grown asked placed keptGrown size capacity refused =>
      rw [placed] at returned
      by_cases room : grown.queue.size < slots * 2
      · obtain ⟨_, stored, keptNext, same⟩ := keptGrown.place_ok sizeable orders sized room item
        cases stored.symm.trans returned
        refine ⟨slots * 2, keptNext, ?_, by omega⟩
        -- a queue that was refused more has no capacity to double
        intro before
        have doubled := kept.capacity
        rw [if_pos before, kept.capacity_eq known] at doubled
        omega
      · have full := keptGrown.place_full sized (Nat.le_antisymm keptGrown.inside
          (Nat.le_of_not_lt room)) item
        cases full.symm.trans returned
    | refused _ asked returned' keptNext refused =>
      cases returned'.symm.trans returned
      exact ⟨slots, keptNext, fun _ => ⟨refused, rfl⟩, Iff.rfl⟩
  · rw [gpriorityQueuePush_unfull known] at returned
    by_cases room : session.queue.size < slots
    · obtain ⟨_, stored, keptNext, same⟩ := kept.place_ok sizeable orders sized room item
      cases stored.symm.trans returned
      exact ⟨slots, keptNext, fun before => ⟨same.trans before, rfl⟩, Iff.rfl⟩
    · have full := kept.place_full sized (Nat.le_antisymm kept.inside (Nat.le_of_not_lt room)) item
      cases full.symm.trans returned

/-- How a push can fail to return. -/
theorem Kept.push_fault (sizeable : ctx.Sizeable)
    (orders : ctx.Orders Filled) (sized : 0 < itemSize)
    (kept : session.Kept ctx itemSize slots) (mallocOk : Bool) (item : Item) :
    Exec.fault? (session.gpriorityQueuePush ctx itemSize mallocOk item) =
      if slots = 0 then if mallocOk then some .assertFailed else none
      else if session.refused = true ∧ session.queue.size = slots then some .outOfBounds
      else none := by
  have capacity := kept.capacity
  have inside := kept.inside
  by_cases known : session.queue.size = session.queue.capacity
  · have same := kept.capacity_eq known
    have unrefused : slots ≠ 0 → session.refused = false := by
      intro positive
      cases refused : session.refused with
      | false => rfl
      | true =>
        rw [refused, if_pos rfl] at capacity
        omega
    cases kept.growth sized known mallocOk item with
    | excessive positive returned =>
      rw [returned, if_neg positive, unrefused positive, if_neg (by simp)]
      rfl
    | granted grown asked placed keptGrown size capacity refused =>
      rw [placed, asked]
      by_cases empty : slots = 0
      · rw [if_pos empty, keptGrown.place_full sized (by omega), if_neg (by omega)]
        rfl
      · obtain ⟨_, stored, _⟩ := keptGrown.place_ok sizeable orders sized (by omega) item
        rw [stored, if_neg empty, if_neg]
        · rfl
        · rw [unrefused empty]
          simp
    | refused _ asked returned keptNext refused =>
      rw [returned, asked]
      by_cases empty : slots = 0
      · rw [if_pos empty]
        rfl
      · rw [if_neg empty, unrefused empty, if_neg (by simp)]
        rfl
  · have positive : slots ≠ 0 := by
      intro empty
      split_ifs at capacity <;> omega
    rw [gpriorityQueuePush_unfull known, if_neg positive]
    by_cases room : session.queue.size < slots
    · obtain ⟨_, stored, _⟩ := kept.place_ok sizeable orders sized room item
      rw [stored, if_neg (by omega)]
      rfl
    · have full : session.queue.size = slots := by omega
      have refused : session.refused = true := by
        by_contra granted
        rw [if_neg granted] at capacity
        omega
      rw [kept.place_full sized full, if_pos, if_pos ⟨refused, full⟩]
      · rfl
      · rw [capacity, if_pos refused]
        omega

end Pushes

section Pops

/-- A pop of a queue that is not empty takes out an item that none exceeds. -/
theorem Kept.pop_ok (sizeable : ctx.Sizeable) (orders : ctx.Orders Filled) (sized : 0 < itemSize)
    (kept : session.Kept ctx itemSize slots) (some : 0 < session.queue.size) :
    ∃ next, session.gpriorityQueuePop ctx itemSize = .ok next ∧ next.Kept ctx itemSize slots ∧
      next.refused = session.refused := by
  have fits : session.queue.size * itemSize ≤ session.queue.bytes := by
    rw [show session.queue.bytes = slots * itemSize from kept.block]
    exact Nat.mul_le_mul_right _ kept.inside
  have short := kept.short sized
  obtain ⟨rest, size⟩ : ∃ rest, session.queue.size = rest + 1 :=
    Nat.exists_eq_succ_of_ne_zero (Nat.ne_of_gt some)
  have indexes := @GheapCtx.indexes _ ctx sizeable (rest + 1) (size ▸ short)
  obtain ⟨base, returned, heap, popped, perm⟩ := GheapCtx.gheapPopHeap_ok
    (@GheapCtx.indexes _ ctx sizeable rest (by omega)) orders (size ▸ kept.filled)
    (size ▸ kept.heap)
  have filled : ∀ u < rest, Filled (base u) := by
    intro u inside
    obtain ⟨v, member, same⟩ := List.mem_map.mp
      (perm.subset (List.mem_cons_of_mem _ (GheapCtx.mem_contents inside)))
    exact same ▸ kept.filled v (size ▸ List.mem_range.mp member)
  have serves := kept.serves
  rw [GpriorityQueue.items_eq_contents size, ← Multiset.coe_eq_coe.mpr perm,
    ← Multiset.cons_coe] at serves
  have taken := serves.take _ fun other member => by
    obtain ⟨v, among, same⟩ := List.mem_map.mp (perm.subset (Multiset.mem_coe.mp member))
    rw [← same]
    exact GheapCtx.GheapIsHeap.root_greatest (size ▸ kept.heap)
      (fun u positive => indexes.descends u positive) Filled (size ▸ kept.filled)
      (fun a used => orders.refl used)
      (fun a b c usedA usedB usedC => orders.transitive usedA usedB usedC)
      (List.mem_range.mp among)
  have pop : session.queue.gpriorityQueuePop ctx itemSize =
      .ok { session.queue with base := base, size := rest } := by
    refine GpriorityQueue.gpriorityQueuePop_eq_ok.mpr ⟨some, fits, base, size ▸ returned, ?_⟩
    rw [size, Nat.add_sub_cancel]
  have inside : rest ≤ slots := (Nat.le_of_succ_le size.ge).trans kept.inside
  refine ⟨{ session with
      queue := { session.queue with base := base, size := rest }
      history := session.history ++ [.taken (session.queue.base 0)] }, ?_,
    ⟨kept.block, kept.small, inside, kept.capacity, heap, filled, taken⟩, rfl⟩
  rw [gpriorityQueuePop, pop, Exec.ok_bind]
  simp only [popped, Exec.pure_eq_ok]

end Pops

section Runs

variable {start : QueueSession Item} {labels : List (QueueCall Item)}

theorem Kept.step (sizeable : ctx.Sizeable) (orders : ctx.Orders Filled) (sized : 0 < itemSize)
    (kept : session.Kept ctx itemSize slots) {call : QueueCall Item}
    (returned : (system ctx itemSize).step session call = .ok next) :
    ∃ room, next.Kept ctx itemSize room ∧
      (session.refused = true → next.refused = true ∧ room = slots) ∧ (0 < slots ↔ 0 < room) := by
  cases call with
  | push mallocOk item =>
    change Except.map Prod.snd (session.gpriorityQueuePush ctx itemSize mallocOk item) = _
      at returned
    cases pushed : session.gpriorityQueuePush ctx itemSize mallocOk item with
    | error fault =>
      rw [pushed] at returned
      cases returned
    | ok result =>
      rw [pushed] at returned
      cases returned
      exact kept.pushed sizeable orders sized pushed
  | pop =>
    have some : 0 < session.queue.size := by
      obtain ⟨_, popped, _⟩ := Exec.bind_eq_ok.mp returned
      exact (GpriorityQueue.gpriorityQueuePop_eq_ok.mp popped).1
    obtain ⟨_, popped, keptNext, same⟩ := kept.pop_ok sizeable orders sized some
    cases popped.symm.trans returned
    exact ⟨slots, keptNext, fun refused => ⟨same.trans refused, rfl⟩, Iff.rfl⟩

theorem Kept.run (sizeable : ctx.Sizeable) (orders : ctx.Orders Filled) (sized : 0 < itemSize)
    (kept : start.Kept ctx itemSize slots) (run : (system ctx itemSize).Run start labels session) :
    ∃ room, session.Kept ctx itemSize room ∧
      (start.refused = true → session.refused = true ∧ room = slots) ∧ (0 < slots ↔ 0 < room) := by
  induction run generalizing slots with
  | nil => exact ⟨slots, kept, fun refused => ⟨refused, rfl⟩, Iff.rfl⟩
  | cons _ returned _ inductionHypothesis =>
    obtain ⟨room, keptNext, stays, empty⟩ := kept.step sizeable orders sized returned
    obtain ⟨last, keptLast, staysOn, emptyOn⟩ := inductionHypothesis keptNext
    refine ⟨last, keptLast, ?_, empty.trans emptyOn⟩
    intro refused
    obtain ⟨refusedNext, same⟩ := stays refused
    exact same ▸ staysOn refusedNext

/-- A priority queue hands every item pushed to it to its deleter once, by a pop or at its end,
and a pop takes out an item that none of those still queued exceeds. -/
theorem run_deletes_once (sizeable : ctx.Sizeable) (orders : ctx.Orders Filled)
    (sized : 0 < itemSize) (fits : itemSize ≤ sizeMax) (created : start.Created ctx itemSize)
    (run : (system ctx itemSize).Run start labels session) :
    let final := session.gpriorityQueueDelete
    (BagEvent.takes final).Perm (BagEvent.puts final) ∧
      ∀ front slot back, session.history = front ++ .taken slot :: back →
        ∃ queued : Multiset (Option Item),
          ↑(BagEvent.takes front) + queued = (BagEvent.puts front : Multiset (Option Item)) ∧
          slot ∈ queued ∧ ∀ other ∈ queued, ctx.Tops slot other := by
  obtain ⟨kept, _⟩ := created.kept sizeable orders sized fits
  obtain ⟨_, keptLast, _⟩ := kept.run sizeable orders sized run
  constructor
  · rw [gpriorityQueueDelete, BagEvent.takes_append, BagEvent.takes_map_taken,
      BagEvent.puts_append, BagEvent.puts_map_taken, List.append_nil]
    exact Multiset.coe_eq_coe.mp keptLast.serves.balance
  · exact fun front slot back split => keptLast.serves.greatest split

def numbered : GheapCtx (Option Nat) where
  fanout := 2
  pageChunks := 512
  lessComparer
    | some a, some b => decide (a < b)
    | _, _ => false

theorem numbered_orders : numbered.Orders Filled := by
  constructor
  · intro slot other usedA usedB less
    obtain ⟨a, rfl⟩ := Option.isSome_iff_exists.mp usedA
    obtain ⟨b, rfl⟩ := Option.isSome_iff_exists.mp usedB
    exact decide_eq_false (Nat.lt_asymm (of_decide_eq_true less))
  · intro slot other third usedA usedB usedC first second
    obtain ⟨a, rfl⟩ := Option.isSome_iff_exists.mp usedA
    obtain ⟨b, rfl⟩ := Option.isSome_iff_exists.mp usedB
    obtain ⟨c, rfl⟩ := Option.isSome_iff_exists.mp usedC
    have above := Nat.le_of_not_lt (of_decide_eq_false first)
    exact decide_eq_false fun less =>
      of_decide_eq_false second (Nat.lt_of_le_of_lt above less)

theorem numbered_sizeable : numbered.Sizeable := ⟨by decide, by decide⟩

theorem run_deletes_once_three :
    ∃ start session : QueueSession Nat,
      gpriorityQueueCreateFromArray numbered 8 [5, 1] = .ok start ∧
      (system numbered 8).Run start [.push true 7, .pop] session ∧
      (BagEvent.takes session.gpriorityQueueDelete).Perm [some 5, some 1, some 7] := by
  obtain ⟨session, executed, seen⟩ := Exec.exists_of_map
    (fun session : QueueSession Nat => BagEvent.puts session.gpriorityQueueDelete)
    (show ((gpriorityQueueCreateFromArray numbered 8 [5, 1] >>= fun start =>
      (system numbered 8).execute (fun _ _ => true) start
        [.push true 7, .pop]).toOption.map _) = some [some 5, some 1, some 7] by decide)
  obtain ⟨start, created, onward⟩ := Exec.bind_eq_ok.mp executed
  have run := System.Run.of_execute_enabled (fun _ _ _ => trivial) onward
  have once := run_deletes_once numbered_sizeable numbered_orders (by decide) (by decide)
    (.array created) run
  exact ⟨start, session, created, run, seen ▸ once.1⟩

/-- A queue overruns its block exactly when it pushes to a full one after `malloc` has refused it
a larger one, whenever that was: from then on the block stays the same. -/
theorem run_overruns_iff (sizeable : ctx.Sizeable) (orders : ctx.Orders Filled)
    (sized : 0 < itemSize) (fits : itemSize ≤ sizeMax) (created : start.Created ctx itemSize)
    (run : (system ctx itemSize).Run start labels session) :
    (∀ mallocOk item, Exec.fault? (session.gpriorityQueuePush ctx itemSize mallocOk item) =
      if start.queue.capacity = 0 then if mallocOk then some .assertFailed else none
      else if session.refused = true ∧ session.bytes = session.queue.size * itemSize
        then some .outOfBounds else none) ∧
      (0 < session.queue.size → Exec.fault? (session.gpriorityQueuePop ctx itemSize) = none) ∧
      ∀ more later, (system ctx itemSize).Run session more later → session.refused = true →
        later.refused = true ∧ later.bytes = session.bytes := by
  obtain ⟨kept, _⟩ := created.kept sizeable orders sized fits
  obtain ⟨slots, keptLast, _, empty⟩ := kept.run sizeable orders sized run
  refine ⟨?_, ?_, ?_⟩
  · intro mallocOk item
    rw [keptLast.push_fault sizeable orders sized, keptLast.block]
    have none : start.queue.capacity = 0 ↔ slots = 0 := by omega
    have full : slots * itemSize = session.queue.size * itemSize ↔ session.queue.size = slots := by
      rw [Nat.mul_left_inj (Nat.ne_of_gt sized), eq_comm]
    simp only [none, full]
  · intro some
    obtain ⟨_, popped, _⟩ := keptLast.pop_ok sizeable orders sized some
    rw [popped]
    rfl
  · intro more later onward refused
    obtain ⟨_, keptLater, stays, _⟩ := keptLast.run sizeable orders sized onward
    obtain ⟨refusedLater, same⟩ := stays refused
    exact ⟨refusedLater, by rw [keptLater.block, keptLast.block, same]⟩

theorem run_overruns_iff_third :
    ∃ session : QueueSession Nat,
      (system numbered 8).Run (gpriorityQueueCreate 8) [.push true 1, .push false 2] session ∧
      Exec.fault? (session.gpriorityQueuePush numbered 8 true 3) = some .outOfBounds := by
  obtain ⟨session, executed, seen⟩ := Exec.exists_of_map
    (fun session : QueueSession Nat => (session.refused, session.bytes, session.queue.size))
    (show ((system numbered 8).execute (fun _ _ => true) (gpriorityQueueCreate 8)
      [.push true 1, .push false 2]).toOption.map _ = some (true, 8, 1) by decide)
  have run := System.Run.of_execute_enabled (fun _ _ _ => trivial) executed
  have overruns := (run_overruns_iff numbered_sizeable numbered_orders (by decide) (by decide)
    .empty run).1 true 3
  obtain ⟨refused, sizes⟩ := Prod.mk.inj seen
  obtain ⟨bytes, size⟩ := Prod.mk.inj sizes
  rw [if_neg (by decide), if_pos ⟨refused, by rw [bytes, size]⟩] at overruns
  exact ⟨session, run, overruns⟩

end Runs

end QueueSession

end SpudLib
