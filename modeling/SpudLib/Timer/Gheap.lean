import SpudLib.Foundation.Fault
import Mathlib.Algebra.Group.Nat.Defs
import Mathlib.Logic.Function.Basic
import Mathlib.Order.Basic

/-!
# The paged heap of `vendor/gheap`

The functions of `gheap.h` over an array of items given by its slots.  A
context fixes the fanout, the page size and the comparison; every loop carries
the bound that its index gives it, since indices strictly decrease on the way
up and strictly increase on the way down.

The public functions assert that they are given a heap and that they leave one.
What each does between its assertions is a function of its own.
-/

namespace SpudLib

/-- `struct gheap_ctx`: items are moved by assignment. -/
structure GheapCtx (Item : Type) where
  fanout : Nat
  pageChunks : Nat
  lessComparer : Item → Item → Bool

def sizeMax : Nat := 2 ^ 64 - 1

namespace GheapCtx

variable {Item : Type} (ctx : GheapCtx Item)

def gheapGetParentIndex (u : Nat) : Nat :=
  let u := u - 1
  if ctx.pageChunks = 1 then u / ctx.fanout
  else if u < ctx.fanout then 0
  else
    let pageSize := ctx.fanout * ctx.pageChunks
    let v := u % pageSize
    if v ≥ ctx.fanout then u - v + v / ctx.fanout
    else
      let v := u / pageSize - 1
      let pageLeaves := (ctx.fanout - 1) * ctx.pageChunks + 1
      let u := v / pageLeaves + 1
      u * pageSize + v % pageLeaves - pageLeaves + 1

/-- `gheap_get_child_index`: the first child, or `SIZE_MAX` when it does not fit. -/
def gheapGetChildIndex (u : Nat) : Nat :=
  if ctx.pageChunks = 1 then
    if u > (sizeMax - 1) / ctx.fanout then sizeMax else u * ctx.fanout + 1
  else if u = 0 then 1
  else
    let pageSize := ctx.fanout * ctx.pageChunks
    let u := u - 1
    let v := u % pageSize + 1
    if v < pageSize / ctx.fanout then
      let v := v * (ctx.fanout - 1)
      if u > sizeMax - 2 - v then sizeMax else u + v + 2
    else
      let pageLeaves := (ctx.fanout - 1) * ctx.pageChunks + 1
      let v := v + (u / pageSize + 1) * pageLeaves - pageSize
      if v > (sizeMax - 1) / pageSize then sizeMax else v * pageSize + 1

/-- `_gheap_sift_up`: the loop stops at `rootIndex` or at a parent not less than `item`. -/
def gheapSiftUp (rootIndex : Nat) (item : Item) :
    Nat → (holeIndex : Nat) → (Nat → Item) → (Nat → Item)
  | 0, holeIndex, base => Function.update base holeIndex item
  | bound + 1, holeIndex, base =>
      if holeIndex > rootIndex then
        let parentIndex := ctx.gheapGetParentIndex holeIndex
        if !ctx.lessComparer (base parentIndex) item then
          Function.update base holeIndex item
        else
          gheapSiftUp rootIndex item bound parentIndex
            (Function.update base holeIndex (base parentIndex))
      else Function.update base holeIndex item

/-- The index of the greatest of `childrenCount` children starting at `childIndex`. -/
def gheapMaxChild (base : Nat → Item) (childrenCount childIndex : Nat) : Nat :=
  (List.range' 1 (childrenCount - 1)).foldl
    (fun maxChildIndex i =>
      if !ctx.lessComparer (base (childIndex + i)) (base maxChildIndex) then childIndex + i
      else maxChildIndex)
    childIndex

/-- The descent of `_gheap_sift_down`: move the greatest child into the hole
until the hole has no children, and return where the hole ended. -/
def gheapSiftDownHole (heapSize lastFullIndex : Nat) :
    Nat → (holeIndex : Nat) → (Nat → Item) → Nat × (Nat → Item)
  | 0, holeIndex, base => (holeIndex, base)
  | bound + 1, holeIndex, base =>
      let childIndex := ctx.gheapGetChildIndex holeIndex
      if childIndex ≥ lastFullIndex then
        if childIndex < heapSize then
          let maxChildIndex := ctx.gheapMaxChild base (heapSize - childIndex) childIndex
          (maxChildIndex, Function.update base holeIndex (base maxChildIndex))
        else (holeIndex, base)
      else
        let maxChildIndex := ctx.gheapMaxChild base ctx.fanout childIndex
        gheapSiftDownHole heapSize lastFullIndex bound maxChildIndex
          (Function.update base holeIndex (base maxChildIndex))

def gheapSiftDown (base : Nat → Item) (heapSize holeIndex : Nat) (item : Item) : Nat → Item :=
  let rootIndex := holeIndex
  let lastFullIndex := heapSize - (heapSize - 1) % ctx.fanout
  let descent := ctx.gheapSiftDownHole heapSize lastFullIndex heapSize holeIndex base
  ctx.gheapSiftUp rootIndex item descent.1 descent.1 descent.2

def GheapIsHeap (base : Nat → Item) (heapSize : Nat) : Prop :=
  ∀ u, 0 < u → u < heapSize →
    ctx.lessComparer (base (ctx.gheapGetParentIndex u)) (base u) = false

def gheapIsHeapUntilFrom (base : Nat → Item) (heapSize : Nat) : Nat → (u : Nat) → Nat
  | 0, _ => heapSize
  | left + 1, u =>
      if u < heapSize then
        if ctx.lessComparer (base (ctx.gheapGetParentIndex u)) (base u) then u
        else gheapIsHeapUntilFrom base heapSize left (u + 1)
      else heapSize

def gheapIsHeapUntil (base : Nat → Item) (heapSize : Nat) : Nat :=
  ctx.gheapIsHeapUntilFrom base heapSize heapSize 1

def gheapIsHeap (base : Nat → Item) (heapSize : Nat) : Bool :=
  ctx.gheapIsHeapUntil base heapSize = heapSize

def assertHeap (base : Nat → Item) (heapSize : Nat) : Exec Unit :=
  if ctx.gheapIsHeap base heapSize then .ok () else .error .assertFailed

section Making

/-- The loop of `gheap_make_heap`: sift down every index from `i` to 0. -/
def gheapMakeHeapFrom (heapSize : Nat) : Nat → (Nat → Item) → (Nat → Item)
  | 0, base => ctx.gheapSiftDown base heapSize 0 (base 0)
  | i + 1, base =>
      gheapMakeHeapFrom heapSize i (ctx.gheapSiftDown base heapSize (i + 1) (base (i + 1)))

def madeHeap (base : Nat → Item) (heapSize : Nat) : Nat → Item :=
  if heapSize > 1 then
    ctx.gheapMakeHeapFrom heapSize
      (if ctx.pageChunks = 1 then (heapSize - 2) / ctx.fanout else heapSize - 2) base
  else base

def gheapMakeHeap (base : Nat → Item) (heapSize : Nat) : Exec (Nat → Item) := do
  let base := ctx.madeHeap base heapSize
  ctx.assertHeap base heapSize
  pure base

end Making

section Pushing

def pushedHeap (base : Nat → Item) (heapSize : Nat) : Nat → Item :=
  if heapSize > 1 then
    ctx.gheapSiftUp 0 (base (heapSize - 1)) (heapSize - 1) (heapSize - 1) base
  else base

def gheapPushHeap (base : Nat → Item) (heapSize : Nat) : Exec (Nat → Item) :=
  if heapSize > 0 then do
    ctx.assertHeap base (heapSize - 1)
    let base := ctx.pushedHeap base heapSize
    ctx.assertHeap base heapSize
    pure base
  else .error .assertFailed

end Pushing

section Popping

/-- The top item moves to the slot `itemIndex` past the heap, and the item that
was there is sifted down from the root. -/
def swappedMaxItem (base : Nat → Item) (heapSize itemIndex : Nat) : Nat → Item :=
  ctx.gheapSiftDown (Function.update base itemIndex (base 0)) heapSize 0 (base itemIndex)

def gheapSwapMaxItem (base : Nat → Item) (heapSize itemIndex : Nat) : Exec (Nat → Item) :=
  if heapSize > 0 then do
    ctx.assertHeap base heapSize
    let base := ctx.swappedMaxItem base heapSize itemIndex
    ctx.assertHeap base heapSize
    pure base
  else .error .assertFailed

def gheapPopMaxItem (base : Nat → Item) (heapSize : Nat) : Exec (Nat → Item) :=
  ctx.gheapSwapMaxItem base heapSize heapSize

/-- `gheap_pop_heap`: the top item moves to the last slot. -/
def gheapPopHeap (base : Nat → Item) (heapSize : Nat) : Exec (Nat → Item) :=
  if heapSize > 0 then do
    ctx.assertHeap base heapSize
    let base ← if heapSize > 1 then ctx.gheapPopMaxItem base (heapSize - 1) else pure base
    ctx.assertHeap base (heapSize - 1)
    pure base
  else .error .assertFailed

def poppedHeap (base : Nat → Item) (heapSize : Nat) : Nat → Item :=
  if heapSize > 1 then ctx.swappedMaxItem base (heapSize - 1) (heapSize - 1) else base

end Popping

variable {ctx} {base after : Nat → Item} {heapSize : Nat}

section Prefixes

theorem gheapIsHeapUntilFrom_ok {left u : Nat} (enough : heapSize ≤ u + left) (positive : 0 < u)
    (heap : ctx.GheapIsHeap base u) (small : u ≤ heapSize) :
    let found := ctx.gheapIsHeapUntilFrom base heapSize left u
    u ≤ found ∧ found ≤ heapSize ∧ ctx.GheapIsHeap base found ∧ (found < heapSize →
      ctx.lessComparer (base (ctx.gheapGetParentIndex found)) (base found) = true) := by
  induction left generalizing u with
  | zero =>
    obtain rfl : u = heapSize := by omega
    exact ⟨Nat.le_refl _, Nat.le_refl _, heap, fun less => absurd less (Nat.lt_irrefl _)⟩
  | succ left inductionHypothesis =>
    unfold gheapIsHeapUntilFrom
    by_cases inside : u < heapSize
    · rw [if_pos inside]
      by_cases less : ctx.lessComparer (base (ctx.gheapGetParentIndex u)) (base u) = true
      · rw [if_pos less]
        exact ⟨Nat.le_refl _, small, heap, fun _ => less⟩
      · rw [if_neg less]
        have longer : ctx.GheapIsHeap base (u + 1) := by
          intro v below reached
          rcases Nat.lt_succ_iff_lt_or_eq.mp reached with before | rfl
          · exact heap v below before
          · exact eq_false_of_ne_true less
        obtain ⟨onward, rest⟩ := inductionHypothesis (by omega) (Nat.succ_pos _) longer inside
        exact ⟨Nat.le_of_succ_le onward, rest⟩
    · obtain rfl : u = heapSize := by omega
      rw [if_neg inside]
      exact ⟨Nat.le_refl _, Nat.le_refl _, heap, fun less => absurd less (Nat.lt_irrefl _)⟩

/-- `gheap_is_heap_until` gives the size of the longest heap that the array begins with. -/
theorem gheapIsHeapUntil_ok (ctx : GheapCtx Item) (base : Nat → Item) (heapSize : Nat) :
    let found := ctx.gheapIsHeapUntil base heapSize
    found ≤ heapSize ∧ ctx.GheapIsHeap base found ∧
      ∀ size ≤ heapSize, ctx.GheapIsHeap base size → size ≤ found := by
  intro found
  by_cases empty : heapSize = 0
  · subst empty
    exact ⟨Nat.le_refl _, fun u _ inside => absurd inside (Nat.not_lt_zero _),
      fun size small _ => small⟩
  · have one : ctx.GheapIsHeap base 1 := fun u positive inside => by omega
    have positive : 1 ≤ heapSize := Nat.pos_of_ne_zero empty
    obtain ⟨reached, small, heap, stops⟩ := @gheapIsHeapUntilFrom_ok _ ctx base heapSize heapSize 1
      (Nat.le_add_left _ _) Nat.one_pos one positive
    refine ⟨small, heap, ?_⟩
    intro size below longer
    by_contra beyond
    have less := stops (show found < heapSize by omega)
    exact Bool.false_ne_true ((longer found reached (by omega)).symm.trans less)

theorem gheapIsHeap_eq_true :
    ctx.gheapIsHeap base heapSize = true ↔ ctx.GheapIsHeap base heapSize := by
  rw [gheapIsHeap, decide_eq_true_iff]
  obtain ⟨small, heap, longest⟩ := gheapIsHeapUntil_ok ctx base heapSize
  constructor
  · intro same
    rwa [same] at heap
  · exact fun whole => Nat.le_antisymm small (longest heapSize (Nat.le_refl _) whole)

instance (base : Nat → Item) (heapSize : Nat) : Decidable (ctx.GheapIsHeap base heapSize) :=
  decidable_of_iff _ gheapIsHeap_eq_true

end Prefixes

section Assertions

def asserting (condition : Prop) [Decidable condition] (after : Nat → Item) :
    Exec (Nat → Item) :=
  if condition then .ok after else .error .assertFailed

theorem asserting_eq_ok {condition : Prop} [Decidable condition] {left : Nat → Item} :
    asserting condition left = .ok after ↔ condition ∧ left = after := by
  unfold asserting
  split_ifs with holds
  · simp [holds]
  · simp [holds]

theorem assertHeap_of_heap (heap : ctx.GheapIsHeap base heapSize) :
    ctx.assertHeap base heapSize = .ok () := if_pos (gheapIsHeap_eq_true.mpr heap)

theorem assertHeap_of_not (scattered : ¬ ctx.GheapIsHeap base heapSize) :
    ctx.assertHeap base heapSize = .error .assertFailed :=
  if_neg fun heap => scattered (gheapIsHeap_eq_true.mp heap)

theorem assertHeap_exit (base : Nat → Item) (heapSize : Nat) :
    (ctx.assertHeap base heapSize >>= fun _ => pure base) =
      asserting (ctx.GheapIsHeap base heapSize) base := by
  by_cases heap : ctx.GheapIsHeap base heapSize
  · rw [assertHeap_of_heap heap, asserting, if_pos heap]
    rfl
  · rw [assertHeap_of_not heap, asserting, if_neg heap]
    rfl

theorem assertHeap_entry {condition : Prop} [Decidable condition] :
    (ctx.assertHeap base heapSize >>= fun _ => asserting condition after) =
      asserting (ctx.GheapIsHeap base heapSize ∧ condition) after := by
  by_cases heap : ctx.GheapIsHeap base heapSize
  · rw [assertHeap_of_heap heap, Exec.ok_bind]
    simp only [asserting, heap, true_and]
  · rw [assertHeap_of_not heap, Exec.error_bind]
    simp only [asserting, heap, false_and, if_false]

theorem gheapMakeHeap_eq (base : Nat → Item) (heapSize : Nat) :
    ctx.gheapMakeHeap base heapSize =
      asserting (ctx.GheapIsHeap (ctx.madeHeap base heapSize) heapSize)
        (ctx.madeHeap base heapSize) := assertHeap_exit ..

theorem gheapPushHeap_eq (base : Nat → Item) (heapSize : Nat) :
    ctx.gheapPushHeap base (heapSize + 1) =
      asserting (ctx.GheapIsHeap base heapSize ∧
        ctx.GheapIsHeap (ctx.pushedHeap base (heapSize + 1)) (heapSize + 1))
        (ctx.pushedHeap base (heapSize + 1)) := by
  rw [gheapPushHeap, if_pos (Nat.succ_pos _)]
  simp only [assertHeap_exit]
  exact assertHeap_entry

theorem gheapSwapMaxItem_eq (base : Nat → Item) (heapSize itemIndex : Nat) :
    ctx.gheapSwapMaxItem base (heapSize + 1) itemIndex =
      asserting (ctx.GheapIsHeap base (heapSize + 1) ∧
        ctx.GheapIsHeap (ctx.swappedMaxItem base (heapSize + 1) itemIndex) (heapSize + 1))
        (ctx.swappedMaxItem base (heapSize + 1) itemIndex) := by
  rw [gheapSwapMaxItem, if_pos (Nat.succ_pos _)]
  simp only [assertHeap_exit]
  exact assertHeap_entry

theorem GheapIsHeap.shorter (heap : ctx.GheapIsHeap base (heapSize + 1)) :
    ctx.GheapIsHeap base heapSize :=
  fun u positive inside => heap u positive (Nat.lt_succ_of_lt inside)

/-- What `gheap_pop_max_item` asserts again is what `gheap_pop_heap` asserts. -/
theorem gheapPopHeap_eq (base : Nat → Item) (heapSize : Nat) :
    ctx.gheapPopHeap base (heapSize + 1) =
      asserting (ctx.GheapIsHeap base (heapSize + 1) ∧
        ctx.GheapIsHeap (ctx.poppedHeap base (heapSize + 1)) heapSize)
        (ctx.poppedHeap base (heapSize + 1)) := by
  rw [gheapPopHeap, if_pos (Nat.succ_pos _), Nat.add_sub_cancel]
  by_cases heap : ctx.GheapIsHeap base (heapSize + 1)
  · rw [assertHeap_of_heap heap, Exec.ok_bind]
    cases heapSize with
    | zero =>
      rw [if_neg (Nat.lt_irrefl 1), poppedHeap, if_neg (Nat.lt_irrefl 1)]
      refine (@assertHeap_exit _ ctx base 0).trans ?_
      simp only [heap, true_and]
    | succ size =>
      rw [if_pos (by omega), poppedHeap, if_pos (by omega), gheapPopMaxItem, Nat.add_sub_cancel,
        gheapSwapMaxItem_eq]
      simp only [heap, heap.shorter, true_and]
      by_cases after : ctx.GheapIsHeap (ctx.swappedMaxItem base (size + 1) (size + 1)) (size + 1)
      · simp only [asserting, after, if_true, Exec.ok_bind, assertHeap_of_heap, Exec.pure_eq_ok]
      · simp only [asserting, after, if_false, Exec.error_bind]
  · rw [assertHeap_of_not heap, Exec.error_bind]
    simp only [asserting, heap, false_and, if_false]

end Assertions

/-- Where every parent index lies below its child's and the comparison orders
the items in use, the root of a heap is not less than any item in it. -/
theorem GheapIsHeap.root_greatest
    (heap : ctx.GheapIsHeap base heapSize)
    (descends : ∀ u, 0 < u → ctx.gheapGetParentIndex u < u)
    (InUse : Item → Prop) (inUse : ∀ u < heapSize, InUse (base u))
    (reflexive : ∀ a, InUse a → ctx.lessComparer a a = false)
    (transitive : ∀ a b c, InUse a → InUse b → InUse c → ctx.lessComparer a b = false →
      ctx.lessComparer b c = false → ctx.lessComparer a c = false)
    {u : Nat} (inside : u < heapSize) : ctx.lessComparer (base 0) (base u) = false := by
  induction u using Nat.strongRecOn with
  | ind u inductionHypothesis =>
    rcases Nat.eq_zero_or_pos u with root | positive
    · rw [root]
      exact reflexive _ (inUse 0 (by omega))
    · have below := descends u positive
      have parentInside := Nat.lt_trans below inside
      exact transitive _ _ _ (inUse 0 (by omega)) (inUse _ parentInside) (inUse u inside)
        (inductionHypothesis _ below parentInside) (heap u positive inside)

end GheapCtx

end SpudLib
