import SpudLib.Timer.Paging

/-!
# Operations on a heap

The rest of `gheap.h`: sorting, restoring a heap after one item has changed, and
taking an item out of its middle.
-/

namespace SpudLib

namespace GheapCtx

variable {Item : Type} (ctx : GheapCtx Item)

def gheapSortHeap : (base : Nat → Item) → (heapSize : Nat) → Exec (Nat → Item)
  | base, 0 => pure base
  | base, 1 => pure base
  | base, i + 2 => do
      let base ← ctx.gheapPopMaxItem base (i + 1)
      gheapSortHeap base (i + 1)

def raisedHeap (base : Nat → Item) (modifiedItemIndex : Nat) : Nat → Item :=
  if modifiedItemIndex > 0 then
    ctx.gheapSiftUp 0 (base modifiedItemIndex) modifiedItemIndex modifiedItemIndex base
  else base

def gheapRestoreHeapAfterItemIncrease (base : Nat → Item) (heapSize modifiedItemIndex : Nat) :
    Exec (Nat → Item) :=
  if modifiedItemIndex < heapSize then do
    ctx.assertHeap base modifiedItemIndex
    let base := ctx.raisedHeap base modifiedItemIndex
    ctx.assertHeap base heapSize
    pure base
  else .error .assertFailed

def loweredHeap (base : Nat → Item) (heapSize modifiedItemIndex : Nat) : Nat → Item :=
  ctx.gheapSiftDown base heapSize modifiedItemIndex (base modifiedItemIndex)

def gheapRestoreHeapAfterItemDecrease (base : Nat → Item) (heapSize modifiedItemIndex : Nat) :
    Exec (Nat → Item) :=
  if modifiedItemIndex < heapSize then do
    ctx.assertHeap base modifiedItemIndex
    let base := ctx.loweredHeap base heapSize modifiedItemIndex
    ctx.assertHeap base heapSize
    pure base
  else .error .assertFailed

/-- The item moves to the last slot, and the item that was there is sifted from its place. -/
def removedHeap (base : Nat → Item) (heapSize itemIndex : Nat) : Nat → Item :=
  let newHeapSize := heapSize - 1
  if itemIndex < newHeapSize then
    let tmp := base newHeapSize
    let base := Function.update base newHeapSize (base itemIndex)
    if ctx.lessComparer tmp (base newHeapSize) then
      ctx.gheapSiftDown base newHeapSize itemIndex tmp
    else ctx.gheapSiftUp 0 tmp itemIndex itemIndex base
  else base

def gheapRemoveFromHeap (base : Nat → Item) (heapSize itemIndex : Nat) : Exec (Nat → Item) :=
  if itemIndex < heapSize then do
    ctx.assertHeap base heapSize
    let base := ctx.removedHeap base heapSize itemIndex
    ctx.assertHeap base (heapSize - 1)
    pure base
  else .error .assertFailed

variable {ctx} {heapSize hole : Nat} {base : Nat → Item} {item old : Item} {InUse : Item → Prop}

instance (a b : Item) : Decidable (ctx.Tops a b) := inferInstanceAs (Decidable (_ = false))

section Assertions

theorem gheapRestoreHeapAfterItemIncrease_eq (base : Nat → Item) (inside : hole < heapSize) :
    ctx.gheapRestoreHeapAfterItemIncrease base heapSize hole =
      asserting (ctx.GheapIsHeap base hole ∧ ctx.GheapIsHeap (ctx.raisedHeap base hole) heapSize)
        (ctx.raisedHeap base hole) := by
  rw [gheapRestoreHeapAfterItemIncrease, if_pos inside]
  simp only [assertHeap_exit]
  exact assertHeap_entry

theorem gheapRestoreHeapAfterItemDecrease_eq (base : Nat → Item) (inside : hole < heapSize) :
    ctx.gheapRestoreHeapAfterItemDecrease base heapSize hole =
      asserting (ctx.GheapIsHeap base hole ∧
        ctx.GheapIsHeap (ctx.loweredHeap base heapSize hole) heapSize)
        (ctx.loweredHeap base heapSize hole) := by
  rw [gheapRestoreHeapAfterItemDecrease, if_pos inside]
  simp only [assertHeap_exit]
  exact assertHeap_entry

theorem gheapRemoveFromHeap_eq (base : Nat → Item) (inside : hole < heapSize) :
    ctx.gheapRemoveFromHeap base heapSize hole =
      asserting (ctx.GheapIsHeap base heapSize ∧
        ctx.GheapIsHeap (ctx.removedHeap base heapSize hole) (heapSize - 1))
        (ctx.removedHeap base heapSize hole) := by
  rw [gheapRemoveFromHeap, if_pos inside]
  simp only [assertHeap_exit]
  exact assertHeap_entry

end Assertions

section Changes

theorem gheapSiftUp_root {root bound : Nat} (indexes : ctx.Indexes heapSize) (inside : hole ≤ bound)
    (under : ctx.Under root hole)
    (tops : 0 < root → ctx.Tops (base (ctx.gheapGetParentIndex root)) item) :
    ctx.gheapSiftUp root item bound hole base = ctx.gheapSiftUp 0 item bound hole base := by
  induction bound generalizing hole base with
  | zero => rfl
  | succ bound inductionHypothesis =>
    have least := under.le indexes
    unfold gheapSiftUp
    simp only []
    by_cases below : hole > root
    · have positive : hole > 0 := Nat.zero_lt_of_lt below
      have descends := indexes.descends hole positive
      rw [if_pos below, if_pos positive]
      by_cases stops : (!ctx.lessComparer (base (ctx.gheapGetParentIndex hole)) item) = true
      · rw [if_pos stops, if_pos stops]
      · rw [if_neg stops, if_neg stops]
        refine inductionHypothesis (by omega) (under.parent (by omega)) ?_
        intro deep
        have above := indexes.descends root deep
        rw [Function.update_of_ne (by omega)]
        exact tops deep
    · obtain rfl : hole = root := by omega
      rw [if_neg below]
      by_cases positive : hole > 0
      · rw [if_pos positive, if_pos]
        rw [show ctx.lessComparer _ item = false from tops positive]
        rfl
      · rw [if_neg positive]

theorem le_gheapMaxChild (base : Nat → Item) (count childIndex : Nat) :
    childIndex ≤ ctx.gheapMaxChild base count childIndex := by
  unfold gheapMaxChild
  generalize List.range' 1 (count - 1) = offsets
  suffices ∀ start, childIndex ≤ start → childIndex ≤ offsets.foldl (fun maxChildIndex i =>
      if !ctx.lessComparer (base (childIndex + i)) (base maxChildIndex) then childIndex + i
      else maxChildIndex) start from this childIndex (Nat.le_refl _)
  induction offsets with
  | nil => exact fun start least => least
  | cons offset offsets inductionHypothesis =>
    intro start least
    refine inductionHypothesis _ ?_
    beta_reduce
    split_ifs
    · exact Nat.le_add_right _ _
    · exact least

theorem gheapSiftDownHole_before (indexes : ctx.Indexes heapSize) {bound u : Nat}
    (before : u < hole) :
    (ctx.gheapSiftDownHole heapSize (heapSize - (heapSize - 1) % ctx.fanout) bound hole base).2 u =
      base u := by
  induction bound generalizing hole base with
  | zero => rfl
  | succ bound inductionHypothesis =>
    unfold gheapSiftDownHole
    simp only []
    by_cases last : ctx.gheapGetChildIndex hole ≥ heapSize - (heapSize - 1) % ctx.fanout
    · rw [if_pos last]
      split_ifs
      · exact Function.update_of_ne (Nat.ne_of_lt before) _ _
      · rfl
    · rw [if_neg last]
      have several := indexes.several
      have child := (indexes.children hole _ (indexes.positive hole) (by omega)).mpr
        ⟨Nat.le_refl _, by omega⟩
      have descends := indexes.descends _ (indexes.positive hole)
      have least := @le_gheapMaxChild _ ctx base ctx.fanout (ctx.gheapGetChildIndex hole)
      rw [inductionHypothesis (by omega), Function.update_of_ne (Nat.ne_of_lt before)]

theorem parted_of_heap (indexes : ctx.Indexes heapSize) (orders : ctx.Orders InUse)
    (inside : hole < heapSize) (used : ∀ u < heapSize, InUse (base u)) (usedOld : InUse old)
    (heap : ctx.GheapIsHeap (Function.update base hole old) heapSize) :
    ctx.Parted heapSize 0 hole base ∧
      (∀ u, 0 < u → u < heapSize → ctx.gheapGetParentIndex u = hole → ctx.Tops old (base u)) ∧
      (0 < hole → ctx.Tops (base (ctx.gheapGetParentIndex hole)) old) := by
  have below : ∀ u, 0 < u → u < heapSize → ctx.gheapGetParentIndex u = hole →
      ctx.Tops old (base u) := by
    intro u positive insideU child
    have descends := indexes.descends u positive
    have edge := heap u positive insideU
    rwa [child, Function.update_self, Function.update_of_ne (by omega)] at edge
  have above : 0 < hole → ctx.Tops (base (ctx.gheapGetParentIndex hole)) old := by
    intro positive
    have descends := indexes.descends hole positive
    have edge := heap hole positive inside
    rwa [Function.update_self, Function.update_of_ne (by omega)] at edge
  refine ⟨⟨?_, ?_⟩, below, above⟩
  · intro u positive insideU _ different childOff
    have edge := heap u positive insideU
    rwa [Function.update_of_ne different, Function.update_of_ne childOff] at edge
  · intro deep u positive insideU child
    have positiveHole := Nat.pos_of_ne_zero deep
    have descends := indexes.descends hole positiveHole
    exact orders.transitive (used _ (Nat.lt_trans descends inside)) usedOld (used u insideU)
      (above positiveHole) (below u positive insideU child)

theorem gheapSiftUp_raises (indexes : ctx.Indexes heapSize) (orders : ctx.Orders InUse)
    (inside : hole < heapSize) (used : ∀ u < heapSize, InUse (base u)) (usedOld : InUse old)
    (usedItem : InUse item) (heap : ctx.GheapIsHeap (Function.update base hole old) heapSize)
    (increase : ctx.Tops item old) :
    ctx.GheapIsHeap (ctx.gheapSiftUp 0 item hole hole base) heapSize ∧
      (contents heapSize (ctx.gheapSiftUp 0 item hole hole base)).Perm
        (contents heapSize (Function.update base hole item)) ∧
      ∀ u, heapSize ≤ u → ctx.gheapSiftUp 0 item hole hole base u = base u := by
  obtain ⟨parted, below, _⟩ := parted_of_heap indexes orders inside used usedOld heap
  rw [gheapIsHeap_iff]
  refine gheapSiftUp_ok indexes orders usedItem (Nat.le_refl _) inside (under_zero indexes hole)
    used parted ?_
  intro u positive insideU child
  exact orders.transitive usedItem usedOld (used u insideU) increase
    (below u positive insideU child)

theorem gheapSiftDown_lowers (indexes : ctx.Indexes heapSize) (orders : ctx.Orders InUse)
    (inside : hole < heapSize) (used : ∀ u < heapSize, InUse (base u)) (usedOld : InUse old)
    (usedItem : InUse item) (heap : ctx.GheapIsHeap (Function.update base hole old) heapSize)
    (decrease : ctx.Tops old item) :
    ctx.GheapIsHeap (ctx.gheapSiftDown base heapSize hole item) heapSize ∧
      (contents heapSize (ctx.gheapSiftDown base heapSize hole item)).Perm
        (contents heapSize (Function.update base hole item)) ∧
      ∀ u, heapSize ≤ u → ctx.gheapSiftDown base heapSize hole item u = base u := by
  obtain ⟨parted, _, above⟩ := parted_of_heap indexes orders inside used usedOld heap
  let result := ctx.gheapSiftDownHole heapSize (heapSize - (heapSize - 1) % ctx.fanout) heapSize
    hole base
  -- the descent is below the slot, and all of the heap is in order but for where it ends
  have descended := @gheapSiftDownHole_ok _ ctx heapSize 0 hole base InUse indexes orders
    heapSize (Nat.le_add_left _ _) inside (under_zero indexes hole) used parted
  have onward := @gheapSiftDownHole_ok _ ctx heapSize hole hole base InUse indexes orders heapSize
    (Nat.le_add_left _ _) inside .root used ⟨fun u positive insideU _ => parted.off u positive
      insideU (Nat.zero_le _), fun deep => absurd rfl deep⟩
  have sifted : ctx.gheapSiftDown base heapSize hole item =
      ctx.gheapSiftUp 0 item result.1 result.1 result.2 := by
    refine gheapSiftUp_root indexes (Nat.le_refl _) onward.under ?_
    intro positive
    have above' := indexes.descends hole positive
    rw [gheapSiftDownHole_before indexes above']
    exact orders.transitive (used _ (Nat.lt_trans above' inside)) usedOld usedItem
      (above positive) decrease
  obtain ⟨heapAfter, perm, rest⟩ := @gheapSiftUp_ok _ ctx heapSize 0 result.1 result.2 item InUse
    indexes orders usedItem _ (Nat.le_refl _) descended.inside descended.under descended.used
    descended.parted
    fun u positive insideU child => absurd child (descended.leaf u positive insideU)
  rw [sifted, gheapIsHeap_iff]
  refine ⟨heapAfter, perm.trans (descended.items item), ?_⟩
  intro u outside
  exact (rest u outside).trans (descended.rest u outside)

end Changes

def ternaryPages : GheapCtx Nat := ⟨3, 2, fun a b => decide (a < b)⟩

theorem ternaryPages_orders : ternaryPages.Orders fun _ => True :=
  ⟨fun _ _ less => decide_eq_false (Nat.lt_asymm (of_decide_eq_true less)),
    fun _ _ _ first second => decide_eq_false fun less =>
      have above := Nat.le_of_not_lt (of_decide_eq_false first)
      of_decide_eq_false second (Nat.lt_of_le_of_lt above less)⟩

section Restoring

variable {size itemIndex : Nat}

/-- A heap in which one item was increased or decreased is restored, with the items it has. -/
theorem gheapRestoreHeap_ok (sizeable : ctx.Sizeable) (orders : ctx.Orders InUse)
    (small : heapSize ≤ sizeMax) (inside : itemIndex < heapSize)
    (used : ∀ u < heapSize, InUse (base u)) (usedItem : InUse item)
    (heap : ctx.GheapIsHeap base heapSize) :
    let modified := Function.update base itemIndex item
    (ctx.Tops item (base itemIndex) → ∃ after,
      ctx.gheapRestoreHeapAfterItemIncrease modified heapSize itemIndex = .ok after ∧
      ctx.GheapIsHeap after heapSize ∧
      (contents heapSize after).Perm (contents heapSize modified)) ∧
    (ctx.Tops (base itemIndex) item → ∃ after,
      ctx.gheapRestoreHeapAfterItemDecrease modified heapSize itemIndex = .ok after ∧
      ctx.GheapIsHeap after heapSize ∧
      (contents heapSize after).Perm (contents heapSize modified)) := by
  intro modified
  have indexes := indexes sizeable small
  have same : modified itemIndex = item := Function.update_self ..
  have usedModified : ∀ u < heapSize, InUse (modified u) := by
    intro u insideU
    by_cases here : u = itemIndex
    · rw [here, same]
      exact usedItem
    · rw [show modified u = base u from Function.update_of_ne here ..]
      exact used u insideU
  have before : ctx.GheapIsHeap (Function.update modified itemIndex (base itemIndex)) heapSize := by
    rw [Function.update_idem, Function.update_eq_self]
    exact heap
  have whole : Function.update modified itemIndex item = modified := Function.update_idem ..
  -- the items before the modified one are as they were
  have entry : ctx.GheapIsHeap modified itemIndex := by
    intro u positive insideU
    have above := indexes.descends u positive
    rw [show modified u = base u from Function.update_of_ne (by omega) ..,
      show modified _ = base _ from Function.update_of_ne (by omega) ..]
    exact heap u positive (Nat.lt_trans insideU inside)
  constructor
  · intro increase
    obtain ⟨heapAfter, perm, _⟩ := gheapSiftUp_raises indexes orders inside usedModified
      (used _ inside) usedItem before increase
    rw [whole] at perm
    have raised : ctx.raisedHeap modified itemIndex =
        ctx.gheapSiftUp 0 item itemIndex itemIndex modified := by
      unfold raisedHeap
      rw [same]
      by_cases deep : itemIndex > 0
      · rw [if_pos deep]
      · -- the item is at the root already
        obtain rfl : itemIndex = 0 := by omega
        rw [if_neg deep]
        exact whole.symm
    rw [gheapRestoreHeapAfterItemIncrease_eq modified inside, raised]
    exact ⟨_, if_pos ⟨entry, heapAfter⟩, heapAfter, perm⟩
  · intro decrease
    obtain ⟨heapAfter, perm, _⟩ := gheapSiftDown_lowers indexes orders inside usedModified
      (used _ inside) usedItem before decrease
    rw [whole] at perm
    have lowered : ctx.loweredHeap modified heapSize itemIndex =
        ctx.gheapSiftDown modified heapSize itemIndex item := by rw [loweredHeap, same]
    rw [gheapRestoreHeapAfterItemDecrease_eq modified inside, lowered]
    exact ⟨_, if_pos ⟨entry, heapAfter⟩, heapAfter, perm⟩

theorem gheapRestoreHeap_ok_nine :
    let modified := Function.update (fun u => [9, 8, 7, 5, 3, 1, 4, 0, 2].getD u 0) 3 6
    ∃ after, ternaryPages.gheapRestoreHeapAfterItemIncrease modified 9 3 = .ok after ∧
      ternaryPages.GheapIsHeap after 9 ∧ (contents 9 after).Perm (contents 9 modified) := by
  have restored := @gheapRestoreHeap_ok Nat ternaryPages 9
    (fun u => [9, 8, 7, 5, 3, 1, 4, 0, 2].getD u 0) 6 (fun _ => True) 3 ⟨by decide, by decide⟩
    ternaryPages_orders (by decide) (by decide) (fun _ _ => trivial) trivial (by decide)
  exact restored.1 (by decide)

theorem removedHeap_ok (sizeable : ctx.Sizeable) (orders : ctx.Orders InUse)
    (small : size + 1 ≤ sizeMax) (inside : itemIndex < size + 1)
    (used : ∀ u < size + 1, InUse (base u)) (heap : ctx.GheapIsHeap base (size + 1)) :
    let after := ctx.removedHeap base (size + 1) itemIndex
    ctx.GheapIsHeap after size ∧ after size = base itemIndex ∧
      (contents (size + 1) after).Perm (contents (size + 1) base) ∧
      ∀ u, size + 1 ≤ u → after u = base u := by
  have whole : ∀ {after : Nat → Item},
      contents (size + 1) after = contents size after ++ [after size] := by
    intro after
    rw [contents, List.range_succ, List.map_append]
    rfl
  intro after
  by_cases last : itemIndex < size
  · let modified := Function.update base size (base itemIndex)
    have kept : ∀ u < size, modified u = base u :=
      fun u insideU => Function.update_of_ne (Nat.ne_of_lt insideU) _ _
    have indexes := @indexes _ ctx sizeable size (by omega)
    have usedLast := used size (Nat.lt_succ_self _)
    have usedModified : ∀ u < size, InUse (modified u) := by
      intro u insideU
      rw [kept u insideU]
      exact used u (Nat.lt_succ_of_lt insideU)
    have before : ctx.GheapIsHeap (Function.update modified itemIndex (base itemIndex)) size := by
      rw [← kept itemIndex last, Function.update_eq_self]
      intro u positive insideU
      rw [kept u insideU, kept _ (Nat.lt_trans (indexes.descends u positive) insideU)]
      exact heap u positive (Nat.lt_succ_of_lt insideU)
    -- whichever way the last item is sifted
    have sifted : ctx.GheapIsHeap after size ∧
        (contents size after).Perm
          (contents size (Function.update modified itemIndex (base size))) ∧
        ∀ u, size ≤ u → after u = modified u := by
      have unfolded : after = if ctx.lessComparer (base size) (modified size) then
          ctx.gheapSiftDown modified size itemIndex (base size)
          else ctx.gheapSiftUp 0 (base size) itemIndex itemIndex modified := if_pos last
      rw [unfolded, show modified size = base itemIndex from Function.update_self ..]
      split_ifs with less
      · exact gheapSiftDown_lowers indexes orders last usedModified (used _ inside) usedLast before
          (orders.asymmetric usedLast (used _ inside) less)
      · exact gheapSiftUp_raises indexes orders last usedModified (used _ inside) usedLast before
          (eq_false_of_ne_true less)
    obtain ⟨heapAfter, perm, rest⟩ := sifted
    have removed : after size = base itemIndex :=
      (rest size (Nat.le_refl _)).trans (Function.update_self ..)
    refine ⟨heapAfter, removed, ?_, ?_⟩
    · -- the removed and the last item have changed places
      have swapped : (contents size (Function.update modified itemIndex (base size))) =
          (List.range size).map (base ∘ Equiv.swap itemIndex size) := by
        refine List.map_congr_left fun u member => ?_
        have insideU := List.mem_range.mp member
        rw [Function.comp_apply, Equiv.swap_apply_def]
        by_cases here : u = itemIndex
        · rw [if_pos here, here, Function.update_self]
        · rw [if_neg here, if_neg (Nat.ne_of_lt insideU), Function.update_of_ne here,
            kept u insideU]
      have all : (List.range (size + 1)).map (base ∘ Equiv.swap itemIndex size) =
          (List.range size).map (base ∘ Equiv.swap itemIndex size) ++ [base itemIndex] := by
        rw [List.range_succ, List.map_append, List.map_singleton, Function.comp_apply,
          Equiv.swap_apply_right]
      rw [whole, removed]
      rw [swapped] at perm
      refine (perm.append_right _).trans ?_
      rw [← all, ← List.map_map]
      exact (map_swap_perm inside (Nat.lt_succ_self _)).map _
    · intro u outside
      rw [rest u (by omega)]
      exact Function.update_of_ne (by omega) _ _
  · obtain rfl : itemIndex = size := by omega
    have same : after = base := if_neg last
    rw [same]
    refine ⟨?_, rfl, List.Perm.refl _, fun _ _ => rfl⟩
    exact fun u positive insideU => heap u positive (Nat.lt_succ_of_lt insideU)

/-- `gheap_remove_from_heap` puts any item of a heap behind a heap of the others. -/
theorem gheapRemoveFromHeap_ok (sizeable : ctx.Sizeable) (orders : ctx.Orders InUse)
    (small : size + 1 ≤ sizeMax) (inside : itemIndex < size + 1)
    (used : ∀ u < size + 1, InUse (base u)) (heap : ctx.GheapIsHeap base (size + 1)) :
    ∃ after, ctx.gheapRemoveFromHeap base (size + 1) itemIndex = .ok after ∧
      ctx.GheapIsHeap after size ∧ after size = base itemIndex ∧
      (contents (size + 1) after).Perm (contents (size + 1) base) ∧
      ∀ u, size + 1 ≤ u → after u = base u := by
  have removed := removedHeap_ok sizeable orders small inside used heap
  refine ⟨_, ?_, removed⟩
  rw [gheapRemoveFromHeap_eq base inside]
  exact if_pos ⟨heap, removed.1⟩

theorem gheapRemoveFromHeap_ok_nine :
    let base := fun u => [9, 8, 7, 5, 3, 1, 4, 0, 2].getD u 0
    ∃ after, ternaryPages.gheapRemoveFromHeap base 9 2 = .ok after ∧
      ternaryPages.GheapIsHeap after 8 ∧ after 8 = 7 ∧
      (contents 9 after).Perm (contents 9 base) := by
  obtain ⟨after, removed, heap, last, perm, _⟩ := @gheapRemoveFromHeap_ok Nat ternaryPages
    (fun u => [9, 8, 7, 5, 3, 1, 4, 0, 2].getD u 0) (fun _ => True) 8 2 ⟨by decide, by decide⟩
    ternaryPages_orders (by decide) (by decide) (fun _ _ => trivial) (by decide)
  exact ⟨after, removed, heap, last, perm⟩

end Restoring

section Sorting

variable {size : Nat}

def Ascends (ctx : GheapCtx Item) (heapSize : Nat) (base : Nat → Item) : Prop :=
  ∀ u v, u < v → v < heapSize → ctx.Tops (base v) (base u)

/-- On a heap, `gheap_sort_heap` takes out the greatest item as `gheap_pop_heap` does. -/
theorem gheapSortHeap_succ (heap : ctx.GheapIsHeap base (size + 1)) :
    ctx.gheapSortHeap base (size + 1) =
      (ctx.gheapPopHeap base (size + 1) >>= fun after => ctx.gheapSortHeap after size) := by
  rw [gheapPopHeap_eq]
  cases size with
  | zero =>
    have empty : ctx.GheapIsHeap (ctx.poppedHeap base 1) 0 :=
      fun u _ inside => absurd inside (Nat.not_lt_zero u)
    simp only [asserting, heap, empty, and_self, if_true]
    rfl
  | succ size =>
    have same : ctx.poppedHeap base (size + 2) =
        ctx.swappedMaxItem base (size + 1) (size + 1) := if_pos (by omega)
    rw [same, gheapSortHeap, gheapPopMaxItem, gheapSwapMaxItem_eq]
    simp only [heap, heap.shorter, true_and]

theorem poppedHeap_rest (indexes : ctx.Indexes size) (orders : ctx.Orders InUse)
    (used : ∀ u < size + 1, InUse (base u)) (heap : ctx.GheapIsHeap base (size + 1)) {u : Nat}
    (outside : size + 1 ≤ u) : ctx.poppedHeap base (size + 1) u = base u := by
  rw [gheapIsHeap_iff] at heap
  unfold poppedHeap
  by_cases several : size + 1 > 1
  · rw [if_pos several, Nat.add_sub_cancel, swappedMaxItem]
    have same : ∀ u < size, Function.update base size (base 0) u = base u :=
      fun u inside => Function.update_of_ne (Nat.ne_of_lt inside) _ _
    obtain ⟨_, _, rest⟩ := @gheapSiftDown_ok _ ctx size 0
      (Function.update base size (base 0)) (base size) InUse indexes orders (by omega)
      (fun u inside => by rw [same u inside]; exact used u (Nat.lt_succ_of_lt inside))
      (used size (Nat.lt_succ_self _)) (by
        intro u positive inside _
        rw [same u inside, same _ (Nat.lt_trans (indexes.descends u positive) inside)]
        exact heap u positive (Nat.lt_succ_of_lt inside) (Nat.zero_le _))
    rw [rest u (by omega)]
    exact Function.update_of_ne (by omega) _ _
  · rw [if_neg several]

/-- `gheap_sort_heap` puts the items of a heap in ascending order. -/
theorem gheapSortHeap_ok (sizeable : ctx.Sizeable) (orders : ctx.Orders InUse)
    (small : heapSize ≤ sizeMax) (used : ∀ u < heapSize, InUse (base u))
    (heap : ctx.GheapIsHeap base heapSize) :
    ∃ sorted, ctx.gheapSortHeap base heapSize = .ok sorted ∧ ctx.Ascends heapSize sorted ∧
      (contents heapSize sorted).Perm (contents heapSize base) ∧
      ∀ u, heapSize ≤ u → sorted u = base u := by
  induction heapSize generalizing base with
  | zero =>
    exact ⟨base, rfl, fun u v _ inside => absurd inside (Nat.not_lt_zero _), List.Perm.refl _,
      fun _ _ => rfl⟩
  | succ size inductionHypothesis =>
    have smaller : size ≤ sizeMax := by omega
    have indexes := @indexes _ ctx sizeable size smaller
    obtain ⟨heapAfter, popped, perm⟩ := poppedHeap_ok indexes orders used heap
    have rest := fun u => @poppedHeap_rest _ ctx base InUse size indexes orders used heap u
    let after := ctx.poppedHeap base (size + 1)
    -- what is left are items of the heap
    have usedAfter : ∀ u < size, InUse (after u) := by
      intro u inside
      obtain ⟨v, member, same⟩ := List.mem_map.mp
        (perm.subset (List.mem_cons_of_mem _ (mem_contents inside)))
      rw [show after u = base v from same.symm]
      exact used v (List.mem_range.mp member)
    obtain ⟨sorted, returned, ascends, permAfter, restAfter⟩ :=
      inductionHypothesis smaller usedAfter heapAfter
    have last : sorted size = base 0 := (restAfter size (Nat.le_refl _)).trans popped
    have whole : contents (size + 1) sorted = contents size sorted ++ [base 0] := by
      rw [contents, List.range_succ, List.map_append, List.map_singleton, last]
      rfl
    refine ⟨sorted, ?_, ?_, ?_, ?_⟩
    · rw [gheapSortHeap_succ heap, gheapPopHeap_eq, asserting, if_pos ⟨heap, heapAfter⟩]
      exact returned
    · intro u v before inside
      rcases Nat.lt_succ_iff_lt_or_eq.mp inside with below | rfl
      · exact ascends u v before below
      · -- the greatest item is the last
        rw [last]
        have member := perm.subset (List.mem_cons_of_mem _ (permAfter.subset (mem_contents before)))
        obtain ⟨w, among, same⟩ := List.mem_map.mp member
        rw [← same]
        exact heap.root_greatest (fun u positive => indexes.descends u positive) InUse used
          (fun a usedA => orders.refl usedA)
          (fun a b c usedA usedB usedC => orders.transitive usedA usedB usedC)
          (List.mem_range.mp among)
    · rw [whole]
      refine (permAfter.append_right _).trans ?_
      exact (List.perm_append_singleton (base 0) _).trans perm
    · intro u outside
      rw [restAfter u (by omega)]
      exact rest u outside

/-- Making a heap of any items and sorting it puts them in ascending order, for every fanout and
every page size. -/
theorem gheapMakeHeap_sorts (ctx : GheapCtx Item) (sizeable : ctx.Sizeable) (InUse : Item → Prop)
    (orders : ctx.Orders InUse) (base : Nat → Item) (heapSize : Nat) (small : heapSize ≤ sizeMax)
    (used : ∀ u < heapSize, InUse (base u)) :
    ∃ made sorted, ctx.gheapMakeHeap base heapSize = .ok made ∧
      ctx.gheapSortHeap made heapSize = .ok sorted ∧ ctx.Ascends heapSize sorted ∧
      (contents heapSize sorted).Perm (contents heapSize base) := by
  obtain ⟨made, returned, heap, perm⟩ := gheapMakeHeap_ok (indexes sizeable small) orders used
  obtain ⟨sorted, returnedSorted, ascends, permAfter, _⟩ :=
    gheapSortHeap_ok sizeable orders small (inUse_of_perm perm used) heap
  exact ⟨made, sorted, returned, returnedSorted, ascends, permAfter.trans perm⟩

theorem gheapMakeHeap_sorts_nine :
    let base := fun u => [5, 1, 4, 2, 3, 9, 8, 0, 7].getD u 0
    ∃ made sorted, ternaryPages.gheapMakeHeap base 9 = .ok made ∧
      ternaryPages.gheapSortHeap made 9 = .ok sorted ∧ ternaryPages.Ascends 9 sorted ∧
      (contents 9 sorted).Perm (contents 9 base) :=
  gheapMakeHeap_sorts ternaryPages ⟨by decide, by decide⟩ (fun _ => True) ternaryPages_orders
    (fun u => [5, 1, 4, 2, 3, 9, 8, 0, 7].getD u 0) 9 (by decide) (fun _ _ => trivial)

end Sorting

end GheapCtx

end SpudLib
