import SpudLib.Timer.HeapOperations

/-!
# The operations on a heap only move items

Whatever the comparison answers and whether or not the array is a heap, the
functions of `gheap.h` stop at an assertion, or lose no item, make none up and
stay inside the heap.
-/

namespace SpudLib

namespace GheapCtx

variable {Item : Type} {ctx : GheapCtx Item} {heapSize hole : Nat} {base after : Nat → Item}
  {item : Item}

/-- The items of the first slots have changed places, and the other slots have not changed. -/
def Moves (heapSize : Nat) (base after : Nat → Item) : Prop :=
  (contents heapSize after).Perm (contents heapSize base) ∧ ∀ u, heapSize ≤ u → after u = base u

@[refl] theorem Moves.refl (heapSize : Nat) (base : Nat → Item) : Moves heapSize base base :=
  ⟨List.Perm.refl _, fun _ _ => rfl⟩

theorem Moves.trans {last : Nat → Item} (first : Moves heapSize base after)
    (second : Moves heapSize after last) : Moves heapSize base last :=
  ⟨second.1.trans first.1, fun u outside => (second.2 u outside).trans (first.2 u outside)⟩

theorem Moves.widen (moves : Moves heapSize base after) {size : Nat} (wider : heapSize ≤ size) :
    Moves size base after := by
  refine ⟨?_, fun u outside => moves.2 u (by omega)⟩
  have split : ∀ array : Nat → Item, contents size array = contents heapSize array ++
      (List.range' heapSize (size - heapSize)).map array := by
    intro array
    rw [contents, contents, ← List.map_append, List.range_eq_range', List.range_eq_range']
    have joined := @List.range'_append_1 0 heapSize (size - heapSize)
    rw [Nat.zero_add, Nat.add_sub_cancel' wider] at joined
    rw [joined]
  rw [split, split]
  have same : (List.range' heapSize (size - heapSize)).map after =
      (List.range' heapSize (size - heapSize)).map base :=
    List.map_congr_left fun u member => moves.2 u (List.mem_range'_1.mp member).1
  rw [same]
  exact moves.1.append_right _

theorem Moves.step {next : Nat} (inside : hole < heapSize) (insideNext : next < heapSize)
    (different : next ≠ hole) (moves : Moves heapSize
      (Function.update (Function.update base hole (base next)) next item) after) :
    Moves heapSize (Function.update base hole item) after := by
  refine ⟨moves.1.trans (contents_move inside insideNext different), ?_⟩
  intro u outside
  rw [moves.2 u outside, Function.update_of_ne (by omega), Function.update_of_ne (by omega),
    Function.update_of_ne (by omega)]

section Sifts

theorem gheapSiftUp_moves (descends : ∀ u, 0 < u → ctx.gheapGetParentIndex u < u)
    (root : Nat) {bound : Nat} (inside : hole < heapSize) :
    Moves heapSize (Function.update base hole item)
      (ctx.gheapSiftUp root item bound hole base) := by
  induction bound generalizing hole base with
  | zero => rfl
  | succ bound inductionHypothesis =>
    unfold gheapSiftUp
    by_cases below : hole > root
    · rw [if_pos below]
      have above := descends hole (Nat.zero_lt_of_lt below)
      have insideParent := Nat.lt_trans above inside
      dsimp only
      split_ifs
      · rfl
      · exact (inductionHypothesis insideParent).step inside insideParent (Nat.ne_of_lt above)
    · rw [if_neg below]

theorem gheapMaxChild_lt {count childIndex : Nat} (some : 0 < count) :
    ctx.gheapMaxChild base count childIndex < childIndex + count := by
  unfold gheapMaxChild
  have bounded : ∀ offsets : List Nat, (∀ i ∈ offsets, i < count) → ∀ start,
      start < childIndex + count → offsets.foldl (fun maxChildIndex i =>
        if !ctx.lessComparer (base (childIndex + i)) (base maxChildIndex) then childIndex + i
        else maxChildIndex) start < childIndex + count := by
    intro offsets
    induction offsets with
    | nil => exact fun _ start small => small
    | cons offset offsets inductionHypothesis =>
      intro few start small
      refine inductionHypothesis (fun i member => few i (List.mem_cons_of_mem _ member)) _ ?_
      have near := few offset (List.mem_cons_self ..)
      beta_reduce
      split_ifs
      · exact Nat.add_lt_add_left near _
      · exact small
  refine bounded _ ?_ childIndex (by omega)
  intro i member
  have range := List.mem_range'_1.mp member
  omega

theorem gheapSiftDownHole_moves (indexes : ctx.Indexes heapSize) {bound : Nat}
    (inside : hole < heapSize) :
    let result := ctx.gheapSiftDownHole heapSize (heapSize - (heapSize - 1) % ctx.fanout) bound
      hole base
    result.1 < heapSize ∧ Moves heapSize (Function.update base hole item)
      (Function.update result.2 result.1 item) := by
  induction bound generalizing hole base with
  | zero => exact ⟨inside, .refl _ _⟩
  | succ bound inductionHypothesis =>
    -- whichever child is chosen, it is below the hole and in the heap
    have chosen : ∀ count, 0 < count → count ≤ ctx.fanout →
        ctx.gheapGetChildIndex hole + count ≤ heapSize →
        ctx.gheapMaxChild base count (ctx.gheapGetChildIndex hole) < heapSize ∧
          ctx.gheapMaxChild base count (ctx.gheapGetChildIndex hole) ≠ hole := by
      intro count some few fits
      have least := @le_gheapMaxChild _ ctx base count (ctx.gheapGetChildIndex hole)
      have most := @gheapMaxChild_lt _ ctx base count (ctx.gheapGetChildIndex hole) some
      have positive := indexes.positive hole
      have child := (indexes.children hole _ (Nat.lt_of_lt_of_le positive least) (by omega)).mpr
        ⟨least, by omega⟩
      have descends := indexes.descends _ (Nat.lt_of_lt_of_le positive least)
      omega
    unfold gheapSiftDownHole
    dsimp only
    by_cases last : ctx.gheapGetChildIndex hole ≥ heapSize - (heapSize - 1) % ctx.fanout
    · rw [if_pos last]
      have few := indexes.last hole last
      by_cases childless : ctx.gheapGetChildIndex hole < heapSize
      · rw [if_pos childless]
        obtain ⟨insideNext, different⟩ :=
          chosen (heapSize - ctx.gheapGetChildIndex hole) (by omega) (by omega) (by omega)
        exact ⟨insideNext, (Moves.refl _ _).step inside insideNext different⟩
      · rw [if_neg childless]
        exact ⟨inside, .refl _ _⟩
    · rw [if_neg last]
      have full := indexes.full hole (by omega)
      obtain ⟨insideNext, different⟩ := chosen ctx.fanout indexes.several (Nat.le_refl _) full
      obtain ⟨insideLast, moves⟩ := @inductionHypothesis
        (ctx.gheapMaxChild base ctx.fanout (ctx.gheapGetChildIndex hole))
        (Function.update base hole
          (base (ctx.gheapMaxChild base ctx.fanout (ctx.gheapGetChildIndex hole)))) insideNext
      exact ⟨insideLast, moves.step inside insideNext different⟩

theorem gheapSiftDown_moves (indexes : ctx.Indexes heapSize) (inside : hole < heapSize) :
    Moves heapSize (Function.update base hole item)
      (ctx.gheapSiftDown base heapSize hole item) := by
  obtain ⟨insideLast, moves⟩ :=
    @gheapSiftDownHole_moves _ ctx heapSize hole base item indexes heapSize inside
  exact moves.trans (gheapSiftUp_moves indexes.descends hole insideLast)

end Sifts

section Operations

theorem gheapMakeHeapFrom_moves (indexes : ctx.Indexes heapSize) {i : Nat} (inside : i < heapSize) :
    Moves heapSize base (ctx.gheapMakeHeapFrom heapSize i base) := by
  induction i generalizing base with
  | zero =>
    have moves := @gheapSiftDown_moves _ ctx heapSize 0 base (base 0) indexes inside
    rwa [Function.update_eq_self] at moves
  | succ i inductionHypothesis =>
    have moves := @gheapSiftDown_moves _ ctx heapSize (i + 1) base (base (i + 1)) indexes inside
    rw [Function.update_eq_self] at moves
    exact moves.trans (inductionHypothesis (Nat.lt_of_succ_lt inside))

theorem madeHeap_moves (indexes : ctx.Indexes heapSize) :
    Moves heapSize base (ctx.madeHeap base heapSize) := by
  unfold madeHeap
  split_ifs with several unpaged
  · have small : (heapSize - 2) / ctx.fanout ≤ heapSize - 2 := Nat.div_le_self _ _
    exact gheapMakeHeapFrom_moves indexes (by omega)
  · exact gheapMakeHeapFrom_moves indexes (by omega)
  · rfl

theorem pushedHeap_moves (descends : ∀ u, 0 < u → ctx.gheapGetParentIndex u < u) :
    Moves heapSize base (ctx.pushedHeap base heapSize) := by
  unfold pushedHeap
  split_ifs with several
  · have moves := @gheapSiftUp_moves _ ctx heapSize (heapSize - 1) base (base (heapSize - 1))
      descends 0 (heapSize - 1) (by omega)
    rwa [Function.update_eq_self] at moves
  · rfl

theorem poppedHeap_moves {size : Nat} (indexes : ctx.Indexes size) :
    Moves (size + 1) base (ctx.poppedHeap base (size + 1)) ∧
      ctx.poppedHeap base (size + 1) size = base 0 := by
  unfold poppedHeap
  by_cases several : size + 1 > 1
  · rw [if_pos several, Nat.add_sub_cancel, swappedMaxItem]
    have moves := @gheapSiftDown_moves _ ctx size 0 (Function.update base size (base 0))
      (base size) indexes (by omega)
    have swapped : Moves (size + 1) base
        (Function.update (Function.update base size (base 0)) 0 (base size)) := by
      have step := (Moves.refl (size + 1)
        (Function.update (Function.update base size (base 0)) 0 (base size))).step
        (Nat.lt_succ_self size) (Nat.succ_pos size) (by omega)
      rwa [Function.update_eq_self] at step
    refine ⟨swapped.trans (moves.widen (Nat.le_succ _)), ?_⟩
    rw [moves.2 size (Nat.le_refl _), Function.update_of_ne (by omega), Function.update_self]
  · obtain rfl : size = 0 := by omega
    rw [if_neg several]
    exact ⟨.refl _ _, rfl⟩

theorem removedHeap_moves (sizeable : ctx.Sizeable) {size itemIndex : Nat}
    (small : size ≤ sizeMax) (inside : itemIndex < size + 1) :
    Moves (size + 1) base (ctx.removedHeap base (size + 1) itemIndex) ∧
      ctx.removedHeap base (size + 1) itemIndex size = base itemIndex := by
  have indexes := @indexes _ ctx sizeable size small
  by_cases last : itemIndex < size
  · let modified := Function.update base size (base itemIndex)
    have sifted : Moves size (Function.update modified itemIndex (base size))
        (ctx.removedHeap base (size + 1) itemIndex) := by
      have unfolded : ctx.removedHeap base (size + 1) itemIndex =
          if ctx.lessComparer (base size) (modified size) then
            ctx.gheapSiftDown modified size itemIndex (base size)
          else ctx.gheapSiftUp 0 (base size) itemIndex itemIndex modified := if_pos last
      rw [unfolded]
      split_ifs
      · exact gheapSiftDown_moves indexes last
      · exact gheapSiftUp_moves indexes.descends 0 last
    have swapped : Moves (size + 1) base (Function.update modified itemIndex (base size)) := by
      have step := (Moves.refl (size + 1) (Function.update modified itemIndex (base size))).step
        (Nat.lt_succ_self size) inside (Nat.ne_of_lt last)
      rwa [Function.update_eq_self] at step
    refine ⟨swapped.trans (sifted.widen (Nat.le_succ _)), ?_⟩
    rw [sifted.2 size (Nat.le_refl _), Function.update_of_ne (Nat.ne_of_gt last)]
    exact Function.update_self ..
  · obtain rfl : itemIndex = size := by omega
    have same : ctx.removedHeap base (itemIndex + 1) itemIndex = base := if_neg last
    rw [same]
    exact ⟨.refl _ _, rfl⟩

theorem raisedHeap_moves (descends : ∀ u, 0 < u → ctx.gheapGetParentIndex u < u)
    (inside : hole < heapSize) : Moves heapSize base (ctx.raisedHeap base hole) := by
  unfold raisedHeap
  split_ifs
  · have moves := @gheapSiftUp_moves _ ctx heapSize hole base (base hole) descends 0 hole inside
    rwa [Function.update_eq_self] at moves
  · rfl

theorem loweredHeap_moves (indexes : ctx.Indexes heapSize) (inside : hole < heapSize) :
    Moves heapSize base (ctx.loweredHeap base heapSize hole) := by
  have moves := @gheapSiftDown_moves _ ctx heapSize hole base (base hole) indexes inside
  rwa [Function.update_eq_self] at moves

end Operations

section Assertions

/-- The operation stops at an assertion, or returns with the items of the first slots moved. -/
def Shuffles (heapSize : Nat) (base : Nat → Item) (Left : (Nat → Item) → Prop)
    (outcome : Exec (Nat → Item)) : Prop :=
  outcome = .error .assertFailed ∨
    ∃ after, outcome = .ok after ∧ Moves heapSize base after ∧ Left after

theorem Moves.shuffles {Left : (Nat → Item) → Prop} {condition : Prop} [Decidable condition]
    (moves : Moves heapSize base after) (left : condition → Left after) :
    Shuffles heapSize base Left (asserting condition after) := by
  unfold asserting
  split_ifs with holds
  · exact .inr ⟨after, rfl, moves, left holds⟩
  · exact .inl rfl

theorem gheapSortHeap_shuffles (sizeable : ctx.Sizeable) (small : heapSize ≤ sizeMax) :
    Shuffles heapSize base (fun _ => True) (ctx.gheapSortHeap base heapSize) := by
  induction heapSize generalizing base with
  | zero => exact .inr ⟨base, rfl, .refl _ _, trivial⟩
  | succ size inductionHypothesis =>
    cases size with
    | zero => exact .inr ⟨base, rfl, .refl _ _, trivial⟩
    | succ size =>
      obtain ⟨moves, _⟩ := @poppedHeap_moves _ ctx base (size + 1) (indexes sizeable (by omega))
      have same : ctx.poppedHeap base (size + 2) =
          ctx.swappedMaxItem base (size + 1) (size + 1) := if_pos (by omega)
      rw [same] at moves
      rw [gheapSortHeap, gheapPopMaxItem, gheapSwapMaxItem_eq, asserting]
      split_ifs
      · rw [Exec.ok_bind]
        rcases @inductionHypothesis (ctx.swappedMaxItem base (size + 1) (size + 1)) (by omega)
          with stops | ⟨sorted, returned, onward, _⟩
        · exact .inl stops
        · exact .inr ⟨sorted, returned, moves.trans (onward.widen (Nat.le_succ _)), trivial⟩
      · exact .inl rfl

/-- Whatever the comparison answers, and whether or not the array is a heap, a function of
`gheap.h` that does not stop at an assertion loses no item, makes none up, writes nothing outside
the heap and leaves a heap. -/
theorem gheap_shuffles (ctx : GheapCtx Item) (sizeable : ctx.Sizeable) (base : Nat → Item)
    (heapSize : Nat) (small : heapSize ≤ sizeMax) :
    Shuffles heapSize base (ctx.GheapIsHeap · heapSize) (ctx.gheapMakeHeap base heapSize) ∧
      Shuffles heapSize base (ctx.GheapIsHeap · heapSize) (ctx.gheapPushHeap base heapSize) ∧
      Shuffles heapSize base
        (fun after => ctx.GheapIsHeap after (heapSize - 1) ∧ after (heapSize - 1) = base 0)
        (ctx.gheapPopHeap base heapSize) ∧
      Shuffles heapSize base (fun _ => True) (ctx.gheapSortHeap base heapSize) ∧
      ∀ itemIndex < heapSize,
        Shuffles heapSize base (ctx.GheapIsHeap · heapSize)
          (ctx.gheapRestoreHeapAfterItemIncrease base heapSize itemIndex) ∧
        Shuffles heapSize base (ctx.GheapIsHeap · heapSize)
          (ctx.gheapRestoreHeapAfterItemDecrease base heapSize itemIndex) ∧
        Shuffles heapSize base
          (fun after => ctx.GheapIsHeap after (heapSize - 1) ∧
            after (heapSize - 1) = base itemIndex)
          (ctx.gheapRemoveFromHeap base heapSize itemIndex) := by
  have indexes := @indexes _ ctx sizeable heapSize small
  have sorts := @gheapSortHeap_shuffles _ ctx heapSize base sizeable small
  have makes : Shuffles heapSize base (ctx.GheapIsHeap · heapSize)
      (ctx.gheapMakeHeap base heapSize) := by
    rw [gheapMakeHeap_eq]
    exact (madeHeap_moves indexes).shuffles id
  cases heapSize with
  | zero => exact ⟨makes, .inl rfl, .inl rfl, sorts, fun _ inside => absurd inside (by omega)⟩
  | succ size =>
    have indexesLeft := @GheapCtx.indexes _ ctx sizeable size (by omega)
    refine ⟨makes, ?_, ?_, sorts, ?_⟩
    · rw [gheapPushHeap_eq]
      exact (pushedHeap_moves indexes.descends).shuffles And.right
    · obtain ⟨moves, last⟩ := @poppedHeap_moves _ ctx base size indexesLeft
      rw [gheapPopHeap_eq]
      exact moves.shuffles fun heaps => ⟨heaps.2, last⟩
    · intro itemIndex inside
      rw [gheapRestoreHeapAfterItemIncrease_eq base inside,
        gheapRestoreHeapAfterItemDecrease_eq base inside, gheapRemoveFromHeap_eq base inside]
      obtain ⟨moves, last⟩ := @removedHeap_moves _ ctx base sizeable size itemIndex (by omega)
        inside
      exact ⟨(raisedHeap_moves indexes.descends inside).shuffles And.right,
        (loweredHeap_moves indexes inside).shuffles And.right,
        moves.shuffles fun heaps => ⟨heaps.2, last⟩⟩

/-- Each of three is less than the next, and the last is less than the first. -/
def circular : GheapCtx Nat := ⟨2, 512, fun a b => (a + 1) % 3 == b⟩

theorem gheap_shuffles_circular :
    let base := fun u => [1, 0, 2, 2].getD u 0
    ∃ after, circular.gheapMakeHeap base 4 = .ok after ∧
      (contents 4 after).Perm (contents 4 base) := by
  intro base
  rcases (gheap_shuffles circular ⟨by decide, by decide⟩ base 4 (by decide)).1 with
    stops | ⟨after, returned, moves, _⟩
  · have returns : (circular.gheapMakeHeap base 4).toOption.isSome = true := by decide
    rw [stops] at returns
    cases returns
  · exact ⟨after, returned, moves.1⟩

end Assertions

end GheapCtx

end SpudLib
