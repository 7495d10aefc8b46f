import SpudLib.Timer.Gheap
import Mathlib.Data.List.Nodup
import Mathlib.Data.List.Range
import Mathlib.Logic.Equiv.Basic
import Mathlib.Tactic.SplitIfs

/-!
# The paged heap is a heap

Whatever the fanout and the paging, sifting keeps the items and restores the
order of the heap, as long as the index functions describe a tree and the
comparison orders the items in use.  Sifting down moves greatest children up
until the hole is a leaf and then sifts the item up from there, so that both
loops work on an array with a hole, in order but for the hole.
-/

namespace SpudLib

namespace GheapCtx

variable {Item : Type}

structure Indexes (ctx : GheapCtx Item) (heapSize : Nat) : Prop where
  several : 0 < ctx.fanout
  descends : ∀ u, 0 < u → ctx.gheapGetParentIndex u < u
  positive : ∀ u, 0 < ctx.gheapGetChildIndex u
  children : ∀ u v, 0 < v → v < heapSize → (ctx.gheapGetParentIndex v = u ↔
    ctx.gheapGetChildIndex u ≤ v ∧ v < ctx.gheapGetChildIndex u + ctx.fanout)
  full : ∀ u, ctx.gheapGetChildIndex u < heapSize - (heapSize - 1) % ctx.fanout →
    ctx.gheapGetChildIndex u + ctx.fanout ≤ heapSize
  last : ∀ u, heapSize - (heapSize - 1) % ctx.fanout ≤ ctx.gheapGetChildIndex u →
    heapSize ≤ ctx.gheapGetChildIndex u + ctx.fanout
  beyond : ∀ u, heapSize - (heapSize - 1) % ctx.fanout ≤ u → heapSize ≤ ctx.gheapGetChildIndex u
  start : ctx.pageChunks = 1 → ∀ u, 0 < u → ctx.gheapGetParentIndex u = (u - 1) / ctx.fanout

def Tops (ctx : GheapCtx Item) (first second : Item) : Prop :=
  ctx.lessComparer first second = false

structure Orders (ctx : GheapCtx Item) (InUse : Item → Prop) : Prop where
  asymmetric : ∀ {a b}, InUse a → InUse b → ctx.lessComparer a b = true → ctx.Tops b a
  transitive : ∀ {a b c}, InUse a → InUse b → InUse c → ctx.Tops a b → ctx.Tops b c →
    ctx.Tops a c

theorem Orders.refl {ctx : GheapCtx Item} {InUse : Item → Prop} (orders : ctx.Orders InUse)
    {a : Item} (used : InUse a) : ctx.Tops a a := by
  by_contra less
  have reversed := orders.asymmetric used used (Bool.not_eq_false _ ▸ less)
  exact less reversed

/-- The heap below `root`: every parent from `root` on tops its children. -/
def HeapFrom (ctx : GheapCtx Item) (heapSize root : Nat) (base : Nat → Item) : Prop :=
  ∀ u, 0 < u → u < heapSize → root ≤ ctx.gheapGetParentIndex u →
    ctx.Tops (base (ctx.gheapGetParentIndex u)) (base u)

theorem gheapIsHeap_iff {ctx : GheapCtx Item} {base : Nat → Item} {heapSize : Nat} :
    ctx.GheapIsHeap base heapSize ↔ ctx.HeapFrom heapSize 0 base :=
  ⟨fun heap u positive inside _ => heap u positive inside,
    fun heap u positive inside => heap u positive inside (Nat.zero_le _)⟩

/-- In order but for a hole: what does not touch the hole is in order, and what stands
above the hole tops what stands below it. -/
structure Parted (ctx : GheapCtx Item) (heapSize root hole : Nat) (base : Nat → Item) : Prop where
  off : ∀ u, 0 < u → u < heapSize → root ≤ ctx.gheapGetParentIndex u → u ≠ hole →
    ctx.gheapGetParentIndex u ≠ hole → ctx.Tops (base (ctx.gheapGetParentIndex u)) (base u)
  across : hole ≠ root → ∀ u, 0 < u → u < heapSize → ctx.gheapGetParentIndex u = hole →
    ctx.Tops (base (ctx.gheapGetParentIndex hole)) (base u)

inductive Under (ctx : GheapCtx Item) (root : Nat) : Nat → Prop where
  | root : Under ctx root root
  | child {u} : 0 < u → Under ctx root (ctx.gheapGetParentIndex u) → Under ctx root u

variable {ctx : GheapCtx Item} {heapSize root hole : Nat} {base : Nat → Item} {item : Item}
  {InUse : Item → Prop}

theorem Under.le (indexes : ctx.Indexes heapSize) (under : ctx.Under root hole) : root ≤ hole := by
  induction under with
  | root => exact Nat.le_refl _
  | child positive _ inductionHypothesis =>
    exact Nat.le_trans inductionHypothesis (Nat.le_of_lt (indexes.descends _ positive))

theorem Under.parent (under : ctx.Under root hole) (below : hole ≠ root) :
    ctx.Under root (ctx.gheapGetParentIndex hole) := by
  cases under with
  | root => exact absurd rfl below
  | child _ above => exact above

section Contents

def contents (heapSize : Nat) (base : Nat → Item) : List Item := (List.range heapSize).map base

theorem map_swap_perm {a b : Nat} (insideA : a < heapSize) (insideB : b < heapSize) :
    ((List.range heapSize).map (Equiv.swap a b)).Perm (List.range heapSize) := by
  refine (List.perm_ext_iff_of_nodup (List.nodup_range.map (Equiv.injective _))
    List.nodup_range).mpr ?_
  intro u
  rw [List.mem_map, List.mem_range]
  constructor
  · rintro ⟨v, member, rfl⟩
    rw [List.mem_range] at member
    rw [Equiv.swap_apply_def]
    split_ifs <;> assumption
  · intro inside
    refine ⟨Equiv.swap a b u, ?_, Equiv.swap_apply_self a b u⟩
    rw [List.mem_range, Equiv.swap_apply_def]
    split_ifs <;> assumption

/-- Moving an item into the hole moves the hole, and keeps the items. -/
theorem contents_move {next : Nat} (inside : hole < heapSize) (insideNext : next < heapSize)
    (different : next ≠ hole) :
    (contents heapSize (Function.update (Function.update base hole (base next)) next item)).Perm
      (contents heapSize (Function.update base hole item)) := by
  have swapped : Function.update (Function.update base hole (base next)) next item =
      Function.update base hole item ∘ Equiv.swap hole next := by
    funext u
    rw [Function.comp_apply, Equiv.swap_apply_def]
    split_ifs with atHole atNext
    · rw [atHole, Function.update_of_ne different.symm, Function.update_self,
        Function.update_of_ne different]
    · rw [atNext, Function.update_self, Function.update_self]
    · rw [Function.update_of_ne atNext, Function.update_of_ne atHole,
        Function.update_of_ne atHole]
  rw [swapped, contents, ← List.map_map]
  exact (map_swap_perm inside insideNext).map _

theorem mem_contents {u : Nat} (inside : u < heapSize) : base u ∈ contents heapSize base :=
  List.mem_map_of_mem (List.mem_range.mpr inside)

theorem inUse_of_perm {after : Nat → Item} (perm : (contents heapSize after).Perm
    (contents heapSize base)) (used : ∀ u < heapSize, InUse (base u)) :
    ∀ u < heapSize, InUse (after u) := by
  intro u inside
  obtain ⟨v, member, same⟩ := List.mem_map.mp (perm.mem_iff.mp (mem_contents inside))
  rw [← same]
  exact used v (List.mem_range.mp member)

end Contents

section SiftUp

theorem Parted.fill (parted : ctx.Parted heapSize root hole base)
    (indexes : ctx.Indexes heapSize)
    (below : ∀ u, 0 < u → u < heapSize → ctx.gheapGetParentIndex u = hole →
      ctx.Tops item (base u))
    (above : root < hole → ctx.Tops (base (ctx.gheapGetParentIndex hole)) item) :
    ctx.HeapFrom heapSize root (Function.update base hole item) := by
  intro u positive inside reached
  have descends := indexes.descends u positive
  by_cases here : u = hole
  · subst here
    rw [Function.update_self, Function.update_of_ne (Nat.ne_of_lt descends)]
    exact above (Nat.lt_of_le_of_lt reached descends)
  · rw [Function.update_of_ne here]
    by_cases child : ctx.gheapGetParentIndex u = hole
    · rw [child, Function.update_self]
      exact below u positive inside child
    · rw [Function.update_of_ne child]
      exact parted.off u positive inside reached here child

/-- The parent of the hole moves down into it. -/
theorem Parted.rise (parted : ctx.Parted heapSize root hole base)
    (indexes : ctx.Indexes heapSize) (orders : ctx.Orders InUse)
    (used : ∀ u < heapSize, InUse (base u)) (inside : hole < heapSize)
    (under : ctx.Under root hole) (below : hole ≠ root) (positive : 0 < hole) :
    ctx.Parted heapSize root (ctx.gheapGetParentIndex hole)
      (Function.update base hole (base (ctx.gheapGetParentIndex hole))) := by
  have descends := indexes.descends hole positive
  have parentInside : ctx.gheapGetParentIndex hole < heapSize := Nat.lt_trans descends inside
  constructor
  · intro u positiveU insideU reached notParent childOff
    by_cases here : u = hole
    · exact absurd (congrArg ctx.gheapGetParentIndex here) childOff
    · rw [Function.update_of_ne here]
      by_cases child : ctx.gheapGetParentIndex u = hole
      · rw [child, Function.update_self]
        exact parted.across below u positiveU insideU child
      · rw [Function.update_of_ne child]
        exact parted.off u positiveU insideU reached here child
  · intro parentBelow u positiveU insideU child
    have positiveParent : 0 < ctx.gheapGetParentIndex hole := by
      have least := (under.parent below).le indexes
      omega
    have grandUnder := ((under.parent below).parent parentBelow).le indexes
    have grandDescends := indexes.descends _ positiveParent
    have different : ctx.gheapGetParentIndex (ctx.gheapGetParentIndex hole) ≠ hole := by omega
    -- the grandparent tops the parent, and the parent its children
    have tops : ctx.Tops (base (ctx.gheapGetParentIndex (ctx.gheapGetParentIndex hole)))
        (base (ctx.gheapGetParentIndex hole)) :=
      parted.off _ positiveParent parentInside grandUnder (Nat.ne_of_lt descends) different
    rw [Function.update_of_ne different]
    by_cases here : u = hole
    · rw [here, Function.update_self]
      exact tops
    · rw [Function.update_of_ne here]
      have parentOff : ctx.gheapGetParentIndex u ≠ hole := by
        rw [child]
        exact Nat.ne_of_lt descends
      have sibling := parted.off u positiveU insideU
        (by rw [child]; exact (under.parent below).le indexes) here parentOff
      rw [child] at sibling
      exact orders.transitive (used _ (Nat.lt_trans grandDescends parentInside))
        (used _ parentInside) (used u insideU) tops sibling

/-- `_gheap_sift_up` completes the heap, keeps the items and leaves the other slots alone. -/
theorem gheapSiftUp_ok (indexes : ctx.Indexes heapSize) (orders : ctx.Orders InUse)
    (usedItem : InUse item) {bound : Nat} (enough : hole ≤ bound) (inside : hole < heapSize)
    (under : ctx.Under root hole) (used : ∀ u < heapSize, InUse (base u))
    (parted : ctx.Parted heapSize root hole base)
    (below : ∀ u, 0 < u → u < heapSize → ctx.gheapGetParentIndex u = hole →
      ctx.Tops item (base u)) :
    ctx.HeapFrom heapSize root (ctx.gheapSiftUp root item bound hole base) ∧
      (contents heapSize (ctx.gheapSiftUp root item bound hole base)).Perm
        (contents heapSize (Function.update base hole item)) ∧
      ∀ u, heapSize ≤ u → ctx.gheapSiftUp root item bound hole base u = base u := by
  have others : ∀ (base : Nat → Item) (hole : Nat) (item : Item), hole < heapSize →
      ∀ u, heapSize ≤ u → Function.update base hole item u = base u := by
    intro base hole item inside u outside
    exact Function.update_of_ne (by omega) _ _
  induction bound generalizing hole base with
  | zero =>
    obtain rfl : hole = 0 := by omega
    exact ⟨parted.fill indexes below (fun deeper => absurd deeper (Nat.not_lt_zero _)),
      List.Perm.refl _, others base 0 item inside⟩
  | succ bound inductionHypothesis =>
    unfold gheapSiftUp
    have least := under.le indexes
    by_cases deeper : hole > root
    · rw [if_pos deeper]
      have positive : 0 < hole := Nat.zero_lt_of_lt deeper
      have descends := indexes.descends hole positive
      have parentInside : ctx.gheapGetParentIndex hole < heapSize := Nat.lt_trans descends inside
      simp only []
      by_cases stops : ctx.Tops (base (ctx.gheapGetParentIndex hole)) item
      · rw [if_pos (by rw [show ctx.lessComparer _ item = false from stops]; rfl)]
        exact ⟨parted.fill indexes below fun _ => stops, List.Perm.refl _,
          others base hole item inside⟩
      · have less : ctx.lessComparer (base (ctx.gheapGetParentIndex hole)) item = true :=
          Bool.not_eq_false _ ▸ stops
        rw [if_neg (by rw [less]; exact Bool.false_ne_true)]
        have tops : ctx.Tops item (base (ctx.gheapGetParentIndex hole)) :=
          orders.asymmetric (used _ parentInside) usedItem less
        have below' : hole ≠ root := Nat.ne_of_gt deeper
        have usedNext : ∀ u < heapSize, InUse (Function.update base hole
            (base (ctx.gheapGetParentIndex hole)) u) := by
          intro u insideU
          by_cases here : u = hole
          · rw [here, Function.update_self]
            exact used _ parentInside
          · rw [Function.update_of_ne here]
            exact used u insideU
        obtain ⟨heap, perm, rest⟩ := inductionHypothesis (by omega) parentInside
          (under.parent below') usedNext
          (parted.rise indexes orders used inside under below' positive) (by
            intro u positiveU insideU child
            by_cases here : u = hole
            · rw [here, Function.update_self]
              exact tops
            · rw [Function.update_of_ne here]
              have sibling := parted.off u positiveU insideU
                (by rw [child]; exact (under.parent below').le indexes) here
                (by rw [child]; exact Nat.ne_of_lt descends)
              rw [child] at sibling
              exact orders.transitive usedItem (used _ parentInside) (used u insideU) tops sibling)
        refine ⟨heap, perm.trans (contents_move inside parentInside (Nat.ne_of_lt descends)), ?_⟩
        intro u outside
        rw [rest u outside, others base hole _ inside u outside]
    · rw [if_neg deeper]
      exact ⟨parted.fill indexes below fun more => absurd more deeper, List.Perm.refl _,
        others base hole item inside⟩

end SiftUp

section SiftDown

theorem gheapMaxChild_ok (orders : ctx.Orders InUse) {count childIndex : Nat} (some : 0 < count)
    (used : ∀ i < count, InUse (base (childIndex + i))) :
    ∃ i < count, ctx.gheapMaxChild base count childIndex = childIndex + i ∧
      ∀ j < count, ctx.Tops (base (childIndex + i)) (base (childIndex + j)) := by
  obtain ⟨more, rfl⟩ := Nat.exists_eq_succ_of_ne_zero (Nat.ne_of_gt some)
  unfold gheapMaxChild
  rw [Nat.succ_sub_one]
  induction more with
  | zero =>
    refine ⟨0, Nat.one_pos, rfl, ?_⟩
    intro j inside
    rw [Nat.lt_one_iff.mp inside]
    exact orders.refl (used 0 Nat.one_pos)
  | succ more inductionHypothesis =>
    obtain ⟨i, inside, greatest, tops⟩ := inductionHypothesis (Nat.succ_pos _)
      fun i inside => used i (Nat.lt_succ_of_lt inside)
    rw [List.range'_concat, List.foldl_concat, greatest]
    have usedI := used i (Nat.lt_succ_of_lt inside)
    have usedNew := used (more + 1) (Nat.lt_succ_self _)
    rw [Nat.one_mul, Nat.add_comm 1 more]
    by_cases less : ctx.lessComparer (base (childIndex + (more + 1))) (base (childIndex + i)) = true
    · refine ⟨i, Nat.lt_succ_of_lt inside, by rw [less]; rfl, ?_⟩
      intro j insideJ
      rcases Nat.lt_succ_iff_lt_or_eq.mp insideJ with old | rfl
      · exact tops j old
      · exact orders.asymmetric usedNew usedI less
    · have above : ctx.Tops (base (childIndex + (more + 1))) (base (childIndex + i)) :=
        eq_false_of_ne_true less
      refine ⟨more + 1, Nat.lt_succ_self _,
        by rw [show ctx.lessComparer _ _ = false from above]; rfl, ?_⟩
      intro j insideJ
      rcases Nat.lt_succ_iff_lt_or_eq.mp insideJ with old | rfl
      · exact orders.transitive usedNew usedI (used j (Nat.lt_succ_of_lt old)) above (tops j old)
      · exact orders.refl usedNew

/-- The greatest child moves up into the hole. -/
theorem Parted.sink (parted : ctx.Parted heapSize root hole base)
    (indexes : ctx.Indexes heapSize) {next : Nat} (positive : 0 < next) (inside : next < heapSize)
    (child : ctx.gheapGetParentIndex next = hole) (under : ctx.Under root hole)
    (tops : ∀ u, 0 < u → u < heapSize → ctx.gheapGetParentIndex u = hole →
      ctx.Tops (base next) (base u)) :
    ctx.Parted heapSize root next (Function.update base hole (base next)) := by
  have descends := indexes.descends next positive
  have least := under.le indexes
  constructor
  · intro u positiveU insideU reached different childOff
    by_cases here : u = hole
    · subst here
      have above := indexes.descends u positiveU
      rw [Function.update_self, Function.update_of_ne (Nat.ne_of_lt above)]
      exact parted.across (by omega) next positive inside child
    · rw [Function.update_of_ne here]
      by_cases sibling : ctx.gheapGetParentIndex u = hole
      · rw [sibling, Function.update_self]
        exact tops u positiveU insideU sibling
      · rw [Function.update_of_ne sibling]
        exact parted.off u positiveU insideU reached here sibling
  · intro _ u positiveU insideU grandchild
    have below := indexes.descends u positiveU
    rw [child, Function.update_self, Function.update_of_ne (by omega)]
    have edge := parted.off u positiveU insideU (by omega) (by omega) (by omega)
    rw [grandchild] at edge
    exact edge

/-- What the descent of `_gheap_sift_down` ends with: a hole without children. -/
structure Descended (ctx : GheapCtx Item) (InUse : Item → Prop) (heapSize root hole : Nat)
    (base : Nat → Item) (result : Nat × (Nat → Item)) : Prop where
  inside : result.1 < heapSize
  under : ctx.Under root result.1
  used : ∀ u < heapSize, InUse (result.2 u)
  parted : ctx.Parted heapSize root result.1 result.2
  leaf : ∀ u, 0 < u → u < heapSize → ctx.gheapGetParentIndex u ≠ result.1
  items : ∀ item, (contents heapSize (Function.update result.2 result.1 item)).Perm
    (contents heapSize (Function.update base hole item))
  rest : ∀ u, heapSize ≤ u → result.2 u = base u

theorem Descended.step {next : Nat} {result : Nat × (Nat → Item)}
    (descended : ctx.Descended InUse heapSize root next
      (Function.update base hole (base next)) result)
    (insideHole : hole < heapSize) (inside : next < heapSize) (different : next ≠ hole) :
    ctx.Descended InUse heapSize root hole base result := by
  refine ⟨descended.inside, descended.under, descended.used, descended.parted, descended.leaf,
    ?_, ?_⟩
  · intro item
    exact (descended.items item).trans (contents_move insideHole inside different)
  · intro u outside
    rw [descended.rest u outside]
    exact Function.update_of_ne (by omega) _ _

theorem gheapSiftDownHole_ok (indexes : ctx.Indexes heapSize) (orders : ctx.Orders InUse)
    {bound : Nat} (enough : heapSize ≤ hole + bound) (inside : hole < heapSize)
    (under : ctx.Under root hole) (used : ∀ u < heapSize, InUse (base u))
    (parted : ctx.Parted heapSize root hole base) :
    ctx.Descended InUse heapSize root hole base
      (ctx.gheapSiftDownHole heapSize (heapSize - (heapSize - 1) % ctx.fanout) bound hole
        base) := by
  induction bound generalizing hole base with
  | zero => omega
  | succ bound inductionHypothesis =>
    -- the greatest of the children that the hole has
    have greatest : ∀ count, 0 < count → count ≤ ctx.fanout →
        ctx.gheapGetChildIndex hole + count ≤ heapSize →
        (∀ u, u < heapSize → u < ctx.gheapGetChildIndex hole + ctx.fanout →
          u < ctx.gheapGetChildIndex hole + count) →
        ∃ next, ctx.gheapMaxChild base count (ctx.gheapGetChildIndex hole) = next ∧ 0 < next ∧
          next < heapSize ∧ ctx.gheapGetParentIndex next = hole ∧
          ∀ u, 0 < u → u < heapSize → ctx.gheapGetParentIndex u = hole →
            ctx.Tops (base next) (base u) := by
      intro count some few fits all
      obtain ⟨i, insideI, found, tops⟩ := @gheapMaxChild_ok _ ctx base InUse orders count
        (ctx.gheapGetChildIndex hole) some fun i insideI => used _ (by omega)
      have positive : 0 < ctx.gheapGetChildIndex hole + i :=
        Nat.lt_of_lt_of_le (indexes.positive hole) (Nat.le_add_right _ _)
      refine ⟨_, found, positive, by omega, ?_, ?_⟩
      · exact (indexes.children hole _ positive (by omega)).mpr ⟨by omega, by omega⟩
      · intro u positiveU insideU child
        obtain ⟨least, most⟩ := (indexes.children hole u positiveU insideU).mp child
        have same : ctx.gheapGetChildIndex hole + (u - ctx.gheapGetChildIndex hole) = u := by omega
        have few := all u insideU most
        have above := tops (u - ctx.gheapGetChildIndex hole) (by omega)
        rw [same] at above
        exact above
    have usedNext : ∀ next, next < heapSize → ∀ u < heapSize,
        InUse (Function.update base hole (base next) u) := by
      intro next insideNext u insideU
      by_cases here : u = hole
      · rw [here, Function.update_self]
        exact used next insideNext
      · rw [Function.update_of_ne here]
        exact used u insideU
    unfold gheapSiftDownHole
    simp only []
    by_cases least : heapSize - (heapSize - 1) % ctx.fanout ≤ ctx.gheapGetChildIndex hole
    · rw [if_pos least]
      have few := indexes.last hole least
      by_cases childless : heapSize ≤ ctx.gheapGetChildIndex hole
      · rw [if_neg (by omega)]
        refine ⟨inside, under, used, parted, ?_, fun _ => List.Perm.refl _, fun _ _ => rfl⟩
        intro u positiveU insideU child
        have beyond := (indexes.children hole u positiveU insideU).mp child
        omega
      · rw [if_pos (by omega)]
        obtain ⟨next, found, positive, insideNext, child, tops⟩ :=
          greatest (heapSize - ctx.gheapGetChildIndex hole) (by omega) (by omega) (by omega)
            (by omega)
        have descends := indexes.descends next positive
        rw [child] at descends
        rw [found]
        have underNext : ctx.Under root next := .child positive (child ▸ under)
        refine Descended.step ⟨insideNext, underNext, usedNext next insideNext,
          parted.sink indexes positive insideNext child under tops, ?_,
          fun _ => List.Perm.refl _, fun _ _ => rfl⟩ inside insideNext (Nat.ne_of_gt descends)
        intro u positiveU insideU grandchild
        have reached := (indexes.children hole next positive insideNext).mp child
        have beyond := indexes.beyond next (by omega)
        have children := (indexes.children next u positiveU insideU).mp grandchild
        omega
    · rw [if_neg least]
      obtain ⟨next, found, positive, insideNext, child, tops⟩ :=
        greatest ctx.fanout indexes.several (Nat.le_refl _) (indexes.full hole (by omega))
          fun _ _ most => most
      have descends := indexes.descends next positive
      rw [child] at descends
      rw [found]
      have underNext : ctx.Under root next := .child positive (child ▸ under)
      exact (inductionHypothesis (by omega) insideNext underNext (usedNext next insideNext)
        (parted.sink indexes positive insideNext child under tops)).step inside insideNext
          (Nat.ne_of_gt descends)

/-- `_gheap_sift_down` makes a heap of what was one but for its root, keeps the items and
leaves the other slots alone. -/
theorem gheapSiftDown_ok (indexes : ctx.Indexes heapSize) (orders : ctx.Orders InUse)
    (inside : root < heapSize) (used : ∀ u < heapSize, InUse (base u)) (usedItem : InUse item)
    (heap : ctx.HeapFrom heapSize (root + 1) base) :
    ctx.HeapFrom heapSize root (ctx.gheapSiftDown base heapSize root item) ∧
      (contents heapSize (ctx.gheapSiftDown base heapSize root item)).Perm
        (contents heapSize (Function.update base root item)) ∧
      ∀ u, heapSize ≤ u → ctx.gheapSiftDown base heapSize root item u = base u := by
  have parted : ctx.Parted heapSize root root base := by
    refine ⟨?_, fun below => absurd rfl below⟩
    intro u positive insideU reached _ childOff
    exact heap u positive insideU (by omega)
  have descended := @gheapSiftDownHole_ok _ ctx heapSize root root base InUse indexes orders
    heapSize (Nat.le_add_left _ _) inside .root used parted
  obtain ⟨heapAfter, perm, rest⟩ := @gheapSiftUp_ok _ ctx heapSize root _ _ item InUse indexes
    orders usedItem _ (Nat.le_refl _) descended.inside descended.under descended.used
    descended.parted
    fun u positive insideU child => absurd child (descended.leaf u positive insideU)
  refine ⟨heapAfter, perm.trans (descended.items item), ?_⟩
  intro u outside
  exact (rest u outside).trans (descended.rest u outside)

end SiftDown

section Heaps

theorem gheapMakeHeapFrom_ok (indexes : ctx.Indexes heapSize) (orders : ctx.Orders InUse)
    {i : Nat} (inside : i < heapSize) (used : ∀ u < heapSize, InUse (base u))
    (heap : ctx.HeapFrom heapSize (i + 1) base) :
    ctx.HeapFrom heapSize 0 (ctx.gheapMakeHeapFrom heapSize i base) ∧
      (contents heapSize (ctx.gheapMakeHeapFrom heapSize i base)).Perm
        (contents heapSize base) := by
  induction i generalizing base with
  | zero =>
    obtain ⟨heap, perm, _⟩ := gheapSiftDown_ok indexes orders inside used (used 0 inside) heap
    rw [Function.update_eq_self] at perm
    exact ⟨heap, perm⟩
  | succ i inductionHypothesis =>
    obtain ⟨heap, perm, _⟩ := gheapSiftDown_ok indexes orders inside used (used _ inside) heap
    rw [Function.update_eq_self] at perm
    obtain ⟨heapAfter, permAfter⟩ :=
      inductionHypothesis (Nat.lt_of_succ_lt inside) (inUse_of_perm perm used) heap
    exact ⟨heapAfter, permAfter.trans perm⟩

theorem madeHeap_ok (indexes : ctx.Indexes heapSize) (orders : ctx.Orders InUse)
    (used : ∀ u < heapSize, InUse (base u)) :
    ctx.GheapIsHeap (ctx.madeHeap base heapSize) heapSize ∧
      (contents heapSize (ctx.madeHeap base heapSize)).Perm (contents heapSize base) := by
  rw [gheapIsHeap_iff]
  unfold madeHeap
  by_cases several : heapSize > 1
  · rw [if_pos several]
    by_cases unpaged : ctx.pageChunks = 1
    · rw [if_pos unpaged]
      have small : (heapSize - 2) / ctx.fanout ≤ heapSize - 2 := Nat.div_le_self _ _
      refine gheapMakeHeapFrom_ok indexes orders (by omega) used ?_
      intro u positive inside reached
      rw [indexes.start unpaged u positive] at reached
      have mono : (u - 1) / ctx.fanout ≤ (heapSize - 2) / ctx.fanout :=
        Nat.div_le_div_right (by omega)
      omega
    · rw [if_neg unpaged]
      refine gheapMakeHeapFrom_ok indexes orders (by omega) used ?_
      intro u positive inside reached
      have descends := indexes.descends u positive
      omega
  · rw [if_neg several]
    exact ⟨fun u positive inside => by omega, List.Perm.refl _⟩

/-- `gheap_make_heap` makes a heap of any items. -/
theorem gheapMakeHeap_ok (indexes : ctx.Indexes heapSize) (orders : ctx.Orders InUse)
    (used : ∀ u < heapSize, InUse (base u)) :
    ∃ after, ctx.gheapMakeHeap base heapSize = .ok after ∧ ctx.GheapIsHeap after heapSize ∧
      (contents heapSize after).Perm (contents heapSize base) := by
  obtain ⟨heap, perm⟩ := madeHeap_ok indexes orders used
  refine ⟨_, ?_, heap, perm⟩
  rw [gheapMakeHeap_eq]
  exact if_pos heap

theorem under_zero (indexes : ctx.Indexes heapSize) (u : Nat) : ctx.Under 0 u := by
  induction u using Nat.strongRecOn with
  | ind u inductionHypothesis =>
    rcases Nat.eq_zero_or_pos u with rfl | positive
    · exact .root
    · exact .child positive (inductionHypothesis _ (indexes.descends u positive))

theorem pushedHeap_ok (indexes : ctx.Indexes (heapSize + 1)) (orders : ctx.Orders InUse)
    (used : ∀ u < heapSize + 1, InUse (base u)) (heap : ctx.GheapIsHeap base heapSize) :
    ctx.GheapIsHeap (ctx.pushedHeap base (heapSize + 1)) (heapSize + 1) ∧
      (contents (heapSize + 1) (ctx.pushedHeap base (heapSize + 1))).Perm
        (contents (heapSize + 1) base) := by
  rw [gheapIsHeap_iff]
  unfold pushedHeap
  by_cases several : heapSize + 1 > 1
  · rw [if_pos several, Nat.add_sub_cancel]
    -- nothing stands below the last slot
    have childless : ∀ u, 0 < u → u < heapSize + 1 → ctx.gheapGetParentIndex u ≠ heapSize := by
      intro u positive inside
      have descends := indexes.descends u positive
      omega
    have parted : ctx.Parted (heapSize + 1) 0 heapSize base := by
      constructor
      · intro u positive inside _ different _
        exact heap u positive (by omega)
      · intro _ u positive inside child
        exact absurd child (childless u positive inside)
    obtain ⟨heapAfter, perm, _⟩ := @gheapSiftUp_ok _ ctx (heapSize + 1) 0 heapSize base
      (base heapSize) InUse indexes orders (used heapSize (Nat.lt_succ_self _)) heapSize
      (Nat.le_refl _) (Nat.lt_succ_self _) (under_zero indexes heapSize) used parted
      fun u positive inside child => absurd child (childless u positive inside)
    rw [Function.update_eq_self] at perm
    exact ⟨heapAfter, perm⟩
  · rw [if_neg several]
    exact ⟨fun u positive inside => by omega, List.Perm.refl _⟩

/-- `gheap_push_heap` makes a heap of one and the item in the slot after it. -/
theorem gheapPushHeap_ok (indexes : ctx.Indexes (heapSize + 1)) (orders : ctx.Orders InUse)
    (used : ∀ u < heapSize + 1, InUse (base u)) (heap : ctx.GheapIsHeap base heapSize) :
    ∃ after, ctx.gheapPushHeap base (heapSize + 1) = .ok after ∧
      ctx.GheapIsHeap after (heapSize + 1) ∧
      (contents (heapSize + 1) after).Perm (contents (heapSize + 1) base) := by
  obtain ⟨heapAfter, perm⟩ := pushedHeap_ok indexes orders used heap
  refine ⟨_, ?_, heapAfter, perm⟩
  rw [gheapPushHeap_eq]
  exact if_pos ⟨heap, heapAfter⟩

theorem poppedHeap_ok {ctx : GheapCtx Item} (indexes : ctx.Indexes heapSize)
    (orders : ctx.Orders InUse) (used : ∀ u < heapSize + 1, InUse (base u))
    (heap : ctx.GheapIsHeap base (heapSize + 1)) :
    ctx.GheapIsHeap (ctx.poppedHeap base (heapSize + 1)) heapSize ∧
      ctx.poppedHeap base (heapSize + 1) heapSize = base 0 ∧
      (base 0 :: contents heapSize (ctx.poppedHeap base (heapSize + 1))).Perm
        (contents (heapSize + 1) base) := by
  rw [gheapIsHeap_iff] at heap ⊢
  unfold poppedHeap
  by_cases several : heapSize + 1 > 1
  · rw [if_pos several, Nat.add_sub_cancel, swappedMaxItem]
    have some : 0 < heapSize := by omega
    have same : ∀ u < heapSize, Function.update base heapSize (base 0) u = base u :=
      fun u inside => Function.update_of_ne (Nat.ne_of_lt inside) _ _
    obtain ⟨heapAfter, perm, rest⟩ := @gheapSiftDown_ok _ ctx heapSize 0
      (Function.update base heapSize (base 0)) (base heapSize) InUse indexes orders some
      (fun u inside => by rw [same u inside]; exact used u (Nat.lt_succ_of_lt inside))
      (used heapSize (Nat.lt_succ_self _)) (by
        intro u positive inside reached
        rw [same u inside, same _ (Nat.lt_trans (indexes.descends u positive) inside)]
        exact heap u positive (Nat.lt_succ_of_lt inside) (Nat.zero_le _))
    refine ⟨heapAfter, (rest heapSize (Nat.le_refl _)).trans (Function.update_self ..), ?_⟩
    -- the first and the last item have changed places
    have first : (contents heapSize (Function.update (Function.update base heapSize (base 0)) 0
        (base heapSize))) = (List.range heapSize).map (base ∘ Equiv.swap 0 heapSize) := by
      refine List.map_congr_left ?_
      intro u member
      have inside := List.mem_range.mp member
      rw [Function.comp_apply, Equiv.swap_apply_def]
      by_cases here : u = 0
      · rw [if_pos here, here, Function.update_self]
      · rw [if_neg here, if_neg (Nat.ne_of_lt inside), Function.update_of_ne here, same u inside]
    have whole : (List.range (heapSize + 1)).map (base ∘ Equiv.swap 0 heapSize) =
        (List.range heapSize).map (base ∘ Equiv.swap 0 heapSize) ++ [base 0] := by
      rw [List.range_succ, List.map_append, List.map_singleton, Function.comp_apply,
        Equiv.swap_apply_right]
    rw [first] at perm
    refine (perm.cons (base 0)).trans ?_
    refine (List.perm_append_singleton (base 0) _).symm.trans ?_
    rw [← whole, ← List.map_map]
    exact (map_swap_perm (Nat.succ_pos _) (Nat.lt_succ_self _)).map _
  · rw [if_neg several]
    obtain rfl : heapSize = 0 := by omega
    exact ⟨fun u _ inside => absurd inside (Nat.not_lt_zero _), rfl, List.Perm.refl _⟩

/-- `gheap_pop_heap` moves the top item to the last slot and makes a heap of the others. -/
theorem gheapPopHeap_ok (indexes : ctx.Indexes heapSize) (orders : ctx.Orders InUse)
    (used : ∀ u < heapSize + 1, InUse (base u)) (heap : ctx.GheapIsHeap base (heapSize + 1)) :
    ∃ after, ctx.gheapPopHeap base (heapSize + 1) = .ok after ∧ ctx.GheapIsHeap after heapSize ∧
      after heapSize = base 0 ∧
      (base 0 :: contents heapSize after).Perm (contents (heapSize + 1) base) := by
  obtain ⟨heapAfter, popped, perm⟩ := poppedHeap_ok indexes orders used heap
  refine ⟨_, ?_, heapAfter, popped, perm⟩
  rw [gheapPopHeap_eq]
  exact if_pos ⟨heap, heapAfter⟩

end Heaps

end GheapCtx

end SpudLib
