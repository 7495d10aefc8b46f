import SpudLib.Timer.Heapify

/-!
# The tree of a paged heap

A page is a subheap of `pageChunks` chunks of `fanout` slots.  The first slots of
a page have their children on it; each of its leaves has its children at the
beginning of another page.  For every fanout and every page size the index
functions describe one tree.
-/

namespace SpudLib

namespace GheapCtx

variable {Item : Type} (ctx : GheapCtx Item)

def pageSize : Nat := ctx.fanout * ctx.pageChunks

/-- The slots of a page whose children are on other pages. -/
def pageLeaves : Nat := (ctx.fanout - 1) * ctx.pageChunks + 1

def firstChild (u : Nat) : Nat :=
  if ctx.pageChunks = 1 then u * ctx.fanout + 1
  else if u = 0 then 1
  else
    let page := (u - 1) / ctx.pageSize
    let offset := (u - 1) % ctx.pageSize
    if offset + 1 < ctx.pageChunks then page * ctx.pageSize + (offset + 1) * ctx.fanout + 1
    else (page * ctx.pageLeaves + (offset + 2 - ctx.pageChunks)) * ctx.pageSize + 1

structure Sizeable : Prop where
  several : 0 < ctx.fanout
  chunks : 0 < ctx.pageChunks

section Pages

variable {ctx} {size page offset otherPage otherOffset : Nat}

theorem page_unique (inside : offset < size) (otherInside : otherOffset < size)
    (same : page * size + offset = otherPage * size + otherOffset) :
    page = otherPage ∧ offset = otherOffset := by
  have positive : 0 < size := Nat.zero_lt_of_lt inside
  have pages := congrArg (· / size) same
  have offsets := congrArg (· % size) same
  simp only [Nat.mul_comm _ size, Nat.mul_add_div positive, Nat.mul_add_mod,
    Nat.div_eq_of_lt inside, Nat.div_eq_of_lt otherInside, Nat.mod_eq_of_lt inside,
    Nat.mod_eq_of_lt otherInside, Nat.add_zero] at pages offsets
  exact ⟨pages, offsets⟩

theorem exists_page (positive : 0 < size) {u : Nat} (below : 0 < u) :
    ∃ page offset, offset < size ∧ u = page * size + offset + 1 := by
  refine ⟨(u - 1) / size, (u - 1) % size, Nat.mod_lt _ positive, ?_⟩
  have split := Nat.div_add_mod' (u - 1) size
  omega

theorem div_page (inside : offset < size) : (page * size + offset) / size = page := by
  have positive : 0 < size := Nat.zero_lt_of_lt inside
  rw [Nat.mul_comm, Nat.mul_add_div positive, Nat.div_eq_of_lt inside, Nat.add_zero]

theorem mod_page (inside : offset < size) : (page * size + offset) % size = offset := by
  rw [Nat.mul_comm, Nat.mul_add_mod, Nat.mod_eq_of_lt inside]

namespace Sizeable

theorem pageLeaves_eq (sizeable : ctx.Sizeable) :
    ctx.pageLeaves + ctx.pageChunks = ctx.pageSize + 1 := by
  obtain ⟨fanout, same⟩ := Nat.exists_eq_succ_of_ne_zero (Nat.ne_of_gt sizeable.several)
  rw [pageLeaves, pageSize, same, Nat.succ_sub_one, Nat.succ_mul]
  omega

theorem fanout_le (sizeable : ctx.Sizeable) : ctx.fanout ≤ ctx.pageSize :=
  Nat.le_mul_of_pos_right _ sizeable.chunks

end Sizeable

/-- The parent of a slot on a page: on the same page, the root, or a leaf of another page. -/
theorem gheapGetParentIndex_page (sizeable : ctx.Sizeable) (paged : ctx.pageChunks ≠ 1)
    (inside : offset < ctx.pageSize) :
    ctx.gheapGetParentIndex (page * ctx.pageSize + offset + 1) =
      if ctx.fanout ≤ offset then page * ctx.pageSize + offset / ctx.fanout
      else if page = 0 then 0
      else (page - 1) / ctx.pageLeaves * ctx.pageSize +
        (ctx.pageChunks - 1 + (page - 1) % ctx.pageLeaves) + 1 := by
  have leaves := sizeable.pageLeaves_eq
  have chunk := sizeable.fanout_le
  have some := sizeable.chunks
  unfold gheapGetParentIndex
  simp only [Nat.add_sub_cancel, if_neg paged]
  rw [show ctx.fanout * ctx.pageChunks = ctx.pageSize from rfl,
    show (ctx.fanout - 1) * ctx.pageChunks + 1 = ctx.pageLeaves from rfl,
    mod_page inside, div_page inside]
  by_cases far : ctx.fanout ≤ offset
  · rw [if_neg (by omega), if_pos far, if_pos far, Nat.add_sub_cancel]
  · rw [if_neg far, if_neg far]
    by_cases first : page = 0
    · rw [if_pos first, if_pos (by rw [first, Nat.zero_mul]; omega)]
    · have whole : ctx.pageSize ≤ page * ctx.pageSize :=
        Nat.le_mul_of_pos_left _ (Nat.pos_of_ne_zero first)
      rw [if_neg first, if_neg (by omega), Nat.succ_mul]
      have positive : 0 < ctx.pageLeaves := Nat.succ_pos _
      have bounded := Nat.mod_lt (page - 1) positive
      omega

theorem firstChild_page (paged : ctx.pageChunks ≠ 1) (inside : offset < ctx.pageSize) :
    ctx.firstChild (page * ctx.pageSize + offset + 1) =
      if offset + 1 < ctx.pageChunks then page * ctx.pageSize + (offset + 1) * ctx.fanout + 1
      else (page * ctx.pageLeaves + (offset + 2 - ctx.pageChunks)) * ctx.pageSize + 1 := by
  unfold firstChild
  simp only [if_neg paged, Nat.add_sub_cancel, div_page inside, mod_page inside]
  rw [if_neg (Nat.succ_ne_zero _)]

/-- `gheap_get_child_index` is the first child, or `SIZE_MAX` when that does not fit. -/
theorem gheapGetChildIndex_cases (sizeable : ctx.Sizeable) (u : Nat) :
    ctx.gheapGetChildIndex u = ctx.firstChild u ∨
      ctx.gheapGetChildIndex u = sizeMax ∧ sizeMax < ctx.firstChild u := by
  unfold gheapGetChildIndex firstChild
  by_cases unpaged : ctx.pageChunks = 1
  · simp only [if_pos unpaged]
    split_ifs with large
    · have product := (Nat.div_lt_iff_lt_mul sizeable.several).mp large
      exact .inr ⟨rfl, by omega⟩
    · exact .inl rfl
  · simp only [if_neg unpaged]
    by_cases root : u = 0
    · rw [if_pos root, if_pos root]
      exact .inl rfl
    · have positive : 0 < ctx.pageSize := Nat.mul_pos sizeable.several sizeable.chunks
      have leaves := sizeable.pageLeaves_eq
      obtain ⟨page, offset, inside, rfl⟩ := exists_page positive (Nat.pos_of_ne_zero root)
      rw [if_neg root, if_neg root, show ctx.fanout * ctx.pageChunks = ctx.pageSize from rfl,
        show (ctx.fanout - 1) * ctx.pageChunks + 1 = ctx.pageLeaves from rfl, Nat.add_sub_cancel,
        div_page inside, mod_page inside,
        show ctx.pageSize / ctx.fanout = ctx.pageChunks from
          Nat.mul_div_cancel_left _ sizeable.several]
      by_cases near : offset + 1 < ctx.pageChunks
      · rw [if_pos near, if_pos near]
        -- the children of a slot near the beginning of a page are on it
        have apart : (offset + 1) * (ctx.fanout - 1) + (offset + 1) =
            (offset + 1) * ctx.fanout := by
          rw [← Nat.mul_succ, Nat.succ_eq_add_one, Nat.sub_add_cancel sizeable.several]
        split_ifs with large
        · exact .inr ⟨rfl, by omega⟩
        · exact .inl (by omega)
      · rw [if_neg near, if_neg near, Nat.succ_mul]
        have same : offset + 1 + (page * ctx.pageLeaves + ctx.pageLeaves) - ctx.pageSize =
            page * ctx.pageLeaves + (offset + 2 - ctx.pageChunks) := by omega
        rw [same]
        split_ifs with large
        · have product := (Nat.div_lt_iff_lt_mul positive).mp large
          exact .inr ⟨rfl, by omega⟩
        · exact .inl rfl

/-- Every slot is below its first child, by a whole chunk unless it is the root. -/
theorem lt_firstChild (sizeable : ctx.Sizeable) (u : Nat) :
    u < ctx.firstChild u ∧ (0 < u → u + ctx.fanout ≤ ctx.firstChild u) := by
  have several := sizeable.several
  by_cases unpaged : ctx.pageChunks = 1
  · rw [firstChild, if_pos unpaged]
    have least : u ≤ u * ctx.fanout := Nat.le_mul_of_pos_right u several
    refine ⟨Nat.lt_succ_of_le least, fun below => ?_⟩
    obtain ⟨u, rfl⟩ := Nat.exists_eq_succ_of_ne_zero (Nat.ne_of_gt below)
    have least : u ≤ u * ctx.fanout := Nat.le_mul_of_pos_right u several
    rw [Nat.succ_mul]
    omega
  · by_cases root : u = 0
    · rw [firstChild, if_neg unpaged, if_pos root, root]
      exact ⟨Nat.one_pos, fun below => absurd below (Nat.lt_irrefl 0)⟩
    · have positive : 0 < ctx.pageSize := Nat.mul_pos several sizeable.chunks
      obtain ⟨page, offset, inside, rfl⟩ := exists_page positive (Nat.pos_of_ne_zero root)
      suffices page * ctx.pageSize + offset + 1 + ctx.fanout ≤
          ctx.firstChild (page * ctx.pageSize + offset + 1) from
        ⟨by omega, fun _ => this⟩
      rw [firstChild_page unpaged inside]
      split_ifs with near
      · have least : offset ≤ offset * ctx.fanout := Nat.le_mul_of_pos_right _ several
        rw [Nat.succ_mul]
        omega
      · have leaves := sizeable.pageLeaves_eq
        have chunk := sizeable.fanout_le
        have onward : page * ctx.pageSize ≤ page * ctx.pageLeaves * ctx.pageSize :=
          Nat.mul_le_mul_right _ (Nat.le_mul_of_pos_right _ (Nat.succ_pos _))
        rw [Nat.add_mul]
        -- the leaf's number on its page, counted from one
        obtain ⟨leaf, same⟩ : ∃ leaf, offset + 2 - ctx.pageChunks = leaf + 1 :=
          ⟨offset + 1 - ctx.pageChunks, by omega⟩
        have several' : leaf ≤ leaf * ctx.pageSize := Nat.le_mul_of_pos_right _ positive
        have apart : ctx.fanout + ctx.pageChunks ≤ ctx.pageSize + 1 := by
          obtain ⟨fanout, split⟩ := Nat.exists_eq_succ_of_ne_zero (Nat.ne_of_gt several)
          obtain ⟨chunks, splitChunks⟩ :=
            Nat.exists_eq_succ_of_ne_zero (Nat.ne_of_gt sizeable.chunks)
          rw [pageSize, split, splitChunks, Nat.succ_mul, Nat.mul_succ]
          omega
        rw [same, Nat.succ_mul]
        omega

theorem firstChild_aligned (sizeable : ctx.Sizeable) (u : Nat) :
    ∃ chunk, ctx.firstChild u = chunk * ctx.fanout + 1 := by
  by_cases unpaged : ctx.pageChunks = 1
  · exact ⟨u, by rw [firstChild, if_pos unpaged]⟩
  · by_cases root : u = 0
    · exact ⟨0, by rw [firstChild, if_neg unpaged, if_pos root, Nat.zero_mul]⟩
    · have positive : 0 < ctx.pageSize := Nat.mul_pos sizeable.several sizeable.chunks
      have whole : ∀ page, page * ctx.pageSize = page * ctx.pageChunks * ctx.fanout := by
        intro page
        rw [pageSize, Nat.mul_comm ctx.fanout, Nat.mul_assoc]
      obtain ⟨page, offset, inside, rfl⟩ := exists_page positive (Nat.pos_of_ne_zero root)
      rw [firstChild_page unpaged inside]
      split_ifs
      · exact ⟨page * ctx.pageChunks + (offset + 1), by rw [whole, ← Nat.add_mul]⟩
      · exact ⟨_, by rw [whole]⟩

theorem parent_iff_unpaged (sizeable : ctx.Sizeable) (unpaged : ctx.pageChunks = 1) {u v : Nat}
    (below : 0 < v) : ctx.gheapGetParentIndex v = u ↔
      ctx.firstChild u ≤ v ∧ v < ctx.firstChild u + ctx.fanout := by
  unfold gheapGetParentIndex firstChild
  simp only [if_pos unpaged]
  rw [Nat.div_eq_iff sizeable.several, Nat.mul_comm]
  have several := sizeable.several
  omega

theorem gheapGetParentIndex_lt (sizeable : ctx.Sizeable) {v : Nat} (below : 0 < v) :
    ctx.gheapGetParentIndex v < v := by
  by_cases unpaged : ctx.pageChunks = 1
  · have reached := (parent_iff_unpaged sizeable unpaged below).mp rfl
    exact Nat.lt_of_lt_of_le (lt_firstChild sizeable _).1 reached.1
  · have positive : 0 < ctx.pageSize := Nat.mul_pos sizeable.several sizeable.chunks
    have leaves := sizeable.pageLeaves_eq
    have chunks := sizeable.chunks
    obtain ⟨page, offset, inside, rfl⟩ := exists_page positive below
    rw [gheapGetParentIndex_page sizeable unpaged inside]
    split_ifs with far first
    · have least : offset / ctx.fanout ≤ offset := Nat.div_le_self _ _
      omega
    · omega
    · -- the leaf is on an earlier page
      have bounded := Nat.mod_lt (page - 1) (show 0 < ctx.pageLeaves from Nat.succ_pos _)
      have earlier : (page - 1) / ctx.pageLeaves + 1 ≤ page := by
        have least : (page - 1) / ctx.pageLeaves ≤ page - 1 := Nat.div_le_self _ _
        omega
      have product := Nat.mul_le_mul_right ctx.pageSize earlier
      rw [Nat.succ_mul] at product
      omega

/-- A chunk behind the first of a page, as the slots in it. -/
theorem inChunk_iff (several : 0 < ctx.fanout) {slot : Nat} (near : slot + 1 < ctx.pageChunks)
    (inside : offset < ctx.pageSize) :
    otherPage * ctx.pageSize + (slot + 1) * ctx.fanout + 1 ≤ page * ctx.pageSize + offset + 1 ∧
        page * ctx.pageSize + offset + 1 <
          otherPage * ctx.pageSize + (slot + 1) * ctx.fanout + 1 + ctx.fanout ↔
      page = otherPage ∧ offset / ctx.fanout = slot + 1 := by
  have fits : (slot + 1) * ctx.fanout + ctx.fanout ≤ ctx.pageSize := by
    rw [← Nat.succ_mul, pageSize, Nat.mul_comm]
    exact Nat.mul_le_mul_left _ near
  have behind : ctx.fanout ≤ (slot + 1) * ctx.fanout :=
    Nat.le_mul_of_pos_left _ (Nat.succ_pos _)
  rw [Nat.div_eq_iff several]
  constructor
  · rintro ⟨least, most⟩
    obtain ⟨extra, split⟩ := Nat.exists_eq_add_of_le least
    obtain ⟨same, _⟩ := @page_unique ctx.pageSize page offset otherPage
      ((slot + 1) * ctx.fanout + extra) inside (by omega) (by omega)
    subst same
    omega
  · rintro ⟨rfl, least, most⟩
    omega

theorem inFirstChunk_iff (sizeable : ctx.Sizeable) (inside : offset < ctx.pageSize) :
    otherPage * ctx.pageSize + 1 ≤ page * ctx.pageSize + offset + 1 ∧
        page * ctx.pageSize + offset + 1 < otherPage * ctx.pageSize + 1 + ctx.fanout ↔
      page = otherPage ∧ offset < ctx.fanout := by
  have chunk := sizeable.fanout_le
  constructor
  · rintro ⟨least, most⟩
    obtain ⟨extra, split⟩ := Nat.exists_eq_add_of_le least
    obtain ⟨rfl, rfl⟩ := @page_unique ctx.pageSize page offset otherPage extra inside
      (by omega) (by omega)
    exact ⟨rfl, by omega⟩
  · rintro ⟨rfl, short⟩
    omega

/-- The children of the root are the first chunk of the first page. -/
theorem parent_iff_root (sizeable : ctx.Sizeable) (paged : ctx.pageChunks ≠ 1)
    (inside : offset < ctx.pageSize) :
    ctx.gheapGetParentIndex (page * ctx.pageSize + offset + 1) = 0 ↔
      page = 0 ∧ offset < ctx.fanout := by
  rw [gheapGetParentIndex_page sizeable paged inside]
  by_cases far : ctx.fanout ≤ offset
  · rw [if_pos far]
    have some : 0 < offset / ctx.fanout := Nat.div_pos far sizeable.several
    omega
  · rw [if_neg far]
    by_cases first : page = 0
    · rw [if_pos first]
      omega
    · rw [if_neg first]
      omega

/-- The children of a slot near the beginning of a page are a chunk of that page. -/
theorem parent_iff_near (sizeable : ctx.Sizeable) (paged : ctx.pageChunks ≠ 1)
    (inside : offset < ctx.pageSize) {above slot : Nat} (near : slot + 1 < ctx.pageChunks) :
    ctx.gheapGetParentIndex (page * ctx.pageSize + offset + 1) =
        above * ctx.pageSize + slot + 1 ↔
      page = above ∧ offset / ctx.fanout = slot + 1 := by
  have leaves := sizeable.pageLeaves_eq
  have positive : 0 < ctx.pageLeaves := Nat.succ_pos _
  rw [gheapGetParentIndex_page sizeable paged inside]
  by_cases far : ctx.fanout ≤ offset
  · rw [if_pos far]
    have some : 0 < offset / ctx.fanout := Nat.div_pos far sizeable.several
    have fewer : offset / ctx.fanout ≤ offset := Nat.div_le_self _ _
    constructor
    · intro same
      obtain ⟨rfl, rest⟩ := @page_unique ctx.pageSize page (offset / ctx.fanout - 1) above
        slot (by omega) (by omega) (by omega)
      exact ⟨rfl, by omega⟩
    · rintro ⟨rfl, same⟩
      omega
  · rw [if_neg far]
    have none : offset / ctx.fanout = 0 := Nat.div_eq_of_lt (Nat.lt_of_not_le far)
    refine iff_of_false ?_ (by omega)
    by_cases first : page = 0
    · rw [if_pos first]
      omega
    · rw [if_neg first]
      -- the parent is a leaf of its page
      intro same
      have bounded := Nat.mod_lt (page - 1) positive
      obtain ⟨_, rest⟩ := @page_unique ctx.pageSize ((page - 1) / ctx.pageLeaves)
        (ctx.pageChunks - 1 + (page - 1) % ctx.pageLeaves) above slot (by omega) (by omega)
        (by omega)
      omega

/-- The children of a leaf are the first chunk of another page. -/
theorem parent_iff_leaf (sizeable : ctx.Sizeable) (paged : ctx.pageChunks ≠ 1)
    (inside : offset < ctx.pageSize) {above slot : Nat} (room : slot < ctx.pageSize)
    (leaf : ctx.pageChunks ≤ slot + 1) :
    ctx.gheapGetParentIndex (page * ctx.pageSize + offset + 1) =
        above * ctx.pageSize + slot + 1 ↔
      page = above * ctx.pageLeaves + (slot + 2 - ctx.pageChunks) ∧ offset < ctx.fanout := by
  have leaves := sizeable.pageLeaves_eq
  have chunks := sizeable.chunks
  have positive : 0 < ctx.pageLeaves := Nat.succ_pos _
  rw [gheapGetParentIndex_page sizeable paged inside]
  by_cases far : ctx.fanout ≤ offset
  · rw [if_pos far]
    refine iff_of_false ?_ (by omega)
    -- a parent on the same page is no leaf
    intro same
    have some : 0 < offset / ctx.fanout := Nat.div_pos far sizeable.several
    have few : offset / ctx.fanout < ctx.pageChunks :=
      (Nat.div_lt_iff_lt_mul sizeable.several).mpr (by rwa [Nat.mul_comm])
    obtain ⟨_, rest⟩ := @page_unique ctx.pageSize page (offset / ctx.fanout - 1) above slot
      (by omega) room (by omega)
    omega
  · rw [if_neg far]
    by_cases first : page = 0
    · rw [if_pos first]
      omega
    · rw [if_neg first]
      have bounded := Nat.mod_lt (page - 1) positive
      have split := Nat.div_add_mod' (page - 1) ctx.pageLeaves
      constructor
      · intro same
        obtain ⟨rfl, rest⟩ := @page_unique ctx.pageSize ((page - 1) / ctx.pageLeaves)
          (ctx.pageChunks - 1 + (page - 1) % ctx.pageLeaves) above slot (by omega) room
          (by omega)
        exact ⟨by omega, by omega⟩
      · rintro ⟨same, _⟩
        obtain ⟨quotient, rest⟩ := @page_unique ctx.pageLeaves ((page - 1) / ctx.pageLeaves)
          ((page - 1) % ctx.pageLeaves) above (slot + 1 - ctx.pageChunks) bounded (by omega)
          (by omega)
        rw [quotient, rest]
        omega

/-- The children of a slot are the chunk that begins at its first child. -/
theorem parent_iff (sizeable : ctx.Sizeable) {u v : Nat} (below : 0 < v) :
    ctx.gheapGetParentIndex v = u ↔
      ctx.firstChild u ≤ v ∧ v < ctx.firstChild u + ctx.fanout := by
  by_cases unpaged : ctx.pageChunks = 1
  · exact parent_iff_unpaged sizeable unpaged below
  have positive : 0 < ctx.pageSize := Nat.mul_pos sizeable.several sizeable.chunks
  obtain ⟨page, offset, inside, rfl⟩ := exists_page positive below
  by_cases root : u = 0
  · subst root
    rw [parent_iff_root sizeable unpaged inside, firstChild, if_neg unpaged, if_pos rfl,
      ← inFirstChunk_iff sizeable inside, Nat.zero_mul, Nat.zero_add]
  · obtain ⟨above, slot, room, rfl⟩ := exists_page positive (Nat.pos_of_ne_zero root)
    rw [firstChild_page unpaged room]
    by_cases near : slot + 1 < ctx.pageChunks
    · rw [if_pos near, parent_iff_near sizeable unpaged inside near,
        inChunk_iff sizeable.several near inside]
    · rw [if_neg near, inFirstChunk_iff sizeable inside,
        parent_iff_leaf sizeable unpaged inside room (Nat.le_of_not_lt near)]

/-- For every fanout and every page size the index functions describe a tree. -/
theorem indexes (sizeable : ctx.Sizeable) {heapSize : Nat} (small : heapSize ≤ sizeMax) :
    ctx.Indexes heapSize := by
  have several := sizeable.several
  have cases := gheapGetChildIndex_cases sizeable
  -- the last chunk that is full ends a whole number of chunks behind the root
  have aligned : ∃ chunk, 0 < heapSize →
      heapSize - (heapSize - 1) % ctx.fanout = chunk * ctx.fanout + 1 := by
    refine ⟨(heapSize - 1) / ctx.fanout, fun some => ?_⟩
    have split := Nat.div_add_mod' (heapSize - 1) ctx.fanout
    omega
  have remainder := Nat.mod_lt (heapSize - 1) several
  constructor
  · exact several
  · exact fun u below => gheapGetParentIndex_lt sizeable below
  · intro u
    have above := (lt_firstChild sizeable u).1
    rcases cases u with same | ⟨same, _⟩
    · omega
    · rw [same]
      decide
  · intro u v below inside
    rw [parent_iff sizeable below]
    rcases cases u with same | ⟨same, large⟩
    · rw [same]
    · omega
  · intro u before
    rcases cases u with same | ⟨same, large⟩
    · obtain ⟨chunk, begins⟩ := firstChild_aligned sizeable u
      obtain ⟨last, ends⟩ := aligned
      rw [same, begins] at before ⊢
      have whole := ends (by omega)
      rw [whole] at before
      have fewer : chunk + 1 ≤ last := by
        by_contra more
        have product : last * ctx.fanout ≤ chunk * ctx.fanout :=
          Nat.mul_le_mul_right _ (by omega)
        omega
      have product : (chunk + 1) * ctx.fanout ≤ last * ctx.fanout :=
        Nat.mul_le_mul_right _ fewer
      rw [Nat.succ_mul] at product
      omega
    · omega
  · intro u after
    omega
  · intro u after
    obtain ⟨above, far⟩ := lt_firstChild sizeable u
    rcases cases u with same | ⟨same, _⟩
    · rw [same]
      rcases Nat.eq_zero_or_pos u with rfl | below
      · omega
      · have further := far below
        omega
    · omega
  · intro unpaged u below
    unfold gheapGetParentIndex
    simp only [if_pos unpaged]

end Pages

end GheapCtx

end SpudLib
