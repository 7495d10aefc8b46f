import SpudLib.Pool.Requests

/-!
# Regions of a pool

What a pool returns lies inside one block and apart from all it returned before.
A page is taken from its front on, so what is used of it bounds every region in
it, and a new block has no region yet.
-/

namespace SpudLib

def Region.Disjoint (first second : Region) : Prop :=
  first.start.block ≠ second.start.block ∨
    first.start.offset + first.length ≤ second.start.offset ∨
    second.start.offset + second.length ≤ first.start.offset

namespace World

def pageList (world : World) (pool : Nat) : List (Nat × PoolPage) :=
  match world.loadPool pool with
  | .ok record => Link.walk world.headers world.heap.fresh record.pages
  | .error _ => []

def cleanerList (world : World) (pool : Nat) : List (Nat × PoolCleanerCtx) :=
  match world.loadPool pool with
  | .ok record => Link.walk world.ctxs world.heap.fresh record.cleaners
  | .error _ => []

/-- The blocks that were allocated for one request each. -/
def directBlocks (world : World) (pool : Nat) : List Nat :=
  (world.cleanerList pool).filterMap fun cell =>
    if cell.2.cleaner = .lsDataFree then some cell.2.arg else none

def blockSize (world : World) (block : Nat) : Nat :=
  match world.heap.cells block with
  | some (.bytes content) => content.length
  | _ => 0

end World

namespace PoolEntry

/-- The block the entry hands bytes out of, and how many it did. -/
def extent : PoolEntry → Option (Nat × Nat)
  | .page _ block _ used => some (block, used)
  | .direct _ block size => some (block, size)
  | .user _ _ _ => none

def directCell : PoolEntry → Option (Nat × Nat)
  | .direct _ block size => some (block, size)
  | _ => none

theorem extent_mem_refs {entry : PoolEntry} {block taken : Nat}
    (holds : entry.extent = some (block, taken)) : block ∈ entry.refs := by
  cases entry <;> simp_all [extent, refs]

theorem extent_bytes {entry : PoolEntry} {block taken : Nat} (pageSize : Nat)
    (holds : entry.extent = some (block, taken)) :
    ∃ total, entry.bytes pageSize = some (block, total) := by
  cases entry <;> simp_all [extent, bytes]

end PoolEntry

theorem extent_takeBytes {entries : List PoolEntry} {entry : PoolEntry} {block taken : Nat}
    (size : Nat) (member : entry ∈ entries) (holds : entry.extent = some (block, taken)) :
    ∃ other ∈ takeBytes size entries, ∃ more, other.extent = some (block, more) ∧ taken ≤ more := by
  induction entries with
  | nil => cases member
  | cons head rest inductionHypothesis =>
    have later : entry ∈ rest → head :: takeBytes size rest = takeBytes size (head :: rest) →
        ∃ other ∈ takeBytes size (head :: rest), ∃ more,
          other.extent = some (block, more) ∧ taken ≤ more := by
      intro old same
      obtain ⟨other, inside, more, extent, bound⟩ := inductionHypothesis old
      rw [← same]
      exact ⟨other, List.mem_cons_of_mem _ inside, more, extent, bound⟩
    cases head with
    | page ctx blockRef header used =>
      rcases List.mem_cons.mp member with rfl | old
      · cases holds
        exact ⟨_, List.mem_cons_self, _, rfl, Nat.le_add_right _ _⟩
      · exact ⟨entry, List.mem_cons_of_mem _ old, taken, holds, le_refl _⟩
    | direct ctx blockRef length =>
      rcases List.mem_cons.mp member with rfl | old
      · exact ⟨_, List.mem_cons_self, taken, holds, le_refl _⟩
      · exact later old rfl
    | user ctx callback arg =>
      rcases List.mem_cons.mp member with rfl | old
      · exact ⟨_, List.mem_cons_self, taken, holds, le_refl _⟩
      · exact later old rfl

namespace World.Represents

variable {world : World} {pool : Nat} {record : LsPool} {entries : List PoolEntry}

theorem entry_unique (represents : world.Represents pool record entries)
    {first second : PoolEntry} (inFirst : first ∈ entries) (inSecond : second ∈ entries) {ref : Nat}
    (ofFirst : ref ∈ first.refs) (ofSecond : ref ∈ second.refs) : first = second := by
  have order := (List.pairwise_append.mp represents.order).1
  rw [stackRefs, List.pairwise_flatMap] at order
  by_contra different
  have apart : entries.Pairwise fun newer older => ref ∈ newer.refs → ref ∉ older.refs := by
    refine order.2.imp ?_
    intro newer older above inNewer inOlder
    exact absurd (above ref inNewer ref inOlder) (lt_irrefl _)
  have symmetric : Std.Symm fun newer older : PoolEntry => ref ∈ newer.refs → ref ∉ older.refs :=
    ⟨fun _ _ excludes inNewer inOlder => excludes inOlder inNewer⟩
  exact apart.forall inFirst inSecond different ofFirst ofSecond

theorem pageList_eq (represents : world.Represents pool record entries) :
    world.pageList pool = pageCells record.pageSize entries := by
  simp only [pageList, loadPool_ok represents.found]
  exact represents.pages.walk_eq represents.pages.length_le_fresh

theorem cleanerList_eq (represents : world.Represents pool record entries) :
    world.cleanerList pool = entries.map PoolEntry.ctxCell := by
  simp only [cleanerList, loadPool_ok represents.found]
  exact represents.cleaners.walk_eq represents.cleaners.length_le_fresh

theorem directBlocks_eq (represents : world.Represents pool record entries) :
    world.directBlocks pool = (entries.filterMap PoolEntry.directCell).map Prod.fst := by
  rw [directBlocks, represents.cleanerList_eq, List.filterMap_map, List.map_filterMap]
  apply List.filterMap_congr
  intro entry _
  cases entry <;> rfl

theorem blockSize_eq (represents : world.Represents pool record entries) {entry : PoolEntry}
    (member : entry ∈ entries) {block size : Nat}
    (holds : entry.bytes record.pageSize = some (block, size)) : world.blockSize block = size := by
  obtain ⟨_, found, content, rfl, sized⟩ := represents.bytes entry member block size holds
  simp only [blockSize, found, sized]

/-- The size of a pool is that of its pages and of its direct blocks. -/
theorem size_eq (represents : world.Represents pool record entries) :
    record.size = record.pageSize * (world.pageList pool).length +
      ((world.directBlocks pool).map world.blockSize).sum := by
  have sizes : (world.directBlocks pool).map world.blockSize =
      (entries.filterMap PoolEntry.directCell).map Prod.snd := by
    rw [represents.directBlocks_eq, List.map_map]
    apply List.map_congr_left
    rintro ⟨block, size⟩ member
    obtain ⟨entry, inside, same⟩ := List.mem_filterMap.mp member
    cases entry with
    | page ctx block header used => cases same
    | user ctx callback arg => cases same
    | direct ctx other length =>
      cases same
      exact represents.blockSize_eq inside rfl
  rw [sizes, represents.pageList_eq, represents.size]
  generalize entries = all
  induction all with
  | nil => rfl
  | cons entry rest inductionHypothesis =>
    rw [List.map_cons, List.sum_cons, inductionHypothesis]
    cases entry with
    | page ctx block header used =>
      simp only [PoolEntry.size, PoolEntry.bytes, pageCells_page, PoolEntry.directCell,
        List.filterMap_cons, List.length_cons, Nat.mul_add, Option.map_some, Option.getD_some]
      omega
    | direct ctx block size =>
      simp only [PoolEntry.size, PoolEntry.bytes, pageCells_direct, PoolEntry.directCell,
        List.filterMap_cons, List.map_cons, List.sum_cons, Option.map_some, Option.getD_some]
      omega
    | user ctx callback arg =>
      simp only [PoolEntry.size, PoolEntry.bytes, pageCells_user, PoolEntry.directCell,
        List.filterMap_cons, Option.map_none, Option.getD_none, Nat.zero_add]

end World.Represents

def Region.Within (entries : List PoolEntry) (region : Region) : Prop :=
  ∃ entry ∈ entries, ∃ taken, entry.extent = some (region.start.block, taken) ∧
    region.start.offset + region.length ≤ taken

namespace PoolSession

/-- The pool of the session holds `entries`, and its regions lie in them side by side. -/
structure Kept (session : PoolSession) (record : LsPool) (entries : List PoolEntry) : Prop where
  represents : session.world.Represents session.pool record entries
  paged : 0 < record.pageSize → pageCells record.pageSize entries ≠ []
  within : ∀ region ∈ session.regions, region.Within entries
  apart : session.regions.Pairwise Region.Disjoint

theorem Created.made {session : PoolSession} (created : session.Created) :
    ∃ first record entries, session.Kept record entries ∧
      first.heap.fresh = session.pool + 1 ∧ first.trace = [.allocated session.pool] ∧
      (entries = [] ∧ session.world = first ∨
        ∃ ctx block header used, entries = [.page ctx block header used] ∧
          first.Pushed session.world (.page ctx block header used)) := by
  obtain ⟨none, _, world, pagingEnabled, size, empty, returned⟩ := created
  obtain ⟨reached, pool, regions, cleaners⟩ := session
  rcases World.lsPoolCreate_ok world pagingEnabled size with
    ⟨after, refused, _⟩ | ⟨first, after, record, entries, made, fresh, trace, represents, paged,
      pushed⟩
  · cases returned.symm.trans refused
  · cases returned.symm.trans made
    rw [empty, List.nil_append] at trace
    have kept : PoolSession.Kept ⟨reached, world.heap.fresh, regions, cleaners⟩ record entries := by
      refine ⟨represents, paged, ?_, ?_⟩
      · simp [show regions = [] from none]
      · simp [show regions = [] from none]
    exact ⟨first, record, entries, kept, fresh, trace, pushed⟩

theorem Created.kept {session : PoolSession} (created : session.Created) :
    ∃ record entries, session.Kept record entries := by
  obtain ⟨_, record, entries, kept, _⟩ := created.made
  exact ⟨record, entries, kept⟩

section Served

variable {world after : World} {pool : Nat} {record next : LsPool}
  {entries later : List PoolEntry} {size : Nat} {pointer : Pointer} {regions : List Region}

theorem within_push {region : Region} (within : region.Within entries) (entry : PoolEntry) :
    region.Within (entry :: entries) := by
  obtain ⟨other, inside, rest⟩ := within
  exact ⟨other, List.mem_cons_of_mem entry inside, rest⟩

theorem within_takeBytes {region : Region} (within : region.Within entries) (size : Nat) :
    region.Within (takeBytes size entries) := by
  obtain ⟨entry, inside, taken, extent, bound⟩ := within
  obtain ⟨other, member, more, same, larger⟩ := extent_takeBytes size inside extent
  exact ⟨other, member, more, same, bound.trans larger⟩

theorem not_new (represents : world.Represents pool record entries) {region : Region}
    (within : region.Within entries) : region.start.block < world.heap.fresh := by
  obtain ⟨entry, inside, taken, extent, _⟩ := within
  apply represents.lt_fresh
  apply List.mem_cons_of_mem
  exact mem_stackRefs.mpr ⟨entry, inside, PoolEntry.extent_mem_refs extent⟩

theorem within_served (served : world.Served pool record entries size pointer after next later)
    {region : Region} (within : region.Within entries) : region.Within later := by
  cases served with
  | direct _ _ _ _ _ => exact within_push within _
  | current _ _ _ _ _ _ => exact within_takeBytes within size
  | added _ _ _ _ _ => exact within_push within _

/-- The region that was served is the last that was handed out of its block. -/
theorem served_extent (served : world.Served pool record entries size pointer after next later) :
    ∃ entry ∈ later, entry.extent = some (pointer.block, pointer.offset + size) := by
  cases served with
  | direct _ shape _ _ _ =>
    subst shape
    exact ⟨_, List.mem_cons_self, by simp [PoolEntry.extent]⟩
  | @current _ header page rest _ cells _ _ _ _ =>
    have newest : (header, { page with used := page.used + size }) ∈
        pageCells record.pageSize (takeBytes size entries) := by
      rw [pageCells_takeBytes size cells]
      exact List.mem_cons_self
    obtain ⟨ctx, inside⟩ := World.page_of_pageCells newest
    exact ⟨_, inside, rfl⟩
  | added _ shape _ _ _ =>
    subst shape
    exact ⟨_, List.mem_cons_self, by simp [PoolEntry.extent]⟩

theorem served_within (served : world.Served pool record entries size pointer after next later) :
    Region.Within later ⟨pointer, size⟩ := by
  obtain ⟨entry, inside, extent⟩ := served_extent served
  exact ⟨entry, inside, _, extent, le_refl _⟩

theorem served_apart (served : world.Served pool record entries size pointer after next later)
    (represents : world.Represents pool record entries) {region : Region}
    (within : region.Within entries) : Region.Disjoint ⟨pointer, size⟩ region := by
  cases served with
  | direct _ _ _ _ _ =>
    left
    exact Nat.ne_of_gt (not_new represents within)
  | @current _ header page rest _ cells _ _ _ _ =>
    obtain ⟨entry, inside, taken, extent, bound⟩ := within
    by_cases same : region.start.block = page.block
    · -- the block is that of the newest page, of which no more than `used` was handed out
      have newest : (header, page) ∈ pageCells record.pageSize entries := by
        rw [cells]
        exact List.mem_cons_self
      obtain ⟨ctx, member⟩ := World.page_of_pageCells newest
      have owned : page.block ∈ entry.refs := by
        rw [← same]
        exact PoolEntry.extent_mem_refs extent
      have isPage := represents.entry_unique inside member owned (by simp [PoolEntry.refs])
      subst isPage
      have taken : page.used = taken := (Prod.mk.inj (Option.some.inj extent)).2
      rw [← taken] at bound
      exact .inr (.inr bound)
    · exact .inl (Ne.symm same)
  | added _ _ _ _ _ =>
    left
    have old := not_new represents within
    change world.heap.fresh + 1 ≠ region.start.block
    omega

theorem served_paged (served : world.Served pool record entries size pointer after next later)
    (paged : 0 < record.pageSize → pageCells record.pageSize entries ≠ []) :
    0 < next.pageSize → pageCells next.pageSize later ≠ [] := by
  rw [served.pageSize]
  cases served with
  | direct _ shape _ _ _ =>
    subst shape
    exact paged
  | current _ cells _ _ _ _ =>
    intro _
    rw [pageCells_takeBytes size cells]
    exact List.cons_ne_nil _ _
  | added _ shape _ _ _ =>
    subst shape
    intro _
    exact List.cons_ne_nil _ _

end Served

theorem Kept.performed {session next : PoolSession} {record : LsPool} {entries : List PoolEntry}
    (kept : session.Kept record entries) {request : PoolRequest}
    (returned : session.perform request = .ok next) :
    ∃ done pointer self later, PoolRequest.Outcome (request.given session.world) session.pool
        record entries request done pointer next.world self later ∧
      next.pool = session.pool ∧
      next.regions = (pointer.map fun start => ⟨start, request.length⟩).toList ++ session.regions ∧
      next.cleaners = (if done then request.cleaner else none).toList ++ session.cleaners := by
  obtain ⟨done, pointer, after, self, later, answered, outcome⟩ :=
    PoolRequest.answer_ok kept.represents kept.paged request
  simp only [perform, answered, Exec.ok_bind, Exec.pure_eq_ok, Except.ok.injEq] at returned
  subst returned
  exact ⟨done, pointer, self, later, outcome, rfl, rfl, rfl⟩

theorem Kept.after {session next : PoolSession} {record self : LsPool}
    {entries later : List PoolEntry} (kept : session.Kept record entries) {request : PoolRequest}
    {done : Bool} {pointer : Option Pointer}
    (outcome : PoolRequest.Outcome (request.given session.world) session.pool record entries
      request done pointer next.world self later)
    (pool : next.pool = session.pool)
    (regions : next.regions =
      (pointer.map fun start => ⟨start, request.length⟩).toList ++ session.regions) :
    next.Kept self later := by
  have given : (request.given session.world).Represents session.pool record entries := by
    cases request <;> exact kept.represents.frame fun _ _ => rfl
  obtain ⟨reached, samePool, handed, cleaners⟩ := next
  dsimp only at outcome pool regions
  subst pool regions
  cases outcome with
  | refused _ represents => exact ⟨represents, kept.paged, kept.within, kept.apart⟩
  | nothing _ _ _ _ represents => exact ⟨represents, kept.paged, kept.within, kept.apart⟩
  | registered shape _ represents same =>
    subst shape
    refine ⟨represents, ?_, fun region member => within_push (kept.within region member) _,
      kept.apart⟩
    rw [same]
    exact kept.paged
  | served _ served =>
    refine ⟨served.represents, served_paged served kept.paged, ?_, ?_⟩
    · intro region member
      rcases List.mem_cons.mp member with rfl | old
      · exact served_within served
      · exact within_served served (kept.within region old)
    · refine List.pairwise_cons.mpr ⟨?_, kept.apart⟩
      intro region old
      exact served_apart served given (kept.within region old)

theorem Kept.step {session next : PoolSession} {record : LsPool} {entries : List PoolEntry}
    (kept : session.Kept record entries) {request : PoolRequest}
    (returned : session.perform request = .ok next) :
    ∃ record entries, next.Kept record entries := by
  obtain ⟨done, pointer, self, later, outcome, pool, regions, _⟩ := kept.performed returned
  exact ⟨self, later, kept.after outcome pool regions⟩

/-- The regions returned lie in blocks of the pool, side by side, no page is
overfull, and the size is that of the pages and of the direct blocks. -/
structure Sound (session : PoolSession) : Prop where
  inside : ∀ region ∈ session.regions,
    ((∃ page ∈ session.world.pageList session.pool, page.2.block = region.start.block) ∨
      region.start.block ∈ session.world.directBlocks session.pool) ∧
    region.start.offset + region.length ≤ session.world.blockSize region.start.block
  apart : session.regions.Pairwise Region.Disjoint
  used : ∀ page ∈ session.world.pageList session.pool,
    page.2.used ≤ page.2.size ∧ session.world.blockSize page.2.block = page.2.size
  size : ∃ record, session.world.loadPool session.pool = .ok record ∧
    record.size = record.pageSize * (session.world.pageList session.pool).length +
      ((session.world.directBlocks session.pool).map session.world.blockSize).sum

structure Respects (session : PoolSession) (request : PoolRequest) (done : Bool)
    (pointer : Option Pointer) (after : World) : Prop where
  /-- A request that fails changes nothing and leaks no block. -/
  failed : done = false → pointer = none ∧ after.heap.cells = session.world.heap.cells ∧
    after.loadPool session.pool = session.world.loadPool session.pool ∧
    after.pageList session.pool = session.world.pageList session.pool ∧
    after.cleanerList session.pool = session.world.cleanerList session.pool
  /-- No bytes are returned as NULL. -/
  empty : request.length = 0 → pointer = none
  /-- Bytes are returned; `large` from a block of their own, `small` from a page. -/
  served : done = true → 0 < request.length → ∃ start, pointer = some start
  large : ∀ record start, session.world.loadPool session.pool = .ok record →
    record.pageSize < request.length → pointer = some start →
    start.block ∈ after.directBlocks session.pool ∧
      start.block ∉ session.world.directBlocks session.pool ∧
      after.pageList session.pool = session.world.pageList session.pool
  small : ∀ record start, session.world.loadPool session.pool = .ok record →
    request.length ≤ record.pageSize → pointer = some start →
    (∃ page ∈ after.pageList session.pool, page.2.block = start.block) ∧
      (after.pageList session.pool).length ≤ (session.world.pageList session.pool).length + 1

theorem Kept.sound {session : PoolSession} {record : LsPool} {entries : List PoolEntry}
    (kept : session.Kept record entries) : session.Sound where
  inside region member := by
    obtain ⟨entry, inside, taken, extent, bound⟩ := kept.within region member
    obtain ⟨total, bytes⟩ := entry.extent_bytes record.pageSize extent
    rw [kept.represents.blockSize_eq inside bytes]
    cases entry with
    | user ctx callback arg => cases extent
    | direct ctx block size =>
      cases (Option.some.inj extent).symm.trans (Option.some.inj bytes)
      refine ⟨.inr ?_, bound⟩
      rw [kept.represents.directBlocks_eq]
      have cell : (block, size) ∈ entries.filterMap PoolEntry.directCell :=
        List.mem_filterMap.mpr ⟨_, inside, rfl⟩
      have same : block = region.start.block := congrArg Prod.fst (Option.some.inj extent)
      rw [← same]
      exact List.mem_map.mpr ⟨_, cell, rfl⟩
    | page ctx block header used =>
      have cell : (header, ⟨block, record.pageSize, used⟩) ∈
          pageCells record.pageSize entries := List.mem_filterMap.mpr ⟨_, inside, rfl⟩
      have room : used ≤ record.pageSize := kept.represents.room _ cell
      have limit : used = taken := congrArg Prod.snd (Option.some.inj extent)
      have size : record.pageSize = total := congrArg Prod.snd (Option.some.inj bytes)
      have same : block = region.start.block := congrArg Prod.fst (Option.some.inj extent)
      refine ⟨.inl ⟨(header, ⟨block, record.pageSize, used⟩), ?_, same⟩, by omega⟩
      rw [kept.represents.pageList_eq]
      exact cell
  apart := kept.apart
  used page member := by
    rw [kept.represents.pageList_eq] at member
    obtain ⟨ctx, inside⟩ := World.page_of_pageCells member
    rw [pageCells_size member, kept.represents.blockSize_eq inside rfl]
    exact ⟨kept.represents.room page member, rfl⟩
  size := ⟨record, World.loadPool_ok kept.represents.found, kept.represents.size_eq⟩

section Respects

variable {session : PoolSession} {record next : LsPool} {entries later : List PoolEntry}
  {after : World} {request : PoolRequest} {pointer : Pointer}

theorem lists_eq (before : session.world.Represents session.pool record entries)
    (represents : after.Represents session.pool record entries) :
    after.loadPool session.pool = session.world.loadPool session.pool ∧
      after.pageList session.pool = session.world.pageList session.pool ∧
      after.cleanerList session.pool = session.world.cleanerList session.pool := by
  refine ⟨?_, ?_, ?_⟩
  · rw [World.loadPool_ok represents.found, World.loadPool_ok before.found]
  · rw [represents.pageList_eq, before.pageList_eq]
  · rw [represents.cleanerList_eq, before.cleanerList_eq]

theorem served_large (before : session.world.Represents session.pool record entries)
    {world : World} (heap : world.heap = session.world.heap)
    (served : world.Served session.pool record entries request.length pointer after next later)
    (large : record.pageSize < request.length) :
    pointer.block ∈ after.directBlocks session.pool ∧
      pointer.block ∉ session.world.directBlocks session.pool ∧
      after.pageList session.pool = session.world.pageList session.pool := by
  cases served with
  | current small _ _ _ _ _ => omega
  | added small _ _ _ _ => omega
  | direct _ shape represents same _ =>
    subst shape
    refine ⟨?_, ?_, ?_⟩
    · rw [represents.directBlocks_eq]
      simp [PoolEntry.directCell]
    · rw [before.directBlocks_eq, heap]
      intro old
      obtain ⟨⟨block, size⟩, cell, isNew⟩ := List.mem_map.mp old
      obtain ⟨entry, inside, holds⟩ := List.mem_filterMap.mp cell
      have owned : block ∈ entry.refs := by
        cases entry <;> simp_all [PoolEntry.directCell, PoolEntry.refs]
      have bound := before.lt_fresh block
        (List.mem_cons_of_mem _ (mem_stackRefs.mpr ⟨entry, inside, owned⟩))
      change block = session.world.heap.fresh at isNew
      omega
    · rw [represents.pageList_eq, before.pageList_eq, same, pageCells_direct]

theorem served_small (before : session.world.Represents session.pool record entries)
    {world : World}
    (served : world.Served session.pool record entries request.length pointer after next later)
    (small : request.length ≤ record.pageSize) :
    (∃ page ∈ after.pageList session.pool, page.2.block = pointer.block) ∧
      (after.pageList session.pool).length ≤
        (session.world.pageList session.pool).length + 1 := by
  cases served with
  | direct large _ _ _ _ => omega
  | current _ cells _ _ _ represents =>
    rw [represents.pageList_eq, before.pageList_eq, pageCells_takeBytes _ cells, cells]
    exact ⟨⟨_, List.mem_cons_self, rfl⟩, by simp⟩
  | added _ shape represents same _ =>
    subst shape
    rw [represents.pageList_eq, before.pageList_eq, same, pageCells_page]
    exact ⟨⟨_, List.mem_cons_self, rfl⟩, by simp⟩

theorem Kept.respects (kept : session.Kept record entries) (request : PoolRequest) :
    ∃ done pointer after, request.answer session.world session.pool = .ok (done, pointer, after) ∧
      session.Respects request done pointer after := by
  obtain ⟨done, pointer, after, next, later, answered, outcome⟩ :=
    PoolRequest.answer_ok kept.represents kept.paged request
  have loaded := World.loadPool_ok kept.represents.found
  have givenHeap : (request.given session.world).heap = session.world.heap := by
    cases request <;> rfl
  refine ⟨done, pointer, after, answered, ?_⟩
  cases outcome with
  | refused undone represents =>
    refine ⟨fun _ => ⟨rfl, ?_, lists_eq kept.represents represents⟩, fun _ => rfl, nofun,
      fun _ _ _ _ => nofun, fun _ _ _ _ => nofun⟩
    rw [undone.cells, givenHeap]
  | nothing empty _ _ _ _ =>
    exact ⟨nofun, fun _ => rfl, fun _ positive => absurd empty (Nat.ne_of_gt positive),
      fun _ _ _ _ => nofun, fun _ _ _ _ => nofun⟩
  | registered _ _ _ _ =>
    exact ⟨nofun, fun _ => rfl, fun _ positive => absurd positive (lt_irrefl _),
      fun _ _ _ _ => nofun, fun _ _ _ _ => nofun⟩
  | served positive served =>
    refine ⟨nofun, fun empty => absurd empty (Nat.ne_of_gt positive), fun _ _ => ⟨_, rfl⟩, ?_, ?_⟩
    · intro self start found large same
      cases loaded.symm.trans found
      cases same
      exact served_large kept.represents givenHeap served large
    · intro self start found small same
      cases loaded.symm.trans found
      cases same
      exact served_small kept.represents served small

end Respects

/-- After any requests to a new pool, with any allocation refused, what it
returned is sound, and the next request returns and respects the pool. -/
theorem run_allocates (start last : PoolSession) (requests : List PoolRequest)
    (created : start.Created) (run : system.Run start requests last) :
    last.Sound ∧ ∀ request, ∃ done pointer after,
      request.answer last.world last.pool = .ok (done, pointer, after) ∧
        last.Respects request done pointer after := by
  have kept : ∃ record entries, last.Kept record entries := by
    refine run.preserves (fun session => ∃ record entries, session.Kept record entries) ?_
      created.kept
    rintro session request next ⟨record, entries, kept⟩ _ returned
    exact kept.step returned
  obtain ⟨record, entries, kept⟩ := kept
  exact ⟨kept.sound, kept.respects⟩

def mixedRegions : List Region :=
  [⟨⟨14, 0⟩, 2⟩, ⟨⟨11, 0⟩, 20⟩, ⟨⟨7, 6⟩, 2⟩, ⟨⟨7, 0⟩, 6⟩, ⟨⟨2, 0⟩, 5⟩]

theorem run_allocates_mixed : ∃ last : PoolSession, last.Sound ∧ last.regions = mixedRegions := by
  have seen : (use emptyWorld true 8 mixedRequests).toOption.map PoolSession.regions =
      some mixedRegions := by decide +kernel
  obtain ⟨last, used, regions⟩ := Exec.exists_of_map _ seen
  obtain ⟨start, created, run⟩ := created_of_use rfl used
  exact ⟨last, (run_allocates start last mixedRequests created run).1, regions⟩

end PoolSession

end SpudLib
