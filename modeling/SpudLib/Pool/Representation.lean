import SpudLib.Pool.Pool
import Mathlib.Algebra.GroupWithZero.Nat
import Mathlib.Data.List.Perm.Basic

/-!
# A pool is a stack of entries

Each page, each direct block and each cleaner of a user is an entry of the pool,
newest first.  The list of cleaners is the list of all entries and the list of
pages that of the pages among them.  The blocks of an entry are newer than those
of the entries below it.
-/

namespace SpudLib

/-- What the pool holds, with the cleaner record that will release it. -/
inductive PoolEntry where
  | page (ctx block header used : Nat)
  | direct (ctx block size : Nat)
  | user (ctx callback arg : Nat)
  deriving DecidableEq

namespace PoolEntry

def ctx : PoolEntry → Nat
  | .page ctx _ _ _ | .direct ctx _ _ | .user ctx _ _ => ctx

def content : PoolEntry → PoolCleanerCtx
  | .page _ _ header _ => ⟨.freePage, header⟩
  | .direct _ block _ => ⟨.lsDataFree, block⟩
  | .user _ callback arg => ⟨.user callback, arg⟩

def ctxCell (entry : PoolEntry) : Nat × PoolCleanerCtx := (entry.ctx, entry.content)

def pageCell (pageSize : Nat) : PoolEntry → Option (Nat × PoolPage)
  | .page _ block header used => some (header, ⟨block, pageSize, used⟩)
  | _ => none

def bytes (pageSize : Nat) : PoolEntry → Option (Nat × Nat)
  | .page _ block _ _ => some (block, pageSize)
  | .direct _ block size => some (block, size)
  | .user _ _ _ => none

def refs : PoolEntry → List Nat
  | .page ctx block header _ => [ctx, block, header]
  | .direct ctx block _ => [ctx, block]
  | .user ctx _ _ => [ctx]

def size (pageSize : Nat) (entry : PoolEntry) : Nat := ((entry.bytes pageSize).map Prod.snd).getD 0

@[simp] theorem ctx_mem_refs (entry : PoolEntry) : entry.ctx ∈ entry.refs := by
  cases entry <;> simp [ctx, refs]

theorem bytes_mem_refs {pageSize : Nat} {entry : PoolEntry} {block size : Nat}
    (holds : entry.bytes pageSize = some (block, size)) : block ∈ entry.refs := by
  cases entry <;> simp_all [bytes, refs]

theorem header_mem_refs {pageSize : Nat} {entry : PoolEntry} {header : Nat} {page : PoolPage}
    (cell : entry.pageCell pageSize = some (header, page)) : header ∈ entry.refs := by
  cases entry <;> simp_all [pageCell, refs]

end PoolEntry

def stackRefs (entries : List PoolEntry) : List Nat := entries.flatMap PoolEntry.refs

def pageCells (pageSize : Nat) (entries : List PoolEntry) : List (Nat × PoolPage) :=
  entries.filterMap (PoolEntry.pageCell pageSize)

@[simp] theorem stackRefs_nil : stackRefs [] = [] := rfl

@[simp] theorem stackRefs_cons (entry : PoolEntry) (entries : List PoolEntry) :
    stackRefs (entry :: entries) = entry.refs ++ stackRefs entries := rfl

@[simp] theorem stackRefs_append (front back : List PoolEntry) :
    stackRefs (front ++ back) = stackRefs front ++ stackRefs back := List.flatMap_append

theorem mem_stackRefs {ref : Nat} {entries : List PoolEntry} :
    ref ∈ stackRefs entries ↔ ∃ entry ∈ entries, ref ∈ entry.refs := List.mem_flatMap

@[simp] theorem pageCells_nil (pageSize : Nat) : pageCells pageSize [] = [] := rfl

@[simp] theorem pageCells_append (pageSize : Nat) (front back : List PoolEntry) :
    pageCells pageSize (front ++ back) = pageCells pageSize front ++ pageCells pageSize back :=
  List.filterMap_append

@[simp] theorem pageCells_page (pageSize ctx block header used : Nat) (entries : List PoolEntry) :
    pageCells pageSize (.page ctx block header used :: entries) =
      (header, ⟨block, pageSize, used⟩) :: pageCells pageSize entries := rfl

@[simp] theorem pageCells_direct (pageSize ctx block size : Nat) (entries : List PoolEntry) :
    pageCells pageSize (.direct ctx block size :: entries) = pageCells pageSize entries := rfl

@[simp] theorem pageCells_user (pageSize ctx callback arg : Nat) (entries : List PoolEntry) :
    pageCells pageSize (.user ctx callback arg :: entries) = pageCells pageSize entries := rfl

theorem pageCells_cons_mem {pageSize : Nat} {entry : PoolEntry} {entries : List PoolEntry}
    {cell : Nat × PoolPage} (member : cell ∈ pageCells pageSize (entry :: entries)) :
    entry.pageCell pageSize = some cell ∨ cell ∈ pageCells pageSize entries := by
  rw [pageCells, List.mem_filterMap] at member
  obtain ⟨other, inside, same⟩ := member
  rcases List.mem_cons.mp inside with rfl | old
  · exact .inl same
  · exact .inr (List.mem_filterMap.mpr ⟨other, old, same⟩)

def takeBytes (size : Nat) : List PoolEntry → List PoolEntry
  | [] => []
  | .page ctx block header used :: rest => .page ctx block header (used + size) :: rest
  | entry :: rest => entry :: takeBytes size rest

theorem map_takeBytes {Alpha : Type} (part : PoolEntry → Alpha)
    (blind : ∀ ctx block header used more,
      part (.page ctx block header used) = part (.page ctx block header more))
    (size : Nat) (entries : List PoolEntry) :
    (takeBytes size entries).map part = entries.map part := by
  induction entries with
  | nil => rfl
  | cons entry rest inductionHypothesis =>
    cases entry with
    | page ctx block header used => simp [takeBytes, blind ctx block header (used + size) used]
    | direct ctx block length => simp [takeBytes, inductionHypothesis]
    | user ctx callback arg => simp [takeBytes, inductionHypothesis]

theorem stackRefs_takeBytes (size : Nat) (entries : List PoolEntry) :
    stackRefs (takeBytes size entries) = stackRefs entries := by
  have same := map_takeBytes PoolEntry.refs (fun _ _ _ _ _ => rfl) size entries
  simp only [stackRefs, List.flatMap_def, same]

theorem pageCells_takeBytes {pageSize header : Nat} {page : PoolPage}
    {rest : List (Nat × PoolPage)} (size : Nat) {entries : List PoolEntry}
    (cells : pageCells pageSize entries = (header, page) :: rest) :
    pageCells pageSize (takeBytes size entries) =
      (header, { page with used := page.used + size }) :: rest := by
  induction entries with
  | nil => cases cells
  | cons entry others inductionHypothesis =>
    cases entry with
    | page ctx block header used =>
      cases cells
      rfl
    | direct ctx block length => exact inductionHypothesis cells
    | user ctx callback arg => exact inductionHypothesis cells

theorem pageCells_size {pageSize : Nat} {entries : List PoolEntry} {cell : Nat × PoolPage}
    (member : cell ∈ pageCells pageSize entries) : cell.2.size = pageSize := by
  obtain ⟨entry, _, same⟩ := List.mem_filterMap.mp member
  cases entry with
  | page ctx block header used =>
    cases same
    rfl
  | direct ctx block size => cases same
  | user ctx callback arg => cases same

namespace Block

def pageLink : Block → Option (Link PoolPage)
  | .page link => some link
  | _ => none

def ctxLink : Block → Option (Link PoolCleanerCtx)
  | .ctx link => some link
  | _ => none

def HasSize (size : Nat) (block : Block) : Prop :=
  ∃ content, block = .bytes content ∧ content.length = size

end Block

namespace World

/-- The cleaner records, as a memory of their own. -/
def ctxs (world : World) : Memory (Link PoolCleanerCtx) := world.heap.project Block.ctxLink

def headers (world : World) : Memory (Link PoolPage) := world.heap.project Block.pageLink

theorem ctxs_cells {world : World} {ref : Nat} {ctx : Link PoolCleanerCtx} :
    world.ctxs.cells ref = some ctx ↔ world.heap.cells ref = some (.ctx ctx) := by
  cases found : world.heap.cells ref with
  | none => simp [ctxs, Memory.project, found]
  | some block => cases block <;> simp [ctxs, Memory.project, found, Block.ctxLink]

theorem headers_cells {world : World} {ref : Nat} {page : Link PoolPage} :
    world.headers.cells ref = some page ↔ world.heap.cells ref = some (.page page) := by
  cases found : world.heap.cells ref with
  | none => simp [headers, Memory.project, found]
  | some block => cases block <;> simp [headers, Memory.project, found, Block.pageLink]

/-- The pool at an address is `record`, and holds `entries`. -/
structure Represents (world : World) (pool : Nat) (record : LsPool) (entries : List PoolEntry) :
    Prop where
  found : world.heap.cells pool = some (.pool record)
  size : record.size = (entries.map (PoolEntry.size record.pageSize)).sum
  cleaners : Link.Chain world.ctxs record.cleaners (entries.map PoolEntry.ctxCell)
  pages : Link.Chain world.headers record.pages (pageCells record.pageSize entries)
  bytes : ∀ entry ∈ entries, ∀ block size, entry.bytes record.pageSize = some (block, size) →
    ∃ found, world.heap.cells block = some found ∧ found.HasSize size
  order : (stackRefs entries ++ [pool]).Pairwise (· > ·)
  room : ∀ cell ∈ pageCells record.pageSize entries, cell.2.used ≤ record.pageSize
  positive : ∀ cell ∈ pageCells record.pageSize entries, 0 < record.pageSize

section Represents

variable {world after : World} {pool : Nat} {record next : LsPool} {entries : List PoolEntry}

theorem chain_ctxs {start : Option Nat}
    (chain : Link.Chain world.ctxs start (entries.map PoolEntry.ctxCell))
    (same : ∀ ref ∈ stackRefs entries, after.heap.cells ref = world.heap.cells ref) :
    Link.Chain after.ctxs start (entries.map PoolEntry.ctxCell) := by
  apply Link.Segment.frame chain
  intro ref member
  simp only [Link.refs, List.map_map, List.mem_map] at member
  obtain ⟨entry, inside, rfl⟩ := member
  have owned : entry.ctx ∈ stackRefs entries := mem_stackRefs.mpr ⟨entry, inside, by simp⟩
  exact congrArg (Option.bind · Block.ctxLink) (same _ owned)

theorem header_mem_stackRefs {pageSize header : Nat} {page : PoolPage}
    (cell : (header, page) ∈ pageCells pageSize entries) : header ∈ stackRefs entries := by
  obtain ⟨entry, inside, same⟩ := List.mem_filterMap.mp cell
  exact mem_stackRefs.mpr ⟨entry, inside, PoolEntry.header_mem_refs same⟩

theorem chain_headers {pageSize : Nat} {start : Option Nat}
    (chain : Link.Chain world.headers start (pageCells pageSize entries))
    (same : ∀ ref ∈ stackRefs entries, after.heap.cells ref = world.heap.cells ref) :
    Link.Chain after.headers start (pageCells pageSize entries) := by
  apply Link.Segment.frame chain
  intro ref member
  simp only [Link.refs, List.mem_map] at member
  obtain ⟨⟨header, page⟩, inside, rfl⟩ := member
  exact congrArg (Option.bind · Block.pageLink) (same _ (header_mem_stackRefs inside))

theorem Represents.pool_lt (represents : world.Represents pool record entries) :
    ∀ ref ∈ stackRefs entries, pool < ref := by
  intro ref member
  have older := (List.pairwise_append.mp represents.order).2.2
  exact older ref member pool (by simp)

theorem Represents.ctx_found (represents : world.Represents pool record entries)
    {entry : PoolEntry} (member : entry ∈ entries) :
    ∃ next, world.heap.cells entry.ctx = some (.ctx ⟨entry.content, next⟩) := by
  obtain ⟨next, found⟩ := represents.cleaners.found (List.mem_map_of_mem member)
  exact ⟨next, ctxs_cells.mp found⟩

theorem Represents.header_found (represents : world.Represents pool record entries)
    {header : Nat} {page : PoolPage} (member : (header, page) ∈ pageCells record.pageSize entries) :
    ∃ next, world.heap.cells header = some (.page ⟨page, next⟩) := by
  obtain ⟨next, found⟩ := represents.pages.found member
  exact ⟨next, headers_cells.mp found⟩

theorem Represents.live (represents : world.Represents pool record entries) :
    ∀ ref ∈ stackRefs entries, world.heap.Live ref := by
  intro ref member
  obtain ⟨entry, inside, owned⟩ := mem_stackRefs.mp member
  obtain ⟨next, ctx⟩ := represents.ctx_found inside
  have bytes := represents.bytes entry inside
  cases entry with
  | user ctx callback arg =>
    obtain rfl := List.mem_singleton.mp owned
    exact ⟨_, ctx⟩
  | direct ctx block size =>
    obtain ⟨found, holds, _⟩ := bytes block size rfl
    simp only [PoolEntry.refs, List.mem_cons, List.not_mem_nil, or_false] at owned
    rcases owned with rfl | rfl
    · exact ⟨_, ctx⟩
    · exact ⟨_, holds⟩
  | page ctx block header used =>
    obtain ⟨found, holds, _⟩ := bytes block record.pageSize rfl
    obtain ⟨after, page⟩ := represents.header_found (List.mem_filterMap.mpr ⟨_, inside, rfl⟩)
    simp only [PoolEntry.refs, List.mem_cons, List.not_mem_nil, or_false] at owned
    rcases owned with rfl | rfl | rfl
    · exact ⟨_, ctx⟩
    · exact ⟨_, holds⟩
    · exact ⟨_, page⟩

theorem Represents.lt_fresh (represents : world.Represents pool record entries) :
    ∀ ref ∈ pool :: stackRefs entries, ref < world.heap.fresh := by
  intro ref member
  rcases List.mem_cons.mp member with rfl | inside
  · exact Memory.lt_fresh represents.found
  · obtain ⟨cell, found⟩ := represents.live ref inside
    exact Memory.lt_fresh found
/-- Only the blocks of a pool matter to it. -/
theorem Represents.frame (represents : world.Represents pool record entries)
    (same : ∀ ref ∈ pool :: stackRefs entries, after.heap.cells ref = world.heap.cells ref) :
    after.Represents pool record entries := by
  have inside : ∀ ref ∈ stackRefs entries, after.heap.cells ref = world.heap.cells ref :=
    fun ref member => same ref (List.mem_cons_of_mem pool member)
  constructor
  · rw [same pool List.mem_cons_self]
    exact represents.found
  · exact represents.size
  · exact chain_ctxs represents.cleaners inside
  · exact chain_headers represents.pages inside
  · intro entry member block size holds
    rw [inside block (mem_stackRefs.mpr ⟨entry, member, PoolEntry.bytes_mem_refs holds⟩)]
    exact represents.bytes entry member block size holds
  · exact represents.order
  · exact represents.room
  · exact represents.positive

/-- A new entry, whose blocks are newer than all others. -/
theorem Represents.push (represents : world.Represents pool record entries) {entry : PoolEntry}
    (same : ∀ ref ∈ stackRefs entries, after.heap.cells ref = world.heap.cells ref)
    (found : after.heap.cells pool = some (.pool next)) (pageSize : next.pageSize = record.pageSize)
    (size : next.size = entry.size record.pageSize + record.size)
    (head : next.cleaners = some entry.ctx)
    (ctx : after.heap.cells entry.ctx = some (.ctx ⟨entry.content, record.cleaners⟩))
    (pages : match entry.pageCell record.pageSize with
      | none => next.pages = record.pages
      | some (header, page) => next.pages = some header ∧
          after.heap.cells header = some (.page ⟨page, record.pages⟩))
    (bytes : ∀ block size, entry.bytes record.pageSize = some (block, size) →
      ∃ found, after.heap.cells block = some found ∧ found.HasSize size)
    (order : entry.refs.Pairwise (· > ·)) (newer : ∀ ref ∈ entry.refs, world.heap.fresh ≤ ref)
    (room : ∀ cell, entry.pageCell record.pageSize = some cell →
      cell.2.used ≤ record.pageSize ∧ 0 < record.pageSize) :
    after.Represents pool next (entry :: entries) := by
  constructor
  · exact found
  · rw [pageSize, List.map_cons, List.sum_cons, ← represents.size, size]
  · rw [List.map_cons]
    refine Link.segment_cons.mpr ⟨head, _, ctxs_cells.mpr ctx, ?_⟩
    exact chain_ctxs represents.cleaners same
  · have below := chain_headers represents.pages same
    rw [pageSize, pageCells, List.filterMap_cons]
    cases cell : entry.pageCell record.pageSize with
    | none =>
      simp only [cell] at pages
      rw [pages]
      exact below
    | some page =>
      simp only [cell] at pages
      exact Link.segment_cons.mpr ⟨pages.1, _, headers_cells.mpr pages.2, below⟩
  · intro other member block length holds
    rw [pageSize] at holds
    rcases List.mem_cons.mp member with rfl | old
    · exact bytes block length holds
    · rw [same block (mem_stackRefs.mpr ⟨other, old, PoolEntry.bytes_mem_refs holds⟩)]
      exact represents.bytes other old block length holds
  · rw [stackRefs_cons, List.append_assoc]
    refine List.pairwise_append.mpr ⟨order, represents.order, ?_⟩
    intro added mine ref theirs
    have bound := newer added mine
    have older : ref < world.heap.fresh := by
      apply represents.lt_fresh
      simpa [or_comm] using theirs
    omega
  · intro cell member
    rw [pageSize] at member ⊢
    rcases pageCells_cons_mem member with own | old
    · exact (room cell own).1
    · exact represents.room cell old
  · intro cell member
    rw [pageSize] at member ⊢
    rcases pageCells_cons_mem member with own | old
    · exact (room cell own).2
    · exact represents.positive cell old

/-- Bytes of the newest page were taken. -/
theorem Represents.bump (represents : world.Represents pool record entries) {header size : Nat}
    {page : PoolPage} {rest : List (Nat × PoolPage)} {link : Option Nat}
    (cells : pageCells record.pageSize entries = (header, page) :: rest)
    (found : world.heap.cells header = some (.page ⟨page, link⟩))
    (fits : page.used + size ≤ record.pageSize)
    (heap : after.heap = world.heap.set header
      (.page ⟨{ page with used := page.used + size }, link⟩)) :
    after.Represents pool record (takeBytes size entries) := by
  have elsewhere : ∀ ref, ref ≠ header → after.heap.cells ref = world.heap.cells ref := by
    intro ref different
    rw [heap, Memory.set_cells_of_ne _ _ different]
  have notHeader : ∀ ref block, world.heap.cells ref = some block →
      block.pageLink = none → ref ≠ header := by
    rintro ref block here kind rfl
    rw [found] at here
    cases here
    cases kind
  have sameCtxs := map_takeBytes PoolEntry.ctxCell (fun _ _ _ _ _ => rfl) size entries
  have sameBytes := map_takeBytes (PoolEntry.bytes record.pageSize) (fun _ _ _ _ _ => rfl) size
    entries
  constructor
  · rw [elsewhere pool (notHeader pool _ represents.found rfl)]
    exact represents.found
  · rw [map_takeBytes (PoolEntry.size record.pageSize) (fun _ _ _ _ _ => rfl)]
    exact represents.size
  · rw [sameCtxs]
    apply Link.Segment.frame represents.cleaners
    intro ref member
    simp only [Link.refs, List.map_map, List.mem_map] at member
    obtain ⟨entry, inside, rfl⟩ := member
    obtain ⟨next, here⟩ := represents.ctx_found inside
    exact congrArg (Option.bind · Block.ctxLink) (elsewhere _ (notHeader _ _ here rfl))
  · have chain := represents.pages
    rw [cells] at chain
    have once := chain.nodup
    rw [Link.refs_cons, List.nodup_cons] at once
    obtain ⟨start, next, here, below⟩ := Link.segment_cons.mp chain
    cases (headers_cells.mp here).symm.trans found
    rw [pageCells_takeBytes size cells]
    refine Link.segment_cons.mpr ⟨start, link, headers_cells.mpr ?_, below.frame ?_⟩
    · rw [heap]
      exact Memory.set_cells_self _ found
    · intro ref member
      apply congrArg (Option.bind · Block.pageLink)
      apply elsewhere
      rintro rfl
      exact once.1 member
  · intro entry member block length holds
    have old : entry.bytes record.pageSize ∈ entries.map (PoolEntry.bytes record.pageSize) := by
      rw [← sameBytes]
      exact List.mem_map_of_mem member
    obtain ⟨other, inside, same⟩ := List.mem_map.mp old
    obtain ⟨cell, here, content, rfl, sized⟩ :=
      represents.bytes other inside block length (same.trans holds)
    exact ⟨_, (elsewhere block (notHeader block _ here rfl)).trans here, content, rfl, sized⟩
  · rw [stackRefs_takeBytes]
    exact represents.order
  · intro cell member
    rw [pageCells_takeBytes size cells] at member
    rcases List.mem_cons.mp member with rfl | old
    · exact fits
    · apply represents.room
      rw [cells]
      exact List.mem_cons_of_mem _ old
  · intro cell member
    apply represents.positive (header, page)
    rw [cells]
    exact List.mem_cons_self

theorem Represents.write (represents : world.Represents pool record entries) {block : Nat}
    {old new : List (Option UInt8)} (found : world.heap.cells block = some (.bytes old))
    (sized : new.length = old.length) (heap : after.heap = world.heap.set block (.bytes new)) :
    after.Represents pool record entries := by
  have elsewhere : ∀ ref, ref ≠ block → after.heap.cells ref = world.heap.cells ref := by
    intro ref different
    rw [heap, Memory.set_cells_of_ne _ _ different]
  have here : after.heap.cells block = some (.bytes new) := by
    rw [heap]
    exact Memory.set_cells_self _ found
  constructor
  · rw [elsewhere pool]
    · exact represents.found
    · rintro rfl
      cases represents.found.symm.trans found
  · exact represents.size
  · apply Link.Segment.frame represents.cleaners
    intro ref member
    simp only [Link.refs, List.map_map, List.mem_map] at member
    obtain ⟨entry, inside, rfl⟩ := member
    obtain ⟨next, ctx⟩ := represents.ctx_found inside
    apply congrArg (Option.bind · Block.ctxLink)
    apply elsewhere
    intro same
    cases (same ▸ found).symm.trans ctx
  · apply Link.Segment.frame represents.pages
    intro ref member
    simp only [Link.refs, List.mem_map] at member
    obtain ⟨⟨header, page⟩, inside, rfl⟩ := member
    obtain ⟨next, link⟩ := represents.header_found inside
    apply congrArg (Option.bind · Block.pageLink)
    apply elsewhere
    intro same
    cases (same ▸ found).symm.trans link
  · intro entry member other length holds
    obtain ⟨cell, there, content, rfl, total⟩ := represents.bytes entry member other length holds
    by_cases same : other = block
    · rw [same] at there ⊢
      cases found.symm.trans there
      exact ⟨_, here, new, rfl, sized.trans total⟩
    · exact ⟨_, (elsewhere other same).trans there, content, rfl, total⟩
  · exact represents.order
  · exact represents.room
  · exact represents.positive

end Represents

end World

end SpudLib
