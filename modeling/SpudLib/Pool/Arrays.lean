import SpudLib.Foundation.Attempt
import SpudLib.Pool.Allocation

/-!
# Arrays

`ls_data_calloc` and `ls_pool_calloc` of `src/ls_mem.c`.  A `size_t` is taken as
it is here: the product of the number of items and their size wraps before any
memory is asked for, and from then on nothing knows of the items any more.
-/

namespace SpudLib

namespace World

/-- `memset` with zeros, which touches nothing if there are no bytes. -/
def clear (world : World) (target : Option Pointer) (length : Nat) : Exec World :=
  if length = 0 then pure world
  else
    match target with
    | none => .error .nullDereference
    | some target => world.writeBytes target (List.replicate length 0)

def lsDataCalloc (world : World) (nmemb size : UInt64) : Exec (Option Nat × World) := do
  let blockSize := (nmemb * size).toNat
  match world.lsDataMalloc (.bytes (List.replicate blockSize none)) with
  | (none, world) => pure (none, world)
  | (some ret, world) =>
      let world ← world.clear (some ⟨ret, 0⟩) blockSize
      pure (some ret, world)

def lsPoolCalloc (world : World) (pool : Nat) (num size : UInt64) :
    Exec (Bool × Option Pointer × World) := do
  let blockSize := (num * size).toNat
  match ← world.lsPoolMalloc pool blockSize with
  | (false, ptr, world) => pure (false, ptr, world)
  | (true, ptr, world) =>
      let world ← world.clear ptr blockSize
      pure (true, ptr, world)

/-- The bytes from a pointer on are there, and zero. -/
def Zeroed (world : World) (start : Pointer) (length : Nat) : Prop :=
  ∃ content, world.heap.cells start.block = some (.bytes content) ∧
    ∀ i < length, content[start.offset + i]? = some (some 0)

/-- How much of a block was handed out: what is used of a page, and all of a direct block. -/
def handedOut (world : World) (pool block : Nat) : Nat :=
  match (world.pageList pool).find? fun page => page.2.block = block with
  | some page => page.2.used
  | none => world.blockSize block

def PoolArray (pool : Nat) (num size : UInt64) (done : Bool) (pointer : Option Pointer)
    (after : World) : Prop :=
  done = true →
    (pointer = none → num.toNat * size.toNat = 0) ∧
    ∀ start, pointer = some start →
      start.offset + num.toNat * size.toNat ≤ after.handedOut pool start.block ∧
      after.Zeroed start (num.toNat * size.toNat)

def DataArray (nmemb size : UInt64) (ret : Option Nat) (after : World) : Prop :=
  ∀ block, ret = some block → nmemb.toNat * size.toNat ≤ after.blockSize block ∧
    after.Zeroed ⟨block, 0⟩ (nmemb.toNat * size.toNat)

/-- How many blocks a pool takes from `malloc` to serve a request: a block of its own with its
cleaner, a page with its header and its cleaner, or none. -/
def blocksFor (world : World) (pool size : Nat) : Nat :=
  match world.loadPool pool with
  | .ok record =>
      if size = 0 then 0
      else if size > record.pageSize then 2
      else
        match world.pageList pool with
        | (_, page) :: _ => if size > page.size - page.used then 3 else 0
        | [] => 0
  | .error _ => 0

section Grants

variable {world after : World} {pool : Nat}

theorem store_answers {ref : Nat} {block : Block} (stored : world.store ref block = .ok after) :
    after.answers = world.answers := by
  obtain ⟨heap, _, same⟩ := Exec.bind_eq_ok.mp stored
  cases same
  rfl

theorem lsDataMalloc_granted (world : World) (block : Block) :
    ((world.lsDataMalloc block).1.isSome ↔ Grants world.answers 1) ∧
      (world.lsDataMalloc block).2.answers = world.answers.tail := by
  rcases world with ⟨heap, _ | ⟨granted, answers⟩, trace⟩
  · simp [lsDataMalloc]
  · cases granted <;> simp [lsDataMalloc]

theorem lsPoolAddCleaner_granted {callback : PoolCleaner} {arg : Nat} {done : Bool}
    (returned : world.lsPoolAddCleaner pool callback arg = .ok (done, after)) :
    done = true ↔ Grants world.answers 1 := by
  have granted := (lsDataMalloc_granted world (.ctx ⟨⟨callback, arg⟩, none⟩)).1
  rcases taken : world.lsDataMalloc (.ctx ⟨⟨callback, arg⟩, none⟩) with ⟨ref, first⟩
  rw [taken] at granted
  cases ref with
  | none =>
    simp only [lsPoolAddCleaner, taken] at returned
    cases returned
    simpa using granted
  | some ctx =>
    simp only [lsPoolAddCleaner, taken] at returned
    obtain ⟨self, _, returned⟩ := Exec.bind_eq_ok.mp returned
    obtain ⟨second, _, returned⟩ := Exec.bind_eq_ok.mp returned
    obtain ⟨third, _, returned⟩ := Exec.bind_eq_ok.mp returned
    cases returned
    simpa using granted

theorem mallocFnc_granted {block : Block} {cleaner : PoolCleaner} {ref : Option Nat}
    (returned : world.mallocFnc pool block cleaner = .ok (ref, after)) :
    ref.isSome ↔ Grants world.answers 2 := by
  obtain ⟨granted, rest⟩ := lsDataMalloc_granted world block
  rw [grants_succ world.answers 1]
  rcases taken : world.lsDataMalloc block with ⟨ret, first⟩
  rw [taken] at granted rest
  cases ret with
  | none =>
    simp only [mallocFnc, taken] at returned
    cases returned
    simp [← granted]
  | some ret =>
    simp only [mallocFnc, taken] at returned
    obtain ⟨⟨done, second⟩, added, returned⟩ := Exec.bind_eq_ok.mp returned
    have registered := lsPoolAddCleaner_granted added
    rw [rest] at registered
    cases done with
    | true =>
      cases returned
      simp [← granted, ← registered]
    | false =>
      obtain ⟨third, _, returned⟩ := Exec.bind_eq_ok.mp returned
      cases returned
      simp [← granted, ← registered]

theorem addPage_granted {done : Bool} (returned : world.addPage pool = .ok (done, after)) :
    done = true ↔ Grants world.answers 3 := by
  obtain ⟨granted, rest⟩ := lsDataMalloc_granted world (.page ⟨⟨0, 0, 0⟩, none⟩)
  rw [grants_succ world.answers 2]
  rcases taken : world.lsDataMalloc (.page ⟨⟨0, 0, 0⟩, none⟩) with ⟨page, first⟩
  rw [taken] at granted rest
  cases page with
  | none =>
    simp only [addPage, taken] at returned
    cases returned
    simp [← granted]
  | some page =>
    simp only [addPage, taken] at returned
    obtain ⟨self, _, returned⟩ := Exec.bind_eq_ok.mp returned
    obtain ⟨bytesGranted, bytesRest⟩ :=
      lsDataMalloc_granted first (.bytes (List.replicate self.pageSize none))
    rw [← rest, grants_succ first.answers 1]
    rcases bytes : first.lsDataMalloc (.bytes (List.replicate self.pageSize none)) with
      ⟨block, second⟩
    rw [bytes] at bytesGranted bytesRest
    cases block with
    | none =>
      simp only [bytes] at returned
      obtain ⟨third, _, returned⟩ := Exec.bind_eq_ok.mp returned
      cases returned
      simp [← bytesGranted]
    | some block =>
      simp only [bytes] at returned
      obtain ⟨third, stored, returned⟩ := Exec.bind_eq_ok.mp returned
      obtain ⟨⟨added, fourth⟩, registering, returned⟩ := Exec.bind_eq_ok.mp returned
      have registered := lsPoolAddCleaner_granted registering
      rw [store_answers stored, bytesRest] at registered
      cases added with
      | true =>
        obtain ⟨_, _, returned⟩ := Exec.bind_eq_ok.mp returned
        obtain ⟨_, _, returned⟩ := Exec.bind_eq_ok.mp returned
        obtain ⟨_, _, returned⟩ := Exec.bind_eq_ok.mp returned
        cases returned
        simp [← granted, ← bytesGranted, ← registered]
      | false =>
        obtain ⟨_, _, returned⟩ := Exec.bind_eq_ok.mp returned
        obtain ⟨_, _, returned⟩ := Exec.bind_eq_ok.mp returned
        cases returned
        simp [← bytesGranted, ← registered]

variable {record : LsPool} {entries : List PoolEntry}

/-- A request succeeds exactly when `malloc` grants the blocks it takes. -/
theorem lsPoolMalloc_granted (represents : world.Represents pool record entries)
    (paged : 0 < record.pageSize → pageCells record.pageSize entries ≠ []) {size : Nat}
    {done : Bool} {pointer : Option Pointer}
    (returned : world.lsPoolMalloc pool size = .ok (done, pointer, after)) :
    done = true ↔ Grants world.answers (world.blocksFor pool size) := by
  have loaded := loadPool_ok represents.found
  by_cases empty : size = 0
  · rw [lsPoolMalloc, if_pos empty] at returned
    cases returned
    simp [blocksFor, loaded, empty]
  by_cases large : size > record.pageSize
  · simp only [lsPoolMalloc, if_neg empty, loaded, Exec.ok_bind, if_pos large] at returned
    obtain ⟨⟨ref, first⟩, taken, returned⟩ := Exec.bind_eq_ok.mp returned
    have granted := mallocFnc_granted taken
    simp only [blocksFor, loaded, if_neg empty, if_pos large, ← granted]
    cases ref with
    | none =>
      cases returned
      simp
    | some ref =>
      obtain ⟨_, _, returned⟩ := Exec.bind_eq_ok.mp returned
      obtain ⟨_, _, returned⟩ := Exec.bind_eq_ok.mp returned
      cases returned
      simp
  · obtain ⟨⟨header, page⟩, rest, cells⟩ := List.exists_cons_of_ne_nil (paged (by omega))
    have member : (header, page) ∈ pageCells record.pageSize entries := by
      rw [cells]
      exact List.mem_cons_self
    have room : page.used ≤ record.pageSize := represents.room _ member
    have sized : page.size = record.pageSize := pageCells_size member
    have pages : record.pages = some header := by
      have chain := represents.pages
      rw [cells] at chain
      exact (Link.segment_cons.mp chain).1
    simp only [lsPoolMalloc, if_neg empty, loaded, Exec.ok_bind, if_neg large, pages] at returned
    simp only [blocksFor, loaded, if_neg empty, if_neg large, represents.pageList_eq, cells]
    rcases pageMalloc_ok represents cells size with
      ⟨full, nothing⟩ | ⟨fits, second, served, _⟩
    · have noRoom : size > page.size - page.used := by omega
      simp only [nothing, Exec.ok_bind] at returned
      obtain ⟨⟨added, third⟩, adding, returned⟩ := Exec.bind_eq_ok.mp returned
      have granted := addPage_granted adding
      rw [if_pos noRoom, ← granted]
      cases added with
      | true =>
        obtain ⟨self, _, returned⟩ := Exec.bind_eq_ok.mp returned
        rcases newest : self.pages with _ | newest
        · simp [newest] at returned
        · simp only [newest] at returned
          obtain ⟨_, _, returned⟩ := Exec.bind_eq_ok.mp returned
          cases returned
          simp
      | false =>
        cases returned
        simp
    · have enough : ¬ size > page.size - page.used := by omega
      simp only [served, Exec.ok_bind] at returned
      cases returned
      simp [if_neg enough]

end Grants

section Zeroed

variable {world after : World} {pool : Nat} {record : LsPool} {entries : List PoolEntry}

theorem handedOut_eq (represents : world.Represents pool record entries) {entry : PoolEntry}
    (member : entry ∈ entries) {block taken : Nat} (extent : entry.extent = some (block, taken)) :
    world.handedOut pool block = taken := by
  have owned := PoolEntry.extent_mem_refs extent
  rw [handedOut, represents.pageList_eq]
  split
  next cell searched =>
    have same : cell.2.block = block := by simpa using List.find?_some searched
    obtain ⟨ctx, inside⟩ := page_of_pageCells (List.mem_of_find?_eq_some searched)
    rw [represents.entry_unique member inside owned (by simp [PoolEntry.refs, same])] at extent
    exact (Prod.mk.inj (Option.some.inj extent)).2
  next searched =>
    cases entry with
    | page ctx bytes header used =>
      cases extent
      have absent := List.find?_eq_none.mp searched (header, ⟨block, record.pageSize, taken⟩)
        (List.mem_filterMap.mpr ⟨_, member, rfl⟩)
      simp at absent
    | direct ctx bytes size =>
      cases extent
      exact represents.blockSize_eq member rfl
    | user ctx callback arg => cases extent

theorem clear_ok {start : Pointer} {length : Nat} {old : List (Option UInt8)}
    (found : world.heap.cells start.block = some (.bytes old))
    (fits : start.offset + length ≤ old.length) :
    ∃ cleared new, world.clear (some start) length = .ok cleared ∧ new.length = old.length ∧
      cleared.heap.cells start.block = some (.bytes new) ∧
      cleared.heap = world.heap.set start.block (.bytes new) ∧ cleared.Zeroed start length := by
  by_cases empty : length = 0
  · subst empty
    exact ⟨world, old, rfl, rfl, found, (Memory.set_self found).symm, old, found, nofun⟩
  · have room : start.offset + (List.replicate length (0 : UInt8)).length ≤ old.length := by
      rw [List.length_replicate]
      exact fits
    obtain ⟨cleared, new, wrote, shape, sized, heap, _⟩ := writeBytes_ok found room
    have here : cleared.heap.cells start.block = some (.bytes new) := by
      rw [heap]
      exact Memory.set_cells_self _ found
    refine ⟨cleared, new, ?_, sized, here, heap, new, here, ?_⟩
    · rw [clear, if_neg empty]
      exact wrote
    · intro i inside
      have before : (old.take start.offset).length = start.offset := by
        rw [List.length_take]
        omega
      rw [shape, List.append_assoc, List.getElem?_append_right (by omega), before]
      rw [List.getElem?_append_left (by simp; omega)]
      simp only [List.map_replicate]
      rw [List.getElem?_replicate, if_pos (by omega)]

end Zeroed

section Calloc

variable {world : World} {pool : Nat} {record : LsPool} {entries : List PoolEntry}

/-- `ls_pool_calloc` hands out as many bytes as the wrapped product says, and clears them. -/
theorem lsPoolCalloc_ok (represents : world.Represents pool record entries)
    (paged : 0 < record.pageSize → pageCells record.pageSize entries ≠ []) (num size : UInt64) :
    ∃ done pointer after next later,
      world.lsPoolCalloc pool num size = .ok (done, pointer, after) ∧
      after.Represents pool next later ∧
      (0 < next.pageSize → pageCells next.pageSize later ≠ []) ∧
      (done = true ↔ Grants world.answers (world.blocksFor pool (num * size).toNat)) ∧
      (done = true → pointer = none ∧ (num * size).toNat = 0 ∨
        ∃ start, pointer = some start ∧
          after.handedOut pool start.block = start.offset + (num * size).toNat ∧
          after.Zeroed start (num * size).toNat) := by
  generalize length : (num * size).toNat = total
  by_cases empty : total = 0
  · have returned : world.lsPoolMalloc pool total = .ok (true, none, world) := by
      rw [lsPoolMalloc, if_pos empty]
      rfl
    refine ⟨true, none, world, record, entries, ?_, represents, paged,
      lsPoolMalloc_granted represents paged returned, fun _ => .inl ⟨rfl, empty⟩⟩
    simp only [lsPoolCalloc, length, returned, Exec.ok_bind, clear, if_pos empty,
      Exec.pure_eq_ok]
  rcases lsPoolMalloc_ok represents paged (Nat.pos_of_ne_zero empty) with
    ⟨after, refused, undone⟩ | ⟨start, after, next, later, taken, served⟩
  · refine ⟨false, none, after, record, entries, ?_,
      PoolRequest.undone_represents represents undone, paged,
      lsPoolMalloc_granted represents paged refused,
      fun granted => absurd granted Bool.false_ne_true⟩
    simp only [lsPoolCalloc, length, refused, Exec.ok_bind, Exec.pure_eq_ok]
  · obtain ⟨entry, inside, extent⟩ := PoolSession.served_extent served
    obtain ⟨other, member, whole, holds, fits⟩ := served.inside
    obtain ⟨_, found, old, rfl, sized⟩ :=
      served.represents.bytes other member start.block whole holds
    rw [← sized] at fits
    obtain ⟨cleared, new, wrote, same, _, heap, zeroed⟩ := clear_ok found fits
    have kept := served.represents.write found same heap
    refine ⟨true, some start, cleared, next, later, ?_, kept, PoolSession.served_paged served paged,
      lsPoolMalloc_granted represents paged taken,
      fun _ => .inr ⟨start, rfl, handedOut_eq kept inside extent, zeroed⟩⟩
    simp only [lsPoolCalloc, length, taken, Exec.ok_bind, wrote, Exec.pure_eq_ok]

theorem lsDataCalloc_ok (world : World) (nmemb size : UInt64) :
    ∃ ret after, world.lsDataCalloc nmemb size = .ok (ret, after) ∧
      (ret.isSome ↔ Grants world.answers 1) ∧
      ∀ block, ret = some block → after.blockSize block = (nmemb * size).toNat ∧
        after.Zeroed ⟨block, 0⟩ (nmemb * size).toNat := by
  generalize length : (nmemb * size).toNat = total
  obtain ⟨granted, _⟩ := lsDataMalloc_granted world (.bytes (List.replicate total none))
  rcases lsDataMalloc_cases world (.bytes (List.replicate total none)) with
    ⟨after, refused, _⟩ | ⟨first, taken, heap, _⟩
  · rw [refused] at granted
    refine ⟨none, after, ?_, granted, nofun⟩
    simp only [lsDataCalloc, length, refused, Exec.pure_eq_ok]
  · rw [taken] at granted
    have found : first.heap.cells world.heap.fresh =
        some (.bytes (List.replicate total none)) := by
      rw [heap, Memory.alloc_cells_self]
    have fits : 0 + total ≤ (List.replicate total (none : Option UInt8)).length := by
      rw [List.length_replicate, Nat.zero_add]
    obtain ⟨cleared, new, wrote, same, here, _, zeroed⟩ :=
      @clear_ok first ⟨world.heap.fresh, 0⟩ total _ found fits
    refine ⟨some world.heap.fresh, cleared, ?_, granted, ?_⟩
    · simp only [lsDataCalloc, length, taken, Exec.ok_bind, wrote, Exec.pure_eq_ok]
    · intro block returned
      cases returned
      refine ⟨?_, zeroed⟩
      simp only [blockSize, here, same, List.length_replicate]

theorem toNat_mul_cases (num size : UInt64) :
    num.toNat * size.toNat < 2 ^ 64 ∧ (num * size).toNat = num.toNat * size.toNat ∨
      ¬ num.toNat * size.toNat < 2 ^ 64 ∧ (num * size).toNat < num.toNat * size.toNat := by
  have inside := (num * size).toNat_lt
  rw [UInt64.toNat_mul] at inside ⊢
  by_cases small : num.toNat * size.toNat < 2 ^ 64
  · exact .inl ⟨small, Nat.mod_eq_of_lt small⟩
  · exact .inr ⟨small, by omega⟩

end Calloc

end World

inductive ArrayRequest where
  | plain (request : PoolRequest)
  | calloc (num size : UInt64) (answers : List Bool)

namespace ArrayRequest

open World

def answer (world : World) (pool : Nat) : ArrayRequest → Exec (Bool × Option Pointer × World)
  | .plain request => request.answer world pool
  | .calloc num size answers => World.lsPoolCalloc { world with answers := answers } pool num size

def system (pool : Nat) : System World ArrayRequest where
  Enabled _ _ := True
  step world request := do
    let answer ← request.answer world pool
    pure answer.2.2

def Created (pool : Nat) (start : World) : Prop :=
  ∃ (world : World) (pagingEnabled : Bool) (size : Nat),
    world.lsPoolCreate pagingEnabled size = .ok (some pool, start)

def Ready (pool : Nat) (world : World) : Prop :=
  ∃ record entries, world.Represents pool record entries ∧
    (0 < record.pageSize → pageCells record.pageSize entries ≠ [])

variable {pool : Nat} {start last : World} {requests : List ArrayRequest}

theorem Created.ready (created : Created pool start) : Ready pool start := by
  obtain ⟨world, pagingEnabled, size, returned⟩ := created
  rcases World.lsPoolCreate_ok world pagingEnabled size with
    ⟨after, refused, _⟩ | ⟨first, after, record, entries, made, _, _, represents, paged, _⟩
  · cases returned.symm.trans refused
  · cases returned.symm.trans made
    exact ⟨record, entries, represents, paged⟩

theorem ready_step {world next : World} (ready : Ready pool world) {request : ArrayRequest}
    (returned : (system pool).step world request = .ok next) : Ready pool next := by
  obtain ⟨record, entries, represents, paged⟩ := ready
  obtain ⟨⟨done, pointer, after⟩, answered, same⟩ := Exec.bind_eq_ok.mp returned
  cases same
  cases request with
  | plain request =>
    obtain ⟨_, _, _, next, later, again, outcome⟩ := request.answer_ok represents paged
    cases answered.symm.trans again
    cases outcome with
    | refused _ represents => exact ⟨_, _, represents, paged⟩
    | nothing _ _ _ _ represents => exact ⟨_, _, represents, paged⟩
    | served _ served =>
      exact ⟨next, later, served.represents, PoolSession.served_paged served paged⟩
    | registered shape _ represents pageSize =>
      subst shape
      refine ⟨_, _, represents, ?_⟩
      rw [pageSize]
      exact paged
  | calloc num size answers =>
    have given : World.Represents { world with answers := answers } pool record entries :=
      represents.frame fun _ _ => rfl
    obtain ⟨_, _, _, next, later, again, kept, keptPaged, _⟩ :=
      lsPoolCalloc_ok given paged num size
    cases answered.symm.trans again
    exact ⟨next, later, kept, keptPaged⟩

/-- After any requests an array is as large as its items need exactly when their product is a
`size_t`, or `malloc` does not even grant the blocks that the wrapped product takes. -/
theorem run_callocs_iff (created : Created pool start)
    (run : (system pool).Run start requests last) (num size : UInt64) (answers : List Bool) :
    (∃ done pointer after,
      World.lsPoolCalloc { last with answers := answers } pool num size =
        .ok (done, pointer, after) ∧
      (World.PoolArray pool num size done pointer after ↔
        num.toNat * size.toNat < 2 ^ 64 ∨
          ¬ Grants answers (last.blocksFor pool (num * size).toNat))) ∧
    ∃ ret after,
      World.lsDataCalloc { last with answers := answers } num size = .ok (ret, after) ∧
      (World.DataArray num size ret after ↔
        num.toNat * size.toNat < 2 ^ 64 ∨ ¬ Grants answers 1) := by
  have ready : Ready pool last :=
    run.preserves (Ready pool) (fun _ _ _ ready _ returned => ready_step ready returned)
      created.ready
  obtain ⟨record, entries, represents, paged⟩ := ready
  have given : World.Represents { last with answers := answers } pool record entries :=
    represents.frame fun _ _ => rfl
  constructor
  · obtain ⟨done, pointer, after, _, _, returned, _, _, granted, served⟩ :=
      lsPoolCalloc_ok given paged num size
    refine ⟨done, pointer, after, returned, ?_⟩
    have same : World.blocksFor { last with answers := answers } pool (num * size).toNat =
        last.blocksFor pool (num * size).toNat := rfl
    rw [same] at granted
    rw [← granted]
    rcases toNat_mul_cases num size with ⟨small, exact⟩ | ⟨large, less⟩
    · refine iff_of_true ?_ (.inl small)
      intro succeeded
      rw [← exact]
      rcases served succeeded with ⟨rfl, empty⟩ | ⟨start, rfl, room, zeroed⟩
      · exact ⟨fun _ => empty, nofun⟩
      · refine ⟨nofun, ?_⟩
        rintro _ ⟨⟩
        exact ⟨room.ge, zeroed⟩
    · rw [or_iff_right large]
      constructor
      · intro promised succeeded
        obtain ⟨nothing, something⟩ := promised succeeded
        rcases served succeeded with ⟨rfl, empty⟩ | ⟨start, rfl, room, zeroed⟩
        · have product := nothing rfl
          omega
        · have bound := (something start rfl).1
          omega
      · intro failed succeeded
        exact absurd succeeded failed
  · obtain ⟨ret, after, returned, granted, served⟩ :=
      lsDataCalloc_ok { last with answers := answers } num size
    refine ⟨ret, after, returned, ?_⟩
    rw [← granted]
    rcases toNat_mul_cases num size with ⟨small, exact⟩ | ⟨large, less⟩
    · refine iff_of_true ?_ (.inl small)
      intro block same
      rw [← exact]
      exact ⟨(served block same).1.ge, (served block same).2⟩
    · rw [or_iff_right large]
      constructor
      · intro promised taken
        obtain ⟨block, same⟩ := Option.isSome_iff_exists.mp taken
        have bound := (promised block same).1
        rw [(served block same).1] at bound
        omega
      · intro refused block same
        exact absurd (same ▸ rfl) refused

def use (world : World) (pool size : Nat) (requests : List ArrayRequest) : Exec World := do
  match ← world.lsPoolCreate true size with
  | (some made, world) =>
      if made = pool then (system pool).execute (fun _ _ => true) world requests
      else .error .assertFailed
  | (none, _) => .error .assertFailed

theorem run_of_use {world : World} {size : Nat} (used : use world pool size requests = .ok last) :
    ∃ start, Created pool start ∧ (system pool).Run start requests last := by
  obtain ⟨⟨made, after⟩, created, executed⟩ := Exec.bind_eq_ok.mp used
  cases made with
  | none => cases executed
  | some made =>
    by_cases same : made = pool
    · subst same
      simp only [if_true] at executed
      exact ⟨after, ⟨world, true, size, created⟩, .of_execute (fun _ _ _ => trivial) executed⟩
    · simp only [if_neg same] at executed
      cases executed

theorem run_callocs_iff_small :
    ∃ (last : World) (done : Bool) (pointer : Option Pointer) (after : World),
      World.lsPoolCalloc { last with answers := [true, true] } 0 3 4 = .ok (done, pointer, after) ∧
        World.PoolArray 0 3 4 done pointer after := by
  have seen : (use PoolSession.emptyWorld 0 8
      [.plain (.malloc 5 []), .calloc 2 3 [true, true, true]]).toOption.map World.trace ≠ none := by
    decide +kernel
  obtain ⟨trace, same⟩ := Option.ne_none_iff_exists'.mp seen
  obtain ⟨last, used, _⟩ := Exec.exists_of_map _ same
  obtain ⟨start, created, run⟩ := run_of_use used
  obtain ⟨⟨done, pointer, after, returned, promised⟩, _⟩ :=
    run_callocs_iff created run 3 4 [true, true]
  exact ⟨last, done, pointer, after, returned, promised.mpr (.inl (by decide))⟩

theorem calloc_wraps :
    (∃ (start : World) (pointer : Pointer) (after : World), Created 0 start ∧
      World.lsPoolCalloc { start with answers := [] } 0 0x2000000000000001 8 =
        .ok (true, some pointer, after) ∧
      ¬ World.PoolArray 0 0x2000000000000001 8 true (some pointer) after) ∧
    ∃ (block : Nat) (after : World),
      PoolSession.emptyWorld.lsDataCalloc 0x2000000000000001 8 = .ok (some block, after) ∧
      ¬ World.DataArray 0x2000000000000001 8 (some block) after := by
  have fromPool : (PoolSession.emptyWorld.lsPoolCreate true 64).toOption.map
      (fun made : Option Nat × World => (made.1,
        ((World.lsPoolCalloc { made.2 with answers := [] } 0 0x2000000000000001 8).toOption.map
          fun answer => (answer.1, answer.2.1, answer.2.2.handedOut 0 2)))) =
      some (some 0, some (true, some ⟨2, 0⟩, 8)) := by
    decide +kernel
  have fromHeap :
      (PoolSession.emptyWorld.lsDataCalloc 0x2000000000000001 8).toOption.map
        (fun answer => (answer.1, answer.2.blockSize 0)) = some (some 0, 8) := by
    decide +kernel
  constructor
  · obtain ⟨⟨pool, start⟩, created, same⟩ := Exec.exists_of_map _ fromPool
    obtain ⟨rfl, served⟩ := Prod.mk.inj same
    obtain ⟨⟨done, pointer, after⟩, returned, answer⟩ := Exec.exists_of_map _ served
    simp only [Prod.mk.injEq] at answer
    obtain ⟨rfl, rfl, room⟩ := answer
    refine ⟨start, _, after, ⟨_, _, _, created⟩, returned, ?_⟩
    intro promised
    have bound := ((promised rfl).2 _ rfl).1
    rw [room] at bound
    revert bound
    decide
  · obtain ⟨⟨block, after⟩, returned, answer⟩ := Exec.exists_of_map _ fromHeap
    obtain ⟨rfl, room⟩ := Prod.mk.inj answer
    refine ⟨_, after, returned, ?_⟩
    intro promised
    have bound := (promised _ rfl).1
    change after.blockSize 0 = 8 at room
    rw [room] at bound
    revert bound
    decide

end ArrayRequest

end SpudLib
