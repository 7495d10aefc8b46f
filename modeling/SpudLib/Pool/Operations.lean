import SpudLib.Pool.Representation

/-!
# What the pool functions do to the stack

A request either adds one entry, takes bytes of the newest page, does both, or
is undone: whatever it had allocated is freed again and the heap is as before.
-/

namespace SpudLib

def allocatedOf (trace : List PoolEvent) : List Nat :=
  trace.filterMap fun
    | .allocated block => some block
    | _ => none

def freedOf (trace : List PoolEvent) : List Nat :=
  trace.filterMap fun
    | .freed block => some block
    | _ => none

def registeredOf (trace : List PoolEvent) : List (Nat × PoolCleanerCtx) :=
  trace.filterMap fun
    | .registered ctx content => some (ctx, content)
    | _ => none

def calledOf (trace : List PoolEvent) : List (Nat × PoolCleanerCtx) :=
  trace.filterMap fun
    | .called ctx content => some (ctx, content)
    | _ => none

@[simp] theorem allocatedOf_append (front back : List PoolEvent) :
    allocatedOf (front ++ back) = allocatedOf front ++ allocatedOf back := List.filterMap_append

@[simp] theorem freedOf_append (front back : List PoolEvent) :
    freedOf (front ++ back) = freedOf front ++ freedOf back := List.filterMap_append

@[simp] theorem registeredOf_append (front back : List PoolEvent) :
    registeredOf (front ++ back) = registeredOf front ++ registeredOf back :=
  List.filterMap_append

@[simp] theorem calledOf_append (front back : List PoolEvent) :
    calledOf (front ++ back) = calledOf front ++ calledOf back := List.filterMap_append

namespace World

section Blocks

variable {world : World} {ref : Nat} {block : Block}

theorem lsDataMalloc_cases (world : World) (block : Block) :
    (∃ after, world.lsDataMalloc block = (none, after) ∧ after.heap = world.heap ∧
      after.trace = world.trace) ∨
    ∃ after, world.lsDataMalloc block = (some world.heap.fresh, after) ∧
      after.heap = world.heap.alloc block ∧
      after.trace = world.trace ++ [.allocated world.heap.fresh] := by
  cases answered : world.answers with
  | nil => exact .inl ⟨world, by simp [lsDataMalloc, answered], rfl, rfl⟩
  | cons granted rest =>
    cases granted with
    | false =>
      left
      exact ⟨{ world with answers := rest }, by simp [lsDataMalloc, answered], rfl, rfl⟩
    | true =>
      right
      let after : World :=
        { heap := world.heap.alloc block
          answers := rest
          trace := world.trace ++ [.allocated world.heap.fresh] }
      exact ⟨after, by simp [lsDataMalloc, answered, after], rfl, rfl⟩

theorem lsDataFree_ok (found : world.heap.cells ref = some block) :
    ∃ after, world.lsDataFree ref = .ok after ∧ after.heap = world.heap.erase ref ∧
      after.trace = world.trace ++ [.freed ref] := by
  let after : World :=
    { world with heap := world.heap.erase ref, trace := world.trace ++ [.freed ref] }
  exact ⟨after, by simp [lsDataFree, Memory.free_of_some found, after], rfl, rfl⟩

theorem store_ok (found : world.heap.cells ref = some block) (new : Block) :
    ∃ after, world.store ref new = .ok after ∧ after.heap = world.heap.set ref new ∧
      after.trace = world.trace :=
  ⟨{ world with heap := world.heap.set ref new },
    by simp [store, Memory.modify_of_some found], rfl, rfl⟩

theorem loadPool_ok {pool : LsPool} (found : world.heap.cells ref = some (.pool pool)) :
    world.loadPool ref = .ok pool := by
  simp [loadPool, Memory.read_of_some found]

theorem loadPage_ok {page : Link PoolPage} (found : world.heap.cells ref = some (.page page)) :
    world.loadPage ref = .ok page := by
  simp [loadPage, Memory.read_of_some found]

theorem loadCtx_ok {ctx : Link PoolCleanerCtx} (found : world.heap.cells ref = some (.ctx ctx)) :
    world.loadCtx ref = .ok ctx := by
  simp [loadCtx, Memory.read_of_some found]

end Blocks

/-- A request that failed: the heap is as before, and what was taken was given back. -/
structure Undone (before after : World) : Prop where
  cells : after.heap.cells = before.heap.cells
  fresh : before.heap.fresh ≤ after.heap.fresh
  events : ∃ events, after.trace = before.trace ++ events ∧
    allocatedOf events =
      List.range' before.heap.fresh (after.heap.fresh - before.heap.fresh) ∧
    (freedOf events).Perm (allocatedOf events) ∧ registeredOf events = [] ∧ calledOf events = []

/-- An entry was added: its blocks were taken, then its cleaner was registered. -/
structure Pushed (before after : World) (entry : PoolEntry) : Prop where
  fresh : before.heap.fresh ≤ after.heap.fresh
  taken : entry.refs.reverse =
    List.range' before.heap.fresh (after.heap.fresh - before.heap.fresh)
  trace : after.trace = before.trace ++ entry.refs.reverse.map .allocated ++
    [.registered entry.ctx entry.content]

theorem Undone.refused {world after : World} (heap : after.heap = world.heap)
    (trace : after.trace = world.trace) : world.Undone after where
  cells := by rw [heap]
  fresh := by rw [heap]
  events := ⟨[], by simp [trace], by simp [allocatedOf, heap], by simp [freedOf, allocatedOf],
    rfl, rfl⟩

section AddCleaner

variable {world : World} {pool : Nat} {record : LsPool}

theorem lsPoolAddCleaner_ok (found : world.heap.cells pool = some (.pool record))
    (callback : PoolCleaner) (arg : Nat) :
    (∃ after, world.lsPoolAddCleaner pool callback arg = .ok (false, after) ∧
      after.heap = world.heap ∧ after.trace = world.trace) ∨
    ∃ after tail, world.lsPoolAddCleaner pool callback arg = .ok (true, after) ∧
      after.heap.fresh = world.heap.fresh + 1 ∧
      after.trace = world.trace ++ [.allocated world.heap.fresh,
        .registered world.heap.fresh ⟨callback, arg⟩] ∧
      after.heap.cells pool =
        some (.pool { record with tail := tail, cleaners := some world.heap.fresh }) ∧
      after.heap.cells world.heap.fresh = some (.ctx ⟨⟨callback, arg⟩, record.cleaners⟩) ∧
      ∀ ref, ref ≠ pool → ref ≠ world.heap.fresh →
        after.heap.cells ref = world.heap.cells ref := by
  rcases lsDataMalloc_cases world (.ctx ⟨⟨callback, arg⟩, none⟩) with
    ⟨first, refused, same⟩ | ⟨first, taken, heap, trace⟩
  · left
    exact ⟨first, by simp [lsPoolAddCleaner, refused], same⟩
  · right
    have older := Memory.lt_fresh found
    have kept : first.heap.cells pool = some (.pool record) := by
      rw [heap, Memory.alloc_cells_of_some _ _ found]
    have new : first.heap.cells world.heap.fresh = some (.ctx ⟨⟨callback, arg⟩, none⟩) := by
      rw [heap, Memory.alloc_cells_self]
    obtain ⟨second, linked, secondHeap, secondTrace⟩ :=
      store_ok new (.ctx ⟨⟨callback, arg⟩, record.cleaners⟩)
    have placed : second.heap.cells pool = some (.pool record) := by
      rw [secondHeap, Memory.set_cells_of_ne _ _ (Nat.ne_of_lt older), kept]
    obtain ⟨third, stored, thirdHeap, thirdTrace⟩ := store_ok placed
      (.pool { record with
        tail := if record.cleaners.isNone then some world.heap.fresh else record.tail
        cleaners := some world.heap.fresh })
    refine ⟨third.note (.registered world.heap.fresh ⟨callback, arg⟩),
      if record.cleaners.isNone then some world.heap.fresh else record.tail,
      ?_, ?_, ?_, ?_, ?_, ?_⟩
    · simp only [lsPoolAddCleaner, taken, loadPool_ok kept, Exec.ok_bind, linked, stored,
        Exec.pure_eq_ok]
    · simp [note, thirdHeap, secondHeap, heap]
    · simp [note, thirdTrace, secondTrace, trace]
    · simp only [note, thirdHeap]
      exact Memory.set_cells_self _ placed
    · simp only [note, thirdHeap, secondHeap]
      rw [Memory.set_cells_of_ne _ _ (Nat.ne_of_gt older)]
      exact Memory.set_cells_self _ new
    · intro ref notPool notCtx
      simp only [note, thirdHeap, secondHeap, heap]
      rw [Memory.set_cells_of_ne _ _ notPool, Memory.set_cells_of_ne _ _ notCtx,
        Memory.alloc_cells_of_ne _ _ notCtx]

end AddCleaner

section AddPage

variable {world first second third fourth : World} {pool pageSize : Nat} {record : LsPool}
  {entries : List PoolEntry}

theorem Undone.taken {block : Block} (heap : first.heap = world.heap.alloc block)
    (trace : first.trace = world.trace ++ [.allocated world.heap.fresh]) :
    ∃ after, first.lsDataFree world.heap.fresh = .ok after ∧ world.Undone after := by
  have found : first.heap.cells world.heap.fresh = some block := by
    rw [heap, Memory.alloc_cells_self]
  obtain ⟨after, released, afterHeap, afterTrace⟩ := lsDataFree_ok found
  refine ⟨after, released, ?_, ?_, [.allocated world.heap.fresh, .freed world.heap.fresh],
    ?_, ?_, ?_, rfl, rfl⟩
  · funext ref
    rw [afterHeap, heap]
    by_cases new : ref = world.heap.fresh
    · rw [new, Memory.erase_cells_self, world.heap.unallocated _ (le_refl _)]
    · rw [Memory.erase_cells_of_ne _ new, Memory.alloc_cells_of_ne _ _ new]
  · simp [afterHeap, heap]
  · simp [afterTrace, trace]
  · simp [allocatedOf, afterHeap, heap]
  · simp [allocatedOf, freedOf]

structure Paged (world : World) (pageSize : Nat) (after : World) : Prop where
  fresh : after.heap.fresh = world.heap.fresh + 2
  header : after.heap.cells world.heap.fresh =
    some (.page ⟨⟨world.heap.fresh + 1, 0, 0⟩, none⟩)
  bytes : after.heap.cells (world.heap.fresh + 1) =
    some (.bytes (List.replicate pageSize none))
  old : ∀ ref, ref ≠ world.heap.fresh → ref ≠ world.heap.fresh + 1 →
    after.heap.cells ref = world.heap.cells ref
  trace : after.trace = world.trace ++
    [.allocated world.heap.fresh, .allocated (world.heap.fresh + 1)]

theorem paged_of_store {header : Block} (firstHeap : first.heap = world.heap.alloc header)
    (firstTrace : first.trace = world.trace ++ [.allocated world.heap.fresh])
    (secondHeap : second.heap = first.heap.alloc (.bytes (List.replicate pageSize none)))
    (secondTrace : second.trace = first.trace ++ [.allocated (world.heap.fresh + 1)]) :
    ∃ third, second.store world.heap.fresh (.page ⟨⟨world.heap.fresh + 1, 0, 0⟩, none⟩) =
      .ok third ∧ Paged world pageSize third := by
  have firstFresh : first.heap.fresh = world.heap.fresh + 1 := by
    rw [firstHeap, Memory.alloc_fresh]
  have taken : first.heap.cells world.heap.fresh = some header := by
    rw [firstHeap, Memory.alloc_cells_self]
  have found : second.heap.cells world.heap.fresh = some header := by
    rw [secondHeap, Memory.alloc_cells_of_some _ _ taken]
  obtain ⟨third, written, heap, trace⟩ :=
    store_ok found (.page ⟨⟨world.heap.fresh + 1, 0, 0⟩, none⟩)
  refine ⟨third, written, ?_, ?_, ?_, ?_, ?_⟩
  · rw [heap, Memory.set_fresh, secondHeap, Memory.alloc_fresh, firstFresh]
  · rw [heap]
    exact Memory.set_cells_self _ found
  · rw [heap, Memory.set_cells_of_ne _ _ (by omega), secondHeap, ← firstFresh,
      Memory.alloc_cells_self]
  · intro ref notPage notBytes
    rw [← firstFresh] at notBytes
    rw [heap, Memory.set_cells_of_ne _ _ notPage, secondHeap,
      Memory.alloc_cells_of_ne _ _ notBytes, firstHeap, Memory.alloc_cells_of_ne _ _ notPage]
  · simp [trace, secondTrace, firstTrace]

/-- Without a record for its cleaner the page is given back. -/
theorem Paged.undone (paged : Paged world pageSize third) (heap : fourth.heap = third.heap)
    (trace : fourth.trace = third.trace) :
    ∃ fifth sixth, fourth.lsDataFree (world.heap.fresh + 1) = .ok fifth ∧
      fifth.lsDataFree world.heap.fresh = .ok sixth ∧ world.Undone sixth := by
  have bytes := paged.bytes
  rw [← heap] at bytes
  obtain ⟨fifth, releasedBytes, fifthHeap, fifthTrace⟩ := lsDataFree_ok bytes
  have header : fifth.heap.cells world.heap.fresh =
      some (.page ⟨⟨world.heap.fresh + 1, 0, 0⟩, none⟩) := by
    rw [fifthHeap, Memory.erase_cells_of_ne _ (Nat.succ_ne_self _).symm, heap, paged.header]
  obtain ⟨sixth, releasedPage, sixthHeap, sixthTrace⟩ := lsDataFree_ok header
  have fresh : sixth.heap.fresh = world.heap.fresh + 2 := by
    rw [sixthHeap, Memory.erase_fresh, fifthHeap, Memory.erase_fresh, heap, paged.fresh]
  refine ⟨fifth, sixth, releasedBytes, releasedPage, ?_, by omega,
    [.allocated world.heap.fresh, .allocated (world.heap.fresh + 1),
      .freed (world.heap.fresh + 1), .freed world.heap.fresh], ?_, ?_, ?_, rfl, rfl⟩
  · funext ref
    rw [sixthHeap, fifthHeap, heap]
    by_cases isPage : ref = world.heap.fresh
    · rw [isPage, Memory.erase_cells_self, world.heap.unallocated _ (le_refl _)]
    rw [Memory.erase_cells_of_ne _ isPage]
    by_cases isBytes : ref = world.heap.fresh + 1
    · rw [isBytes, Memory.erase_cells_self, world.heap.unallocated _ (Nat.le_succ _)]
    · rw [Memory.erase_cells_of_ne _ isBytes, paged.old ref isPage isBytes]
  · simp [sixthTrace, fifthTrace, trace, paged.trace]
  · simp [allocatedOf, fresh, List.range'_succ]
  · simp only [allocatedOf, freedOf, List.filterMap_cons, List.filterMap_nil]
    exact List.Perm.swap _ _ _

/-- A page that could not be added is undone, whichever of its three blocks was
refused; otherwise its header, its bytes and its cleaner record are new. -/
theorem addPage_cells (found : world.heap.cells pool = some (.pool record)) :
    (∃ after, world.addPage pool = .ok (false, after) ∧ world.Undone after) ∨
    ∃ after tail, world.addPage pool = .ok (true, after) ∧
      after.heap.fresh = world.heap.fresh + 3 ∧
      after.trace = world.trace ++ [.allocated world.heap.fresh,
        .allocated (world.heap.fresh + 1), .allocated (world.heap.fresh + 2),
        .registered (world.heap.fresh + 2) ⟨.freePage, world.heap.fresh⟩] ∧
      after.heap.cells pool = some (.pool
        { size := record.size + record.pageSize
          pageSize := record.pageSize
          cleaners := some (world.heap.fresh + 2)
          tail := tail
          pages := some world.heap.fresh }) ∧
      after.heap.cells world.heap.fresh =
        some (.page ⟨⟨world.heap.fresh + 1, record.pageSize, 0⟩, record.pages⟩) ∧
      after.heap.cells (world.heap.fresh + 1) =
        some (.bytes (List.replicate record.pageSize none)) ∧
      after.heap.cells (world.heap.fresh + 2) =
        some (.ctx ⟨⟨.freePage, world.heap.fresh⟩, record.cleaners⟩) ∧
      ∀ ref, ref ≠ pool → ref < world.heap.fresh →
        after.heap.cells ref = world.heap.cells ref := by
  have older := Memory.lt_fresh found
  rcases lsDataMalloc_cases world (.page ⟨⟨0, 0, 0⟩, none⟩) with
    ⟨first, refused, heap, trace⟩ | ⟨first, header, firstHeap, firstTrace⟩
  · left
    exact ⟨first, by simp [addPage, refused], Undone.refused heap trace⟩
  have firstPool : first.heap.cells pool = some (.pool record) := by
    rw [firstHeap, Memory.alloc_cells_of_some _ _ found]
  rcases lsDataMalloc_cases first (.bytes (List.replicate record.pageSize none)) with
    ⟨second, refused, heap, trace⟩ | ⟨second, block, secondHeap, secondTrace⟩
  · left
    obtain ⟨third, released, undone⟩ :=
      Undone.taken (heap.trans firstHeap) (trace.trans firstTrace)
    refine ⟨third, ?_, undone⟩
    simp only [addPage, header, loadPool_ok firstPool, Exec.ok_bind, refused, released,
      Exec.pure_eq_ok]
  rw [show first.heap.fresh = world.heap.fresh + 1 by rw [firstHeap, Memory.alloc_fresh]]
    at block secondTrace
  obtain ⟨third, written, paged⟩ := paged_of_store firstHeap firstTrace secondHeap secondTrace
  have thirdPool : third.heap.cells pool = some (.pool record) := by
    rw [paged.old pool (by omega) (by omega), found]
  rcases lsPoolAddCleaner_ok thirdPool .freePage world.heap.fresh with
    ⟨fourth, added, heap, trace⟩ | ⟨fourth, tail, added, fourthFresh, fourthTrace, fourthPool,
      fourthCtx, fourthOld⟩
  · left
    obtain ⟨fifth, sixth, releasedBytes, releasedPage, undone⟩ := paged.undone heap trace
    refine ⟨sixth, ?_, undone⟩
    simp only [addPage, header, loadPool_ok firstPool, Exec.ok_bind, block, written, added,
      releasedBytes, releasedPage, Exec.pure_eq_ok, Bool.false_eq_true, if_false]
  right
  rw [paged.fresh] at fourthFresh fourthTrace fourthPool fourthCtx fourthOld
  have fourthPage : fourth.heap.cells world.heap.fresh =
      some (.page ⟨⟨world.heap.fresh + 1, 0, 0⟩, none⟩) := by
    rw [fourthOld _ (Nat.ne_of_gt older) (by omega), paged.header]
  obtain ⟨fifth, linked, fifthHeap, fifthTrace⟩ := store_ok fourthPage
    (.page ⟨⟨world.heap.fresh + 1, record.pageSize, 0⟩, record.pages⟩)
  have fifthPool : fifth.heap.cells pool =
      some (.pool { record with tail := tail, cleaners := some (world.heap.fresh + 2) }) := by
    rw [fifthHeap, Memory.set_cells_of_ne _ _ (Nat.ne_of_lt older), fourthPool]
  obtain ⟨sixth, stored, sixthHeap, sixthTrace⟩ := store_ok fifthPool
    (.pool
      { size := record.size + record.pageSize
        pageSize := record.pageSize
        cleaners := some (world.heap.fresh + 2)
        tail := tail
        pages := some world.heap.fresh })
  have sixthOld : ∀ ref, ref ≠ pool → ref ≠ world.heap.fresh →
      sixth.heap.cells ref = fourth.heap.cells ref := by
    intro ref notPool notPage
    rw [sixthHeap, Memory.set_cells_of_ne _ _ notPool, fifthHeap,
      Memory.set_cells_of_ne _ _ notPage]
  refine ⟨sixth, tail, ?_, ?_, ?_, ?_, ?_, ?_, ?_, ?_⟩
  · simp only [addPage, header, loadPool_ok firstPool, Exec.ok_bind, block, written, added,
      loadPool_ok fourthPool, linked, stored, Exec.pure_eq_ok, if_true]
  · rw [sixthHeap, Memory.set_fresh, fifthHeap, Memory.set_fresh, fourthFresh]
  · simp [sixthTrace, fifthTrace, fourthTrace, paged.trace]
  · rw [sixthHeap]
    exact Memory.set_cells_self _ fifthPool
  · rw [sixthHeap, Memory.set_cells_of_ne _ _ (Nat.ne_of_gt older), fifthHeap]
    exact Memory.set_cells_self _ fourthPage
  · rw [sixthOld _ (by omega) (by omega), fourthOld _ (by omega) (by omega), paged.bytes]
  · rw [sixthOld _ (by omega) (by omega), fourthCtx]
  · intro ref notPool old
    rw [sixthOld ref notPool (by omega), fourthOld ref notPool (by omega),
      paged.old ref (by omega) (by omega)]

theorem addPage_ok (represents : world.Represents pool record entries)
    (positive : 0 < record.pageSize) :
    (∃ after, world.addPage pool = .ok (false, after) ∧ world.Undone after) ∨
    ∃ after next entry, world.addPage pool = .ok (true, after) ∧
      entry = .page (world.heap.fresh + 2) (world.heap.fresh + 1) world.heap.fresh 0 ∧
      after.Represents pool next (entry :: entries) ∧ next.pageSize = record.pageSize ∧
      next.pages = some world.heap.fresh ∧ world.Pushed after entry := by
  rcases addPage_cells represents.found with undone |
    ⟨after, tail, added, fresh, trace, found, page, bytes, ctx, old⟩
  · exact .inl undone
  right
  refine ⟨after, _, _, added, rfl, represents.push ?_ found rfl ?_ rfl ctx ⟨rfl, page⟩ ?_ ?_ ?_ ?_,
    rfl, rfl, ?_⟩
  · intro ref member
    have bound := represents.lt_fresh ref (List.mem_cons_of_mem pool member)
    have above := represents.pool_lt ref member
    exact old ref (by omega) bound
  · simp [PoolEntry.size, PoolEntry.bytes, Nat.add_comm]
  · intro block size holds
    cases holds
    exact ⟨_, bytes, _, rfl, by simp⟩
  · simp [PoolEntry.refs]
  · simp [PoolEntry.refs]
  · intro cell same
    cases same
    exact ⟨Nat.zero_le _, positive⟩
  · constructor
    · omega
    · simp [PoolEntry.refs, fresh, List.range'_succ]
    · simp [trace, PoolEntry.refs, PoolEntry.ctx, PoolEntry.content]

end AddPage

section Malloc

variable {world : World} {pool : Nat} {record : LsPool} {entries : List PoolEntry}

/-- A direct block whose cleaner could not be registered is freed. -/
theorem mallocFnc_cells (found : world.heap.cells pool = some (.pool record)) (block : Block)
    (cleaner : PoolCleaner) :
    (∃ after, world.mallocFnc pool block cleaner = .ok (none, after) ∧ world.Undone after) ∨
    ∃ after tail, world.mallocFnc pool block cleaner = .ok (some world.heap.fresh, after) ∧
      after.heap.fresh = world.heap.fresh + 2 ∧
      after.trace = world.trace ++ [.allocated world.heap.fresh,
        .allocated (world.heap.fresh + 1),
        .registered (world.heap.fresh + 1) ⟨cleaner, world.heap.fresh⟩] ∧
      after.heap.cells pool =
        some (.pool { record with tail := tail, cleaners := some (world.heap.fresh + 1) }) ∧
      after.heap.cells world.heap.fresh = some block ∧
      after.heap.cells (world.heap.fresh + 1) =
        some (.ctx ⟨⟨cleaner, world.heap.fresh⟩, record.cleaners⟩) ∧
      ∀ ref, ref ≠ pool → ref < world.heap.fresh →
        after.heap.cells ref = world.heap.cells ref := by
  have older := Memory.lt_fresh found
  rcases lsDataMalloc_cases world block with
    ⟨first, refused, heap, trace⟩ | ⟨first, taken, firstHeap, firstTrace⟩
  · left
    exact ⟨first, by simp [mallocFnc, refused], Undone.refused heap trace⟩
  have firstPool : first.heap.cells pool = some (.pool record) := by
    rw [firstHeap, Memory.alloc_cells_of_some _ _ found]
  have firstBlock : first.heap.cells world.heap.fresh = some block := by
    rw [firstHeap, Memory.alloc_cells_self]
  have firstFresh : first.heap.fresh = world.heap.fresh + 1 := by
    rw [firstHeap, Memory.alloc_fresh]
  rcases lsPoolAddCleaner_ok firstPool cleaner world.heap.fresh with
    ⟨second, added, heap, trace⟩ | ⟨second, tail, added, fresh, trace, stored, ctx, old⟩
  · left
    rw [← heap] at firstBlock
    obtain ⟨third, released, thirdHeap, thirdTrace⟩ := lsDataFree_ok firstBlock
    refine ⟨third, ?_, ?_, ?_, [.allocated world.heap.fresh, .freed world.heap.fresh],
      ?_, ?_, ?_, rfl, rfl⟩
    · simp only [mallocFnc, taken, added, Exec.ok_bind, released, Exec.pure_eq_ok,
        Bool.false_eq_true, if_false]
    · funext ref
      rw [thirdHeap, heap, firstHeap]
      by_cases new : ref = world.heap.fresh
      · rw [new, Memory.erase_cells_self, world.heap.unallocated _ (le_refl _)]
      · rw [Memory.erase_cells_of_ne _ new, Memory.alloc_cells_of_ne _ _ new]
    · simp [thirdHeap, heap, firstFresh]
    · simp [thirdTrace, trace, firstTrace]
    · simp [allocatedOf, thirdHeap, heap, firstFresh]
    · simp [allocatedOf, freedOf]
  right
  rw [firstFresh] at fresh trace stored ctx old
  refine ⟨second, tail, ?_, fresh, ?_, stored, ?_, ctx, ?_⟩
  · simp only [mallocFnc, taken, added, Exec.ok_bind, Exec.pure_eq_ok, if_true]
  · simp [trace, firstTrace]
  · rw [old _ (Nat.ne_of_gt older) (by omega), firstBlock]
  · intro ref notPool bound
    rw [old ref notPool (by omega), firstHeap, Memory.alloc_cells_of_ne _ _ (Nat.ne_of_lt bound)]

/-- `_page_malloc` on the newest page. -/
theorem pageMalloc_ok (represents : world.Represents pool record entries) {header : Nat}
    {page : PoolPage} {rest : List (Nat × PoolPage)}
    (cells : pageCells record.pageSize entries = (header, page) :: rest) (size : Nat) :
    record.pageSize < page.used + size ∧
      world.pageMalloc header size = .ok (none, world) ∨
    page.used + size ≤ record.pageSize ∧ ∃ after,
      world.pageMalloc header size = .ok (some ⟨page.block, page.used⟩, after) ∧
      after.heap.fresh = world.heap.fresh ∧ after.trace = world.trace ∧
      after.Represents pool record (takeBytes size entries) := by
  have member : (header, page) ∈ pageCells record.pageSize entries := by
    rw [cells]
    exact List.mem_cons_self
  have room : page.used ≤ record.pageSize := represents.room _ member
  have sized : page.size = record.pageSize := pageCells_size member
  obtain ⟨link, found⟩ := represents.header_found member
  by_cases fits : page.used + size ≤ record.pageSize
  · right
    obtain ⟨after, stored, heap, trace⟩ :=
      store_ok found (.page ⟨{ page with used := page.used + size }, link⟩)
    have small : ¬ size > page.size - page.used := by omega
    refine ⟨fits, after, ?_, ?_, trace, represents.bump cells found fits heap⟩
    · simp only [pageMalloc, loadPage_ok found, Exec.ok_bind, if_neg small, stored,
        Exec.pure_eq_ok]
    · rw [heap, Memory.set_fresh]
  · left
    have large : size > page.size - page.used := by omega
    refine ⟨by omega, ?_⟩
    simp only [pageMalloc, loadPage_ok found, Exec.ok_bind, if_pos large, Exec.pure_eq_ok]

inductive Served (world : World) (pool : Nat) (record : LsPool) (entries : List PoolEntry)
    (size : Nat) : Pointer → World → LsPool → List PoolEntry → Prop where
  /-- More than a page: a block of its own. -/
  | direct {after next entry} : record.pageSize < size →
      entry = .direct (world.heap.fresh + 1) world.heap.fresh size →
      after.Represents pool next (entry :: entries) → next.pageSize = record.pageSize →
      world.Pushed after entry →
      Served world pool record entries size ⟨world.heap.fresh, 0⟩ after next (entry :: entries)
  /-- The newest page has room. -/
  | current {after header page rest} : size ≤ record.pageSize →
      pageCells record.pageSize entries = (header, page) :: rest →
      page.used + size ≤ record.pageSize → after.heap.fresh = world.heap.fresh →
      after.trace = world.trace → after.Represents pool record (takeBytes size entries) →
      Served world pool record entries size ⟨page.block, page.used⟩ after record
        (takeBytes size entries)
  /-- A new page. -/
  | added {after next entry} : size ≤ record.pageSize →
      entry = .page (world.heap.fresh + 2) (world.heap.fresh + 1) world.heap.fresh size →
      after.Represents pool next (entry :: entries) → next.pageSize = record.pageSize →
      world.Pushed after entry →
      Served world pool record entries size ⟨world.heap.fresh + 1, 0⟩ after next
        (entry :: entries)

theorem lsPoolMalloc_direct (represents : world.Represents pool record entries) {size : Nat}
    (large : record.pageSize < size) :
    (∃ after, world.lsPoolMalloc pool size = .ok (false, none, after) ∧ world.Undone after) ∨
    ∃ pointer after next later, world.lsPoolMalloc pool size = .ok (true, some pointer, after) ∧
      world.Served pool record entries size pointer after next later := by
  have loaded := loadPool_ok represents.found
  have older := Memory.lt_fresh represents.found
  have positive : ¬ size = 0 := by omega
  rcases mallocFnc_cells represents.found (.bytes (List.replicate size none)) .lsDataFree with
    ⟨after, refused, undone⟩ | ⟨first, tail, taken, fresh, trace, found, bytes, ctx, old⟩
  · left
    refine ⟨after, ?_, undone⟩
    simp only [lsPoolMalloc, if_neg positive, loaded, Exec.ok_bind, if_pos large, refused,
      Exec.pure_eq_ok]
  right
  obtain ⟨second, stored, heap, secondTrace⟩ := store_ok found
    (.pool
      { size := record.size + size
        pageSize := record.pageSize
        cleaners := some (world.heap.fresh + 1)
        tail := tail
        pages := record.pages })
  have kept : ∀ ref, ref ≠ pool → second.heap.cells ref = first.heap.cells ref := by
    intro ref notPool
    rw [heap, Memory.set_cells_of_ne _ _ notPool]
  have secondFresh : second.heap.fresh = world.heap.fresh + 2 := by
    rw [heap, Memory.set_fresh, fresh]
  have secondPool : second.heap.cells pool = some (.pool
      { size := record.size + size
        pageSize := record.pageSize
        cleaners := some (world.heap.fresh + 1)
        tail := tail
        pages := record.pages }) := by
    rw [heap]
    exact Memory.set_cells_self _ found
  refine ⟨_, second, _, _, ?_, .direct large rfl (represents.push ?_ secondPool rfl ?_ rfl ?_ rfl
    ?_ ?_ ?_ ?_) rfl ?_⟩
  · simp only [lsPoolMalloc, if_neg positive, loaded, Exec.ok_bind, if_pos large, taken,
      loadPool_ok found, stored, Exec.pure_eq_ok]
  · intro ref member
    have bound := represents.lt_fresh ref (List.mem_cons_of_mem pool member)
    have above := represents.pool_lt ref member
    rw [kept ref (by omega), old ref (by omega) bound]
  · simp [PoolEntry.size, PoolEntry.bytes, Nat.add_comm]
  · exact (kept (world.heap.fresh + 1) (by omega)).trans ctx
  · intro block length holds
    cases holds
    exact ⟨_, (kept world.heap.fresh (by omega)).trans bytes, _, rfl, by simp⟩
  · simp [PoolEntry.refs]
  · simp [PoolEntry.refs]
  · simp [PoolEntry.pageCell]
  · constructor
    · omega
    · simp [PoolEntry.refs, secondFresh, List.range'_succ]
    · simp [secondTrace, trace, PoolEntry.refs, PoolEntry.ctx, PoolEntry.content]

theorem lsPoolMalloc_page (represents : world.Represents pool record entries)
    (paged : pageCells record.pageSize entries ≠ []) {size : Nat} (positive : 0 < size)
    (small : size ≤ record.pageSize) :
    (∃ after, world.lsPoolMalloc pool size = .ok (false, none, after) ∧ world.Undone after) ∨
    ∃ pointer after next later, world.lsPoolMalloc pool size = .ok (true, some pointer, after) ∧
      world.Served pool record entries size pointer after next later := by
  have loaded := loadPool_ok represents.found
  have notZero : ¬ size = 0 := by omega
  have notLarge : ¬ size > record.pageSize := by omega
  obtain ⟨⟨header, page⟩, rest, cells⟩ := List.exists_cons_of_ne_nil paged
  have pages : record.pages = some header := by
    have chain := represents.pages
    rw [cells] at chain
    exact (Link.segment_cons.mp chain).1
  rcases pageMalloc_ok represents cells size with
    ⟨full, nothing⟩ | ⟨fits, after, served, fresh, trace, later⟩
  · rcases addPage_ok represents (by omega) with
      ⟨after, refused, undone⟩ | ⟨first, next, entry, added, rfl, later, sameSize, newest, pushed⟩
    · left
      refine ⟨after, ?_, undone⟩
      simp only [lsPoolMalloc, if_neg notZero, loaded, Exec.ok_bind, if_neg notLarge, pages,
        nothing, refused, Exec.pure_eq_ok, Bool.false_eq_true, if_false]
    · right
      rcases pageMalloc_ok later (pageCells_page _ _ _ _ _ _) size with
        ⟨full, _⟩ | ⟨_, second, served, fresh, trace, last⟩
      · simp only [Nat.zero_add, sameSize] at full
        omega
      · simp only [takeBytes, Nat.zero_add] at last served
        refine ⟨_, second, next, _, ?_, .added small rfl last sameSize ?_⟩
        · simp only [lsPoolMalloc, if_neg notZero, loaded, Exec.ok_bind, if_neg notLarge, pages,
            nothing, added, if_true, loadPool_ok later.found, newest, served, Exec.pure_eq_ok]
        · constructor
          · exact pushed.fresh.trans fresh.ge
          · rw [fresh]
            exact pushed.taken
          · rw [trace]
            exact pushed.trace
  · right
    refine ⟨_, after, record, _, ?_, .current small cells fits fresh trace later⟩
    simp only [lsPoolMalloc, if_neg notZero, loaded, Exec.ok_bind, if_neg notLarge, pages, served,
      Exec.pure_eq_ok]

/-- `ls_pool_malloc` of some bytes is undone or served. -/
theorem lsPoolMalloc_ok (represents : world.Represents pool record entries)
    (paged : 0 < record.pageSize → pageCells record.pageSize entries ≠ []) {size : Nat}
    (positive : 0 < size) :
    (∃ after, world.lsPoolMalloc pool size = .ok (false, none, after) ∧ world.Undone after) ∨
    ∃ pointer after next later, world.lsPoolMalloc pool size = .ok (true, some pointer, after) ∧
      world.Served pool record entries size pointer after next later := by
  by_cases large : record.pageSize < size
  · exact lsPoolMalloc_direct represents large
  · exact lsPoolMalloc_page represents (paged (by omega)) positive (by omega)

end Malloc

theorem represents_new {world after : World} {record : LsPool}
    (heap : after.heap = world.heap.alloc (.pool record)) (size : record.size = 0)
    (cleaners : record.cleaners = none) (pages : record.pages = none) :
    after.Represents world.heap.fresh record [] := by
  constructor
  · rw [heap, Memory.alloc_cells_self]
  · exact size
  · exact cleaners
  · exact pages
  · nofun
  · simp
  · nofun
  · nofun

/-- `ls_pool_create` is undone or makes a pool, with a first page if it has pages. -/
theorem lsPoolCreate_ok (world : World) (pagingEnabled : Bool) (size : Nat) :
    (∃ after, world.lsPoolCreate pagingEnabled size = .ok (none, after) ∧ world.Undone after) ∨
    ∃ first after record entries,
      world.lsPoolCreate pagingEnabled size = .ok (some world.heap.fresh, after) ∧
      first.heap.fresh = world.heap.fresh + 1 ∧
      first.trace = world.trace ++ [.allocated world.heap.fresh] ∧
      after.Represents world.heap.fresh record entries ∧
      (0 < record.pageSize → pageCells record.pageSize entries ≠ []) ∧
      (entries = [] ∧ after = first ∨ ∃ ctx block header used,
        entries = [.page ctx block header used] ∧
          first.Pushed after (.page ctx block header used)) := by
  obtain ⟨pageSize, chosen⟩ : ∃ pageSize, pageSize = if pagingEnabled then size else 0 := ⟨_, rfl⟩
  rcases lsDataMalloc_cases world (.pool ⟨0, pageSize, none, none, none⟩) with
    ⟨first, refused, heap, trace⟩ | ⟨first, taken, heap, trace⟩
  · left
    refine ⟨first, ?_, Undone.refused heap trace⟩
    simp only [lsPoolCreate, ← chosen, refused, Exec.pure_eq_ok]
  have fresh : first.heap.fresh = world.heap.fresh + 1 := by
    rw [heap, Memory.alloc_fresh]
  have new := represents_new heap rfl rfl rfl
  by_cases unpaged : pageSize = 0
  · right
    refine ⟨first, first, _, [], ?_, fresh, trace, new, ?_, .inl ⟨rfl, rfl⟩⟩
    · simp only [lsPoolCreate, ← chosen, taken, if_pos unpaged, Exec.pure_eq_ok]
    · intro positive
      exact absurd unpaged (Nat.ne_of_gt positive)
  · rcases addPage_ok new (Nat.pos_of_ne_zero unpaged) with
      ⟨second, refused, undone⟩ | ⟨after, next, entry, added, shape, later, sameSize, _, pushed⟩
    · left
      have found : second.heap.cells world.heap.fresh =
          some (.pool ⟨0, pageSize, none, none, none⟩) := by
        rw [undone.cells]
        exact new.found
      obtain ⟨after, released, afterHeap, afterTrace⟩ := lsDataFree_ok found
      obtain ⟨events, emitted, allocated, freed, registered, called⟩ := undone.events
      have bound := undone.fresh
      have afterFresh : after.heap.fresh = second.heap.fresh := by
        rw [afterHeap, Memory.erase_fresh]
      have counted : after.heap.fresh - world.heap.fresh =
          second.heap.fresh - first.heap.fresh + 1 := by omega
      have outer : allocatedOf ([.allocated world.heap.fresh] ++ events ++
          [.freed world.heap.fresh]) = world.heap.fresh :: allocatedOf events := by
        simp [allocatedOf]
      have inner : freedOf ([.allocated world.heap.fresh] ++ events ++
          [.freed world.heap.fresh]) = freedOf events ++ [world.heap.fresh] := by
        simp [freedOf]
      refine ⟨after, ?_, ?_, by omega, [.allocated world.heap.fresh] ++ events ++
        [.freed world.heap.fresh], ?_, ?_, ?_, ?_, ?_⟩
      · simp only [lsPoolCreate, ← chosen, taken, if_neg unpaged, refused, Exec.ok_bind, released,
          Exec.pure_eq_ok, Bool.false_eq_true, if_false]
      · funext ref
        rw [afterHeap]
        by_cases isPool : ref = world.heap.fresh
        · rw [isPool, Memory.erase_cells_self, world.heap.unallocated _ (le_refl _)]
        · rw [Memory.erase_cells_of_ne _ isPool, undone.cells, heap,
            Memory.alloc_cells_of_ne _ _ isPool]
      · rw [afterTrace, emitted, trace]
        simp
      · rw [outer, allocated, counted, List.range'_succ, fresh]
      · rw [outer, inner]
        exact (List.perm_append_singleton _ _).trans (freed.cons _)
      · rw [registeredOf_append, registeredOf_append, registered]
        rfl
      · rw [calledOf_append, calledOf_append, called]
        rfl
    · right
      subst shape
      refine ⟨first, after, next, _, ?_, fresh, trace, later, ?_, .inr ⟨_, _, _, _, rfl, pushed⟩⟩
      · simp only [lsPoolCreate, ← chosen, taken, if_neg unpaged, added, Exec.ok_bind,
          Exec.pure_eq_ok, if_true]
      · intro _
        exact List.cons_ne_nil _ _

end World

end SpudLib
