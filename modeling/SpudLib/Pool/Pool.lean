import SpudLib.Foundation.LinkedList

/-!
# Memory pools

The data and the functions of `src/ls_mem.c` that allocate from a pool.  All
blocks are in one heap, and each request brings the answers that `malloc` gives
to it, one after the other.  Every block taken and given back, every cleaner
registered and every cleaner called is noted in a trace.

A `size_t` is a natural number: no sum of the code is meant to wrap.
-/

namespace SpudLib

structure Pointer where
  block : Nat
  offset : Nat
  deriving DecidableEq

/-- `struct pool_page` without its link. -/
structure PoolPage where
  block : Nat
  size : Nat
  used : Nat
  deriving DecidableEq

/-- An `ls_pool_cleaner`: the two of the library, or a function of a user. -/
inductive PoolCleaner where
  | freePage
  | lsDataFree
  | user (callback : Nat)
  deriving DecidableEq

/-- `struct pool_cleaner_ctx` without its link. -/
structure PoolCleanerCtx where
  cleaner : PoolCleaner
  arg : Nat
  deriving DecidableEq

/-- `struct _ls_pool_int`. -/
structure LsPool where
  size : Nat
  pageSize : Nat
  cleaners : Option Nat
  tail : Option Nat
  pages : Option Nat
  deriving DecidableEq

/-- What a block holds; a byte that was never written is indeterminate. -/
inductive Block where
  | bytes (content : List (Option UInt8))
  | page (page : Link PoolPage)
  | ctx (ctx : Link PoolCleanerCtx)
  | pool (pool : LsPool)
  deriving DecidableEq

/-- What happened, in order.  A cleaner is told apart by its record. -/
inductive PoolEvent where
  | allocated (block : Nat)
  | freed (block : Nat)
  | registered (ctx : Nat) (content : PoolCleanerCtx)
  | called (ctx : Nat) (content : PoolCleanerCtx)
  deriving DecidableEq

/-- The heap, the answers `malloc` will give, and what happened so far. -/
structure World where
  heap : Memory Block
  answers : List Bool
  trace : List PoolEvent

namespace World

def note (world : World) (event : PoolEvent) : World :=
  { world with trace := world.trace ++ [event] }

def store (world : World) (ref : Nat) (block : Block) : Exec World := do
  let heap ← world.heap.modify ref fun _ => block
  pure { world with heap := heap }

def loadPool (world : World) (ref : Nat) : Exec LsPool := do
  match ← world.heap.read ref with
  | .pool pool => pure pool
  | _ => .error .useAfterFree

def loadPage (world : World) (ref : Nat) : Exec (Link PoolPage) := do
  match ← world.heap.read ref with
  | .page page => pure page
  | _ => .error .useAfterFree

def loadCtx (world : World) (ref : Nat) : Exec (Link PoolCleanerCtx) := do
  match ← world.heap.read ref with
  | .ctx ctx => pure ctx
  | _ => .error .useAfterFree

def writeBytes (world : World) (target : Pointer) (bytes : List UInt8) : Exec World := do
  match ← world.heap.read target.block with
  | .bytes content =>
      if target.offset + bytes.length ≤ content.length then
        world.store target.block (.bytes (content.take target.offset ++ bytes.map some ++
          content.drop (target.offset + bytes.length)))
      else .error .outOfBounds
  | _ => .error .useAfterFree

/-- `ls_data_malloc`: a new block, unless there is no memory. -/
def lsDataMalloc (world : World) (block : Block) : Option Nat × World :=
  match world.answers with
  | [] => (none, world)
  | false :: answers => (none, { world with answers := answers })
  | true :: answers =>
      (some world.heap.fresh,
        { heap := world.heap.alloc block
          answers := answers
          trace := world.trace ++ [.allocated world.heap.fresh] })

def lsDataFree (world : World) (ref : Nat) : Exec World := do
  let heap ← world.heap.free ref
  pure { world with heap := heap, trace := world.trace ++ [.freed ref] }

/-- `ls_pool_add_cleaner`.  `_malloc_fnc` without a cleaner is `ls_data_malloc`. -/
def lsPoolAddCleaner (world : World) (pool : Nat) (callback : PoolCleaner) (arg : Nat) :
    Exec (Bool × World) := do
  match world.lsDataMalloc (.ctx ⟨⟨callback, arg⟩, none⟩) with
  | (none, world) => pure (false, world)
  | (some ctx, world) =>
      let self ← world.loadPool pool
      let tail := if self.cleaners.isNone then some ctx else self.tail
      let world ← world.store ctx (.ctx ⟨⟨callback, arg⟩, self.cleaners⟩)
      let world ← world.store pool (.pool { self with tail := tail, cleaners := some ctx })
      pure (true, world.note (.registered ctx ⟨callback, arg⟩))

def mallocFnc (world : World) (pool : Nat) (block : Block) (cleaner : PoolCleaner) :
    Exec (Option Nat × World) := do
  match world.lsDataMalloc block with
  | (none, world) => pure (none, world)
  | (some ret, world) =>
      let added ← world.lsPoolAddCleaner pool cleaner ret
      if added.1 then pure (some ret, added.2)
      else
        let world ← added.2.lsDataFree ret
        pure (none, world)

/-- `_page_malloc`; a request that does not fit gets nothing. -/
def pageMalloc (world : World) (page : Nat) (size : Nat) : Exec (Option Pointer × World) := do
  let self ← world.loadPage page
  let willUse := self.data.used
  if size > self.data.size - willUse then pure (none, world)
  else
    let world ← world.store page (.page ⟨{ self.data with used := willUse + size }, self.next⟩)
    pure (some ⟨self.data.block, willUse⟩, world)

def freePage (world : World) (page : Nat) : Exec World := do
  let self ← world.loadPage page
  let world ← world.lsDataFree self.data.block
  world.lsDataFree page

def addPage (world : World) (pool : Nat) : Exec (Bool × World) := do
  match world.lsDataMalloc (.page ⟨⟨0, 0, 0⟩, none⟩) with
  | (none, world) => pure (false, world)
  | (some page, world) =>
      let self ← world.loadPool pool
      match world.lsDataMalloc (.bytes (List.replicate self.pageSize none)) with
      | (none, world) =>
          let world ← world.lsDataFree page
          pure (false, world)
      | (some block, world) =>
          let world ← world.store page (.page ⟨⟨block, 0, 0⟩, none⟩)
          let added ← world.lsPoolAddCleaner pool .freePage page
          if added.1 then
            let self ← added.2.loadPool pool
            let world ← added.2.store page (.page ⟨⟨block, self.pageSize, 0⟩, self.pages⟩)
            let world ← world.store pool
              (.pool { self with pages := some page, size := self.size + self.pageSize })
            pure (true, world)
          else
            let world ← added.2.lsDataFree block
            let world ← world.lsDataFree page
            pure (false, world)

/-- `ls_pool_create`; `pagingEnabled` is the switch of `ls_pool_enable_paging`. -/
def lsPoolCreate (world : World) (pagingEnabled : Bool) (size : Nat) :
    Exec (Option Nat × World) := do
  let size := if pagingEnabled then size else 0
  match world.lsDataMalloc (.pool ⟨0, size, none, none, none⟩) with
  | (none, world) => pure (none, world)
  | (some ret, world) =>
      if size = 0 then pure (some ret, world)
      else
        let added ← world.addPage ret
        if added.1 then pure (some ret, added.2)
        else
          let world ← added.2.lsDataFree ret
          pure (none, world)

/-- `ls_pool_malloc`: whether it succeeded and the pointer, NULL for no bytes. -/
def lsPoolMalloc (world : World) (pool : Nat) (size : Nat) :
    Exec (Bool × Option Pointer × World) := do
  if size = 0 then pure (true, none, world)
  else
    let self ← world.loadPool pool
    if size > self.pageSize then
      match ← world.mallocFnc pool (.bytes (List.replicate size none)) .lsDataFree with
      | (none, world) => pure (false, none, world)
      | (some ret, world) =>
          let self ← world.loadPool pool
          let world ← world.store pool (.pool { self with size := self.size + size })
          pure (true, some ⟨ret, 0⟩, world)
    else
      match self.pages with
      | none => .error .nullDereference
      | some page =>
          match ← world.pageMalloc page size with
          | (some ret, world) => pure (true, some ret, world)
          | (none, world) =>
              let added ← world.addPage pool
              if added.1 then
                let self ← added.2.loadPool pool
                match self.pages with
                | none => .error .nullDereference
                | some page =>
                    let served ← added.2.pageMalloc page size
                    pure (true, served.1, served.2)
              else pure (false, none, added.2)

/-- `ls_pool_strdup`; NULL is copied to NULL. -/
def lsPoolStrdup (world : World) (pool : Nat) (src : Option (List UInt8)) :
    Exec (Bool × Option Pointer × World) := do
  match src with
  | none => pure (true, none, world)
  | some src =>
      let text := src.takeWhile (· ≠ 0)
      match ← world.lsPoolMalloc pool (text.length + 1) with
      | (false, _, world) => pure (false, none, world)
      | (true, none, _) => .error .nullDereference
      | (true, some ret, world) =>
          let world ← world.writeBytes ret (text ++ [0])
          pure (true, some ret, world)

/-- Call a cleaner; what a user's function does is not the pool's. -/
def callCleaner (world : World) (ctx : Nat) (content : PoolCleanerCtx) : Exec World :=
  let world := world.note (.called ctx content)
  match content.cleaner with
  | .freePage => world.freePage content.arg
  | .lsDataFree => world.lsDataFree content.arg
  | .user _ => pure world

/-- The loop of `ls_pool_destroy`. -/
def callCleaners : (bound : Nat) → Option Nat → World → Exec World
  | _, none, world => pure world
  | 0, some _, _ => .error .diverges
  | bound + 1, some cur, world => do
      let self ← world.loadCtx cur
      let world ← world.callCleaner cur self.data
      let self ← world.loadCtx cur
      let world ← world.lsDataFree cur
      callCleaners bound self.next world

def lsPoolDestroy (world : World) (pool : Nat) : Exec World := do
  let self ← world.loadPool pool
  let world ← callCleaners world.heap.fresh self.cleaners world
  world.lsDataFree pool

end World

end SpudLib
