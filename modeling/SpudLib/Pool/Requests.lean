import SpudLib.Pool.Operations
import SpudLib.Foundation.System

/-!
# Requests to a pool

A session is a pool with the regions it returned so far.  Every request is
refused and undone, asks for nothing, is served with a region, or registers a
cleaner.
-/

namespace SpudLib

inductive PoolRequest where
  | malloc (size : Nat) (answers : List Bool)
  | strdup (src : Option (List UInt8)) (answers : List Bool)
  | addCleaner (callback arg : Nat) (answers : List Bool)

namespace PoolRequest

def answer (world : World) (pool : Nat) : PoolRequest → Exec (Bool × Option Pointer × World)
  | .malloc size answers => World.lsPoolMalloc { world with answers := answers } pool size
  | .strdup src answers => World.lsPoolStrdup { world with answers := answers } pool src
  | .addCleaner callback arg answers => do
      let world := { world with answers := answers }
      let added ← world.lsPoolAddCleaner pool (.user callback) arg
      pure (added.1, none, added.2)

def length : PoolRequest → Nat
  | .malloc size _ => size
  | .strdup none _ => 0
  | .strdup (some src) _ => (src.takeWhile (· ≠ 0)).length + 1
  | .addCleaner _ _ _ => 0

def cleaner : PoolRequest → Option PoolCleanerCtx
  | .addCleaner callback arg _ => some ⟨.user callback, arg⟩
  | _ => none

def given (world : World) : PoolRequest → World
  | .malloc _ answers | .strdup _ answers | .addCleaner _ _ answers =>
      { world with answers := answers }

end PoolRequest

namespace World

variable {world after : World} {pool : Nat} {record next : LsPool}
  {entries later : List PoolEntry} {size : Nat} {pointer : Pointer}

theorem page_of_pageCells {pageSize : Nat} {cell : Nat × PoolPage}
    (member : cell ∈ pageCells pageSize entries) :
    ∃ ctx, .page ctx cell.2.block cell.1 cell.2.used ∈ entries := by
  obtain ⟨entry, inside, same⟩ := List.mem_filterMap.mp member
  cases entry with
  | page ctx block header used =>
    cases same
    exact ⟨ctx, inside⟩
  | direct ctx block size => cases same
  | user ctx callback arg => cases same

theorem Served.represents
    (served : world.Served pool record entries size pointer after next later) :
    after.Represents pool next later := by
  cases served with
  | direct _ _ represents _ _ => exact represents
  | current _ _ _ _ _ represents => exact represents
  | added _ _ represents _ _ => exact represents

theorem Served.pageSize (served : world.Served pool record entries size pointer after next later) :
    next.pageSize = record.pageSize := by
  cases served with
  | direct _ _ _ same _ => exact same
  | current _ _ _ _ _ _ => rfl
  | added _ _ _ same _ => exact same

theorem Served.inside (served : world.Served pool record entries size pointer after next later) :
    ∃ entry ∈ later, ∃ total, entry.bytes next.pageSize = some (pointer.block, total) ∧
      pointer.offset + size ≤ total := by
  cases served with
  | direct large shape _ _ _ =>
    subst shape
    exact ⟨_, List.mem_cons_self, size, rfl, by simp⟩
  | @current _ header page rest _ cells fits _ _ _ =>
    have newest : (header, { page with used := page.used + size }) ∈
        pageCells record.pageSize (takeBytes size entries) := by
      rw [pageCells_takeBytes size cells]
      exact List.mem_cons_self
    obtain ⟨ctx, inside⟩ := page_of_pageCells newest
    exact ⟨_, inside, record.pageSize, rfl, fits⟩
  | added small shape _ same _ =>
    subst shape
    exact ⟨_, List.mem_cons_self, next.pageSize, rfl, by simpa [same] using small⟩

theorem Served.written {written : World}
    (served : world.Served pool record entries size pointer after next later)
    (represents : written.Represents pool next later)
    (fresh : written.heap.fresh = after.heap.fresh) (trace : written.trace = after.trace) :
    world.Served pool record entries size pointer written next later := by
  have pushed : ∀ entry, world.Pushed after entry → world.Pushed written entry := by
    intro entry pushed
    constructor
    · rw [fresh]
      exact pushed.fresh
    · rw [fresh]
      exact pushed.taken
    · rw [trace]
      exact pushed.trace
  cases served with
  | direct large shape _ same above => exact .direct large shape represents same (pushed _ above)
  | current small cells fits sameFresh sameTrace _ =>
    exact .current small cells fits (fresh.trans sameFresh) (trace.trans sameTrace) represents
  | added small shape _ same above => exact .added small shape represents same (pushed _ above)

theorem writeBytes_ok {target : Pointer} {old : List (Option UInt8)} {bytes : List UInt8}
    (found : world.heap.cells target.block = some (.bytes old))
    (fits : target.offset + bytes.length ≤ old.length) :
    ∃ after new, world.writeBytes target bytes = .ok after ∧
      new = old.take target.offset ++ bytes.map some ++ old.drop (target.offset + bytes.length) ∧
      new.length = old.length ∧ after.heap = world.heap.set target.block (.bytes new) ∧
      after.trace = world.trace := by
  obtain ⟨after, stored, heap, trace⟩ := store_ok found
    (.bytes (old.take target.offset ++ bytes.map some ++ old.drop (target.offset + bytes.length)))
  refine ⟨after, _, ?_, rfl, ?_, heap, trace⟩
  · simp only [writeBytes, Memory.read_of_some found, Exec.ok_bind, if_pos fits, stored]
  · simp only [List.length_append, List.length_take, List.length_map, List.length_drop]
    omega

end World

namespace PoolRequest

inductive Outcome (world : World) (pool : Nat) (record : LsPool) (entries : List PoolEntry) :
    PoolRequest → Bool → Option Pointer → World → LsPool → List PoolEntry → Prop where
  | refused {request after} : world.Undone after → after.Represents pool record entries →
      Outcome world pool record entries request false none after record entries
  | nothing {request after} : request.length = 0 →
      (∀ callback arg answers, request ≠ .addCleaner callback arg answers) →
      after.heap = world.heap → after.trace = world.trace →
      after.Represents pool record entries →
      Outcome world pool record entries request true none after record entries
  | served {request pointer after next later} : 0 < request.length →
      world.Served pool record entries request.length pointer after next later →
      Outcome world pool record entries request true (some pointer) after next later
  | registered {callback arg answers after next entry} :
      entry = .user world.heap.fresh callback arg → world.Pushed after entry →
      after.Represents pool next (entry :: entries) → next.pageSize = record.pageSize →
      Outcome world pool record entries (.addCleaner callback arg answers) true none after next
        (entry :: entries)

section Answer

variable {world : World} {pool : Nat} {record : LsPool} {entries : List PoolEntry}

theorem undone_represents {after : World} (represents : world.Represents pool record entries)
    (undone : world.Undone after) : after.Represents pool record entries :=
  represents.frame fun ref _ => congrFun undone.cells ref

theorem addCleaner_ok (represents : world.Represents pool record entries) (callback arg : Nat)
    (answers : List Bool) :
    ∃ done after next later,
      world.lsPoolAddCleaner pool (.user callback) arg = .ok (done, after) ∧
      Outcome world pool record entries (.addCleaner callback arg answers) done none after next
        later := by
  rcases World.lsPoolAddCleaner_ok represents.found (.user callback) arg with
    ⟨after, refused, heap, trace⟩ | ⟨after, tail, added, fresh, trace, found, ctx, old⟩
  · have undone := World.Undone.refused heap trace
    exact ⟨false, after, record, entries, refused,
      .refused undone (undone_represents represents undone)⟩
  · refine ⟨true, after, _, _, added, .registered rfl ?_ (represents.push ?_ found rfl ?_ rfl ctx
      rfl ?_ ?_ ?_ ?_) rfl⟩
    · constructor
      · omega
      · simp [PoolEntry.refs, fresh]
      · simp [trace, PoolEntry.refs, PoolEntry.ctx, PoolEntry.content]
    · intro ref member
      have bound := represents.lt_fresh ref (List.mem_cons_of_mem pool member)
      have above := represents.pool_lt ref member
      exact old ref (by omega) (by omega)
    · simp [PoolEntry.size, PoolEntry.bytes]
    · simp [PoolEntry.bytes]
    · simp [PoolEntry.refs]
    · simp [PoolEntry.refs]
    · simp [PoolEntry.pageCell]

theorem strdup_ok (represents : world.Represents pool record entries)
    (paged : 0 < record.pageSize → pageCells record.pageSize entries ≠ []) (src : List UInt8)
    (answers : List Bool) :
    ∃ done pointer after next later,
      world.lsPoolStrdup pool (some src) = .ok (done, pointer, after) ∧
      Outcome world pool record entries (.strdup (some src) answers) done pointer after next
        later := by
  have positive : 0 < (src.takeWhile (· ≠ 0)).length + 1 := Nat.succ_pos _
  rcases World.lsPoolMalloc_ok represents paged positive with
    ⟨after, refused, undone⟩ | ⟨pointer, after, next, later, taken, served⟩
  · refine ⟨false, none, after, record, entries, ?_,
      .refused undone (undone_represents represents undone)⟩
    simp only [World.lsPoolStrdup, refused, Exec.ok_bind, Exec.pure_eq_ok]
  · obtain ⟨entry, inside, total, holds, fits⟩ := served.inside
    obtain ⟨_, found, content, rfl, sized⟩ :=
      served.represents.bytes entry inside pointer.block total holds
    have room : pointer.offset + (src.takeWhile (· ≠ 0) ++ [0]).length ≤ content.length := by
      rw [sized, List.length_append]
      exact fits
    obtain ⟨written, new, wrote, _, same, heap, trace⟩ := World.writeBytes_ok found room
    have kept := served.represents.write found same heap
    refine ⟨true, some pointer, written, next, later, ?_, .served positive (served.written kept ?_
      trace)⟩
    · simp only [World.lsPoolStrdup, taken, Exec.ok_bind, wrote, Exec.pure_eq_ok]
    · rw [heap, Memory.set_fresh]

/-- Every request returns, whatever `malloc` answers. -/
theorem answer_ok (represents : world.Represents pool record entries)
    (paged : 0 < record.pageSize → pageCells record.pageSize entries ≠ [])
    (request : PoolRequest) :
    ∃ done pointer after next later, request.answer world pool = .ok (done, pointer, after) ∧
      Outcome (request.given world) pool record entries request done pointer after next later := by
  have given : (request.given world).Represents pool record entries := by
    cases request <;> exact represents.frame fun _ _ => rfl
  cases request with
  | addCleaner callback arg answers =>
    obtain ⟨done, after, next, later, added, outcome⟩ :=
      addCleaner_ok given callback arg answers
    refine ⟨done, none, after, next, later, ?_, outcome⟩
    exact Exec.bind_eq_ok.mpr ⟨_, added, rfl⟩
  | malloc size answers =>
    by_cases empty : size = 0
    · subst empty
      exact ⟨true, none, _, record, entries, rfl, .nothing rfl nofun rfl rfl given⟩
    · have positive : 0 < size := Nat.pos_of_ne_zero empty
      rcases World.lsPoolMalloc_ok given paged positive with
        ⟨after, refused, undone⟩ | ⟨pointer, after, next, later, taken, served⟩
      · exact ⟨false, none, after, record, entries, refused,
          .refused undone (undone_represents given undone)⟩
      · exact ⟨true, some pointer, after, next, later, taken, .served positive served⟩
  | strdup src answers =>
    cases src with
    | none =>
      exact ⟨true, none, _, record, entries, rfl, .nothing rfl nofun rfl rfl given⟩
    | some src => exact strdup_ok given paged src answers

end Answer

end PoolRequest

structure Region where
  start : Pointer
  length : Nat
  deriving DecidableEq

/-- A pool with the regions it returned and the cleaners it accepted, newest first. -/
structure PoolSession where
  world : World
  pool : Nat
  regions : List Region
  cleaners : List PoolCleanerCtx

namespace PoolSession

/-- One request; a pointer it returns is the start of as many bytes as it asked for. -/
def perform (session : PoolSession) (request : PoolRequest) : Exec PoolSession := do
  let answer ← request.answer session.world session.pool
  let region := answer.2.1.map fun start => ⟨start, request.length⟩
  let cleaner := if answer.1 then request.cleaner else none
  pure ⟨answer.2.2, session.pool, region.toList ++ session.regions,
    cleaner.toList ++ session.cleaners⟩

def system : System PoolSession PoolRequest where
  Enabled _ _ := True
  step := perform

def Created (session : PoolSession) : Prop :=
  session.regions = [] ∧ session.cleaners = [] ∧
    ∃ (world : World) (pagingEnabled : Bool) (size : Nat), world.trace = [] ∧
      world.lsPoolCreate pagingEnabled size = .ok (some session.pool, session.world)

def use (world : World) (pagingEnabled : Bool) (size : Nat) (requests : List PoolRequest) :
    Exec PoolSession := do
  match ← world.lsPoolCreate pagingEnabled size with
  | (some pool, world) => system.execute (fun _ _ => true) ⟨world, pool, [], []⟩ requests
  | (none, _) => .error .assertFailed

theorem created_of_use {world : World} (fresh : world.trace = []) {pagingEnabled : Bool}
    {size : Nat} {requests : List PoolRequest} {last : PoolSession}
    (used : use world pagingEnabled size requests = .ok last) :
    ∃ start : PoolSession, start.Created ∧ system.Run start requests last := by
  obtain ⟨⟨made, after⟩, created, executed⟩ := Exec.bind_eq_ok.mp used
  cases made with
  | none => cases executed
  | some pool =>
    refine ⟨⟨after, pool, [], []⟩, ⟨rfl, rfl, world, pagingEnabled, size, fresh, created⟩, ?_⟩
    exact .of_execute (fun _ _ _ => trivial) executed

/-- Requests for bytes of a first and of a second page, for a cleaner and for a
block of its own, two of them with too little memory. -/
def mixedRequests : List PoolRequest :=
  [.malloc 5 [], .malloc 6 [true, true, false], .malloc 6 [true, true, true],
    .addCleaner 1 7 [true], .strdup (some [104, 0, 106]) [], .malloc 20 [true, false],
    .malloc 20 [true, true], .malloc 2 [true, true, true]]

def emptyWorld : World := ⟨.empty, [true, true, true, true], []⟩

end PoolSession

end SpudLib
