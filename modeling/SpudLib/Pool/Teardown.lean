import SpudLib.Pool.Allocation

/-!
# Destroying a pool

`ls_pool_destroy` calls the cleaners newest first, and each gives back the blocks
of its entry.  The blocks taken before a cleaner was registered are older than
its record, and all that is given back before its turn is newer.
-/

namespace SpudLib

namespace PoolEntry

def teardown : PoolEntry → List PoolEvent
  | .page ctx block header used =>
      [.called ctx (PoolEntry.page ctx block header used).content, .freed block, .freed header,
        .freed ctx]
  | .direct ctx block size =>
      [.called ctx (PoolEntry.direct ctx block size).content, .freed block, .freed ctx]
  | .user ctx callback arg => [.called ctx (PoolEntry.user ctx callback arg).content, .freed ctx]

theorem teardown_freed (entry : PoolEntry) : (freedOf entry.teardown).Perm entry.refs := by
  cases entry with
  | page ctx block header used => exact @List.perm_append_comm _ [block, header] [ctx]
  | direct ctx block size => exact List.Perm.swap _ _ _
  | user ctx callback arg => exact List.Perm.refl _

theorem teardown_called (entry : PoolEntry) :
    entry.teardown = .called entry.ctx entry.content :: entry.teardown.tail := by
  cases entry <;> rfl

theorem not_called (entry : PoolEntry) (ctx : Nat) (content : PoolCleanerCtx) :
    .called ctx content ∉ entry.teardown.tail := by
  cases entry <;> simp [teardown]

theorem refs_newest (entry : PoolEntry) {start count : Nat}
    (taken : entry.refs.reverse = List.range' start count) : start + count = entry.ctx + 1 := by
  have length := congrArg List.length taken
  rw [List.length_reverse, List.length_range'] at length
  subst length
  cases entry <;> simp [refs, List.range'_succ] at taken <;> simp [refs, ctx] <;> omega

def Held (heap : Memory Block) : PoolEntry → Prop
  | .page _ block header _ => heap.Live block ∧
      ∃ page : Link PoolPage, heap.cells header = some (.page page) ∧ page.data.block = block
  | .direct _ block _ => heap.Live block
  | .user _ _ _ => True

end PoolEntry

def teardowns (entries : List PoolEntry) : List PoolEvent := entries.flatMap PoolEntry.teardown

theorem teardowns_allocated (entries : List PoolEntry) : allocatedOf (teardowns entries) = [] := by
  induction entries with
  | nil => rfl
  | cons entry rest inductionHypothesis =>
    rw [teardowns, List.flatMap_cons, allocatedOf_append]
    cases entry <;> exact inductionHypothesis

theorem teardowns_registered (entries : List PoolEntry) :
    registeredOf (teardowns entries) = [] := by
  induction entries with
  | nil => rfl
  | cons entry rest inductionHypothesis =>
    rw [teardowns, List.flatMap_cons, registeredOf_append]
    cases entry <;> exact inductionHypothesis

theorem teardowns_called (entries : List PoolEntry) :
    calledOf (teardowns entries) = entries.map PoolEntry.ctxCell := by
  induction entries with
  | nil => rfl
  | cons entry rest inductionHypothesis =>
    rw [teardowns, List.flatMap_cons, calledOf_append, List.map_cons]
    cases entry <;> exact congrArg (List.cons _) inductionHypothesis

theorem teardowns_freed (entries : List PoolEntry) :
    (freedOf (teardowns entries)).Perm (stackRefs entries) := by
  induction entries with
  | nil => exact List.Perm.refl _
  | cons entry rest inductionHypothesis =>
    rw [teardowns, List.flatMap_cons, freedOf_append, stackRefs_cons]
    exact entry.teardown_freed.append inductionHypothesis

namespace World

section Destroy

variable {world : World} {entry : PoolEntry} {entries : List PoolEntry}

/-- The cleaner of an entry is called and gives back its blocks. -/
theorem callCleaner_ok (held : entry.Held world.heap) (apart : entry.refs.Nodup) :
    ∃ after, world.callCleaner entry.ctx entry.content = .ok after ∧
      after.trace ++ [.freed entry.ctx] = world.trace ++ entry.teardown ∧
      after.heap.fresh = world.heap.fresh ∧
      (after.heap.cells entry.ctx = world.heap.cells entry.ctx) ∧
      ∀ ref, ref ∉ entry.refs → after.heap.cells ref = world.heap.cells ref := by
  cases entry with
  | user ctx callback arg =>
    refine ⟨_, rfl, ?_, rfl, rfl, fun _ _ => rfl⟩
    simp [note, PoolEntry.teardown, PoolEntry.ctx]
  | direct ctx block size =>
    obtain ⟨cell, found⟩ := held
    simp only [PoolEntry.refs, List.nodup_cons, List.mem_cons, List.not_mem_nil, or_false] at apart
    let called := world.note (.called ctx ⟨.lsDataFree, block⟩)
    obtain ⟨after, released, heap, trace⟩ :=
      lsDataFree_ok (show called.heap.cells block = some cell from found)
    have elsewhere : ∀ ref, ref ≠ block → after.heap.cells ref = world.heap.cells ref := by
      intro ref different
      rw [heap, Memory.erase_cells_of_ne _ different]
      rfl
    refine ⟨after, released, ?_, ?_, elsewhere ctx apart.1, ?_⟩
    · simp [trace, called, note, PoolEntry.teardown, PoolEntry.ctx, PoolEntry.content]
    · rw [heap, Memory.erase_fresh]
      rfl
    · intro ref outside
      apply elsewhere
      rintro rfl
      simp [PoolEntry.refs] at outside
  | page ctx block header used =>
    obtain ⟨⟨cell, found⟩, page, headerFound, rfl⟩ := held
    simp only [PoolEntry.refs, List.nodup_cons, List.mem_cons, List.not_mem_nil, or_false,
      not_or] at apart
    let called := world.note (.called ctx ⟨.freePage, header⟩)
    obtain ⟨first, bytes, firstHeap, firstTrace⟩ :=
      lsDataFree_ok (show called.heap.cells page.data.block = some cell from found)
    have still : first.heap.cells header = some (.page page) := by
      rw [firstHeap, Memory.erase_cells_of_ne _ (Ne.symm apart.2.1)]
      exact headerFound
    obtain ⟨after, released, heap, trace⟩ := lsDataFree_ok still
    have elsewhere : ∀ ref, ref ≠ page.data.block → ref ≠ header →
        after.heap.cells ref = world.heap.cells ref := by
      intro ref notBlock notHeader
      rw [heap, Memory.erase_cells_of_ne _ notHeader, firstHeap,
        Memory.erase_cells_of_ne _ notBlock]
      rfl
    refine ⟨after, ?_, ?_, ?_, elsewhere ctx apart.1.1 apart.1.2, ?_⟩
    · have loaded : called.loadPage header = .ok page := loadPage_ok headerFound
      change called.freePage header = _
      simp only [freePage, loaded, Exec.ok_bind, bytes, released]
    · simp [trace, firstTrace, called, note, PoolEntry.teardown, PoolEntry.ctx,
        PoolEntry.content]
    · rw [heap, Memory.erase_fresh, firstHeap, Memory.erase_fresh]
      rfl
    · intro ref outside
      simp only [PoolEntry.refs, List.mem_cons, List.not_mem_nil, or_false, not_or] at outside
      exact elsewhere ref outside.2.1 outside.2.2

theorem held_frame {after : World} (held : entry.Held world.heap)
    (same : ∀ ref ∈ entry.refs, after.heap.cells ref = world.heap.cells ref) :
    entry.Held after.heap := by
  cases entry with
  | user ctx callback arg => trivial
  | direct ctx block size =>
    obtain ⟨cell, found⟩ := held
    exact ⟨cell, (same block (by simp [PoolEntry.refs])).trans found⟩
  | page ctx block header used =>
    obtain ⟨⟨cell, found⟩, page, headerFound, shape⟩ := held
    exact ⟨⟨cell, (same block (by simp [PoolEntry.refs])).trans found⟩, page,
      (same header (by simp [PoolEntry.refs])).trans headerFound, shape⟩

/-- The loop of `ls_pool_destroy` tears down every entry, newest first. -/
theorem callCleaners_ok {start : Option Nat}
    (chain : Link.Chain world.ctxs start (entries.map PoolEntry.ctxCell))
    (held : ∀ entry ∈ entries, entry.Held world.heap) (apart : (stackRefs entries).Nodup)
    {bound : Nat} (enough : entries.length ≤ bound) :
    ∃ after, callCleaners bound start world = .ok after ∧
      after.trace = world.trace ++ teardowns entries ∧
      ∀ ref, ref ∉ stackRefs entries → after.heap.cells ref = world.heap.cells ref := by
  induction entries generalizing world start bound with
  | nil =>
    cases chain
    exact ⟨world, by simp [callCleaners], by simp [teardowns], fun _ _ => rfl⟩
  | cons entry rest inductionHypothesis =>
    obtain ⟨rfl, next, found, below⟩ := Link.segment_cons.mp chain
    rw [stackRefs_cons, List.nodup_append] at apart
    obtain ⟨own, others, between⟩ := apart
    have outside : ∀ ref ∈ stackRefs rest, ref ∉ entry.refs :=
      fun ref theirs mine => between ref mine ref theirs rfl
    have record := ctxs_cells.mp found
    obtain ⟨first, called, firstTrace, firstFresh, kept, firstOld⟩ :=
      callCleaner_ok (held entry List.mem_cons_self) own
    have again : first.heap.cells entry.ctx = some (.ctx ⟨entry.content, next⟩) := kept.trans record
    obtain ⟨second, released, secondHeap, secondTrace⟩ := lsDataFree_ok again
    have old : ∀ ref, ref ∉ entry.refs → second.heap.cells ref = world.heap.cells ref := by
      intro ref notMine
      rw [secondHeap, Memory.erase_cells_of_ne, firstOld ref notMine]
      rintro rfl
      exact notMine entry.ctx_mem_refs
    have oldRest : ∀ ref ∈ stackRefs rest, second.heap.cells ref = world.heap.cells ref :=
      fun ref member => old ref (outside ref member)
    have heldRest : ∀ other ∈ rest, other.Held second.heap := by
      intro other member
      apply held_frame (held other (List.mem_cons_of_mem entry member))
      intro ref theirs
      exact oldRest ref (mem_stackRefs.mpr ⟨other, member, theirs⟩)
    cases bound with
    | zero => cases enough
    | succ bound =>
      obtain ⟨after, rested, trace, untouched⟩ := inductionHypothesis (chain_ctxs below oldRest)
        heldRest others (Nat.le_of_succ_le_succ enough)
      refine ⟨after, ?_, ?_, ?_⟩
      · have loaded := loadCtx_ok record
        have reloaded := loadCtx_ok again
        simp only [callCleaners, loaded, reloaded, Exec.ok_bind, called,
          released, rested]
      · rw [trace, secondTrace, firstTrace, List.append_assoc]
        rfl
      · intro ref notOurs
        rw [stackRefs_cons, List.mem_append, not_or] at notOurs
        rw [untouched ref notOurs.2, old ref notOurs.1]

theorem Represents.held {pool : Nat} {record : LsPool}
    (represents : world.Represents pool record entries) :
    ∀ entry ∈ entries, entry.Held world.heap := by
  intro entry member
  cases entry with
  | user ctx callback arg => trivial
  | direct ctx block size =>
    obtain ⟨cell, found, _⟩ := represents.bytes _ member block size rfl
    exact ⟨cell, found⟩
  | page ctx block header used =>
    obtain ⟨cell, found, _⟩ := represents.bytes _ member block record.pageSize rfl
    obtain ⟨next, headerFound⟩ :=
      represents.header_found (List.mem_filterMap.mpr ⟨_, member, rfl⟩)
    exact ⟨⟨cell, found⟩, _, headerFound, rfl⟩

/-- `ls_pool_destroy` tears down every entry and gives the pool back. -/
theorem lsPoolDestroy_ok {pool : Nat} {record : LsPool}
    (represents : world.Represents pool record entries) :
    ∃ after, world.lsPoolDestroy pool = .ok after ∧
      after.trace = world.trace ++ teardowns entries ++ [.freed pool] := by
  have order := List.pairwise_append.mp represents.order
  have apart : (stackRefs entries).Nodup := order.1.imp fun above => Nat.ne_of_gt above
  have enough : entries.length ≤ world.heap.fresh := by
    have bounded := represents.cleaners.length_le_fresh
    rwa [List.length_map] at bounded
  obtain ⟨first, called, trace, old⟩ :=
    callCleaners_ok represents.cleaners represents.held apart enough
  have outside : pool ∉ stackRefs entries := by
    intro member
    exact absurd (represents.pool_lt pool member) (lt_irrefl pool)
  have found := (old pool outside).trans represents.found
  obtain ⟨after, released, _, afterTrace⟩ := lsDataFree_ok found
  refine ⟨after, ?_, by rw [afterTrace, trace]⟩
  simp only [lsPoolDestroy, loadPool_ok represents.found, Exec.ok_bind, called, released]

end Destroy

end World

theorem split_after {Alpha : Type} {first rest front back : List Alpha} {event : Alpha}
    (outside : event ∉ first) (same : first ++ rest = front ++ event :: back) :
    ∃ middle, front = first ++ middle ∧ rest = middle ++ event :: back := by
  rcases List.append_eq_append_iff.mp same with ⟨middle, known, split⟩ | ⟨middle, known, split⟩
  · exact ⟨middle, known, split⟩
  · cases middle with
    | nil =>
      rw [List.append_nil] at known
      exact ⟨[], by rw [known, List.append_nil], split.symm⟩
    | cons head tail =>
      cases split
      exact absurd (by rw [known]; simp) outside

theorem split_before {Alpha : Type} {first rest front back : List Alpha} {event : Alpha}
    (outside : event ∉ rest) (same : first ++ rest = front ++ event :: back) :
    ∃ middle, first = front ++ event :: middle ∧ back = middle ++ rest := by
  rcases List.append_eq_append_iff.mp same with ⟨middle, known, split⟩ | ⟨middle, known, split⟩
  · exact absurd (by rw [split]; simp) outside
  · cases middle with
    | nil => exact absurd (by rw [← List.nil_append rest, ← split]; simp) outside
    | cons head tail =>
      cases split
      exact ⟨tail, known, rfl⟩

/-- The trace so far accounts for what the pool holds: every block taken was
given back or is held, the entries are the cleaners registered, and every
cleaner was registered after all older blocks and before all that were given
back since. -/
structure Ledger (world : World) (pool : Nat) (entries : List PoolEntry) : Prop where
  older : pool < world.heap.fresh
  allocated : allocatedOf world.trace = List.range' pool (world.heap.fresh - pool)
  balance : (freedOf world.trace ++ (stackRefs entries ++ [pool])).Perm
    (allocatedOf world.trace)
  registered : registeredOf world.trace = (entries.map PoolEntry.ctxCell).reverse
  called : calledOf world.trace = []
  late : ∀ front back ctx content, world.trace = front ++ .registered ctx content :: back →
    (∀ ref ∈ allocatedOf front, ref ≤ ctx) ∧ ∀ ref ∈ freedOf back, ctx < ref

namespace Ledger

variable {world after : World} {pool : Nat} {entries later : List PoolEntry}

theorem registered_mem {front back : List PoolEvent} {ctx : Nat} {content : PoolCleanerCtx} :
    (ctx, content) ∈ registeredOf (front ++ .registered ctx content :: back) := by
  rw [registeredOf_append]
  exact List.mem_append_right _ List.mem_cons_self

theorem ctx_lt (ledger : Ledger world pool entries) {ctx : Nat} {content : PoolCleanerCtx}
    (member : (ctx, content) ∈ registeredOf world.trace) : ctx < world.heap.fresh := by
  rw [ledger.registered, List.mem_reverse, List.mem_map] at member
  obtain ⟨entry, inside, same⟩ := member
  have owned : ctx ∈ stackRefs entries := by
    rw [← show entry.ctx = ctx from congrArg Prod.fst same]
    exact mem_stackRefs.mpr ⟨entry, inside, entry.ctx_mem_refs⟩
  have taken : ctx ∈ allocatedOf world.trace := ledger.balance.mem_iff.mp
    (List.mem_append_right _ (List.mem_append_left _ owned))
  rw [ledger.allocated, List.mem_range'_1] at taken
  have older := ledger.older
  omega

theorem quiet (ledger : Ledger world pool entries) (fresh : after.heap.fresh = world.heap.fresh)
    (trace : after.trace = world.trace) (refs : stackRefs later = stackRefs entries)
    (ctxs : later.map PoolEntry.ctxCell = entries.map PoolEntry.ctxCell) :
    Ledger after pool later := by
  constructor
  · rw [fresh]
    exact ledger.older
  · rw [trace, fresh]
    exact ledger.allocated
  · rw [trace, refs]
    exact ledger.balance
  · rw [trace, ctxs]
    exact ledger.registered
  · rw [trace]
    exact ledger.called
  · rw [trace]
    exact ledger.late

theorem range_append {pool middle last : Nat} (first : pool ≤ middle) (second : middle ≤ last) :
    List.range' pool (middle - pool) ++ List.range' middle (last - middle) =
      List.range' pool (last - pool) := by
  have start : pool + (middle - pool) = middle := by omega
  have total : middle - pool + (last - middle) = last - pool := by omega
  have joined := @List.range'_append_1 pool (middle - pool) (last - middle)
  rwa [start, total] at joined

theorem undone (ledger : Ledger world pool entries) (undone : world.Undone after) :
    Ledger after pool entries := by
  obtain ⟨events, trace, allocated, freed, registered, called⟩ := undone.events
  have older := ledger.older
  have grown := undone.fresh
  have taken : allocatedOf after.trace = List.range' pool (after.heap.fresh - pool) := by
    rw [trace, allocatedOf_append, ledger.allocated, allocated]
    exact range_append (Nat.le_of_lt older) grown
  constructor
  · omega
  · exact taken
  · rw [trace, freedOf_append, allocatedOf_append, List.append_assoc]
    have swapped : (freedOf events ++ (stackRefs entries ++ [pool])).Perm
        ((stackRefs entries ++ [pool]) ++ freedOf events) := List.perm_append_comm
    have outer := swapped.append_left (freedOf world.trace)
    rw [← List.append_assoc _ _ (freedOf events)] at outer
    exact outer.trans (ledger.balance.append freed)
  · rw [trace, registeredOf_append, registered, List.append_nil]
    exact ledger.registered
  · rw [trace, calledOf_append, called, ledger.called, List.append_nil]
  · intro front back ctx content same
    rw [trace] at same
    have outside : .registered ctx content ∉ events := by
      intro member
      obtain ⟨before, behind, rfl⟩ := List.append_of_mem member
      have listed := @registered_mem before behind ctx content
      rw [registered] at listed
      cases listed
    obtain ⟨rest, whole, rfl⟩ := split_before outside same
    have order := ledger.late front rest ctx content whole
    refine ⟨order.1, ?_⟩
    intro ref member
    rw [freedOf_append, List.mem_append] at member
    rcases member with old | new
    · exact order.2 ref old
    · have known : (ctx, content) ∈ registeredOf world.trace := by
        rw [whole]
        exact registered_mem
      have before := ledger.ctx_lt known
      have fresh := freed.mem_iff.mp new
      rw [allocated, List.mem_range'_1] at fresh
      omega

theorem pushed (ledger : Ledger world pool entries) {entry : PoolEntry}
    (pushed : world.Pushed after entry) : Ledger after pool (entry :: entries) := by
  have older := ledger.older
  have grown := pushed.fresh
  have newRefs : allocatedOf (entry.refs.reverse.map PoolEvent.allocated) = entry.refs.reverse := by
    simp [allocatedOf, List.filterMap_map]
  have noFreed : freedOf (entry.refs.reverse.map PoolEvent.allocated) = [] := by
    simp [freedOf, List.filterMap_map]
  have noCleaner : registeredOf (entry.refs.reverse.map PoolEvent.allocated) = [] := by
    simp [registeredOf, List.filterMap_map]
  have noCall : calledOf (entry.refs.reverse.map PoolEvent.allocated) = [] := by
    simp [calledOf, List.filterMap_map]
  have freed : freedOf after.trace = freedOf world.trace := by
    rw [pushed.trace, freedOf_append, freedOf_append, noFreed]
    simp [freedOf]
  have taken : allocatedOf after.trace = allocatedOf world.trace ++ entry.refs.reverse := by
    rw [pushed.trace, allocatedOf_append, allocatedOf_append, newRefs]
    simp [allocatedOf]
  constructor
  · omega
  · rw [taken, ledger.allocated, pushed.taken]
    exact range_append (Nat.le_of_lt older) grown
  · rw [freed, taken, stackRefs_cons, List.append_assoc]
    have swapped : (freedOf world.trace ++ (entry.refs ++ (stackRefs entries ++ [pool]))).Perm
        (freedOf world.trace ++ (stackRefs entries ++ [pool]) ++ entry.refs) := by
      rw [List.append_assoc]
      exact List.perm_append_comm.append_left _
    exact swapped.trans (ledger.balance.append entry.refs.reverse_perm.symm)
  · rw [pushed.trace, registeredOf_append, registeredOf_append, noCleaner, ledger.registered,
      List.append_nil, List.map_cons, List.reverse_cons]
    rfl
  · rw [pushed.trace, calledOf_append, calledOf_append, noCall, ledger.called]
    rfl
  · intro front back ctx content same
    rw [pushed.trace] at same
    rcases List.eq_nil_or_concat' back with rfl | ⟨before, event, rfl⟩
    · -- the cleaner just registered has the newest block
      obtain ⟨rfl, last⟩ := List.append_inj' same rfl
      cases last
      have newest := entry.refs_newest pushed.taken
      refine ⟨?_, by simp [freedOf]⟩
      intro ref member
      rw [allocatedOf_append, newRefs, pushed.taken, ledger.allocated,
        range_append (Nat.le_of_lt older) grown, List.mem_range'_1] at member
      omega
    · rw [← List.cons_append, ← List.append_assoc] at same
      obtain ⟨earlier, last⟩ := List.append_inj' same rfl
      cases last
      obtain ⟨middle, whole, rfl⟩ := split_before (by simp) earlier
      have order := ledger.late front middle ctx content whole
      refine ⟨order.1, ?_⟩
      intro ref member
      rw [freedOf_append, freedOf_append, noFreed, List.append_nil] at member
      apply order.2
      simpa [freedOf] using member

theorem new (fresh : world.heap.fresh = pool + 1) (trace : world.trace = [.allocated pool]) :
    Ledger world pool [] := by
  constructor
  · omega
  · simp [trace, allocatedOf, fresh]
  · simp [trace, allocatedOf, freedOf]
  · simp [trace, registeredOf]
  · simp [trace, calledOf]
  · intro front back ctx content same
    have known : (ctx, content) ∈ registeredOf world.trace := by
      rw [same]
      exact registered_mem
    rw [trace] at known
    cases known

end Ledger

def PoolCleanerCtx.isUser (content : PoolCleanerCtx) : Bool :=
  match content.cleaner with
  | .user _ => true
  | _ => false

namespace PoolSession

structure Accounted (session : PoolSession) (record : LsPool) (entries : List PoolEntry) :
    Prop where
  kept : session.Kept record entries
  ledger : Ledger session.world session.pool entries
  users : session.cleaners = (entries.map PoolEntry.content).filter PoolCleanerCtx.isUser

theorem Created.accounted {session : PoolSession} (created : session.Created) :
    ∃ record entries, session.Accounted record entries := by
  obtain ⟨first, record, entries, kept, fresh, trace, pushed⟩ := created.made
  have initially := Ledger.new fresh trace
  have none := created.2.1
  rcases pushed with ⟨rfl, same⟩ | ⟨ctx, block, header, used, rfl, pushed⟩
  · rw [← same] at initially
    exact ⟨record, [], kept, initially, none⟩
  · exact ⟨record, _, kept, initially.pushed pushed, none⟩

theorem Accounted.after {session next : PoolSession} {record self : LsPool}
    {entries later : List PoolEntry} (accounted : session.Accounted record entries)
    {request : PoolRequest} {done : Bool} {pointer : Option Pointer}
    (outcome : PoolRequest.Outcome (request.given session.world) session.pool record entries
      request done pointer next.world self later)
    (pool : next.pool = session.pool)
    (regions : next.regions =
      (pointer.map fun start => ⟨start, request.length⟩).toList ++ session.regions)
    (cleaners : next.cleaners =
      (if done then request.cleaner else none).toList ++ session.cleaners) :
    next.Accounted self later := by
  have given : Ledger (request.given session.world) session.pool entries := by
    cases request <;> exact accounted.ledger.quiet rfl rfl rfl rfl
  refine ⟨accounted.kept.after outcome pool regions, ?_, ?_⟩
  · rw [pool]
    cases outcome with
    | refused undone _ => exact given.undone undone
    | nothing _ _ heap trace _ => exact given.quiet (by rw [heap]) trace rfl rfl
    | registered _ pushed _ _ => exact given.pushed pushed
    | served _ served =>
      cases served with
      | direct _ _ _ _ pushed => exact given.pushed pushed
      | current _ _ _ fresh trace _ =>
        exact given.quiet fresh trace (stackRefs_takeBytes _ _)
          (map_takeBytes PoolEntry.ctxCell (fun _ _ _ _ _ => rfl) _ _)
      | added _ _ _ _ pushed => exact given.pushed pushed
  · rw [cleaners, accounted.users]
    cases outcome with
    | refused _ _ => rfl
    | nothing _ other _ _ _ =>
      cases request with
      | addCleaner callback arg answers => exact absurd rfl (other callback arg answers)
      | malloc size answers => rfl
      | strdup src answers => rfl
    | registered shape _ _ _ =>
      subst shape
      rfl
    | served positive served =>
      have none : request.cleaner = none := by
        cases request with
        | addCleaner callback arg answers => exact absurd positive (lt_irrefl 0)
        | malloc size answers => rfl
        | strdup src answers => rfl
      rw [if_pos rfl, none]
      cases served with
      | direct _ shape _ _ _ =>
        subst shape
        rfl
      | current _ _ _ _ _ _ =>
        rw [map_takeBytes PoolEntry.content fun _ _ _ _ _ => rfl]
        rfl
      | added _ shape _ _ _ =>
        subst shape
        rfl

/-- What destroying the pool of a session does. -/
structure TornDown (session : PoolSession) (final : World) : Prop where
  /-- Every cleaner registered is called once, newest first. -/
  called : calledOf final.trace = (registeredOf final.trace).reverse
  once : ((calledOf final.trace).map Prod.fst).Nodup
  users : ((calledOf final.trace).map Prod.snd).filter PoolCleanerCtx.isUser = session.cleaners
  /-- Every block ever taken is given back once. -/
  freed : (freedOf final.trace).Perm (allocatedOf final.trace)
  distinct : (allocatedOf final.trace).Nodup
  released : ∀ block, (∃ page ∈ session.world.pageList session.pool,
      block = page.1 ∨ block = page.2.block) ∨
      block ∈ session.world.directBlocks session.pool ∨
      (∃ cleaner ∈ session.world.cleanerList session.pool, block = cleaner.1) →
    (freedOf final.trace).count block = 1
  /-- What was taken before a cleaner was registered is there when it is called. -/
  alive : ∀ early middle late ctx content,
    final.trace = early ++ .registered ctx content :: middle ++ .called ctx content :: late →
    ∀ block ∈ allocatedOf early, block ∉ freedOf early →
      block ∉ freedOf (early ++ .registered ctx content :: middle)

section Destroyed

variable {session : PoolSession} {record : LsPool} {entries : List PoolEntry} {final : World}

theorem Accounted.released (accounted : session.Accounted record entries)
    (freed : (freedOf final.trace).Perm (allocatedOf final.trace))
    (allocated : allocatedOf final.trace = allocatedOf session.world.trace) {block : Nat}
    (owned : block ∈ stackRefs entries) : (freedOf final.trace).count block = 1 := by
  have taken : block ∈ allocatedOf session.world.trace := accounted.ledger.balance.mem_iff.mp
    (List.mem_append_right _ (List.mem_append_left _ owned))
  have distinct : (allocatedOf session.world.trace).Nodup := by
    rw [accounted.ledger.allocated]
    exact List.nodup_range'
  rw [freed.count_eq, allocated]
  exact List.count_eq_one_of_mem distinct taken

theorem split_teardowns {pool ctx : Nat} {content : PoolCleanerCtx} {front back : List PoolEvent}
    (same : teardowns entries ++ [.freed pool] = front ++ .called ctx content :: back) :
    ∃ newer entry older, entries = newer ++ entry :: older ∧ entry.ctx = ctx ∧
      front = teardowns newer := by
  induction entries generalizing front with
  | nil =>
    obtain ⟨rest, known, _⟩ := @split_before _ [] _ front back _ (by simp) same
    simp at known
  | cons entry rest inductionHypothesis =>
    rw [teardowns, List.flatMap_cons, entry.teardown_called, List.append_assoc] at same
    cases front with
    | nil =>
      cases same
      exact ⟨[], entry, rest, rfl, rfl, rfl⟩
    | cons head tail =>
      obtain ⟨rfl, later⟩ := List.cons.inj same
      obtain ⟨middle, rfl, onward⟩ := split_after (entry.not_called ctx content) later
      obtain ⟨newer, found, older, rfl, sameCtx, rfl⟩ := inductionHypothesis onward
      refine ⟨entry :: newer, found, older, rfl, sameCtx, ?_⟩
      have whole : teardowns (entry :: newer) = entry.teardown ++ teardowns newer := rfl
      rw [whole, entry.teardown_called]
      rfl

theorem Accounted.tornDown (accounted : session.Accounted record entries)
    (trace : final.trace = session.world.trace ++ teardowns entries ++ [.freed session.pool]) :
    session.TornDown final := by
  have ledger := accounted.ledger
  have allocated : allocatedOf final.trace = allocatedOf session.world.trace := by
    rw [trace, allocatedOf_append, allocatedOf_append, teardowns_allocated]
    simp [allocatedOf]
  have registered : registeredOf final.trace = (entries.map PoolEntry.ctxCell).reverse := by
    rw [trace, registeredOf_append, registeredOf_append, teardowns_registered, ledger.registered]
    simp [registeredOf]
  have called : calledOf final.trace = entries.map PoolEntry.ctxCell := by
    rw [trace, calledOf_append, calledOf_append, teardowns_called, ledger.called]
    simp [calledOf]
  have freed : (freedOf final.trace).Perm (allocatedOf final.trace) := by
    rw [allocated, trace, freedOf_append, freedOf_append, List.append_assoc]
    have given := ((teardowns_freed entries).append_right [session.pool]).append_left
      (freedOf session.world.trace)
    exact given.trans ledger.balance
  have represents := accounted.kept.represents
  constructor
  · rw [called, registered, List.reverse_reverse]
  · rw [called]
    exact represents.cleaners.nodup
  · rw [called, accounted.users, List.map_map]
    rfl
  · exact freed
  · rw [allocated, ledger.allocated]
    exact List.nodup_range'
  · intro block owned
    apply accounted.released freed allocated
    rcases owned with ⟨page, listed, isPage⟩ | direct | ⟨cleaner, listed, rfl⟩
    · rw [represents.pageList_eq] at listed
      obtain ⟨ctx, member⟩ := World.page_of_pageCells listed
      rcases isPage with rfl | rfl
      · exact mem_stackRefs.mpr ⟨_, member, by simp [PoolEntry.refs]⟩
      · exact mem_stackRefs.mpr ⟨_, member, by simp [PoolEntry.refs]⟩
    · rw [represents.directBlocks_eq] at direct
      obtain ⟨⟨_, size⟩, listed, rfl⟩ := List.mem_map.mp direct
      obtain ⟨entry, member, holds⟩ := List.mem_filterMap.mp listed
      cases entry with
      | page ctx other header used => cases holds
      | user ctx callback arg => cases holds
      | direct ctx other length =>
        cases holds
        exact mem_stackRefs.mpr ⟨_, member, by simp [PoolEntry.refs]⟩
    · rw [represents.cleanerList_eq] at listed
      obtain ⟨entry, member, rfl⟩ := List.mem_map.mp listed
      exact mem_stackRefs.mpr ⟨entry, member, entry.ctx_mem_refs⟩
  · intro early middle late ctx content same block taken kept returned
    rw [trace, List.append_assoc, List.append_assoc] at same
    have quiet : .registered ctx content ∉ teardowns entries ++ [.freed session.pool] := by
      intro member
      have listed : (ctx, content) ∈
          registeredOf (teardowns entries ++ [.freed session.pool]) :=
        List.mem_filterMap.mpr ⟨_, member, rfl⟩
      rw [registeredOf_append, teardowns_registered] at listed
      cases listed
    obtain ⟨back, whole, rest⟩ := split_before quiet same
    have silent : .called ctx content ∉ back := by
      intro member
      have listed : (ctx, content) ∈ calledOf session.world.trace := by
        rw [whole]
        exact List.mem_filterMap.mpr ⟨.called ctx content, by simp [member], rfl⟩
      rw [ledger.called] at listed
      cases listed
    obtain ⟨front, rfl, onward⟩ := split_after silent rest.symm
    obtain ⟨newer, entry, older, shape, rfl, rfl⟩ := split_teardowns onward
    have order := ledger.late early back entry.ctx content whole
    have bound := order.1 block taken
    rw [freedOf_append, List.mem_append] at returned
    rcases returned with before | after
    · exact kept before
    · have split : block ∈ freedOf back ∨ block ∈ freedOf (teardowns newer) := by
        rw [← List.mem_append, ← freedOf_append]
        exact after
      rcases split with early | torn
      · exact absurd (order.2 block early) (Nat.not_lt.mpr bound)
      · have above := (List.pairwise_append.mp represents.order).1
        rw [shape, stackRefs_append] at above
        have newest := (List.pairwise_append.mp above).2.2 block
          ((teardowns_freed newer).mem_iff.mp torn) entry.ctx (by simp)
        exact absurd newest (Nat.not_lt.mpr bound)

end Destroyed

/-- The trace of every run accounts for the pool. -/
theorem run_accounted {start last : PoolSession} {requests : List PoolRequest}
    (created : start.Created) (run : system.Run start requests last) :
    ∃ record entries, last.Accounted record entries := by
  refine run.preserves (fun session => ∃ record entries, session.Accounted record entries) ?_
    created.accounted
  rintro session request next ⟨record, entries, accounted⟩ _ returned
  obtain ⟨done, pointer, self, later, outcome, pool, regions, cleaners⟩ :=
    accounted.kept.performed returned
  exact ⟨self, later, accounted.after outcome pool regions cleaners⟩

/-- After any requests to a new pool, with any allocation refused, destroying it
calls every cleaner once and gives back every block once. -/
theorem run_tears_down (start last : PoolSession) (requests : List PoolRequest)
    (created : start.Created) (run : system.Run start requests last) :
    ∃ final, last.world.lsPoolDestroy last.pool = .ok final ∧ last.TornDown final := by
  obtain ⟨record, entries, accounted⟩ := run_accounted created run
  obtain ⟨final, destroyed, trace⟩ := World.lsPoolDestroy_ok accounted.kept.represents
  exact ⟨final, destroyed, accounted.tornDown trace⟩

theorem run_tears_down_mixed : ∃ (last : PoolSession) (final : World),
    last.world.lsPoolDestroy last.pool = .ok final ∧ last.TornDown final ∧
      last.cleaners = [⟨.user 1, 7⟩] := by
  have seen : (use emptyWorld true 8 mixedRequests).toOption.map PoolSession.cleaners =
      some [⟨.user 1, 7⟩] := by decide +kernel
  obtain ⟨last, used, cleaners⟩ := Exec.exists_of_map _ seen
  obtain ⟨start, created, run⟩ := created_of_use rfl used
  obtain ⟨final, destroyed, tornDown⟩ := run_tears_down start last mixedRequests created run
  exact ⟨last, final, destroyed, tornDown, cleaners⟩

end PoolSession

end SpudLib
