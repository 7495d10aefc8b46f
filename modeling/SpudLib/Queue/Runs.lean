import SpudLib.Queue.Queue

/-!
# Values leave a queue in the order in which they entered

Every node belongs to one queue or to a call of `ls_queue_destroy` whose cleaner
has its value.  What left a queue and what it holds are together what entered it,
in order, whatever the cleaners do.
-/

namespace SpudLib

namespace QueueWorld

def entered (queue : Nat) (trace : List QueueEvent) : List Nat := trace.filterMap fun
  | .enqueued other value => if other = queue then some value else none
  | _ => none

def leaving (queue : Nat) (trace : List QueueEvent) : List Nat := trace.filterMap fun
  | .dequeued other value | .cleaned other _ value | .dropped other value =>
      if other = queue then some value else none
  | _ => none

/-- The nodes are those in the lists of the queues and those that are parked. -/
structure Stores (world : QueueWorld) (held : Nat → List (Nat × Nat)) (parked : List Nat) :
    Prop where
  lists : ∀ queue record, world.queues.cells queue = some record →
    Link.Chain world.nodes record.head (held queue) ∧ record.tail = Link.lastRef (held queue)
  gone : ∀ queue, world.queues.cells queue = none → held queue = []
  apart : ∀ first second, ∀ ref ∈ Link.refs (held first), ref ∈ Link.refs (held second) →
    first = second
  live : ∀ ref ∈ parked, world.nodes.Live ref
  outside : ∀ ref ∈ parked, ∀ queue, ref ∉ Link.refs (held queue)
  once : parked.Nodup
  owned : ∀ ref, world.nodes.Live ref → ref ∈ parked ∨ ∃ queue, ref ∈ Link.refs (held queue)

def parkedNodes (world : QueueWorld) : List Nat := world.frames.filterMap QueueFrame.node

structure Kept (world : QueueWorld) (held : Nat → List (Nat × Nat)) : Prop where
  stores : world.Stores held world.parkedNodes
  /-- What left a queue and what it holds are what entered it. -/
  balance : ∀ queue,
    leaving queue world.trace ++ (held queue).map Prod.snd = entered queue world.trace
  destroying : ∀ frame ∈ world.frames, world.queues.Live frame.queue
  distinct : (world.frames.map QueueFrame.queue).Nodup
  /-- Only the innermost `ls_queue_destroy` may be in its own code. -/
  callers : ∀ frame ∈ world.frames.tail, frame.node.isSome = true

variable {world next : QueueWorld} {held : Nat → List (Nat × Nat)} {parked : List Nat}
  {queue node value : Nat} {record : LsQueue} {rest : List (Nat × Nat)}

section Lists

theorem Stores.found (stores : world.Stores held parked) (live : world.queues.Live queue) :
    ∃ record, world.queues.cells queue = some record ∧
      Link.Chain world.nodes record.head (held queue) ∧
      record.tail = Link.lastRef (held queue) := by
  obtain ⟨record, found⟩ := live
  exact ⟨record, found, stores.lists queue record found⟩

theorem Stores.allocated (stores : world.Stores held parked) {ref : Nat}
    (member : ref ∈ Link.refs (held queue)) : world.nodes.Live ref := by
  cases found : world.queues.cells queue with
  | none =>
    rw [stores.gone queue found] at member
    cases member
  | some record =>
    obtain ⟨cell, inside, rfl⟩ := List.mem_map.mp member
    obtain ⟨next, at_⟩ := (stores.lists queue record found).1.found inside
    exact ⟨_, at_⟩

theorem Stores.deq_empty (stores : world.Stores held parked) (live : world.queues.Live queue)
    (empty : held queue = []) : world.deq queue = .ok (none, world) := by
  obtain ⟨record, found, chain, _⟩ := stores.found live
  rw [empty] at chain
  have head : record.head = none := chain
  simp only [deq, Memory.read_of_some found, head, Exec.ok_bind]

/-- `deq` takes the first node off its list. -/
theorem Stores.deq_ok (stores : world.Stores held parked) (live : world.queues.Live queue)
    (holds : held queue = (node, value) :: rest) :
    ∃ next record link, world.queues.cells queue = some record ∧
      world.nodes.cells node = some ⟨value, link⟩ ∧
      world.deq queue = .ok (some node, next) ∧ next.nodes = world.nodes ∧
      next.frames = world.frames ∧ next.trace = world.trace ∧
      next.queues = world.queues.set queue
        { record with head := link, tail := if link.isNone then none else record.tail } ∧
      next.Stores (Function.update held queue rest) (node :: parked) := by
  obtain ⟨record, found, chain, tail⟩ := stores.found live
  rw [holds] at chain tail
  obtain ⟨head, link, first, onward⟩ := chain
  have nodup := (show Link.Chain world.nodes record.head ((node, value) :: rest) from
    ⟨head, link, first, onward⟩).nodup
  obtain ⟨missing, _⟩ := List.nodup_cons.mp nodup
  have inside : node ∈ Link.refs (held queue) := by simp [holds]
  let after : LsQueue :=
    { record with head := link, tail := if link.isNone then none else record.tail }
  refine ⟨{ world with queues := world.queues.set queue after }, record, link, found, first, ?_,
    rfl, rfl, rfl, rfl, ?_⟩
  · simp only [deq, Memory.read_of_some found, head, Exec.ok_bind, Memory.read_of_some first,
      Memory.modify_of_some found]
    rfl
  -- the lists are as before but for the one that lost its first node
  have subset : ∀ other, Link.refs (Function.update held queue rest other) ⊆
      Link.refs (held other) := by
    intro other
    by_cases same : other = queue
    · rw [same, Function.update_self, holds]
      exact List.subset_cons_self _ _
    · rw [Function.update_of_ne same]
      exact List.Subset.refl _
  have loose : ∀ other, node ∉ Link.refs (Function.update held queue rest other) := by
    intro other member
    by_cases same : other = queue
    · rw [same, Function.update_self] at member
      exact missing member
    · exact same (stores.apart other queue node (subset other member) inside)
  constructor
  · intro other later here
    by_cases same : other = queue
    · rw [same, Memory.set_cells_self after found] at here
      cases here
      rw [same, Function.update_self]
      refine ⟨onward, ?_⟩
      change (if link.isNone then none else record.tail) = _
      cases rest with
      | nil =>
        obtain rfl : link = none := onward
        rfl
      | cons cell cells =>
        obtain ⟨rfl, _⟩ := onward
        exact tail
    · rw [Memory.set_cells_of_ne _ _ same] at here
      rw [Function.update_of_ne same]
      exact stores.lists other later here
  · intro other absent
    have different : other ≠ queue := by
      rintro rfl
      cases absent.symm.trans (Memory.set_cells_self after found)
    rw [Memory.set_cells_of_ne _ _ different] at absent
    rw [Function.update_of_ne different]
    exact stores.gone other absent
  · intro one two ref member again
    exact stores.apart one two ref (subset one member) (subset two again)
  · intro ref member
    rcases List.mem_cons.mp member with rfl | other
    · exact ⟨_, first⟩
    · exact stores.live ref other
  · intro ref member other
    rcases List.mem_cons.mp member with rfl | among
    · exact loose other
    · exact fun again => stores.outside ref among other (subset other again)
  · exact List.nodup_cons.mpr ⟨fun member => stores.outside node member queue inside, stores.once⟩
  · intro ref allocated
    rcases stores.owned ref allocated with among | ⟨owner, member⟩
    · exact .inl (List.mem_cons_of_mem _ among)
    · by_cases here : ref = node
      · exact .inl (here ▸ List.mem_cons_self ..)
      · refine .inr ⟨owner, ?_⟩
        by_cases same : owner = queue
        · rw [same, holds, Link.refs_cons] at member
          rw [same, Function.update_self]
          exact (List.mem_cons.mp member).resolve_left here
        · rwa [Function.update_of_ne same]

theorem Stores.free (stores : world.Stores held (node :: parked)) :
    world.nodes.free node = .ok (world.nodes.erase node) ∧
      ({ world with nodes := world.nodes.erase node } : QueueWorld).Stores held parked := by
  obtain ⟨cell, found⟩ := stores.live node (List.mem_cons_self ..)
  obtain ⟨missing, once⟩ := List.nodup_cons.mp stores.once
  refine ⟨Memory.free_of_some found, ?_⟩
  constructor
  · intro queue record here
    obtain ⟨chain, tail⟩ := stores.lists queue record here
    refine ⟨Link.Segment.frame chain fun ref member => ?_, tail⟩
    refine Memory.erase_cells_of_ne _ ?_
    rintro rfl
    exact stores.outside ref (List.mem_cons_self ..) queue member
  · exact stores.gone
  · exact stores.apart
  · intro ref member
    refine (stores.live ref (List.mem_cons_of_mem _ member)).erase ?_
    rintro rfl
    exact missing member
  · exact fun ref member => stores.outside ref (List.mem_cons_of_mem _ member)
  · exact once
  · rintro ref ⟨other, allocated⟩
    have different : ref ≠ node := by
      rintro rfl
      cases allocated.symm.trans (Memory.erase_cells_self _ _)
    rw [Memory.erase_cells_of_ne _ different] at allocated
    rcases stores.owned ref ⟨other, allocated⟩ with among | elsewhere
    · exact .inl ((List.mem_cons.mp among).resolve_left different)
    · exact .inr elsewhere

theorem Stores.extend {after : LsQueue} (stores : world.Stores held parked)
    (found : world.queues.cells queue = some record)
    (queues : next.queues = world.queues.set queue after) (tail : after.tail = some node)
    (lists : Link.Chain next.nodes after.head (held queue ++ [(node, value)]))
    (new : world.nodes.cells node = none) (allocated : next.nodes.Live node)
    (others : ∀ ref, ref ≠ node → ref ∉ Link.refs (held queue) →
      next.nodes.cells ref = world.nodes.cells ref)
    (same : ∀ ref, ref ≠ node → (next.nodes.Live ref ↔ world.nodes.Live ref)) :
    next.Stores (Function.update held queue (held queue ++ [(node, value)])) parked := by
  have fresh : ∀ other, node ∉ Link.refs (held other) := by
    intro other member
    obtain ⟨cell, here⟩ := stores.allocated member
    cases new.symm.trans here
  have refs : ∀ other, ∀ ref ∈ Link.refs (Function.update held queue
      (held queue ++ [(node, value)]) other), ref ∈ Link.refs (held other) ∨
        ref = node ∧ other = queue := by
    intro other ref member
    by_cases here : other = queue
    · rw [here, Function.update_self, Link.refs_append] at member
      rcases List.mem_append.mp member with old | last
      · exact .inl (here ▸ old)
      · exact .inr ⟨List.mem_singleton.mp last, here⟩
    · rw [Function.update_of_ne here] at member
      exact .inl member
  constructor
  · intro other later at_
    rw [queues] at at_
    by_cases here : other = queue
    · rw [here, Memory.set_cells_self _ found] at at_
      cases at_
      rw [here, Function.update_self]
      exact ⟨lists, tail.trans (Link.lastRef_concat ..).symm⟩
    · rw [Memory.set_cells_of_ne _ _ here] at at_
      obtain ⟨chain, tail⟩ := stores.lists other later at_
      rw [Function.update_of_ne here]
      refine ⟨Link.Segment.frame chain fun ref member => others ref ?_ ?_, tail⟩
      · rintro rfl
        exact fresh other member
      · exact fun again => here (stores.apart other queue ref member again)
  · intro other absent
    rw [queues] at absent
    have different : other ≠ queue := by
      rintro rfl
      cases absent.symm.trans (Memory.set_cells_self _ found)
    rw [Memory.set_cells_of_ne _ _ different] at absent
    rw [Function.update_of_ne different]
    exact stores.gone other absent
  · intro one two ref member again
    rcases refs one ref member with old | ⟨rfl, rfl⟩
    · rcases refs two ref again with oldToo | ⟨rfl, _⟩
      · exact stores.apart one two ref old oldToo
      · exact absurd old (fresh one)
    · rcases refs two ref again with oldToo | ⟨_, rfl⟩
      · exact absurd oldToo (fresh two)
      · rfl
  · intro ref member
    have live := stores.live ref member
    refine (same ref ?_).mpr live
    rintro rfl
    obtain ⟨cell, here⟩ := live
    cases new.symm.trans here
  · intro ref member other again
    rcases refs other ref again with old | ⟨rfl, _⟩
    · exact stores.outside ref member other old
    · obtain ⟨cell, here⟩ := stores.live ref member
      cases new.symm.trans here
  · exact stores.once
  · intro ref live
    by_cases here : ref = node
    · exact .inr ⟨queue, by simp [here]⟩
    · rcases stores.owned ref ((same ref here).mp live) with among | ⟨owner, member⟩
      · exact .inl among
      · refine .inr ⟨owner, ?_⟩
        by_cases mine : owner = queue
        · rw [mine] at member
          rw [mine, Function.update_self, Link.refs_append]
          exact List.mem_append_left _ member
        · rwa [Function.update_of_ne mine]

/-- `ls_queue_enq` puts a node at the end of its list. -/
theorem Stores.enq_ok (stores : world.Stores held parked) (live : world.queues.Live queue)
    (value : Nat) :
    ∃ next, world.lsQueueEnq queue (some value) true = .ok (true, next) ∧
      next.Stores (Function.update held queue (held queue ++ [(world.nodes.fresh, value)]))
        parked ∧
      next.frames = world.frames ∧ next.trace = world.trace ++ [.enqueued queue value] ∧
      ∃ record : LsQueue, world.queues.cells queue = some record ∧
        ∃ after, next.queues = world.queues.set queue after := by
  obtain ⟨record, found, chain, tail⟩ := stores.found live
  let node := world.nodes.fresh
  let nodes := world.nodes.alloc ⟨value, none⟩
  have new : world.nodes.cells node = none := world.nodes.unallocated _ (Nat.le_refl _)
  have stored : nodes.cells node = some ⟨value, none⟩ := Memory.alloc_cells_self ..
  have kept : ∀ ref, ref ≠ node → nodes.cells ref = world.nodes.cells ref :=
    fun ref different => Memory.alloc_cells_of_ne _ _ different
  rcases (held queue).eq_nil_or_concat with empty | ⟨front, last, filled⟩
  · rw [empty] at chain tail
    have head : record.head = none := chain
    let after : LsQueue := { record with head := some node, tail := some node }
    refine ⟨{ world with
      queues := world.queues.set queue after
      nodes
      trace := world.trace ++ [.enqueued queue value] },
      ?_, ?_, rfl, rfl, record, found, after, rfl⟩
    · simp only [lsQueueEnq, if_true, Memory.read_of_some found, Exec.ok_bind, tail,
        Link.lastRef_nil, Memory.modify_of_some found]
      rfl
    · refine stores.extend found rfl rfl ?_ new ⟨_, stored⟩
        (fun ref different _ => kept ref different)
        fun ref different => by rw [Memory.Live, Memory.Live, kept ref different]
      rw [empty]
      exact ⟨rfl, none, stored, rfl⟩
  · rw [List.concat_eq_append] at filled
    obtain ⟨lastRef, lastValue⟩ := last
    rw [filled] at chain tail
    rw [Link.lastRef_concat] at tail
    have lastFound := chain.last_next
    have different : lastRef ≠ node := by
      intro same
      rw [same, new] at lastFound
      cases lastFound
    have lastStored : nodes.cells lastRef = some ⟨lastValue, none⟩ :=
      Memory.alloc_cells_of_some _ _ lastFound
    let after : LsQueue := { record with tail := some node }
    let linked := nodes.set lastRef ⟨lastValue, some node⟩
    refine ⟨{ world with
      queues := world.queues.set queue after, nodes := linked
      trace := world.trace ++ [.enqueued queue value] },
      ?_, ?_, rfl, rfl, record, found, after, rfl⟩
    · simp only [lsQueueEnq, if_true, Memory.read_of_some found, Exec.ok_bind, tail,
        Memory.modify_of_some found]
      rw [Memory.modify_of_some lastStored]
      rfl
    · have member : lastRef ∈ Link.refs (held queue) := by simp [filled]
      have reached : Link.Chain nodes record.head (front ++ [(lastRef, lastValue)]) := by
        refine Link.Segment.frame chain fun ref among => kept ref ?_
        rintro rfl
        obtain ⟨cell, here⟩ := @Stores.allocated _ _ _ queue stores node (filled.symm ▸ among)
        cases new.symm.trans here
      have outside : node ∉ Link.refs (front ++ [(lastRef, lastValue)]) := by
        intro among
        obtain ⟨cell, here⟩ := @Stores.allocated _ _ _ queue stores node (filled.symm ▸ among)
        cases new.symm.trans here
      refine stores.extend found rfl rfl ?_ new ?_ ?_ ?_
      · rw [filled]
        exact reached.concat stored outside
      · exact ⟨_, (Memory.set_cells_of_ne _ _ different.symm).trans stored⟩
      · intro ref other absent
        have notLast : ref ≠ lastRef := fun same => absent (same ▸ member)
        exact (Memory.set_cells_of_ne _ _ notLast).trans (kept ref other)
      · intro ref other
        by_cases isLast : ref = lastRef
        · rw [isLast]
          exact iff_of_true ⟨_, Memory.set_cells_self _ lastStored⟩ ⟨_, lastFound⟩
        · rw [Memory.Live, Memory.Live]
          change (∃ cell, (nodes.set lastRef _).cells ref = _) ↔ _
          rw [Memory.set_cells_of_ne _ _ isLast, kept ref other]

theorem Stores.change (stores : world.Stores held parked) (nodes : next.nodes = world.nodes)
    (others : ∀ other record, next.queues.cells other = some record →
      world.queues.cells other = some record ∨
        held other = [] ∧ record.head = none ∧ record.tail = none)
    (gone : ∀ other, next.queues.cells other = none → held other = []) :
    next.Stores held parked := by
  refine ⟨?_, gone, stores.apart, nodes ▸ stores.live, stores.outside, stores.once,
    nodes ▸ stores.owned⟩
  intro other record found
  rw [nodes]
  rcases others other record found with old | ⟨empty, head, tail⟩
  · exact stores.lists other record old
  · rw [empty]
    exact ⟨head, tail⟩

end Lists

section Balance

@[simp] theorem entered_append (front back : List QueueEvent) :
    entered queue (front ++ back) = entered queue front ++ entered queue back :=
  List.filterMap_append

@[simp] theorem leaving_append (front back : List QueueEvent) :
    leaving queue (front ++ back) = leaving queue front ++ leaving queue back :=
  List.filterMap_append

def Leaves (queue value : Nat) (event : QueueEvent) : Prop :=
  (∀ other, leaving other [event] = if queue = other then [value] else []) ∧
    ∀ other, entered other [event] = []

theorem leaves_dequeued (queue value : Nat) : Leaves queue value (.dequeued queue value) :=
  ⟨fun other => by by_cases same : queue = other <;> simp [leaving, same], fun _ => rfl⟩

theorem leaves_cleaned (queue cleaner value : Nat) :
    Leaves queue value (.cleaned queue cleaner value) :=
  ⟨fun other => by by_cases same : queue = other <;> simp [leaving, same], fun _ => rfl⟩

theorem leaves_dropped (queue value : Nat) : Leaves queue value (.dropped queue value) :=
  ⟨fun other => by by_cases same : queue = other <;> simp [leaving, same], fun _ => rfl⟩

theorem balance_leaves {trace : List QueueEvent} {event : QueueEvent}
    (balance : ∀ other, leaving other trace ++ (held other).map Prod.snd = entered other trace)
    (holds : held queue = (node, value) :: rest) (leaves : Leaves queue value event) (other : Nat) :
    leaving other (trace ++ [event]) ++ (Function.update held queue rest other).map Prod.snd =
      entered other (trace ++ [event]) := by
  rw [leaving_append, entered_append, leaves.1 other, leaves.2 other, List.append_nil,
    ← balance other]
  by_cases same : queue = other
  · rw [if_pos same, ← same, Function.update_self, holds, List.append_assoc]
    rfl
  · rw [if_neg same, List.append_nil, Function.update_of_ne (Ne.symm same)]

end Balance

section Steps

theorem Kept.created (kept : world.Kept held) (cleaner : Option Nat) :
    ({ world with queues := world.queues.alloc ⟨none, none, cleaner⟩ } : QueueWorld).Kept held := by
  have unused := kept.stores.gone _ (world.queues.unallocated _ (Nat.le_refl _))
  refine ⟨?_, kept.balance, ?_, kept.distinct, kept.callers⟩
  · refine kept.stores.change rfl ?_ ?_
    · intro other record found
      by_cases new : other = world.queues.fresh
      · rw [new] at found ⊢
        cases (Memory.alloc_cells_self ..).symm.trans found
        exact .inr ⟨unused, rfl, rfl⟩
      · exact .inl ((Memory.alloc_cells_of_ne _ _ new).symm.trans found)
    · intro other absent
      refine kept.stores.gone other ?_
      cases found : world.queues.cells other with
      | none => rfl
      | some record => cases absent.symm.trans (Memory.alloc_cells_of_some _ _ found)
  · exact fun frame member => (kept.destroying frame member).alloc _

theorem Kept.enqueued (kept : world.Kept held) (live : world.queues.Live queue) (value : Nat) :
    ∃ next, world.lsQueueEnq queue (some value) true = .ok (true, next) ∧
      ∃ later, next.Kept later := by
  obtain ⟨next, returned, stores, frames, trace, _, _, after, queues⟩ :=
    kept.stores.enq_ok live value
  have parked : next.parkedNodes = world.parkedNodes := congrArg (List.filterMap _) frames
  refine ⟨next, returned, _, parked.symm ▸ stores, ?_, ?_, frames ▸ kept.distinct,
    frames ▸ kept.callers⟩
  · intro other
    rw [trace, leaving_append, entered_append, ← kept.balance other]
    by_cases same : queue = other
    · simp [same, leaving, entered]
    · simp [Function.update_of_ne (Ne.symm same), same, leaving, entered]
  · rw [frames, queues]
    exact fun frame member => (kept.destroying frame member).set queue after

theorem Kept.left {event : QueueEvent} {after : LsQueue} (kept : world.Kept held)
    (holds : held queue = (node, value) :: rest) (leaves : Leaves queue value event)
    (stores : next.Stores (Function.update held queue rest) next.parkedNodes)
    (trace : next.trace = world.trace ++ [event])
    (queues : next.queues = world.queues.set queue after)
    (frames : next.frames.map QueueFrame.queue = world.frames.map QueueFrame.queue)
    (callers : next.frames.tail = world.frames.tail) :
    next.Kept (Function.update held queue rest) := by
  refine ⟨stores, ?_, ?_, frames.symm ▸ kept.distinct, callers.symm ▸ kept.callers⟩
  · rw [trace]
    exact balance_leaves kept.balance holds leaves
  · intro frame member
    have among := frames ▸ List.mem_map_of_mem member
    obtain ⟨old, was, same⟩ := List.mem_map.mp among
    rw [queues, ← same]
    exact (kept.destroying old was).set queue after

theorem Kept.dequeued (kept : world.Kept held) (live : world.queues.Live queue) :
    ∃ result, world.lsQueueDeq queue = .ok result ∧ ∃ later, result.2.Kept later := by
  cases holds : held queue with
  | nil =>
    refine ⟨(none, world), ?_, held, kept⟩
    rw [lsQueueDeq, kept.stores.deq_empty live holds]
    rfl
  | cons cell rest =>
    obtain ⟨node, value⟩ := cell
    obtain ⟨taken, record, link, _, first, returned, nodes, frames, trace, queues, stores⟩ :=
      kept.stores.deq_ok live holds
    obtain ⟨freed, storesAfter⟩ := stores.free
    let next : QueueWorld := { taken with
      nodes := taken.nodes.erase node, trace := taken.trace ++ [.dequeued queue value] }
    have parked : next.parkedNodes = world.parkedNodes := congrArg (List.filterMap _) frames
    refine ⟨(some value, next), ?_, _, kept.left holds (leaves_dequeued queue value)
      (parked.symm ▸ ⟨storesAfter.lists, storesAfter.gone, storesAfter.apart, storesAfter.live,
        storesAfter.outside, storesAfter.once, storesAfter.owned⟩) (congrArg (· ++ _) trace) queues
      (congrArg _ frames) (congrArg _ frames)⟩
    simp only [lsQueueDeq, returned, Exec.ok_bind, Memory.read_of_some (nodes ▸ first), freed]
    rfl

theorem Kept.turned (kept : world.Kept held) {callers : List QueueFrame}
    (inner : world.frames = ⟨queue, none⟩ :: callers) :
    ∃ next, world.destroyTurn queue callers = .ok next ∧ ∃ later, next.Kept later := by
  have live : world.queues.Live queue :=
    kept.destroying ⟨queue, none⟩ (inner ▸ List.mem_cons_self ..)
  have parkedSame : world.parkedNodes = callers.filterMap QueueFrame.node := by
    rw [parkedNodes, inner]
    rfl
  obtain ⟨record, found⟩ := live
  cases holds : held queue with
  | nil =>
    -- the queue itself is freed
    have distinct := kept.distinct
    rw [inner, List.map_cons, List.nodup_cons] at distinct
    have others := kept.callers
    rw [inner, List.tail_cons] at others
    let next : QueueWorld := { world with queues := world.queues.erase queue, frames := callers }
    have parked : next.parkedNodes = world.parkedNodes := parkedSame.symm
    refine ⟨next, ?_, held, parked.symm ▸ Stores.change kept.stores rfl ?_ ?_,
      kept.balance, ?_, distinct.2, fun frame member => others frame (List.mem_of_mem_tail member)⟩
    · simp only [destroyTurn, kept.stores.deq_empty ⟨record, found⟩ holds, Exec.ok_bind,
        Memory.free_of_some found]
      rfl
    · intro other later here
      refine .inl ?_
      by_cases same : other = queue
      · rw [same] at here
        cases (Memory.erase_cells_self world.queues queue).symm.trans here
      · exact (Memory.erase_cells_of_ne world.queues same).symm.trans here
    · intro other absent
      by_cases same : other = queue
      · rw [same]
        exact holds
      · exact kept.stores.gone other
          ((Memory.erase_cells_of_ne world.queues same).symm.trans absent)
    · intro frame member
      refine (kept.destroying frame (inner ▸ List.mem_cons_of_mem _ member)).erase ?_
      intro same
      exact distinct.1 (List.mem_map.mpr ⟨frame, member, same⟩)
  | cons cell rest =>
    obtain ⟨node, value⟩ := cell
    obtain ⟨taken, before, link, was, first, returned, nodes, frames, trace, queues, stores⟩ :=
      kept.stores.deq_ok ⟨record, found⟩ holds
    have read : taken.queues.cells queue = _ := queues ▸ Memory.set_cells_self _ was
    cases known : before.cleaner with
    | some cleaner =>
      let next : QueueWorld := { taken with
        frames := ⟨queue, some node⟩ :: callers
        trace := taken.trace ++ [.cleaned queue cleaner value] }
      have parked : next.parkedNodes = node :: world.parkedNodes := by
        rw [parkedSame]
        rfl
      refine ⟨next, ?_, _, kept.left holds (leaves_cleaned queue cleaner value)
        (parked.symm ▸ ⟨stores.lists, stores.gone, stores.apart, stores.live,
          stores.outside, stores.once, stores.owned⟩) (congrArg (· ++ _) trace) queues
        (by rw [inner]; rfl) (by rw [inner]; rfl)⟩
      simp only [destroyTurn, returned, Exec.ok_bind, Memory.read_of_some read,
        Memory.read_of_some (nodes ▸ first), known]
      rfl
    | none =>
      obtain ⟨freed, storesAfter⟩ := stores.free
      let next : QueueWorld := { taken with
        nodes := taken.nodes.erase node, trace := taken.trace ++ [.dropped queue value] }
      have parked : next.parkedNodes = world.parkedNodes := congrArg (List.filterMap _) frames
      refine ⟨next, ?_, _, kept.left holds (leaves_dropped queue value)
        (parked.symm ▸ ⟨storesAfter.lists, storesAfter.gone, storesAfter.apart, storesAfter.live,
          storesAfter.outside, storesAfter.once, storesAfter.owned⟩) (congrArg (· ++ _) trace)
        queues (congrArg _ frames) (congrArg _ frames)⟩
      simp only [destroyTurn, returned, Exec.ok_bind, Memory.read_of_some read,
        Memory.read_of_some (nodes ▸ first), known, freed]
      rfl

theorem Kept.cleanerReturned (kept : world.Kept held) {callers : List QueueFrame}
    (inner : world.frames = ⟨queue, some node⟩ :: callers) :
    ∃ next, world.cleanerReturns queue node callers = .ok next ∧ next.Kept held := by
  have parked : world.parkedNodes = node :: callers.filterMap QueueFrame.node := by
    rw [parkedNodes, inner]
    rfl
  obtain ⟨freed, stores⟩ := Stores.free (parked ▸ kept.stores)
  have distinct := kept.distinct
  have others := kept.callers
  have destroying := kept.destroying
  rw [inner] at distinct others destroying
  refine ⟨{ world with
    nodes := world.nodes.erase node, frames := ⟨queue, none⟩ :: callers }, ?_, ?_, kept.balance, ?_,
    distinct, others⟩
  · simp only [cleanerReturns, freed, Exec.ok_bind]
  · exact ⟨stores.lists, stores.gone, stores.apart, stores.live, stores.outside, stores.once,
      stores.owned⟩
  · intro frame member
    rcases List.mem_cons.mp member with rfl | other
    · exact destroying ⟨queue, some node⟩ (List.mem_cons_self ..)
    · exact destroying frame (List.mem_cons_of_mem _ other)

theorem Kept.step (kept : world.Kept held) {op : QueueOp} (enabled : world.Enabled op) :
    ∃ next, world.step op = .ok next ∧ ∃ later, next.Kept later := by
  cases op with
  | create cleaner callocOk =>
    cases callocOk with
    | false => exact ⟨world, rfl, held, kept⟩
    | true => exact ⟨_, rfl, held, kept.created cleaner⟩
  | enq queue value callocOk =>
    obtain ⟨_, live, given⟩ := enabled
    obtain ⟨value, rfl⟩ := Option.isSome_iff_exists.mp given
    cases callocOk with
    | false => exact ⟨world, rfl, held, kept⟩
    | true =>
      obtain ⟨next, returned, keptNext⟩ := kept.enqueued live value
      exact ⟨next, congrArg (Except.map Prod.snd) returned, keptNext⟩
  | deq queue =>
    obtain ⟨result, returned, keptNext⟩ := kept.dequeued enabled.2
    exact ⟨result.2, congrArg (Except.map Prod.snd) returned, keptNext⟩
  | destroy queue =>
    obtain ⟨awake, live, others⟩ := enabled
    have stores := kept.stores
    refine ⟨_, rfl, held, ⟨stores.lists, stores.gone, stores.apart, stores.live, stores.outside,
      stores.once, stores.owned⟩, kept.balance, ?_, ?_, ?_⟩
    · intro frame member
      rcases List.mem_cons.mp member with rfl | old
      · exact live
      · exact kept.destroying frame old
    · refine List.nodup_cons.mpr ⟨?_, kept.distinct⟩
      intro again
      obtain ⟨frame, member, same⟩ := List.mem_map.mp again
      exact others frame member same
    · intro frame member
      change frame ∈ world.frames at member
      cases frames : world.frames with
      | nil =>
        rw [frames] at member
        cases member
      | cons inner callers =>
        have callersKept := kept.callers
        rw [Awake, frames] at awake
        rw [frames] at member callersKept
        rcases List.mem_cons.mp member with rfl | caller
        · exact awake frame rfl
        · exact callersKept frame caller
  | turn =>
    cases frames : world.frames with
    | nil =>
      refine absurd ?_ enabled
      rw [Awake, frames]
      exact fun frame none => by cases none
    | cons inner callers =>
      obtain ⟨queue, node⟩ := inner
      cases node with
      | none =>
        obtain ⟨next, returned, keptNext⟩ := kept.turned frames
        refine ⟨next, ?_, keptNext⟩
        simp only [QueueWorld.step, frames, returned]
      | some node =>
        refine absurd ?_ enabled
        rw [Awake, frames]
        rintro _ ⟨⟩
        rfl
  | cleaned =>
    obtain ⟨awake, inside⟩ := enabled
    cases frames : world.frames with
    | nil => exact absurd frames inside
    | cons inner callers =>
      obtain ⟨queue, node⟩ := inner
      cases node with
      | none =>
        rw [Awake, frames] at awake
        exact absurd (awake _ rfl) Bool.false_ne_true
      | some node =>
        obtain ⟨next, returned, keptNext⟩ := kept.cleanerReturned frames
        refine ⟨next, ?_, held, keptNext⟩
        simp only [QueueWorld.step, frames, returned]

end Steps

section Runs

variable {labels : List QueueOp}

theorem kept_new : new.Kept fun _ => [] := by
  refine ⟨⟨?_, fun _ _ => rfl, ?_, ?_, ?_, List.nodup_nil, ?_⟩, fun _ => rfl, ?_,
    List.nodup_nil, ?_⟩
  · intro queue record found
    cases found
  · intro first second ref member
    cases member
  · intro ref member
    cases member
  · intro ref member
    cases member
  · rintro ref ⟨cell, found⟩
    cases found
  · intro frame member
    cases member
  · intro frame member
    cases member

theorem Kept.run (run : system.Run new labels world) : ∃ held, world.Kept held := by
  refine run.preserves (fun world => ∃ held, world.Kept held) ?_ ⟨_, kept_new⟩
  rintro before op after ⟨held, kept⟩ enabled returned
  obtain ⟨next, stepped, later⟩ := kept.step enabled
  cases stepped.symm.trans returned
  exact later

/-- Values leave a queue once, in the order in which they entered it; a queue that was destroyed
has kept none. -/
theorem run_first_in_first_out (run : system.Run new labels world) (queue : Nat) :
    (∀ record, world.queues.cells queue = some record →
      ∃ cells, Link.Chain world.nodes record.head cells ∧
        leaving queue world.trace ++ cells.map Prod.snd = entered queue world.trace) ∧
      (world.queues.cells queue = none →
        leaving queue world.trace = entered queue world.trace) := by
  obtain ⟨held, kept⟩ := Kept.run run
  have balance := kept.balance queue
  constructor
  · intro record found
    exact ⟨held queue, (kept.stores.lists queue record found).1, balance⟩
  · intro destroyed
    rwa [kept.stores.gone queue destroyed, List.map_nil, List.append_nil] at balance

/-- Values are enqueued and dequeued while others are cleaned, and one queue is destroyed by the
cleaner of another. -/
def busyCleaners : List QueueOp :=
  [.create (some 3) true, .create none true, .enq 0 (some 5) true, .enq 0 (some 7) true,
    .enq 1 (some 9) true, .enq 1 (some 6) true, .destroy 0, .turn, .enq 0 (some 8) true, .deq 1,
    .destroy 1, .turn, .turn, .cleaned, .turn, .cleaned, .turn, .cleaned]

theorem run_first_in_first_out_busy :
    ∃ world, system.Run new busyCleaners world ∧ leaving 1 world.trace = [9, 6] ∧
      entered 1 world.trace = [9, 6] := by
  obtain ⟨world, executed, seen⟩ := Exec.exists_of_map
    (fun world : QueueWorld => (entered 1 world.trace, (world.queues.cells 1).isNone))
    (show (system.execute (fun world op => decide (world.Enabled op)) new busyCleaners).toOption.map
      _ = some ([9, 6], true) by decide)
  have run :=
    System.Run.of_execute (fun world op => @of_decide_eq_true (world.Enabled op) _) executed
  obtain ⟨values, gone⟩ := Prod.mk.inj seen
  have left := (run_first_in_first_out run 1).2 (Option.isNone_iff_eq_none.mp gone)
  exact ⟨world, run, left.trans values, values⟩

/-- No call on queues touches freed memory or frees anything twice, whatever the cleaners do, and
when all queues were destroyed no node is left. -/
theorem run_releases (run : system.Run new labels world) :
    (∀ op, world.Enabled op → ∃ next, world.step op = .ok next) ∧
      ((∀ queue, ¬ world.queues.Live queue) → ∀ node, ¬ world.nodes.Live node) := by
  obtain ⟨held, kept⟩ := Kept.run run
  constructor
  · intro op enabled
    obtain ⟨next, stepped, _⟩ := kept.step enabled
    exact ⟨next, stepped⟩
  · intro destroyed node live
    rcases kept.stores.owned node live with parked | ⟨queue, member⟩
    · obtain ⟨frame, inside, _⟩ := List.mem_filterMap.mp parked
      exact destroyed _ (kept.destroying frame inside)
    · have gone := kept.stores.gone queue (Option.eq_none_iff_forall_ne_some.mpr fun record found =>
        destroyed queue ⟨record, found⟩)
      rw [gone] at member
      cases member

theorem run_releases_busy :
    ∃ world, system.Run new (busyCleaners ++ [.turn]) world ∧ ∀ node, ¬ world.nodes.Live node := by
  obtain ⟨world, executed, seen⟩ := Exec.exists_of_map
    (fun world : QueueWorld =>
      (world.queues.fresh, (world.queues.cells 0).isNone, (world.queues.cells 1).isNone))
    (show (system.execute (fun world op => decide (world.Enabled op)) new
      (busyCleaners ++ [.turn])).toOption.map _ = some (2, true, true) by decide)
  have run :=
    System.Run.of_execute (fun world op => @of_decide_eq_true (world.Enabled op) _) executed
  obtain ⟨fresh, gone⟩ := Prod.mk.inj seen
  obtain ⟨first, second⟩ := Prod.mk.inj gone
  refine ⟨world, run, (run_releases run).2 ?_⟩
  rintro queue ⟨record, found⟩
  have few := Memory.lt_fresh found
  rw [fresh] at few
  obtain rfl | rfl : queue = 0 ∨ queue = 1 := by omega
  · cases (Option.isNone_iff_eq_none.mp first).symm.trans found
  · cases (Option.isNone_iff_eq_none.mp second).symm.trans found

end Runs

end QueueWorld

end SpudLib
