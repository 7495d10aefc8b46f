import SpudLib.HashTable.Traversal
import SpudLib.Tube.Mirroring
import SpudLib.Tube.Delivery

/-!
# Visiting every tube

`tube_manager_foreach` walks through the table of tubes.  A walker may close the tube it
is given, and remove it: the node and the tube are freed under the walk, which goes on
behind them.  Every tube is visited once, and exactly the tubes that the walker removed
are destroyed.
-/

namespace SpudLib

def Walk.visited {Key Value State : Type} (walk : Walk State Key Value) (p : HNode Key Value)
    (answer : Int × State × HTable Key Value) : Walk State Key Value where
  table := answer.2.2
  state := answer.2.1
  count := (walk.count + 1) % 2 ^ 32
  running := answer.1
  visits := walk.visits ++ [(p.slot, answer.1)]

namespace HTable

variable {Key Value State : Type} {func other : WalkFunc State Key Value}
  {Inv : Walk State Key Value → Prop}

/-- Two walk functions answer alike, on walks as in `Inv`. -/
def Alike (Inv : Walk State Key Value → Prop) (func other : WalkFunc State Key Value) : Prop :=
  ∀ walk p, Inv walk → p ∈ walk.table.nodes →
    func walk.state walk.table p.key p.value = other walk.state walk.table p.key p.value ∧
    ∀ answer, other walk.state walk.table p.key p.value = .ok answer → Inv (walk.visited p answer)

theorem mem_of_nodeAt {tbl : HTable Key Value} {node : Nat} {p : HNode Key Value}
    (found : tbl.nodeAt node = .ok p) : p ∈ tbl.nodes := by
  unfold nodeAt at found
  split at found
  · cases found
  next inside =>
    cases found
    exact List.mem_of_find?_eq_some inside

theorem Alike.walkChain (alike : Alike Inv func other) {bound : Nat} {cur : Option Nat}
    {walk : Walk State Key Value} (inv : Inv walk) :
    walkChain func bound cur walk = walkChain other bound cur walk ∧
      ∀ after, HTable.walkChain other bound cur walk = .ok after → Inv after := by
  induction bound generalizing cur walk with
  | zero =>
    cases cur with
    | none => exact ⟨rfl, fun after same => by cases same; exact inv⟩
    | some cur =>
      refine ⟨rfl, ?_⟩
      intro after returned
      unfold HTable.walkChain at returned
      split at returned
      · cases returned
        exact inv
      · cases returned
  | succ bound inductionHypothesis =>
    cases cur with
    | none => exact ⟨rfl, fun after same => by cases same; exact inv⟩
    | some cur =>
      unfold HTable.walkChain
      by_cases stopped : walk.running = 0
      · rw [if_pos stopped, if_pos stopped]
        exact ⟨rfl, fun after same => by cases same; exact inv⟩
      · rw [if_neg stopped, if_neg stopped]
        cases found : walk.table.nodeAt cur with
        | error reason => exact ⟨rfl, fun after same => by cases same⟩
        | ok self =>
          cases walk.table.nextOf cur with
          | error reason => exact ⟨rfl, fun after same => by cases same⟩
          | ok next =>
            obtain ⟨same, kept⟩ := alike walk self inv (mem_of_nodeAt found)
            simp only [Exec.ok_bind, same]
            cases answered : other walk.state walk.table self.key self.value with
            | error reason => exact ⟨rfl, fun after same => by cases same⟩
            | ok answer => exact inductionHypothesis (kept answer answered)

theorem Alike.walkBuckets (alike : Alike Inv func other) {bound index : Nat}
    {walk : Walk State Key Value} (inv : Inv walk) :
    walkBuckets func bound index walk = walkBuckets other bound index walk ∧
      ∀ after, HTable.walkBuckets other bound index walk = .ok after → Inv after := by
  induction bound generalizing index walk with
  | zero =>
    refine ⟨by unfold HTable.walkBuckets; rfl, ?_⟩
    intro after returned
    unfold HTable.walkBuckets at returned
    split at returned
    · cases returned
    · cases returned
      exact inv
  | succ bound inductionHypothesis =>
    unfold HTable.walkBuckets
    by_cases inside : walk.running ≠ 0 ∧ index < walk.table.bcount
    · simp only [if_pos inside]
      have chains := @Alike.walkChain _ _ _ _ _ _ alike bound
        ((walk.table.bucketAt index).head?.map HNode.node) walk inv
      rw [chains.1]
      cases walked : HTable.walkChain other bound
          ((walk.table.bucketAt index).head?.map HNode.node) walk with
      | error reason => exact ⟨rfl, fun after same => by cases same⟩
      | ok middle => exact inductionHypothesis (chains.2 middle walked)
    · simp only [if_neg inside]
      exact ⟨trivial, fun after same => by cases same; exact inv⟩

end HTable

open TubeManager

/-- What a walker does with the tube it is given.  No tube is visited twice, so whatever a
walker looks at to decide this, it is a function of the tube. -/
structure Attention where
  answer : Int
  close : Bool
  remove : Bool

/-- A `tube_walker_func` that may close its tube, and remove it. -/
def attend (env : Environment) (attention : Nat → Attention) (t : Nat) : Tubing Int := do
  let _ ← (if (attention t).close then tubeClose env t else pure true : Tubing Bool)
  (if (attention t).remove then tubeManagerRemove env t else pure () : Tubing Unit)
  pure (attention t).answer

def walkerFunc (walker : Nat → Tubing Int) : WalkFunc TubeManager TubeKey Nat :=
  fun mgr tbl _ value =>
    match value with
    | none => .error .nullDereference
    | some t => do
        let (answer, after) ← (walker t).straight (mgr.withTable tbl)
        pure (answer, after, after.table)

/-- `tube_manager_foreach`, with so much fuel for its loops: the tubes visited, and the
manager afterwards. -/
def tubeManagerForeach (mgr : TubeManager) (walker : Nat → Tubing Int) (bound : Nat) :
    Exec (List Nat × TubeManager) := do
  let walk ← mgr.table.lsHtableWalk (walkerFunc walker) mgr bound
  pure (walk.visits.filterMap fun visit => visit.1.value, walk.state.withTable walk.table)

namespace Attention

def closed (attention : Attention) (cell : Tube) : Tube :=
  if attention.close then { cell with state := .unknown } else cell

def leaves (attention : Attention) (cell : Tube) : Option Tube :=
  if attention.remove then none else some (attention.closed cell)

def effects (attention : Attention) (env : Environment) (t : Nat) (cell : Tube) : List Effect :=
  (if attention.close then env.effects (cell.datagram .spudClose false false []) else []) ++
    if attention.remove then
      env.triggers (.remove t) ++ (env.closing (attention.closed cell) ++ [.destroyed t])
    else []

end Attention

def TubeManager.attended (env : Environment) (attention : Nat → Attention) (mgr : TubeManager)
    (t : Nat) : TubeManager :=
  match mgr.tubes.cells t with
  | none => mgr
  | some cell =>
      { mgr with
        tubes := if (attention t).remove then mgr.tubes.erase t
          else mgr.tubes.set t ((attention t).closed cell)
        trace := mgr.trace ++ (attention t).effects env t cell }

section Visit

variable {mgr : TubeManager} {env : Environment} {attention : Nat → Attention}
  {find : SpudTubeId → Option Nat} {t : Nat} {cell : Tube}

theorem tubeManagerRemove_passive (holds : mgr.Holds find) (found : mgr.tubes.cells t = some cell)
    (stored : find cell.id = some t) :
    ∃ calls table, mgr.table.lsHtableRemove ⟨some t, cell.id⟩ = .ok (calls, table) ∧
      Registers table (Function.update find cell.id none) ∧
      (tubeManagerRemove env t).straight mgr =
        .ok ((), ((mgr.noted (env.triggers (.remove t))).withTable table).evict env (some t)) := by
  let told := mgr.noted (env.triggers (.remove t))
  have foundTold : told.tubes.cells t = some cell := found
  obtain ⟨call, table, returned, value, registers⟩ :=
    @Registers.remove_found _ _ holds.registers ⟨some t, cell.id⟩ t stored
  refine ⟨[call], table, returned, registers, ?_⟩
  have removed : told.table.lsHtableRemove ⟨some t, cell.id⟩ = .ok ([call], table) := returned
  have live : (told.withTable table).tubes.cells t = some cell := found
  rw [tubeManagerRemove, straight_bind_of (lsEventTrigger_straight _), unregister,
    straight_bind_of_done (readTube_ok foundTold),
    straight_bind_of_done (readKeys_ok (holds.noted _) _),
    straight_bind_of_done (Proc.run_lift_of_ok (by rw [removed]; rfl))]
  exact Proc.straight_of_done (runCleaners_one value live)

theorem attend_closes (holds : mgr.Holds find) (found : mgr.tubes.cells t = some cell) :
    ∃ answer, (if (attention t).close then tubeClose env t else pure true : Tubing Bool).straight
        mgr = .ok (answer, (mgr.setTube t ((attention t).closed cell)).noted
          (if (attention t).close then env.effects (cell.datagram .spudClose false false []) else
            [])) ∧
      (mgr.setTube t ((attention t).closed cell)).Holds find := by
  unfold Attention.closed
  by_cases close : (attention t).close = true
  · simp only [if_pos close]
    exact ⟨_, Proc.straight_of_done (tubeClose_ok found), holds.setTube found (.inl rfl)⟩
  · simp only [if_neg close]
    refine ⟨true, ?_, holds.setTube found (.inl rfl)⟩
    rw [noted_nil, TubeManager.setTube, Memory.set_self found]
    rfl

theorem attend_ok (holds : mgr.Holds find) (found : mgr.tubes.cells t = some cell)
    (stored : find cell.id = some t) :
    ∃ calls table, mgr.table.lsHtableRemove ⟨some t, cell.id⟩ = .ok (calls, table) ∧
      Registers table (Function.update find cell.id none) ∧
      (attend env attention t).straight mgr = .ok ((attention t).answer,
        (mgr.attended env attention t).withTable
          (if (attention t).remove then table else mgr.table)) := by
  obtain ⟨answer, closes, holdsClosed⟩ := @attend_closes mgr env attention find t cell holds found
  let closed : Tube := (attention t).closed cell
  let sent := if (attention t).close then env.effects (cell.datagram .spudClose false false [])
    else []
  have same : closed.id = cell.id := by
    unfold closed Attention.closed
    split <;> rfl
  have foundClosed : (mgr.setTube t closed).tubes.cells t = some closed :=
    Memory.set_cells_self _ found
  obtain ⟨calls, table, returned, registers, removed⟩ :=
    @tubeManagerRemove_passive _ env find t closed (holdsClosed.noted sent) foundClosed
      (same ▸ stored)
  rw [same] at returned registers
  refine ⟨calls, table, returned, registers, ?_⟩
  rw [attend, straight_bind_of closes, attended, found]
  by_cases remove : (attention t).remove = true
  · simp only [if_pos remove, Attention.effects]
    let gone := (((mgr.setTube t closed).noted sent).noted (env.triggers (.remove t))).withTable
      table
    have foundGone : gone.tubes.cells t = some closed := foundClosed
    rw [straight_bind_of removed, evict_some foundGone]
    change Except.ok (_, _) = _
    simp only [TubeManager.noted, TubeManager.setTube, TubeManager.withTable, Memory.erase_set,
      List.append_assoc, gone, sent, closed]
  · simp only [if_neg remove, Attention.effects, List.append_nil]
    rfl

end Visit

def visitedTubes (visits : List (Slot TubeKey Nat × Int)) : List Nat :=
  visits.filterMap fun visit => visit.1.value

theorem map_visitedTubes {visits : List (Slot TubeKey Nat × Int)}
    (tubes : ∀ visit ∈ visits, ∃ t, visit.1.value = some t) :
    visits.map (fun visit => visit.1.value) = (visitedTubes visits).map some := by
  induction visits with
  | nil => rfl
  | cons visit rest inductionHypothesis =>
    obtain ⟨t, value⟩ := tubes visit List.mem_cons_self
    have onward := inductionHypothesis
      fun other member => tubes other (List.mem_cons_of_mem _ member)
    have first : visitedTubes (visit :: rest) = t :: visitedTubes rest :=
      List.filterMap_cons_some value
    rw [first, List.map_cons, List.map_cons, value, onward]

/-- A walk under way: the tubes visited so far were attended to, one after the other, and the
table finds those that were not removed. -/
structure Attending (env : Environment) (attention : Nat → Attention) (mgr : TubeManager)
    (find : SpudTubeId → Option Nat) (walk : Walk TubeManager TubeKey Nat) : Prop where
  holds : ∃ later, (walk.state.withTable walk.table).Holds later ∧ ∀ id t, later id = some t ↔
    find id = some t ∧ ¬ (t ∈ visitedTubes walk.visits ∧ (attention t).remove = true)
  state : walk.state.withTable walk.table =
    ((visitedTubes walk.visits).foldl (attended env attention) mgr).withTable walk.table
  answers : ∀ visit ∈ walk.visits, ∃ t, visit.1.value = some t ∧ visit.2 = (attention t).answer ∧
    ∃ id, find id = some t

section Walks

variable {mgr : TubeManager} {env : Environment} {attention : Nat → Attention}
  {find : SpudTubeId → Option Nat} {t : Nat}

def walkerVisit (env : Environment) (attention : Nat → Attention) (mgr : TubeManager)
    (tbl : HTable TubeKey Nat) (_ : TubeKey) (value : Option Nat) : Int × Bool × TubeManager :=
  match value with
  | none => (0, false, mgr)
  | some t =>
      match (attend env attention t).straight (mgr.withTable tbl) with
      | .ok (answer, after) => (answer, (attention t).remove, after)
      | .error _ => (0, false, mgr)

@[simp] theorem attended_table (mgr : TubeManager) (t : Nat) :
    (mgr.attended env attention t).table = mgr.table := by
  unfold attended
  split <;> rfl

theorem attended_withTable (mgr : TubeManager) (table : HTable TubeKey Nat) (t : Nat) :
    (mgr.withTable table).attended env attention t =
      (mgr.attended env attention t).withTable table := by
  unfold attended
  cases found : mgr.tubes.cells t with
  | none => simp only [show (mgr.withTable table).tubes.cells t = _ from found]
  | some cell =>
    simp only [show (mgr.withTable table).tubes.cells t = _ from found]
    rfl

theorem attended_holds {cell : Tube} (holds : mgr.Holds find)
    (found : mgr.tubes.cells t = some cell) (stored : find cell.id = some t)
    {table : HTable TubeKey Nat}
    (registers : Registers table (Function.update find cell.id none)) :
    ((mgr.attended env attention t).withTable
        (if (attention t).remove then table else mgr.table)).Holds
      (if (attention t).remove then Function.update find cell.id none else find) := by
  rw [attended, found]
  by_cases remove : (attention t).remove = true
  · simp only [if_pos remove]
    have dropped := @Holds.drop _ env _ holds table cell.id registers
    have foundLater : (mgr.withTable table).tubes.cells t = some cell := found
    rw [stored, evict_some foundLater] at dropped
    exact ⟨dropped.registers, dropped.live⟩
  · simp only [if_neg remove]
    have same : ((attention t).closed cell).id = cell.id := by
      unfold Attention.closed
      split <;> rfl
    have kept := @Holds.setTube mgr find t cell holds found _ (.inl same)
    exact ⟨kept.registers, kept.live⟩

/-- The walker does to the table what a function does that only has its entry removed. -/
theorem attending_alike :
    HTable.Alike (Attending env attention mgr find) (walkerFunc (attend env attention))
      (HTable.removing (walkerVisit env attention)) := by
  rintro walk p ⟨⟨later, holds, remaining⟩, state, answers⟩ member
  obtain ⟨t, stored, key, value, _⟩ := holds.registers.node member
  obtain ⟨cell, found, own⟩ := holds.live _ t stored
  rw [← own] at stored key
  obtain ⟨calls, table, removed, registers, visited⟩ :=
    @attend_ok _ env attention later t cell holds found stored
  have keyed : p.key = ⟨some t, cell.id⟩ := key
  have valued : p.value = some t := value
  let tbl := if (attention t).remove then table else walk.table
  let after := ((walk.state.withTable walk.table).attended env attention t).withTable tbl
  have visits : walkerVisit env attention walk.state walk.table p.key p.value =
      ((attention t).answer, (attention t).remove, after) := by
    simp only [walkerVisit, valued, visited]
    rfl
  have called : walkerFunc (attend env attention) walk.state walk.table p.key p.value =
      .ok ((attention t).answer, after, tbl) := by
    simp only [walkerFunc, valued, visited]
    rfl
  have permitted : HTable.removing (walkerVisit env attention) walk.state walk.table p.key p.value =
      .ok ((attention t).answer, after, tbl) := by
    unfold HTable.removing
    rw [visits, keyed]
    simp only [tbl]
    by_cases remove : (attention t).remove = true
    · rw [if_pos remove, if_pos remove, show walk.table.lsHtableRemove _ = _ from removed]
      rfl
    · rw [if_neg remove, if_neg remove]
      rfl
  refine ⟨called.trans permitted.symm, ?_⟩
  intro answer answered
  cases permitted.symm.trans answered
  have more : visitedTubes (walk.visits ++ [(p.slot, (attention t).answer)]) =
      visitedTubes walk.visits ++ [t] := by
    rw [visitedTubes, List.filterMap_append]
    exact congrArg (visitedTubes walk.visits ++ ·) (List.filterMap_cons_some value)
  refine ⟨⟨_, @attended_holds _ env attention later t cell holds found stored table registers, ?_⟩,
    ?_, ?_⟩
  · intro id other
    change _ ↔ find id = some other ∧ ¬ (other ∈ visitedTubes (walk.visits ++ _) ∧ _)
    rw [more]
    by_cases remove : (attention t).remove = true
    · rw [if_pos remove]
      by_cases here : id = cell.id
      · subst here
        rw [Function.update_self]
        refine iff_of_false (by simp) ?_
        rintro ⟨entry, kept⟩
        cases ((remaining _ _).mp stored).1.symm.trans entry
        exact kept ⟨by simp, remove⟩
      · rw [Function.update_of_ne here, remaining]
        constructor
        · rintro ⟨entry, kept⟩
          refine ⟨entry, ?_⟩
          rintro ⟨seen, gone⟩
          rcases List.mem_append.mp seen with old | new
          · exact kept ⟨old, gone⟩
          · rw [List.mem_singleton.mp new] at entry kept
            exact here (holds.injective ((remaining _ _).mpr ⟨entry, kept⟩) stored)
        · rintro ⟨entry, kept⟩
          exact ⟨entry, fun seen => kept ⟨List.mem_append_left _ seen.1, seen.2⟩⟩
    · rw [if_neg remove, remaining]
      have same : other ∈ visitedTubes walk.visits ++ [t] ∧ (attention other).remove = true ↔
          other ∈ visitedTubes walk.visits ∧ (attention other).remove = true := by
        rw [List.mem_append, List.mem_singleton]
        constructor
        · rintro ⟨old | rfl, gone⟩
          · exact ⟨old, gone⟩
          · exact absurd gone remove
        · exact fun seen => ⟨.inl seen.1, seen.2⟩
      rw [same]
  · change after.withTable tbl = (List.foldl _ mgr (visitedTubes (walk.visits ++ _))).withTable tbl
    rw [more, List.foldl_append, List.foldl_cons, List.foldl_nil]
    simp only [after]
    rw [state, attended_withTable]
    rfl
  · intro visit inside
    rcases List.mem_append.mp inside with old | new
    · exact answers visit old
    · rw [List.mem_singleton.mp new]
      exact ⟨t, valued, rfl, _, ((remaining _ _).mp stored).1⟩

theorem attended_cells_self {cell : Tube} (found : mgr.tubes.cells t = some cell) :
    (mgr.attended env attention t).tubes.cells t = (attention t).leaves cell := by
  simp only [attended, found, Attention.leaves]
  by_cases remove : (attention t).remove = true
  · rw [if_pos remove, if_pos remove]
    exact Memory.erase_cells_self _ _
  · rw [if_neg remove, if_neg remove]
    exact Memory.set_cells_self _ found

theorem attended_cells_of_ne {other : Nat} (different : other ≠ t) :
    (mgr.attended env attention t).tubes.cells other = mgr.tubes.cells other := by
  cases found : mgr.tubes.cells t with
  | none => simp only [attended, found]
  | some cell =>
    simp only [attended, found]
    by_cases remove : (attention t).remove = true
    · rw [if_pos remove]
      exact Memory.erase_cells_of_ne _ different
    · rw [if_neg remove]
      exact Memory.set_cells_of_ne _ _ different

theorem attended_trace :
    (mgr.attended env attention t).trace =
      mgr.trace ++ ((mgr.tubes.cells t).map ((attention t).effects env t)).getD [] := by
  cases found : mgr.tubes.cells t with
  | none => simp only [attended, found, Option.map_none, Option.getD_none, List.append_nil]
  | some cell => simp only [attended, found, Option.map_some, Option.getD_some]

theorem foldl_attended_cells {visited : List Nat} (once : visited.Nodup) :
    ∀ other, (visited.foldl (attended env attention) mgr).tubes.cells other =
      if other ∈ visited then (mgr.tubes.cells other).bind (attention other).leaves
        else mgr.tubes.cells other := by
  induction visited generalizing mgr with
  | nil => exact fun other => rfl
  | cons t rest inductionHypothesis =>
    obtain ⟨new, onceRest⟩ := List.nodup_cons.mp once
    intro other
    rw [List.foldl_cons, inductionHypothesis onceRest]
    by_cases here : other = t
    · subst here
      rw [if_neg new, if_pos List.mem_cons_self]
      cases found : mgr.tubes.cells other with
      | none => simp only [attended, found, Option.bind_none]
      | some cell => exact attended_cells_self found
    · rw [attended_cells_of_ne here]
      simp only [List.mem_cons, here, false_or]

theorem foldl_attended_trace {visited : List Nat} (once : visited.Nodup) :
    (visited.foldl (attended env attention) mgr).trace = mgr.trace ++ visited.flatMap fun t =>
      ((mgr.tubes.cells t).map ((attention t).effects env t)).getD [] := by
  induction visited generalizing mgr with
  | nil => exact (List.append_nil _).symm
  | cons t rest inductionHypothesis =>
    obtain ⟨new, onceRest⟩ := List.nodup_cons.mp once
    rw [List.foldl_cons, inductionHypothesis onceRest, attended_trace, List.flatMap_cons,
      List.append_assoc]
    congr 2
    apply List.flatMap_congr
    intro other member
    rw [attended_cells_of_ne]
    rintro rfl
    exact new member

theorem TubeManager.Holds.tubes_nodup (holds : mgr.Holds find) :
    (mgr.table.slots.filterMap Slot.value).Nodup := by
  have distinct : mgr.table.slots.Nodup := by
    apply List.Nodup.of_map Slot.node
    have addresses := holds.registers.wf.addresses
    rwa [HTable.slots, List.map_map]
  rw [List.Nodup, List.pairwise_filterMap]
  apply List.Pairwise.imp_of_mem _ distinct
  intro first second memberFirst memberSecond different t own other same again
  subst again
  obtain ⟨_, stored, belongs⟩ := holds.registers.sound first memberFirst
  obtain ⟨_, storedToo, belongsToo⟩ := holds.registers.sound second memberSecond
  cases own.symm.trans belongs.2.1
  cases same.symm.trans belongsToo.2.1
  obtain ⟨p, inside, rfl⟩ := List.mem_map.mp memberFirst
  obtain ⟨q, insideToo, rfl⟩ := List.mem_map.mp memberSecond
  have equal := holds.registers.node_unique inside insideToo (holds.injective stored storedToo)
  exact different (congrArg HNode.slot equal)

/-- A walker that closes and removes tubes as it likes is called for every tube in the table
once, up to the first for which it answers 0.  The tubes that it removed are destroyed and out of
the table, the others are in it, and the peers were told in the order of the visits. -/
theorem tubeManagerForeach_visits (holds : mgr.Holds find) (env : Environment)
    (attention : Nat → Attention) {bound : Nat}
    (enough : mgr.table.bcount + mgr.table.nodes.length ≤ bound) :
    ∃ visited after, tubeManagerForeach mgr (attend env attention) bound = .ok (visited, after) ∧
      visited.Nodup ∧ (∀ t ∈ visited, ∃ id, find id = some t) ∧
      (∀ front t back, visited = front ++ t :: back → (attention t).answer = 0 → back = []) ∧
      ((∀ t ∈ visited, (attention t).answer ≠ 0) → ∀ id t, find id = some t → t ∈ visited) ∧
      after.Holds (fun id => (find id).filter fun t =>
        decide (¬ (t ∈ visited ∧ (attention t).remove = true))) ∧
      (∀ t cell, mgr.tubes.cells t = some cell → after.tubes.cells t =
        if t ∈ visited then (attention t).leaves cell else some cell) ∧
      after.trace = mgr.trace ++ visited.flatMap fun t =>
        ((mgr.tubes.cells t).map ((attention t).effects env t)).getD [] := by
  have initially : Attending env attention mgr find ⟨mgr.table, mgr, 0, 1, []⟩ := by
    refine ⟨⟨find, holds, fun id t => ⟨fun stored => ⟨stored, ?_⟩, And.left⟩⟩, rfl, ?_⟩
    · exact fun seen => absurd seen.1 List.not_mem_nil
    · exact fun visit member => absurd member List.not_mem_nil
  obtain ⟨walk, walked, ordered, _⟩ := holds.registers.wf.walk holds.registers.lawful
    (walkerVisit env attention) mgr enough
  obtain ⟨same, kept⟩ := @HTable.Alike.walkBuckets _ _ _ _ _ _ attending_alike bound 0 _ initially
  obtain ⟨⟨later, holdsLater, remaining⟩, state, answers⟩ := kept walk walked
  let visited := visitedTubes walk.visits
  have listed : walk.visits.map (fun visit => visit.1.value) = visited.map some :=
    map_visitedTubes fun visit member =>
      (answers visit member).imp fun _ about => about.1
  have slots : visited = (walk.visits.map Prod.fst).filterMap Slot.value := by
    rw [List.filterMap_map]
    rfl
  have once : visited.Nodup := by
    rw [slots]
    exact (ordered.prefixed.sublist.filterMap _).nodup holds.tubes_nodup
  refine ⟨visited, walk.state.withTable walk.table, ?_, once, ?_, ?_, ?_, ?_, ?_, ?_⟩
  · have whole : mgr.table.lsHtableWalk (walkerFunc (attend env attention)) mgr bound = .ok walk :=
      same.trans walked
    rw [tubeManagerForeach, whole]
    rfl
  · intro t member
    obtain ⟨visit, inside, value⟩ := List.mem_filterMap.mp member
    obtain ⟨other, own, _, stored⟩ := answers visit inside
    cases own.symm.trans value
    exact stored
  · intro front t back split zero
    rw [split, List.map_append, List.map_cons] at listed
    obtain ⟨before, others, whole, _, onward⟩ := List.map_eq_append_iff.mp listed
    obtain ⟨visit, after, rfl, value, rest⟩ := List.map_eq_cons_iff.mp onward
    obtain ⟨other, own, answer, _⟩ := answers visit (whole ▸ by simp)
    cases own.symm.trans value
    rw [ordered.last_zero before visit after whole (answer.trans zero)] at rest
    exact List.map_eq_nil_iff.mp rest.symm
  · intro goes id t stored
    obtain ⟨slot, member, belongs⟩ := holds.registers.all id t stored
    have all := ordered.whole fun visit inside => by
      obtain ⟨other, own, answer, _⟩ := answers visit inside
      rw [answer]
      exact goes other (List.mem_filterMap.mpr ⟨visit, inside, own⟩)
    rw [slots, all]
    exact List.mem_filterMap.mpr ⟨slot, member, belongs.2.1⟩
  · have same : later = fun id => (find id).filter fun t =>
        decide (¬ (t ∈ visited ∧ (attention t).remove = true)) := by
      funext id
      apply Option.ext
      intro t
      rw [remaining, Option.filter_eq_some_iff, decide_eq_true_iff]
    rw [← same]
    exact holdsLater
  · intro t cell found
    rw [state]
    change (List.foldl (attended env attention) mgr visited).tubes.cells t = _
    rw [foldl_attended_cells once, found]
    rfl
  · rw [state]
    exact foldl_attended_trace once

end Walks

theorem exists_twoTubes : ∃ (mgr : TubeManager) (find : SpudTubeId → Option Nat),
    mgr.Holds find ∧ find ⟨fun _ => 7⟩ = some 0 ∧ find ⟨fun _ => 9⟩ = some 1 := by
  have stored : ((tubeManagerLoopBody obliging minimalCbor true
      (bareHeader ⟨fun _ => 7⟩ .spudOpen)).straight newResponder >>= fun first =>
        (tubeManagerLoopBody obliging minimalCbor true
          (bareHeader ⟨fun _ => 9⟩ .spudOpen)).straight first.2).toOption.map (fun second =>
            ((second.2.lookup ⟨fun _ => 7⟩).toOption.join,
              (second.2.lookup ⟨fun _ => 9⟩).toOption.join)) = some (some 0, some 1) := by
    decide +kernel
  obtain ⟨_, one, _, returnedOne, holdsOne, _⟩ := @tubeManagerLoopBody_confined minimalCbor
    newResponder obliging (bareHeader ⟨fun _ => 7⟩ .spudOpen) _ newResponder_holds (by decide)
    obliging_refused
  obtain ⟨_, mgr, find, returnedTwo, holds, _⟩ := @tubeManagerLoopBody_confined minimalCbor
    one obliging (bareHeader ⟨fun _ => 9⟩ .spudOpen) _ holdsOne (by decide) obliging_refused
  rw [returnedOne, Exec.ok_bind, returnedTwo] at stored
  obtain ⟨zero, next⟩ := Prod.mk.inj (Option.some.inj stored)
  rw [holds.lookup] at zero next
  exact ⟨mgr, find, holds, zero, next⟩

def removeFirst (t : Nat) : Attention := ⟨1, t == 0, t == 0⟩

theorem tubeManagerForeach_visits_two : ∃ (mgr : TubeManager) (visited : List Nat)
    (after : TubeManager), mgr.InTable 0 ∧ mgr.InTable 1 ∧
      tubeManagerForeach mgr (attend obliging removeFirst)
        (mgr.table.bcount + mgr.table.nodes.length) = .ok (visited, after) ∧
      visited.Nodup ∧ 0 ∈ visited ∧ 1 ∈ visited ∧ ¬ after.tubes.Live 0 ∧ after.InTable 1 := by
  obtain ⟨mgr, find, holds, zero, next⟩ := exists_twoTubes
  obtain ⟨visited, after, walked, once, _, _, all, holdsAfter, tubes, _⟩ :=
    tubeManagerForeach_visits holds obliging removeFirst (le_refl _)
  have whole := all fun t _ => one_ne_zero
  have gone : after.tubes.cells 0 = none := by
    obtain ⟨cell, found, _⟩ := holds.live _ _ zero
    rw [tubes 0 cell found, if_pos (whole _ _ zero)]
    rfl
  refine ⟨mgr, visited, after, ⟨_, (holds.lookup _).trans (congrArg _ zero)⟩,
    ⟨_, (holds.lookup _).trans (congrArg _ next)⟩, walked, once, whole _ _ zero, whole _ _ next,
    ?_, _, (holdsAfter.lookup ⟨fun _ => 9⟩).trans ?_⟩
  · rintro ⟨cell, found⟩
    cases gone.symm.trans found
  · rw [next]
    simp [removeFirst]

end SpudLib
