import SpudLib.HashTable.Runs

/-!
# Visiting every node of a table

`ls_htable_get_first_node` and `ls_htable_get_next_node` go from node to node;
`ls_htable_walk` calls a function on each.  The function may take the entry it
is called on out of the table: the walk has read the link to the next node by
then, and the chain behind the entry stays as it was.
-/

namespace SpudLib

variable {Key Value State : Type} {hash : Key → UInt32} {cmp : Key → Key → Int}

/-- An `ls_htable_walkfunc`: what it answers, its data afterwards and the table it leaves. -/
abbrev WalkFunc (State Key Value : Type) : Type :=
  State → HTable Key Value → Key → Option Value → Exec (Int × State × HTable Key Value)

/-- A walk under way; `visits` are the entries visited and what the function answered. -/
structure Walk (State Key Value : Type) where
  table : HTable Key Value
  state : State
  count : Nat
  running : Int
  visits : List (Slot Key Value × Int)

namespace HTable

def bucketAt (tbl : HTable Key Value) (index : Nat) : List (HNode Key Value) :=
  if inside : index < tbl.bcount then tbl.buckets ⟨index, inside⟩ else []

def nodeAt (tbl : HTable Key Value) (node : Nat) : Exec (HNode Key Value) :=
  match tbl.nodes.find? (fun p => p.node = node) with
  | none => .error .useAfterFree
  | some p => .ok p

def following (node : Nat) : List (HNode Key Value) → Option (Option (HNode Key Value))
  | [] => none
  | p :: rest => if p.node = node then some rest.head? else following node rest

def nextOf (tbl : HTable Key Value) (node : Nat) : Exec (Option (HNode Key Value)) :=
  match (List.finRange tbl.bcount).findSome? fun bucket => following node (tbl.buckets bucket) with
  | none => .error .useAfterFree
  | some next => .ok next

def firstFrom (tbl : HTable Key Value) (index : Nat) : Option (HNode Key Value) :=
  (List.range' index (tbl.bcount - index)).findSome? fun i => (tbl.bucketAt i).head?

def lsHtableGetFirstNode (tbl : HTable Key Value) : Option (HNode Key Value) := tbl.firstFrom 0

def lsHtableGetNextNode (tbl : HTable Key Value) (cur : Nat) :
    Exec (Option (HNode Key Value)) := do
  let self ← tbl.nodeAt cur
  match ← tbl.nextOf cur with
  | some next => pure (some next)
  | none => pure (tbl.firstFrom ((self.bucket + 1) % 2 ^ 32).toNat)

def traverseFrom (tbl : HTable Key Value) :
    (bound : Nat) → Option (HNode Key Value) → Exec (List (HNode Key Value))
  | _, none => pure []
  | 0, some _ => .error .diverges
  | bound + 1, some cur => do
      let next ← tbl.lsHtableGetNextNode cur.node
      let rest ← traverseFrom tbl bound next
      pure (cur :: rest)

def traverse (tbl : HTable Key Value) (bound : Nat) : Exec (List (HNode Key Value)) :=
  tbl.traverseFrom bound tbl.lsHtableGetFirstNode

/-- The inner loop of `ls_htable_walk`. -/
def walkChain (func : WalkFunc State Key Value) :
    (bound : Nat) → Option Nat → Walk State Key Value → Exec (Walk State Key Value)
  | _, none, walk => pure walk
  | bound, some cur, walk =>
      if walk.running = 0 then pure walk
      else match bound with
        | 0 => .error .diverges
        | bound + 1 => do
            let self ← walk.table.nodeAt cur
            let next ← walk.table.nextOf cur
            let answer ← func walk.state walk.table self.key self.value
            walkChain func bound (next.map HNode.node)
              { table := answer.2.2
                state := answer.2.1
                count := (walk.count + 1) % 2 ^ 32
                running := answer.1
                visits := walk.visits ++ [(self.slot, answer.1)] }

/-- The outer loop of `ls_htable_walk`, from a bucket on. -/
def walkBuckets (func : WalkFunc State Key Value) :
    (bound : Nat) → (index : Nat) → Walk State Key Value → Exec (Walk State Key Value)
  | bound, index, walk =>
      if walk.running ≠ 0 ∧ index < walk.table.bcount then
        match bound with
        | 0 => .error .diverges
        | bound + 1 => do
            let cur := (walk.table.bucketAt index).head?.map HNode.node
            let walk ← walkChain func bound cur walk
            walkBuckets func bound (index + 1) walk
      else pure walk

/-- `ls_htable_walk`, with so much fuel for its loops. -/
def lsHtableWalk (tbl : HTable Key Value) (func : WalkFunc State Key Value) (state : State)
    (bound : Nat) : Exec (Walk State Key Value) :=
  walkBuckets func bound 0 ⟨tbl, state, 0, 1, []⟩

/-- A function that looks at the entry and may have `ls_htable_remove` take it out. -/
def removing (visit : State → HTable Key Value → Key → Option Value → Int × Bool × State) :
    WalkFunc State Key Value := fun state tbl key value => do
  let answer := visit state tbl key value
  if answer.2.1 then
    let removed ← tbl.lsHtableRemove key
    pure (answer.1, answer.2.2, removed.2)
  else pure (answer.1, answer.2.2, tbl)

section Nodes

variable {tbl : HTable Key Value}

theorem bucketAt_val (tbl : HTable Key Value) (bucket : Fin tbl.bcount) :
    tbl.bucketAt bucket = tbl.buckets bucket := by
  rw [bucketAt, dif_pos bucket.isLt]

def nodesFrom (tbl : HTable Key Value) (index : Nat) : List (HNode Key Value) :=
  (List.range' index (tbl.bcount - index)).flatMap tbl.bucketAt

theorem nodesFrom_zero (tbl : HTable Key Value) : tbl.nodesFrom 0 = tbl.nodes := by
  rw [nodesFrom, nodes, Nat.sub_zero, ← List.range_eq_range', ← List.map_coe_finRange_eq_range,
    List.flatMap_map]
  exact List.flatMap_congr fun bucket _ => tbl.bucketAt_val bucket

theorem nodesFrom_succ {index : Nat} (inside : index < tbl.bcount) :
    tbl.nodesFrom index = tbl.bucketAt index ++ tbl.nodesFrom (index + 1) := by
  have count : tbl.bcount - index = tbl.bcount - (index + 1) + 1 := by omega
  rw [nodesFrom, count, List.range'_succ, List.flatMap_cons]
  rfl

theorem nodesFrom_end (tbl : HTable Key Value) {index : Nat} (outside : tbl.bcount ≤ index) :
    tbl.nodesFrom index = [] := by
  rw [nodesFrom, Nat.sub_eq_zero_of_le outside]
  rfl

theorem nodes_split {index : Nat} (inside : index ≤ tbl.bcount) :
    tbl.nodes = (List.range' 0 index).flatMap tbl.bucketAt ++ tbl.nodesFrom index := by
  have indices := @List.range'_append_1 0 index (tbl.bcount - index)
  rw [Nat.zero_add, Nat.add_sub_cancel' inside] at indices
  rw [nodesFrom, ← List.flatMap_append, indices, ← nodesFrom_zero]
  rfl

theorem firstFrom_eq (tbl : HTable Key Value) (index : Nat) :
    tbl.firstFrom index = (tbl.nodesFrom index).head? := by
  rw [firstFrom, nodesFrom, List.head?_flatMap]

theorem mem_bucketAt {index : Nat} {p : HNode Key Value} (member : p ∈ tbl.bucketAt index) :
    ∃ inside : index < tbl.bcount, p ∈ tbl.buckets ⟨index, inside⟩ := by
  unfold bucketAt at member
  split at member
  next inside => exact ⟨inside, member⟩
  next => cases member

end Nodes

section Links

variable {tbl : HTable Key Value} {p : HNode Key Value}

theorem following_absent {node : Nat} {chain : List (HNode Key Value)}
    (absent : ∀ q ∈ chain, q.node ≠ node) : following node chain = none := by
  induction chain with
  | nil => rfl
  | cons q rest inductionHypothesis =>
    rw [following, if_neg (absent q List.mem_cons_self)]
    exact inductionHypothesis fun other member => absent other (List.mem_cons_of_mem q member)

theorem following_found {front back : List (HNode Key Value)}
    (once : ∀ q ∈ front, q.node ≠ p.node) :
    following p.node (front ++ p :: back) = some back.head? := by
  induction front with
  | nil => simp [following]
  | cons q rest inductionHypothesis =>
    rw [List.cons_append, following, if_neg (once q List.mem_cons_self)]
    exact inductionHypothesis fun other member => once other (List.mem_cons_of_mem q member)

theorem WellFormed.nodeAt (wf : tbl.WellFormed) (member : p ∈ tbl.nodes) :
    tbl.nodeAt p.node = .ok p := by
  rw [HTable.nodeAt, find_address wf.addresses member]

theorem WellFormed.nextOf (wf : tbl.WellFormed) {bucket : Fin tbl.bcount}
    {front back : List (HNode Key Value)} (split : tbl.buckets bucket = front ++ p :: back) :
    tbl.nextOf p.node = .ok back.head? := by
  have inside : p ∈ tbl.buckets bucket := by
    rw [split]
    simp
  have elsewhere : ∀ other, other ≠ bucket → ∀ q ∈ tbl.buckets other, q.node ≠ p.node := by
    intro other different q member same
    have unique := List.inj_on_of_nodup_map wf.addresses (mem_nodes.mpr ⟨other, member⟩)
      (mem_nodes.mpr ⟨bucket, inside⟩) same
    subst unique
    have first := (wf.placed other q member).2.1
    have second := (wf.placed bucket q inside).2.1
    exact different (Fin.ext (first.symm.trans second))
  have once := once_of_addresses wf.addresses split
  have found : (List.finRange tbl.bcount).findSome?
      (fun other => following p.node (tbl.buckets other)) = some back.head? := by
    obtain ⟨before, behind, all⟩ := List.append_of_mem (List.mem_finRange bucket)
    have distinct := List.nodup_finRange tbl.bcount
    rw [all, List.nodup_append] at distinct
    have early : before.findSome? (fun other => following p.node (tbl.buckets other)) = none := by
      rw [List.findSome?_eq_none_iff]
      intro other member
      apply following_absent
      apply elsewhere
      exact distinct.2.2 other member bucket List.mem_cons_self
    rw [all, List.findSome?_append, early, Option.none_or, List.findSome?_cons, split,
      following_found once]
  rw [HTable.nextOf, found]

/-- After the last node of a chain comes the first of the chains behind it. -/
theorem WellFormed.getNextNode (wf : tbl.WellFormed) {front back : List (HNode Key Value)}
    (split : tbl.nodes = front ++ p :: back) :
    tbl.lsHtableGetNextNode p.node = .ok back.head? := by
  have member : p ∈ tbl.nodes := by
    rw [split]
    simp
  obtain ⟨bucket, inside⟩ := mem_nodes.mp member
  obtain ⟨early, late, chain⟩ := List.append_of_mem inside
  have small := wf.small
  have within := bucket.isLt
  have whole : tbl.nodes = ((List.range' 0 bucket).flatMap tbl.bucketAt ++ early) ++
      p :: (late ++ tbl.nodesFrom (bucket + 1)) := by
    rw [nodes_split (Nat.le_of_lt within), nodesFrom_succ within, bucketAt_val, chain]
    simp
  have behind : back = late ++ tbl.nodesFrom (bucket + 1) := by
    have distinct := List.Nodup.of_map HNode.node wf.addresses
    rw [split, List.nodup_append, List.nodup_cons] at distinct
    obtain ⟨_, ⟨notBack, _⟩, apart⟩ := distinct
    have notFront : p ∉ front := fun early => apart p early p List.mem_cons_self rfl
    exact ((List.append_cons_inj_of_notMem notFront notBack).mp (split.symm.trans whole)).2.2
  have stored := (wf.placed bucket p inside).2.2
  rw [asInt_of_lt (by omega)] at stored
  have later : ((p.bucket + 1) % 2 ^ 32).toNat = bucket.val + 1 := by
    rw [stored]
    omega
  simp only [lsHtableGetNextNode, wf.nodeAt member, wf.nextOf chain, Exec.ok_bind, later,
    firstFrom_eq, behind]
  cases late with
  | nil => rfl
  | cons q rest => rfl

theorem WellFormed.traverseFrom (wf : tbl.WellFormed) {front back : List (HNode Key Value)}
    (split : tbl.nodes = front ++ back) {bound : Nat} (enough : back.length ≤ bound) :
    tbl.traverseFrom bound back.head? = .ok back := by
  induction back generalizing front bound with
  | nil => simp [HTable.traverseFrom]
  | cons p rest inductionHypothesis =>
    cases bound with
    | zero => cases enough
    | succ bound =>
      have onward : tbl.nodes = (front ++ [p]) ++ rest := by
        rw [split, List.append_assoc]
        rfl
      have followed := inductionHypothesis onward (Nat.le_of_succ_le_succ enough)
      simp only [List.head?_cons, HTable.traverseFrom, wf.getNextNode split, Exec.ok_bind,
        followed, Exec.pure_eq_ok]

theorem WellFormed.traverse (wf : tbl.WellFormed) {bound : Nat}
    (enough : tbl.nodes.length ≤ bound) : tbl.traverse bound = .ok tbl.nodes := by
  rw [HTable.traverse, lsHtableGetFirstNode, firstFrom_eq, nodesFrom_zero]
  exact @WellFormed.traverseFrom _ _ _ wf [] _ rfl _ enough

end Links

end HTable

/-- Entries visited in order until the function answers 0; `running` is its last answer. -/
inductive Visits : List (Slot Key Value) → List (Slot Key Value × Int) → Int → Prop where
  | nil {running} : running ≠ 0 → Visits [] [] running
  | stop {slot rest} : Visits (slot :: rest) [(slot, 0)] 0
  | more {slot rest answer visits running} : answer ≠ 0 → Visits rest visits running →
      Visits (slot :: rest) ((slot, answer) :: visits) running

namespace Visits

variable {slots others : List (Slot Key Value)} {visits later : List (Slot Key Value × Int)}
  {running last : Int}

theorem append (first : Visits slots visits running) (goes : running ≠ 0)
    (second : Visits others later last) : Visits (slots ++ others) (visits ++ later) last := by
  induction first with
  | nil _ => exact second
  | stop => exact absurd rfl goes
  | more answer _ inductionHypothesis => exact .more answer (inductionHypothesis goes)

theorem stopped (first : Visits slots visits running) (stops : running = 0)
    (others : List (Slot Key Value)) : Visits (slots ++ others) visits 0 := by
  induction first with
  | nil goes => exact absurd stops goes
  | stop => exact .stop
  | more answer _ inductionHypothesis => exact .more answer (inductionHypothesis stops)

theorem prefixed (seen : Visits slots visits running) : visits.map Prod.fst <+: slots := by
  induction seen with
  | nil _ => exact List.prefix_refl []
  | stop => exact (List.prefix_append [_] _)
  | more _ _ inductionHypothesis => exact (List.prefix_cons_inj _).mpr inductionHypothesis

theorem whole (seen : Visits slots visits running) (goes : ∀ visit ∈ visits, visit.2 ≠ 0) :
    visits.map Prod.fst = slots := by
  induction seen with
  | nil _ => rfl
  | stop => exact absurd rfl (goes _ List.mem_cons_self)
  | more _ _ inductionHypothesis =>
    rw [List.map_cons, inductionHypothesis fun visit member =>
      goes visit (List.mem_cons_of_mem _ member)]

theorem last_zero (seen : Visits slots visits running) :
    ∀ front visit back, visits = front ++ visit :: back → visit.2 = 0 → back = [] := by
  induction seen with
  | nil _ =>
    intro front visit back same
    exact absurd same (by simp)
  | stop =>
    intro front visit back same _
    cases front with
    | nil => exact (List.cons.inj same).2.symm
    | cons head tail => exact absurd (List.cons.inj same).2 (by simp)
  | more answer _ inductionHypothesis =>
    intro front visit back same zero
    cases front with
    | nil =>
      cases same
      exact absurd zero answer
    | cons head tail => exact inductionHypothesis tail visit back (List.cons.inj same).2 zero

end Visits

namespace HTable

/-- A walk of `origin` has `rest` of a bucket before it, and all buckets behind that. -/
structure Ahead (origin tbl : HTable Key Value) (index : Nat) (rest : List (HNode Key Value)) :
    Prop where
  wf : tbl.WellFormed
  hash : tbl.hash = origin.hash
  cmp : tbl.cmp = origin.cmp
  bcount : tbl.bcount = origin.bcount
  here : ∃ done, tbl.bucketAt index = done ++ rest
  later : ∀ other, index < other → tbl.bucketAt other = origin.bucketAt other

section Walk

variable {origin tbl : HTable Key Value} {index : Nat} {rest : List (HNode Key Value)}
  {p : HNode Key Value}

theorem bucketAt_shortened (tbl : HTable Key Value) (bucket : Fin tbl.bcount)
    (chain : List (HNode Key Value)) (count other : Nat) :
    (tbl.shortened bucket chain count).bucketAt other =
      if other = bucket then chain else tbl.bucketAt other := by
  by_cases same : other = bucket
  · subst same
    rw [if_pos rfl]
    have self : Function.update tbl.buckets bucket chain ⟨bucket, bucket.isLt⟩ = chain :=
      Function.update_self bucket chain tbl.buckets
    exact (dif_pos bucket.isLt).trans self
  · rw [if_neg same]
    by_cases inside : other < tbl.bcount
    · have different : (⟨other, inside⟩ : Fin tbl.bcount) ≠ bucket :=
        fun equal => same (congrArg Fin.val equal)
      have kept : Function.update tbl.buckets bucket chain ⟨other, inside⟩ =
          tbl.buckets ⟨other, inside⟩ := Function.update_of_ne different chain tbl.buckets
      have old : tbl.bucketAt other = tbl.buckets ⟨other, inside⟩ := dif_pos inside
      rw [old, ← kept]
      exact dif_pos inside
    · have old : tbl.bucketAt other = [] := dif_neg inside
      rw [old]
      exact dif_neg inside

/-- The function leaves what is ahead of the entry it is called on. -/
theorem Ahead.visited (lawful : LawfulKeys origin.hash origin.cmp)
    (ahead : origin.Ahead tbl index (p :: rest))
    (visit : State → HTable Key Value → Key → Option Value → Int × Bool × State) (state : State) :
    ∃ answer, removing visit state tbl p.key p.value = .ok answer ∧
      origin.Ahead answer.2.2 index rest := by
  obtain ⟨done, chain⟩ := ahead.here
  have onward : origin.Ahead tbl index rest := by
    refine ⟨ahead.wf, ahead.hash, ahead.cmp, ahead.bcount, ⟨done ++ [p], ?_⟩, ahead.later⟩
    rw [chain, List.append_assoc]
    rfl
  unfold removing
  by_cases removes : (visit state tbl p.key p.value).2.1 = true
  · have own : LawfulKeys tbl.hash tbl.cmp := by
      rw [ahead.hash, ahead.cmp]
      exact lawful
    have inside : p ∈ tbl.bucketAt index := by
      rw [chain]
      simp
    obtain ⟨within, member⟩ := mem_bucketAt inside
    have split : tbl.buckets ⟨index, within⟩ = done ++ p :: rest := by
      rw [← chain, bucketAt, dif_pos within]
    obtain ⟨found, search, finds⟩ := findNode_ok own ahead.wf p.key
    have stored := mem_nodes.mpr ⟨_, member⟩
    cases found with
    | none => exact absurd (own.equivalence.refl p.key) (finds p stored)
    | some q =>
      have same := eq_of_equivalent own ahead.wf stored finds.1 finds.2
      subst same
      obtain ⟨count, removed, counted⟩ := lsHtableRemoveNode_eq ahead.wf.sized split
      let after := tbl.shortened ⟨index, within⟩ (done ++ rest) count
      have left : origin.Ahead after index rest := by
        refine ⟨ahead.wf.shortened own split counted, ahead.hash, ahead.cmp, ahead.bcount,
          ⟨done, ?_⟩, ?_⟩
        · exact (bucketAt_shortened _ _ _ _ _).trans (if_pos rfl)
        · intro other behind
          rw [← ahead.later other behind]
          exact (bucketAt_shortened _ _ _ _ _).trans (if_neg (Nat.ne_of_gt behind))
      let answer := visit state tbl p.key p.value
      refine ⟨(answer.1, answer.2.2, after), ?_, left⟩
      simp only [removes, if_true, lsHtableRemove, search, Exec.ok_bind, removed,
        Exec.pure_eq_ok]
      rfl
  · exact ⟨_, if_neg removes, onward⟩

theorem Ahead.read (ahead : origin.Ahead tbl index (p :: rest)) :
    tbl.nodeAt p.node = .ok p ∧ tbl.nextOf p.node = .ok rest.head? := by
  obtain ⟨done, chain⟩ := ahead.here
  have inside : p ∈ tbl.bucketAt index := by
    rw [chain]
    simp
  obtain ⟨within, member⟩ := mem_bucketAt inside
  have split : tbl.buckets ⟨index, within⟩ = done ++ p :: rest := by
    rw [← chain, bucketAt, dif_pos within]
  exact ⟨ahead.wf.nodeAt (mem_nodes.mpr ⟨_, member⟩), ahead.wf.nextOf split⟩

theorem Ahead.done (ahead : origin.Ahead tbl index rest) : origin.Ahead tbl index [] := by
  obtain ⟨done, chain⟩ := ahead.here
  refine ⟨ahead.wf, ahead.hash, ahead.cmp, ahead.bcount, ⟨done ++ rest, ?_⟩, ahead.later⟩
  rw [chain, List.append_nil]

theorem Ahead.onward (ahead : origin.Ahead tbl index rest) :
    origin.Ahead tbl (index + 1) (origin.bucketAt (index + 1)) := by
  refine ⟨ahead.wf, ahead.hash, ahead.cmp, ahead.bcount, ⟨[], ?_⟩, ?_⟩
  · rw [ahead.later (index + 1) (Nat.lt_succ_self index), List.nil_append]
  · intro other behind
    exact ahead.later other (Nat.lt_of_succ_lt behind)

theorem walkChain_stopped (func : WalkFunc State Key Value) (bound : Nat) (cur : Option Nat)
    {walk : Walk State Key Value} (stopped : walk.running = 0) :
    walkChain func bound cur walk = .ok walk := by
  cases cur with
  | none => cases bound <;> rfl
  | some cur => cases bound <;> simp [walkChain, stopped]

variable {walk : Walk State Key Value}
  {visit : State → HTable Key Value → Key → Option Value → Int × Bool × State}

/-- The inner loop visits what is left of the chain. -/
theorem walkChain_ok (lawful : LawfulKeys origin.hash origin.cmp)
    (ahead : origin.Ahead walk.table index rest) (goes : walk.running ≠ 0)
    (counted : walk.count = walk.visits.length % 2 ^ 32) {bound : Nat}
    (enough : rest.length ≤ bound) :
    ∃ after visits,
      walkChain (removing visit) bound (rest.head?.map HNode.node) walk = .ok after ∧
      origin.Ahead after.table index [] ∧ after.visits = walk.visits ++ visits ∧
      Visits (rest.map HNode.slot) visits after.running ∧
      after.count = after.visits.length % 2 ^ 32 := by
  induction rest generalizing walk bound with
  | nil =>
    refine ⟨walk, [], ?_, ahead, by simp, .nil goes, counted⟩
    cases bound <;> rfl
  | cons p rest inductionHypothesis =>
    obtain ⟨self, next⟩ := ahead.read
    obtain ⟨answer, called, left⟩ := ahead.visited lawful visit walk.state
    cases bound with
    | zero => cases enough
    | succ bound =>
      let middle : Walk State Key Value :=
        { table := answer.2.2
          state := answer.2.1
          count := (walk.count + 1) % 2 ^ 32
          running := answer.1
          visits := walk.visits ++ [(p.slot, answer.1)] }
      have stepped : walkChain (removing visit) (bound + 1) (some p.node) walk =
          walkChain (removing visit) bound (rest.head?.map HNode.node) middle := by
        simp only [walkChain, if_neg goes, self, next, Exec.ok_bind, called]
        rfl
      have middleCounted : middle.count = middle.visits.length % 2 ^ 32 := by
        simp only [middle, counted, List.length_append, List.length_singleton]
        omega
      rw [List.head?_cons, Option.map_some, stepped]
      by_cases stops : answer.1 = 0
      · refine ⟨middle, [(p.slot, 0)], walkChain_stopped _ _ _ stops, left.done, ?_, ?_,
          middleCounted⟩
        · simp only [middle, stops]
        · rw [show middle.running = 0 from stops]
          exact .stop
      · obtain ⟨after, visits, returned, reached, seen, ordered, afterCounted⟩ :=
          inductionHypothesis (show origin.Ahead middle.table index rest from left) stops
            middleCounted (Nat.le_of_succ_le_succ enough)
        refine ⟨after, (p.slot, answer.1) :: visits, returned, reached, ?_, .more stops ordered,
          afterCounted⟩
        rw [seen]
        simp only [middle, List.append_assoc, List.singleton_append]

/-- The outer loop visits the buckets from `index` on. -/
theorem walkBuckets_ok (lawful : LawfulKeys origin.hash origin.cmp)
    (ahead : origin.Ahead walk.table index (origin.bucketAt index))
    (here : walk.table.bucketAt index = origin.bucketAt index) (goes : walk.running ≠ 0)
    (counted : walk.count = walk.visits.length % 2 ^ 32) {bound : Nat}
    (enough : origin.bcount - index + (origin.nodesFrom index).length ≤ bound) :
    ∃ after visits, walkBuckets (removing visit) bound index walk = .ok after ∧
      after.visits = walk.visits ++ visits ∧
      Visits ((origin.nodesFrom index).map HNode.slot) visits after.running ∧
      after.count = after.visits.length % 2 ^ 32 := by
  induction bound generalizing walk index with
  | zero =>
    have outside : ¬ index < origin.bcount := by omega
    refine ⟨walk, [], ?_, by simp, ?_, counted⟩
    · simp [walkBuckets, ahead.bcount, outside]
    · rw [nodesFrom_end origin (Nat.le_of_not_lt outside)]
      exact .nil goes
  | succ bound inductionHypothesis =>
    by_cases inside : index < origin.bcount
    · rw [nodesFrom_succ inside, List.length_append] at enough
      obtain ⟨middle, visits, walked, reached, seen, ordered, middleCounted⟩ :=
        @walkChain_ok _ _ _ origin index _ walk visit lawful ahead goes counted bound (by omega)
      have stepped : walkBuckets (removing visit) (bound + 1) index walk =
          walkBuckets (removing visit) bound (index + 1) middle := by
        have within : walk.running ≠ 0 ∧ index < walk.table.bcount := by
          rw [ahead.bcount]
          exact ⟨goes, inside⟩
        simp only [walkBuckets, if_pos within, here, walked, Exec.ok_bind]
      rw [stepped, nodesFrom_succ inside, List.map_append]
      by_cases stops : middle.running = 0
      · refine ⟨middle, visits, ?_, seen, ?_, middleCounted⟩
        · cases bound <;> simp [walkBuckets, stops]
        · rw [stops]
          exact ordered.stopped stops _
      · obtain ⟨after, later, returned, more, rest, afterCounted⟩ :=
          inductionHypothesis reached.onward (reached.later _ (Nat.lt_succ_self index)) stops
            middleCounted (by omega)
        refine ⟨after, visits ++ later, returned, ?_, ordered.append stops rest, afterCounted⟩
        rw [more, seen, List.append_assoc]
    · refine ⟨walk, [], ?_, by simp, ?_, counted⟩
      · simp [walkBuckets, ahead.bcount, inside]
      · rw [nodesFrom_end origin (Nat.le_of_not_lt inside)]
        exact .nil goes

end Walk

/-- A walk visits the entries in the order of the nodes. -/
theorem WellFormed.walk {tbl : HTable Key Value} (lawful : LawfulKeys tbl.hash tbl.cmp)
    (wf : tbl.WellFormed)
    (visit : State → HTable Key Value → Key → Option Value → Int × Bool × State) (state : State)
    {bound : Nat} (enough : tbl.bcount + tbl.nodes.length ≤ bound) :
    ∃ walk, tbl.lsHtableWalk (removing visit) state bound = .ok walk ∧
      Visits (tbl.nodes.map HNode.slot) walk.visits walk.running ∧
      walk.count = walk.visits.length := by
  have ahead : tbl.Ahead tbl 0 (tbl.bucketAt 0) :=
    ⟨wf, rfl, rfl, rfl, ⟨[], rfl⟩, fun _ _ => rfl⟩
  obtain ⟨walk, visits, walked, seen, ordered, counted⟩ :=
    @walkBuckets_ok _ _ _ tbl 0 ⟨tbl, state, 0, 1, []⟩ visit lawful ahead rfl one_ne_zero rfl
      bound (by rw [nodesFrom_zero]; omega)
  rw [List.nil_append] at seen
  rw [nodesFrom_zero, ← seen] at ordered
  refine ⟨walk, walked, ordered, ?_⟩
  have length := ordered.prefixed.length_le
  rw [List.length_map, List.length_map, ← wf.exact] at length
  have load := wf.load
  have small := wf.small
  rw [counted, Nat.mod_eq_of_lt (by omega)]

end HTable

namespace Session

/-- The two ways to visit the nodes of a table agree, and visit each node once. -/
def Traversable (State : Type) (tbl : HTable Key Value) : Prop :=
  ∃ yielded enough, (∀ bound, enough ≤ bound → tbl.traverse bound = .ok yielded) ∧
    (∀ p, p ∈ yielded ↔ ∃ bucket, p ∈ tbl.buckets bucket) ∧ (yielded.map HNode.node).Nodup ∧
    ∀ (visit : State → HTable Key Value → Key → Option Value → Int × Bool × State) state bound,
      enough ≤ bound → ∃ walk, tbl.lsHtableWalk (HTable.removing visit) state bound = .ok walk ∧
        walk.count = walk.visits.length ∧
        walk.visits.map Prod.fst <+: yielded.map HNode.slot ∧
        (∀ front visit back, walk.visits = front ++ visit :: back → visit.2 = 0 → back = []) ∧
        ((∀ visit ∈ walk.visits, visit.2 ≠ 0) →
          walk.visits.map Prod.fst = yielded.map HNode.slot)

/-- After every run, going from node to node ends and yields every node once, and a
walk visits the same entries in the same order up to the first that answers 0. -/
theorem run_traverses [DecidableEq Key] (lawful : LawfulKeys hash cmp)
    (start last : Session Key Value) (calls : List (TableCall Key Value))
    (created : start.Created hash cmp) (run : (system Key Value).Run start calls last) :
    Traversable State last.table := by
  have faithful := Faithful.of_run lawful created run
  have own := HTable.Represents.ownLawful faithful
  have wf := HTable.Represents.wf faithful
  refine ⟨last.table.nodes, last.table.bcount + last.table.nodes.length, ?_,
    fun p => HTable.mem_nodes, wf.addresses, ?_⟩
  · intro bound enough
    exact wf.traverse (by omega)
  · intro visit state bound enough
    obtain ⟨walk, walked, ordered, counted⟩ := wf.walk own visit state enough
    exact ⟨walk, walked, counted, ordered.prefixed, ordered.last_zero, ordered.whole⟩

theorem run_traverses_collisions : ∃ last : Session Nat Nat,
    last.table.lsHtableGet 4 = .ok (some 14) ∧ Traversable Unit last.table := by
  obtain ⟨last, run, stored, _⟩ := collisions_run
  exact ⟨last, stored,
    run_traverses parity_lawful oneBucket last collisions oneBucket_created run⟩

end Session

end SpudLib
