import SpudLib.HashTable.Table
import Mathlib.Data.List.Perm.Basic
import Mathlib.Data.List.Nodup

/-!
# Tables whose numbers are right

Every node sits in the bucket that its hash selects and says so, the count is
exact, and there are enough buckets.  None of this depends on what the hash and
the comparison of keys are.
-/

namespace SpudLib

theorem asInt_of_lt {value : Nat} (small : value < 2 ^ 31) : asInt value = value := if_pos small

theorem exists_others {Alpha Index : Type} [DecidableEq Index] {indices : List Index}
    (nodup : indices.Nodup) {index : Index} (inside : index ∈ indices)
    (lists : Index → List Alpha) :
    ∃ others, (indices.flatMap lists).Perm (lists index ++ others) ∧ ∀ change,
      (indices.flatMap (Function.update lists index change)).Perm (change ++ others) := by
  refine ⟨(indices.erase index).flatMap lists, ?_, ?_⟩
  · exact (List.perm_cons_erase inside).flatMap_right lists
  · intro change
    have elsewhere : (indices.erase index).flatMap (Function.update lists index change) =
        (indices.erase index).flatMap lists := by
      refine List.flatMap_congr fun other member => ?_
      refine Function.update_of_ne ?_ _ _
      rintro rfl
      exact nodup.not_mem_erase member
    have moved := (List.perm_cons_erase inside).flatMap_right (Function.update lists index change)
    rw [List.flatMap_cons, Function.update_self, elsewhere] at moved
    exact moved

namespace HTable

variable {Key Value : Type} {tbl : HTable Key Value}

theorem mem_nodes {p : HNode Key Value} :
    p ∈ tbl.nodes ↔ ∃ bucket, p ∈ tbl.buckets bucket := by
  simp [nodes]

structure Sized (tbl : HTable Key Value) : Prop where
  placed : ∀ bucket, ∀ p ∈ tbl.buckets bucket,
    p.khash.toNat % tbl.bcount = bucket.val ∧ p.bucket = asInt bucket
  addresses : (tbl.nodes.map HNode.node).Nodup
  bounded : ∀ p ∈ tbl.nodes, p.node < tbl.fresh
  exact : tbl.count = tbl.nodes.length
  small : tbl.bcount < 2 ^ 30
  load : tbl.count * 4 ≤ tbl.bcount * 3

section Find

theorem chainAt_asInt (small : tbl.bcount < 2 ^ 30) (bucket : Fin tbl.bcount) :
    tbl.chainAt (asInt bucket) = .ok (tbl.buckets bucket) := by
  have inside := bucket.isLt
  rw [asInt_of_lt (by omega), chainAt, dif_pos (by simp)]
  rfl

theorem findNode_computed (small : tbl.bcount < 2 ^ 30) (key : Key) :
    tbl.findNode key (asInt (tbl.bucketFromKhash (tbl.hash key))) (tbl.hash key) =
      tbl.findNode key (-1) 0 := by
  have inside := (tbl.bucketFromKhash (tbl.hash key)).isLt
  have natural : ¬ asInt (tbl.bucketFromKhash (tbl.hash key)) < 0 := by
    rw [asInt_of_lt (by omega)]
    omega
  simp [findNode, natural]

theorem findNode_eq (small : tbl.bcount < 2 ^ 30) (key : Key) :
    tbl.findNode key (-1) 0 = .ok ((tbl.buckets (tbl.bucketFromKhash (tbl.hash key))).find?
      fun p => tbl.hash key = p.khash && tbl.cmp key p.key = 0) := by
  simp only [findNode, Int.reduceNeg, Int.reduceLT, ↓reduceIte, chainAt_asInt small, Exec.ok_bind,
    Exec.pure_eq_ok]

end Find

theorem nodes_update (tbl : HTable Key Value) (bucket : Fin tbl.bcount) :
    ∃ others, tbl.nodes.Perm (tbl.buckets bucket ++ others) ∧ ∀ chain,
      ((List.finRange tbl.bcount).flatMap (Function.update tbl.buckets bucket chain)).Perm
        (chain ++ others) :=
  exists_others (List.nodup_finRange _) (List.mem_finRange bucket) tbl.buckets

section SetNode

variable {node : Nat} {change : HNode Key Value → HNode Key Value}

theorem nodes_setNode (tbl : HTable Key Value) (node : Nat)
    (change : HNode Key Value → HNode Key Value) :
    (tbl.setNode node change).nodes =
      tbl.nodes.map fun p => if p.node = node then change p else p := by
  simp only [nodes, setNode, List.map_flatMap]

theorem Sized.setNode (sized : tbl.Sized) (sameNode : ∀ p, (change p).node = p.node)
    (sameKhash : ∀ p, (change p).khash = p.khash)
    (sameBucket : ∀ p, (change p).bucket = p.bucket) : (tbl.setNode node change).Sized := by
  have keptNode : ∀ p, (if p.node = node then change p else p).node = p.node := by
    intro p
    split
    · exact sameNode p
    · rfl
  constructor
  · intro bucket p member
    obtain ⟨old, inside, rfl⟩ := List.mem_map.mp member
    have placed := sized.placed bucket old inside
    split
    · rw [sameKhash, sameBucket]
      exact placed
    · exact placed
  · rw [nodes_setNode, List.map_map]
    rw [show (HNode.node ∘ fun p => if p.node = node then change p else p) =
      (HNode.node : HNode Key Value → Nat) from funext keptNode]
    exact sized.addresses
  · rw [nodes_setNode]
    intro p member
    obtain ⟨old, inside, rfl⟩ := List.mem_map.mp member
    rw [keptNode]
    exact sized.bounded old inside
  · rw [nodes_setNode, List.length_map]
    exact sized.exact
  · exact sized.small
  · exact sized.load

end SetNode

section Grow

/-- Relinking moves a node to the front of the chain its hash selects. -/
theorem foldl_relinkNode_perm {bcount : Nat} (positive : 0 < bcount)
    (moved : List (HNode Key Value)) (buckets : Fin bcount → List (HNode Key Value)) :
    ((List.finRange bcount).flatMap (moved.foldl (relinkNode positive) buckets)).Perm
      (moved.map (fun p => { p with bucket := asInt (p.khash.toNat % bcount) }) ++
        (List.finRange bcount).flatMap buckets) := by
  induction moved generalizing buckets with
  | nil => exact List.Perm.refl _
  | cons p rest inductionHypothesis =>
    let bucket : Fin bcount := ⟨p.khash.toNat % bcount, Nat.mod_lt _ positive⟩
    obtain ⟨others, before, after⟩ :=
      exists_others (List.nodup_finRange bcount) (List.mem_finRange bucket) buckets
    have pushed := (after ({ p with bucket := asInt bucket } :: buckets bucket)).trans
      (before.symm.cons _)
    refine (inductionHypothesis _).trans ?_
    exact ((List.Perm.append_left _ pushed).trans List.perm_middle)

/-- After relinking every node is where its hash says. -/
theorem foldl_relinkNode_placed {bcount : Nat} (positive : 0 < bcount)
    {moved : List (HNode Key Value)} {buckets : Fin bcount → List (HNode Key Value)}
    (placed : ∀ bucket, ∀ p ∈ buckets bucket,
      p.khash.toNat % bcount = bucket.val ∧ p.bucket = asInt bucket) :
    ∀ bucket, ∀ p ∈ moved.foldl (relinkNode positive) buckets bucket,
      p.khash.toNat % bcount = bucket.val ∧ p.bucket = asInt bucket := by
  induction moved generalizing buckets with
  | nil => exact placed
  | cons q rest inductionHypothesis =>
    refine inductionHypothesis ?_
    intro bucket p member
    by_cases here : bucket = ⟨q.khash.toNat % bcount, Nat.mod_lt _ positive⟩
    · subst here
      rw [relinkNode, Function.update_self] at member
      rcases List.mem_cons.mp member with rfl | old
      · exact ⟨rfl, rfl⟩
      · exact placed _ p old
    · rw [relinkNode, Function.update_of_ne here] at member
      exact placed bucket p member

def enlarged (tbl : HTable Key Value) (buckets : Nat) (positive : 0 < buckets) :
    HTable Key Value :=
  { tbl with
    bcount := buckets
    positive := positive
    resizeCount := (tbl.resizeCount + 1) % 2 ^ 32
    buckets := tbl.nodes.foldl (relinkNode positive) fun _ => [] }

variable {buckets : Nat}

theorem enlarged_perm (tbl : HTable Key Value) (positive : 0 < buckets) :
    (tbl.enlarged buckets positive).nodes.Perm
      (tbl.nodes.map fun p => { p with bucket := asInt (p.khash.toNat % buckets) }) := by
  have perm := foldl_relinkNode_perm positive tbl.nodes fun _ => []
  rw [List.flatMap_eq_nil_iff.mpr (fun _ _ => rfl), List.append_nil] at perm
  exact perm

theorem Sized.enlarged (sized : tbl.Sized) (positive : 0 < buckets) (larger : tbl.bcount ≤ buckets)
    (small : buckets < 2 ^ 30) : (tbl.enlarged buckets positive).Sized := by
  have moved := tbl.enlarged_perm positive
  constructor
  · intro bucket p member
    exact foldl_relinkNode_placed positive
      (fun _ _ inside => absurd inside List.not_mem_nil) bucket p member
  · rw [(moved.map HNode.node).nodup_iff, List.map_map]
    exact sized.addresses
  · intro p member
    obtain ⟨old, inside, rfl⟩ := List.mem_map.mp (moved.mem_iff.mp member)
    exact sized.bounded old inside
  · rw [moved.length_eq, List.length_map]
    exact sized.exact
  · exact small
  · have load := sized.load
    change tbl.count * 4 ≤ buckets * 3
    omega

def pushed (tbl : HTable Key Value) (key : Key) (value : Option Value) (cleaner : Option Nat)
    (khash : UInt32) : HTable Key Value :=
  let bucket := tbl.bucketFromKhash khash
  { tbl with
    buckets := Function.update tbl.buckets bucket
      (⟨tbl.fresh, key, value, asInt bucket, khash, cleaner⟩ :: tbl.buckets bucket)
    count := (tbl.count + 1) % 2 ^ 32
    fresh := tbl.fresh + 1 }

variable {key : Key} {value : Option Value} {cleaner : Option Nat} {khash : UInt32}

theorem putNew_eq (tbl : HTable Key Value) (key : Key) (value : Option Value)
    (cleaner : Option Nat) (khash : UInt32) (malloc : Bool) :
    tbl.putNew key value cleaner khash malloc =
      if malloc then (true, tbl.pushed key value cleaner khash) else (false, tbl) := by
  cases malloc <;> rfl

theorem pushed_perm (tbl : HTable Key Value) (key : Key) (value : Option Value)
    (cleaner : Option Nat) (khash : UInt32) :
    (tbl.pushed key value cleaner khash).nodes.Perm
      (⟨tbl.fresh, key, value, asInt (tbl.bucketFromKhash khash), khash, cleaner⟩ ::
        tbl.nodes) := by
  obtain ⟨others, before, replaced⟩ := tbl.nodes_update (tbl.bucketFromKhash khash)
  exact (replaced _).trans (before.symm.cons _)

theorem Sized.pushed_count (sized : tbl.Sized) :
    (tbl.pushed key value cleaner khash).count = tbl.count + 1 := by
  have load := sized.load
  have small := sized.small
  exact Nat.mod_eq_of_lt (by omega)

theorem Sized.pushed (sized : tbl.Sized) (room : (tbl.count + 1) * 4 ≤ tbl.bcount * 3) :
    (tbl.pushed key value cleaner khash).Sized := by
  have grown := tbl.pushed_perm key value cleaner khash
  have counted := @Sized.pushed_count _ _ tbl key value cleaner khash sized
  constructor
  · intro (other : Fin tbl.bcount) p member
    by_cases here : other = tbl.bucketFromKhash khash
    · subst here
      have inside : p ∈ Function.update tbl.buckets (tbl.bucketFromKhash khash) _
        (tbl.bucketFromKhash khash) := member
      rw [Function.update_self] at inside
      rcases List.mem_cons.mp inside with rfl | old
      · exact ⟨rfl, rfl⟩
      · exact sized.placed _ p old
    · have inside : p ∈ Function.update tbl.buckets (tbl.bucketFromKhash khash) _ other := member
      rw [Function.update_of_ne here] at inside
      exact sized.placed other p inside
  · rw [(grown.map HNode.node).nodup_iff, List.map_cons, List.nodup_cons]
    refine ⟨?_, sized.addresses⟩
    intro reused
    obtain ⟨p, member, same⟩ := List.mem_map.mp reused
    exact Nat.ne_of_lt (sized.bounded p member) same
  · intro p member
    change p.node < tbl.fresh + 1
    rcases List.mem_cons.mp (grown.mem_iff.mp member) with rfl | old
    · exact Nat.lt_succ_self _
    · exact Nat.lt_succ_of_lt (sized.bounded p old)
  · rw [counted, grown.length_eq, List.length_cons, sized.exact]
  · exact sized.small
  · rw [counted]
    exact room

end Grow

section Remove

variable {p : HNode Key Value}

theorem find_address (addresses : (tbl.nodes.map HNode.node).Nodup) (member : p ∈ tbl.nodes) :
    tbl.nodes.find? (fun q => q.node = p.node) = some p := by
  cases found : tbl.nodes.find? fun q => q.node = p.node with
  | none =>
    have missing := List.find?_eq_none.mp found p member
    simp at missing
  | some q =>
    have same : q.node = p.node := by simpa using List.find?_some found
    rw [List.inj_on_of_nodup_map addresses (List.mem_of_find?_eq_some found) member same]

theorem unchain_ok {front back : List (HNode Key Value)} (once : ∀ q ∈ front, q.node ≠ p.node) :
    unchain p.node (front ++ p :: back) = .ok (front ++ back) := by
  induction front with
  | nil => simp [unchain]
  | cons q rest inductionHypothesis =>
    have different : q.node ≠ p.node := once q List.mem_cons_self
    have later := inductionHypothesis fun other member => once other (List.mem_cons_of_mem q member)
    simp [unchain, different, later]

theorem once_of_addresses (addresses : (tbl.nodes.map HNode.node).Nodup) {bucket : Fin tbl.bcount}
    {front back : List (HNode Key Value)} (split : tbl.buckets bucket = front ++ p :: back) :
    ∀ q ∈ front, q.node ≠ p.node := by
  obtain ⟨others, before, _⟩ := tbl.nodes_update bucket
  have nodup := (before.map HNode.node).nodup_iff.mp addresses
  rw [split, List.append_assoc, List.map_append, List.nodup_append] at nodup
  intro q early
  exact nodup.2.2 q.node (List.mem_map_of_mem early) p.node (by simp)

def shortened (tbl : HTable Key Value) (bucket : Fin tbl.bcount)
    (chain : List (HNode Key Value)) (count : Nat) : HTable Key Value :=
  { tbl with
    buckets := Function.update tbl.buckets bucket chain
    count := count }

theorem shortened_perm {bucket : Fin tbl.bcount} {front back : List (HNode Key Value)}
    (split : tbl.buckets bucket = front ++ p :: back) (count : Nat) :
    tbl.nodes.Perm (p :: (tbl.shortened bucket (front ++ back) count).nodes) := by
  obtain ⟨others, before, replaced⟩ := tbl.nodes_update bucket
  rw [split, List.append_assoc] at before
  have whole : tbl.nodes.Perm (p :: (front ++ back ++ others)) := by
    apply before.trans
    rw [List.append_assoc]
    exact List.perm_middle
  exact whole.trans (((replaced (front ++ back)).symm).cons p)

theorem lsHtableRemoveNode_eq (sized : tbl.Sized) {bucket : Fin tbl.bcount}
    {front back : List (HNode Key Value)} (split : tbl.buckets bucket = front ++ p :: back) :
    ∃ count, tbl.lsHtableRemoveNode p.node =
        .ok (clean p false true, tbl.shortened bucket (front ++ back) count) ∧
      count + 1 = tbl.count := by
  have inside : p ∈ tbl.buckets bucket := by
    rw [split]
    simp
  obtain ⟨_, stored⟩ := sized.placed bucket p inside
  have small := sized.small
  have bucketSmall := bucket.isLt
  rw [asInt_of_lt (by omega)] at stored
  have once := once_of_addresses sized.addresses split
  have indexed : 0 ≤ p.bucket ∧ p.bucket.toNat < tbl.bcount := by
    rw [stored]
    exact ⟨Int.natCast_nonneg _, bucketSmall⟩
  have here : (⟨p.bucket.toNat, indexed.2⟩ : Fin tbl.bcount) = bucket := by
    apply Fin.ext
    simp [stored]
  have member : p ∈ tbl.nodes := mem_nodes.mpr ⟨bucket, inside⟩
  refine ⟨(tbl.count + (2 ^ 32 - 1)) % 2 ^ 32, ?_, ?_⟩
  · simp only [lsHtableRemoveNode, find_address sized.addresses member, dif_pos indexed, here,
      split, unchain_ok once, Exec.ok_bind, Exec.pure_eq_ok]
    rfl
  · have positive := List.length_pos_of_mem member
    have exact := sized.exact
    have load := sized.load
    omega

theorem Sized.shortened (sized : tbl.Sized) {bucket : Fin tbl.bcount}
    {front back : List (HNode Key Value)} {count : Nat}
    (split : tbl.buckets bucket = front ++ p :: back) (counted : count + 1 = tbl.count) :
    (tbl.shortened bucket (front ++ back) count).Sized := by
  have remaining := shortened_perm split count
  have length : tbl.count = (tbl.shortened bucket (front ++ back) count).nodes.length + 1 := by
    rw [sized.exact, remaining.length_eq, List.length_cons]
  have load := sized.load
  constructor
  · intro (other : Fin tbl.bcount) q laterMember
    have inside : q ∈ Function.update tbl.buckets bucket (front ++ back) other := laterMember
    refine sized.placed other q ?_
    by_cases here : other = bucket
    · rw [here, Function.update_self] at inside
      rw [here, split]
      exact (List.Sublist.append_left (List.sublist_cons_self p back) front).subset inside
    · rw [Function.update_of_ne here] at inside
      exact inside
  · have nodup := (remaining.map HNode.node).nodup_iff.mp sized.addresses
    exact (List.nodup_cons.mp nodup).2
  · intro q laterMember
    exact sized.bounded q (remaining.mem_iff.mpr (List.mem_cons_of_mem p laterMember))
  · change count = _
    omega
  · exact sized.small
  · change count * 4 ≤ tbl.bcount * 3
    omega

end Remove

section Empty

theorem nodes_of_empty {bcount : Nat} :
    (List.finRange bcount).flatMap (fun _ => ([] : List (HNode Key Value))) = [] :=
  List.flatMap_eq_nil_iff.mpr fun _ _ => rfl

theorem sized_of_empty (small : tbl.bcount < 2 ^ 30) (count : tbl.count = 0)
    (empty : tbl.nodes = []) : tbl.Sized := by
  have none : ∀ p, p ∉ tbl.nodes := by
    rw [empty]
    exact fun _ => List.not_mem_nil
  refine ⟨?_, ?_, fun p member => absurd member (none p), ?_, small, ?_⟩
  · intro bucket p member
    exact absurd (mem_nodes.mpr ⟨bucket, member⟩) (none p)
  · rw [empty]
    exact List.nodup_nil
  · rw [empty, count]
    rfl
  · rw [count]
    exact Nat.zero_le _

theorem lsHtableClear_nodes (tbl : HTable Key Value) : tbl.lsHtableClear.2.nodes = [] :=
  nodes_of_empty

theorem Sized.clear (sized : tbl.Sized) : tbl.lsHtableClear.2.Sized :=
  sized_of_empty sized.small rfl tbl.lsHtableClear_nodes

theorem lsHtableCreate_eq {buckets : Int} {hash : Key → UInt32} {cmp : Key → Key → Int}
    {granted : Bool} {calloc : Nat → Bool} (refused : ∀ size, 2 ^ 30 ≤ size → calloc size = false)
    (created : lsHtableCreate buckets hash cmp granted calloc = some tbl) :
    tbl.Sized ∧ tbl.nodes = [] ∧ tbl.resizeCount = 0 ∧ tbl.hash = hash ∧ tbl.cmp = cmp := by
  unfold lsHtableCreate at created
  split at created
  next accepted =>
    cases created
    have small : requested buckets < 2 ^ 30 := by
      by_contra huge
      rw [refused _ (Nat.le_of_not_lt huge), Bool.and_false] at accepted
      cases accepted
    exact ⟨sized_of_empty small rfl nodes_of_empty, nodes_of_empty, rfl, rfl, rfl⟩
  next => cases created

end Empty

end HTable

end SpudLib
