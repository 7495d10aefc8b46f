import SpudLib.HashTable.Sized
import Mathlib.Data.List.Pairwise

/-!
# Well-formed hash tables

Every node sits in the chain its hash selects, no two keys are equivalent and
the count is exact.  The slots are the content of a table, whatever the chains
look like; each function is described by what it does to the slots.
-/

namespace SpudLib

/-- `cmp == 0` is an equivalence and equivalent keys have one hash. -/
structure LawfulKeys {Key : Type} (hash : Key → UInt32) (cmp : Key → Key → Int) : Prop where
  equivalence : Equivalence fun first second => cmp first second = 0
  sameHash : ∀ first second, cmp first second = 0 → hash first = hash second

namespace HTable

variable {Key Value : Type} {tbl : HTable Key Value}

def slots (tbl : HTable Key Value) : List (Slot Key Value) := tbl.nodes.map HNode.slot

structure WellFormed (tbl : HTable Key Value) : Prop where
  placed : ∀ bucket, ∀ p ∈ tbl.buckets bucket, p.khash = tbl.hash p.key ∧
    p.khash.toNat % tbl.bcount = bucket.val ∧ p.bucket = asInt bucket
  apart : tbl.nodes.Pairwise fun p q => tbl.cmp p.key q.key ≠ 0
  addresses : (tbl.nodes.map HNode.node).Nodup
  bounded : ∀ p ∈ tbl.nodes, p.node < tbl.fresh
  exact : tbl.count = tbl.nodes.length
  small : tbl.bcount < 2 ^ 30
  load : tbl.count * 4 ≤ tbl.bcount * 3

theorem WellFormed.sized (wf : tbl.WellFormed) : tbl.Sized :=
  ⟨fun bucket p member => (wf.placed bucket p member).2, wf.addresses, wf.bounded, wf.exact,
    wf.small, wf.load⟩

theorem WellFormed.hashed (wf : tbl.WellFormed) {p : HNode Key Value} (member : p ∈ tbl.nodes) :
    p.khash = tbl.hash p.key := by
  obtain ⟨bucket, inside⟩ := mem_nodes.mp member
  exact (wf.placed bucket p inside).1

theorem Sized.wellFormed (sized : tbl.Sized) (hashed : ∀ p ∈ tbl.nodes, p.khash = tbl.hash p.key)
    (apart : tbl.nodes.Pairwise fun p q => tbl.cmp p.key q.key ≠ 0) : tbl.WellFormed where
  placed bucket p member :=
    ⟨hashed p (mem_nodes.mpr ⟨bucket, member⟩), sized.placed bucket p member⟩
  apart := apart
  addresses := sized.addresses
  bounded := sized.bounded
  exact := sized.exact
  small := sized.small
  load := sized.load

section Find

def Finds (tbl : HTable Key Value) (key : Key) : Option (HNode Key Value) → Prop
  | none => ∀ p ∈ tbl.nodes, tbl.cmp key p.key ≠ 0
  | some p => p ∈ tbl.nodes ∧ tbl.cmp key p.key = 0

/-- `_find_node` searches one chain, and finds what is anywhere in the table. -/
theorem findNode_ok (lawful : LawfulKeys tbl.hash tbl.cmp) (wf : tbl.WellFormed) (key : Key) :
    ∃ found, tbl.findNode key (-1) 0 = .ok found ∧ tbl.Finds key found := by
  let bucket := tbl.bucketFromKhash (tbl.hash key)
  let matching : HNode Key Value → Bool := fun p =>
    tbl.hash key = p.khash && tbl.cmp key p.key = 0
  refine ⟨(tbl.buckets bucket).find? matching, findNode_eq wf.small key, ?_⟩
  · cases found : (tbl.buckets bucket).find? matching with
    | none =>
      intro p member equivalent
      obtain ⟨other, inside⟩ := mem_nodes.mp member
      obtain ⟨hashed, placed, _⟩ := wf.placed other p inside
      have same : tbl.hash key = p.khash := (lawful.sameHash _ _ equivalent).trans hashed.symm
      have here : p ∈ tbl.buckets bucket := by
        rw [← same] at placed
        rw [show bucket = other from Fin.ext placed]
        exact inside
      have unmatched := List.find?_eq_none.mp found p here
      simp [matching, same, equivalent] at unmatched
    | some p =>
      have member := List.mem_of_find?_eq_some found
      have matched := List.find?_some found
      simp only [matching, Bool.and_eq_true, decide_eq_true_eq] at matched
      exact ⟨mem_nodes.mpr ⟨bucket, member⟩, matched.2⟩

end Find

theorem cmp_ne_symm {cmp : Key → Key → Int} (equivalence : Equivalence fun a b => cmp a b = 0)
    {first second : Key} (different : cmp first second ≠ 0) : cmp second first ≠ 0 :=
  fun same => different (equivalence.symm same)

theorem apart_perm {cmp : Key → Key → Int} (equivalence : Equivalence fun a b => cmp a b = 0)
    {first second : List (HNode Key Value)} (perm : first.Perm second) :
    (first.Pairwise fun p q => cmp p.key q.key ≠ 0) ↔
      second.Pairwise fun p q => cmp p.key q.key ≠ 0 :=
  perm.pairwise_iff (cmp_ne_symm equivalence)

section SetNode

structure KeepsPlace (tbl : HTable Key Value) (node : Nat)
    (change : HNode Key Value → HNode Key Value) : Prop where
  sameNode : ∀ p, (change p).node = p.node
  sameKhash : ∀ p, (change p).khash = p.khash
  sameBucket : ∀ p, (change p).bucket = p.bucket
  sameKey : ∀ p ∈ tbl.nodes, p.node = node → tbl.cmp p.key (change p).key = 0

variable {node : Nat} {change : HNode Key Value → HNode Key Value}

theorem KeepsPlace.map_place (keeps : tbl.KeepsPlace node change) (p : HNode Key Value) :
    (if p.node = node then change p else p).khash = p.khash ∧
      (if p.node = node then change p else p).bucket = p.bucket := by
  split
  · exact ⟨keeps.sameKhash p, keeps.sameBucket p⟩
  · exact ⟨rfl, rfl⟩

theorem WellFormed.setNode (lawful : LawfulKeys tbl.hash tbl.cmp) (wf : tbl.WellFormed)
    (keeps : tbl.KeepsPlace node change) : (tbl.setNode node change).WellFormed := by
  have sameClass : ∀ p ∈ tbl.nodes,
      tbl.cmp p.key (if p.node = node then change p else p).key = 0 := by
    intro p member
    split
    next here => exact keeps.sameKey p member here
    next => exact lawful.equivalence.refl _
  refine (wf.sized.setNode keeps.sameNode keeps.sameKhash keeps.sameBucket).wellFormed ?_ ?_
  · intro p member
    rw [nodes_setNode] at member
    obtain ⟨old, inside, rfl⟩ := List.mem_map.mp member
    rw [(keeps.map_place old).1, wf.hashed inside]
    exact lawful.sameHash _ _ (sameClass old inside)
  · rw [nodes_setNode, List.pairwise_map]
    refine wf.apart.imp_of_mem ?_
    intro p q memberP memberQ different same
    refine different ?_
    have toP := sameClass p memberP
    have toQ := lawful.equivalence.symm (sameClass q memberQ)
    exact lawful.equivalence.trans toP (lawful.equivalence.trans same toQ)

end SetNode

section Grow

variable {buckets : Nat} {calloc : Nat → Bool}

/-- A refused resize changes nothing; a granted one keeps the slots. -/
theorem resizeHashtable_ok (lawful : LawfulKeys tbl.hash tbl.cmp) (wf : tbl.WellFormed)
    (positive : 0 < buckets) (larger : tbl.bcount ≤ buckets)
    (refused : ∀ size, 2 ^ 30 ≤ size → calloc size = false) :
    tbl.resizeHashtable buckets positive calloc = (false, tbl) ∧ calloc buckets = false ∨
      ∃ after, tbl.resizeHashtable buckets positive calloc = (true, after) ∧
        calloc buckets = true ∧ after.WellFormed ∧ after.slots.Perm tbl.slots ∧
        after.bcount = buckets ∧ after.count = tbl.count ∧ after.fresh = tbl.fresh ∧
        after.hash = tbl.hash ∧ after.cmp = tbl.cmp := by
  cases granted : calloc buckets with
  | false => exact .inl ⟨by simp [resizeHashtable, granted], rfl⟩
  | true =>
    right
    have moved := tbl.enlarged_perm positive
    have small : buckets < 2 ^ 30 := by
      by_contra huge
      rw [refused buckets (Nat.le_of_not_lt huge)] at granted
      cases granted
    refine ⟨tbl.enlarged buckets positive, by simp [resizeHashtable, granted, enlarged], rfl, ?_,
      ?_, rfl, rfl, rfl, rfl, rfl⟩
    · refine (wf.sized.enlarged positive larger small).wellFormed ?_ ?_
      · intro p member
        obtain ⟨old, inside, rfl⟩ := List.mem_map.mp (moved.mem_iff.mp member)
        have hashed := wf.hashed inside
        exact hashed
      · refine (apart_perm lawful.equivalence moved).mpr ?_
        rw [List.pairwise_map]
        exact wf.apart
    · have perm := moved.map HNode.slot
      rw [List.map_map] at perm
      exact perm

theorem putNew_ok (lawful : LawfulKeys tbl.hash tbl.cmp) (wf : tbl.WellFormed) {key : Key}
    (absent : ∀ p ∈ tbl.nodes, tbl.cmp key p.key ≠ 0) (room : (tbl.count + 1) * 4 ≤ tbl.bcount * 3)
    (value : Option Value) (cleaner : Option Nat) :
    ∃ after, tbl.putNew key value cleaner (tbl.hash key) true = (true, after) ∧
      after.WellFormed ∧
      after.slots.Perm (⟨tbl.fresh, key, value, cleaner⟩ :: tbl.slots) ∧
      after.hash = tbl.hash ∧ after.cmp = tbl.cmp := by
  have grown := tbl.pushed_perm key value cleaner (tbl.hash key)
  refine ⟨tbl.pushed key value cleaner (tbl.hash key), by simp [putNew_eq], ?_,
    grown.map HNode.slot, rfl, rfl⟩
  refine (wf.sized.pushed room).wellFormed ?_ ?_
  · intro p member
    rcases List.mem_cons.mp (grown.mem_iff.mp member) with rfl | old
    · rfl
    · exact wf.hashed old
  · refine (apart_perm lawful.equivalence grown).mpr ?_
    rw [List.pairwise_cons]
    exact ⟨absent, wf.apart⟩

end Grow

section Remove

variable {p : HNode Key Value}

theorem WellFormed.shortened (lawful : LawfulKeys tbl.hash tbl.cmp) (wf : tbl.WellFormed)
    {bucket : Fin tbl.bcount} {front back : List (HNode Key Value)} {count : Nat}
    (split : tbl.buckets bucket = front ++ p :: back) (counted : count + 1 = tbl.count) :
    (tbl.shortened bucket (front ++ back) count).WellFormed := by
  have remaining := shortened_perm split count
  refine (wf.sized.shortened split counted).wellFormed ?_ ?_
  · intro q laterMember
    exact wf.hashed (remaining.mem_iff.mpr (List.mem_cons_of_mem p laterMember))
  · have apart := (apart_perm lawful.equivalence remaining).mp wf.apart
    exact (List.pairwise_cons.mp apart).2

/-- Removing a node takes its slot away and calls its cleaner. -/
theorem lsHtableRemoveNode_ok (lawful : LawfulKeys tbl.hash tbl.cmp) (wf : tbl.WellFormed)
    (member : p ∈ tbl.nodes) :
    ∃ after, tbl.lsHtableRemoveNode p.node = .ok (clean p false true, after) ∧
      after.WellFormed ∧ tbl.slots.Perm (p.slot :: after.slots) ∧
      after.hash = tbl.hash ∧ after.cmp = tbl.cmp := by
  obtain ⟨bucket, inside⟩ := mem_nodes.mp member
  obtain ⟨front, back, split⟩ := List.append_of_mem inside
  obtain ⟨count, removed, counted⟩ := lsHtableRemoveNode_eq wf.sized split
  exact ⟨_, removed, wf.shortened lawful split counted,
    (shortened_perm split count).map HNode.slot, rfl, rfl⟩

end Remove

theorem wellFormed_of_empty (sized : tbl.Sized) (empty : tbl.nodes = []) :
    tbl.WellFormed ∧ tbl.slots = [] := by
  refine ⟨sized.wellFormed ?_ ?_, ?_⟩
  · rw [empty]
    exact fun p member => absurd member List.not_mem_nil
  · rw [empty]
    exact List.Pairwise.nil
  · rw [slots, empty]
    rfl

theorem lsHtableClear_ok (wf : tbl.WellFormed) :
    tbl.lsHtableClear.2.WellFormed ∧ tbl.lsHtableClear.2.slots = [] :=
  wellFormed_of_empty wf.sized.clear tbl.lsHtableClear_nodes

theorem lsHtableCreate_ok {buckets : Int} {hash : Key → UInt32} {cmp : Key → Key → Int}
    {granted : Bool} {calloc : Nat → Bool} (refused : ∀ size, 2 ^ 30 ≤ size → calloc size = false)
    (created : lsHtableCreate buckets hash cmp granted calloc = some tbl) :
    tbl.WellFormed ∧ tbl.slots = [] ∧ tbl.hash = hash ∧ tbl.cmp = cmp := by
  obtain ⟨sized, empty, _, sameHash, sameCmp⟩ := lsHtableCreate_eq refused created
  obtain ⟨wf, noSlots⟩ := wellFormed_of_empty sized empty
  exact ⟨wf, noSlots, sameHash, sameCmp⟩

theorem lsHnodePutValue_ok (lawful : LawfulKeys tbl.hash tbl.cmp) (wf : tbl.WellFormed)
    {p : HNode Key Value} (member : p ∈ tbl.nodes) (value : Option Value)
    (cleaner : Option Nat) :
    ∃ after, tbl.lsHnodePutValue p.node value cleaner =
        .ok (if p.value.isSome then clean p true false else [], after) ∧
      after.WellFormed ∧
      after.slots = tbl.slots.map (fun slot =>
        if slot.node = p.node then ⟨slot.node, slot.key, value, cleaner⟩ else slot) ∧
      after.hash = tbl.hash ∧ after.cmp = tbl.cmp := by
  let change : HNode Key Value → HNode Key Value := fun p =>
    { p with value := value, cleaner := cleaner }
  have keeps : tbl.KeepsPlace p.node change :=
    ⟨fun _ => rfl, fun _ => rfl, fun _ => rfl, fun q _ _ => lawful.equivalence.refl q.key⟩
  refine ⟨tbl.setNode p.node change, ?_, wf.setNode lawful keeps, ?_, rfl, rfl⟩
  · simp only [lsHnodePutValue, find_address wf.addresses member, Exec.pure_eq_ok]
    rfl
  · rw [slots, nodes_setNode, slots, List.map_map, List.map_map]
    refine List.map_congr_left fun r _ => ?_
    by_cases here : r.node = p.node <;> simp [HNode.slot, change, here]

section Put

theorem eq_of_equivalent (lawful : LawfulKeys tbl.hash tbl.cmp) (wf : tbl.WellFormed)
    {p q : HNode Key Value} (memberP : p ∈ tbl.nodes) (memberQ : q ∈ tbl.nodes)
    (equivalent : tbl.cmp p.key q.key = 0) : p = q := by
  by_contra different
  have symmetric : Std.Symm fun p q : HNode Key Value => tbl.cmp p.key q.key ≠ 0 :=
    ⟨fun _ _ differ => cmp_ne_symm lawful.equivalence differ⟩
  exact wf.apart.forall memberP memberQ different equivalent

variable [DecidableEq Key] {key : Key}

/-- A put of a key that is stored replaces the slot of its class and cleans the old content. -/
theorem lsHtablePut_found (lawful : LawfulKeys tbl.hash tbl.cmp) (wf : tbl.WellFormed)
    {p : HNode Key Value} (member : p ∈ tbl.nodes) (equivalent : tbl.cmp key p.key = 0)
    (value : Option Value) (cleaner : Option Nat) (calloc : Nat → Bool) (malloc : Bool) :
    ∃ after, tbl.lsHtablePut key value cleaner calloc malloc =
        .ok (true, clean p true (decide (p.key ≠ key)), after) ∧
      after.WellFormed ∧
      after.slots = tbl.slots.map (fun slot =>
        if slot.node = p.node then ⟨slot.node, key, value, cleaner⟩ else slot) ∧
      after.hash = tbl.hash ∧ after.cmp = tbl.cmp := by
  obtain ⟨found, search, finds⟩ := findNode_ok lawful wf key
  cases found with
  | none => exact absurd equivalent (finds p member)
  | some q =>
    obtain rfl : q = p := eq_of_equivalent lawful wf finds.1 member
      (lawful.equivalence.trans (lawful.equivalence.symm finds.2) equivalent)
    let change : HNode Key Value → HNode Key Value := fun p =>
      { p with value := value, key := key, cleaner := cleaner }
    have keeps : tbl.KeepsPlace q.node change := by
      refine ⟨fun _ => rfl, fun _ => rfl, fun _ => rfl, ?_⟩
      intro r memberR same
      obtain rfl : r = q := List.inj_on_of_nodup_map wf.addresses memberR member same
      exact lawful.equivalence.symm equivalent
    refine ⟨tbl.setNode q.node change, ?_, wf.setNode lawful keeps, ?_, rfl, rfl⟩
    · simp only [lsHtablePut, findNode_computed wf.small, search, Exec.ok_bind, Exec.pure_eq_ok]
      rfl
    · rw [slots, nodes_setNode, slots, List.map_map, List.map_map]
      refine List.map_congr_left fun r _ => ?_
      by_cases here : r.node = q.node <;> simp [HNode.slot, change, here]

/-- Memory is granted for a new node, and for a larger array if the table is full. -/
def Accepts (tbl : HTable Key Value) (calloc : Nat → Bool) (malloc : Bool) : Prop :=
  malloc = true ∧ (tbl.bcount * 3 / 4 < tbl.count + 1 → calloc (grown tbl.bcount) = true)

instance (tbl : HTable Key Value) (calloc : Nat → Bool) (malloc : Bool) :
    Decidable (tbl.Accepts calloc malloc) := inferInstanceAs (Decidable (_ ∧ (_ → _)))

omit [DecidableEq Key] in
theorem not_accepts_refused {calloc : Nat → Bool} : ¬ tbl.Accepts calloc false :=
  fun accepts => nomatch accepts.1

/-- A put of a new key adds a slot, or is refused and changes no slot. -/
theorem lsHtablePut_absent (lawful : LawfulKeys tbl.hash tbl.cmp) (wf : tbl.WellFormed)
    (absent : ∀ p ∈ tbl.nodes, tbl.cmp key p.key ≠ 0) (value : Option Value)
    (cleaner : Option Nat) {calloc : Nat → Bool}
    (refused : ∀ size, 2 ^ 30 ≤ size → calloc size = false) (malloc : Bool) :
    ∃ answer after, tbl.lsHtablePut key value cleaner calloc malloc = .ok (answer, [], after) ∧
      after.WellFormed ∧
      (answer = false ∧ after.slots.Perm tbl.slots ∨
        answer = true ∧ after.slots.Perm (⟨tbl.fresh, key, value, cleaner⟩ :: tbl.slots)) ∧
      (answer = true ↔ tbl.Accepts calloc malloc) ∧
      after.hash = tbl.hash ∧ after.cmp = tbl.cmp := by
  obtain ⟨found, search, finds⟩ := findNode_ok lawful wf key
  cases found with
  | some p => exact absurd finds.2 (absent p finds.1)
  | none =>
    have small := wf.small
    have load := wf.load
    have positive := tbl.positive
    have counted : (tbl.count + 1) % 2 ^ 32 = tbl.count + 1 := Nat.mod_eq_of_lt (by omega)
    have tripled : tbl.bcount * 3 % 2 ^ 32 = tbl.bcount * 3 := Nat.mod_eq_of_lt (by omega)
    have doubled : grown tbl.bcount = tbl.bcount * 2 + 1 := by
      unfold grown
      omega
    by_cases full : tbl.count + 1 > tbl.bcount * 3 / 4
    · rcases resizeHashtable_ok lawful wf (grown_pos tbl.bcount) (by omega) refused with
        ⟨resized, denied⟩ |
        ⟨larger, resized, granted, largerWf, sameSlots, size, count, fresh, hash, cmp⟩
      · refine ⟨false, tbl, ?_, wf, .inl ⟨rfl, List.Perm.refl _⟩, ?_, rfl, rfl⟩
        · simp only [lsHtablePut, findNode_computed wf.small, search, Exec.ok_bind, counted,
            tripled, if_pos full, resized, Exec.pure_eq_ok]
        · refine iff_of_false Bool.false_ne_true fun accepts => ?_
          rw [accepts.2 full] at denied
          cases denied
      · have stepped : tbl.lsHtablePut key value cleaner calloc malloc =
            .ok ((larger.putNew key value cleaner (tbl.hash key) malloc).1, [],
              (larger.putNew key value cleaner (tbl.hash key) malloc).2) := by
          simp only [lsHtablePut, findNode_computed wf.small, search, Exec.ok_bind, counted,
            tripled, if_pos full, resized, Exec.pure_eq_ok]
        rw [← hash] at stepped
        cases malloc with
        | false =>
          exact ⟨false, larger, stepped, largerWf, .inl ⟨rfl, sameSlots⟩,
            iff_of_false Bool.false_ne_true not_accepts_refused, hash, cmp⟩
        | true =>
          have lawfulLarger : LawfulKeys larger.hash larger.cmp := by
            rw [hash, cmp]
            exact lawful
          have absentLarger : ∀ p ∈ larger.nodes, larger.cmp key p.key ≠ 0 := by
            intro p member
            obtain ⟨q, inside, same⟩ := List.mem_map.mp
              (sameSlots.mem_iff.mp (List.mem_map_of_mem member))
            rw [cmp, ← show q.key = p.key from congrArg Slot.key same]
            exact absent q inside
          obtain ⟨after, put, afterWf, slots, afterHash, afterCmp⟩ :=
            putNew_ok lawfulLarger largerWf absentLarger (by omega) value cleaner
          rw [put] at stepped
          refine ⟨true, after, stepped, afterWf, .inr ⟨rfl, ?_⟩,
            iff_of_true rfl ⟨rfl, fun _ => ?_⟩, afterHash.trans hash, afterCmp.trans cmp⟩
          · rw [← fresh]
            exact slots.trans (sameSlots.cons _)
          · exact granted
    · have stepped : tbl.lsHtablePut key value cleaner calloc malloc =
          .ok ((tbl.putNew key value cleaner (tbl.hash key) malloc).1, [],
            (tbl.putNew key value cleaner (tbl.hash key) malloc).2) := by
        simp only [lsHtablePut, findNode_computed wf.small, search, Exec.ok_bind, counted, tripled,
          if_neg full, Exec.pure_eq_ok]
      cases malloc with
      | false =>
        exact ⟨false, tbl, stepped, wf, .inl ⟨rfl, List.Perm.refl _⟩,
          iff_of_false Bool.false_ne_true not_accepts_refused, rfl, rfl⟩
      | true =>
        obtain ⟨after, put, afterWf, slots, afterHash, afterCmp⟩ :=
          putNew_ok lawful wf absent (by omega) value cleaner
        rw [put] at stepped
        exact ⟨true, after, stepped, afterWf, .inr ⟨rfl, slots⟩,
          iff_of_true rfl ⟨rfl, fun more => absurd more full⟩, afterHash, afterCmp⟩

end Put

end HTable

end SpudLib
