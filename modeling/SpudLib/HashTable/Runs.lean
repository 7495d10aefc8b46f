import SpudLib.HashTable.FiniteMap

/-!
# Runs of a hash table

Any sequence of calls on a table just created, with any allocation refused,
leaves a table that answers as the finite map replayed from the calls that
succeeded.
-/

namespace SpudLib

variable {Key Value : Type} {hash : Key → UInt32} {cmp : Key → Key → Int}

inductive TableCall (Key Value : Type) where
  | put (key : Key) (value : Option Value) (cleaner : Option Nat) (calloc : Nat → Bool)
      (malloc : Bool)
  | get (key : Key)
  | getNode (key : Key)
  | remove (key : Key)
  | removeNode (node : Nat)
  | putValue (node : Nat) (value : Option Value) (cleaner : Option Nat)
  | clear

/-- What a call changed for its callers. -/
inductive Change (Key Value : Type) where
  | stored (key : Key) (value : Option Value)
  | dropped (key : Key)
  | cleared

noncomputable def Change.apply (lawful : LawfulKeys hash cmp) (store : lawful.Store Value) :
    Change Key Value → lawful.Store Value
  | .stored key value => store.insert (lawful.classOf key) (key, value)
  | .dropped key => store.erase (lawful.classOf key)
  | .cleared => ∅

noncomputable def replay (lawful : LawfulKeys hash cmp) (past : List (Change Key Value)) :
    lawful.Store Value :=
  past.foldl (Change.apply lawful) ∅

theorem replay_concat (lawful : LawfulKeys hash cmp) (past : List (Change Key Value))
    (change : Change Key Value) :
    replay lawful (past ++ [change]) = change.apply lawful (replay lawful past) := by
  rw [replay, List.foldl_append]
  rfl

/-- A table and what was changed so far; a put that returns false changed nothing. -/
structure Session (Key Value : Type) where
  table : HTable Key Value
  past : List (Change Key Value)

namespace Session

def perform [DecidableEq Key] (session : Session Key Value) :
    TableCall Key Value → Exec (Session Key Value)
  | .put key value cleaner calloc malloc => do
      let answer ← session.table.lsHtablePut key value cleaner calloc malloc
      pure ⟨answer.2.2, if answer.1 then session.past ++ [.stored key value] else session.past⟩
  | .get key => do
      let _ ← session.table.lsHtableGet key
      pure session
  | .getNode key => do
      let _ ← session.table.lsHtableGetNode key
      pure session
  | .remove key => do
      let answer ← session.table.lsHtableRemove key
      pure ⟨answer.2, session.past ++ [.dropped key]⟩
  | .removeNode node => do
      let answer ← session.table.lsHtableRemoveNode node
      let key := (session.table.nodes.find? fun p => p.node = node).map HNode.key
      pure ⟨answer.2, session.past ++ (key.map Change.dropped).toList⟩
  | .putValue node value cleaner => do
      let answer ← session.table.lsHnodePutValue node value cleaner
      let key := (session.table.nodes.find? fun p => p.node = node).map HNode.key
      pure ⟨answer.2, session.past ++ (key.map (Change.stored · value)).toList⟩
  | .clear => pure ⟨session.table.lsHtableClear.2, session.past ++ [.cleared]⟩

/-- A node is one of the table, and no array of `2 ^ 30` buckets can be allocated. -/
def system (Key Value : Type) [DecidableEq Key] :
    System (Session Key Value) (TableCall Key Value) where
  Enabled session
    | .put _ _ _ calloc _ => ∀ size, 2 ^ 30 ≤ size → calloc size = false
    | .removeNode node | .putValue node _ _ => ∃ p ∈ session.table.nodes, p.node = node
    | _ => True
  step := perform

def Created (hash : Key → UInt32) (cmp : Key → Key → Int) (session : Session Key Value) : Prop :=
  session.past = [] ∧ ∃ buckets granted calloc, (∀ size, 2 ^ 30 ≤ size → calloc size = false) ∧
    HTable.lsHtableCreate buckets hash cmp granted calloc = some session.table

variable {lawful : LawfulKeys hash cmp} {session : Session Key Value}

/-- The table represents the map replayed from the past. -/
def Faithful (lawful : LawfulKeys hash cmp) (session : Session Key Value) : Prop :=
  session.table.Represents lawful (replay lawful session.past)

theorem Created.faithful (created : session.Created hash cmp) : session.Faithful lawful := by
  obtain ⟨empty, buckets, granted, calloc, refused, returned⟩ := created
  obtain ⟨wf, noSlots, sameHash, sameCmp⟩ := HTable.lsHtableCreate_ok refused returned
  refine ⟨sameHash, sameCmp, wf, ?_, ?_⟩
  · intro slot member
    rw [noSlots] at member
    cases member
  · intro entry stored
    rw [empty] at stored
    exact absurd stored Finmap.notMem_empty

theorem Faithful.removeNode (faithful : session.Faithful lawful) {p : HNode Key Value}
    (member : p ∈ session.table.nodes) :
    ∃ after calls, session.table.lsHtableRemoveNode p.node = .ok (calls, after) ∧
      after.Represents lawful
        ((Change.dropped p.key).apply lawful (replay lawful session.past)) := by
  obtain ⟨after, returned, wf, slots, sameHash, sameCmp⟩ :=
    HTable.lsHtableRemoveNode_ok faithful.ownLawful faithful.wf member
  exact ⟨after, _, returned, faithful.dropped wf slots sameHash sameCmp⟩

theorem Faithful.clear (faithful : session.Faithful lawful) :
    Faithful lawful ⟨session.table.lsHtableClear.2, session.past ++ [.cleared]⟩ := by
  obtain ⟨wf, noSlots⟩ := HTable.lsHtableClear_ok faithful.wf
  rw [Faithful, replay_concat]
  refine ⟨faithful.hash, faithful.cmp, wf, ?_, ?_⟩
  · intro slot member
    rw [noSlots] at member
    cases member
  · intro entry stored
    exact absurd stored Finmap.notMem_empty

/-- What the table answers is what the map says: for every key the key pointer
and the value stored last for its class, and the number of classes. -/
structure Answers (lawful : LawfulKeys hash cmp) (tbl : HTable Key Value)
    (store : lawful.Store Value) : Prop where
  node : ∀ key, ∃ found, tbl.lsHtableGetNode key = .ok found ∧
    found.map (fun p => (p.key, p.value)) = store.lookup (lawful.classOf key)
  value : ∀ key,
    tbl.lsHtableGet key = .ok ((store.lookup (lawful.classOf key)).bind Prod.snd)
  count : tbl.lsHtableGetCount = store.keys.card

theorem answers_of_represents {tbl : HTable Key Value} {store : lawful.Store Value}
    (represents : tbl.Represents lawful store) : Answers lawful tbl store where
  node key := by
    obtain ⟨found, search, _, agrees⟩ := represents.getNode key
    exact ⟨found, search, agrees⟩
  value := represents.get
  count := represents.getCount

section Calls

variable [DecidableEq Key]

theorem Faithful.put (faithful : session.Faithful lawful) (key : Key) (value : Option Value)
    (cleaner : Option Nat) {calloc : Nat → Bool}
    (refused : ∀ size, 2 ^ 30 ≤ size → calloc size = false) (malloc : Bool) :
    ∃ next, session.perform (.put key value cleaner calloc malloc) = .ok next ∧
      next.Faithful lawful := by
  obtain ⟨found, _, finds, _⟩ := HTable.Represents.getNode faithful key
  cases found with
  | some p =>
    obtain ⟨member, equivalent⟩ := finds
    obtain ⟨after, returned, wf, slots, sameHash, sameCmp⟩ :=
      HTable.lsHtablePut_found faithful.ownLawful faithful.wf member equivalent value cleaner calloc
        malloc
    refine ⟨⟨after, session.past ++ [.stored key value]⟩, by simp [perform, returned], ?_⟩
    have same : lawful.classOf key = lawful.classOf p.key := by
      rw [lawful.classOf_eq, ← faithful.cmp]
      exact equivalent
    rw [Faithful, replay_concat]
    refine faithful.replaced member ⟨p.node, key, value, cleaner⟩ same wf ?_ sameHash
      sameCmp
    rw [slots]
    refine List.map_congr_left fun slot _ => ?_
    by_cases here : slot.node = p.node <;> simp [here]
  | none =>
    obtain ⟨answer, after, returned, wf, slots, _, sameHash, sameCmp⟩ :=
      HTable.lsHtablePut_absent faithful.ownLawful faithful.wf finds value cleaner refused malloc
    rcases slots with ⟨rfl, slots⟩ | ⟨rfl, slots⟩
    · exact ⟨⟨after, session.past⟩, by simp [perform, returned],
        faithful.permuted wf slots sameHash sameCmp⟩
    · refine ⟨⟨after, session.past ++ [.stored key value]⟩, by simp [perform, returned], ?_⟩
      rw [Faithful, replay_concat]
      refine faithful.added ⟨_, key, value, cleaner⟩ ?_ wf slots sameHash sameCmp
      intro stored
      obtain ⟨slot, member, same⟩ := faithful.only _ stored
      obtain ⟨p, inside, rfl⟩ := List.mem_map.mp member
      refine finds p inside ?_
      rw [faithful.cmp]
      exact lawful.classOf_eq.mp same.symm

theorem Faithful.remove (faithful : session.Faithful lawful) (key : Key) :
    ∃ next, session.perform (.remove key) = .ok next ∧ next.Faithful lawful := by
  obtain ⟨found, search, finds, agrees⟩ := HTable.Represents.getNode faithful key
  have searched : session.table.findNode key (-1) 0 = .ok found := search
  cases found with
  | none =>
    refine ⟨⟨session.table, session.past ++ [.dropped key]⟩, ?_, ?_⟩
    · simp [perform, HTable.lsHtableRemove, searched]
    · have absent : lawful.classOf key ∉ replay lawful session.past :=
        Finmap.lookup_eq_none.mp agrees.symm
      rw [Faithful, replay_concat, Change.apply]
      rw [show (replay lawful session.past).erase (lawful.classOf key) =
        replay lawful session.past from ?_]
      · exact faithful
      · refine Finmap.ext_lookup fun entry => ?_
        by_cases here : entry = lawful.classOf key
        · rw [here, Finmap.lookup_erase, ← agrees]
          rfl
        · rw [Finmap.lookup_erase_ne here]
  | some p =>
    obtain ⟨member, equivalent⟩ := finds
    obtain ⟨after, calls, returned, represents⟩ := faithful.removeNode member
    refine ⟨⟨after, session.past ++ [.dropped key]⟩, ?_, ?_⟩
    · simp [perform, HTable.lsHtableRemove, searched, returned]
    · have same : lawful.classOf key = lawful.classOf p.key := by
        rw [lawful.classOf_eq, ← faithful.cmp]
        exact equivalent
      rw [Faithful, replay_concat, Change.apply, same]
      exact represents

theorem Faithful.step (faithful : session.Faithful lawful) {call : TableCall Key Value}
    (enabled : (system Key Value).Enabled session call) :
    ∃ next, session.perform call = .ok next ∧ next.Faithful lawful := by
  cases call with
  | put key value cleaner calloc malloc => exact faithful.put key value cleaner enabled malloc
  | get key =>
    refine ⟨session, ?_, faithful⟩
    rw [perform, HTable.Represents.get faithful key]
    rfl
  | getNode key =>
    obtain ⟨found, search, _⟩ := HTable.Represents.getNode faithful key
    exact ⟨session, by simp [perform, search], faithful⟩
  | remove key => exact faithful.remove key
  | removeNode node =>
    obtain ⟨p, member, rfl⟩ := enabled
    obtain ⟨after, calls, returned, represents⟩ := faithful.removeNode member
    refine ⟨⟨after, session.past ++ [.dropped p.key]⟩, ?_, ?_⟩
    · simp [perform, returned, HTable.find_address faithful.wf.addresses member]
    · rw [Faithful, replay_concat]
      exact represents
  | putValue node value cleaner =>
    obtain ⟨p, member, rfl⟩ := enabled
    obtain ⟨after, returned, wf, slots, sameHash, sameCmp⟩ :=
      HTable.lsHnodePutValue_ok faithful.ownLawful faithful.wf member value cleaner
    refine ⟨⟨after, session.past ++ [.stored p.key value]⟩, ?_, ?_⟩
    · simp [perform, returned, HTable.find_address faithful.wf.addresses member]
    · rw [Faithful, replay_concat]
      refine faithful.replaced member ⟨p.node, p.key, value, cleaner⟩ rfl wf ?_
        sameHash sameCmp
      rw [slots]
      refine List.map_congr_left fun slot inside => ?_
      by_cases here : slot.node = p.node
      · have : slot = p.slot :=
          faithful.node_injective inside (HTable.Represents.mem_slots member) here
        simp [this, HNode.slot]
      · simp [here]
  | clear => exact ⟨_, rfl, faithful.clear⟩

theorem Faithful.of_run {start last : Session Key Value} {calls : List (TableCall Key Value)}
    (lawful : LawfulKeys hash cmp) (created : start.Created hash cmp)
    (run : (system Key Value).Run start calls last) : last.Faithful lawful := by
  refine run.preserves (Faithful lawful) ?_ created.faithful
  intro before call next faithful enabled stepped
  obtain ⟨after, returned, kept⟩ := faithful.step enabled
  cases stepped.symm.trans returned
  exact kept

/-- After every run the table answers as the map replayed from the calls that
succeeded, no call can go wrong, and a put that returns false changes no answer. -/
theorem run_answers (lawful : LawfulKeys hash cmp) (start last : Session Key Value)
    (calls : List (TableCall Key Value)) (created : start.Created hash cmp)
    (run : (system Key Value).Run start calls last) :
    Answers lawful last.table (replay lawful last.past) ∧ (system Key Value).Safe last ∧
      ∀ key value cleaner calloc malloc cleaned after,
        (∀ size, 2 ^ 30 ≤ size → calloc size = false) →
        last.table.lsHtablePut key value cleaner calloc malloc = .ok (false, cleaned, after) →
        Answers lawful after (replay lawful last.past) := by
  have faithful := Faithful.of_run lawful created run
  refine ⟨answers_of_represents faithful, ?_, ?_⟩
  · intro call enabled
    obtain ⟨next, returned, _⟩ := faithful.step enabled
    exact ⟨next, returned⟩
  · intro key value cleaner calloc malloc cleaned after refused returned
    obtain ⟨next, performed, kept⟩ := faithful.put key value cleaner refused malloc
    simp only [perform, returned, Exec.ok_bind, Exec.pure_eq_ok, Except.ok.injEq] at performed
    rw [← performed] at kept
    exact answers_of_represents kept

end Calls

def parity (key : Nat) : UInt32 := if key % 2 = 0 then 0 else 1

def difference (first second : Nat) : Int := first - second

theorem parity_lawful : LawfulKeys parity difference where
  equivalence := by
    refine ⟨fun _ => Int.sub_self _, ?_, ?_⟩
    · intro first second same
      exact Int.sub_eq_zero_of_eq (Int.eq_of_sub_eq_zero same).symm
    · intro first second third same again
      exact Int.sub_eq_zero_of_eq
        ((Int.eq_of_sub_eq_zero same).trans (Int.eq_of_sub_eq_zero again))
  sameHash first second same := by
    rw [Int.ofNat_inj.mp (Int.eq_of_sub_eq_zero same)]

def oneBucket : Session Nat Nat := ⟨⟨parity, difference, 0, 1, by decide, 0, fun _ => [], 0⟩, []⟩

theorem oneBucket_created : oneBucket.Created parity difference := by
  refine ⟨rfl, 1, true, fun size => decide (size < 8), ?_, rfl⟩
  intro size huge
  exact decide_eq_false (by omega)

/-- Four colliding puts, of which the last finds no memory to grow, and a removal. -/
def collisions : List (TableCall Nat Nat) :=
  [.put 0 (some 10) none (fun size => decide (size < 8)) true,
    .put 2 (some 12) none (fun size => decide (size < 8)) true,
    .put 4 (some 14) none (fun size => decide (size < 8)) true,
    .put 6 (some 16) none (fun _ => false) true, .remove 2]

theorem collisions_run : ∃ last, (system Nat Nat).Run oneBucket collisions last ∧
    last.table.lsHtableGet 4 = .ok (some 14) ∧ last.table.lsHtableGet 2 = .ok none := by
  have bounded : ∀ size, 2 ^ 30 ≤ size → decide (size < 8) = false := fun size huge =>
    decide_eq_false (by omega)
  refine System.Run.exists_cons bounded rfl ?_
  refine System.Run.exists_cons bounded rfl ?_
  refine System.Run.exists_cons bounded rfl ?_
  refine System.Run.exists_cons (fun _ _ => rfl) rfl ?_
  refine System.Run.exists_cons trivial rfl ?_
  exact ⟨_, .nil _, rfl, rfl⟩

theorem run_answers_collisions : ∃ last : Session Nat Nat,
    last.table.lsHtableGet 4 = .ok (some 14) ∧
      Answers parity_lawful last.table (replay parity_lawful last.past) ∧
      (system Nat Nat).Safe last := by
  obtain ⟨last, run, stored, _⟩ := collisions_run
  obtain ⟨answers, safe, _⟩ :=
    run_answers parity_lawful oneBucket last collisions oneBucket_created run
  exact ⟨last, stored, answers, safe⟩

end Session

end SpudLib
