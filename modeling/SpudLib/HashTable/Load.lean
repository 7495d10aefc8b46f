import SpudLib.HashTable.Runs

/-!
# The arithmetic of the hash table

The counts of a table stay within 32 bits and every index within an `int`, for
any hash and comparison of keys, as long as no array of `2 ^ 30` buckets can be
allocated.  A full table grows once in a put, and one growth is enough.
-/

namespace SpudLib

namespace HTable

variable {Key Value : Type} {tbl after : HTable Key Value}

/-- The values that the functions compute from the counts are those of unbounded arithmetic. -/
structure Unwrapped (tbl : HTable Key Value) : Prop where
  counted : tbl.count + 1 < 2 ^ 32
  tripled : tbl.bcount * 3 < 2 ^ 32
  doubled : tbl.bcount * 2 + 1 < 2 ^ 32
  resized : tbl.resizeCount + 1 < 2 ^ 32
  uncounted : tbl.nodes ≠ [] → 0 < tbl.count
  indexed : ∀ khash, asInt (tbl.bucketFromKhash khash) = (khash.toNat % tbl.bcount : Nat)

def Indexed (tbl : HTable Key Value) : Prop :=
  ∀ p ∈ tbl.nodes, p.bucket = (p.khash.toNat % tbl.bcount : Nat) ∧ 0 ≤ p.bucket ∧
    p.bucket < tbl.bcount

/-- The table got one more bucket than twice as many. -/
def Resized (tbl after : HTable Key Value) : Prop :=
  after.bcount = 2 * tbl.bcount + 1 ∧ after.resizeCount = tbl.resizeCount + 1

def SameBuckets (tbl after : HTable Key Value) : Prop :=
  after.bcount = tbl.bcount ∧ after.resizeCount = tbl.resizeCount

/-- The numbers are right, and every growth doubled the buckets. -/
structure Measured (tbl : HTable Key Value) : Prop where
  sized : tbl.Sized
  resizes : 2 ^ tbl.resizeCount ≤ tbl.bcount

theorem Measured.resizeCount_lt (measured : tbl.Measured) : tbl.resizeCount < 30 :=
  (Nat.pow_lt_pow_iff_right (by omega)).mp
    (Nat.lt_of_le_of_lt measured.resizes measured.sized.small)

theorem Measured.unwrapped (measured : tbl.Measured) : tbl.Unwrapped := by
  have resizes := measured.resizeCount_lt
  obtain ⟨⟨_, _, _, exact, small, load⟩, _⟩ := measured
  refine ⟨by omega, by omega, by omega, by omega, ?_, ?_⟩
  · intro nonempty
    rw [exact]
    exact List.length_pos_of_ne_nil nonempty
  · intro khash
    have inside := (tbl.bucketFromKhash khash).isLt
    exact asInt_of_lt (by omega)

theorem Measured.indexed (measured : tbl.Measured) : tbl.Indexed := by
  intro p member
  obtain ⟨bucket, inside⟩ := mem_nodes.mp member
  obtain ⟨placed, stored⟩ := measured.sized.placed bucket p inside
  have small := measured.sized.small
  have bucketSmall := bucket.isLt
  rw [asInt_of_lt (by omega)] at stored
  rw [stored, placed]
  exact ⟨rfl, Int.natCast_nonneg _, by omega⟩

theorem Measured.of_sameBuckets (measured : tbl.Measured) (sized : after.Sized)
    (same : SameBuckets tbl after) : after.Measured := by
  refine ⟨sized, ?_⟩
  rw [same.1, same.2]
  exact measured.resizes

theorem Measured.of_resized (measured : tbl.Measured) (sized : after.Sized)
    (resized : Resized tbl after) : after.Measured := by
  refine ⟨sized, ?_⟩
  have resizes := measured.resizes
  rw [resized.1, resized.2, Nat.pow_succ]
  omega

/-- A search returns, and a node of the table if any. -/
theorem findNode_returns (sized : tbl.Sized) (key : Key) :
    ∃ found, tbl.findNode key (-1) 0 = .ok found ∧ ∀ p, found = some p → p ∈ tbl.nodes := by
  refine ⟨_, findNode_eq sized.small key, ?_⟩
  intro p found
  exact mem_nodes.mpr ⟨_, List.mem_of_find?_eq_some found⟩

theorem removeNode_measured (measured : tbl.Measured) {p : HNode Key Value}
    (member : p ∈ tbl.nodes) :
    ∃ calls after, tbl.lsHtableRemoveNode p.node = .ok (calls, after) ∧ after.Measured ∧
      SameBuckets tbl after := by
  obtain ⟨bucket, inside⟩ := mem_nodes.mp member
  obtain ⟨front, back, split⟩ := List.append_of_mem inside
  obtain ⟨count, removed, counted⟩ := lsHtableRemoveNode_eq measured.sized split
  exact ⟨_, _, removed, measured.of_sameBuckets (measured.sized.shortened split counted) ⟨rfl, rfl⟩,
    rfl, rfl⟩

section Put

variable {key : Key} {value : Option Value} {cleaner : Option Nat} {malloc : Bool}

/-- After a refused or granted request for its memory the new node is there or not. -/
theorem putNew_measured (measured : tbl.Measured)
    (room : (tbl.count + 1) * 4 ≤ tbl.bcount * 3) (khash : UInt32) :
    ∃ answer after, tbl.putNew key value cleaner khash malloc = (answer, after) ∧
      after.Measured ∧ SameBuckets tbl after ∧ (answer = true → after.count = tbl.count + 1) := by
  rw [putNew_eq]
  cases malloc with
  | false => exact ⟨false, tbl, rfl, measured, ⟨rfl, rfl⟩, nofun⟩
  | true =>
    exact ⟨true, _, rfl, measured.of_sameBuckets (measured.sized.pushed room) ⟨rfl, rfl⟩,
      ⟨rfl, rfl⟩, fun _ => measured.sized.pushed_count⟩

/-- A put of a key that is not found grows a full table once, and then has room. -/
theorem putAbsent_measured [DecidableEq Key] (measured : tbl.Measured)
    (absent : tbl.findNode key (-1) 0 = .ok none) {calloc : Nat → Bool}
    (refused : ∀ size, 2 ^ 30 ≤ size → calloc size = false) :
    ∃ answer calls after, tbl.lsHtablePut key value cleaner calloc malloc =
        .ok (answer, calls, after) ∧
      after.Measured ∧ (SameBuckets tbl after ∨ Resized tbl after) ∧
      (answer = true → after.count = tbl.count + 1) := by
  obtain ⟨counted, tripled, doubled, resized, _, _⟩ := measured.unwrapped
  have load := measured.sized.load
  have positive := tbl.positive
  have grows : grown tbl.bcount = 2 * tbl.bcount + 1 := by
    rw [grown]
    omega
  simp only [lsHtablePut, findNode_computed measured.sized.small, absent, Exec.ok_bind,
    Nat.mod_eq_of_lt counted, Nat.mod_eq_of_lt tripled, Exec.pure_eq_ok]
  by_cases full : tbl.count + 1 > tbl.bcount * 3 / 4
  · rw [if_pos full, resizeHashtable]
    cases granted : calloc (grown tbl.bcount) with
    | false =>
      exact ⟨false, [], tbl, rfl, measured, .inl ⟨rfl, rfl⟩,
        fun added => absurd added Bool.false_ne_true⟩
    | true =>
      have small : grown tbl.bcount < 2 ^ 30 := by
        by_contra huge
        rw [refused _ (Nat.le_of_not_lt huge)] at granted
        cases granted
      let larger := tbl.enlarged (grown tbl.bcount) (grown_pos _)
      have doubles : Resized tbl larger := ⟨grows, Nat.mod_eq_of_lt resized⟩
      have sized : larger.Sized :=
        measured.sized.enlarged (grown_pos _) (by omega) small
      -- one growth is enough: the table was at most three quarters full
      have room : (larger.count + 1) * 4 ≤ larger.bcount * 3 := by
        change (tbl.count + 1) * 4 ≤ grown tbl.bcount * 3
        omega
      obtain ⟨answer, after, put, kept, same, added⟩ :=
        @putNew_measured _ _ larger key value cleaner malloc (measured.of_resized sized doubles)
          room (tbl.hash key)
      refine ⟨answer, [], after, ?_, kept, .inr ⟨same.1.trans doubles.1, same.2.trans doubles.2⟩,
        added⟩
      change Except.ok ((larger.putNew key value cleaner (tbl.hash key) malloc).1, [],
        (larger.putNew key value cleaner (tbl.hash key) malloc).2) = _
      rw [put]
  · obtain ⟨answer, after, put, kept, same, added⟩ :=
      @putNew_measured _ _ tbl key value cleaner malloc measured (by omega) (tbl.hash key)
    refine ⟨answer, [], after, ?_, kept, .inl same, added⟩
    rw [if_neg full, put]

end Put

end HTable

namespace Session

open HTable

variable {Key Value : Type} [DecidableEq Key] {session : Session Key Value}

/-- What a call does to the number of buckets: a put may grow the table, once. -/
def Grows (call : TableCall Key Value) (tbl after : HTable Key Value) : Prop :=
  SameBuckets tbl after ∨
    (∃ key value cleaner calloc malloc, call = .put key value cleaner calloc malloc) ∧
      Resized tbl after

/-- Every enabled call returns, and keeps the numbers of the table right. -/
theorem measured_step (measured : session.table.Measured) {call : TableCall Key Value}
    (enabled : (system Key Value).Enabled session call) :
    ∃ next, session.perform call = .ok next ∧ next.table.Measured ∧
      Grows call session.table next.table := by
  have sized := measured.sized
  cases call with
  | put key value cleaner calloc malloc =>
    obtain ⟨found, search, inside⟩ := findNode_returns sized key
    cases found with
    | none =>
      obtain ⟨answer, calls, after, put, kept, grows, _⟩ :=
        @putAbsent_measured _ _ _ key value cleaner malloc _ measured search calloc enabled
      refine ⟨⟨after, if answer then session.past ++ [.stored key value] else session.past⟩, ?_,
        kept, ?_⟩
      · simp only [perform, put, Exec.ok_bind, Exec.pure_eq_ok]
      · exact grows.imp_right fun resized => ⟨⟨key, value, cleaner, calloc, malloc, rfl⟩, resized⟩
    | some p =>
      let change : HNode Key Value → HNode Key Value := fun p =>
        { p with value := value, key := key, cleaner := cleaner }
      have same : SameBuckets session.table (session.table.setNode p.node change) := ⟨rfl, rfl⟩
      refine ⟨⟨session.table.setNode p.node change, session.past ++ [.stored key value]⟩, ?_,
        measured.of_sameBuckets (sized.setNode (fun _ => rfl) (fun _ => rfl) fun _ => rfl) same,
        .inl same⟩
      simp only [perform, lsHtablePut, findNode_computed sized.small, search, Exec.ok_bind,
        Exec.pure_eq_ok]
      rfl
  | get key =>
    obtain ⟨found, search, _⟩ := findNode_returns sized key
    exact ⟨session, by simp only [perform, lsHtableGet, search, Exec.ok_bind, Exec.pure_eq_ok],
      measured, .inl ⟨rfl, rfl⟩⟩
  | getNode key =>
    obtain ⟨found, search, _⟩ := findNode_returns sized key
    exact ⟨session, by simp only [perform, lsHtableGetNode, search, Exec.ok_bind, Exec.pure_eq_ok],
      measured, .inl ⟨rfl, rfl⟩⟩
  | remove key =>
    obtain ⟨found, search, inside⟩ := findNode_returns sized key
    cases found with
    | none =>
      refine ⟨⟨session.table, session.past ++ [.dropped key]⟩, ?_, measured, .inl ⟨rfl, rfl⟩⟩
      simp only [perform, lsHtableRemove, search, Exec.ok_bind, Exec.pure_eq_ok]
    | some p =>
      obtain ⟨calls, after, removed, kept, same⟩ := removeNode_measured measured (inside p rfl)
      refine ⟨⟨after, session.past ++ [.dropped key]⟩, ?_, kept, .inl same⟩
      simp only [perform, lsHtableRemove, search, removed, Exec.ok_bind, Exec.pure_eq_ok]
  | removeNode node =>
    obtain ⟨p, member, rfl⟩ := enabled
    obtain ⟨calls, after, removed, kept, same⟩ := removeNode_measured measured member
    exact ⟨_, by simp only [perform, removed, Exec.ok_bind, Exec.pure_eq_ok]; rfl, kept, .inl same⟩
  | putValue node value cleaner =>
    obtain ⟨p, member, rfl⟩ := enabled
    let change : HNode Key Value → HNode Key Value := fun p =>
      { p with value := value, cleaner := cleaner }
    have same : SameBuckets session.table (session.table.setNode p.node change) := ⟨rfl, rfl⟩
    have kept : (session.table.setNode p.node change).Measured :=
      measured.of_sameBuckets (sized.setNode (fun _ => rfl) (fun _ => rfl) fun _ => rfl) same
    refine ⟨⟨session.table.setNode p.node change, session.past ++ [.stored p.key value]⟩, ?_, kept,
      .inl same⟩
    simp only [perform, lsHnodePutValue, find_address sized.addresses member, Exec.ok_bind,
      Exec.pure_eq_ok]
    rfl
  | clear =>
    have same : SameBuckets session.table session.table.lsHtableClear.2 := ⟨rfl, rfl⟩
    exact ⟨_, rfl, measured.of_sameBuckets sized.clear same, .inl same⟩

variable {hash : Key → UInt32} {cmp : Key → Key → Int}

omit [DecidableEq Key] in
theorem Created.measured (created : session.Created hash cmp) : session.table.Measured := by
  obtain ⟨_, buckets, granted, calloc, refused, returned⟩ := created
  obtain ⟨sized, _, resizes, _⟩ := lsHtableCreate_eq refused returned
  refine ⟨sized, ?_⟩
  rw [resizes]
  exact session.table.positive

/-- In every state that a table reaches no count wraps and every node has its index; no call
can go wrong, only a put changes the number of buckets, and a key that is added finds room. -/
theorem run_measures (start last : Session Key Value) (calls : List (TableCall Key Value))
    (created : start.Created hash cmp) (run : (system Key Value).Run start calls last) :
    last.table.Unwrapped ∧ last.table.Indexed ∧ 0 < last.table.bcount ∧
      (system Key Value).Safe last ∧
      (∀ call next, (system Key Value).Enabled last call → last.perform call = .ok next →
        Grows call last.table next.table) ∧
      ∀ key value cleaner calloc malloc cleaned after,
        (∀ size, 2 ^ 30 ≤ size → calloc size = false) →
        last.table.lsHtableGetNode key = .ok none →
        last.table.lsHtablePut key value cleaner calloc malloc = .ok (true, cleaned, after) →
        after.count = last.table.count + 1 ∧ after.count ≤ 3 * after.bcount / 4 := by
  have measured : last.table.Measured := by
    refine run.preserves (fun session => session.table.Measured) ?_ created.measured
    intro before call next kept enabled stepped
    obtain ⟨after, returned, measured, _⟩ := measured_step kept enabled
    cases stepped.symm.trans returned
    exact measured
  refine ⟨measured.unwrapped, measured.indexed, last.table.positive, ?_, ?_, ?_⟩
  · intro call enabled
    obtain ⟨next, returned, _⟩ := measured_step measured enabled
    exact ⟨next, returned⟩
  · intro call next enabled stepped
    obtain ⟨after, returned, _, grows⟩ := measured_step measured enabled
    cases stepped.symm.trans returned
    exact grows
  · intro key value cleaner calloc malloc cleaned after refused absent put
    obtain ⟨answer, calls, later, returned, kept, _, added⟩ :=
      @putAbsent_measured _ _ _ key value cleaner malloc _ measured absent calloc refused
    cases put.symm.trans returned
    have load := kept.sized.load
    exact ⟨added rfl, by omega⟩

/-- A table that starts with one bucket grows at the first put and at the third. -/
theorem run_measures_collisions : ∃ last : Session Nat Nat,
    last.table.bcount = 7 ∧ last.table.resizeCount = 2 ∧ last.table.Unwrapped ∧
      last.table.Indexed := by
  have bounded : ∀ size, 2 ^ 30 ≤ size → decide (size < 8) = false := fun size huge =>
    decide_eq_false (by omega)
  obtain ⟨last, run, buckets, resizes⟩ : ∃ last, (system Nat Nat).Run oneBucket collisions last ∧
      last.table.bcount = 7 ∧ last.table.resizeCount = 2 := by
    refine System.Run.exists_cons bounded rfl ?_
    refine System.Run.exists_cons bounded rfl ?_
    refine System.Run.exists_cons bounded rfl ?_
    refine System.Run.exists_cons (fun _ _ => rfl) rfl ?_
    refine System.Run.exists_cons trivial rfl ?_
    exact ⟨_, .nil _, rfl, rfl⟩
  obtain ⟨unwrapped, indexed, _⟩ := run_measures oneBucket last collisions oneBucket_created run
  exact ⟨last, buckets, resizes, unwrapped, indexed⟩

end Session

end SpudLib
