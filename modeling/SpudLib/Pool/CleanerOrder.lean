import SpudLib.Pool.Teardown

/-!
# The order of the cleaners of users

A cleaner of a user is on one list with those of the pages and of the direct
blocks, and each is put before the others.  What is said of the order in which
users' cleaners are called, and of the memory that is still there when they are,
comes down to the one at the head of the list.
-/

namespace SpudLib

def usersOf (cleaners : List (Nat × PoolCleanerCtx)) : List (Nat × PoolCleanerCtx) :=
  cleaners.filter fun cleaner => cleaner.2.isUser

theorem length_le_one_of_reverse {Alpha : Type} {list : List Alpha} (once : list.Nodup)
    (same : list.reverse = list) : list.length ≤ 1 := by
  by_contra long
  have ends : list[0]? = list[list.length - 1]? := by
    calc list[0]? = list.reverse[0]? := by rw [same]
      _ = list[list.length - 1 - 0]? := List.getElem?_reverse (by omega)
  have position := (List.getElem?_inj (by omega) once).mp ends
  omega

theorem PoolEntry.isUser_eq_false {entry : PoolEntry} (other : entry.content.isUser ≠ true) :
    (∃ ctx block header used, entry = .page ctx block header used) ∨
      ∃ ctx block size, entry = .direct ctx block size := by
  cases entry with
  | page ctx block header used => exact .inl ⟨ctx, block, header, used, rfl⟩
  | direct ctx block size => exact .inr ⟨ctx, block, size, rfl⟩
  | user ctx callback arg => exact absurd rfl other

namespace PoolSession

/-- What `ls_pool_destroy` promises users of their cleaners. -/
structure CleanedInOrder (session : PoolSession) (final : World) : Prop where
  /-- They are called in the order in which they were registered. -/
  inOrder : usersOf (calledOf final.trace) = usersOf (registeredOf final.trace)
  /-- None is called after a page or a direct block was freed. -/
  beforehand : ∀ front block back,
    final.trace = session.world.trace ++ (front ++ .freed block :: back) →
    (∃ page ∈ session.world.pageList session.pool, page.2.block = block) ∨
      block ∈ session.world.directBlocks session.pool →
    usersOf (calledOf back) = []

def OnlyNewest (session : PoolSession) : Prop :=
  ∀ cleaner ∈ (session.world.cleanerList session.pool).tail, cleaner.2.isUser = false

section Destroyed

variable {session : PoolSession} {record : LsPool} {entries : List PoolEntry} {final : World}

theorem usersOf_eq_nil {cleaners : List (Nat × PoolCleanerCtx)} :
    usersOf cleaners = [] ↔ ∀ cleaner ∈ cleaners, cleaner.2.isUser = false := by
  simp [usersOf, List.filter_eq_nil_iff]

theorem calledOf_teardowns_tail (entries : List PoolEntry) (pool : Nat) :
    calledOf (teardowns entries ++ [PoolEvent.freed pool]).tail =
      (entries.map PoolEntry.ctxCell).tail := by
  cases entries with
  | nil => rfl
  | cons entry rest =>
    have whole := teardowns_called (entry :: rest)
    have called : teardowns (entry :: rest) =
        .called entry.ctx entry.content :: (teardowns (entry :: rest)).tail := by
      rw [teardowns, List.flatMap_cons, entry.teardown_called]
      rfl
    rw [called] at whole
    rw [called, List.cons_append, List.tail_cons, calledOf_append]
    rw [calledOf, List.filterMap_cons] at whole
    simpa [calledOf] using (List.cons.inj whole).2

/-- The block of an entry that is no user's is freed at once, and then all older cleaners are
called. -/
theorem teardowns_freed_first {entry : PoolEntry} {rest : List PoolEntry}
    (other : entry.content.isUser ≠ true) (represents :
      session.world.Represents session.pool record (entry :: rest)) :
    ∃ front block back, teardowns (entry :: rest) ++ [.freed session.pool] =
        front ++ .freed block :: back ∧
      ((∃ page ∈ session.world.pageList session.pool, page.2.block = block) ∨
        block ∈ session.world.directBlocks session.pool) ∧
      calledOf back = rest.map PoolEntry.ctxCell := by
  have onward : ∀ before, calledOf before = [] →
      calledOf (before ++ teardowns rest ++ [.freed session.pool]) =
        rest.map PoolEntry.ctxCell := by
    intro before silent
    rw [calledOf_append, calledOf_append, silent, teardowns_called]
    simp [calledOf]
  rcases PoolEntry.isUser_eq_false other with ⟨ctx, block, header, used, rfl⟩ |
    ⟨ctx, block, size, rfl⟩
  · refine ⟨[.called ctx ⟨.freePage, header⟩], block, _, rfl, .inl ?_, onward
      [.freed header, .freed ctx] rfl⟩
    rw [represents.pageList_eq]
    exact ⟨(header, ⟨block, record.pageSize, used⟩), List.mem_cons_self, rfl⟩
  · refine ⟨[.called ctx ⟨.lsDataFree, block⟩], block, _, rfl, .inr ?_, onward [.freed ctx] rfl⟩
    rw [represents.directBlocks_eq]
    exact List.mem_cons_self

theorem Accounted.cleanedInOrder_iff (accounted : session.Accounted record entries)
    (trace : final.trace = session.world.trace ++ teardowns entries ++ [.freed session.pool]) :
    session.CleanedInOrder final ↔ session.OnlyNewest := by
  have represents := accounted.kept.represents
  have tornDown := accounted.tornDown trace
  have called : calledOf final.trace = entries.map PoolEntry.ctxCell := by
    rw [trace, calledOf_append, calledOf_append, teardowns_called, accounted.ledger.called]
    simp [calledOf]
  have once : (usersOf (entries.map PoolEntry.ctxCell)).Nodup := by
    have records := tornDown.once
    rw [called] at records
    exact (List.Nodup.of_map _ records).filter _
  have backwards : usersOf (registeredOf final.trace) =
      (usersOf (entries.map PoolEntry.ctxCell)).reverse := by
    rw [← List.reverse_reverse (registeredOf final.trace), ← tornDown.called, called]
    exact List.filter_reverse
  rw [List.append_assoc] at trace
  rw [OnlyNewest, represents.cleanerList_eq, ← usersOf_eq_nil]
  constructor
  · intro promised
    have few : (usersOf (entries.map PoolEntry.ctxCell)).length ≤ 1 := by
      refine length_le_one_of_reverse once ?_
      rw [← backwards, ← promised.inOrder, called]
    cases entries with
    | nil => rfl
    | cons entry rest =>
      by_cases user : entry.content.isUser = true
      · have newest : usersOf ((entry :: rest).map PoolEntry.ctxCell) =
            entry.ctxCell :: usersOf (rest.map PoolEntry.ctxCell) := by
          rw [List.map_cons, usersOf, List.filter_cons_of_pos]
          · rfl
          · exact user
        rw [newest, List.length_cons] at few
        exact List.length_eq_zero_iff.mp (by simpa using few)
      · obtain ⟨front, block, back, split, owned, later⟩ := teardowns_freed_first user represents
        rw [split] at trace
        have silent := promised.beforehand front block back trace owned
        rw [later] at silent
        exact silent
  · intro silent
    constructor
    · rw [backwards, called]
      have few : (usersOf (entries.map PoolEntry.ctxCell)).length ≤ 1 := by
        cases entries with
        | nil => exact Nat.zero_le 1
        | cons entry rest =>
          rw [List.map_cons, usersOf, List.filter_cons]
          have none : List.filter (fun cleaner => cleaner.2.isUser) (rest.map PoolEntry.ctxCell) =
              [] := silent
          rw [none]
          split <;> simp
      generalize usersOf (entries.map PoolEntry.ctxCell) = users at few
      cases users with
      | nil => rfl
      | cons first rest =>
        obtain rfl : rest = [] := List.length_eq_zero_iff.mp (by simpa using few)
        rfl
    · intro front block back same _
      rw [trace] at same
      have split := List.append_cancel_left same
      rw [usersOf_eq_nil] at silent ⊢
      intro cleaner member
      apply silent
      rw [← calledOf_teardowns_tail entries session.pool, split]
      cases front with
      | nil => exact member
      | cons event front =>
        rw [List.cons_append, List.tail_cons, calledOf_append]
        exact List.mem_append_right _ member

end Destroyed

/-- After any requests to a new pool, destroying it keeps the order promised exactly when no
cleaner of a user but the newest of all cleaners was registered. -/
theorem run_cleans_iff (start last : PoolSession) (requests : List PoolRequest)
    (created : start.Created) (run : system.Run start requests last) :
    ∃ final, last.world.lsPoolDestroy last.pool = .ok final ∧
      (last.CleanedInOrder final ↔ last.OnlyNewest) := by
  obtain ⟨record, entries, accounted⟩ := run_accounted created run
  obtain ⟨final, destroyed, trace⟩ := World.lsPoolDestroy_ok accounted.kept.represents
  exact ⟨final, destroyed, accounted.cleanedInOrder_iff trace⟩

theorem run_cleans_iff_newest : ∃ (last : PoolSession) (final : World),
    last.world.lsPoolDestroy last.pool = .ok final ∧ last.CleanedInOrder final ∧
      last.cleaners = [⟨.user 1, 7⟩] := by
  let requests : List PoolRequest := [.malloc 5 [], .malloc 20 [true, true], .addCleaner 1 7 [true]]
  have seen : (use emptyWorld true 8 requests).toOption.map
      (fun last => (last.cleaners, last.world.cleanerList last.pool)) =
        some ([⟨.user 1, 7⟩], [(6, ⟨.user 1, 7⟩), (5, ⟨.lsDataFree, 4⟩), (3, ⟨.freePage, 1⟩)]) := by
    decide +kernel
  obtain ⟨last, used, known⟩ := Exec.exists_of_map _ seen
  obtain ⟨cleaners, list⟩ := Prod.mk.inj known
  obtain ⟨start, created, run⟩ := created_of_use rfl used
  obtain ⟨final, destroyed, exactly⟩ := run_cleans_iff start last requests created run
  refine ⟨last, final, destroyed, exactly.mpr ?_, cleaners⟩
  rw [OnlyNewest, list]
  decide

/-- A block that was allocated last is freed first, and then the two cleaners are called in the
order opposite to the one they were registered in. -/
theorem cleaners_reversed_and_late : ∃ (start last : PoolSession) (final : World), start.Created ∧
    system.Run start [.addCleaner 1 7 [true], .addCleaner 2 8 [true], .malloc 20 [true, true]]
      last ∧
    last.world.lsPoolDestroy last.pool = .ok final ∧
    3 ∈ last.world.directBlocks last.pool ∧
    final.trace = last.world.trace ++ [.called 4 ⟨.lsDataFree, 3⟩, .freed 3, .freed 4,
      .called 2 ⟨.user 2, 8⟩, .freed 2, .called 1 ⟨.user 1, 7⟩, .freed 1, .freed 0] ∧
    usersOf (registeredOf final.trace) = [(1, ⟨.user 1, 7⟩), (2, ⟨.user 2, 8⟩)] ∧
    usersOf (calledOf final.trace) = [(2, ⟨.user 2, 8⟩), (1, ⟨.user 1, 7⟩)] ∧
    ¬ last.CleanedInOrder final := by
  have seen : (use emptyWorld true 0
      [.addCleaner 1 7 [true], .addCleaner 2 8 [true], .malloc 20 [true, true]]).toOption.map
        (fun last => (last.world.directBlocks last.pool, last.world.trace,
          (last.world.lsPoolDestroy last.pool).toOption.map World.trace)) =
      some ([3], [.allocated 0, .allocated 1, .registered 1 ⟨.user 1, 7⟩, .allocated 2,
          .registered 2 ⟨.user 2, 8⟩, .allocated 3, .allocated 4, .registered 4 ⟨.lsDataFree, 3⟩],
        some [.allocated 0, .allocated 1, .registered 1 ⟨.user 1, 7⟩, .allocated 2,
          .registered 2 ⟨.user 2, 8⟩, .allocated 3, .allocated 4, .registered 4 ⟨.lsDataFree, 3⟩,
          .called 4 ⟨.lsDataFree, 3⟩, .freed 3, .freed 4, .called 2 ⟨.user 2, 8⟩, .freed 2,
          .called 1 ⟨.user 1, 7⟩, .freed 1, .freed 0]) := by
    decide +kernel
  obtain ⟨last, used, known⟩ := Exec.exists_of_map _ seen
  simp only [Prod.mk.injEq] at known
  obtain ⟨direct, before, later⟩ := known
  obtain ⟨final, destroyed, trace⟩ := Exec.exists_of_map _ later
  obtain ⟨start, created, run⟩ := created_of_use rfl used
  have whole : final.trace = last.world.trace ++ [.called 4 ⟨.lsDataFree, 3⟩, .freed 3, .freed 4,
      .called 2 ⟨.user 2, 8⟩, .freed 2, .called 1 ⟨.user 1, 7⟩, .freed 1, .freed 0] := by
    rw [trace, before]
    rfl
  have registered : usersOf (registeredOf final.trace) =
      [(1, ⟨.user 1, 7⟩), (2, ⟨.user 2, 8⟩)] := by
    rw [trace]
    decide
  have called : usersOf (calledOf final.trace) = [(2, ⟨.user 2, 8⟩), (1, ⟨.user 1, 7⟩)] := by
    rw [trace]
    decide
  refine ⟨start, last, final, created, run, destroyed, by rw [direct]; decide, whole, registered,
    called, ?_⟩
  intro promised
  have order := promised.inOrder
  rw [called, registered] at order
  revert order
  decide

end PoolSession

end SpudLib
