import SpudLib.HashTable.Effects

/-!
# Every association is cleaned once

An association is the key pointer, the value and the cleaner that a put or
`ls_hnode_put_value` stored in a node.  The books of a table number the
associations as they are made and note for every call the associations that
ended with it, so that each can be matched with the cleaner call it is due.
-/

namespace SpudLib

variable {Key Value : Type} {hash : Key → UInt32} {cmp : Key → Key → Int}

structure Association (Key Value : Type) extends Slot Key Value where
  serial : Nat

/-- What one call did: the associations that ended with it, the cleaners it
called and the content it left.  `ls_htable_destroy` is the posting without a call. -/
structure Posting (Key Value : Type) where
  call : Option (TableCall Key Value)
  accepted : Bool
  ended : List (Association Key Value)
  cleaned : List (CleanerCall Key Value)
  content : List (Slot Key Value)

namespace Posting

variable [DecidableEq Key]

def stays (posting : Posting Key Value) (ended : Association Key Value) : Bool :=
  posting.content.any fun slot => slot.node = ended.node

def keeps (posting : Posting Key Value) (ended : Association Key Value) : Bool :=
  posting.content.any fun slot => slot.node = ended.node && slot.key = ended.key

/-- The cleaner call due to an association that ended: none without a cleaner,
nor when `ls_hnode_put_value` wrote over NULL. -/
def due (posting : Posting Key Value) (ended : Association Key Value) :
    Option (CleanerCall Key Value) :=
  if posting.call.any (TableCall.spares ended.toSlot) then none
  else ended.charge (posting.stays ended) (!posting.keeps ended)

/-- The cleaners called are those due to the associations that ended, each
once; a call that failed ended none and called none. -/
structure Settled (posting : Posting Key Value) : Prop where
  cleaned : posting.cleaned.Perm (posting.ended.filterMap posting.due)
  failed : posting.accepted = false → posting.ended = [] ∧ posting.cleaned = []

/-- Seen from the keys of the whole table: the class of the key stays when its
node does, and the key pointer when that node keeps it. -/
def WholeTable (cmp : Key → Key → Int) (posting : Posting Key Value) : Prop :=
  ∀ ended ∈ posting.ended,
    (posting.stays ended = true ↔ ∃ slot ∈ posting.content, cmp ended.key slot.key = 0) ∧
    (posting.keeps ended = true ↔ ∃ slot ∈ posting.content, slot.key = ended.key)

end Posting

/-- A table with the associations that are stored and all that were ever made. -/
structure Books (Key Value : Type) where
  table : HTable Key Value
  live : List (Association Key Value)
  made : List (Association Key Value)
  log : List (Posting Key Value)

namespace Books

theorem filter_live {live : List (Association Key Value)} {slots : List (Slot Key Value)}
    (agrees : (live.map Association.toSlot).Perm slots) (chosen : Slot Key Value → Bool) :
    ((live.filter fun association => chosen association.toSlot).map Association.toSlot).Perm
      (slots.filter chosen) := by
  have filtered := agrees.filter chosen
  rwa [List.filter_map] at filtered

def Opened (hash : Key → UInt32) (cmp : Key → Key → Int) (books : Books Key Value) : Prop :=
  books.live = [] ∧ books.made = [] ∧ books.log = [] ∧ ∃ buckets granted calloc,
    HTable.lsHtableCreate buckets hash cmp granted calloc = some books.table

def closing (books : Books Key Value) : Posting Key Value :=
  ⟨none, true, books.live, books.table.lsHtableDestroy, []⟩

def postings (books : Books Key Value) : List (Posting Key Value) := books.log ++ [books.closing]

theorem Opened.faithful (lawful : LawfulKeys hash cmp) {books : Books Key Value}
    (opened : books.Opened hash cmp) (small : books.table.bcount < 2 ^ 30) :
    Session.Faithful lawful ⟨books.table, []⟩ := by
  obtain ⟨_, _, _, buckets, granted, calloc, created⟩ := opened
  refine Session.Created.faithful ⟨rfl, buckets, granted,
    fun size => calloc size && decide (size < 2 ^ 30), ?_, ?_⟩
  · intro size huge
    beta_reduce
    rw [decide_eq_false (Nat.not_lt.mpr huge), Bool.and_false]
  · unfold HTable.lsHtableCreate at created ⊢
    split at created
    next both =>
      have same := Option.some.inj created
      have fits : HTable.requested buckets < 2 ^ 30 := by
        rw [← same] at small
        exact small
      beta_reduce
      rw [decide_eq_true fits, Bool.and_true, if_pos both, same]
    next => cases created

section System

variable [DecidableEq Key]

def perform (books : Books Key Value) (call : TableCall Key Value) : Exec (Books Key Value) := do
  let answer ← call.answer books.table
  let effect := call.effect books.table answer.accepted
  let begun := effect.stored.toList.map fun slot => ⟨slot, books.made.length⟩
  let ended := books.live.filter fun association => effect.ends association.node
  pure
    { table := answer.table
      live := books.live.filter (fun association => !effect.ends association.node) ++ begun
      made := books.made ++ begun
      log := books.log ++ [⟨some call, answer.accepted, ended, answer.cleaned,
        answer.table.slots⟩] }

/-- The nodes that are passed are nodes of the table. -/
def system (Key Value : Type) [DecidableEq Key] :
    System (Books Key Value) (TableCall Key Value) where
  Enabled books
    | .removeNode node | .putValue node _ _ => ∃ p ∈ books.table.nodes, p.node = node
    | _ => True
  step := perform

/-- Every association made has ended with exactly one posting, and every
posting called the cleaners that were due with it. -/
structure Balanced (books : Books Key Value) : Prop where
  numbered : books.made.map Association.serial = List.range books.made.length
  once : (books.postings.flatMap Posting.ended).Perm books.made
  settled : ∀ posting ∈ books.postings, posting.Settled

structure Kept (books : Books Key Value) : Prop where
  addressed : books.table.Addressed
  live : (books.live.map Association.toSlot).Perm books.table.slots
  numbered : books.made.map Association.serial = List.range books.made.length
  once : (books.log.flatMap Posting.ended ++ books.live).Perm books.made
  settled : ∀ posting ∈ books.log, posting.Settled

theorem Opened.kept {books : Books Key Value} (opened : books.Opened hash cmp) : books.Kept := by
  obtain ⟨noLive, noMade, noLog, buckets, granted, calloc, created⟩ := opened
  have empty : books.table.slots = [] := by
    unfold HTable.lsHtableCreate at created
    split at created
    next =>
      rw [HTable.slots, ← Option.some.inj created]
      exact congrArg (List.map HNode.slot) HTable.nodes_of_empty
    next => cases created
  constructor
  · constructor
    · simp [empty]
    · simp [empty]
  · simp [noLive, empty]
  · simp [noMade]
  · simp [noLog, noLive, noMade]
  · simp [noLog]

section Step

variable {tbl : HTable Key Value} {call : TableCall Key Value} {answer : Answer Key Value}
  {live : List (Association Key Value)}

theorem left_of_ended (performed : call.Performed tbl answer) {ended : Slot Key Value}
    (ends : (call.effect tbl answer.accepted).ends ended.node = true) {slot : Slot Key Value}
    (left : slot ∈ answer.table.slots) (same : slot.node = ended.node) :
    (call.effect tbl answer.accepted).stored = some slot := by
  rcases List.mem_append.mp (performed.on.content.mem_iff.mp left) with old | new
  · have goesOn := (List.mem_filter.mp old).2
    rw [same, ends] at goesOn
    cases goesOn
  · exact Option.mem_toList.mp new

theorem flags_of_ended (performed : call.Performed tbl answer) {ended : Association Key Value}
    (member : ended.toSlot ∈ tbl.slots)
    (ends : (call.effect tbl answer.accepted).ends ended.node = true)
    (others : List (Association Key Value)) :
    Posting.due ⟨some call, answer.accepted, others, answer.cleaned, answer.table.slots⟩ ended =
      (call.effect tbl answer.accepted).due call ended.toSlot := by
  let posting : Posting Key Value :=
    ⟨some call, answer.accepted, others, answer.cleaned, answer.table.slots⟩
  have flags : posting.stays ended = (call.effect tbl answer.accepted).stored.isSome ∧
      (!posting.keeps ended) =
        (call.effect tbl answer.accepted).stored.all fun new => new.key ≠ ended.key := by
    cases stored : (call.effect tbl answer.accepted).stored with
    | none =>
      have gone : ∀ slot ∈ answer.table.slots, slot.node ≠ ended.node := by
        intro slot left same
        have placed := left_of_ended performed ends left same
        rw [stored] at placed
        cases placed
      constructor
      · simpa [Posting.stays, posting] using gone
      · simp only [Posting.keeps, posting, Option.all_none, Bool.not_eq_true', List.any_eq_false,
          Bool.and_eq_true, decide_eq_true_eq, not_and]
        intro slot left same
        exact absurd same (gone slot left)
    | some new =>
      have here := (performed.on.single new stored ended.toSlot member).mp ends
      have inside : new ∈ answer.table.slots := by
        rw [performed.on.content.mem_iff, stored]
        simp
      constructor
      · refine (List.any_eq_true.mpr ⟨new, inside, ?_⟩)
        exact decide_eq_true here.symm
      · by_cases sameKey : new.key = ended.key
        · have keeps : posting.keeps ended = true :=
            List.any_eq_true.mpr ⟨new, inside, by simp [here, sameKey]⟩
          simp [keeps, sameKey]
        · have loses : posting.keeps ended = false := by
            refine List.any_eq_false.mpr fun slot left => ?_
            rw [Bool.and_eq_true, decide_eq_true_eq, decide_eq_true_eq]
            rintro ⟨same, key⟩
            have placed := left_of_ended performed ends left same
            rw [stored] at placed
            cases placed
            exact sameKey key
          simp [loses, sameKey]
  rw [Posting.due, SlotEffect.due, ← flags.1, ← flags.2]
  rfl

/-- The posting of a call is settled. -/
theorem settled_of_performed (performed : call.Performed tbl answer)
    (agrees : (live.map Association.toSlot).Perm tbl.slots) :
    Posting.Settled ⟨some call, answer.accepted,
      live.filter (fun association =>
        (call.effect tbl answer.accepted).ends association.node),
      answer.cleaned, answer.table.slots⟩ := by
  have matched := filter_live agrees fun slot =>
    (call.effect tbl answer.accepted).ends slot.node
  constructor
  · refine performed.cleaned.trans ?_
    refine ((matched.filterMap _).symm).trans (List.Perm.of_eq ?_)
    rw [List.filterMap_map]
    apply List.filterMap_congr
    intro ended member
    obtain ⟨inside, ends⟩ := List.mem_filter.mp member
    exact (flags_of_ended performed (agrees.mem_iff.mp (List.mem_map_of_mem inside)) ends _).symm
  · intro failed
    have nothing := performed.refused failed
    have none := performed.cleaned
    rw [nothing] at none ⊢
    simp only [List.filter_false, List.filterMap_nil, List.perm_nil] at none
    exact ⟨List.filter_eq_nil_iff.mpr (by simp), none⟩

theorem Kept.step {books next : Books Key Value} (kept : books.Kept)
    (returned : books.perform call = .ok next) : next.Kept := by
  obtain ⟨answer, answered, posted⟩ := Exec.bind_eq_ok.mp returned
  cases posted
  have performed := TableCall.performed kept.addressed answered
  let effect := call.effect books.table answer.accepted
  have divided : (books.live.filter (fun association => effect.ends association.node) ++
      books.live.filter fun association => !effect.ends association.node).Perm books.live :=
    List.filter_append_perm _ _
  constructor
  · exact performed.on.addressed kept.addressed
  · refine List.Perm.trans ?_ performed.on.content.symm
    rw [List.map_append, List.map_map]
    apply List.Perm.append
    · exact filter_live kept.live fun slot => !effect.ends slot.node
    · apply List.Perm.of_eq
      exact List.map_id _
  · cases effect.stored with
    | none => simpa using kept.numbered
    | some slot => simp [kept.numbered, List.range_succ]
  · rw [List.flatMap_append, List.flatMap_singleton]
    refine List.Perm.trans ?_ (kept.once.append_right _)
    rw [List.append_assoc, List.append_assoc, ← List.append_assoc (List.filter _ _)]
    exact (divided.append_right _).append_left _
  · intro posting member
    rcases List.mem_append.mp member with old | new
    · exact kept.settled posting old
    · rw [List.mem_singleton.mp new]
      exact settled_of_performed performed kept.live

end Step

theorem Kept.closing {books : Books Key Value} (kept : books.Kept) : books.closing.Settled where
  cleaned := by
    refine List.Perm.trans ?_ ((kept.live.filterMap fun slot => slot.charge false true).symm.trans
      (List.Perm.of_eq ?_))
    · apply List.Perm.of_eq
      change books.table.nodes.flatMap (fun p => HTable.clean p false true) = _
      rw [HTable.slots, List.filterMap_map, List.filterMap_eq_flatMap_toList]
      apply List.flatMap_congr
      intro p _
      exact HTable.clean_eq_charge p false true
    · rw [List.filterMap_map]
      rfl
  failed := nofun

section Lawful

variable {tbl : HTable Key Value} {call : TableCall Key Value} {answer : Answer Key Value}
  {live : List (Association Key Value)}

/-- A slot with an equivalent key that is there afterwards is in the node of
the association that ended. -/
theorem left_equivalent (lawful : LawfulKeys tbl.hash tbl.cmp) (wf : tbl.WellFormed)
    (performed : call.Performed tbl answer) {ended slot : Slot Key Value}
    (member : ended ∈ tbl.slots)
    (ends : (call.effect tbl answer.accepted).ends ended.node = true)
    (left : slot ∈ answer.table.slots) (equivalent : tbl.cmp ended.key slot.key = 0) :
    slot.node = ended.node := by
  rcases List.mem_append.mp (performed.on.content.mem_iff.mp left) with old | new
  · obtain ⟨inside, _⟩ := List.mem_filter.mp old
    rw [HTable.slot_eq_of_equivalent lawful wf member inside equivalent]
  · exact ((performed.on.single slot (Option.mem_toList.mp new) ended member).mp ends).symm

theorem wholeTable_of_performed (lawful : LawfulKeys tbl.hash tbl.cmp) (wf : tbl.WellFormed)
    (addressed : tbl.Addressed) (performed : call.Performed tbl answer)
    (agrees : (live.map Association.toSlot).Perm tbl.slots) :
    Posting.WholeTable tbl.cmp ⟨some call, answer.accepted,
      live.filter (fun association =>
        (call.effect tbl answer.accepted).ends association.node),
      answer.cleaned, answer.table.slots⟩ := by
  intro ended chosen
  obtain ⟨inside, ends⟩ := List.mem_filter.mp chosen
  have member := agrees.mem_iff.mp (List.mem_map_of_mem inside)
  constructor
  · rw [Posting.stays, List.any_eq_true]
    constructor
    · rintro ⟨slot, left, same⟩
      have stored := left_of_ended performed ends left (of_decide_eq_true same)
      exact ⟨slot, left, TableCall.stored_equivalent lawful wf addressed member ends stored⟩
    · rintro ⟨slot, left, equivalent⟩
      have same := left_equivalent lawful wf performed member ends left equivalent
      exact ⟨slot, left, decide_eq_true same⟩
  · rw [Posting.keeps, List.any_eq_true]
    constructor
    · rintro ⟨slot, left, same⟩
      exact ⟨slot, left, of_decide_eq_true (Bool.and_eq_true_iff.mp same).2⟩
    · rintro ⟨slot, left, sameKey⟩
      have equivalent : tbl.cmp ended.key slot.key = 0 := by
        rw [sameKey]
        exact lawful.equivalence.refl _
      have same := left_equivalent lawful wf performed member ends left equivalent
      exact ⟨slot, left, by simp [same, sameKey]⟩

end Lawful

theorem perform_table {session next : Session Key Value} {call : TableCall Key Value}
    {answer : Answer Key Value} (performed : session.perform call = .ok next)
    (answered : call.answer session.table = .ok answer) : next.table = answer.table := by
  cases call with
  | clear =>
    cases performed
    cases answered
    rfl
  | _ =>
    obtain ⟨_, first, rest⟩ := Exec.bind_eq_ok.mp performed
    obtain ⟨_, second, again⟩ := Exec.bind_eq_ok.mp answered
    cases first.symm.trans second
    cases rest
    cases again
    rfl

theorem Kept.balanced {books : Books Key Value} (kept : books.Kept) : books.Balanced where
  numbered := kept.numbered
  once := by
    rw [postings, List.flatMap_append, List.flatMap_singleton]
    exact kept.once
  settled := by
    intro posting member
    rcases List.mem_append.mp member with logged | last
    · exact kept.settled posting logged
    · rw [List.mem_singleton.mp last]
      exact kept.closing

/-- With lawful keys the flags speak of the whole table. -/
theorem wholeTable_of_run (lawful : LawfulKeys hash cmp) {start last : Books Key Value}
    {calls : List (TableCall Key Value)} (run : (system Key Value).Run start calls last)
    (refuses : ∀ call ∈ calls, call.Refuses) (kept : start.Kept)
    {past : List (Change Key Value)} (faithful : Session.Faithful lawful ⟨start.table, past⟩)
    (whole : ∀ posting ∈ start.log, posting.WholeTable cmp) :
    ∀ posting ∈ last.log, posting.WholeTable cmp := by
  induction run generalizing past with
  | nil => exact whole
  | @cons state next last call calls enabled returned _ inductionHypothesis =>
    have allowed : (Session.system Key Value).Enabled ⟨state.table, past⟩ call := by
      cases call with
      | put key value cleaner calloc malloc => exact refuses _ List.mem_cons_self
      | removeNode node => exact enabled
      | putValue node value cleaner => exact enabled
      | _ => trivial
    obtain ⟨session, performed, onward⟩ := faithful.step allowed
    obtain ⟨answer, answered, posted⟩ := Exec.bind_eq_ok.mp returned
    have sameTable := perform_table performed answered
    have represented : Session.Faithful lawful ⟨next.table, session.past⟩ := by
      cases posted
      rw [← sameTable]
      exact onward
    have rest : ∀ other ∈ calls, other.Refuses :=
      fun other member => refuses other (List.mem_cons_of_mem _ member)
    apply inductionHypothesis rest (kept.step returned) represented
    · cases posted
      intro posting member
      rcases List.mem_append.mp member with old | new
      · exact whole posting old
      · rw [List.mem_singleton.mp new, ← faithful.cmp]
        exact wholeTable_of_performed faithful.ownLawful faithful.wf kept.addressed
          (TableCall.performed kept.addressed answered) kept.live

/-- Over every run that ends with `ls_htable_destroy` each association made is
ended by exactly one call, which calls its cleaner once with the value and the
key pointer stored then, tells it whether the key stays and whether the key
pointer leaves, and calls no other cleaner. -/
theorem run_cleans_once (start last : Books Key Value) (calls : List (TableCall Key Value))
    (opened : start.Opened hash cmp) (run : (system Key Value).Run start calls last) :
    last.Balanced ∧ last.log.map Posting.call = calls.map some ∧
      (last.live.map Association.toSlot).Perm last.table.slots ∧
      (LawfulKeys hash cmp → start.table.bcount < 2 ^ 30 → (∀ call ∈ calls, call.Refuses) →
        ∀ posting ∈ last.postings, posting.WholeTable cmp) := by
  have kept : last.Kept := by
    refine run.preserves Kept ?_ opened.kept
    intro before call next kept _ returned
    exact kept.step returned
  refine ⟨kept.balanced, ?_, kept.live, ?_⟩
  · refine run.preserves_history (fun past books => books.log.map Posting.call = past.map some)
      ?_ ?_
    · rw [opened.2.2.1]
      rfl
    · intro past books call next _ logged _ returned
      obtain ⟨answer, _, posted⟩ := Exec.bind_eq_ok.mp returned
      cases posted
      simp [logged]
  · intro lawful small refuses posting member
    rcases List.mem_append.mp member with logged | destroyed
    · refine wholeTable_of_run lawful run refuses opened.kept (opened.faithful lawful small) ?_
        posting logged
      rw [opened.2.2.1]
      nofun
    · rw [List.mem_singleton.mp destroyed]
      intro ended _
      simp [closing, Posting.stays, Posting.keeps]

end System

/-- Keys that differ by a multiple of ten are equivalent, at different addresses. -/
def lastDigit (first second : Nat) : Int := (first % 10 : Nat) - (second % 10 : Nat)

def oneChain : Books Nat Nat :=
  ⟨⟨Session.parity, lastDigit, 0, 1, Nat.one_pos, 0, fun _ => [], 0⟩, [], [], []⟩

theorem oneChain_opened : oneChain.Opened Session.parity lastDigit :=
  ⟨rfl, rfl, rfl, 1, true, fun size => decide (size < 8), rfl⟩

/-- A key replaced by an equivalent one, and its value overwritten with NULL. -/
def replacements : List (TableCall Nat Nat) :=
  [.put 3 (some 30) (some 1) (fun size => decide (size < 8)) true,
    .put 13 (some 31) (some 2) (fun size => decide (size < 8)) true, .putValue 0 none (some 3)]

def replacementsCleaned : List (List (CleanerCall Nat Nat)) :=
  [[], [⟨1, true, true, 3, some 30⟩], [⟨2, true, false, 13, some 31⟩],
    [⟨3, false, true, 13, none⟩]]

def reachesNode (books : Books Nat Nat) : TableCall Nat Nat → Bool
  | .removeNode node | .putValue node _ _ => books.table.nodes.any fun p => p.node = node
  | _ => true

theorem enabled_of_reachesNode (books : Books Nat Nat) (call : TableCall Nat Nat)
    (reaches : reachesNode books call = true) : (system Nat Nat).Enabled books call := by
  cases call with
  | removeNode node =>
    obtain ⟨p, member, same⟩ := List.any_eq_true.mp reaches
    exact ⟨p, member, of_decide_eq_true same⟩
  | putValue node value cleaner =>
    obtain ⟨p, member, same⟩ := List.any_eq_true.mp reaches
    exact ⟨p, member, of_decide_eq_true same⟩
  | _ => trivial

theorem replacements_run : ∃ last, (system Nat Nat).Run oneChain replacements last ∧
    last.postings.map Posting.cleaned = replacementsCleaned := by
  have seen : ((system Nat Nat).execute reachesNode oneChain replacements).toOption.map
      (fun books => books.postings.map Posting.cleaned) = some replacementsCleaned := by
    decide +kernel
  obtain ⟨last, executed, cleaned⟩ := Exec.exists_of_map _ seen
  exact ⟨last, .of_execute enabled_of_reachesNode executed, cleaned⟩

theorem run_cleans_once_replacements : ∃ last : Books Nat Nat, last.Balanced ∧
    last.postings.map Posting.cleaned = replacementsCleaned := by
  obtain ⟨last, run, cleaned⟩ := replacements_run
  exact ⟨last, (run_cleans_once oneChain last replacements oneChain_opened run).1, cleaned⟩

end Books

end SpudLib
