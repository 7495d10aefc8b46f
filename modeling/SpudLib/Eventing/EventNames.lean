import SpudLib.Foundation.LinkedList
import SpudLib.HashTable.Runs
import SpudLib.HashTable.StringKeys

/-!
# The events of a dispatcher by name

`ls_event_dispatcher_create_event` and `ls_event_dispatcher_get_event` of
`src/ls_eventing.c`.  Events are kept in a hash table of seven buckets at first,
whose keys ignore the case of letters; the copy of a name is the name.
-/

namespace SpudLib

/-- `ls_event_notifier_t` without its bindings. -/
structure NamedEvent where
  source : Nat
  name : AsciiString

/-- `ls_event_dispatch_t` as far as it knows events by name, with the events in memory. -/
structure EventCatalog where
  source : Nat
  events : HTable AsciiString Nat
  notifiers : Memory NamedEvent

inductive EventError where
  | invalidArg
  | invalidState
  | noMemory
  deriving DecidableEq

/-- The answers of the allocator to `ls_event_dispatcher_create_event`: for the copy of the name,
for the event, and to `ls_htable_put`. -/
structure CreateAnswers where
  name : Bool
  notifier : Bool
  calloc : Nat → Bool
  malloc : Bool

namespace EventCatalog

def dispatchBuckets : Int := 7

def cleanEventAddress : Nat := 0

/-- `_clean_event` frees the event; `ls_htable_put` calls it for an event that it replaces. -/
def cleanEvents (notifiers : Memory NamedEvent) (calls : List (CleanerCall AsciiString Nat)) :
    Exec (Memory NamedEvent) :=
  calls.foldlM (fun notifiers call =>
    match call.value with
    | some notifier => notifiers.free notifier
    | none => .error .nullDereference) notifiers

/-- `ls_event_dispatcher_create`; the last answers are those to the allocation of the dispatcher
and to `ls_log_push_ndc`. -/
def lsEventDispatcherCreate (source : Nat) (table : Bool) (calloc : Nat → Bool)
    (dispatch pushed : Bool) : Option EventCatalog :=
  match HTable.lsHtableCreate dispatchBuckets lsStrcaseHashcode lsStrcaseCompare table calloc with
  | none => none
  | some events => if dispatch && pushed then some ⟨source, events, .empty⟩ else none

def lsEventDispatcherGetEvent (dispatch : EventCatalog) (name : AsciiString) :
    Exec (Option Nat) :=
  dispatch.events.lsHtableGet name

def lsEventDispatcherCreateEvent (dispatch : EventCatalog) (name : AsciiString)
    (answers : CreateAnswers) : Exec (Except EventError Nat × EventCatalog) := do
  if name.val = [] then pure (.error .invalidArg, dispatch)
  else
    let existing ← dispatch.events.lsHtableGet name
    if existing.isSome then pure (.error .invalidState, dispatch)
    else if !answers.name then pure (.error .noMemory, dispatch)
    else if !answers.notifier then pure (.error .noMemory, dispatch)
    else
      let notifier := dispatch.notifiers.fresh
      let notifiers := dispatch.notifiers.alloc ⟨dispatch.source, name⟩
      let put ← dispatch.events.lsHtablePut name (some notifier) (some cleanEventAddress)
        answers.calloc answers.malloc
      let notifiers ← cleanEvents notifiers put.2.1
      if put.1 then pure (.ok notifier, { dispatch with events := put.2.2, notifiers := notifiers })
      else
        let notifiers ← notifiers.free notifier
        pure (.error .noMemory, { dispatch with events := put.2.2, notifiers := notifiers })

end EventCatalog

/-- A dispatcher and the events created so far, oldest first. -/
structure Naming where
  catalog : EventCatalog
  created : List (AsciiString × Nat)

namespace Naming

open EventCatalog

structure CreateCall where
  name : AsciiString
  answers : CreateAnswers

def perform (naming : Naming) (call : CreateCall) : Exec Naming := do
  let answer ← naming.catalog.lsEventDispatcherCreateEvent call.name call.answers
  pure ⟨answer.2, naming.created ++ (answer.1.toOption.map (call.name, ·)).toList⟩

def Bounded (calloc : Nat → Bool) : Prop := ∀ size, 2 ^ 30 ≤ size → calloc size = false

def system : System Naming CreateCall where
  Enabled _ call := Bounded call.answers.calloc
  step := perform

def Created (naming : Naming) : Prop :=
  naming.created = [] ∧ ∃ source table calloc dispatch pushed,
    lsEventDispatcherCreate source table calloc dispatch pushed = some naming.catalog

/-- The name of an event created so far, up to the case of letters. -/
def Taken (naming : Naming) (name : AsciiString) : Prop :=
  ∃ made ∈ naming.created, made.1.SameName name

/-- Every spelling of a name finds its event, and no other name finds any. -/
structure Finds (catalog : EventCatalog) (created : List (AsciiString × Nat)) : Prop where
  known : ∀ made ∈ created, ∀ name, made.1.SameName name →
    catalog.lsEventDispatcherGetEvent name = .ok (some made.2)
  unknown : ∀ name, (∀ made ∈ created, ¬ made.1.SameName name) →
    catalog.lsEventDispatcherGetEvent name = .ok none

structure Distinct (created : List (AsciiString × Nat)) : Prop where
  named : ∀ made ∈ created, made.1.val ≠ []
  apart : created.Pairwise fun first second => ¬ first.1.SameName second.1
  events : (created.map Prod.snd).Nodup

structure Outcome (naming : Naming) (name : AsciiString) (answer : Except EventError Nat)
    (after : EventCatalog) : Prop where
  invalidArg : answer = .error .invalidArg ↔ name.val = []
  invalidState : answer = .error .invalidState ↔ name.val ≠ [] ∧ naming.Taken name
  succeeds : ∀ event, answer = .ok event → name.val ≠ [] ∧ ¬ naming.Taken name
  failed : ∀ error, answer = .error error →
    ∀ other, after.lsEventDispatcherGetEvent other =
      naming.catalog.lsEventDispatcherGetEvent other

/-- The changes of the table that the events created stand for. -/
def changes (created : List (AsciiString × Nat)) : List (Change AsciiString Nat) :=
  created.map fun made => .stored made.1 (some made.2)

structure Kept (naming : Naming) : Prop where
  faithful : Session.Faithful strcase_lawful ⟨naming.catalog.events, changes naming.created⟩
  distinct : Distinct naming.created
  bounded : ∀ made ∈ naming.created, made.2 < naming.catalog.notifiers.fresh

section Lookup

variable {created : List (AsciiString × Nat)}

theorem classOf_eq {first second : AsciiString} :
    strcase_lawful.classOf first = strcase_lawful.classOf second ↔ first.SameName second := by
  rw [LawfulKeys.classOf_eq, lsStrcaseCompare_eq_zero]

theorem lookup_none {name : AsciiString} (absent : ∀ made ∈ created, ¬ made.1.SameName name) :
    (replay strcase_lawful (changes created)).lookup (strcase_lawful.classOf name) = none := by
  induction created using List.reverseRecOn with
  | nil => rfl
  | append_singleton created made inductionHypothesis =>
    rw [changes, List.map_append, List.map_singleton, replay_concat, Change.apply,
      Finmap.lookup_insert_of_ne]
    · exact inductionHypothesis fun other member => absent other (List.mem_append_left _ member)
    · intro same
      exact absent made (by simp) (classOf_eq.mp same.symm)

theorem lookup_some {made : AsciiString × Nat} {name : AsciiString}
    (apart : created.Pairwise fun first second => ¬ first.1.SameName second.1)
    (member : made ∈ created) (same : made.1.SameName name) :
    (replay strcase_lawful (changes created)).lookup (strcase_lawful.classOf name) =
      some (made.1, some made.2) := by
  induction created using List.reverseRecOn with
  | nil => cases member
  | append_singleton created last inductionHypothesis =>
    rw [List.pairwise_append] at apart
    rw [changes, List.map_append, List.map_singleton, replay_concat, Change.apply]
    rcases List.mem_append.mp member with old | new
    · rw [Finmap.lookup_insert_of_ne]
      · exact inductionHypothesis apart.1 old
      · intro sameLast
        refine apart.2.2 made old last (by simp) ?_
        exact same.trans (classOf_eq.mp sameLast)
    · obtain rfl := List.mem_singleton.mp new
      rw [classOf_eq.mpr same, Finmap.lookup_insert]

end Lookup

theorem Kept.finds {naming : Naming} (kept : naming.Kept) :
    Finds naming.catalog naming.created where
  known made member name same := by
    have answers := HTable.Represents.get kept.faithful name
    rw [lookup_some kept.distinct.apart member same] at answers
    exact answers
  unknown name absent := by
    have answers := HTable.Represents.get kept.faithful name
    rw [lookup_none absent] at answers
    exact answers

section Create

variable {naming : Naming} {name : AsciiString} {answers : CreateAnswers}

theorem Kept.refuses (kept : naming.Kept) (error : EventError)
    (returned : naming.catalog.lsEventDispatcherCreateEvent name answers =
      .ok (.error error, naming.catalog))
    (outcome : naming.Outcome name (.error error) naming.catalog) :
    ∃ answer after, naming.catalog.lsEventDispatcherCreateEvent name answers = .ok (answer, after) ∧
      naming.Outcome name answer after ∧
      Kept ⟨after, naming.created ++ (answer.toOption.map (name, ·)).toList⟩ := by
  refine ⟨_, _, returned, outcome, ?_⟩
  rw [show (Except.error error : Except EventError Nat).toOption = none from rfl, Option.map_none,
    Option.toList_none, List.append_nil]
  exact kept

theorem outcome_noMemory (nonempty : name.val ≠ []) (free : ¬ naming.Taken name)
    {after : EventCatalog} (same : ∀ other, after.lsEventDispatcherGetEvent other =
      naming.catalog.lsEventDispatcherGetEvent other) :
    naming.Outcome name (.error .noMemory) after where
  invalidArg := iff_of_false nofun nonempty
  invalidState := iff_of_false nofun fun both => free both.2
  succeeds := nofun
  failed _ _ := same

theorem Kept.absent (kept : naming.Kept) (free : ¬ naming.Taken name) :
    ∀ p ∈ naming.catalog.events.nodes, naming.catalog.events.cmp name p.key ≠ 0 := by
  obtain ⟨found, _, finds, agrees⟩ := HTable.Represents.getNode kept.faithful name
  rw [lookup_none fun made member same => free ⟨made, member, same⟩] at agrees
  obtain rfl := Option.map_eq_none_iff.mp agrees
  exact finds

theorem Finds.unique {first second : EventCatalog} {created : List (AsciiString × Nat)}
    (finds : Finds first created) (again : Finds second created) (name : AsciiString) :
    second.lsEventDispatcherGetEvent name = first.lsEventDispatcherGetEvent name := by
  by_cases taken : ∃ made ∈ created, made.1.SameName name
  · obtain ⟨made, member, same⟩ := taken
    rw [finds.known made member name same, again.known made member name same]
  · have absent : ∀ made ∈ created, ¬ made.1.SameName name :=
      fun made member same => taken ⟨made, member, same⟩
    rw [finds.unknown name absent, again.unknown name absent]

theorem Distinct.concat {created : List (AsciiString × Nat)} {event : Nat}
    (distinct : Distinct created) (nonempty : name.val ≠ [])
    (free : ∀ made ∈ created, ¬ made.1.SameName name) (fresh : ∀ made ∈ created, made.2 < event) :
    Distinct (created ++ [(name, event)]) where
  named := by
    intro made member
    rcases List.mem_append.mp member with old | new
    · exact distinct.named made old
    · obtain rfl := List.mem_singleton.mp new
      exact nonempty
  apart := by
    refine List.pairwise_append.mpr ⟨distinct.apart, List.pairwise_singleton _ _, ?_⟩
    intro made old other new
    obtain rfl := List.mem_singleton.mp new
    exact free made old
  events := by
    rw [List.map_append, List.map_singleton, List.nodup_append]
    refine ⟨distinct.events, List.nodup_singleton _, ?_⟩
    intro event old other new same
    obtain ⟨made, member, rfl⟩ := List.mem_map.mp old
    rw [List.mem_singleton.mp new] at same
    exact absurd same (Nat.ne_of_lt (fresh made member))

theorem Kept.puts (kept : naming.Kept) (bounded : Bounded answers.calloc)
    (nonempty : name.val ≠ []) (free : ¬ naming.Taken name) (nameGranted : answers.name = true)
    (notifierGranted : answers.notifier = true) :
    ∃ answer after, naming.catalog.lsEventDispatcherCreateEvent name answers = .ok (answer, after) ∧
      naming.Outcome name answer after ∧
      Kept ⟨after, naming.created ++ (answer.toOption.map (name, ·)).toList⟩ := by
  have unknown : ∀ made ∈ naming.created, ¬ made.1.SameName name :=
    fun made member same => free ⟨made, member, same⟩
  have searched : naming.catalog.events.lsHtableGet name = .ok none :=
    kept.finds.unknown name unknown
  let notifier := naming.catalog.notifiers.fresh
  let notifiers := naming.catalog.notifiers.alloc ⟨naming.catalog.source, name⟩
  obtain ⟨done, table, put, _⟩ :=
    HTable.lsHtablePut_absent kept.faithful.ownLawful kept.faithful.wf (kept.absent free)
      (some notifier) (some cleanEventAddress) bounded answers.malloc
  obtain ⟨next, performed, faithful⟩ :=
    kept.faithful.put name (some notifier) (some cleanEventAddress) bounded answers.malloc
  simp only [Session.perform, put, Exec.ok_bind, Exec.pure_eq_ok, Except.ok.injEq] at performed
  subst performed
  have stored : naming.catalog.events.lsHtablePut name (some naming.catalog.notifiers.fresh)
      (some cleanEventAddress) answers.calloc answers.malloc = .ok (done, [], table) := put
  cases done with
  | true =>
    let after : EventCatalog := ⟨naming.catalog.source, table, notifiers⟩
    have returned : naming.catalog.lsEventDispatcherCreateEvent name answers =
        .ok (.ok notifier, after) := by
      simp only [lsEventDispatcherCreateEvent, if_neg nonempty, searched, Exec.ok_bind, nameGranted,
        notifierGranted, stored, Option.isSome_none, Bool.not_true, Bool.false_eq_true, if_false]
      rfl
    refine ⟨_, _, returned, ?_, ?_⟩
    · exact ⟨iff_of_false (by simp) nonempty, iff_of_false (by simp) fun both => free both.2,
        fun _ _ => ⟨nonempty, free⟩, by simp⟩
    · refine ⟨?_, kept.distinct.concat nonempty unknown kept.bounded, ?_⟩
      · have grown : changes (naming.created ++ [(name, notifier)]) =
            changes naming.created ++ [.stored name (some notifier)] := by
          rw [changes, List.map_append]
          rfl
        change Session.Faithful _ ⟨table, changes (naming.created ++ [(name, notifier)])⟩
        rw [grown]
        exact faithful
      · intro made member
        change made.2 < naming.catalog.notifiers.fresh + 1
        rcases List.mem_append.mp member with old | new
        · exact Nat.lt_succ_of_lt (kept.bounded made old)
        · rw [List.mem_singleton.mp new]
          exact Nat.lt_succ_self _
  | false =>
    have given : notifiers.cells notifier = some ⟨naming.catalog.source, name⟩ :=
      Memory.alloc_cells_self _ _
    let after : EventCatalog := ⟨naming.catalog.source, table, notifiers.erase notifier⟩
    have returned : naming.catalog.lsEventDispatcherCreateEvent name answers =
        .ok (.error .noMemory, after) := by
      simp only [lsEventDispatcherCreateEvent, if_neg nonempty, searched, Exec.ok_bind, nameGranted,
        notifierGranted, stored, Option.isSome_none, Bool.not_true, Bool.false_eq_true, if_false]
      change ((notifiers.free notifier).bind _) = _
      rw [Memory.free_of_some given]
      rfl
    have rest : Kept ⟨after, naming.created⟩ := by
      refine ⟨faithful, kept.distinct, ?_⟩
      intro made member
      exact Nat.lt_succ_of_lt (kept.bounded made member)
    refine ⟨_, _, returned, outcome_noMemory nonempty free ?_, ?_⟩
    · exact kept.finds.unique rest.finds
    · rw [show (Except.error EventError.noMemory : Except EventError Nat).toOption = none from rfl,
        Option.map_none, Option.toList_none, List.append_nil]
      exact rest

/-- Every call to create an event returns, and keeps the table right. -/
theorem Kept.create (kept : naming.Kept) (name : AsciiString)
    (bounded : Bounded answers.calloc) :
    ∃ answer after, naming.catalog.lsEventDispatcherCreateEvent name answers = .ok (answer, after) ∧
      naming.Outcome name answer after ∧
      Kept ⟨after, naming.created ++ (answer.toOption.map (name, ·)).toList⟩ := by
  by_cases nonempty : name.val = []
  · refine kept.refuses .invalidArg ?_ ?_
    · rw [lsEventDispatcherCreateEvent, if_pos nonempty]
      rfl
    · exact ⟨iff_of_true rfl nonempty, iff_of_false nofun fun both => both.1 nonempty, nofun,
        fun _ _ _ => rfl⟩
  by_cases taken : naming.Taken name
  · obtain ⟨made, member, same⟩ := taken
    have searched : naming.catalog.events.lsHtableGet name = .ok (some made.2) :=
      kept.finds.known made member name same
    refine kept.refuses .invalidState ?_ ?_
    · simp only [lsEventDispatcherCreateEvent, if_neg nonempty, searched, Exec.ok_bind]
      rfl
    · exact ⟨iff_of_false nofun nonempty, iff_of_true rfl ⟨nonempty, made, member, same⟩, nofun,
        fun _ _ _ => rfl⟩
  have searched : naming.catalog.events.lsHtableGet name = .ok none :=
    kept.finds.unknown name fun made member same => taken ⟨made, member, same⟩
  have noMemory := outcome_noMemory nonempty taken fun other =>
    (rfl : naming.catalog.lsEventDispatcherGetEvent other = _)
  cases nameGranted : answers.name with
  | false =>
    refine kept.refuses .noMemory ?_ noMemory
    simp only [lsEventDispatcherCreateEvent, if_neg nonempty, searched, Exec.ok_bind, nameGranted]
    rfl
  | true =>
    cases notifierGranted : answers.notifier with
    | false =>
      refine kept.refuses .noMemory ?_ noMemory
      simp only [lsEventDispatcherCreateEvent, if_neg nonempty, searched, Exec.ok_bind, nameGranted,
        notifierGranted]
      rfl
    | true => exact kept.puts bounded nonempty taken nameGranted notifierGranted

end Create

theorem Created.kept {naming : Naming} (created : naming.Created) : naming.Kept := by
  obtain ⟨none, source, table, calloc, dispatch, pushed, returned⟩ := created
  unfold lsEventDispatcherCreate at returned
  split at returned
  next => cases returned
  next events made =>
    have opened : HTable.lsHtableCreate dispatchBuckets lsStrcaseHashcode lsStrcaseCompare table
        (fun size => calloc size && decide (size < 2 ^ 30)) = some events := by
      rw [← made]
      simp [HTable.lsHtableCreate, HTable.requested, dispatchBuckets]
    split at returned
    next =>
      obtain ⟨catalog, _⟩ := naming
      cases returned
      cases none
      refine ⟨?_, ⟨List.forall_mem_nil _, .nil, List.nodup_nil⟩, List.forall_mem_nil _⟩
      refine Session.Created.faithful ⟨rfl, _, table, _, ?_, opened⟩
      intro size huge
      rw [decide_eq_false (by omega), Bool.and_false]
    next => cases returned

/-- After every run each spelling of a name finds the event created under it and nothing else is
found, names are unique, and every call to create an event succeeds or fails as it should. -/
theorem run_names (start last : Naming) (calls : List CreateCall) (created : start.Created)
    (run : system.Run start calls last) :
    Finds last.catalog last.created ∧ Distinct last.created ∧
      ∀ name answers, Bounded answers.calloc →
        ∃ answer after, last.catalog.lsEventDispatcherCreateEvent name answers =
          .ok (answer, after) ∧ last.Outcome name answer after := by
  have kept : last.Kept := by
    refine run.preserves Kept ?_ created.kept
    intro before call next kept bounded stepped
    obtain ⟨answer, after, returned, _, rest⟩ := kept.create call.name bounded
    simp only [system, perform, returned, Exec.ok_bind, Exec.pure_eq_ok, Except.ok.injEq] at stepped
    rw [← stepped]
    exact rest
  refine ⟨kept.finds, kept.distinct, ?_⟩
  intro name answers bounded
  obtain ⟨answer, after, returned, outcome, _⟩ := kept.create name bounded
  exact ⟨answer, after, returned, outcome⟩

def eventOne : AsciiString := ⟨[101, 118, 101, 110, 116, 79, 110, 101], by simp⟩
def eventOneUpper : AsciiString := ⟨[69, 86, 69, 78, 84, 79, 78, 69], by simp⟩
def second : AsciiString := ⟨[115, 101, 99, 111, 110, 100], by simp⟩

def granting : CreateAnswers := ⟨true, true, fun size => decide (size < 2 ^ 30), true⟩

theorem granting_bounded : Bounded granting.calloc := by
  intro size huge
  exact decide_eq_false (by omega)

theorem run_names_cased : ∃ last : Naming,
    last.created = [(eventOne, 0), (second, 1)] ∧
      last.catalog.lsEventDispatcherGetEvent eventOneUpper = .ok (some 0) ∧
      Distinct last.created := by
  let calls : List CreateCall :=
    [⟨eventOne, granting⟩, ⟨eventOneUpper, granting⟩, ⟨second, granting⟩]
  obtain ⟨catalog, made, seen⟩ : ∃ catalog,
      lsEventDispatcherCreate 5 true (fun _ => true) true true = some catalog ∧
        (system.execute (fun _ _ => true) ⟨catalog, []⟩ calls).toOption.map Naming.created =
          some [(eventOne, 0), (second, 1)] :=
    ⟨_, rfl, by decide +kernel⟩
  obtain ⟨last, executed, created⟩ := Exec.exists_of_map _ seen
  have run : system.Run ⟨catalog, []⟩ calls last := by
    refine .of_execute_enabled ?_ executed
    intro call member _
    simp only [calls, List.mem_cons, List.not_mem_nil, or_false] at member
    rcases member with rfl | rfl | rfl
    all_goals exact granting_bounded
  obtain ⟨finds, distinct, _⟩ := run_names ⟨catalog, []⟩ last calls ⟨rfl, _, _, _, _, _, made⟩ run
  have member : (eventOne, 0) ∈ last.created := by
    rw [created]
    exact List.mem_cons_self
  exact ⟨last, created, finds.known _ member eventOneUpper (by decide), distinct⟩

end Naming

end SpudLib
