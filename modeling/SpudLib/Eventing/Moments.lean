import SpudLib.Eventing.Fifo

/-!
# Which callbacks a moment runs

A queued moment keeps the binding that was first when it was triggered.  As
long as nothing frees that binding before the moment is processed, the moment
runs the callbacks it should.  Nothing in the dispatcher prevents it: an unbind
on an event that is not running frees the binding at once, and so does the
sweep at the end of an earlier moment of the event.
-/

namespace SpudLib

def Entry.callback? : Entry → Option Nat
  | .called _ cb _ => some cb
  | _ => none

def calls (entries : List Entry) : List Nat := entries.filterMap Entry.callback?

def entriesOf (moment : Nat) (trace : List Entry) : List Entry :=
  trace.filter fun entry => entry.moment = moment

@[simp] theorem calls_append (front back : List Entry) :
    calls (front ++ back) = calls front ++ calls back := List.filterMap_append

theorem entriesOf_append (moment : Nat) (front back : List Entry) :
    entriesOf moment (front ++ back) = entriesOf moment front ++ entriesOf moment back :=
  List.filter_append _ _

theorem entriesOf_of_about {moment : Nat} {entries : List Entry}
    (about : ∀ entry ∈ entries, entry.moment = moment) : entriesOf moment entries = entries :=
  List.filter_eq_self.mpr fun entry member => decide_eq_true (about entry member)

theorem entriesOf_of_foreign {moment : Nat} {entries : List Entry}
    (foreign : ∀ entry ∈ entries, entry.moment ≠ moment) : entriesOf moment entries = [] :=
  List.filter_eq_nil_iff.mpr fun entry member here => foreign entry member (of_decide_eq_true here)

theorem calls_opening (trigger : Trigger) (start : List Nat) (rounds : List Round) :
    calls (trigger.opening start rounds) = rounds.map Round.cb := by
  have each : calls (rounds.flatMap (Round.entries trigger.moment)) = rounds.map Round.cb := by
    induction rounds with
    | nil => rfl
    | cons round rest inductionHypothesis =>
      rw [List.flatMap_cons, calls_append, inductionHypothesis]
      rfl
  exact each

theorem calls_result (trigger : Trigger) (rounds : List Round) :
    calls (trigger.result rounds) = [] := by
  unfold Trigger.result
  split <;> rfl

/-- What the trace says of one moment, begun or not, when it was planned right. -/
def Trigger.Served (trigger : Trigger) (entries : List Entry) : Prop :=
  entries = [] ∨ ∃ start, start.Nodup ∧ .started trigger.moment trigger.event start ∈ entries ∧
    (∀ moment event callbacks, .started moment event callbacks ∈ entries →
      event = trigger.event ∧ callbacks = start) ∧
    calls entries <+: trigger.planned start ∧
    ∀ moment, .finished moment ∈ entries → calls entries = trigger.planned start

theorem started_mem_opening {trigger : Trigger} {start callbacks : List Nat}
    {rounds : List Round} {moment event : Nat}
    (member : .started moment event callbacks ∈ trigger.opening start rounds) :
    event = trigger.event ∧ callbacks = start := by
  rcases List.mem_cons.mp member with here | inside
  · cases here
    exact ⟨rfl, rfl⟩
  · obtain ⟨round, _, inside⟩ := List.mem_flatMap.mp inside
    simp [Round.entries] at inside

theorem not_started_mem_result {trigger : Trigger} {callbacks : List Nat} {rounds : List Round}
    {moment event : Nat} : .started moment event callbacks ∉ trigger.result rounds := by
  unfold Trigger.result
  split <;> simp

theorem not_finished_mem_opening {trigger : Trigger} {start : List Nat} {rounds : List Round}
    {moment : Nat} : .finished moment ∉ trigger.opening start rounds := by
  intro member
  rcases List.mem_cons.mp member with here | inside
  · cases here
  · obtain ⟨round, _, inside⟩ := List.mem_flatMap.mp inside
    simp [Round.entries] at inside

theorem not_finished_mem_result {trigger : Trigger} {rounds : List Round} {moment : Nat} :
    .finished moment ∉ trigger.result rounds := by
  unfold Trigger.result
  split <;> simp

theorem Trigger.Processed.about {trigger : Trigger} {entries : List Entry}
    (processed : trigger.Processed entries) : ∀ entry ∈ entries, entry.moment = trigger.moment := by
  obtain ⟨start, rounds, _, _, rfl⟩ := processed
  intro entry member
  rcases List.mem_append.mp member with inside | last
  · exact (List.mem_append.mp inside).elim (Machine.opening_about entry)
      (Machine.result_about entry)
  · obtain rfl := List.mem_singleton.mp last
    rfl

theorem Trigger.Processed.served {trigger : Trigger} {entries : List Entry}
    (processed : trigger.Processed entries) : trigger.Served entries := by
  obtain ⟨start, rounds, nodup, plan, rfl⟩ := processed
  have called : calls (trigger.block start rounds) = trigger.planned start := by
    rw [Trigger.block, calls_append, calls_append, calls_opening, calls_result, plan]
    simp [calls, Entry.callback?]
  refine .inr ⟨start, nodup, ?_, ?_, ?_, fun _ _ => called⟩
  · exact List.mem_append_left _ (List.mem_append_left _ List.mem_cons_self)
  · intro moment event callbacks member
    rcases List.mem_append.mp member with inside | last
    · rcases List.mem_append.mp inside with opened | reported
      · exact started_mem_opening opened
      · exact absurd reported not_started_mem_result
    · cases List.mem_singleton.mp last
  · exact called ▸ List.prefix_refl _

theorem served_of_progress {trigger : Trigger} {start : List Nat}
    {cells : List (Nat × BindingData)} {rounds : List Round} {control : Control}
    {entries : List Entry} (nodup : start.Nodup)
    (progress : Progress trigger start cells rounds control entries) :
    trigger.Served entries := by
  have begun : .started trigger.moment trigger.event start ∈ trigger.opening start rounds :=
    List.mem_cons_self
  -- the entries are the opening, and what follows it starts and finishes nothing
  have served : ∀ more, calls (trigger.opening start rounds ++ more) <+: trigger.planned start →
      (∀ moment event callbacks, .started moment event callbacks ∉ more) →
      (∀ moment, .finished moment ∉ more) →
      trigger.Served (trigger.opening start rounds ++ more) := by
    intro more sofar startsNothing finishesNothing
    refine .inr ⟨start, nodup, List.mem_append_left _ begun, ?_, sofar, ?_⟩
    · intro moment event callbacks member
      exact (List.mem_append.mp member).elim started_mem_opening
        fun inside => absurd inside (startsNothing moment event callbacks)
    · intro moment member
      exact ((List.mem_append.mp member).elim not_finished_mem_opening
        (finishesNothing moment)).elim
  cases control with
  | idle => exact progress.elim
  | dispatching => exact progress.elim
  | visiting =>
    obtain ⟨_, rfl, passed, rest, _, _, plan⟩ := progress
    rw [← List.append_nil (trigger.opening start rounds)]
    refine served [] ?_ (by simp) (by simp)
    rw [List.append_nil, calls_opening, ← plan]
    exact List.prefix_append _ _
  | calling moment binding handled =>
    obtain ⟨_, _, passed, data, rest, arg, _, rfl, plan⟩ := progress
    refine served _ ?_ (by simp) (by simp)
    rw [calls_append, calls_opening, ← plan]
    exact ⟨active rest, by simp [calls, Entry.callback?]⟩
  | reporting =>
    obtain ⟨_, rfl, plan⟩ := progress
    rw [← List.append_nil (trigger.opening start rounds)]
    refine served [] ?_ (by simp) (by simp)
    rw [List.append_nil, calls_opening]
    exact plan ▸ List.prefix_refl _
  | resulting =>
    obtain ⟨_, rfl, plan⟩ := progress
    refine served _ ?_ (fun _ _ _ => not_started_mem_result) fun _ => not_finished_mem_result
    rw [calls_append, calls_opening, calls_result, List.append_nil]
    exact plan ▸ List.prefix_refl _
  | finishing =>
    obtain ⟨_, rfl, plan⟩ := progress
    refine served _ ?_ (fun _ _ _ => not_started_mem_result) fun _ => not_finished_mem_result
    rw [calls_append, calls_opening, calls_result, List.append_nil]
    exact plan ▸ List.prefix_refl _

theorem entriesOf_blocks {done : List Trigger} {blocks : List (List Entry)}
    (processed : List.Forall₂ Trigger.Processed done blocks) :
    (∀ moment ∉ done.map Trigger.moment, entriesOf moment blocks.flatten = []) ∧
      ((done.map Trigger.moment).Nodup → ∀ trigger ∈ done,
        trigger.Processed (entriesOf trigger.moment blocks.flatten)) := by
  induction processed with
  | nil => exact ⟨fun _ _ => rfl, fun _ trigger member => by cases member⟩
  | @cons first block done blocks here _ inductionHypothesis =>
    obtain ⟨foreign, mine⟩ := inductionHypothesis
    constructor
    · intro moment outside
      rw [List.map_cons, List.mem_cons, not_or] at outside
      rw [List.flatten_cons, entriesOf_append, foreign moment outside.2, List.append_nil]
      refine entriesOf_of_foreign fun entry member same => outside.1 ?_
      rw [← same, here.about entry member]
    · intro nodup trigger member
      rw [List.map_cons, List.nodup_cons] at nodup
      rw [List.flatten_cons, entriesOf_append]
      rcases List.mem_cons.mp member with rfl | later
      · rw [entriesOf_of_about here.about, foreign _ nodup.1, List.append_nil]
        exact here
      · have different : first.moment ≠ trigger.moment := fun same =>
          nodup.1 (same ▸ List.mem_map_of_mem later)
        rw [entriesOf_of_foreign fun entry inside same =>
          different ((here.about entry inside).symm.trans same), List.nil_append]
        exact mine nodup.2 trigger later

namespace Machine

open Link

variable {Data : Type} {quiet : Prop} {machine start : Machine Data}
  {labels : List (EventLabel Data)} {view : View Data}

/-- Every trigger is served, and the trace is about nothing else. -/
theorem Invariant.served (invariant : machine.Invariant quiet view) :
    (∀ trigger ∈ machine.triggered, trigger.Served (entriesOf trigger.moment machine.trace)) ∧
      ∀ entry ∈ machine.trace, entry.moment ∈ machine.triggered.map Trigger.moment := by
  obtain ⟨done, pending, blocks, entries, triggered, processed, trace, activity⟩ :=
    invariant.history
  obtain ⟨foreign, mine⟩ := entriesOf_blocks processed
  have nodup := invariant.once
  rw [triggered, List.map_append, List.nodup_append'] at nodup
  obtain ⟨doneNodup, pendingNodup, apart⟩ := nodup
  have inBlocks : ∀ entry ∈ blocks.flatten, entry.moment ∈ done.map Trigger.moment := by
    intro entry member
    by_contra outside
    have absent := foreign entry.moment outside
    rw [entriesOf, List.filter_eq_nil_iff] at absent
    exact absent entry member (decide_eq_true rfl)
  have current : (∀ trigger ∈ done, entriesOf trigger.moment entries = []) ∧
      (∀ trigger ∈ pending, trigger.Served (entriesOf trigger.moment entries)) ∧
      ∀ entry ∈ entries, entry.moment ∈ pending.map Trigger.moment := by
    cases activity with
    | resting => exact ⟨fun _ _ => rfl, fun _ _ => .inl rfl, fun entry member => by cases member⟩
    | processing trigger others data rest begun rounds entries running split queue scheduled behind
        begunNodup progress =>
      subst split
      have about := about_of_progress progress
      rw [List.map_cons] at pendingNodup apart ⊢
      refine ⟨?_, ?_, ?_⟩
      · intro other member
        refine entriesOf_of_foreign fun entry inside same => ?_
        refine apart (List.mem_map_of_mem member) ?_
        rw [← same, about entry inside]
        exact List.mem_cons_self
      · intro other member
        rcases List.mem_cons.mp member with rfl | later
        · rw [entriesOf_of_about about]
          exact served_of_progress begunNodup progress
        · left
          refine entriesOf_of_foreign fun entry inside same => ?_
          refine (List.nodup_cons.mp pendingNodup).1 ?_
          rw [← about entry inside, same]
          exact List.mem_map_of_mem later
      · intro entry member
        rw [about entry member]
        exact List.mem_cons_self
  rw [trace, triggered]
  constructor
  · intro trigger member
    rw [entriesOf_append]
    rcases List.mem_append.mp member with old | new
    · rw [current.1 trigger old, List.append_nil]
      exact (mine doneNodup trigger old).served
    · rw [foreign trigger.moment fun old => apart old (List.mem_map_of_mem new), List.nil_append]
      exact current.2.1 trigger new
  · intro entry member
    rw [List.map_append, List.mem_append]
    exact (List.mem_append.mp member).imp (inBlocks entry) (current.2.2 entry)

/-- The moments triggered so far run the right callbacks: only those their event
has as they start, and, once finished, those it had both then and when they
were triggered, in list order and once each.  Queued moments refer to bindings
that exist. -/
structure RightCallbacks (machine : Machine Data) : Prop where
  accounted : ∀ entry ∈ machine.trace, entry.moment ∈ machine.triggered.map Trigger.moment
  begun : ∀ trigger ∈ machine.triggered, calls (entriesOf trigger.moment machine.trace) ≠ [] →
    ∃ event start, .started trigger.moment event start ∈ machine.trace
  present : ∀ trigger ∈ machine.triggered, ∀ event start,
    .started trigger.moment event start ∈ machine.trace →
      ∀ cb ∈ calls (entriesOf trigger.moment machine.trace), cb ∈ start
  kept : ∀ trigger ∈ machine.triggered, ∀ event start,
    .started trigger.moment event start ∈ machine.trace →
      .finished trigger.moment ∈ machine.trace →
      event = trigger.event ∧ start.Nodup ∧
        (calls (entriesOf trigger.moment machine.trace)).filter (· ∈ trigger.callbacks) =
          start.filter (· ∈ trigger.callbacks)
  queuedLive : ∀ cell ∈ machine.queued, ∀ binding, cell.2.bindings = some binding →
    ¬ machine.dispatch.bindings.Freed binding

theorem Invariant.rightCallbacks (invariant : machine.Invariant quiet view) :
    machine.RightCallbacks := by
  obtain ⟨served, accounted⟩ := invariant.served
  have own : ∀ entry ∈ machine.trace, entry ∈ entriesOf entry.moment machine.trace :=
    fun entry member => List.mem_filter.mpr ⟨member, decide_eq_true rfl⟩
  refine ⟨accounted, ?_, ?_, ?_, ?_⟩
  · intro trigger member some
    rcases served trigger member with none | ⟨start, _, started, _⟩
    · rw [none] at some
      exact absurd rfl some
    · exact ⟨trigger.event, start, (List.mem_filter.mp started).1⟩
  · intro trigger member event start started cb called
    rcases served trigger member with none | ⟨actual, _, _, unique, sofar, _⟩
    · rw [none] at called
      cases called
    · obtain ⟨_, rfl⟩ := unique _ event start (own _ started)
      have planned := sofar.subset called
      unfold Trigger.planned at planned
      split at planned
      · cases planned
      · exact planned
  · intro trigger member event start started finished
    rcases served trigger member with none | ⟨actual, nodup, _, unique, _, complete⟩
    · have inside := own _ started
      change _ ∈ entriesOf trigger.moment machine.trace at inside
      rw [none] at inside
      cases inside
    · obtain ⟨rfl, rfl⟩ := unique _ event start (own _ started)
      refine ⟨rfl, nodup, ?_⟩
      rw [complete _ (own _ finished)]
      unfold Trigger.planned
      split
      next empty => simp [empty]
      next => rfl
  · intro cell member binding captured
    have represents := invariant.orderly.represents
    have queued : machine.queued = view.queue := represents.queued_eq
    rw [queued] at member
    obtain ⟨event, ofEvent, live, _⟩ := invariant.orderly.captured cell member
    have head := invariant.heads cell member event ofEvent binding captured
    exact represents.not_freed live (List.mem_of_mem_head? head)

/-- The program may do all but destroy the dispatcher, and no step removes a
binding that a waiting moment has captured. -/
def SparingSystem (Data : Type) : System (Machine Data) (EventLabel Data) :=
  (system Data).restrict fun machine label => label ≠ .call .destroy ∧ machine.SparesWaiting label

/-- In every run whose steps spare the captured bindings, moments run the right
callbacks, and no such step can go wrong. -/
theorem sparing_rightCallbacks (start machine : Machine Data) (labels : List (EventLabel Data))
    (initial : start.Initial) (run : (SparingSystem Data).Run start labels machine) :
    machine.RightCallbacks ∧ (SparingSystem Data).Safe machine := by
  have careful : ∀ machine label, (SparingSystem Data).Enabled machine label →
      Careful False machine label := fun machine label enabled =>
    ⟨enabled.2.1, enabled.2.2, False.elim⟩
  have reached : ∃ view, machine.Invariant False view := by
    refine run.preserves (fun machine => ∃ view, machine.Invariant False view) ?_
      ⟨_, initial.invariant⟩
    rintro before label after ⟨view, invariant⟩ enabled stepped
    obtain ⟨next, later, returned, _, kept⟩ :=
      invariant.step enabled.1 (careful before label enabled)
    cases stepped.symm.trans returned
    exact ⟨later, kept⟩
  obtain ⟨view, invariant⟩ := reached
  refine ⟨invariant.rightCallbacks, ?_⟩
  intro label enabled
  obtain ⟨next, later, returned, _⟩ := invariant.step enabled.1 (careful machine label enabled)
  exact ⟨next, returned⟩

def triggerSecond : List (EventLabel Unit) :=
  [.call (.bind 0 10 0 true), .call (.bind 1 20 0 true), .call (.trigger 0 () none 0 true),
    .internal, .internal, .call (.trigger 1 () none 0 true)]

theorem triggerSecond_run : ∃ machine,
    (SparingSystem Unit).Run twoEvents triggerSecond machine ∧ machine.waiting.length = 1 := by
  refine System.Run.exists_cons ⟨⟨trivial, rfl, _, rfl⟩, nofun, nofun⟩ rfl ?_
  refine System.Run.exists_cons ⟨⟨trivial, rfl, _, rfl⟩, nofun, nofun⟩ rfl ?_
  refine System.Run.exists_cons ⟨⟨trivial, rfl, _, rfl⟩, nofun, nofun⟩ rfl ?_
  refine System.Run.exists_cons ⟨id, nofun, fun _ _ _ _ removed => by cases removed⟩ rfl ?_
  refine System.Run.exists_cons ⟨id, nofun, fun _ _ _ _ removed => by cases removed⟩ rfl ?_
  refine System.Run.exists_cons ⟨⟨trivial, rfl, _, rfl⟩, nofun, nofun⟩ rfl ?_
  exact ⟨_, .nil _, rfl⟩

theorem sparing_rightCallbacks_triggerSecond :
    ∃ machine : Machine Unit, machine.waiting.length = 1 ∧ machine.RightCallbacks ∧
      (SparingSystem Unit).Safe machine := by
  obtain ⟨machine, run, waits⟩ := triggerSecond_run
  exact ⟨machine, waits,
    sparing_rightCallbacks twoEvents machine triggerSecond twoEvents_initial run⟩

def unbindSecond : List (EventLabel Unit) := triggerSecond ++ [.call (.unbind 1 20)]

theorem unbindSecond_dangles : twoEvents.Initial ∧ ∃ machine,
    ((system Unit).restrict fun _ label => label ≠ .call .destroy).Run twoEvents unbindSecond
      machine ∧
      ¬ machine.RightCallbacks ∧
      ∃ visiting, (system Unit).Run machine [.ret false, .internal, .internal, .internal, .internal]
          visiting ∧
        ¬ visiting.control.Outside ∧ visiting.advance = .error .useAfterFree := by
  refine ⟨twoEvents_initial, ?_⟩
  refine System.Run.exists_cons ⟨⟨trivial, rfl, _, rfl⟩, nofun⟩ rfl ?_
  refine System.Run.exists_cons ⟨⟨trivial, rfl, _, rfl⟩, nofun⟩ rfl ?_
  refine System.Run.exists_cons ⟨⟨trivial, rfl, _, rfl⟩, nofun⟩ rfl ?_
  refine System.Run.exists_cons ⟨id, nofun⟩ rfl ?_
  refine System.Run.exists_cons ⟨id, nofun⟩ rfl ?_
  refine System.Run.exists_cons ⟨⟨trivial, rfl, _, rfl⟩, nofun⟩ rfl ?_
  refine System.Run.exists_cons ⟨⟨trivial, rfl, ⟨_, rfl⟩, by decide⟩, nofun⟩ rfl ?_
  refine ⟨_, .nil _, ?_, ?_⟩
  · intro right
    exact right.queuedLive (1, ⟨some 1, some (), false, none, 0, some 1⟩) (by decide) 1 rfl
      (by decide)
  · refine System.Run.exists_cons ⟨trivial, nofun⟩ rfl ?_
    refine System.Run.exists_cons id rfl ?_
    refine System.Run.exists_cons id rfl ?_
    refine System.Run.exists_cons id rfl ?_
    refine System.Run.exists_cons id rfl ?_
    exact ⟨_, .nil _, id, rfl⟩

end Machine

end SpudLib
