import SpudLib.Eventing.Invariant

/-!
# Moments are processed in the order of their triggers

A program that unbinds nothing from inside its callbacks can trigger events to
any depth: whenever the outermost trigger returns, the dispatch loop has done
one whole block of work for every moment, in the order of the triggers.
-/

namespace SpudLib.Machine

open Link

variable {Data : Type} {quiet : Prop} {machine start : Machine Data}
  {labels : List (EventLabel Data)}

theorem Initial.invariant (initial : start.Initial) :
    start.Invariant quiet ⟨fun _ => [], []⟩ where
  orderly := initial.orderly
  unflagged _ event _ cell member := by cases member
  heads cell member := by cases member
  once := by simp [initial.triggered]
  lasting := initial.destroyPending
  history := by
    refine ⟨[], [], [], [], initial.triggered, .nil, initial.trace, ?_⟩
    exact .resting initial.running (.inl ⟨initial.control, rfl⟩) .nil

/-- Inside callbacks the program triggers, prepares and binds; it unbinds
between triggers only and does not destroy the dispatcher. -/
def TriggersOnly (machine : Machine Data) : EventLabel Data → Prop
  | .call .destroy => False
  | .call (.unbind _ _) => machine.control = .idle
  | _ => True

theorem Invariant.waiting_idle {view : View Data} (invariant : machine.Invariant quiet view)
    (idle : machine.control = .idle) : machine.waiting = [] := by
  have queued : machine.queued = view.queue := invariant.orderly.represents.queued_eq
  have position := invariant.orderly.position
  rw [idle] at position
  simp only [waiting, idle, queued, position.2.1]

theorem Invariant.careful {view : View Data} (invariant : machine.Invariant True view)
    {label : EventLabel Data} (triggers : machine.TriggersOnly label) :
    Careful True machine label := by
  refine ⟨?_, ?_, ?_⟩
  · rintro rfl
    exact triggers
  · intro cell waits binding captured
    cases label with
    | internal =>
      intro inside
      cases control : machine.control with
      | finishing moment =>
        obtain ⟨_, event, processes⟩ :=
          invariant.orderly.processes (by simp [control]) (by simp [control])
        have live := invariant.orderly.live processes
        simp only [removed, control, processes.running,
          invariant.orderly.represents.listed_eq live] at inside
        obtain ⟨flagged, member, _⟩ := List.mem_map.mp inside
        obtain ⟨listed, marked⟩ := List.mem_filter.mp member
        rw [invariant.unflagged trivial _ live flagged listed] at marked
        cases marked
      | idle => simp [removed, control] at inside
      | dispatching => simp [removed, control] at inside
      | visiting => simp [removed, control] at inside
      | calling => simp [removed, control] at inside
      | reporting => simp [removed, control] at inside
      | resulting => simp [removed, control] at inside
    | ret left => simp [removed]
    | call request =>
      cases request with
      | unbind event cb =>
        rw [invariant.waiting_idle triggers] at waits
        cases waits
      | _ => simp [removed]
  · rintro _ event cb rfl
    exact triggers

theorem opening_about {trigger : Trigger} {begun : List Nat} {rounds : List Round} :
    ∀ entry ∈ trigger.opening begun rounds, entry.moment = trigger.moment := by
  intro entry member
  rcases List.mem_cons.mp member with rfl | inside
  · rfl
  · obtain ⟨round, _, member⟩ := List.mem_flatMap.mp inside
    simp only [Round.entries, List.mem_cons, List.not_mem_nil, or_false] at member
    rcases member with rfl | rfl <;> rfl

theorem result_about {trigger : Trigger} {rounds : List Round} :
    ∀ entry ∈ trigger.result rounds, entry.moment = trigger.moment := by
  intro entry member
  unfold Trigger.result at member
  split at member
  · cases member
  · obtain rfl := List.mem_singleton.mp member
    rfl

theorem about_of_progress {trigger : Trigger} {begun : List Nat} {cells : List (Nat × BindingData)}
    {rounds : List Round} {control : Control} {entries : List Entry}
    (progress : Progress trigger begun cells rounds control entries) :
    ∀ entry ∈ entries, entry.moment = trigger.moment := by
  intro entry member
  cases control with
  | idle => exact progress.elim
  | dispatching => exact progress.elim
  | visiting => exact opening_about entry (progress.2.1 ▸ member)
  | reporting => exact opening_about entry (progress.2.1 ▸ member)
  | calling =>
    obtain ⟨_, _, passed, data, rest, arg, _, rfl, _⟩ := progress
    rcases List.mem_append.mp member with opened | last
    · exact opening_about entry opened
    · obtain rfl := List.mem_singleton.mp last
      rename_i same _ _ _
      exact same
  | resulting =>
    obtain ⟨_, rfl, _⟩ := progress
    exact (List.mem_append.mp member).elim (opening_about entry) (result_about entry)
  | finishing =>
    obtain ⟨_, rfl, _⟩ := progress
    exact (List.mem_append.mp member).elim (opening_about entry) (result_about entry)

/-- A callback of the first event triggers that event again. -/
def nested : List (EventLabel Unit) :=
  [.call (.bind 0 10 0 true), .call (.trigger 0 () (some 7) 0 true), .internal, .internal,
    .call (.trigger 0 () none 0 true), .ret true, .internal, .internal, .ret false, .internal,
    .internal, .internal, .ret false, .internal, .internal, .internal, .internal]

end SpudLib.Machine
