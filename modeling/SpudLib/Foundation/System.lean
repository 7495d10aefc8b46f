import SpudLib.Foundation.Fault
import Mathlib.Algebra.GroupWithZero.Nat

/-!
# Systems that take step after step

A system says which labels are enabled in a state and what a step under an
enabled label does; the step may fault.  A run is a finite sequence of steps
that all return.  Restricting a system to the steps that meet a condition is
how "every run whose steps all meet the condition" is said.
-/

namespace SpudLib

universe u

structure System (State Label : Type u) where
  Enabled : State → Label → Prop
  step : State → Label → Exec State

namespace System

variable {State Label : Type u} (system : System State Label)

/-- The steps of `labels`, one after the other, lead from the first state to the second. -/
inductive Run : State → List Label → State → Prop where
  | nil (state) : Run state [] state
  | cons {state next last label labels} : system.Enabled state label →
      system.step state label = .ok next → Run next labels last →
      Run state (label :: labels) last

def restrict (condition : State → Label → Prop) : System State Label where
  Enabled state label := system.Enabled state label ∧ condition state label
  step := system.step

variable {system} {start last : State} {labels : List Label}

theorem Run.unrestricted {condition : State → Label → Prop}
    (run : (system.restrict condition).Run start labels last) :
    system.Run start labels last := by
  induction run with
  | nil => exact .nil _
  | cons enabled returned _ inductionHypothesis =>
    exact .cons enabled.1 returned inductionHypothesis

theorem Run.append {middle : State} {rest : List Label}
    (first : system.Run start labels middle) (second : system.Run middle rest last) :
    system.Run start (labels ++ rest) last := by
  induction first with
  | nil => exact second
  | cons enabled returned _ inductionHypothesis =>
    exact .cons enabled returned (inductionHypothesis second)

theorem Run.exists_cons {Reached : State → Prop} {next : State} {label : Label}
    (enabled : system.Enabled start label) (returned : system.step start label = .ok next)
    (onward : ∃ last, system.Run next labels last ∧ Reached last) :
    ∃ last, system.Run start (label :: labels) last ∧ Reached last := by
  obtain ⟨last, run, reached⟩ := onward
  exact ⟨last, .cons enabled returned run, reached⟩

/-- Of the state after the first step only a view need be known. -/
theorem Run.exists_cons_seen {Reached : State → Prop} {label : Label} {Seen : Type u}
    (view : State → Seen) {seen : Seen} (enabled : system.Enabled start label)
    (same : (system.step start label).toOption.map view = some seen)
    (onward : ∀ next, view next = seen →
      ∃ last, system.Run next labels last ∧ Reached last) :
    ∃ last, system.Run start (label :: labels) last ∧ Reached last := by
  obtain ⟨next, returned, known⟩ := Exec.exists_of_map view same
  exact exists_cons enabled returned (onward next known)

def execute (system : System State Label) (allowed : State → Label → Bool) :
    State → List Label → Exec State
  | state, [] => .ok state
  | state, label :: labels =>
      if allowed state label then do
        let next ← system.step state label
        execute system allowed next labels
      else .error .assertFailed

theorem Run.of_execute {allowed : State → Label → Bool}
    (sound : ∀ state label, allowed state label = true → system.Enabled state label)
    (executed : system.execute allowed start labels = .ok last) : system.Run start labels last := by
  induction labels generalizing start with
  | nil =>
    cases executed
    exact .nil _
  | cons label labels inductionHypothesis =>
    unfold execute at executed
    split at executed
    next accepted =>
      obtain ⟨next, returned, onward⟩ := Exec.bind_eq_ok.mp executed
      exact .cons (sound start label accepted) returned (inductionHypothesis onward)
    next => cases executed

theorem Run.of_execute_enabled (enabled : ∀ label ∈ labels, ∀ state, system.Enabled state label)
    (executed : system.execute (fun _ _ => true) start labels = .ok last) :
    system.Run start labels last := by
  induction labels generalizing start with
  | nil =>
    cases executed
    exact .nil _
  | cons label labels inductionHypothesis =>
    obtain ⟨next, returned, onward⟩ := Exec.bind_eq_ok.mp executed
    exact .cons (enabled label List.mem_cons_self start) returned
      (inductionHypothesis (fun other member => enabled other (List.mem_cons_of_mem _ member))
        onward)

theorem Run.preserves (Invariant : State → Prop)
    (preserved : ∀ state label next, Invariant state → system.Enabled state label →
      system.step state label = .ok next → Invariant next)
    (initially : Invariant start) (run : system.Run start labels last) : Invariant last := by
  induction run with
  | nil => exact initially
  | cons enabled returned _ inductionHypothesis =>
    exact inductionHypothesis (preserved _ _ _ initially enabled returned)

/-- What every step preserves, given the steps before it. -/
theorem Run.preserves_history (Invariant : List Label → State → Prop)
    (initially : Invariant [] start)
    (preserved : ∀ labels state label next, system.Run start labels state →
      Invariant labels state → system.Enabled state label →
      system.step state label = .ok next → Invariant (labels ++ [label]) next)
    (run : system.Run start labels last) : Invariant labels last := by
  have onward : ∀ {middle rest final}, system.Run middle rest final → ∀ before,
      system.Run start before middle → Invariant before middle →
        Invariant (before ++ rest) final := by
    intro middle rest final tail
    induction tail with
    | nil =>
      intro before _ kept
      rw [List.append_nil]
      exact kept
    | @cons state next last label labels enabled returned _ inductionHypothesis =>
      intro before run kept
      have further := run.append (.cons enabled returned (.nil next))
      have again := inductionHypothesis (before ++ [label]) further
        (preserved before state label next run kept enabled returned)
      rwa [List.append_assoc] at again
  exact onward run [] (.nil start) initially

/-- What one system does step by step, another that stays related to it does too. -/
theorem Run.simulates {Other : Type u} {other : System Other Label} {begin : Other}
    (Related : State → Other → Prop)
    (simulated : ∀ state twin label next, Related state twin → system.Enabled state label →
      system.step state label = .ok next →
      other.Enabled twin label ∧ ∃ after, other.step twin label = .ok after ∧ Related next after)
    (initially : Related start begin) (run : system.Run start labels last) :
    ∃ finish, other.Run begin labels finish ∧ Related last finish := by
  induction run generalizing begin with
  | nil => exact ⟨begin, .nil _, initially⟩
  | cons enabled returned _ inductionHypothesis =>
    obtain ⟨enabledTwin, after, returnedTwin, related⟩ :=
      simulated _ _ _ _ initially enabled returned
    obtain ⟨finish, onward, relatedLast⟩ := inductionHypothesis related
    exact ⟨finish, .cons enabledTwin returnedTwin onward, relatedLast⟩

/-- Amortized counting.  `Inv` may look at the labels that are still to come.  If a step spends
no more than it is charged and takes from the potential, then neither does a run. -/
theorem Run.amortizes (Inv : List Label → State → Prop) (potential : State → Nat)
    (spent charge : Label → Nat)
    (pays : ∀ state label rest next, Inv (label :: rest) state → system.Enabled state label →
      system.step state label = .ok next →
      Inv rest next ∧ spent label + potential next ≤ potential state + charge label)
    (initially : Inv labels start) (run : system.Run start labels last) :
    Inv [] last ∧
      (labels.map spent).sum + potential last ≤ potential start + (labels.map charge).sum := by
  induction run with
  | nil state =>
    refine ⟨initially, ?_⟩
    simp
  | @cons state next last label labels enabled returned _ inductionHypothesis =>
    obtain ⟨kept, step⟩ := pays state label labels next initially enabled returned
    obtain ⟨keptLast, onward⟩ := inductionHypothesis kept
    refine ⟨keptLast, ?_⟩
    simp only [List.map_cons, List.sum_cons]
    omega

/-- Some step of the run was as described. -/
def Past (system : System State Label) (start : State) (labels : List Label)
    (Described : State → Label → State → Prop) : Prop :=
  ∃ before label after state next, labels = before ++ label :: after ∧
    system.Run start before state ∧ system.Enabled state label ∧
    system.step state label = .ok next ∧ Described state label next

variable {Described : State → Label → State → Prop}

theorem Past.append (past : system.Past start labels Described) (rest : List Label) :
    system.Past start (labels ++ rest) Described := by
  obtain ⟨before, label, after, state, next, rfl, described⟩ := past
  refine ⟨before, label, after ++ rest, state, next, ?_, described⟩
  rw [List.append_assoc, List.cons_append]

theorem Past.now {label : Label} {state next : State} (run : system.Run start labels state)
    (enabled : system.Enabled state label) (returned : system.step state label = .ok next)
    (described : Described state label next) :
    system.Past start (labels ++ [label]) Described :=
  ⟨labels, label, [], state, next, rfl, run, enabled, returned, described⟩

def Safe (system : System State Label) (state : State) : Prop :=
  ∀ label, system.Enabled state label → ∃ next, system.step state label = .ok next

end System

end SpudLib
