import SpudLib.Foundation.Procedure
import SpudLib.Foundation.System
import Mathlib.Data.Set.Lattice
import Mathlib.Order.CompletePartialOrder

/-!
# Calls inside calls

A procedure that calls back waits, and meanwhile any other procedure may be called,
from the code called back and from the callbacks of that call in turn.  What is known
only grows: an invariant that says where things come from may use everything that the
calls so far have brought in, those made inside the call as well.
-/

namespace SpudLib

namespace Outcome

variable {Call State Alpha Beta World : Type} [Preorder World]

/-- Whenever the procedure calls back `Inv` holds, and it returns as in `Post`, provided the
code called back leaves `Inv` for a world that may have grown. -/
def Sustains (Inv : World → State → Prop) (Post : World → Alpha → State → Prop) (world : World) :
    Outcome Call State Alpha → Prop
  | .done value state => Post world value state
  | .fault _ => True
  | .calling _ state resume =>
      Inv world state ∧ ∀ later after, world ≤ later → Inv later after →
        (resume after).Sustains Inv Post later

variable {Inv : World → State → Prop} {Post : World → Alpha → State → Prop} {world : World}
  {outcome : Outcome Call State Alpha}

theorem Sustains.bind {next : Alpha → State → Outcome Call State Beta}
    {Final : World → Beta → State → Prop} (first : outcome.Sustains Inv Post world)
    (second : ∀ later value state, world ≤ later → Post later value state →
      (next value state).Sustains Inv Final later) :
    (outcome.bind next).Sustains Inv Final world := by
  induction outcome generalizing world with
  | done value state => exact second world value state (le_refl world) first
  | fault reason => trivial
  | calling call state resume inductionHypothesis =>
    refine ⟨first.1, ?_⟩
    intro later after grown holds
    apply inductionHypothesis after (first.2 later after grown holds)
    intro last value state further
    exact second last value state (grown.trans further)

theorem Sustains.consequence {Final : World → Alpha → State → Prop}
    (sustains : outcome.Sustains Inv Post world)
    (weaker : ∀ later value state, world ≤ later → Post later value state →
      Final later value state) :
    outcome.Sustains Inv Final world := by
  induction outcome generalizing world with
  | done value state => exact weaker world value state (le_refl world) sustains
  | fault reason => trivial
  | calling call state resume inductionHypothesis =>
    refine ⟨sustains.1, ?_⟩
    intro later after grown holds
    apply inductionHypothesis after (sustains.2 later after grown holds)
    intro last value state further
    exact weaker last value state (grown.trans further)

end Outcome

namespace Proc

variable {Call State Alpha Beta World : Type} [Preorder World]

def Keeps (Inv : World → State → Prop) (base : World) (procedure : Proc Call State Alpha) : Prop :=
  ∀ world state, base ≤ world → Inv world state →
    (procedure.run state).Sustains Inv (fun later _ after => Inv later after) world

namespace Keeps

variable {Inv : World → State → Prop} {base : World}

theorem pure (value : Alpha) : Keeps Inv base (Pure.pure value : Proc Call State Alpha) :=
  fun _ _ _ holds => holds

theorem fail (reason : Fault) : Keeps Inv base (Proc.fail reason : Proc Call State Alpha) :=
  fun _ _ _ _ => trivial

theorem get : Keeps Inv base (Proc.get : Proc Call State State) := fun _ _ _ holds => holds

theorem modify {change : State → State}
    (kept : ∀ world state, base ≤ world → Inv world state → Inv world (change state)) :
    Keeps Inv base (Proc.modify change : Proc Call State Unit) := kept

theorem lift {computation : State → Exec (Alpha × State)}
    (kept : ∀ world state value after, base ≤ world → Inv world state →
      computation state = .ok (value, after) → Inv world after) :
    Keeps Inv base (Proc.lift computation : Proc Call State Alpha) := by
  intro world state known holds
  unfold Proc.lift
  dsimp only
  split
  next value after returned => exact kept world state value after known holds returned
  next => trivial

theorem callBack (call : Call) : Keeps Inv base (Proc.callBack call : Proc Call State Unit) :=
  fun _ _ _ holds => ⟨holds, fun _ _ _ kept => kept⟩

theorem bind {procedure : Proc Call State Alpha} {next : Alpha → Proc Call State Beta}
    (first : Keeps Inv base procedure) (second : ∀ value, Keeps Inv base (next value)) :
    Keeps Inv base (procedure >>= next) := by
  intro world state known holds
  apply Outcome.Sustains.bind (first world state known holds)
  intro later value after grown kept
  exact second value later after (known.trans grown) kept

theorem ite {condition : Prop} [Decidable condition] {first second : Proc Call State Alpha}
    (one : condition → Keeps Inv base first) (other : ¬ condition → Keeps Inv base second) :
    Keeps Inv base (if condition then first else second) := by
  by_cases holds : condition
  · rw [if_pos holds]
    exact one holds
  · rw [if_neg holds]
    exact other holds

end Keeps

end Proc

/-- A state, and the calls that wait for the code they called back, the innermost first. -/
structure Nest (Call State : Type) where
  state : State
  pending : List (State → Outcome Call State Unit)

/-- A procedure is called, or the code called back by the innermost call returns. -/
inductive NestLabel (Request : Type) where
  | call (request : Request)
  | ret

namespace Nest

variable {Call State Request Fact : Type}

/-- A call gets as far as its end, or as the code that it calls back. -/
def settle (pending : List (State → Outcome Call State Unit)) :
    Outcome Call State Unit → Exec (Nest Call State)
  | .done _ state => .ok ⟨state, pending⟩
  | .fault reason => .error reason
  | .calling _ state resume => .ok ⟨state, resume :: pending⟩

variable (procedure : Request → Proc Call State Unit)

def step (nest : Nest Call State) : NestLabel Request → Exec (Nest Call State)
  | .call request => settle nest.pending ((procedure request).run nest.state)
  | .ret =>
      match nest.pending with
      | [] => .ok nest
      | resume :: rest => settle rest (resume nest.state)

def system : System (Nest Call State) (NestLabel Request) where
  Enabled nest
    | .call _ => True
    | .ret => nest.pending ≠ []
  step := step procedure

def Brings (grants : Request → State → Set Fact) (fact : Fact) (nest : Nest Call State)
    (label : NestLabel Request) (_ : Nest Call State) : Prop :=
  ∃ request, label = .call request ∧ fact ∈ grants request nest.state

def granted (grants : Request → State → Set Fact) (start : Nest Call State)
    (labels : List (NestLabel Request)) : Set Fact :=
  {fact | (system procedure).Past start labels (Brings grants fact)}

/-- The state is as `Inv` says, and the calls that wait go on as they should. -/
structure Sustained (Inv : Set Fact → State → Prop) (known : Set Fact) (nest : Nest Call State) :
    Prop where
  holds : Inv known nest.state
  pending : ∀ resume ∈ nest.pending, ∀ more after, known ⊆ more → Inv more after →
    (resume after).Sustains Inv (fun later _ last => Inv later last) more

section Runs

variable {procedure} {Inv : Set Fact → State → Prop} {grants : Request → State → Set Fact}
  {known : Set Fact} {nest next : Nest Call State}

theorem settle_sustained {outcome : Outcome Call State Unit}
    {pending : List (State → Outcome Call State Unit)}
    (sustains : outcome.Sustains Inv (fun later _ last => Inv later last) known)
    (others : ∀ resume ∈ pending, ∀ more after, known ⊆ more → Inv more after →
      (resume after).Sustains Inv (fun later _ last => Inv later last) more)
    (returned : settle pending outcome = .ok next) : Sustained Inv known next := by
  cases outcome with
  | done value state =>
    cases returned
    exact ⟨sustains, others⟩
  | fault reason => cases returned
  | calling call state resume =>
    cases returned
    refine ⟨sustains.1, ?_⟩
    intro waiting member more after grown holds
    rcases List.mem_cons.mp member with rfl | member
    · exact sustains.2 more after grown holds
    · exact others waiting member more after grown holds

theorem Sustained.grow (sustained : Sustained Inv known nest) {more : Set Fact}
    (monotone : ∀ known more state, known ⊆ more → Inv known state → Inv more state)
    (grown : known ⊆ more) : Sustained Inv more nest :=
  ⟨monotone known more nest.state grown sustained.holds,
    fun resume member later after further =>
      sustained.pending resume member later after (grown.trans further)⟩

/-- If every call keeps the invariant given what it brings in itself, then so does every run
of calls inside calls given what all of them have brought in. -/
theorem run_sustains
    (monotone : ∀ known more state, known ⊆ more → Inv known state → Inv more state)
    (keeps : ∀ request known state, grants request state ⊆ known → Inv known state →
      ((procedure request).run state).Sustains Inv (fun later _ last => Inv later last) known)
    {start last : Nest Call State} {labels : List (NestLabel Request)}
    (initially : Inv ∅ start.state) (idle : start.pending = [])
    (run : (system procedure).Run start labels last) :
    Inv (granted procedure grants start labels) last.state := by
  have sustained : Sustained Inv (granted procedure grants start labels) last := by
    refine run.preserves_history
      (fun labels nest => Sustained Inv (granted procedure grants start labels) nest) ?_ ?_
    · refine Sustained.grow ⟨initially, ?_⟩ monotone (Set.empty_subset _)
      intro resume member
      rw [idle] at member
      exact absurd member List.not_mem_nil
    · intro before nest label next run sustained enabled returned
      have older : granted procedure grants start before ⊆
          granted procedure grants start (before ++ [label]) := by
        intro fact past
        exact System.Past.append past [label]
      have grown := sustained.grow monotone older
      cases label with
      | call request =>
        have brought : grants request nest.state ⊆
            granted procedure grants start (before ++ [.call request]) := by
          intro fact member
          exact System.Past.now run enabled returned ⟨request, rfl, member⟩
        exact settle_sustained (keeps request _ nest.state brought grown.holds) grown.pending
          returned
      | ret =>
        cases waiting : nest.pending with
        | nil => exact absurd waiting enabled
        | cons resume rest =>
          change step procedure nest .ret = .ok next at returned
          rw [step, waiting] at returned
          apply settle_sustained _ _ returned
          · apply grown.pending resume
            · rw [waiting]
              exact List.mem_cons_self
            · exact subset_rfl
            · exact grown.holds
          · intro other member
            apply grown.pending other
            rw [waiting]
            exact List.mem_cons_of_mem _ member
  exact sustained.holds

end Runs

end Nest

end SpudLib
