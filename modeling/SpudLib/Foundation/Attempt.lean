import Mathlib.Data.List.Basic
import Mathlib.Order.Defs.Unbundled

/-!
# Attempts

A program that sets something up asks its environment for one thing after the
other and gives up at the first refusal, but what it has done until then stays
done.  An attempt returns or fails, and leaves a state behind in both cases;
what all its steps do to the state, the whole attempt does.
-/

namespace SpudLib

def Grants (answers : List Bool) (count : Nat) : Prop :=
  answers.take count = List.replicate count true

instance (answers : List Bool) (count : Nat) : Decidable (Grants answers count) :=
  inferInstanceAs (Decidable (_ = _))

@[simp] theorem grants_zero (answers : List Bool) : Grants answers 0 := rfl

@[simp] theorem not_grants_nil (count : Nat) : ¬ Grants [] (count + 1) := by
  simp [Grants]

@[simp] theorem grants_cons (granted : Bool) (answers : List Bool) (count : Nat) :
    Grants (granted :: answers) (count + 1) ↔ granted = true ∧ Grants answers count := by
  simp [Grants, List.replicate_succ]

theorem grants_succ (answers : List Bool) (count : Nat) :
    Grants answers (count + 1) ↔ Grants answers 1 ∧ Grants answers.tail count := by
  cases answers with
  | nil => simp
  | cons granted answers => simp

/-- A computation that returns or fails, and leaves a state in both cases. -/
structure Attempt (State Error Alpha : Type) where
  run : State → Except Error Alpha × State

namespace Attempt

variable {State Error Alpha Beta : Type}

instance : Monad (Attempt State Error) where
  pure value := ⟨fun state => (.ok value, state)⟩
  bind attempt next := ⟨fun state =>
    match attempt.run state with
    | (.ok value, after) => (next value).run after
    | (.error error, after) => (.error error, after)⟩

def get : Attempt State Error State := ⟨fun state => (.ok state, state)⟩

def modify (change : State → State) : Attempt State Error Unit :=
  ⟨fun state => (.ok (), change state)⟩

def lift (computation : State → Alpha × State) : Attempt State Error Alpha :=
  ⟨fun state => (.ok (computation state).1, (computation state).2)⟩

def fail (error : Error) : Attempt State Error Alpha := ⟨fun state => (.error error, state)⟩

def orElse (attempt : Attempt State Error Alpha) (handler : Error → Attempt State Error Alpha) :
    Attempt State Error Alpha :=
  ⟨fun state =>
    match attempt.run state with
    | (.ok value, after) => (.ok value, after)
    | (.error error, after) => (handler error).run after⟩

section Steps

variable {attempt : Attempt State Error Alpha} {next : Alpha → Attempt State Error Beta}
  {state after : State}

theorem run_bind_of_ok {value : Alpha} (returned : attempt.run state = (.ok value, after)) :
    (attempt >>= next).run state = (next value).run after := by
  change (match attempt.run state with
    | (.ok value, after) => (next value).run after
    | (.error error, after) => (.error error, after)) = _
  rw [returned]

theorem run_bind_of_error {error : Error} (failed : attempt.run state = (.error error, after)) :
    (attempt >>= next).run state = (.error error, after) := by
  change (match attempt.run state with
    | (.ok value, after) => (next value).run after
    | (.error error, after) => (.error error, after)) = _
  rw [failed]

theorem bind_assoc {Gamma : Type} (attempt : Attempt State Error Alpha)
    (next : Alpha → Attempt State Error Beta) (last : Beta → Attempt State Error Gamma) :
    attempt >>= next >>= last = attempt >>= fun value => next value >>= last := by
  have runs : ∀ state, (attempt >>= next >>= last).run state =
      (attempt >>= fun value => next value >>= last).run state := by
    intro state
    rcases ran : attempt.run state with ⟨error | value, after⟩
    · rw [run_bind_of_error ran, run_bind_of_error (run_bind_of_error ran)]
    · rw [run_bind_of_ok ran]
      rcases again : (next value).run after with ⟨error | other, final⟩
      · rw [run_bind_of_error again,
          run_bind_of_error ((run_bind_of_ok ran).trans again)]
      · rw [run_bind_of_ok again, run_bind_of_ok ((run_bind_of_ok ran).trans again)]
  exact congrArg Attempt.mk (funext runs)

theorem run_orElse_of_ok {attempt : Attempt State Error Alpha}
    {handler : Error → Attempt State Error Alpha} {value : Alpha}
    (returned : attempt.run state = (.ok value, after)) :
    (attempt.orElse handler).run state = (.ok value, after) := by
  simp only [orElse, returned]

theorem run_orElse_of_error {attempt : Attempt State Error Alpha}
    {handler : Error → Attempt State Error Alpha} {error : Error}
    (failed : attempt.run state = (.error error, after)) :
    (attempt.orElse handler).run state = (handler error).run after := by
  simp only [orElse, failed]

end Steps

/-- Every run of the attempt relates the state before to the state after. -/
def Keeps (Relation : State → State → Prop) (attempt : Attempt State Error Alpha) : Prop :=
  ∀ state, Relation state (attempt.run state).2

section Keeps

variable {Relation : State → State → Prop}

theorem Keeps.pure [Std.Refl Relation] (value : Alpha) :
    (Pure.pure value : Attempt State Error Alpha).Keeps Relation := Std.Refl.refl

theorem Keeps.fail [Std.Refl Relation] (error : Error) :
    (Attempt.fail error : Attempt State Error Alpha).Keeps Relation := Std.Refl.refl

theorem Keeps.get [Std.Refl Relation] :
    (Attempt.get : Attempt State Error State).Keeps Relation := Std.Refl.refl

variable [IsTrans State Relation]

theorem Keeps.bind {attempt : Attempt State Error Alpha} {next : Alpha → Attempt State Error Beta}
    (first : attempt.Keeps Relation) (second : ∀ value, (next value).Keeps Relation) :
    (attempt >>= next).Keeps Relation := by
  intro state
  have before := first state
  rcases ran : attempt.run state with ⟨error | value, after⟩
  · rw [run_bind_of_error ran]
    rw [ran] at before
    exact before
  · rw [run_bind_of_ok ran]
    rw [ran] at before
    exact IsTrans.trans _ _ _ before (second value after)

theorem Keeps.orElse {attempt : Attempt State Error Alpha}
    {handler : Error → Attempt State Error Alpha}
    (first : attempt.Keeps Relation) (second : ∀ error, (handler error).Keeps Relation) :
    (attempt.orElse handler).Keeps Relation := by
  intro state
  have before := first state
  rcases ran : attempt.run state with ⟨error | value, after⟩
  · rw [run_orElse_of_error ran]
    rw [ran] at before
    exact IsTrans.trans _ _ _ before (second error after)
  · rw [run_orElse_of_ok ran]
    rw [ran] at before
    exact before

end Keeps

end Attempt

end SpudLib
