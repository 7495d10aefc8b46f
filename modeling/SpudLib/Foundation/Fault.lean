import Mathlib.Algebra.Group.Int.Defs
import Mathlib.Algebra.Group.Nat.Defs
import Mathlib.Data.Option.Basic

/-!
# Faulting computations

C code that goes wrong has no further behaviour.  A modelled function that can
go wrong returns `Except Fault`: the error says which rule of the language the
execution broke, and `diverges` is returned when a loop used up its fuel.
-/

namespace SpudLib

/-- How an execution of C code can stop without returning. -/
inductive Fault where
  | assertFailed
  | nullDereference
  | useAfterFree
  | outOfBounds
  | intOverflow
  | diverges
  deriving DecidableEq, Repr

/-- A computation that returns a value or stops with a fault. -/
abbrev Exec (Alpha : Type*) := Except Fault Alpha

namespace Exec

universe u

variable {Alpha Beta : Type u}

/-- A sequence of two computations returns exactly when both do. -/
theorem bind_eq_ok {first : Exec Alpha} {next : Alpha → Exec Beta} {result : Beta} :
    (first >>= next) = .ok result ↔
      ∃ value, first = .ok value ∧ next value = .ok result := by
  cases first with
  | error fault => simp [bind, Except.bind]
  | ok value => simp [bind, Except.bind]

@[simp] theorem ok_bind (value : Alpha) (next : Alpha → Exec Beta) :
    ((.ok value : Exec Alpha) >>= next) = next value := rfl

@[simp] theorem error_bind (fault : Fault) (next : Alpha → Exec Beta) :
    ((.error fault : Exec Alpha) >>= next) = .error fault := rfl

@[simp] theorem pure_eq_ok (value : Alpha) : (pure value : Exec Alpha) = .ok value := rfl

theorem exists_of_map {computation : Exec Alpha} (view : Alpha → Beta) {seen : Beta}
    (same : computation.toOption.map view = some seen) :
    ∃ value, computation = .ok value ∧ view value = seen := by
  cases computation with
  | error fault => cases same
  | ok value => exact ⟨value, rfl, Option.some.inj same⟩

theorem eq_ok_of_toOption {computation : Exec Alpha} {value : Alpha}
    (some : computation.toOption = .some value) : computation = .ok value := by
  cases computation with
  | error fault => cases some
  | ok other => exact congrArg Except.ok (Option.some.inj some)

def fault? : Exec Alpha → Option Fault
  | .ok _ => none
  | .error fault => some fault

theorem eq_error_of_fault? {computation : Exec Alpha} {reason : Fault}
    (stops : fault? computation = some reason) : computation = .error reason := by
  cases computation with
  | error fault => exact congrArg Except.error (Option.some.inj stops)
  | ok value => cases stops

end Exec

end SpudLib
