import Mathlib.Data.List.Lex
import Mathlib.Data.Set.Basic

/-!
# Comparison functions

A comparison function of C answers with an `int` of which only the sign counts.
It orders a set when the signs are those of a total order there, and it does so
as soon as it agrees with the order of some keys.  Parts that are compared one
after the other are compared as a list is.
-/

namespace SpudLib

universe u v

variable {Alpha : Type u} {Key : Type v}

/-- The signs of the comparison are those of a total order on a set. -/
structure TotallyOrders (cmp : Alpha → Alpha → Int) (domain : Set Alpha) : Prop where
  antisymmetric : ∀ a ∈ domain, ∀ b ∈ domain, (cmp a b).sign = -(cmp b a).sign
  transitive : ∀ a ∈ domain, ∀ b ∈ domain, ∀ c ∈ domain, cmp a b ≤ 0 → cmp b c ≤ 0 → cmp a c ≤ 0
  exact : ∀ a ∈ domain, ∀ b ∈ domain, cmp a b = 0 ↔ a = b

/-- An answer says how two keys compare. -/
def Agrees [LT Key] (answer : Int) (first second : Key) : Prop :=
  (answer < 0 ↔ first < second) ∧ (answer = 0 ↔ first = second)

section Order

variable [LinearOrder Key]

theorem Agrees.sign_eq_neg {answer opposite : Int} {first second : Key}
    (there : Agrees answer first second) (back : Agrees opposite second first) :
    answer.sign = -opposite.sign := by
  rcases lt_trichotomy first second with less | same | greater
  · have negative := there.1.mpr less
    have positive : 0 < opposite := by
      have notNegative := mt back.1.mp less.not_gt
      have notZero := mt back.2.mp less.ne'
      omega
    rw [Int.sign_eq_neg_one_of_neg negative, Int.sign_eq_one_of_pos positive]
  · rw [there.2.mpr same, back.2.mpr same.symm]
    rfl
  · have negative := back.1.mpr greater
    have positive : 0 < answer := by
      have notNegative := mt there.1.mp greater.not_gt
      have notZero := mt there.2.mp greater.ne'
      omega
    rw [Int.sign_eq_neg_one_of_neg negative, Int.sign_eq_one_of_pos positive]
    rfl

theorem Agrees.le_iff {answer : Int} {first second : Key} (agrees : Agrees answer first second) :
    answer ≤ 0 ↔ first ≤ second := by
  rw [Int.le_iff_lt_or_eq, agrees.1, agrees.2, le_iff_lt_or_eq]

theorem totallyOrders_of_agrees {cmp : Alpha → Alpha → Int} {key : Alpha → Key}
    {domain : Set Alpha} (agrees : ∀ a ∈ domain, ∀ b ∈ domain, Agrees (cmp a b) (key a) (key b))
    (distinct : ∀ a ∈ domain, ∀ b ∈ domain, key a = key b → a = b) :
    TotallyOrders cmp domain where
  antisymmetric a memberA b memberB :=
    (agrees a memberA b memberB).sign_eq_neg (agrees b memberB a memberA)
  transitive a memberA b memberB c memberC first second := by
    rw [(agrees a memberA b memberB).le_iff] at first
    rw [(agrees b memberB c memberC).le_iff] at second
    exact (agrees a memberA c memberC).le_iff.mpr (first.trans second)
  exact a memberA b memberB := by
    rw [(agrees a memberA b memberB).2]
    exact ⟨distinct a memberA b memberB, congrArg key⟩

end Order

section Lists

theorem agrees_sub (first second : Nat) : Agrees ((first : Int) - second) first second :=
  ⟨by omega, by omega⟩

/-- Heads are compared first, and tails if they are equal. -/
theorem agrees_cons [LinearOrder Key] {answer next : Int} {first second : Key}
    {firsts seconds : List Key} (head : Agrees answer first second)
    (tail : Agrees next firsts seconds) :
    Agrees (if answer ≠ 0 then answer else next) (first :: firsts) (second :: seconds) := by
  unfold Agrees
  rw [List.cons_lt_cons_iff, List.cons.injEq]
  by_cases same : answer = 0
  · have equal := head.2.mp same
    rw [if_neg (not_not.mpr same), tail.1, tail.2]
    simp [equal]
  · have different := mt head.2.mpr same
    rw [if_pos same, head.1]
    simp [different, same]

theorem Agrees.cons [LinearOrder Key] {answer : Int} {firsts seconds : List Key}
    (tail : Agrees answer firsts seconds) (head : Key) :
    Agrees answer (head :: firsts) (head :: seconds) := by
  have heads : Agrees 0 head head := ⟨by simp, by simp⟩
  simpa using agrees_cons heads tail

theorem agrees_of_head_ne [LinearOrder Key] {answer : Int} {first second : Key}
    (head : Agrees answer first second) (different : first ≠ second) (firsts seconds : List Key) :
    Agrees answer (first :: firsts) (second :: seconds) := by
  unfold Agrees
  rw [List.cons_lt_cons_iff, List.cons.injEq, head.1, head.2]
  simp [different]

end Lists

end SpudLib
