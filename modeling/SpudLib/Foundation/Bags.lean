import Mathlib.Algebra.Order.Group.Multiset

/-!
# Bags that give away their greatest items

A bag is known by its history: what was put into it and what was taken out.  It
serves an order when everything taken out was, at that moment, not exceeded by
anything in the bag.
-/

namespace SpudLib

variable {Alpha : Type*}

inductive BagEvent (Alpha : Type*) where
  | put (item : Alpha)
  | taken (item : Alpha)
  deriving DecidableEq

namespace BagEvent

def put? : BagEvent Alpha → Option Alpha
  | .put item => some item
  | .taken _ => none

def taken? : BagEvent Alpha → Option Alpha
  | .put _ => none
  | .taken item => some item

def puts (history : List (BagEvent Alpha)) : List Alpha := history.filterMap put?

def takes (history : List (BagEvent Alpha)) : List Alpha := history.filterMap taken?

@[simp] theorem puts_append (front back : List (BagEvent Alpha)) :
    puts (front ++ back) = puts front ++ puts back := List.filterMap_append

@[simp] theorem takes_append (front back : List (BagEvent Alpha)) :
    takes (front ++ back) = takes front ++ takes back := List.filterMap_append

@[simp] theorem puts_map_put (items : List Alpha) : puts (items.map .put) = items := by
  induction items with
  | nil => rfl
  | cons item items inductionHypothesis => exact congrArg (item :: ·) inductionHypothesis

@[simp] theorem takes_map_put (items : List Alpha) : takes (items.map .put) = [] := by
  induction items with
  | nil => rfl
  | cons item items inductionHypothesis => exact inductionHypothesis

@[simp] theorem puts_map_taken (items : List Alpha) : puts (items.map .taken) = [] := by
  induction items with
  | nil => rfl
  | cons item items inductionHypothesis => exact inductionHypothesis

@[simp] theorem takes_map_taken (items : List Alpha) : takes (items.map .taken) = items := by
  induction items with
  | nil => rfl
  | cons item items inductionHypothesis => exact congrArg (item :: ·) inductionHypothesis

end BagEvent

/-- `bag` is what a history leaves in a bag that serves the order `tops`. -/
inductive GivesGreatest (tops : Alpha → Alpha → Prop) :
    List (BagEvent Alpha) → Multiset Alpha → Prop where
  | nil : GivesGreatest tops [] 0
  | put {history bag} (item) : GivesGreatest tops history bag →
      GivesGreatest tops (history ++ [.put item]) (item ::ₘ bag)
  | take {history bag} (item) : GivesGreatest tops history (item ::ₘ bag) →
      (∀ other ∈ item ::ₘ bag, tops item other) → GivesGreatest tops (history ++ [.taken item]) bag

namespace GivesGreatest

variable {tops : Alpha → Alpha → Prop} {history : List (BagEvent Alpha)} {bag : Multiset Alpha}

/-- What was put into the bag was taken out or is left. -/
theorem balance (serves : GivesGreatest tops history bag) :
    (BagEvent.takes history : Multiset Alpha) + bag = BagEvent.puts history := by
  induction serves with
  | nil => rfl
  | @put history bag item _ inductionHypothesis =>
    rw [BagEvent.takes_append, BagEvent.puts_append, ← Multiset.coe_add, ← Multiset.coe_add,
      ← inductionHypothesis]
    change ↑(BagEvent.takes history) + 0 + (item ::ₘ bag) = _ + _ + {item}
    rw [add_zero, add_assoc, add_comm bag {item}, Multiset.singleton_add]
  | @take history bag item _ _ inductionHypothesis =>
    rw [BagEvent.takes_append, BagEvent.puts_append, ← Multiset.coe_add, ← Multiset.coe_add,
      ← inductionHypothesis]
    change _ + ({item} : Multiset Alpha) + bag = _ + 0
    rw [add_zero, add_assoc, Multiset.singleton_add]

theorem puts (serves : GivesGreatest tops history bag) (items : List Alpha) :
    GivesGreatest tops (history ++ items.map .put) (↑items + bag) := by
  induction items generalizing history bag with
  | nil => rwa [List.map_nil, List.append_nil, Multiset.coe_nil, zero_add]
  | cons item items inductionHypothesis =>
    have onward := inductionHypothesis (serves.put item)
    rw [List.append_assoc, Multiset.add_cons] at onward
    rwa [← Multiset.cons_coe, Multiset.cons_add]

/-- What was taken out was in the bag, and nothing in it exceeded it. -/
theorem greatest (serves : GivesGreatest tops history bag) {front back : List (BagEvent Alpha)}
    {item : Alpha} (split : history = front ++ .taken item :: back) :
    ∃ before : Multiset Alpha, ↑(BagEvent.takes front) + before = BagEvent.puts front ∧
      item ∈ before ∧ ∀ other ∈ before, tops item other := by
  induction serves generalizing back with
  | nil => exact absurd split.symm (by simp)
  | @put history bag last _ inductionHypothesis =>
    rcases back.eq_nil_or_concat with rfl | ⟨back, final, rfl⟩
    · have ends := List.append_inj_right' split rfl
      cases ends
    · rw [List.concat_eq_append, ← List.cons_append, ← List.append_assoc] at split
      exact inductionHypothesis (List.append_inj_left' split rfl)
  | @take history bag last served top inductionHypothesis =>
    rcases back.eq_nil_or_concat with rfl | ⟨back, final, rfl⟩
    · obtain ⟨rfl, ends⟩ := List.append_inj' split rfl
      obtain rfl : last = item := by simpa using ends
      exact ⟨last ::ₘ bag, served.balance, Multiset.mem_cons_self .., top⟩
    · rw [List.concat_eq_append, ← List.cons_append, ← List.append_assoc] at split
      exact inductionHypothesis (List.append_inj_left' split rfl)

end GivesGreatest

end SpudLib
