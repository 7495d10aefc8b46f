import SpudLib.Eventing.Machine
import SpudLib.Eventing.Representation

/-!
# How far a moment has come

The dispatch loop leaves one block of entries for a moment.  The callbacks such
a block calls are the ones its event had when the moment started, unless the
event had none when it was triggered: the loop then starts from NULL.
-/

namespace SpudLib

open Link

/-- One callback of a moment and what it left in `evt->handled`. -/
structure Round where
  cb : Nat
  arg : Nat
  left : Bool

def Round.entries (moment : Nat) (round : Round) : List Entry :=
  [.called moment round.cb round.arg, .returned moment round.left]

namespace Trigger

/-- The callbacks a moment calls when its event has `start` as it starts. -/
def planned (trigger : Trigger) (start : List Nat) : List Nat :=
  if trigger.callbacks = [] then [] else start

def opening (trigger : Trigger) (start : List Nat) (rounds : List Round) : List Entry :=
  .started trigger.moment trigger.event start :: rounds.flatMap (Round.entries trigger.moment)

def result (trigger : Trigger) (rounds : List Round) : List Entry :=
  match trigger.resultCb with
  | none => []
  | some resultCb => [.reported trigger.moment resultCb (rounds.any Round.left)]

def block (trigger : Trigger) (start : List Nat) (rounds : List Round) : List Entry :=
  trigger.opening start rounds ++ trigger.result rounds ++ [.finished trigger.moment]

def Processed (trigger : Trigger) (entries : List Entry) : Prop :=
  ∃ start rounds, start.Nodup ∧ rounds.map Round.cb = trigger.planned start ∧
    entries = trigger.block start rounds

structure Scheduled {Data : Type} (trigger : Trigger) (cell : Nat × MomentData Data) : Prop where
  moment : cell.1 = trigger.moment
  notifier : cell.2.notifier = some trigger.event
  resultCb : cell.2.resultCb = trigger.resultCb
  handled : cell.2.handled = false
  captured : cell.2.bindings = none ↔ trigger.callbacks = []

end Trigger

def active (cells : List (Nat × BindingData)) : List Nat :=
  Dispatcher.callbacks (cells.filter fun cell => cell.2.normalBound)

theorem active_cons (binding : Nat) (data : BindingData) (cells : List (Nat × BindingData)) :
    active ((binding, data) :: cells) =
      if data.normalBound then data.cb :: active cells else active cells := by
  cases bound : data.normalBound <;> simp [active, bound]

theorem active_settled (cells : List (Nat × BindingData)) :
    active (Dispatcher.settledCells cells) = Dispatcher.callbacks cells := by
  have all : (Dispatcher.settledCells cells).filter (fun cell => cell.2.normalBound) =
      Dispatcher.settledCells cells := by
    rw [List.filter_eq_self]
    intro cell member
    obtain ⟨old, _, rfl⟩ := List.mem_map.mp member
    rfl
  rw [active, all, Dispatcher.callbacks_settledCells]

/-- How far the moment of `trigger` has come when its event has `cells`: the
calls of `rounds` are made, and the bindings behind the loop's position hold the rest. -/
def Progress (trigger : Trigger) (start : List Nat) (cells : List (Nat × BindingData))
    (rounds : List Round) : Control → List Entry → Prop
  | .visiting moment binding, entries =>
      moment = trigger.moment ∧ entries = trigger.opening start rounds ∧
        ∃ passed rest, cells = passed ++ rest ∧ binding = (refs rest).head? ∧
          rounds.map Round.cb ++ active rest = trigger.planned start
  | .calling moment binding handled, entries =>
      moment = trigger.moment ∧ handled = rounds.any Round.left ∧
        ∃ passed data rest arg, cells = passed ++ (binding, data) :: rest ∧
          entries = trigger.opening start rounds ++ [.called moment data.cb arg] ∧
          rounds.map Round.cb ++ data.cb :: active rest = trigger.planned start
  | .reporting moment, entries =>
      moment = trigger.moment ∧ entries = trigger.opening start rounds ∧
        rounds.map Round.cb = trigger.planned start
  | .resulting moment, entries | .finishing moment, entries =>
      moment = trigger.moment ∧
        entries = trigger.opening start rounds ++ trigger.result rounds ∧
        rounds.map Round.cb = trigger.planned start
  | .idle, _ | .dispatching, _ => False

section Grown

/-- A list edited while its event runs: bindings keep their place and their
callback, and the loop skips what is new. -/
inductive Grown : List (Nat × BindingData) → List (Nat × BindingData) → Prop where
  | added {cells} : (∀ cell ∈ cells, cell.2.normalBound = false) → Grown [] cells
  | kept {binding data change cells later} : change.cb = data.cb →
      change.normalBound = data.normalBound → Grown cells later →
      Grown ((binding, data) :: cells) ((binding, change) :: later)

variable {cells later : List (Nat × BindingData)}

theorem Grown.refl (cells : List (Nat × BindingData)) : Grown cells cells := by
  induction cells with
  | nil => exact .added (by simp)
  | cons cell rest inductionHypothesis => exact .kept rfl rfl inductionHypothesis

theorem Grown.split {front back : List (Nat × BindingData)} (grown : Grown (front ++ back) later) :
    ∃ laterFront laterBack, later = laterFront ++ laterBack ∧ Grown back laterBack := by
  induction front generalizing later with
  | nil => exact ⟨[], later, rfl, grown⟩
  | cons cell rest inductionHypothesis =>
    cases grown with
    | kept sameCb sameBound grown =>
      obtain ⟨laterFront, laterBack, rfl, behind⟩ := inductionHypothesis grown
      exact ⟨_ :: laterFront, laterBack, rfl, behind⟩

theorem Grown.active_eq (grown : Grown cells later) : active later = active cells := by
  induction grown with
  | @added cells skipped =>
    have none : cells.filter (fun cell => cell.2.normalBound) = [] := by
      rw [List.filter_eq_nil_iff]
      intro cell member
      simp [skipped cell member]
    simp [active, none]
  | @kept binding data change cells later sameCb sameBound _ inductionHypothesis =>
    unfold active at inductionHypothesis ⊢
    cases bound : data.normalBound with
    | false => simp [sameBound, bound, inductionHypothesis]
    | true => simp [sameBound, bound, sameCb, inductionHypothesis]

theorem Grown.head (grown : Grown cells later) {binding : Nat}
    (first : (refs cells).head? = some binding) : (refs later).head? = some binding := by
  cases grown with
  | added => cases first
  | kept => exact first

theorem boundCells_grown (cb arg fresh : Nat) (cells : List (Nat × BindingData)) :
    Grown cells (Dispatcher.boundCells cb arg fresh cells) := by
  induction cells with
  | nil => exact .added (by simp [Dispatcher.boundCells])
  | cons cell rest inductionHypothesis =>
    obtain ⟨binding, data⟩ := cell
    by_cases same : data.cb = cb
    · simpa [Dispatcher.boundCells, same] using .kept same.symm rfl (Grown.refl rest)
    · simpa [Dispatcher.boundCells, same] using .kept rfl rfl inductionHypothesis

theorem flaggedCells_grown (cb : Nat) (cells : List (Nat × BindingData)) :
    Grown cells (Dispatcher.flaggedCells cb cells) := by
  induction cells with
  | nil => exact .added (by simp [Dispatcher.flaggedCells])
  | cons cell rest inductionHypothesis =>
    obtain ⟨binding, data⟩ := cell
    by_cases same : data.cb = cb
    · simpa [Dispatcher.flaggedCells, same] using .kept same.symm rfl (Grown.refl rest)
    · simpa [Dispatcher.flaggedCells, same] using .kept rfl rfl inductionHypothesis

/-- The program outside the loop cannot disturb the moment being processed. -/
theorem Progress.grown {trigger : Trigger} {start : List Nat} {rounds : List Round}
    {control : Control} {entries : List Entry} (outside : control.Outside)
    (progress : Progress trigger start cells rounds control entries) (grown : Grown cells later) :
    Progress trigger start later rounds control entries := by
  cases control with
  | calling moment binding handled =>
    obtain ⟨same, sofar, passed, data, rest, arg, rfl, trace, plan⟩ := progress
    obtain ⟨laterPassed, laterRest, rfl, behind⟩ := grown.split
    cases behind with
    | @kept _ _ change _ later sameCb sameBound behind =>
      refine ⟨same, sofar, laterPassed, change, later, arg, rfl, ?_, ?_⟩
      · rw [sameCb]
        exact trace
      · rw [sameCb, behind.active_eq]
        exact plan
  | resulting moment => exact progress
  | idle => exact progress
  | dispatching => cases outside
  | visiting moment binding => cases outside
  | reporting moment => cases outside
  | finishing moment => cases outside

end Grown

end SpudLib
