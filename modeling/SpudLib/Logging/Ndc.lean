import SpudLib.Foundation.System
import Mathlib.Data.List.Basic

/-!
# The diagnostic contexts

`ls_log_push_ndc` and `ls_log_pop_ndc` of `src/ls_log.c`.  The contexts form a
stack whose depth is counted beside it, in an `int`; a push returns the new
depth, and popping that depth takes off everything down to the push.
-/

namespace SpudLib

/-- `_ndc_node_t` without its link. -/
structure NdcNode where
  id : UInt32
  message : String
  deriving DecidableEq

/-- `_ndc_depth`, the list at `_ndc_head` and `_ndc_count`. -/
structure Ndc where
  depth : Int
  head : List NdcNode
  count : UInt32
  deriving DecidableEq

/-- What `ls_log_push_ndc` is answered by `vsnprintf`, by the allocator for the node and for its
message, and by `vsprintf`. -/
structure PushAnswers where
  measured : Bool
  node : Bool
  message : Bool
  printed : Bool

def intMax : Int := 2 ^ 31 - 1

namespace Ndc

/-- `ls_log_push_ndc`, given what its format prints. -/
def lsLogPushNdc (ndc : Ndc) (message : String) (answers : PushAnswers) : Exec (Int × Ndc) :=
  if !answers.measured then pure (0, ndc)
  else if !answers.node then pure (0, ndc)
  else if !answers.message then pure (0, ndc)
  else if !answers.printed then .error .assertFailed
  else if ndc.depth = intMax then .error .intOverflow
  else pure (ndc.depth + 1, ⟨ndc.depth + 1, ⟨ndc.count, message⟩ :: ndc.head, ndc.count + 1⟩)

/-- The loop of `ls_log_pop_ndc`. -/
def popNdcLoop (ndcDepth : Int) : List NdcNode → Int → List NdcNode × Int
  | [], depth => ([], depth)
  | node :: next, depth =>
      if depth ≥ ndcDepth then popNdcLoop ndcDepth next (depth - 1) else (node :: next, depth)

def lsLogPopNdc (ndc : Ndc) (ndcDepth : Int) : Exec Ndc :=
  if ndcDepth < 0 then .error .assertFailed
  else if 0 = ndcDepth then pure ndc
  else
    let popped := popNdcLoop ndcDepth ndc.head ndc.depth
    pure { ndc with head := popped.1, depth := popped.2 }

def Counted (ndc : Ndc) : Prop := ndc.depth = ndc.head.length

def initial : Ndc := ⟨0, [], 0⟩

/-- What a push returned, given the contexts before and after it. -/
def Above (below : List NdcNode) (ndcDepth : Int) (stacked : List NdcNode) : Prop :=
  (ndcDepth = 0 ∧ stacked = below) ∨
    (ndcDepth = below.length + 1 ∧ ∃ node, stacked = node :: below)

variable {ndc after : Ndc} {ndcDepth : Int}

theorem lsLogPushNdc_ok {message : String} {answers : PushAnswers} (counted : ndc.Counted)
    (pushed : ndc.lsLogPushNdc message answers = .ok (ndcDepth, after)) :
    after.Counted ∧ Above ndc.head ndcDepth after.head := by
  unfold lsLogPushNdc at pushed
  split at pushed
  · cases pushed
    exact ⟨counted, .inl ⟨rfl, rfl⟩⟩
  split at pushed
  · cases pushed
    exact ⟨counted, .inl ⟨rfl, rfl⟩⟩
  split at pushed
  · cases pushed
    exact ⟨counted, .inl ⟨rfl, rfl⟩⟩
  split at pushed
  · cases pushed
  split at pushed
  · cases pushed
  · cases pushed
    refine ⟨?_, .inr ⟨?_, _, rfl⟩⟩
    · change ndc.depth + 1 = (ndc.head.length + 1 : Nat)
      rw [show ndc.depth = ndc.head.length from counted]
      rfl
    · rw [show ndc.depth = ndc.head.length from counted]

/-- Popping leaves as many contexts as stood below the depth, if there were more. -/
theorem popNdcLoop_eq {below : Nat} (stacked : List NdcNode) :
    popNdcLoop (below + 1) stacked stacked.length =
      (stacked.drop (stacked.length - below), ((min stacked.length below : Nat) : Int)) := by
  induction stacked with
  | nil => simp [popNdcLoop]
  | cons node next inductionHypothesis =>
    have length : ((node :: next).length : Int) = next.length + 1 := rfl
    rw [popNdcLoop, length]
    by_cases deep : (next.length : Int) + 1 ≥ below + 1
    · rw [if_pos deep, Int.add_sub_cancel, inductionHypothesis]
      have more : (node :: next).length - below = next.length - below + 1 := by
        rw [List.length_cons]
        omega
      rw [more, List.drop_succ_cons, List.length_cons]
      congr 2
      omega
    · rw [if_neg deep]
      have none : (node :: next).length - below = 0 := by
        rw [List.length_cons]
        omega
      rw [none, List.drop_zero]
      congr 1
      rw [List.length_cons]
      omega

/-- Popping a depth that was counted keeps the contexts below it. -/
theorem lsLogPopNdc_ok {below : Nat} (counted : ndc.Counted) :
    ndc.lsLogPopNdc (below + 1) =
      .ok { ndc with
        head := ndc.head.drop (ndc.head.length - below)
        depth := (min ndc.head.length below : Nat) } := by
  unfold lsLogPopNdc
  rw [if_neg (by omega), if_neg (by omega), show ndc.depth = ndc.head.length from counted,
    popNdcLoop_eq]
  rfl

/-- The number of contexts is right after any pop. -/
theorem lsLogPopNdc_counted (counted : ndc.Counted)
    (popped : ndc.lsLogPopNdc ndcDepth = .ok after) : after.Counted := by
  by_cases negative : ndcDepth < 0
  · rw [lsLogPopNdc, if_pos negative] at popped
    cases popped
  by_cases zero : 0 = ndcDepth
  · rw [lsLogPopNdc, if_neg negative, if_pos zero] at popped
    cases popped
    exact counted
  obtain ⟨below, rfl⟩ : ∃ below : Nat, ndcDepth = below + 1 :=
    ⟨(ndcDepth - 1).toNat, by omega⟩
  rw [lsLogPopNdc_ok counted] at popped
  cases popped
  change ((min ndc.head.length below : Nat) : Int) = (ndc.head.drop _).length
  rw [List.length_drop]
  congr 1
  omega

theorem lsLogPopNdc_above {below above : List NdcNode} (counted : ndc.Counted)
    (stacked : ndc.head = above ++ below) (deep : ndcDepth = below.length + 1) :
    ndc.lsLogPopNdc ndcDepth = .ok { ndc with head := below, depth := below.length } := by
  subst deep
  rw [lsLogPopNdc_ok counted, stacked, List.length_append, Nat.add_sub_cancel, List.drop_left]
  congr 2
  omega

theorem Above.pop {below stacked : List NdcNode} (above : Above below ndcDepth stacked)
    (counted : ndc.Counted) (same : ndc.head = stacked)
    (popped : ndc.lsLogPopNdc ndcDepth = .ok after) : after.Counted ∧ after.head = below := by
  refine ⟨lsLogPopNdc_counted counted popped, ?_⟩
  rcases above with ⟨rfl, rfl⟩ | ⟨deep, node, rfl⟩
  · rw [lsLogPopNdc, if_neg (by omega), if_pos rfl] at popped
    cases popped
    exact same
  · rw [@lsLogPopNdc_above ndc ndcDepth below [node] counted same deep] at popped
    cases popped
    rfl

end Ndc

inductive NdcRequest where
  | push (message : String) (answers : PushAnswers)
  | pop (ndcDepth : Int)

/-- The contexts, and what the pushes have returned so far. -/
structure NdcSession where
  ndc : Ndc
  returned : List Int

namespace NdcSession

def perform (session : NdcSession) : NdcRequest → Exec NdcSession
  | .push message answers => do
      let pushed ← session.ndc.lsLogPushNdc message answers
      pure ⟨pushed.2, session.returned ++ [pushed.1]⟩
  | .pop ndcDepth => do
      let ndc ← session.ndc.lsLogPopNdc ndcDepth
      pure { session with ndc := ndc }

def system : System NdcSession NdcRequest where
  Enabled _ _ := True
  step := perform

def Matching (session : NdcSession) : NdcRequest → Prop
  | .push .. => True
  | .pop ndcDepth => ndcDepth ∈ session.returned

variable {start last : NdcSession} {requests : List NdcRequest}

theorem run_counted (counted : start.ndc.Counted) (run : system.Run start requests last) :
    last.ndc.Counted := by
  refine run.preserves (fun session => session.ndc.Counted) ?_ counted
  intro session request next counted _ performed
  cases request with
  | push message answers =>
    obtain ⟨⟨ndcDepth, after⟩, pushed, performed⟩ := Exec.bind_eq_ok.mp performed
    cases performed
    exact (Ndc.lsLogPushNdc_ok counted pushed).1
  | pop ndcDepth =>
    obtain ⟨after, popped, performed⟩ := Exec.bind_eq_ok.mp performed
    cases performed
    exact Ndc.lsLogPopNdc_counted counted popped

/-- The contexts below are untouched, and what pushes returned since lies above them. -/
structure Atop (below : List NdcNode) (session : NdcSession) : Prop where
  counted : session.ndc.Counted
  stacked : ∃ above, session.ndc.head = above ++ below
  higher : ∀ ndcDepth ∈ session.returned, ndcDepth = 0 ∨ (below.length : Int) < ndcDepth

/-- Matching pops never reach the contexts below. -/
theorem run_atop {below : List NdcNode} (atop : Atop below start)
    (run : (system.restrict Matching).Run start requests last) : Atop below last := by
  refine run.preserves (Atop below) ?_ atop
  rintro session request next ⟨counted, ⟨above, stacked⟩, higher⟩ ⟨_, matching⟩ performed
  cases request with
  | push message answers =>
    obtain ⟨⟨ndcDepth, after⟩, pushed, performed⟩ := Exec.bind_eq_ok.mp performed
    cases performed
    obtain ⟨countedAfter, pushedOn⟩ := Ndc.lsLogPushNdc_ok counted pushed
    refine ⟨countedAfter, ?_, ?_⟩
    · rcases pushedOn with ⟨_, same⟩ | ⟨_, node, same⟩
      · exact ⟨above, same.trans stacked⟩
      · exact ⟨node :: above, by rw [same, stacked, List.cons_append]⟩
    · intro returned member
      rcases List.mem_append.mp member with old | new
      · exact higher returned old
      · obtain rfl := List.mem_singleton.mp new
        rcases pushedOn with ⟨zero, _⟩ | ⟨deep, _⟩
        · exact .inl zero
        · rw [stacked, List.length_append] at deep
          exact .inr (by omega)
  | pop ndcDepth =>
    obtain ⟨after, popped, performed⟩ := Exec.bind_eq_ok.mp performed
    cases performed
    refine ⟨Ndc.lsLogPopNdc_counted counted popped, ?_, higher⟩
    rcases higher ndcDepth matching with rfl | high
    · rw [Ndc.lsLogPopNdc, if_neg (by omega), if_pos rfl] at popped
      cases popped
      exact ⟨above, stacked⟩
    · obtain ⟨kept, rfl⟩ : ∃ kept : Nat, ndcDepth = kept + 1 :=
        ⟨(ndcDepth - 1).toNat, by omega⟩
      rw [Ndc.lsLogPopNdc_ok counted] at popped
      cases popped
      refine ⟨above.drop (session.ndc.head.length - kept), ?_⟩
      change session.ndc.head.drop _ = _
      rw [stacked, List.drop_append_of_le_length]
      rw [List.length_append]
      omega

/-- Popping what a push returned restores the contexts of before it. -/
theorem run_pop_restores {before pushed : Ndc} {message : String} {answers : PushAnswers}
    {ndcDepth : Int} (counted : before.Counted)
    (returned : before.lsLogPushNdc message answers = .ok (ndcDepth, pushed))
    (positive : 0 < ndcDepth)
    (run : (system.restrict Matching).Run ⟨pushed, []⟩ requests last) :
    last.ndc.lsLogPopNdc ndcDepth =
      .ok { last.ndc with head := before.head, depth := before.depth } := by
  obtain ⟨countedPushed, above⟩ := Ndc.lsLogPushNdc_ok counted returned
  rcases above with ⟨zero, _⟩ | ⟨deep, node, stacked⟩
  · omega
  have atop : Atop before.head ⟨pushed, []⟩ :=
    ⟨countedPushed, ⟨[node], stacked⟩, fun ndcDepth member => absurd member List.not_mem_nil⟩
  obtain ⟨countedLast, ⟨higher, same⟩, _⟩ := run_atop atop run
  rw [Ndc.lsLogPopNdc_above countedLast same deep, show before.depth = _ from counted]

end NdcSession

end SpudLib
