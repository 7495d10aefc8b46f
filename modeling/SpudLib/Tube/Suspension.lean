import SpudLib.Tube.Brief

/-!
# Calls that outlive their callbacks

A call is suspended at each event it triggers.  If the callbacks leave the table
in order and the tube that the call goes on with, the call goes on to the next
event or to its end, and leaves the table in order itself.
-/

namespace SpudLib

open TubeManager

def Announced (notice : Notice) (mgr : TubeManager) : Prop :=
  mgr.WellFormed ∧ mgr.tubes.Live notice.tube

def Respected (keeps : Notice → Option Nat) (notice : Notice) (_ after : TubeManager) : Prop :=
  after.WellFormed ∧ ∀ t, keeps notice = some t → after.tubes.Live t

/-- The call gets from each event to the next, and to its end. -/
def Endures {Alpha : Type} (keeps : Notice → Option Nat) (Post : Alpha → TubeManager → Prop)
    (outcome : Outcome Notice TubeManager Alpha) : Prop :=
  outcome.Meets Announced (Respected keeps) Post

def Attends (keeps : Notice → Option Nat) : Prop :=
  (∀ t, keeps (.add t) = some t) ∧ (∀ t, keeps (.remove t) = some t) ∧
    ∀ d, keeps (.close d) = some d.t

variable {mgr : TubeManager} {env : Environment} {find : SpudTubeId → Option Nat} {t : Nat}
  {cell : Tube} {keeps : Notice → Option Nat}

theorem Brief.endures {Alpha : Type} {lost : Option Nat} {own : List Nat}
    {outcome : Outcome Notice TubeManager Alpha} (brief : Brief mgr keeps lost own outcome) :
    Endures keeps (fun _ after => after.WellFormed) outcome := by
  cases brief with
  | done wellFormed _ => exact wellFormed
  | calling wellFormed live _ _ resumes =>
    refine ⟨⟨wellFormed, live⟩, ?_⟩
    intro after respected
    obtain ⟨value, last, returned, wellFormedLast, _⟩ :=
      resumes after respected.1 respected.2
    rw [returned]
    exact wellFormedLast

theorem obey_endures (holds : mgr.Holds find) (succeeds : env.Succeeds) (attends : Attends keeps)
    {d : TubeEventData} (found : mgr.tubes.cells d.t = some cell) (cmd : SpudCommand) :
    Endures keeps (fun _ after => after.WellFormed) ((obey env d cmd).run mgr) := by
  have changed : ∀ state, (mgr.setTube d.t { cell with state := state }).Holds find :=
    fun state => holds.setTube found (.inl rfl)
  have live : ∀ state, (mgr.setTube d.t { cell with state := state }).tubes.Live d.t :=
    fun state => ⟨_, Memory.set_cells_self _ found⟩
  rw [obey, Proc.run_bind_of_done (readTube_ok found)]
  cases cmd with
  | spudOpen => exact ⟨find, holds⟩
  | spudData =>
    simp only []
    split_ifs with running
    · rw [Proc.run_bind_of_calling (lsEventTrigger_granted (succeeds.granted _))]
      exact ⟨⟨⟨find, holds.noted _⟩, cell, found⟩, fun after respected => respected.1⟩
    · exact ⟨find, holds⟩
  | spudAck =>
    simp only []
    split_ifs with opening
    · rw [Proc.run_bind_of_done (tubeSetState_ok found _),
        Proc.run_bind_of_calling (lsEventTrigger_granted (succeeds.granted _))]
      exact ⟨⟨⟨find, (changed _).noted _⟩, live _⟩, fun after respected => respected.1⟩
    · exact ⟨find, holds⟩
  | spudClose =>
    simp only []
    split_ifs with known
    · rw [Proc.run_bind_of_done (tubeSetState_ok found _),
        Proc.run_bind_of_calling (lsEventTrigger_granted (succeeds.granted _))]
      refine ⟨⟨⟨find, (changed _).noted _⟩, live _⟩, ?_⟩
      rintro after ⟨⟨later, holdsLater⟩, needed⟩
      obtain ⟨other, foundAfter⟩ := needed _ (attends.2.2 d)
      have brief := @tubeManagerRemove_brief after env later d.t other holdsLater foundAfter
        succeeds keeps (attends.2.1 _)
      change Endures keeps _
        ((tubeManagerRemove env d.t >>= fun _ => pure .next : Tubing Verdict).run after)
      exact Outcome.Meets.bind brief.endures fun _ _ wellFormed => wellFormed
    · exact ⟨find, holds⟩

def Serves (started : Except Verdict Nat) (after : TubeManager) : Prop :=
  after.WellFormed ∧ ∀ t, started = .ok t → after.tubes.Live t

theorem getStarted_endures (holds : mgr.Holds find) (succeeds : env.Succeeds)
    (attends : Attends keeps) (received : Reception) (uid : SpudTubeId) :
    Endures keeps Serves ((getStarted env received uid).run mgr) := by
  rw [getStarted_run (succeeds.granted _), if_pos (succeeds.granted _)]
  have holdsMade := holds.created (received.bareTube env uid)
  rcases tubeManagerAdd_run holdsMade (created_cells mgr _) holds.unused succeeds with
    ⟨table, refused, holdsAfter⟩ | ⟨middle, added, wellFormed, found, _⟩
  · rw [Proc.run_bind_of_done refused]
    exact ⟨⟨find, holdsAfter⟩, by simp⟩
  · rw [Proc.run_bind_of_calling added]
    refine ⟨⟨wellFormed, _, found⟩, ?_⟩
    rintro after ⟨⟨later, holdsLater⟩, needed⟩
    obtain ⟨cell, foundAfter⟩ := needed _ (attends.1 _)
    let running : Tube := { cell with state := .running }
    have holdsRunning : (after.setTube mgr.tubes.fresh running).Holds later :=
      holdsLater.setTube foundAfter (.inl rfl)
    have foundRunning : (after.setTube mgr.tubes.fresh running).tubes.cells mgr.tubes.fresh =
        some running :=
      Memory.set_cells_self _ foundAfter
    change Endures keeps Serves ((tubeSetState mgr.tubes.fresh .running >>= fun _ => _ :
      Tubing (Except Verdict Nat)).run after)
    rw [Proc.run_bind_of_done (tubeSetState_ok foundAfter _),
      Proc.run_bind_of_done (tubeSend_ok foundRunning _ _ _ _), succeeds.answer]
    refine ⟨⟨later, holdsRunning.noted _⟩, ?_⟩
    rintro t ⟨⟩
    exact ⟨_, foundRunning⟩

theorem handleMessage_endures (holds : mgr.Holds find) (succeeds : env.Succeeds)
    (attends : Attends keeps) (received : Reception) (msg : SpudMessage) :
    Endures keeps (fun _ after => after.WellFormed)
      ((handleMessage env received msg).run mgr) := by
  rw [handleMessage, Proc.run_bind_of_done (readKeys_ok holds _),
    Proc.run_bind_of_done (lookup_ok holds _)]
  cases stored : find msg.header.tubeId with
  | some t =>
    obtain ⟨cell, found, _⟩ := holds.live _ t stored
    exact obey_endures holds succeeds attends found _
  | none =>
    simp only []
    rw [Proc.run_bind_of_done rfl]
    split_ifs
    · exact ⟨find, holds⟩
    · apply Outcome.Meets.bind (getStarted_endures holds succeeds attends received _)
      rintro (verdict | t) after ⟨⟨later, holdsLater⟩, serves⟩
      · exact ⟨later, holdsLater⟩
      · obtain ⟨cell, found⟩ := serves t rfl
        exact obey_endures holdsLater succeeds attends found _

theorem tubeManagerLoopBody_endures {library : CborLibrary} (holds : mgr.Holds find)
    (succeeds : env.Succeeds) (attends : Attends keeps) {received : Reception} {hasErr : Bool}
    (nonempty : received.bytes ≠ [])
    (tolerates : hasErr = true ∨ ∃ msg, spudParse library received.buf = .ok msg) :
    Endures keeps (fun _ after => after.WellFormed)
      ((tubeManagerLoopBody env library hasErr received).run mgr) := by
  have bytes : received.buf.length ≠ 0 :=
    fun empty => buf_ne_nil nonempty (List.length_eq_zero_iff.mp empty)
  have holdsNow := holds.at env received
  rw [tubeManagerLoopBody, if_neg bytes, Proc.run_bind_of_done rfl]
  cases parsed : spudParse library received.buf with
  | ok msg => exact handleMessage_endures holdsNow succeeds attends received msg
  | error reason =>
    rcases tolerates with rfl | ⟨msg, fine⟩
    · exact ⟨find, holdsNow⟩
    · cases parsed.symm.trans fine

/-- Any call but the one that ends the manager. -/
theorem Reentrant.endures {state : Reentrant} {library : CborLibrary} {request : Request}
    (holds : state.mgr.Holds find) (allowed : state.Allowed library request) :
    Endures request.keeps (fun _ after => after.WellFormed)
      ((request.procedure library).run state.mgr) := by
  cases request with
  | receive env hasErr received =>
    obtain ⟨_, succeeds, nonempty, tolerates⟩ := allowed
    have attends : Attends (Request.receive env hasErr received).keeps :=
      ⟨fun _ => rfl, fun _ => rfl, fun _ => rfl⟩
    exact Outcome.Meets.bind (tubeManagerLoopBody_endures holds succeeds attends nonempty tolerates)
      fun _ _ wellFormed => wellFormed
  | _ => exact (Reentrant.brief holds allowed (by simp)).endures

end SpudLib
