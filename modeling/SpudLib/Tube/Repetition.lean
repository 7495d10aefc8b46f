import SpudLib.Tube.Mirroring

/-!
# Control datagrams that arrive twice

After an `OPEN`, an `ACK` or a `CLOSE` the tube is in a state in which the
command means nothing any more, or is gone.  So the same datagram, should the
network deliver it again, changes nothing but the manager's clock.
-/

namespace SpudLib

open TubeManager

/-- The command means nothing to the tube of the message, and makes none. -/
def TubeManager.Settled (mgr : TubeManager) (find : SpudTubeId → Option Nat)
    (msg : SpudMessage) : Prop :=
  match find msg.header.tubeId with
  | none => ¬ mgr.Responds msg
  | some t => ∀ cell, mgr.tubes.cells t = some cell →
      Environment.acts (.ofFlags msg.header.flags) cell.state = false

section Repetition

variable {mgr : TubeManager} {env : Environment} {find : SpudTubeId → Option Nat}
  {received again : Reception} {msg : SpudMessage} {library : CborLibrary} {hasErr : Bool}

theorem TubeManager.Settled.idle (settled : mgr.Settled find msg) (holds : mgr.Holds find) :
    (handleMessage env received msg).straight mgr = .ok (.next, mgr) := by
  unfold TubeManager.Settled at settled
  cases stored : find msg.header.tubeId with
  | none =>
    rw [stored] at settled
    exact handleMessage_ignored holds stored settled
  | some t =>
    rw [stored] at settled
    obtain ⟨cell, found, _⟩ := holds.live _ t stored
    rw [handleMessage_found holds stored]
    exact obey_idle found (settled cell found)

theorem obey_settles (holds : mgr.Holds find) {t : Nat}
    (stored : find msg.header.tubeId = some t) (succeeds : env.Succeeds)
    (control : SpudCommand.ofFlags msg.header.flags ≠ .spudData) :
    ∃ after later, (obey env ⟨t, msg.cbor, received.source⟩
        (.ofFlags msg.header.flags)).straight mgr = .ok (.next, after) ∧
      after.Holds later ∧ after.Settled later msg := by
  obtain ⟨cell, found, own⟩ := holds.live _ t stored
  by_cases idle : Environment.acts (.ofFlags msg.header.flags) cell.state = false
  · refine ⟨mgr, find, obey_idle found idle, holds, ?_⟩
    unfold TubeManager.Settled
    rw [stored]
    intro other again
    cases found.symm.trans again
    exact idle
  · rw [Bool.not_eq_false] at idle
    unfold TubeManager.Settled
    cases command : SpudCommand.ofFlags msg.header.flags with
    | spudData => exact absurd command control
    | spudOpen =>
      rw [command] at idle
      cases idle
    | spudAck =>
      rw [command] at idle
      have returned := @obey_ack mgr env ⟨t, msg.cbor, received.source⟩ cell found
        (of_decide_eq_true idle)
      rw [succeeds.verdict] at returned
      have changed := @Holds.setTube mgr find t cell holds found { cell with state := .running }
        (.inl rfl)
      refine ⟨_, find, returned, changed.noted _, ?_⟩
      rw [stored]
      intro other again
      have running := Memory.set_cells_self { cell with state := .running } found
      cases running.symm.trans again
      rfl
    | spudClose =>
      rw [command] at idle
      obtain ⟨_, _, later, returned, holdsAfter, _⟩ := @obey_confined mgr env find _ holds
        ⟨t, msg.cbor, received.source⟩ stored .spudClose
      obtain ⟨table, closed, registers⟩ := @obey_close mgr env find
        ⟨t, msg.cbor, received.source⟩ cell holds (own ▸ stored) found (of_decide_eq_true idle)
        (succeeds.granted _)
      cases returned.symm.trans closed
      refine ⟨_, later, closed, holdsAfter, ?_⟩
      have gone : later msg.header.tubeId = none := by
        have same := holdsAfter.lookup msg.header.tubeId
        rw [TubeManager.lookup, registers.get, own, Function.update_self] at same
        exact (Except.ok.inj same).symm
      rw [gone]
      rintro ⟨_, opening⟩
      rw [command] at opening
      cases opening

theorem handleMessage_settles (holds : mgr.Holds find) (succeeds : env.Succeeds)
    (roomy : mgr.table.Roomy) (received : Reception)
    (control : SpudCommand.ofFlags msg.header.flags ≠ .spudData) :
    ∃ after later, (handleMessage env received msg).straight mgr = .ok (.next, after) ∧
      after.Holds later ∧ after.Settled later msg := by
  cases stored : find msg.header.tubeId with
  | some t =>
    rw [handleMessage_found holds stored]
    exact obey_settles holds stored succeeds control
  | none =>
    by_cases responds : mgr.Responds msg
    · obtain ⟨table, handled, registers⟩ :=
        handleMessage_accepts holds succeeds roomy received stored responds
      refine ⟨_, _, handled, holds.accepted stored registers _, ?_⟩
      unfold TubeManager.Settled
      rw [Function.update_self, responds.2]
      exact fun _ _ => rfl
    · refine ⟨mgr, find, handleMessage_ignored holds stored responds, holds, ?_⟩
      unfold TubeManager.Settled
      rw [stored]
      exact responds

theorem TubeManager.Settled.at (settled : mgr.Settled find msg) (env : Environment)
    (received : Reception) : (mgr.at env received).Settled find msg :=
  settled

/-- In every state and under every policy, a control datagram that arrives a second time
changes nothing, whatever memory is left then. -/
theorem tubeManagerLoopBody_repeated (wellFormed : mgr.WellFormed) (succeeds : env.Succeeds)
    (roomy : mgr.table.Roomy) (nonempty : received.bytes ≠ [])
    (control : ∀ msg, spudParse library received.buf = .ok msg →
      SpudCommand.ofFlags msg.header.flags ≠ .spudData)
    (survived : hasErr = true ∨ ∃ msg, spudParse library received.buf = .ok msg)
    (same : again.bytes = received.bytes) (later : Environment) :
    ∃ once twice, (tubeManagerLoopBody env library hasErr received).straight mgr =
        .ok (.next, once) ∧
      (tubeManagerLoopBody later library hasErr again).straight once = .ok (.next, twice) ∧
      once.Untouched twice := by
  obtain ⟨find, holds⟩ := wellFormed
  have some := buf_ne_nil nonempty
  have sameBuf : again.buf = received.buf := by rw [Reception.buf, same, Reception.buf]
  have someAgain : again.buf ≠ [] := sameBuf ▸ some
  cases parsed : spudParse library received.buf with
  | error reason =>
    have told : hasErr = true := by
      rcases survived with told | ⟨msg, accepted⟩
      · exact told
      · cases parsed.symm.trans accepted
    have parsedAgain : spudParse library again.buf = .error reason := sameBuf ▸ parsed
    refine ⟨mgr.at env received, (mgr.at env received).at later again, ?_, ?_, rfl, rfl, rfl⟩
    · rw [tubeManagerLoopBody_rejected some parsed, if_pos told]
    · rw [tubeManagerLoopBody_rejected someAgain parsedAgain, if_pos told]
  | ok msg =>
    have parsedAgain : spudParse library again.buf = .ok msg := sameBuf ▸ parsed
    obtain ⟨once, known, handled, holdsOnce, settled⟩ :=
      handleMessage_settles (holds.at env received) succeeds roomy received (control msg parsed)
    refine ⟨once, once.at later again, ?_, ?_, rfl, rfl, rfl⟩
    · rw [tubeManagerLoopBody_parsed some parsed]
      exact handled
    · rw [tubeManagerLoopBody_parsed someAgain parsedAgain]
      exact (settled.at later again).idle (holdsOnce.at later again)

theorem tubeManagerLoopBody_repeated_open : ∃ once twice,
    (tubeManagerLoopBody obliging minimalCbor true (bareHeader ⟨fun _ => 7⟩ .spudOpen)).straight
      newResponder = .ok (.next, once) ∧
    (tubeManagerLoopBody obliging minimalCbor true (bareHeader ⟨fun _ => 7⟩ .spudOpen)).straight
      once = .ok (.next, twice) ∧ once.Untouched twice := by
  refine tubeManagerLoopBody_repeated ⟨_, newResponder_holds⟩ obliging_succeeds (by decide)
    (by decide) ?_ (.inl rfl) rfl obliging
  intro msg parsed
  rw [bareHeader_parsed] at parsed
  cases parsed
  decide

end Repetition

end SpudLib
