import SpudLib.Tube.Ownership

/-!
# Datagrams that the loop survives

When the body of the loop goes on with the next datagram, and when one datagram
takes it down: `recvmsg` returns zero for an empty one, and a rejected one is
logged through `err`.
-/

namespace SpudLib

/-- The body of the loop ends with the next iteration, and the loop is not stopped. -/
def TubeManager.Survives (mgr : TubeManager) (library : CborLibrary) (env : Environment)
    (hasErr : Bool) (received : Reception) : Prop :=
  ∃ after, (tubeManagerLoopBody env library hasErr received).straight mgr = .ok (.next, after) ∧
    after.keepGoing = mgr.keepGoing

def arrival (bytes : List UInt8) : Reception :=
  { bareHeader ⟨fun _ => 0⟩ .spudData with bytes := bytes }

namespace Host

variable {library : CborLibrary} {host last : Host} {requests : List Request} {env : Environment}

/-- In every state that can be reached, exactly the datagrams that are not empty and
are accepted, or rejected with an `err` at hand, let the loop go on. -/
theorem survives_iff (created : host.Created) (run : (system library).Run host requests last)
    (present : last.gone = false) (succeeds : env.Succeeds) (roomy : last.mgr.table.Roomy)
    (hasErr : Bool) (received : Reception) :
    last.mgr.Survives library env hasErr received ↔
      received.bytes ≠ [] ∧
        (hasErr = true ∨ ∃ msg, spudParse library received.buf = .ok msg) := by
  obtain ⟨find, keeps⟩ := created.keeps.run run
  constructor
  · rintro ⟨after, returned, _⟩
    have nonempty : received.bytes ≠ [] := by
      intro empty
      have none : received.buf = [] := by rw [Reception.buf, empty, List.take_nil]
      rw [tubeManagerLoopBody_empty none] at returned
      cases returned
    refine ⟨nonempty, ?_⟩
    cases parsed : spudParse library received.buf with
    | ok msg => exact .inr ⟨msg, rfl⟩
    | error reason =>
      refine .inl ?_
      rw [tubeManagerLoopBody_rejected (buf_ne_nil nonempty) parsed] at returned
      cases hasErr with
      | true => rfl
      | false => cases returned
  · rintro ⟨nonempty, accepted⟩
    obtain ⟨after, _, returned, going, _⟩ := @tubeManagerLoopBody_proceeds library last find env
      keeps present succeeds roomy received nonempty hasErr accepted
    exact ⟨after, returned, going⟩

theorem survives_iff_bareHeader : idleHost.mgr.Survives minimalCbor obliging false
    (bareHeader ⟨fun _ => 9⟩ .spudOpen) :=
  (survives_iff idleHost_created (.nil _) rfl obliging_succeeds (by decide) false
    (bareHeader ⟨fun _ => 9⟩ .spudOpen)).mpr ⟨by decide, .inr ⟨_, rfl⟩⟩

/-- An empty datagram fails the assertion, and without an `err` one byte that is no
header is logged through a null pointer. -/
theorem arrival_takes_down : idleHost.Created ∧ obliging.Succeeds ∧ idleHost.mgr.table.Roomy ∧
    ¬ idleHost.mgr.Survives minimalCbor obliging true (arrival []) ∧
    ¬ idleHost.mgr.Survives minimalCbor obliging false (arrival [0]) := by
  refine ⟨idleHost_created, obliging_succeeds, by decide, ?_, ?_⟩
  · rintro ⟨after, returned, _⟩
    have failed : (tubeManagerLoopBody obliging minimalCbor true (arrival [])).straight
        idleHost.mgr = .error .assertFailed := rfl
    rw [failed] at returned
    cases returned
  · rintro ⟨after, returned, _⟩
    have failed : (tubeManagerLoopBody obliging minimalCbor false (arrival [0])).straight
        idleHost.mgr = .error .nullDereference := rfl
    rw [failed] at returned
    cases returned

end Host

end SpudLib
