import SpudLib.Tube.Ownership

/-!
# The events of a tube

In every run of a manager the events triggered for a tube that the library made
follow the protocol: add, running once if the tube was opened here, data, close,
remove.  The event running answers an `ACK` for the tube, and a tube that was
closed here is heard of no more but for its removal.
-/

namespace SpudLib

def TubeManager.eventsOf (mgr : TubeManager) (t : Nat) : List TubeEvent :=
  mgr.trace.filterMap fun effect => match effect with
    | .triggered notice => if notice.tube = t then some notice.event else none
    | _ => none

theorem eventsOf_eq (mgr : TubeManager) (t : Nat) :
    mgr.eventsOf t = events (deeds t mgr.trace) := by
  rw [TubeManager.eventsOf, events, deeds, List.filterMap_filterMap]
  refine List.filterMap_congr fun effect _ => ?_
  cases effect with
  | triggered notice =>
    by_cases here : notice.tube = t
    · simp [Effect.deed, here]
    · simp [Effect.deed, here]
  | sent datagram answer => rfl
  | destroyed other =>
    by_cases here : other = t
    · simp [Effect.deed, here]
    · simp [Effect.deed, here]

theorem Phase.Step.silent {origin : Origin} {next : Phase} {deeds : List Deed}
    (step : Phase.Step (.managed origin .unknown) deeds next) {event : TubeEvent}
    (member : .event event ∈ deeds) : event = .remove := by
  cases step with
  | closed => cases member
  | hungUp _ _ known => exact absurd rfl known
  | removed =>
    rcases List.mem_cons.mp member with same | member
    · cases same
      rfl
    · simp at member
  | dropped => simp at member

theorem Phase.Step.not_destroyed {origin : Origin} {next : Phase} {deeds : List Deed} :
    ¬ Phase.Step (.destroyed origin) deeds next := nofun

theorem Glimpse.Good.closed {glimpse : Glimpse} (good : glimpse.Good)
    (closed : glimpse.closed = true) :
    glimpse.phase = .managed glimpse.origin .unknown ∨
      glimpse.phase = .destroyed glimpse.origin := by
  have free : glimpse.unadded = false := by
    by_contra held
    have open_ := (good.handed (Bool.not_eq_false _ ▸ held)).2.2.2.1
    rw [closed] at open_
    cases open_
  cases stored : glimpse.cell with
  | none => exact .inr (Glimpse.phase_destroyed stored (good.known (.inr (.inr (.inl closed)))))
  | some cell =>
    refine .inl ?_
    rw [← good.shut closed cell stored]
    exact Glimpse.phase_managed stored free

namespace Host

/-- What a step adds to the record: running for an `ACK` with the identifier of the
tube, and of a closed tube only its removal. -/
def Follows (library : CborLibrary) (host : Host) (request : Request) (next : Host) : Prop :=
  ∃ effects, next.mgr.trace = host.mgr.trace ++ effects ∧
    (∀ d, .triggered (.running d) ∈ effects → Acknowledges library host request d.t) ∧
    ∀ notice, .triggered notice ∈ effects → notice.tube ∈ host.closed → notice.event = .remove

variable {library : CborLibrary} {host last : Host} {find later : SpudTubeId → Option Nat}
  {requests : List Request}

theorem mem_deeds {notice : Notice} {effects : List Effect}
    (member : .triggered notice ∈ effects) : .event notice.event ∈ deeds notice.tube effects :=
  List.mem_filterMap.mpr ⟨_, member, if_pos rfl⟩

theorem Keeps.follows (keeps : host.Keeps find) {request : Request} {next : Host}
    (proceeds : Proceeds library host request next find later) :
    host.Follows library request next := by
  obtain ⟨effects, trace, running⟩ := proceeds.record
  refine ⟨effects, trace, running, ?_⟩
  intro notice member shut
  obtain ⟨_, step⟩ := proceeds.turns notice.tube
  have grown : (next.glimpse later notice.tube).story =
      (host.glimpse find notice.tube).story ++ deeds notice.tube effects := by
    change deeds notice.tube next.mgr.trace = _
    rw [trace, deeds_append]
    rfl
  rw [grown] at step
  rcases step with silent | ⟨deeds, step, same⟩
  · have none := List.append_right_eq_self.mp silent
    exact absurd (mem_deeds member) (none ▸ List.not_mem_nil)
  · have inside : .event notice.event ∈ deeds := List.append_cancel_left same ▸ mem_deeds member
    rcases (keeps.good notice.tube).closed (decide_eq_true shut) with unknown | destroyed
    · rw [unknown] at step
      exact step.silent inside
    · rw [destroyed] at step
      exact absurd step Phase.Step.not_destroyed

theorem origin_inner {glimpse : Glimpse} (good : glimpse.Good) (inner : glimpse.created = false)
    (made : glimpse.story ≠ []) :
    glimpse.phase.origin? = some (if glimpse.opened then .opened else .accepted) := by
  have origin : glimpse.origin = if glimpse.opened then .opened else .accepted := by
    rw [Glimpse.origin, inner]
    rfl
  have told := good.told
  cases stored : glimpse.cell with
  | none =>
    cases born : glimpse.born with
    | false =>
      rw [Glimpse.phase_absent stored born] at told
      exact absurd told made
    | true =>
      rw [Glimpse.phase_destroyed stored born, ← origin]
      rfl
  | some cell =>
    cases held : glimpse.unadded with
    | true =>
      rw [Glimpse.phase_detached stored held] at told
      exact absurd told made
    | false =>
      rw [Glimpse.phase_managed stored held, ← origin]
      rfl

theorem Keeps.protocol (keeps : host.Keeps find) {t : Nat} (inner : t ∉ host.created) :
    Protocol (decide (t ∈ host.opened)) (host.mgr.eventsOf t) := by
  rw [eventsOf_eq]
  by_cases made : deeds t host.mgr.trace = []
  · rw [made]
    exact Protocol.empty _
  · have good := keeps.good t
    have origin := origin_inner good (decide_eq_false inner) made
    have known := good.told.protocol (by rw [origin]; split <;> decide)
    rw [origin] at known
    by_cases opened : t ∈ host.opened
    · simpa [glimpse, opened] using known
    · simpa [glimpse, opened] using known

/-- In every run the events of each tube the library made follow the protocol, and so
does every step that comes next. -/
theorem run_sequenced (created : host.Created) (run : (system library).Run host requests last) :
    (∀ t, t ∉ last.created →
      Protocol (decide (t ∈ last.opened)) (last.mgr.eventsOf t)) ∧
    ∀ request next, (system library).Enabled last request →
      (system library).step last request = .ok next → last.Follows library request next := by
  obtain ⟨find, keeps⟩ := created.keeps.run run
  refine ⟨fun t inner => keeps.protocol inner, ?_⟩
  intro request next enabled returned
  obtain ⟨after, later, performed, proceeds⟩ := keeps.step enabled
  rw [returned] at performed
  cases performed
  exact keeps.follows proceeds

theorem run_sequenced_acknowledged : ∃ last next : Host,
    last.mgr.eventsOf 0 = [.add] ∧ Protocol true (last.mgr.eventsOf 0) ∧
    next.mgr.eventsOf 0 = [.add, .running] ∧
    last.Follows minimalCbor (.receive obliging true (bareHeader ⟨fun _ => 7⟩ .spudAck)) next := by
  obtain ⟨last, run, seen, outside, opened, enabled, next, returned, later⟩ : ∃ last,
      (system minimalCbor).Run idleHost [.openTube obliging (.inet 1402 0x7f000001)] last ∧
      last.mgr.eventsOf 0 = [.add] ∧ last.created = [] ∧ last.opened = [0] ∧
      (system minimalCbor).Enabled last
        (.receive obliging true (bareHeader ⟨fun _ => 7⟩ .spudAck)) ∧
      ∃ next, (system minimalCbor).step last
          (.receive obliging true (bareHeader ⟨fun _ => 7⟩ .spudAck)) = .ok next ∧
        next.mgr.eventsOf 0 = [.add, .running] := by
    refine System.Run.exists_cons ⟨rfl, obliging_succeeds, by decide⟩ rfl ?_
    refine ⟨_, .nil _, rfl, rfl, rfl, ⟨rfl, obliging_succeeds, by decide, rfl, by decide, .inl rfl⟩,
      ?_⟩
    exact @Exec.exists_of_map Host _ _ (fun host => host.mgr.eventsOf 0) [.add, .running]
      (by decide +kernel)
  obtain ⟨protocols, follows⟩ := run_sequenced idleHost_created run
  have protocol := protocols 0 (by rw [outside]; exact List.not_mem_nil)
  rw [opened] at protocol
  exact ⟨last, next, seen, protocol, later, follows _ _ enabled returned⟩

end Host

end SpudLib
