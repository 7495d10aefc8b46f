import SpudLib.Tube.Isolation

/-!
# Datagrams from elsewhere

A policy can tell a manager to ignore where a datagram comes from, but the loop
finds a tube by the identifier alone, whatever the policy.  A datagram from
elsewhere is harmless exactly when its command means nothing to the tube.
-/

namespace SpudLib

def tpIgnoreSource : UInt32 := 1

namespace TubeManager

/-- A datagram that carries the identifier of a tube in the table but was not sent by
the tube's peer, for a manager that is not to ignore this. -/
structure Foreign (mgr : TubeManager) (library : CborLibrary) (received : Reception)
    (msg : SpudMessage) (t : Nat) (cell : Tube) : Prop where
  policy : mgr.policy &&& tpIgnoreSource = 0
  parsed : spudParse library received.buf = .ok msg
  stored : mgr.lookup msg.header.tubeId = .ok (some t)
  live : mgr.tubes.cells t = some cell
  elsewhere : received.source ≠ cell.peer

/-- The tube keeps its state and its place in the table, and no running, data or close
event is triggered for it. -/
structure Spares (mgr after : TubeManager) (t : Nat) : Prop where
  state : (after.tubes.cells t).map Tube.state = (mgr.tubes.cells t).map Tube.state
  member : ∀ id, after.lookup id = .ok (some t) ↔ mgr.lookup id = .ok (some t)
  quiet : ∃ effects, after.trace = mgr.trace ++ effects ∧ ∀ notice,
    .triggered notice ∈ effects → notice.tube = t → notice.event ∉ [.running, .data, .close]

end TubeManager

/-- The command means nothing to a tube in the state, or is data for which no event
can be allocated. -/
def Environment.Mute (env : Environment) (cmd : SpudCommand) (state : TubeState) : Prop :=
  Environment.acts cmd state = false ∨
    cmd = .spudData ∧ env.granted (.moment .data) = false

/-- The datagrams of a run without some from elsewhere that mean nothing to their tubes. -/
inductive Thinned (library : CborLibrary) :
    TubeManager → List (Environment × Reception) → List (Environment × Reception) → Prop where
  | nil (mgr) : Thinned library mgr [] []
  | kept {mgr next label labels rest} : (receptions library).step mgr label = .ok next →
      Thinned library next labels rest → Thinned library mgr (label :: labels) (label :: rest)
  | dropped {mgr next label labels rest msg t cell} : mgr.Foreign library label.2 msg t cell →
      label.1.Mute (SpudCommand.ofFlags msg.header.flags) cell.state →
      (receptions library).step mgr label = .ok next →
      Thinned library next labels rest → Thinned library mgr (label :: labels) rest

open TubeManager

section Datagrams

variable {library : CborLibrary} {mgr after : TubeManager} {env : Environment}
  {received : Reception} {msg : SpudMessage} {t : Nat} {cell : Tube} {hasErr : Bool}

theorem TubeManager.Spares.refl (mgr : TubeManager) (env : Environment) (received : Reception)
    (t : Nat) : mgr.Spares (mgr.at env received) t :=
  ⟨rfl, fun _ => Iff.rfl, [], (List.append_nil _).symm, fun _ => nofun⟩

theorem ne_nil_of_parsed (parsed : spudParse library received.buf = .ok msg) :
    received.buf ≠ [] := by
  intro empty
  rw [empty] at parsed
  cases parsed

theorem TubeManager.Foreign.obeyed (foreign : mgr.Foreign library received msg t cell)
    (wellFormed : mgr.WellFormed) :
    (tubeManagerLoopBody env library hasErr received).straight mgr =
      (obey env ⟨t, msg.cbor, received.source⟩ (SpudCommand.ofFlags msg.header.flags)).straight
        (mgr.at env received) := by
  obtain ⟨find, holds⟩ := wellFormed
  have stored := foreign.stored
  rw [holds.lookup, Except.ok.injEq] at stored
  rw [tubeManagerLoopBody_parsed (ne_nil_of_parsed foreign.parsed) foreign.parsed]
  exact handleMessage_found (holds.at env received) stored

theorem TubeManager.Foreign.ignored (foreign : mgr.Foreign library received msg t cell)
    (wellFormed : mgr.WellFormed)
    (mute : env.Mute (SpudCommand.ofFlags msg.header.flags) cell.state) :
    ∃ verdict, (tubeManagerLoopBody env library hasErr received).straight mgr =
      .ok (verdict, mgr.at env received) := by
  have found : (mgr.at env received).tubes.cells t = some cell := foreign.live
  rw [foreign.obeyed wellFormed]
  rcases mute with idle | ⟨data, refused⟩
  · exact ⟨.next, obey_idle found idle⟩
  · rw [data]
    by_cases running : cell.state = .running
    · have returned := @obey_data _ env ⟨t, msg.cbor, received.source⟩ _ found running
      have silent : env.triggers (.data ⟨t, msg.cbor, received.source⟩) = [] :=
        if_neg (by simp [Notice.event, refused])
      rw [silent, noted_nil] at returned
      exact ⟨_, returned⟩
    · exact ⟨.next, obey_idle found (decide_eq_false running)⟩

theorem TubeManager.Spares.same_state (spares : mgr.Spares after t)
    (found : mgr.tubes.cells t = some cell) {later : Tube}
    (changed : after.tubes.cells t = some later) : later.state = cell.state := by
  have same := spares.state
  rw [found, changed] at same
  exact Option.some.inj same

/-- A command with a meaning for the tube changes its state, or triggers data. -/
theorem TubeManager.Foreign.heeded (foreign : mgr.Foreign library received msg t cell)
    (wellFormed : mgr.WellFormed)
    (heard : ¬ env.Mute (SpudCommand.ofFlags msg.header.flags) cell.state) {verdict : Verdict}
    (returned : (tubeManagerLoopBody env library hasErr received).straight mgr =
      .ok (verdict, after)) : ¬ mgr.Spares after t := by
  obtain ⟨find, holds⟩ := wellFormed
  have holdsNow := holds.at env received
  have found : (mgr.at env received).tubes.cells t = some cell := foreign.live
  rw [foreign.obeyed ⟨find, holds⟩] at returned
  let d : TubeEventData := ⟨t, msg.cbor, received.source⟩
  rw [Environment.Mute, not_or, Bool.not_eq_false] at heard
  obtain ⟨acts, granted⟩ := heard
  intro spares
  cases command : SpudCommand.ofFlags msg.header.flags with
  | spudOpen =>
    rw [command] at acts
    cases acts
  | spudData =>
    rw [command] at acts returned granted
    have triggered : env.granted (.moment .data) = true := by
      by_contra refused
      exact granted ⟨rfl, Bool.eq_false_iff.mpr refused⟩
    rw [@obey_data _ env d _ found (of_decide_eq_true acts),
      show env.triggers (.data d) = [.triggered (.data d)] from if_pos triggered] at returned
    cases returned
    obtain ⟨effects, trace, quiet⟩ := spares.quiet
    have same : effects = [.triggered (.data d)] := (List.append_cancel_left trace).symm
    refine quiet (.data d) ?_ rfl ?_
    · rw [same]
      exact List.mem_cons_self
    · simp [Notice.event]
  | spudAck =>
    rw [command] at acts returned
    have opening : cell.state = .opening := of_decide_eq_true acts
    rw [@obey_ack _ env d _ found opening] at returned
    cases returned
    have same := spares.same_state foreign.live (Memory.set_cells_self _ found)
    rw [opening] at same
    cases same
  | spudClose =>
    rw [command] at acts returned
    have known : cell.state ≠ .unknown := of_decide_eq_true acts
    have stored := foreign.stored
    rw [holds.lookup, Except.ok.injEq] at stored
    obtain ⟨other, foundOther, own⟩ := holds.live _ t stored
    rw [foreign.live] at foundOther
    cases foundOther
    cases triggered : env.granted (.moment .close) with
    | false =>
      rw [@obey_close_refused _ env d _ found known triggered] at returned
      cases returned
      exact known (spares.same_state foreign.live (Memory.set_cells_self _ found)).symm
    | true =>
      obtain ⟨table, closed, _⟩ := @obey_close _ env find d _ holdsNow (own ▸ stored) found known
        triggered
      rw [closed] at returned
      cases returned
      have same := spares.state
      rw [foreign.live] at same
      simp [d] at same

/-- A tube is spared by a datagram from elsewhere exactly when its command means nothing
to the tube. -/
theorem TubeManager.Foreign.spares (foreign : mgr.Foreign library received msg t cell)
    (wellFormed : mgr.WellFormed) :
    (∃ verdict after, (tubeManagerLoopBody env library hasErr received).straight mgr =
        .ok (verdict, after) ∧ mgr.Spares after t) ↔
      env.Mute (SpudCommand.ofFlags msg.header.flags) cell.state := by
  constructor
  · rintro ⟨verdict, after, returned, spares⟩
    by_contra heard
    exact foreign.heeded wellFormed heard returned spares
  · intro mute
    obtain ⟨verdict, returned⟩ := @ignored library mgr env received msg t cell hasErr foreign
      wellFormed mute
    exact ⟨verdict, _, returned, Spares.refl mgr env received t⟩

end Datagrams

section Runs

variable {library : CborLibrary} {mgr next last start : TubeManager}
  {label : Environment × Reception} {labels rest : List (Environment × Reception)}

theorem tubeManagerLoopBody_last (env : Environment) (hasErr : Bool) (received : Reception)
    (time : Timeval) :
    (tubeManagerLoopBody env library hasErr received).straight { mgr with last := time } =
      (tubeManagerLoopBody env library hasErr received).straight mgr := by
  unfold tubeManagerLoopBody
  by_cases empty : received.buf.length = 0
  · rw [if_pos empty]
    rfl
  · rw [if_neg empty]
    refine (straight_bind_of_done rfl).trans ?_
    symm
    exact straight_bind_of_done rfl

theorem receptions_step_last (label : Environment × Reception) (time : Timeval) :
    (receptions library).step { mgr with last := time } label =
      (receptions library).step mgr label := by
  simp only [receptions, tubeManagerLoopBody_last]

theorem TubeManager.WellFormed.step (wellFormed : mgr.WellFormed)
    (enabled : (receptions library).Enabled mgr label)
    (stepped : (receptions library).step mgr label = .ok next) : next.WellFormed := by
  obtain ⟨find, holds⟩ := wellFormed
  obtain ⟨later, holdsNext, _⟩ := receptions_step holds enabled stepped
  exact ⟨later, holdsNext⟩

/-- A run goes through without the datagrams that mean nothing to their tubes, and the
manager ends the same but for the time. -/
theorem Thinned.run (thinned : Thinned library start labels rest) (wellFormed : start.WellFormed)
    (run : (receptions library).Run start labels last) (time : Timeval) :
    ∃ other, (receptions library).Run { start with last := time } rest other ∧
      other = { last with last := other.last } := by
  induction thinned generalizing time with
  | nil mgr =>
    cases run
    exact ⟨_, .nil _, rfl⟩
  | @kept mgr next label labels rest stepped _ inductionHypothesis =>
    cases run with
    | cons enabled returned run =>
      rw [stepped] at returned
      cases returned
      obtain ⟨other, onward, same⟩ :=
        inductionHypothesis (wellFormed.step enabled stepped) run next.last
      refine ⟨other, .cons enabled ?_ onward, same⟩
      rw [receptions_step_last, stepped]
  | @dropped mgr next label labels rest msg t cell foreign mute stepped _ inductionHypothesis =>
    cases run with
    | cons enabled returned run =>
      rw [stepped] at returned
      cases returned
      obtain ⟨other, onward, same⟩ :=
        inductionHypothesis (wellFormed.step enabled stepped) run time
      obtain ⟨verdict, ignored⟩ :=
        @Foreign.ignored library mgr label.1 label.2 msg t cell true foreign wellFormed mute
      simp only [receptions, ignored, Exec.ok_bind, Exec.pure_eq_ok, Except.ok.injEq] at stepped
      subst stepped
      exact ⟨other, onward, same⟩

/-- After any run a datagram from elsewhere spares its tube exactly when its command
means nothing to the tube, and a run without such datagrams ends the same. -/
theorem receptions_spares_iff (library : CborLibrary) (start last : TubeManager)
    (labels : List (Environment × Reception)) (wellFormed : start.WellFormed)
    (run : (receptions library).Run start labels last) :
    (∀ env hasErr received msg t cell, last.Foreign library received msg t cell →
      ((∃ verdict after, (tubeManagerLoopBody env library hasErr received).straight last =
          .ok (verdict, after) ∧ last.Spares after t) ↔
        env.Mute (SpudCommand.ofFlags msg.header.flags) cell.state)) ∧
      ∀ rest, Thinned library start labels rest → ∃ other,
        (receptions library).Run start rest other ∧ other = { last with last := other.last } := by
  have wellFormedLast : last.WellFormed := by
    refine run.preserves WellFormed ?_ wellFormed
    intro mgr label next wellFormed enabled stepped
    exact wellFormed.step enabled stepped
  constructor
  · intro env hasErr received msg t cell foreign
    exact foreign.spares wellFormedLast
  · intro rest thinned
    exact thinned.run wellFormed run start.last

end Runs

def spoofedHeader (id : SpudTubeId) (cmd : SpudCommand) : Reception :=
  { bareHeader id cmd with source := .inet 666 0x7f000001, internet := rfl }

theorem exists_foreign (cmd : SpudCommand) : ∃ last,
    (receptions minimalCbor).Run newResponder
      [(obliging, bareHeader ⟨fun _ => 7⟩ .spudOpen)] last ∧
    ∃ msg cell, SpudCommand.ofFlags msg.header.flags = cmd ∧ cell.state = .running ∧
      last.Foreign minimalCbor (spoofedHeader ⟨fun _ => 7⟩ cmd) msg 0 cell := by
  refine System.Run.exists_cons ⟨by decide, obliging_refused⟩ rfl ?_
  let opening := bareHeader ⟨fun _ => 7⟩ .spudOpen
  let cell := opening.tube (SpudHeader.ofBytes opening.buf).tubeId
  have elsewhere : SockAddr.inet 666 0x7f000001 ≠ .inet 1402 0x7f000001 := by decide
  refine ⟨_, .nil _, ⟨SpudHeader.ofBytes (spoofedHeader ⟨fun _ => 7⟩ cmd).buf, none⟩, cell, ?_⟩
  cases cmd with
  | spudData => exact ⟨rfl, rfl, rfl, rfl, rfl, rfl, elsewhere⟩
  | spudOpen => exact ⟨rfl, rfl, rfl, rfl, rfl, rfl, elsewhere⟩
  | spudClose => exact ⟨rfl, rfl, rfl, rfl, rfl, rfl, elsewhere⟩
  | spudAck => exact ⟨rfl, rfl, rfl, rfl, rfl, rfl, elsewhere⟩

theorem receptions_spares_iff_open : ∃ last verdict after,
    (tubeManagerLoopBody obliging minimalCbor true (spoofedHeader ⟨fun _ => 7⟩ .spudOpen)).straight
      last = .ok (verdict, after) ∧ last.Spares after 0 := by
  obtain ⟨last, run, msg, cell, command, _, foreign⟩ := exists_foreign .spudOpen
  obtain ⟨spares, _⟩ := receptions_spares_iff minimalCbor newResponder last _
    ⟨_, newResponder_holds⟩ run
  refine ⟨last, (spares obliging true _ _ 0 cell foreign).mpr (.inl ?_)⟩
  rw [command]
  rfl

/-- A `CLOSE` from elsewhere takes the tube down. -/
theorem spoofed_close_heeded : ∃ last msg cell, last.WellFormed ∧
    last.Foreign minimalCbor (spoofedHeader ⟨fun _ => 7⟩ .spudClose) msg 0 cell ∧
    ¬ ∃ verdict after, (tubeManagerLoopBody obliging minimalCbor true
      (spoofedHeader ⟨fun _ => 7⟩ .spudClose)).straight last = .ok (verdict, after) ∧
        last.Spares after 0 := by
  obtain ⟨last, run, msg, cell, command, running, foreign⟩ := exists_foreign .spudClose
  have wellFormed : last.WellFormed := by
    cases run with
    | cons enabled stepped run =>
      cases run
      exact WellFormed.step ⟨_, newResponder_holds⟩ enabled stepped
  refine ⟨last, msg, cell, wellFormed, foreign, ?_⟩
  rw [foreign.spares wellFormed, command, running]
  rintro (idle | ⟨data, _⟩)
  · cases idle
  · cases data

end SpudLib
