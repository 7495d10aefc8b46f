import SpudLib.Cbor.Codec
import SpudLib.Foundation.System
import SpudLib.Tube.Passive

/-!
# A datagram reaches one tube

With passive callbacks a datagram that is rejected or addresses nobody changes
nothing, and any other changes at most the tube with its identifier, whatever
memory is refused and whether or not its answers can be sent.
-/

namespace SpudLib

open TubeManager

/-- One entry of the map may change, and with it the tube that was there; new tubes
have its identifier. -/
structure Confined (mgr after : TubeManager) (find later : SpudTubeId → Option Nat)
    (id : SpudTubeId) : Prop where
  lookups : ∀ other, other ≠ id → later other = find other
  tubes : ∀ t, t < mgr.tubes.fresh → find id ≠ some t →
    after.tubes.cells t = mgr.tubes.cells t
  born : ∀ t cell, mgr.tubes.fresh ≤ t → after.tubes.cells t = some cell → cell.id = id

structure Shrinks (mgr after : TubeManager) (find later : SpudTubeId → Option Nat) : Prop where
  lookups : ∀ id t, later id = some t → find id = some t
  fresh : after.tubes.fresh = mgr.tubes.fresh
  policy : after.policy = mgr.policy

section Confinement

variable {mgr after : TubeManager} {env : Environment} {find later : SpudTubeId → Option Nat}
  {t : Nat} {cell : Tube} {id : SpudTubeId}

theorem Confined.of_tubes (lookups : ∀ other, other ≠ id → later other = find other)
    (tubes : ∀ other, find id ≠ some other → after.tubes.cells other = mgr.tubes.cells other)
    (known : ∀ t, find id = some t → t < mgr.tubes.fresh) :
    Confined mgr after find later id := by
  refine ⟨lookups, fun t _ => tubes t, ?_⟩
  intro t cell new found
  have other : find id ≠ some t := fun stored => by
    have := known t stored
    omega
  rw [tubes t other, mgr.tubes.unallocated t new] at found
  cases found

theorem Confined.refl (mgr : TubeManager) (find : SpudTubeId → Option Nat) (id : SpudTubeId) :
    Confined mgr mgr find find id := by
  refine ⟨fun _ _ => rfl, fun _ _ _ => rfl, ?_⟩
  intro t cell new found
  rw [mgr.tubes.unallocated t new] at found
  cases found

theorem Confined.creation (own : cell.id = id) (tubes : after.tubes = mgr.tubes.alloc cell)
    (lookups : ∀ other, other ≠ id → later other = find other) :
    Confined mgr after find later id := by
  refine ⟨lookups, ?_, ?_⟩
  · intro t old _
    rw [tubes]
    exact Memory.alloc_cells_of_ne _ _ (Nat.ne_of_lt old)
  · intro t other new found
    rw [tubes] at found
    by_cases first : t = mgr.tubes.fresh
    · subst first
      rw [Memory.alloc_cells_self] at found
      cases found
      exact own
    · rw [Memory.alloc_cells_of_ne _ _ first, mgr.tubes.unallocated t new] at found
      cases found

theorem lookups_update (value : Option Nat) :
    ∀ other, other ≠ id → Function.update find id value other = find other :=
  fun _ different => Function.update_of_ne different _ _

theorem getStarted_confined (holds : mgr.Holds find) (received : Reception) {uid : SpudTubeId}
    (missing : find uid = none) (refused : ∀ size, 2 ^ 30 ≤ size → env.calloc size = false) :
    ∃ result after later, (getStarted env received uid).straight mgr = .ok (result, after) ∧
      after.Holds later ∧ Confined mgr after find later uid ∧
      ∀ t, result = .ok t → after.tubes.cells t = some (received.tube uid) := by
  by_cases granted : env.granted .tube = true
  · have holdsBare := holds.created (received.bareTube env uid)
    by_cases copied : env.granted .pktinfo = true
    · obtain ⟨answer, table, returned, registers, _⟩ :=
        getStarted_added holds received missing refused granted copied
      have changed : ∀ other, other ≠ uid →
          (if answer then Function.update find uid (some mgr.tubes.fresh) else find) other =
            find other := by
        intro other different
        cases answer with
        | true => exact lookups_update _ other different
        | false => rfl
      have live : ∀ cell : Tube, cell.id = uid → ∀ id t,
          (if answer then Function.update find uid (some mgr.tubes.fresh) else find) id = some t →
            ∃ other, (mgr.created cell).tubes.cells t = some other ∧ other.id = id := by
        intro cell own id t stored
        by_cases here : id = uid
        · subst here
          cases answer with
          | true =>
            rw [if_pos rfl, Function.update_self] at stored
            cases stored
            exact ⟨cell, created_cells mgr cell, own⟩
          | false =>
            rw [if_neg Bool.false_ne_true, missing] at stored
            cases stored
        · rw [changed id here] at stored
          exact (holds.created cell).live id t stored
      by_cases triggered : (answer && env.granted (.moment .add)) = true
      · rw [if_pos triggered] at returned
        refine ⟨_, _, _, returned, ⟨registers, live (received.tube uid) rfl⟩,
          Confined.creation rfl rfl changed, ?_⟩
        intro t started
        cases sent : env.answer (received.ack uid) with
        | true =>
          rw [sent, if_pos rfl] at started
          cases started
          exact created_cells mgr _
        | false =>
          rw [sent, if_neg Bool.false_ne_true] at started
          cases started
      · rw [if_neg triggered] at returned
        exact ⟨_, _, _, returned, ⟨registers, live (received.bareTube env uid) rfl⟩,
          Confined.creation rfl rfl changed, nofun⟩
    · refine ⟨.error .failed, _, find, ?_, holdsBare,
        Confined.creation rfl rfl fun _ _ => rfl, nofun⟩
      rw [getStarted_created granted, if_neg copied]
      rfl
  · refine ⟨.error .failed, mgr, find, ?_, holds, Confined.refl mgr find uid, nofun⟩
    rw [getStarted, tubeCreate, if_neg granted]
    rfl

theorem obey_confined (holds : mgr.Holds find) {d : TubeEventData} (stored : find id = some d.t)
    (cmd : SpudCommand) :
    ∃ verdict after later, (obey env d cmd).straight mgr = .ok (verdict, after) ∧
      after.Holds later ∧ Confined mgr after find later id ∧ Shrinks mgr after find later := by
  have same : ∀ id t, find id = some t → find id = some t := fun _ _ stored => stored
  obtain ⟨cell, found, own⟩ := holds.live id d.t stored
  have known : ∀ t, find id = some t → t < mgr.tubes.fresh := by
    intro t here
    rw [stored] at here
    cases here
    exact Memory.lt_fresh found
  have set : ∀ changed : Tube, ∀ other, find id ≠ some other →
      (mgr.setTube d.t changed).tubes.cells other = mgr.tubes.cells other := by
    intro changed other different
    refine Memory.set_cells_of_ne _ _ ?_
    rintro rfl
    exact different stored
  by_cases idle : Environment.acts cmd cell.state = false
  · exact ⟨.next, mgr, find, obey_idle found idle, holds, Confined.refl mgr find id, same, rfl,
      rfl⟩
  · rw [Bool.not_eq_false] at idle
    cases cmd with
    | spudData =>
      exact ⟨_, _, find, obey_data found (of_decide_eq_true idle), holds.noted _,
        Confined.of_tubes (fun _ _ => rfl) (fun _ _ => rfl) known, same, rfl, rfl⟩
    | spudOpen => cases idle
    | spudAck =>
      have holdsAfter : (mgr.setTube d.t { cell with state := .running }).Holds find :=
        holds.setTube found (.inl rfl)
      exact ⟨_, _, find, obey_ack found (of_decide_eq_true idle), holdsAfter.noted _,
        Confined.of_tubes (fun _ _ => rfl) (set _) known, same, rfl, rfl⟩
    | spudClose =>
      have different := of_decide_eq_true idle
      cases granted : env.granted (.moment .close) with
      | false =>
        exact ⟨_, _, find, obey_close_refused found different granted,
          holds.setTube found (.inl rfl), Confined.of_tubes (fun _ _ => rfl) (set _) known, same,
          rfl, rfl⟩
      | true =>
        obtain ⟨table, returned, registers⟩ :=
          obey_close holds (own ▸ stored) found different granted
        rw [own] at registers
        have erased : ∀ other, find id ≠ some other →
            (mgr.tubes.erase d.t).cells other = mgr.tubes.cells other := by
          intro other different
          refine Memory.erase_cells_of_ne _ ?_
          rintro rfl
          exact different stored
        have fewer : ∀ other t, Function.update find id none other = some t →
            other ≠ id ∧ find other = some t := by
          intro other t kept
          by_cases here : other = id
          · rw [here, Function.update_self] at kept
            cases kept
          · rw [Function.update_of_ne here] at kept
            exact ⟨here, kept⟩
        refine ⟨_, _, _, returned, ⟨registers, ?_⟩,
          Confined.of_tubes (lookups_update none) erased known,
          fun other t kept => (fewer other t kept).2, rfl, rfl⟩
        intro other t kept
        obtain ⟨elsewhere, kept⟩ := fewer other t kept
        obtain ⟨old, foundOld, ownOld⟩ := holds.live other t kept
        refine ⟨old, (erased t ?_).trans foundOld, ownOld⟩
        intro here
        exact elsewhere (holds.injective kept here)

theorem handleMessage_confined (holds : mgr.Holds find) (received : Reception) (msg : SpudMessage)
    (refused : ∀ size, 2 ^ 30 ≤ size → env.calloc size = false) :
    ∃ verdict after later,
      (handleMessage env received msg).straight mgr = .ok (verdict, after) ∧
      after.Holds later ∧ Confined mgr after find later msg.header.tubeId ∧
      (mgr.tubeManagerIsResponder = false → Shrinks mgr after find later) := by
  cases stored : find msg.header.tubeId with
  | some t =>
    rw [handleMessage_found holds stored]
    let d : TubeEventData := ⟨t, msg.cbor, received.source⟩
    obtain ⟨verdict, after, later, returned, holdsAfter, confined, shrinks⟩ :=
      @obey_confined mgr env find _ holds d stored (SpudCommand.ofFlags msg.header.flags)
    exact ⟨verdict, after, later, returned, holdsAfter, confined, fun _ => shrinks⟩
  | none =>
    by_cases responds : mgr.Responds msg
    · obtain ⟨result, after, later, started, holdsAfter, confined, live⟩ :=
        getStarted_confined holds received stored refused
      rw [handleMessage_started holds stored responds, straight_bind_of started]
      have mute : mgr.tubeManagerIsResponder = false → Shrinks mgr after find later := by
        intro off
        rw [responds.1] at off
        cases off
      cases result with
      | error verdict => exact ⟨verdict, after, later, rfl, holdsAfter, confined, mute⟩
      | ok t =>
        exact ⟨.next, after, later, obey_idle (live t rfl) rfl, holdsAfter, confined, mute⟩
    · exact ⟨.next, mgr, find, handleMessage_ignored holds stored responds, holds,
        Confined.refl mgr find _, fun _ => ⟨fun _ _ stored => stored, rfl, rfl⟩⟩

end Confinement

namespace TubeManager

/-- A manager whose table finds live tubes under their own identifiers. -/
def WellFormed (mgr : TubeManager) : Prop := ∃ find, mgr.Holds find

def lookup (mgr : TubeManager) (id : SpudTubeId) : Exec (Option Nat) :=
  mgr.table.lsHtableGet ⟨none, id⟩

theorem Holds.lookup {mgr : TubeManager} {find : SpudTubeId → Option Nat} (holds : mgr.Holds find)
    (id : SpudTubeId) : mgr.lookup id = .ok (find id) :=
  holds.registers.get ⟨none, id⟩

structure Untouched (mgr after : TubeManager) : Prop where
  table : after.table = mgr.table
  tubes : after.tubes = mgr.tubes
  trace : after.trace = mgr.trace

/-- Every lookup of another identifier and every other tube is as before, and new
tubes have the identifier. -/
structure OnlyTouches (mgr after : TubeManager) (id : SpudTubeId) : Prop where
  lookups : ∀ other, other ≠ id → after.lookup other = mgr.lookup other
  tubes : ∀ t, t < mgr.tubes.fresh → mgr.lookup id ≠ .ok (some t) →
    after.tubes.cells t = mgr.tubes.cells t
  born : ∀ t cell, mgr.tubes.fresh ≤ t → after.tubes.cells t = some cell → cell.id = id

/-- `spud_parse` rejects the bytes, or they address no tube and do not open one. -/
def Ignores (mgr : TubeManager) (library : CborLibrary) (buf : List UInt8) : Prop :=
  match spudParse library buf with
  | .error _ => True
  | .ok msg => mgr.lookup msg.header.tubeId = .ok none ∧ ¬ mgr.Responds msg

structure Isolates (library : CborLibrary) (mgr : TubeManager) (received : Reception)
    (verdict : Verdict) (after : TubeManager) : Prop where
  ignored : mgr.Ignores library received.buf → verdict = .next ∧ mgr.Untouched after
  confined : ∀ msg, spudParse library received.buf = .ok msg →
    mgr.OnlyTouches after msg.header.tubeId

end TubeManager

/-- The loop of a manager with passive callbacks, datagram after datagram; an array
of `2 ^ 30` buckets cannot be allocated. -/
def receptions (library : CborLibrary) : System TubeManager (Environment × Reception) where
  Enabled _ label :=
    label.2.bytes ≠ [] ∧ ∀ size, 2 ^ 30 ≤ size → label.1.calloc size = false
  step mgr label := do
    let ended ← (tubeManagerLoopBody label.1 library true label.2).straight mgr
    pure ended.2

section Runs

variable {library : CborLibrary} {mgr : TubeManager} {env : Environment} {received : Reception}

theorem buf_ne_nil (nonempty : received.bytes ≠ []) : received.buf ≠ [] := by
  intro empty
  rcases List.take_eq_nil_iff.mp empty with none | none
  · exact absurd none (by decide)
  · exact nonempty none

theorem tubeManagerLoopBody_confined {find : SpudTubeId → Option Nat} (holds : mgr.Holds find)
    (nonempty : received.bytes ≠ [])
    (refused : ∀ size, 2 ^ 30 ≤ size → env.calloc size = false) :
    ∃ verdict after later, (tubeManagerLoopBody env library true received).straight mgr =
        .ok (verdict, after) ∧
      after.Holds later ∧ mgr.Isolates library received verdict after ∧
      (mgr.tubeManagerIsResponder = false → Shrinks mgr after find later) := by
  have some := buf_ne_nil nonempty
  have holdsNow := holds.at env received
  cases parsed : spudParse library received.buf with
  | error reason =>
    refine ⟨.next, mgr.at env received, find, ?_, holdsNow, ⟨?_, ?_⟩, ?_⟩
    · rw [tubeManagerLoopBody_rejected some parsed, if_pos rfl]
    · exact fun _ => ⟨rfl, rfl, rfl, rfl⟩
    · intro msg accepted
      rw [parsed] at accepted
      cases accepted
    · exact fun _ => ⟨fun _ _ stored => stored, rfl, rfl⟩
  | ok msg =>
    obtain ⟨verdict, after, later, returned, holdsAfter, confined, shrinks⟩ :=
      handleMessage_confined holdsNow received msg refused
    refine ⟨verdict, after, later, ?_, holdsAfter, ⟨?_, ?_⟩, ?_⟩
    · rw [tubeManagerLoopBody_parsed some parsed]
      exact returned
    · intro ignored
      rw [Ignores, parsed] at ignored
      obtain ⟨missing, mute⟩ := ignored
      rw [holds.lookup, Except.ok.injEq] at missing
      rw [handleMessage_ignored holdsNow missing mute] at returned
      cases returned
      exact ⟨rfl, rfl, rfl, rfl⟩
    · intro other accepted
      rw [parsed] at accepted
      cases accepted
      refine ⟨?_, ?_, confined.born⟩
      · intro other different
        rw [holdsAfter.lookup, holds.lookup, confined.lookups other different]
      · intro t old different
        refine confined.tubes t old ?_
        intro stored
        exact different ((holds.lookup _).trans (congrArg Except.ok stored))
    · intro off
      obtain ⟨lookups, fresh, policy⟩ := shrinks off
      exact ⟨lookups, fresh, policy⟩

theorem receptions_step {label : Environment × Reception} {next : TubeManager}
    {find : SpudTubeId → Option Nat} (holds : mgr.Holds find)
    (enabled : (receptions library).Enabled mgr label)
    (stepped : (receptions library).step mgr label = .ok next) :
    ∃ later, next.Holds later ∧
      (mgr.tubeManagerIsResponder = false → Shrinks mgr next find later) := by
  obtain ⟨verdict, after, later, returned, holdsAfter, _, shrinks⟩ :=
    @tubeManagerLoopBody_confined library mgr label.1 label.2 find holds enabled.1 enabled.2
  simp only [receptions, returned, Exec.ok_bind, Exec.pure_eq_ok, Except.ok.injEq] at stepped
  subst stepped
  exact ⟨later, holdsAfter, shrinks⟩

/-- After any run of datagrams the next one still reaches one tube only, and a
manager that does not respond has gained none. -/
theorem receptions_isolated (library : CborLibrary) (start last : TubeManager)
    (labels : List (Environment × Reception)) (wellFormed : start.WellFormed)
    (run : (receptions library).Run start labels last) :
    (∀ env received, received.bytes ≠ [] →
      (∀ size, 2 ^ 30 ≤ size → env.calloc size = false) →
      ∃ verdict after, (tubeManagerLoopBody env library true received).straight last =
          .ok (verdict, after) ∧ last.Isolates library received verdict after) ∧
      (start.tubeManagerIsResponder = false →
        (∀ id t, last.lookup id = .ok (some t) → start.lookup id = .ok (some t)) ∧
          last.tubes.fresh = start.tubes.fresh) := by
  obtain ⟨find, holds⟩ := wellFormed
  have kept : ∃ later, last.Holds later ∧
      (start.tubeManagerIsResponder = false → Shrinks start last find later) := by
    refine run.preserves (fun mgr => ∃ later, mgr.Holds later ∧
      (start.tubeManagerIsResponder = false → Shrinks start mgr find later)) ?_
      ⟨find, holds, fun _ => ⟨fun _ _ stored => stored, rfl, rfl⟩⟩
    rintro mgr label next ⟨middle, holdsMiddle, shrunk⟩ enabled stepped
    obtain ⟨later, holdsNext, shrinks⟩ := receptions_step holdsMiddle enabled stepped
    refine ⟨later, holdsNext, ?_⟩
    intro off
    obtain ⟨lookups, fresh, policy⟩ := shrunk off
    have stillOff : mgr.tubeManagerIsResponder = false := by
      rw [tubeManagerIsResponder, policy]
      exact off
    obtain ⟨lookupsNext, freshNext, policyNext⟩ := shrinks stillOff
    exact ⟨fun id t stored => lookups id t (lookupsNext id t stored), freshNext.trans fresh,
      policyNext.trans policy⟩
  obtain ⟨later, holdsLast, shrinks⟩ := kept
  refine ⟨?_, ?_⟩
  · intro env received nonempty refused
    obtain ⟨verdict, after, _, returned, _, isolates, _⟩ :=
      tubeManagerLoopBody_confined holdsLast nonempty refused
    exact ⟨verdict, after, returned, isolates⟩
  · intro off
    obtain ⟨lookups, fresh, _⟩ := shrinks off
    refine ⟨?_, fresh⟩
    intro id t stored
    rw [holdsLast.lookup, Except.ok.injEq] at stored
    rw [holds.lookup, lookups id t stored]

end Runs

def obliging : Environment where
  granted _ := true
  calloc size := decide (size < 2 ^ 30)
  randomId := some ⟨fun _ => 7⟩
  sendmsg _ := true
  clock := ⟨1, 0⟩

theorem obliging_refused : ∀ size, 2 ^ 30 ≤ size → obliging.calloc size = false :=
  fun _ huge => decide_eq_false (Nat.not_lt.mpr huge)

def bareHeader (id : SpudTubeId) (cmd : SpudCommand) : Reception where
  sock := 4
  bytes := (sentHeader id cmd false false).bytes
  source := .inet 1402 0x7f000001
  internet := rfl
  info := .clear
  stamp := none

theorem bareHeader_parsed (library : CborLibrary) (id : SpudTubeId) (cmd : SpudCommand) :
    spudParse library (bareHeader id cmd).buf = .ok ⟨⟨id, cmd.value⟩, none⟩ := by
  have header := (SpudHeader.mk id cmd.value).ofBytes_bytes []
  have bytes : (bareHeader id cmd).buf = (SpudHeader.mk id cmd.value).bytes ++ [] := by
    cases cmd <;> rfl
  rw [bytes, spudParse, if_neg, if_neg, header]
  · simp
  · cases cmd <;> exact Bool.false_ne_true

def newResponder : TubeManager where
  table := ⟨hashKey, compareKey, 0, 3, by decide, 0, fun _ => [], 0⟩
  tubes := Memory.empty
  sock4 := 4
  sock6 := 6
  policy := tpWillRespond
  last := ⟨0, 0⟩
  keepGoing := true
  trace := []

theorem newResponder_holds : newResponder.Holds fun _ => none := by
  refine ⟨@Registers.created _ 3 true (fun size => decide (size < 2 ^ 30)) ?_ rfl, nofun⟩
  exact fun _ huge => decide_eq_false (Nat.not_lt.mpr huge)

theorem receptions_isolated_open : ∃ last : TubeManager,
    last.lookup ⟨fun _ => 7⟩ = .ok (some 0) ∧
    ∃ verdict after, (tubeManagerLoopBody obliging minimalCbor true
        (bareHeader ⟨fun _ => 9⟩ .spudOpen)).straight last = .ok (verdict, after) ∧
      last.Isolates minimalCbor (bareHeader ⟨fun _ => 9⟩ .spudOpen) verdict after := by
  obtain ⟨last, run, stored⟩ : ∃ last,
      (receptions minimalCbor).Run newResponder
        [(obliging, bareHeader ⟨fun _ => 7⟩ .spudOpen)] last ∧
      last.lookup ⟨fun _ => 7⟩ = .ok (some 0) := by
    refine System.Run.exists_cons ⟨by decide, obliging_refused⟩ rfl ?_
    exact ⟨_, .nil _, rfl⟩
  obtain ⟨isolated, _⟩ :=
    receptions_isolated minimalCbor newResponder last _ ⟨_, newResponder_holds⟩ run
  exact ⟨last, stored, isolated obliging _ (by decide) obliging_refused⟩

end SpudLib
