import SpudLib.Tube.Calls
import SpudLib.Tube.Returned

/-!
# Every call is a reaction

Whatever memory is refused and whatever is sent, each call of the application
and each datagram that returns does under one identifier what the reaction to
the cue says, and nothing under any other.
-/

namespace SpudLib

open TubeManager

def Luck.Fits (luck : Luck) (env : Environment) (mgr : TubeManager) : Prop :=
  env.Succeeds → mgr.table.Roomy → luck = .full

section Records

variable {mgr after : TubeManager} {env : Environment} {luck : Luck} {id : SpudTubeId}
  {cmd : SpudCommand} {cell : Tube} {t : Nat} {datagram : Datagram}

theorem sendings_triggers (env : Environment) (notice : Notice) :
    sendings (env.triggers notice) = [] := by
  unfold Environment.triggers
  split_ifs <;> rfl

theorem Tube.carries (own : cell.id = id) {data : List (List UInt8)}
    (bare : cmd ≠ .spudData → data = []) :
    Carries id cmd (cell.datagram cmd false false data).bytes := by
  rw [← own]
  refine ⟨_, rfl, ?_⟩
  intro control
  rw [bare control]
  rfl

theorem posted_effects (granted : luck.granted = env.granted)
    (sends : luck.sends cmd = env.sendmsg datagram) (carries : Carries id cmd datagram.bytes) :
    List.Forall₂ (fun (datagram : Datagram) cmd => Carries id cmd datagram.bytes)
      (sendings (env.effects datagram)) (luck.sent cmd) := by
  rw [Luck.sent, granted, sends, Environment.effects]
  cases env.granted .iovec with
  | false => exact .nil
  | true =>
    cases sent : env.sendmsg datagram with
    | false => exact .nil
    | true => exact .cons carries .nil

theorem posted_closing (granted : luck.granted = env.granted)
    (sends : luck.sends .spudClose = env.sendmsg (cell.datagram .spudClose false false []))
    (own : cell.id = id) :
    List.Forall₂ (fun (datagram : Datagram) cmd => Carries id cmd datagram.bytes)
      (sendings (env.closing cell ++ [.destroyed t])) (luck.farewell (some cell.state)) := by
  have nothing : sendings [Effect.destroyed t] = [] := rfl
  rw [sendings_append, nothing, List.append_nil, Environment.closing, Luck.farewell]
  by_cases running : cell.state = .running
  · rw [if_pos running, if_pos (congrArg some running)]
    exact posted_effects granted sends (Tube.carries own fun _ => rfl)
  · rw [if_neg running, if_neg fun same => running (Option.some.inj same)]
    exact .nil

@[simp] theorem naming_sent (answer : Bool) :
    mgr.naming after (.sent datagram answer) = none := rfl

@[simp] theorem naming_destroyed : mgr.naming after (Effect.destroyed t) = none := rfl

theorem named_effects : (env.effects datagram).filterMap (mgr.naming after) = [] := by
  unfold Environment.effects
  split_ifs <;> rfl

theorem named_closing :
    (env.closing cell ++ [Effect.destroyed t]).filterMap (mgr.naming after) = [] := by
  unfold Environment.closing Environment.effects
  split_ifs <;> rfl

theorem named_triggers {notice : Notice} (granted : luck.granted = env.granted)
    (found : mgr.tubes.cells notice.tube = some cell) (own : cell.id = id) :
    (env.triggers notice).filterMap (mgr.naming after) =
      (luck.events notice.event).map fun event => (some id, event) := by
  unfold Environment.triggers Luck.events
  rw [granted]
  split_ifs
  · rw [List.filterMap_cons_some (naming_old found), own]
    rfl
  · rfl

theorem named_hungUp {d : TubeEventData} (granted : luck.granted = env.granted)
    (found : mgr.tubes.cells d.t = some cell) (own : cell.id = id) :
    (.triggered (.close d) :: env.triggers (.remove d.t) ++ [Effect.destroyed d.t]).filterMap
        (mgr.naming after) =
      (.close :: luck.events .remove).map fun event => (some id, event) := by
  have removing := @named_triggers mgr after env luck id cell (.remove d.t) granted found own
  rw [List.cons_append, List.filterMap_cons_some (naming_old found), List.filterMap_append,
    removing, own]
  simp [Notice.event]

end Records

/-- The luck of a call that sends at most one kind of datagram. -/
def Environment.luck (env : Environment) (placed : Bool) (datagram : Datagram) : Luck :=
  ⟨env.granted, placed, fun _ => env.sendmsg datagram⟩

theorem Environment.luck_fits {env : Environment} {mgr : TubeManager} {placed : Bool}
    (placing : env.Succeeds → mgr.table.Roomy → placed = true) (datagram : Datagram) :
    (env.luck placed datagram).Fits env mgr := by
  intro succeeds roomy
  rw [luck, placing succeeds roomy, succeeds.sendmsg, funext succeeds.granted]
  rfl

section Calls

variable {library : CborLibrary} {mgr after : TubeManager} {env : Environment}
  {find : SpudTubeId → Option Nat} {id : SpudTubeId} {t : Nat} {cell : Tube}

theorem returned_tubeSend_dead (dead : mgr.tubes.cells t = none) {cmd : SpudCommand}
    {adec pdec : Bool} {data : List (List UInt8)} {answer : Bool}
    (returned : (tubeSend env t cmd adec pdec data).straight mgr = .ok (answer, after)) :
    after = mgr := by
  unfold tubeSend at returned
  split_ifs at returned
  · obtain ⟨cell, _, read, _⟩ := returned_bind returned
    rw [(returned_readTube read).1] at dead
    cases dead
  · exact (returned_pure returned).2

theorem returned_tubeData_dead (dead : mgr.tubes.cells t = none) {bytes : List UInt8}
    {answer : Bool}
    (returned : (tubeData env library t bytes).straight mgr = .ok (answer, after)) :
    after = mgr := by
  unfold tubeData at returned
  split_ifs at returned
  · exact returned_tubeSend_dead dead returned
  · unfold tubeSendCbor at returned
    split at returned
    · exact (returned_pure returned).2
    · exact returned_tubeSend_dead dead returned
  · exact (returned_pure returned).2

/-- The application sends data through a tube in the table. -/
theorem tubeData_reacts (tracks : mgr.Tracks find) (stored : find id = some t)
    {bytes : List UInt8} {answer : Bool}
    (returned : (tubeData env library t bytes).straight mgr = .ok (answer, after))
    (responds : Bool) :
    ∃ luck : Luck, after.Tracked ∧
      mgr.Reacts after id (luck.react responds (mgr.held id) .said) := by
  let mute : Luck := ⟨env.granted, true, fun _ => false⟩
  have unsent : mute.sent .spudData = [] := if_neg (by simp [mute])
  cases found : mgr.tubes.cells t with
  | none =>
    obtain rfl := returned_tubeData_dead found returned
    refine ⟨mute, ⟨find, tracks⟩, ?_⟩
    rw [Luck.react, unsent]
    exact (tracks.beside tracks.registers (Nat.le_refl _) (fun _ _ => rfl)
      (List.append_nil _).symm rfl rfl).2 id
  | some cell =>
    obtain ⟨_, effects, sent, few⟩ := @tubeData_ok mgr env t cell library found bytes
    rw [Proc.straight_of_done sent] at returned
    cases returned
    have held := tracks.held_some stored found
    rcases few with rfl | ⟨data, rfl⟩
    · refine ⟨mute, ?_⟩
      rw [Luck.react, unsent]
      exact tracks.inPlace stored found rfl rfl found rfl (fun _ _ => rfl) rfl held .nil rfl
    · refine ⟨env.luck true (cell.datagram .spudData false false data), ?_⟩
      exact tracks.inPlace stored found rfl rfl found rfl (fun _ _ => rfl) rfl held
        (posted_effects rfl rfl (Tube.carries (tracks.own stored found) (by simp))) named_effects

/-- The application closes a tube in the table. -/
theorem tubeClose_reacts (tracks : mgr.Tracks find) (stored : find id = some t) {answer : Bool}
    (returned : (tubeClose env t).straight mgr = .ok (answer, after)) (responds : Bool) :
    ∃ luck : Luck, luck.Fits env mgr ∧ after.Tracked ∧
      mgr.Reacts after id (luck.react responds (mgr.held id) .closed) := by
  obtain ⟨_, _, set, _⟩ := returned_bind returned
  obtain ⟨cell, found⟩ := returned_modifyTube set
  rw [Proc.straight_of_done (tubeClose_ok found)] at returned
  cases returned
  let datagram := cell.datagram .spudClose false false []
  refine ⟨env.luck true datagram, env.luck_fits (fun _ _ => rfl) datagram, ?_⟩
  exact tracks.inPlace stored found rfl rfl (Memory.set_cells_self _ found) rfl
    (fun other different => Memory.set_cells_of_ne _ _ different) rfl rfl
    (posted_effects rfl rfl (Tube.carries (tracks.own stored found) fun _ => rfl)) named_effects

/-- The application removes a tube from the table. -/
theorem tubeManagerRemove_reacts (tracks : mgr.Tracks find) (stored : find id = some t)
    {value : Unit} (returned : (tubeManagerRemove env t).straight mgr = .ok (value, after))
    (responds : Bool) :
    ∃ luck : Luck, luck.Fits env mgr ∧ after.Tracked ∧
      mgr.Reacts after id (luck.react responds (mgr.held id) .removed) := by
  obtain ⟨_, _, triggered, unregistered⟩ := returned_bind returned
  rw [lsEventTrigger_straight] at triggered
  cases triggered
  obtain ⟨cell, _, read, _⟩ := returned_bind unregistered
  have found : mgr.tubes.cells t = some cell := (returned_readTube read).1
  obtain rfl := tracks.own stored found
  obtain ⟨table, rfl, registers⟩ := returned_tubeManagerRemove tracks.registers found stored
    returned
  let datagram := cell.datagram .spudClose false false []
  let middle := (mgr.noted (env.triggers (.remove t))).withTable table
  have live : middle.tubes.cells t = some cell := found
  have trace : (middle.evict env (some t)).trace =
      mgr.trace ++ (env.triggers (.remove t) ++ (env.closing cell ++ [.destroyed t])) := by
    rw [evict_some live]
    exact List.append_assoc ..
  refine ⟨env.luck true datagram, env.luck_fits (fun _ _ => rfl) datagram, ?_⟩
  refine tracks.leaves stored found (by rw [evict_table]; exact registers) (evict_fresh ..)
    (fun other different => evict_cells_of_ne fun same => different (Option.some.inj same).symm)
    (evict_cells_self ..) trace rfl ?_ ?_
  · rw [sendings_append, sendings_triggers, List.nil_append, tracks.held_some stored found]
    exact posted_closing rfl rfl rfl
  · rw [List.filterMap_append, named_closing, List.append_nil]
    exact @named_triggers mgr _ env (env.luck true datagram) _ cell (.remove t) rfl found rfl

theorem obey_reacts (tracks : mgr.Tracks find) {d : TubeEventData} (stored : find id = some d.t)
    {cmd : SpudCommand} {verdict : Verdict}
    (returned : (obey env d cmd).straight mgr = .ok (verdict, after)) (responds : Bool) :
    ∃ luck : Luck, luck.Fits env mgr ∧ mgr.posted after = [] ∧ after.Tracked ∧
      mgr.Reacts after id (luck.react responds (mgr.held id) (.heard cmd)) := by
  obtain ⟨cell, _, read, _⟩ := returned_bind returned
  have found : mgr.tubes.cells d.t = some cell := (returned_readTube read).1
  obtain rfl := tracks.own stored found
  have held := tracks.held_some stored found
  let luck : Luck := ⟨env.granted, true, fun _ => true⟩
  have fits : luck.Fits env mgr := by
    intro succeeds _
    rw [Luck.full, ← funext succeeds.granted]
  have silent : ∀ notice, sendings (env.triggers notice) = [] := sendings_triggers env
  refine ⟨luck, fits, ?_⟩
  rw [held, Luck.react]
  by_cases idle : Environment.acts cmd cell.state = false
  · rw [obey_idle found idle] at returned
    cases returned
    have trace : mgr.trace = mgr.trace ++ [] := (List.append_nil _).symm
    obtain ⟨_, reacts⟩ :=
      tracks.beside tracks.registers (Nat.le_refl _) (fun _ _ => rfl) trace rfl rfl
    refine ⟨posted_of_trace trace, ⟨find, tracks⟩, ?_⟩
    rw [Luck.hear_idle idle, ← held]
    exact reacts cell.id
  · rw [Bool.not_eq_false] at idle
    cases cmd with
    | spudOpen => cases idle
    | spudData =>
      have running : cell.state = .running := of_decide_eq_true idle
      rw [obey_data found running] at returned
      cases returned
      refine ⟨(posted_of_trace rfl).trans (silent _), ?_⟩
      rw [running, Luck.hear_data]
      refine tracks.inPlace stored found rfl rfl found rfl (fun _ _ => rfl) rfl
        (congrArg some running.symm) ?_ (named_triggers rfl found rfl)
      rw [silent]
      exact .nil
    | spudAck =>
      have opening : cell.state = .opening := of_decide_eq_true idle
      rw [obey_ack found opening] at returned
      cases returned
      refine ⟨(posted_of_trace rfl).trans (silent _), ?_⟩
      rw [opening, Luck.hear_ack]
      refine tracks.inPlace stored found rfl rfl (Memory.set_cells_self _ found) rfl
        (fun other different => Memory.set_cells_of_ne _ _ different) rfl rfl ?_
        (named_triggers rfl found rfl)
      rw [silent]
      exact .nil
    | spudClose =>
      have known : cell.state ≠ .unknown := of_decide_eq_true idle
      rw [Luck.hear_close known]
      cases granted : env.granted (.moment .close) with
      | false =>
        have trace : mgr.trace = mgr.trace ++ [] := (List.append_nil _).symm
        rw [obey_close_refused found known granted] at returned
        cases returned
        refine ⟨posted_of_trace trace, ?_⟩
        rw [if_neg (show ¬ env.granted (.moment .close) = true by simp [granted])]
        exact tracks.inPlace stored found rfl rfl (Memory.set_cells_self _ found) rfl
          (fun other different => Memory.set_cells_of_ne _ _ different) trace rfl .nil rfl
      | true =>
        let closed : Tube := { cell with state := .unknown }
        let middle := (mgr.setTube d.t closed).noted [.triggered (.close d)]
        have removed : ∃ last, (tubeManagerRemove env d.t).straight middle = .ok ((), last) := by
          rw [obey, straight_bind_of_done (readTube_ok found)] at returned
          simp only [ne_eq, if_pos known] at returned
          rw [straight_bind_of_done (tubeSetState_ok found _),
            straight_bind_of (lsEventTrigger_straight _),
            show env.triggers (.close d) = [.triggered (.close d)] from if_pos granted,
            Notice.event, granted] at returned
          obtain ⟨_, last, removed, _⟩ := returned_bind returned
          exact ⟨last, removed⟩
        obtain ⟨last, removed⟩ := removed
        have live : middle.tubes.cells d.t = some closed := Memory.set_cells_self _ found
        obtain ⟨table, rfl, registers⟩ := @returned_tubeManagerRemove middle _ env find d.t closed
          tracks.registers live stored _ removed
        rw [obey_close_of found known granted removed] at returned
        cases returned
        let effects : List Effect :=
          .triggered (.close d) :: env.triggers (.remove d.t) ++ [.destroyed d.t]
        have unsent : sendings effects = [] := by
          have rest : sendings (env.triggers (.remove d.t) ++ [.destroyed d.t]) = [] := by
            rw [sendings_append, silent]
            rfl
          exact rest
        refine ⟨(posted_of_trace rfl).trans unsent, ?_⟩
        rw [if_pos granted]
        refine tracks.leaves stored found registers rfl
          (fun other different => Memory.erase_cells_of_ne _ different)
          (Memory.erase_cells_self ..) rfl rfl ?_ ?_
        · rw [unsent]
          exact .nil
        · exact named_hungUp rfl found rfl

theorem TubeManager.Tracks.lost (tracks : mgr.Tracks find) (missing : find id = none)
    {table : HTable TubeKey Nat} (registers : Registers table find) (cell : Tube) :
    mgr.posted ((mgr.created cell).withTable table) = [] ∧
      ((mgr.created cell).withTable table).Tracked ∧
      mgr.Reacts ((mgr.created cell).withTable table) id ⟨none, [], []⟩ := by
  have trace : ((mgr.created cell).withTable table).trace = mgr.trace ++ [] :=
    (List.append_nil _).symm
  obtain ⟨tracked, reacts⟩ := @Tracks.beside mgr ((mgr.created cell).withTable table) find _ tracks
    registers (Nat.le_succ _)
    (fun other old => Memory.alloc_cells_of_ne _ _ (Nat.ne_of_lt old)) trace rfl rfl
  refine ⟨posted_of_trace trace, tracked, ?_⟩
  rw [← tracks.held_none missing]
  exact reacts id

theorem TubeManager.Tracks.made (tracks : mgr.Tracks find) (missing : find id = none)
    {table : HTable TubeKey Nat}
    (registers : Registers table (Function.update find id (some mgr.tubes.fresh))) {cell : Tube}
    (own : cell.id = id) {effects : List Effect} {sent : List SpudCommand}
    {events : List TubeEvent}
    (posted : List.Forall₂ (fun (datagram : Datagram) cmd => Carries id cmd datagram.bytes)
      (sendings effects) sent)
    (named : effects.filterMap
        (mgr.naming (((mgr.created cell).withTable table).noted effects)) =
      events.map fun event => (some id, event)) :
    (((mgr.created cell).withTable table).noted effects).Tracked ∧
      mgr.Reacts (((mgr.created cell).withTable table).noted effects) id
        ⟨some cell.state, sent, events⟩ := by
  have live : (mgr.tubes.alloc cell).cells mgr.tubes.fresh = some cell :=
    Memory.alloc_cells_self ..
  refine tracks.enters registers rfl ?_ ?_ ?_ rfl ?_ posted named
  · intro other found
    cases live.symm.trans found
    exact own
  · exact fun other different _ => Memory.alloc_cells_of_ne _ _ different
  · intro other taken
    rw [missing] at taken
    cases taken
  · exact (congrArg (Option.map Tube.state) live).symm

theorem Luck.accept_made {luck : Luck} (granted : luck.granted .tube = true)
    (copied : luck.granted .pktinfo = true) :
    luck.accept = if luck.placed then
        if luck.granted (.moment .add) then ⟨some .running, luck.sent .spudAck, [.add]⟩
        else ⟨some .unknown, [], []⟩
      else ⟨none, [], []⟩ := by
  rw [Luck.accept, granted, copied]
  rfl

theorem Luck.accept_lost {luck : Luck}
    (refused : (luck.granted .tube && luck.granted .pktinfo) = false) :
    luck.accept = ⟨none, [], []⟩ := by
  rw [Luck.accept, refused]
  rfl

theorem sendings_effects (env : Environment) (datagram : Datagram) :
    ∀ other ∈ sendings (env.effects datagram), other = datagram := by
  intro other member
  unfold Environment.effects at member
  split_ifs at member
  · cases answer : env.sendmsg datagram with
    | true => simpa [sendings, answer] using member
    | false => simp [sendings, answer] at member
  · cases member

theorem getStarted_reacts (tracks : mgr.Tracks find) {received : Reception}
    (missing : find id = none) (refused : ∀ size, 2 ^ 30 ≤ size → env.calloc size = false)
    {result : Except Verdict Nat}
    (returned : (getStarted env received id).straight mgr = .ok (result, after)) :
    (∃ luck : Luck, luck.Fits env mgr ∧
      (∀ datagram ∈ mgr.posted after, datagram = received.ack id) ∧
      after.Tracked ∧ mgr.Reacts after id luck.accept) ∧
      ∀ t, result = .ok t → after.tubes.cells t = some (received.tube id) := by
  let ack := received.ack id
  let bare := received.bareTube env id
  by_cases granted : env.granted .tube = true
  · by_cases copied : env.granted .pktinfo = true
    · have started := @getStarted_created mgr env granted received id
      rw [if_pos copied] at started
      have onward := returned
      rw [started] at onward
      obtain ⟨answer, middle, added, _⟩ := returned_bind onward
      obtain ⟨placed, table, rfl, rfl, registers, _, _, placing⟩ :=
        @returned_tubeManagerAdd (mgr.created bare) _ env find mgr.tubes.fresh bare tracks.registers
          refused (created_cells mgr bare) _ added
      rw [show bare.id = id from rfl] at registers added
      rw [missing, evict_none] at added
      rw [getStarted_of received id granted copied added] at returned
      let luck := env.luck placed ack
      have fits : luck.Fits env mgr := env.luck_fits
        (fun succeeds roomy => placing (succeeds.granted _) succeeds.called roomy) ack
      have accept : luck.accept = _ := Luck.accept_made granted copied
      cases placed with
      | false =>
        rw [Bool.false_and, if_neg Bool.false_ne_true] at returned
        cases returned
        obtain ⟨unsent, tracked, reacts⟩ := tracks.lost missing registers bare
        refine ⟨⟨luck, fits, ?_, tracked, accept ▸ reacts⟩, nofun⟩
        intro datagram member
        rw [unsent] at member
        cases member
      | true =>
        cases triggered : env.granted (.moment .add) with
        | false =>
          rw [triggered, Bool.and_false, if_neg Bool.false_ne_true] at returned
          cases returned
          have made := @Tracks.made mgr find id tracks missing table registers bare rfl [] [] []
            .nil rfl
          rw [noted_nil] at made
          have trace : mgr.trace = mgr.trace ++ [] := (List.append_nil _).symm
          rw [show luck.placed = true from rfl, if_pos rfl,
            show luck.granted (.moment .add) = false from triggered,
            if_neg Bool.false_ne_true] at accept
          refine ⟨⟨luck, fits, ?_, made.1, accept ▸ made.2⟩, nofun⟩
          rw [@posted_of_trace mgr ((mgr.created bare).withTable table) [] trace]
          exact fun _ => nofun
        | true =>
          rw [triggered, Bool.and_self, if_pos rfl] at returned
          cases returned
          let cell := received.tube id
          let effects : List Effect := .triggered (.add mgr.tubes.fresh) :: env.effects ack
          have live : (mgr.created cell).tubes.cells mgr.tubes.fresh = some cell :=
            created_cells mgr cell
          have made := @Tracks.made mgr find id tracks missing table registers cell rfl effects
            (luck.sent .spudAck) [.add] (posted_effects rfl rfl (Tube.carries rfl fun _ => rfl)) (by
              have unborn := mgr.tubes.unallocated mgr.tubes.fresh (Nat.le_refl _)
              rw [List.filterMap_cons_some (naming_new unborn live), named_effects]
              rfl)
          rw [show luck.placed = true from rfl, if_pos rfl,
            show luck.granted (.moment .add) = true from triggered, if_pos rfl] at accept
          refine ⟨⟨luck, fits, ?_, made.1, accept ▸ made.2⟩, ?_⟩
          · rw [posted_of_trace rfl]
            exact sendings_effects env ack
          · intro t same
            cases answered : env.answer ack with
            | false =>
              rw [answered, if_neg Bool.false_ne_true] at same
              cases same
            | true =>
              rw [answered, if_pos rfl] at same
              cases same
              exact live
    · have failed : (getStarted env received id).straight mgr =
          .ok (.error .failed, mgr.created bare) := by
        rw [getStarted_created granted, if_neg copied]
        rfl
      rw [failed] at returned
      cases returned
      let luck := env.luck true ack
      obtain ⟨unsent, tracked, reacts⟩ := tracks.lost missing tracks.registers bare
      have accept : luck.accept = ⟨none, [], []⟩ := Luck.accept_lost (by
        rw [show luck.granted .pktinfo = false from Bool.eq_false_iff.mpr copied, Bool.and_false])
      refine ⟨⟨luck, env.luck_fits (fun _ _ => rfl) ack, ?_, tracked, accept ▸ reacts⟩, nofun⟩
      intro datagram member
      rw [show mgr.posted (mgr.created bare) = [] from unsent] at member
      cases member
  · have failed : (getStarted env received id).straight mgr = .ok (.error .failed, mgr) := by
      rw [getStarted, tubeCreate, if_neg granted]
      rfl
    rw [failed] at returned
    cases returned
    let luck := env.luck true ack
    have trace : mgr.trace = mgr.trace ++ [] := (List.append_nil _).symm
    obtain ⟨tracked, reacts⟩ :=
      tracks.beside tracks.registers (Nat.le_refl _) (fun _ _ => rfl) trace rfl rfl
    have accept : luck.accept = ⟨none, [], []⟩ := Luck.accept_lost (by
      rw [show luck.granted .tube = false from Bool.eq_false_iff.mpr granted, Bool.false_and])
    refine ⟨⟨luck, env.luck_fits (fun _ _ => rfl) ack, ?_, tracked, ?_⟩, nofun⟩
    · rw [posted_of_trace trace]
      exact fun _ => nofun
    · rw [accept, ← tracks.held_none missing]
      exact reacts id

/-- A message is heard under its identifier, and only an `OPEN` is answered. -/
theorem handleMessage_reacts (tracks : mgr.Tracks find) {received : Reception} {msg : SpudMessage}
    (refused : ∀ size, 2 ^ 30 ≤ size → env.calloc size = false) {verdict : Verdict}
    (returned : (handleMessage env received msg).straight mgr = .ok (verdict, after)) :
    ∃ luck : Luck, luck.Fits env mgr ∧ (∀ datagram ∈ mgr.posted after,
        SpudCommand.ofFlags msg.header.flags = .spudOpen ∧
          datagram = received.ack msg.header.tubeId) ∧ after.Tracked ∧
      mgr.Reacts after msg.header.tubeId (luck.react mgr.tubeManagerIsResponder
        (mgr.held msg.header.tubeId) (.heard (SpudCommand.ofFlags msg.header.flags))) := by
  obtain ⟨_, same, read, onward⟩ := returned_bind returned
  rw [returned_readKeys read] at onward
  obtain ⟨found, same, looked, finished⟩ := returned_bind onward
  rw [straight_lift, tracks.registers.get ⟨none, msg.header.tubeId⟩] at looked
  cases looked
  cases stored : find msg.header.tubeId with
  | some t =>
    rw [stored] at finished
    obtain ⟨luck, fits, unsent, reacts⟩ :=
      @obey_reacts mgr after env find _ tracks ⟨t, msg.cbor, received.source⟩ stored _ verdict
        finished mgr.tubeManagerIsResponder
    refine ⟨luck, fits, ?_, reacts⟩
    rw [unsent]
    exact fun _ => nofun
  | none =>
    rw [stored, straight_bind_of_done rfl] at finished
    rw [tracks.held_none stored]
    cases opens : (mgr.tubeManagerIsResponder &&
        decide (SpudCommand.ofFlags msg.header.flags = .spudOpen)) with
    | false =>
      have punt : (!mgr.tubeManagerIsResponder ||
          decide (SpudCommand.ofFlags msg.header.flags ≠ .spudOpen)) = true := by
        rcases Bool.and_eq_false_iff.mp opens with mute | other
        · rw [mute]
          rfl
        · rw [Bool.or_eq_true]
          exact .inr (decide_eq_true (of_decide_eq_false other))
      rw [if_pos punt] at finished
      obtain ⟨_, rfl⟩ := returned_pure finished
      have trace : after.trace = after.trace ++ [] := (List.append_nil _).symm
      obtain ⟨tracked, reacts⟩ :=
        tracks.beside tracks.registers (Nat.le_refl _) (fun _ _ => rfl) trace rfl rfl
      refine ⟨.full, fun _ _ => rfl, ?_, tracked, ?_⟩
      · rw [posted_of_trace trace]
        exact fun _ => nofun
      · rw [Luck.react, Luck.hear, opens, if_neg Bool.false_ne_true, ← tracks.held_none stored]
        exact reacts _
    | true =>
      obtain ⟨responds, opening⟩ := Bool.and_eq_true_iff.mp opens
      have command : SpudCommand.ofFlags msg.header.flags = .spudOpen := of_decide_eq_true opening
      have greet : ¬ (!mgr.tubeManagerIsResponder ||
          decide (SpudCommand.ofFlags msg.header.flags ≠ .spudOpen)) = true := by
        simp [responds, command]
      rw [if_neg greet] at finished
      obtain ⟨result, middle, started, answered⟩ := returned_bind finished
      obtain ⟨⟨luck, fits, acks, reacts⟩, live⟩ :=
        @getStarted_reacts mgr middle env find _ tracks received stored refused result started
      have ended : after = middle := by
        cases result with
        | error early => exact (returned_pure answered).2
        | ok t =>
          have idle : Environment.acts .spudOpen
              (received.tube msg.header.tubeId).state = false := rfl
          simp only [command] at answered
          rw [@obey_idle middle env ⟨t, msg.cbor, received.source⟩ _ .spudOpen (live t rfl) idle]
            at answered
          cases answered
          rfl
      subst ended
      refine ⟨luck, fits, fun datagram member => ⟨command, acks datagram member⟩, reacts.1, ?_⟩
      rw [Luck.react, Luck.hear, opens, if_pos rfl]
      exact reacts.2

/-- A datagram is heard under the identifier it carries, if it is accepted. -/
theorem tubeManagerLoopBody_reacts (tracks : mgr.Tracks find) {received : Reception}
    (refused : ∀ size, 2 ^ 30 ≤ size → env.calloc size = false) {hasErr : Bool}
    {verdict : Verdict}
    (returned : (tubeManagerLoopBody env library hasErr received).straight mgr =
      .ok (verdict, after)) :
    match spudParse library received.buf with
    | .error _ => mgr.posted after = [] ∧ after.Tracked ∧
        ∀ id, mgr.Reacts after id ⟨mgr.held id, [], []⟩
    | .ok msg => ∃ luck : Luck, luck.Fits env mgr ∧ (∀ datagram ∈ mgr.posted after,
          SpudCommand.ofFlags msg.header.flags = .spudOpen ∧
            datagram = received.ack msg.header.tubeId) ∧ after.Tracked ∧
        mgr.Reacts after msg.header.tubeId (luck.react mgr.tubeManagerIsResponder
          (mgr.held msg.header.tubeId) (.heard (SpudCommand.ofFlags msg.header.flags))) := by
  have some : received.buf ≠ [] := by
    intro empty
    rw [tubeManagerLoopBody_empty empty] at returned
    cases returned
  have tracksNow : (mgr.at env received).Tracks find := ⟨tracks.registers, tracks.known⟩
  cases parsed : spudParse library received.buf with
  | error reason =>
    rw [tubeManagerLoopBody_rejected some parsed] at returned
    split_ifs at returned
    cases returned
    have trace : (mgr.at env received).trace = mgr.trace ++ [] := (List.append_nil _).symm
    have beside := @Tracks.beside mgr (mgr.at env received) find _ tracks tracks.registers
      (Nat.le_refl _) (fun _ _ => rfl) trace rfl rfl
    exact ⟨posted_of_trace trace, beside⟩
  | ok msg =>
    rw [tubeManagerLoopBody_parsed some parsed] at returned
    obtain ⟨luck, fits, acks, tracked, reacts⟩ := handleMessage_reacts tracksNow refused returned
    exact ⟨luck, fits, acks, tracked, reacts.grows, reacts.own, reacts.others, reacts.posted,
      reacts.named⟩

theorem evict_farewell (tracks : mgr.Tracks find) (env : Environment) (id : SpudTubeId)
    (live : ∀ old, find id = some old → ∃ cell, mgr.tubes.cells old = some cell)
    {base : TubeManager} (cells : ∀ old, find id = some old →
      base.tubes.cells old = mgr.tubes.cells old) (same : base.trace = mgr.trace) :
    ∃ closes effects, (env.Succeeds → closes = true) ∧
      (base.evict env (find id)).trace = mgr.trace ++ effects ∧
      (∀ after, effects.filterMap (mgr.naming after) = []) ∧
      ∀ luck : Luck, luck.granted = env.granted → luck.sends .spudClose = closes →
        List.Forall₂ (fun (datagram : Datagram) cmd => Carries id cmd datagram.bytes)
          (sendings effects) (luck.farewell (mgr.held id)) := by
  cases taken : find id with
  | none =>
    refine ⟨true, [], fun _ => rfl, same.trans (List.append_nil _).symm, fun _ => rfl, ?_⟩
    intro luck _ _
    rw [tracks.held_none taken]
    exact .nil
  | some old =>
    obtain ⟨cell, found⟩ := live old taken
    let datagram := cell.datagram .spudClose false false []
    refine ⟨env.sendmsg datagram, env.closing cell ++ [.destroyed old],
      fun succeeds => succeeds.sendmsg _, ?_, fun _ => named_closing, ?_⟩
    · rw [evict_some ((cells old taken).trans found)]
      exact congrArg (· ++ _) same
    · intro luck granted sends
      rw [tracks.held_some taken found]
      exact posted_closing granted sends (tracks.own taken found)

/-- A tube that was just made is in the table under its identifier, and what was there has made
room for it. -/
structure Entered (mgr : TubeManager) (find : SpudTubeId → Option Nat) (luck : Luck)
    (opening : Tube) (leaving : List Effect) (entered : TubeManager) : Prop where
  registers : Registers entered.table (Function.update find opening.id (some mgr.tubes.fresh))
  grown : entered.tubes.fresh = mgr.tubes.fresh + 1
  found : entered.tubes.cells mgr.tubes.fresh = some opening
  others : ∀ other, other ≠ mgr.tubes.fresh → find opening.id ≠ some other →
    entered.tubes.cells other = mgr.tubes.cells other
  gone : ∀ other, find opening.id = some other → entered.tubes.cells other = none
  trace : entered.trace = mgr.trace ++ leaving
  quiet : ∀ last, leaving.filterMap (mgr.naming last) = []
  farewell : List.Forall₂ (fun (datagram : Datagram) cmd => Carries opening.id cmd datagram.bytes)
    (sendings leaving) (luck.farewell (mgr.held opening.id))

section Entering

variable {entered : TubeManager} {luck : Luck} {opening : Tube} {leaving : List Effect}

theorem Entered.unannounced (enters : Entered mgr find luck opening leaving entered)
    (tracks : mgr.Tracks find) :
    ({ entered with
        tubes := entered.tubes.erase mgr.tubes.fresh
        trace := entered.trace ++ [.destroyed mgr.tubes.fresh] } : TubeManager).Tracked ∧
      mgr.Reacts { entered with
        tubes := entered.tubes.erase mgr.tubes.fresh
        trace := entered.trace ++ [.destroyed mgr.tubes.fresh] } opening.id
        ⟨none, luck.farewell (mgr.held opening.id), []⟩ := by
  have dead : (entered.tubes.erase mgr.tubes.fresh).cells mgr.tubes.fresh = none :=
    Memory.erase_cells_self ..
  have before : ∀ other, find opening.id = some other → other ≠ mgr.tubes.fresh := by
    rintro other taken rfl
    exact Nat.lt_irrefl _ (tracks.known _ _ taken).1
  refine @Tracks.enters mgr _ find opening.id (leaving ++ [.destroyed mgr.tubes.fresh]) _ tracks
    enters.registers enters.grown ?_ ?_ ?_ ?_ ?_ ?_ ?_
  · intro cell found
    cases dead.symm.trans found
  · intro other different apart
    exact (Memory.erase_cells_of_ne _ different).trans (enters.others other different apart)
  · intro other taken
    exact (Memory.erase_cells_of_ne _ (before other taken)).trans (enters.gone other taken)
  · change entered.trace ++ _ = _
    rw [enters.trace, List.append_assoc]
  · exact (congrArg (Option.map Tube.state) dead).symm
  · rw [sendings_append, show sendings [Effect.destroyed mgr.tubes.fresh] = [] from rfl,
      List.append_nil]
    exact enters.farewell
  · rw [List.filterMap_append, enters.quiet]
    rfl

theorem Entered.announced (enters : Entered mgr find luck opening leaving entered)
    (tracks : mgr.Tracks find) (granted : luck.granted = env.granted)
    (sends : luck.sends .spudOpen = env.sendmsg (opening.datagram .spudOpen false false [])) :
    (entered.noted ([.triggered (.add mgr.tubes.fresh)] ++
        env.effects (opening.datagram .spudOpen false false []))).Tracked ∧
      mgr.Reacts (entered.noted ([.triggered (.add mgr.tubes.fresh)] ++
          env.effects (opening.datagram .spudOpen false false []))) opening.id
        ⟨some opening.state, luck.farewell (mgr.held opening.id) ++ luck.sent .spudOpen,
          [.add]⟩ := by
  let datagram := opening.datagram .spudOpen false false []
  let said := [.triggered (.add mgr.tubes.fresh)] ++ env.effects datagram
  have found : (entered.noted said).tubes.cells mgr.tubes.fresh = some opening := enters.found
  have unborn := mgr.tubes.unallocated mgr.tubes.fresh (Nat.le_refl _)
  refine @Tracks.enters mgr (entered.noted said) find opening.id (leaving ++ said) _ tracks
    enters.registers enters.grown ?_ enters.others enters.gone ?_ ?_ ?_ ?_
  · intro cell again
    cases found.symm.trans again
    rfl
  · change entered.trace ++ said = _
    rw [enters.trace, List.append_assoc]
  · exact (congrArg (Option.map Tube.state) found).symm
  · rw [sendings_append]
    exact List.rel_append enters.farewell
      (posted_effects granted sends (Tube.carries rfl fun _ => rfl))
  · rw [List.filterMap_append, enters.quiet, List.filterMap_append, named_effects,
      List.nil_append, List.append_nil, List.filterMap_cons_some (naming_new unborn found)]
    rfl

end Entering

/-- The end of `tube_manager_open_tube`, for a tube that was just made. -/
theorem openTubeWith_reacts (tracks : mgr.Tracks find)
    (refused : ∀ size, 2 ^ 30 ≤ size → env.calloc size = false)
    (granted : env.granted .tube = true) {bare : Tube} {answer : Option Nat}
    (returned : (openTubeWith env mgr.tubes.fresh).straight (mgr.created bare) =
      .ok (answer, after)) (responds : Bool) :
    ∃ luck : Luck, luck.Fits env mgr ∧ after.Tracked ∧
      mgr.Reacts after bare.id (luck.react responds (mgr.held bare.id) .opened) := by
  let fresh := mgr.tubes.fresh
  let opening : Tube := { bare with state := .opening }
  let base := mgr.created opening
  have made : base.tubes.cells fresh = some opening := created_cells mgr opening
  have kept : ∀ other, other ≠ fresh → base.tubes.cells other = mgr.tubes.cells other :=
    fun other different => Memory.alloc_cells_of_ne _ _ different
  have elsewhere : ∀ old, find bare.id = some old → old ≠ fresh := by
    rintro old taken rfl
    exact Nat.lt_irrefl _ (tracks.known _ _ taken).1
  rw [openTubeWith, straight_bind_of_done (tubeSetState_ok (created_cells mgr bare) _),
    created_setTube] at returned
  obtain ⟨added, middle, adding, onward⟩ := returned_bind returned
  obtain ⟨placed, table, rfl, rfl, registers, displaced, live, placing⟩ :=
    @returned_tubeManagerAdd base _ env find fresh opening tracks.registers refused made _ adding
  rw [show opening.id = bare.id from rfl] at registers displaced live onward
  have liveOld : ∀ old, find bare.id = some old → ∃ cell, mgr.tubes.cells old = some cell := by
    intro old taken
    rw [← kept old (elsewhere old taken)]
    exact live old taken
  obtain ⟨closes, leaving, closing, trace, quiet, farewell⟩ := @evict_farewell mgr find tracks env
    bare.id liveOld (base.withTable table) (fun old taken => kept old (elsewhere old taken)) rfl
  let datagram := opening.datagram .spudOpen false false []
  let luck : Luck := ⟨env.granted, placed, fun cmd =>
    if cmd = SpudCommand.spudClose then closes else env.sendmsg datagram⟩
  have fits : luck.Fits env mgr := by
    intro succeeds roomy
    have both : ∀ cmd, (if cmd = SpudCommand.spudClose then closes
        else env.sendmsg datagram) = true := by
      intro cmd
      rw [closing succeeds, succeeds.sendmsg, ite_self]
    exact Luck.mk.injEq .. ▸ ⟨funext succeeds.granted,
      placing (succeeds.granted _) succeeds.called roomy, funext both⟩
  have react : luck.react responds (mgr.held bare.id) .opened =
      if placed then
        if env.granted (.moment .add) then
          ⟨some .opening, luck.farewell (mgr.held bare.id) ++ luck.sent .spudOpen, [.add]⟩
        else ⟨none, luck.farewell (mgr.held bare.id), []⟩
      else ⟨mgr.held bare.id, [], []⟩ := by
    rw [Luck.react, show luck.granted .tube = true from granted, Bool.true_and]
  refine ⟨luck, fits, ?_⟩
  rw [react]
  cases placed with
  | false =>
    rw [Bool.false_and, if_neg Bool.false_ne_true, if_neg Bool.false_ne_true, noted_nil,
      displaced rfl, evict_none] at onward
    rw [straight_bind_of_done (tubeDestroy_ok (show (base.withTable table).tubes.cells fresh = _
      from made))] at onward
    obtain ⟨_, rfl⟩ := returned_pure onward
    rw [if_neg Bool.false_ne_true]
    have beside := @Tracks.beside mgr { base.withTable table with
      tubes := base.tubes.erase fresh
      trace := mgr.trace ++ [.destroyed fresh] } find _ tracks registers (Nat.le_succ _)
      (fun other old => (Memory.erase_cells_of_ne _ (Nat.ne_of_lt old)).trans
        (kept other (Nat.ne_of_lt old))) rfl rfl rfl
    exact ⟨beside.1, beside.2 bare.id⟩
  | true =>
    let entered := (base.withTable table).evict env (find bare.id)
    have unused : find bare.id ≠ some fresh := fun taken => elsewhere fresh taken rfl
    have enters : Entered mgr find luck opening leaving entered := by
      refine ⟨?_, evict_fresh .., (evict_cells_of_ne unused).trans made, ?_, ?_, trace, quiet,
        farewell luck rfl rfl⟩
      · rw [show entered.table = table from evict_table ..]
        exact registers
      · exact fun other different apart => (evict_cells_of_ne apart).trans (kept other different)
      · intro other taken
        rw [show entered = (base.withTable table).evict env (some other) by rw [← taken]]
        exact evict_cells_self ..
    rw [if_pos rfl]
    rw [Bool.true_and, if_pos rfl] at onward
    cases triggered : env.granted (.moment .add) with
    | false =>
      have silent : env.triggers (.add fresh) = [] := if_neg (by simp [Notice.event, triggered])
      rw [triggered, if_neg Bool.false_ne_true, silent, noted_nil,
        straight_bind_of_done (tubeDestroy_ok enters.found)] at onward
      obtain ⟨_, rfl⟩ := returned_pure onward
      rw [if_neg Bool.false_ne_true]
      exact enters.unannounced tracks
    | true =>
      have loud : env.triggers (.add fresh) = [.triggered (.add fresh)] := if_pos triggered
      rw [triggered, if_pos rfl, loud, straight_bind_of_done (tubeSend_ok
        (show (entered.noted [.triggered (.add fresh)]).tubes.cells fresh = some opening
          from enters.found) _ _ _ _), noted_noted] at onward
      cases answered : env.answer datagram with
      | false =>
        rw [answered, if_neg Bool.false_ne_true] at onward
        obtain ⟨_, removed, removing, onward⟩ := returned_bind onward
        obtain ⟨_, _, destroyed, _⟩ := returned_bind onward
        -- the removal has destroyed the tube already
        obtain ⟨cell, foundAgain⟩ := returned_tubeDestroy destroyed
        obtain ⟨_, rfl, _⟩ := @returned_tubeManagerRemove (entered.noted ([.triggered (.add fresh)]
          ++ env.effects datagram)) removed env _ fresh opening enters.registers enters.found
          (Function.update_self ..) _ removing
        rw [evict_cells_self] at foundAgain
        cases foundAgain
      | true =>
        rw [answered, if_pos rfl] at onward
        obtain ⟨_, rfl⟩ := returned_pure onward
        rw [if_pos rfl]
        exact enters.announced tracks rfl rfl

/-- `tube_manager_open_tube` opens a tube under the identifier it has drawn, or nothing
comes of it. -/
theorem tubeManagerOpenTube_reacts (tracks : mgr.Tracks find)
    (refused : ∀ size, 2 ^ 30 ≤ size → env.calloc size = false) {dest : SockAddr}
    {answer : Option Nat}
    (returned : (tubeManagerOpenTube env dest).straight mgr = .ok (answer, after))
    (responds : Bool) :
    after.Tracked ∧ (∀ id, mgr.Reacts after id ⟨mgr.held id, [], []⟩) ∨
      ∃ id, env.randomId = some id ∧ ∃ luck : Luck, luck.Fits env mgr ∧ after.Tracked ∧
        mgr.Reacts after id (luck.react responds (mgr.held id) .opened) := by
  unfold tubeManagerOpenTube at returned
  by_cases granted : env.granted .tube = true
  · rw [straight_bind_of_done (tubeCreate_granted granted)] at returned
    let fresh := mgr.tubes.fresh
    have dropped : ∀ {last : TubeManager} {answer : Option Nat},
        (tubeDestroy fresh >>= fun _ => pure none : Tubing (Option Nat)).straight
          (mgr.created Tube.created) = .ok (answer, last) →
        last.Tracked ∧ ∀ id, mgr.Reacts last id ⟨mgr.held id, [], []⟩ := by
      intro last answer ended
      rw [straight_bind_of_done (tubeDestroy_ok (created_cells mgr _))] at ended
      cases ended
      refine tracks.beside tracks.registers (Nat.le_succ _) ?_ rfl rfl rfl
      intro other old
      refine (Memory.erase_cells_of_ne _ (Nat.ne_of_lt old)).trans ?_
      exact Memory.alloc_cells_of_ne _ _ (Nat.ne_of_lt old)
    have opened : ∀ (socket : Int) (peer : SockAddr) (id : SpudTubeId), peer.isInternet = true →
        (tubeSetInfo fresh socket (some peer) (some id) >>= fun _ =>
          openTubeWith env fresh).straight (mgr.created Tube.created) = .ok (answer, after) →
        ∃ luck : Luck, luck.Fits env mgr ∧ after.Tracked ∧
          mgr.Reacts after id (luck.react responds (mgr.held id) .opened) := by
      intro socket peer id internet ended
      rw [straight_bind_of_done (tubeSetInfo_created _ socket internet id)] at ended
      exact openTubeWith_reacts tracks refused granted ended responds
    cases drawn : env.randomId with
    | none =>
      simp only [drawn] at returned
      exact .inl (dropped returned)
    | some id =>
      simp only [drawn] at returned
      rw [straight_bind_of_done rfl] at returned
      cases dest with
      | inet port address => exact .inr ⟨id, rfl, opened _ _ id rfl returned⟩
      | inet6 port address => exact .inr ⟨id, rfl, opened _ _ id rfl returned⟩
      | other family => exact .inl (dropped returned)
  · have none : (tubeCreate env).run mgr = .done none mgr := by
      rw [tubeCreate, if_neg granted]
      rfl
    rw [straight_bind_of_done none] at returned
    obtain ⟨_, rfl⟩ := returned_pure returned
    exact .inl (tracks.beside tracks.registers (Nat.le_refl _) (fun _ _ => rfl)
      (List.append_nil _).symm rfl rfl)

end Calls

end SpudLib
