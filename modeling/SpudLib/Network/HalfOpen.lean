import SpudLib.Network.Conversation
import SpudLib.Network.Handshake

/-!
# Channels that keep the order

Each datagram arrives once and in order.  Unless a tube is removed while it is
opening, no tube runs on one side only once everything has arrived: the removal
of an opening tube is not announced to the peer, and neither is anything else.
-/

namespace SpudLib

open TubeManager

/-- Two parties, the datagrams that each has sent and the other has not received, and the
identifiers drawn so far. -/
structure Wired where
  pair : Pair
  flight : Party → List Datagram
  drawn : List SpudTubeId

namespace Wired

def coming (wired : Wired) (party : Party) : Act → List Datagram
  | .receive _ _ _ => (wired.flight party.peer).tail
  | _ => wired.flight party.peer

def drawing : Act → List SpudTubeId
  | .openTube env _ => env.randomId.toList
  | _ => []

def perform (library : CborLibrary) (wired : Wired) (move : Party × Act) : Exec Wired := do
  let pair ← wired.pair.perform library move
  let sent := (wired.pair.mgr move.1).posted (pair.mgr move.1)
  pure ⟨pair,
    Function.update (Function.update wired.flight move.1.peer (wired.coming move.1 move.2))
      move.1 (wired.flight move.1 ++ sent),
    wired.drawn ++ drawing move.2⟩

/-- Every allocation and send succeeds, an identifier is drawn once, and what is received is
what was sent first. -/
structure MayMove (wired : Wired) (move : Party × Act) : Prop where
  moves : wired.pair.MayMove move
  succeeds : move.2.env.Succeeds
  roomy : (wired.pair.mgr move.1).table.Roomy
  controls : ∀ env t bytes, move.2 ≠ .data env t bytes
  fresh : ∀ env dest id, move.2 = .openTube env dest → env.randomId = some id → id ∉ wired.drawn
  first : ∀ env hasErr received, move.2 = .receive env hasErr received →
    ∃ datagram rest, wired.flight move.1.peer = datagram :: rest ∧ received.bytes = datagram.bytes

def system (library : CborLibrary) : System Wired (Party × Act) where
  Enabled := MayMove
  step := perform library

def SparesOpening (wired : Wired) (move : Party × Act) : Prop :=
  ∀ env t, move.2 = .remove env t →
    ((wired.pair.mgr move.1).tubes.cells t).map Tube.state ≠ some .opening

def IsNew (wired : Wired) : Prop :=
  wired.pair.IsNew ∧ (∀ party, wired.flight party = []) ∧ wired.drawn = []

def commandFor (id : SpudTubeId) (datagram : Datagram) : Option SpudCommand :=
  let header := SpudHeader.ofBytes datagram.bytes
  if header.tubeId = id then some (SpudCommand.ofFlags header.flags) else none

def conversation (wired : Wired) (id : SpudTubeId) : Conversation where
  held party := (wired.pair.mgr party).held id
  flight party := (wired.flight party).filterMap (commandFor id)
  drawn := decide (id ∈ wired.drawn)

section Commands

variable {id other : SpudTubeId} {cmd : SpudCommand} {datagram : Datagram}

theorem commandFor_of_carries (carries : Carries id cmd datagram.bytes) :
    commandFor id datagram = some cmd := by
  obtain ⟨rest, bytes, _⟩ := carries
  rw [commandFor, bytes, SpudHeader.ofBytes_bytes]
  exact (if_pos rfl).trans (congrArg some (SpudCommand.ofFlags_value cmd false false))

theorem commandFor_of_ne (carries : Carries id cmd datagram.bytes) (different : other ≠ id) :
    commandFor other datagram = none := by
  obtain ⟨rest, bytes, _⟩ := carries
  rw [commandFor, bytes, SpudHeader.ofBytes_bytes]
  exact if_neg fun same => different same.symm

theorem commands_of_posted {datagrams : List Datagram} {sent : List SpudCommand}
    (posted : List.Forall₂ (fun (datagram : Datagram) cmd => Carries id cmd datagram.bytes)
      datagrams sent) :
    datagrams.filterMap (commandFor id) = sent ∧
      ∀ other, other ≠ id → datagrams.filterMap (commandFor other) = [] := by
  induction posted with
  | nil => exact ⟨rfl, fun _ _ => rfl⟩
  | cons carries _ inductionHypothesis =>
    obtain ⟨own, others⟩ := inductionHypothesis
    constructor
    · rw [List.filterMap_cons_some (commandFor_of_carries carries), own]
    · intro other different
      rw [List.filterMap_cons_none (commandFor_of_ne carries different)]
      exact others other different

theorem accepted_of_carries (library : CborLibrary) (carries : Carries id cmd datagram.bytes)
    (control : cmd ≠ .spudData) {received : Reception}
    (bytes : received.bytes = datagram.bytes) :
    ∃ msg, spudParse library received.buf = .ok msg := by
  obtain ⟨rest, same, bare⟩ := carries
  have buf : received.buf = (bareHeader id cmd).buf := by
    rw [Reception.buf, bytes, same, bare control, List.append_nil]
    rfl
  rw [buf]
  exact ⟨_, bareHeader_parsed library id cmd⟩

end Commands

section Live

variable {library : CborLibrary} {mgr after : TubeManager} {env : Environment} {id : SpudTubeId}
  {t : Nat}

theorem held_of_lookup (stored : mgr.lookup id = .ok (some t)) :
    mgr.held id = (mgr.tubes.cells t).map Tube.state := by
  rw [TubeManager.held, stored]

theorem held_of_live (stored : mgr.lookup id = .ok (some t)) (live : mgr.tubes.cells t ≠ none) :
    mgr.held id ≠ none := by
  rw [held_of_lookup stored]
  exact fun missing => live (Option.map_eq_none_iff.mp missing)

theorem live_of_close (acted : mgr.act library (.close env t) = .ok after) :
    mgr.tubes.cells t ≠ none := by
  obtain ⟨_, closed, _⟩ := Exec.bind_eq_ok.mp acted
  obtain ⟨_, _, set, _⟩ := returned_bind closed
  obtain ⟨cell, found⟩ := returned_modifyTube set
  rw [found]
  nofun

theorem live_of_remove (acted : mgr.act library (.remove env t) = .ok after) :
    mgr.tubes.cells t ≠ none := by
  obtain ⟨_, removed, _⟩ := Exec.bind_eq_ok.mp acted
  obtain ⟨_, _, triggered, unregistered⟩ := returned_bind removed
  rw [lsEventTrigger_straight] at triggered
  cases triggered
  obtain ⟨cell, _, read, _⟩ := returned_bind unregistered
  have found : mgr.tubes.cells t = some cell := (returned_readTube read).1
  rw [found]
  nofun

end Live

section Runs

variable {library : CborLibrary} {wired next start last : Wired} {party : Party} {call : Act}
  {moves : List (Party × Act)} {id : SpudTubeId}

structure Balanced (wired : Wired) : Prop where
  tracked : wired.pair.Tracked
  carried : ∀ party, ∀ datagram ∈ wired.flight party,
    ∃ id cmd, Carries id cmd datagram.bytes ∧ cmd ≠ .spudData
  sound : ∀ id, (wired.conversation id).Sound

/-- The parts of a step. -/
theorem perform_eq (performed : wired.perform library (party, call) = .ok next) :
    (wired.pair.mgr party).act library call = .ok (next.pair.mgr party) ∧
      (next.pair.mgr party.peer = wired.pair.mgr party.peer) ∧
      next.flight party = wired.flight party ++
        (wired.pair.mgr party).posted (next.pair.mgr party) ∧
      next.flight party.peer = wired.coming party call ∧
      next.drawn = wired.drawn ++ drawing call := by
  obtain ⟨pair, moved, same⟩ := Exec.bind_eq_ok.mp performed
  cases same
  obtain ⟨acted, others⟩ := Pair.perform_eq moved
  have apart : party.peer ≠ party := by
    cases party <;> nofun
  refine ⟨acted, others _ apart, Function.update_self .., ?_, rfl⟩
  exact (Function.update_of_ne apart ..).trans (Function.update_self ..)

/-- A move is a reaction in which everything succeeds, or nothing comes of a call. -/
theorem Balanced.acts (balanced : wired.Balanced) (may : wired.MayMove (party, call))
    {after : TubeManager} (acted : (wired.pair.mgr party).act library call = .ok after) :
    (wired.pair.mgr party).Rests after ∧ wired.coming party call = wired.flight party.peer ∨
      ∃ id cue, (wired.pair.mgr party).Cues library id call cue ∧ after.Tracked ∧
        (wired.pair.mgr party).Reacts after id
          (Luck.full.react (wired.pair.mgr party).tubeManagerIsResponder
            ((wired.pair.mgr party).held id) cue) := by
  have others : (∀ env hasErr received, call ≠ .receive env hasErr received) →
      (wired.pair.mgr party).Rests after ∧ wired.coming party call = wired.flight party.peer ∨
        ∃ id cue, (wired.pair.mgr party).Cues library id call cue ∧ after.Tracked ∧
          (wired.pair.mgr party).Reacts after id
            (Luck.full.react (wired.pair.mgr party).tubeManagerIsResponder
              ((wired.pair.mgr party).held id) cue) := by
    intro calls
    rcases (balanced.tracked party).act may.moves.1 acted with
      rests | ⟨id, cue, luck, cues, fits, tracked, reacts⟩
    · refine .inl ⟨rests, ?_⟩
      cases call with
      | receive env hasErr received => exact absurd rfl (calls env hasErr received)
      | openTube env dest => rfl
      | data env t bytes => rfl
      | close env t => rfl
      | remove env t => rfl
    · have spoken : cue ≠ .said := by
        rintro rfl
        cases cues.cued with
        | said => exact may.controls _ _ _ rfl
      obtain rfl := fits spoken may.succeeds may.roomy
      exact .inr ⟨id, cue, cues, tracked, reacts⟩
  cases call with
  | receive env hasErr received =>
    obtain ⟨find, tracks⟩ := balanced.tracked party
    obtain ⟨datagram, rest, first, bytes⟩ := may.first env hasErr received rfl
    obtain ⟨_, _, carries, control⟩ := balanced.carried party.peer datagram
      (first ▸ List.mem_cons_self)
    obtain ⟨msg, parsed⟩ := accepted_of_carries library carries control bytes
    obtain ⟨⟨verdict, last⟩, returned, same⟩ := Exec.bind_eq_ok.mp acted
    cases same
    have reacts := tubeManagerLoopBody_reacts tracks may.moves.1 returned
    rw [parsed] at reacts
    obtain ⟨luck, fits, _, tracked, reacts⟩ := reacts
    obtain rfl := fits may.succeeds may.roomy
    exact .inr ⟨msg.header.tubeId, .heard (SpudCommand.ofFlags msg.header.flags),
      ⟨msg, parsed, rfl, rfl⟩, tracked, reacts⟩
  | openTube env dest => exact others fun _ _ _ => nofun
  | data env t bytes => exact others fun _ _ _ => nofun
  | close env t => exact others fun _ _ _ => nofun
  | remove env t => exact others fun _ _ _ => nofun

/-- What comes in is about the identifier of the cue. -/
theorem coming_cases (may : wired.MayMove (party, call)) (balanced : wired.Balanced) {cue : Cue}
    (cues : (wired.pair.mgr party).Cues library id call cue) :
    wired.coming party call = wired.flight party.peer ∧ (∀ cmd, cue ≠ .heard cmd) ∨
      ∃ datagram rest cmd, wired.flight party.peer = datagram :: rest ∧
        wired.coming party call = rest ∧ cue = .heard cmd ∧ Carries id cmd datagram.bytes := by
  cases cues.cued with
  | heard parsed own heard =>
    obtain ⟨datagram, rest, first, bytes⟩ := may.first _ _ _ rfl
    obtain ⟨name, cmd, carries, _⟩ := balanced.carried party.peer datagram
      (first ▸ List.mem_cons_self)
    rw [← bytes] at carries
    obtain ⟨same, command⟩ := carries.parsed parsed
    refine .inr ⟨datagram, rest, _, first, ?_, rfl, ?_⟩
    · rw [coming, first]
      rfl
    · rw [← bytes, ← own, ← heard, same, command]
      exact carries
  | opened => exact .inl ⟨rfl, fun _ => nofun⟩
  | said => exact absurd rfl (may.controls _ _ _)
  | closed => exact .inl ⟨rfl, fun _ => nofun⟩
  | removed => exact .inl ⟨rfl, fun _ => nofun⟩

theorem drawing_nil {mgr : TubeManager} {cue : Cue} (cues : mgr.Cues library id call cue)
    (unopened : cue ≠ .opened) : drawing call = [] := by
  cases cues.cued with
  | opened => exact absurd rfl unopened
  | heard => rfl
  | said => rfl
  | closed => rfl
  | removed => rfl

theorem mem_drawing {mgr : TubeManager} (cues : mgr.Cues library id call .opened) :
    id ∈ drawing call := by
  cases cues.cued with
  | opened drawn => exact Option.mem_toList.mpr drawn

theorem may_of_cues (may : wired.MayMove (party, call)) (spares : wired.SparesOpening (party, call))
    (balanced : wired.Balanced) {after : TubeManager}
    (acted : (wired.pair.mgr party).act library call = .ok after) {cue : Cue}
    (cues : (wired.pair.mgr party).Cues library id call cue) :
    (wired.conversation id).May party cue := by
  cases cue with
  | heard cmd =>
    rcases coming_cases may balanced cues with
      ⟨_, calls⟩ | ⟨datagram, rest, _, first, _, same, carries⟩
    · exact absurd rfl (calls cmd)
    · cases same
      have known : (wired.conversation id).flight party.peer =
          (datagram :: rest).filterMap (commandFor id) :=
        congrArg (List.filterMap (commandFor id)) first
      exact ⟨_, known.trans (List.filterMap_cons_some (commandFor_of_carries carries))⟩
  | opened =>
    cases cues.cued with
    | opened drawn =>
      obtain rfl : party = .initiator := may.moves.2 _ _ rfl
      exact ⟨rfl, decide_eq_false (may.fresh _ _ id rfl drawn)⟩
  | said =>
    cases cues.cued with
    | said => exact absurd rfl (may.controls _ _ _)
  | closed =>
    cases cues.cued with
    | closed stored => exact held_of_live stored (live_of_close acted)
  | removed =>
    cases cues.cued with
    | removed stored =>
      refine ⟨held_of_live stored (live_of_remove acted), ?_⟩
      intro opening
      exact spares _ _ rfl ((held_of_lookup stored).symm.trans opening)

theorem conversation_eq (held : ∀ other, (next.pair.mgr other).held id =
      (wired.pair.mgr other).held id)
    (flight : ∀ other, (next.flight other).filterMap (commandFor id) =
      (wired.flight other).filterMap (commandFor id))
    (drawn : ∀ id ∈ wired.drawn, id ∈ next.drawn) (sound : (wired.conversation id).Sound) :
    (next.conversation id).Sound := by
  refine sound.drawn (funext held) (funext flight) ?_
  intro known
  exact decide_eq_true (drawn id (of_decide_eq_true known))

theorem sends_controls {held : Option TubeState} {cue : Cue} {reply : Reply}
    (reaction : Reaction held cue reply) (spoken : cue ≠ .said) : .spudData ∉ reply.sent := by
  cases reaction with
  | accepted few => exact fun member => absurd (few member) (by decide)
  | opened _ few => exact fun member => absurd (few member) (by decide)
  | dropped _ few => exact fun member => absurd (few member) (by decide)
  | said => exact absurd rfl spoken
  | closed _ few => exact fun member => absurd (few member) (by decide)
  | removed _ few => exact fun member => absurd (few member) (by decide)
  | idle => nofun
  | stunted => nofun
  | told => nofun
  | acked => nofun
  | hungUp => nofun
  | shut => nofun

/-- A reaction is a turn of the conversation about its identifier. -/
theorem turn_of_reacts (balanced : wired.Balanced) (may : wired.MayMove (party, call))
    (stepped : wired.perform library (party, call) = .ok next) {cue : Cue} {reply : Reply}
    (cues : (wired.pair.mgr party).Cues library id call cue)
    (reacts : (wired.pair.mgr party).Reacts (next.pair.mgr party) id reply) :
    (wired.conversation id).Turn party cue reply (next.conversation id) ∧
      (cue = .opened → (next.conversation id).drawn = true) := by
  obtain ⟨_, absent, sent, coming, drawn⟩ := perform_eq stepped
  have commands : ((wired.coming party call).filterMap (commandFor id)) =
      (wired.conversation id).coming party cue := by
    rcases coming_cases may balanced cues with
      ⟨same, calls⟩ | ⟨datagram, rest, cmd, first, same, rfl, carries⟩
    · rw [same]
      cases cue with
      | heard cmd => exact absurd rfl (calls cmd)
      | opened => rfl
      | said => rfl
      | closed => rfl
      | removed => rfl
    · rw [same]
      have known : (wired.conversation id).flight party.peer =
          cmd :: rest.filterMap (commandFor id) :=
        (congrArg (List.filterMap (commandFor id)) first).trans
          (List.filterMap_cons_some (commandFor_of_carries carries))
      exact (congrArg List.tail known).symm
  refine ⟨⟨reacts.own, ?_, ?_, ?_, ?_⟩, ?_⟩
  · exact congrArg (fun mgr : TubeManager => mgr.held id) absent
  · refine (congrArg (List.filterMap (commandFor id)) sent).trans ?_
    rw [List.filterMap_append, (commands_of_posted reacts.posted).1]
    rfl
  · exact (congrArg (List.filterMap (commandFor id)) coming).trans commands
  · intro unopened
    have quiet : drawing call = [] := drawing_nil cues unopened
    have same : next.drawn = wired.drawn := by
      rw [drawn, quiet, List.append_nil]
    exact congrArg (fun drawn => decide (id ∈ drawn)) same
  · rintro rfl
    refine decide_eq_true ?_
    rw [drawn]
    exact List.mem_append_right _ (mem_drawing cues)

theorem Balanced.step (balanced : wired.Balanced)
    (enabled : ((system library).restrict SparesOpening).Enabled wired (party, call))
    (stepped : (system library).step wired (party, call) = .ok next) : next.Balanced := by
  obtain ⟨may, spares⟩ := enabled
  obtain ⟨acted, absent, sent, coming, drawn⟩ := perform_eq stepped
  have grows : ∀ id ∈ wired.drawn, id ∈ next.drawn := by
    rw [drawn]
    exact fun id member => List.mem_append_left _ member
  have either : ∀ other, other = party ∨ other = party.peer := by
    cases party <;> intro other <;> cases other <;> simp [Party.peer]
  have tracks : (next.pair.mgr party).Tracked → next.pair.Tracked := by
    intro mine other
    rcases either other with rfl | rfl
    · exact mine
    · rw [absent]
      exact balanced.tracked _
  rcases balanced.acts may acted with
    ⟨⟨tracked, still⟩, waiting⟩ | ⟨name, cue, cues, tracked, reacts⟩
  · have flight : ∀ other, next.flight other = wired.flight other := by
      intro other
      rcases either other with rfl | rfl
      · rw [sent, List.forall₂_nil_right_iff.mp (still ⟨fun _ => 0⟩).posted, List.append_nil]
      · exact coming.trans waiting
    refine ⟨tracks tracked, ?_, ?_⟩
    · intro other
      rw [flight]
      exact balanced.carried other
    · intro id
      refine conversation_eq ?_ (fun other => by rw [flight]) grows (balanced.sound id)
      intro other
      rcases either other with rfl | rfl
      · exact (still id).own
      · rw [absent]
  · refine ⟨tracks tracked, ?_, ?_⟩
    · have fewer : wired.coming party call ⊆ wired.flight party.peer := by
        rcases coming_cases may balanced cues with ⟨same, _⟩ | ⟨_, rest, _, first, same, _⟩
        · rw [same]
          exact List.Subset.refl _
        · rw [same, first]
          exact List.subset_cons_self _ _
      intro other datagram member
      rcases either other with rfl | rfl
      · rw [sent] at member
        rcases List.mem_append.mp member with old | new
        · exact balanced.carried _ datagram old
        · obtain ⟨cmd, inside, carries⟩ := reacts.carries new
          refine ⟨name, cmd, carries, ?_⟩
          rintro rfl
          refine sends_controls (Luck.reaction _ _ _ _) ?_ inside
          rintro rfl
          exact may_of_cues may spares balanced acted cues
      · rw [coming] at member
        exact balanced.carried _ datagram (fewer member)
    · intro id
      by_cases here : id = name
      · subst here
        obtain ⟨turn, opened⟩ := turn_of_reacts balanced may stepped cues reacts
        exact (balanced.sound id).turn (may_of_cues may spares balanced acted cues) turn opened
      · refine conversation_eq ?_ ?_ grows (balanced.sound id)
        · intro side
          rcases either side with rfl | rfl
          · exact reacts.others id here
          · rw [absent]
        · intro side
          rcases either side with rfl | rfl
          · rw [sent, List.filterMap_append, (commands_of_posted reacts.posted).2 id here,
              List.append_nil]
          · rw [coming]
            rcases coming_cases may balanced cues with
              ⟨same, _⟩ | ⟨datagram, rest, _, first, same, _, carries⟩
            · rw [same]
            · rw [same, first, List.filterMap_cons_none (commandFor_of_ne carries here)]

theorem IsNew.balanced (new : start.IsNew) : start.Balanced := by
  obtain ⟨pair, nothing, undrawn⟩ := new
  refine ⟨pair.tracked, ?_, ?_⟩
  · intro party datagram member
    rw [nothing] at member
    cases member
  · intro id
    have held : ∀ party, (start.conversation id).held party = none :=
      fun party => (pair party).held id
    have flight : ∀ party, (start.conversation id).flight party = [] :=
      fun party => congrArg (List.filterMap (commandFor id)) (nothing party)
    constructor
    · exact fun _ party => ⟨held party, flight party⟩
    · rw [held, flight]
      exact ⟨nofun, nofun⟩
    · rw [flight]
      nofun
    · rw [held]
      nofun
    · rw [held]
      nofun
    · rw [held]
      nofun

/-- As long as no opening tube is removed, a tube that runs on one side runs on the other
whenever nothing is on its way. -/
theorem run_balances (library : CborLibrary) (start last : Wired) (moves : List (Party × Act))
    (new : start.IsNew) (run : ((system library).restrict SparesOpening).Run start moves last)
    (quiet : ∀ party, last.flight party = []) (id : SpudTubeId) :
    (last.pair.mgr .initiator).held id = some .running ↔
      (last.pair.mgr .responder).held id = some .running := by
  have balanced := run.preserves Balanced (by
    rintro wired ⟨party, call⟩ next balanced enabled stepped
    exact balanced.step enabled stepped) new.balanced
  refine (balanced.sound id).agree ?_
  intro party
  exact congrArg (List.filterMap (commandFor id)) (quiet party)

end Runs

def strangers : Wired := ⟨Pair.strangers, fun _ => [], []⟩

theorem strangers_isNew : strangers.IsNew := ⟨Pair.strangers_isNew, fun _ => rfl, rfl⟩

def asking : Party × Act := (.initiator, .openTube obliging (.inet 1402 0x7f000001))

theorem strangers_ask : strangers.MayMove asking where
  moves := ⟨obliging_refused, fun _ _ _ => rfl⟩
  succeeds := obliging_succeeds
  roomy := by decide
  controls _ _ _ := nofun
  fresh _ _ _ _ _ := nofun
  first _ _ _ := nofun

def hearing (party : Party) (cmd : SpudCommand) : Party × Act :=
  (party, .receive obliging true (bareHeader ⟨fun _ => 7⟩ cmd))

def waiting (wired : Wired) (party : Party) : List (List UInt8) :=
  (wired.flight party).map Datagram.bytes

theorem mayHear {wired : Wired} {party : Party} {cmd : SpudCommand}
    (roomy : (wired.pair.mgr party).table.Roomy)
    (first : wired.waiting party.peer = [(bareHeader ⟨fun _ => 7⟩ cmd).bytes]) :
    wired.MayMove (hearing party cmd) where
  moves := ⟨obliging_refused, fun _ _ => nofun⟩
  succeeds := obliging_succeeds
  roomy := roomy
  controls _ _ _ := nofun
  fresh _ _ _ := nofun
  first := by
    rintro _ _ _ ⟨⟩
    obtain ⟨datagram, rest, same, bytes, _⟩ := List.map_eq_cons_iff.mp first
    exact ⟨datagram, rest, same, bytes.symm⟩

structure Ending where
  asked : List (List UInt8)
  answered : List (List UInt8)
  initiator : Option TubeState
  responder : Option TubeState
  deriving DecidableEq

def ending (wired : Wired) : Ending where
  asked := wired.waiting .initiator
  answered := wired.waiting .responder
  initiator := (wired.pair.mgr .initiator).held ⟨fun _ => 7⟩
  responder := (wired.pair.mgr .responder).held ⟨fun _ => 7⟩

structure Arrival (Seen : Type) where
  roomy : Bool
  first : List (List UInt8)
  after : Option Seen
  deriving DecidableEq

def arrival {Seen : Type} (party : Party) (cmd : SpudCommand) (view : Wired → Seen)
    (wired : Wired) : Arrival Seen where
  roomy := decide (wired.pair.mgr party).table.Roomy
  first := wired.waiting party.peer
  after := (wired.perform minimalCbor (hearing party cmd)).toOption.map view

theorem exists_arrival {Seen : Type} {wired : Wired} {party : Party} {cmd : SpudCommand}
    {view : Wired → Seen} {seen : Seen}
    (arrives : wired.arrival party cmd view =
      ⟨true, [(bareHeader ⟨fun _ => 7⟩ cmd).bytes], some seen⟩) :
    ∃ next, wired.MayMove (hearing party cmd) ∧
      wired.perform minimalCbor (hearing party cmd) = .ok next ∧ view next = seen := by
  obtain ⟨roomy, first, after⟩ := Arrival.mk.inj arrives
  obtain ⟨next, performed, same⟩ := Exec.exists_of_map view after
  exact ⟨next, mayHear (of_decide_eq_true roomy) first, performed, same⟩

theorem quiet_of_waiting {wired : Wired} (initiator : wired.waiting .initiator = [])
    (responder : wired.waiting .responder = []) : ∀ party, wired.flight party = []
  | .initiator => List.map_eq_nil_iff.mp initiator
  | .responder => List.map_eq_nil_iff.mp responder

theorem run_balances_acknowledged : ∃ last : Wired, (∀ party, last.flight party = []) ∧
    (last.pair.mgr .initiator).held ⟨fun _ => 7⟩ = some .running ∧
    ((last.pair.mgr .initiator).held ⟨fun _ => 7⟩ = some .running ↔
      (last.pair.mgr .responder).held ⟨fun _ => 7⟩ = some .running) := by
  obtain ⟨asked, asks, seen⟩ := Exec.exists_of_map
    (arrival .responder .spudOpen (arrival .initiator .spudAck ending))
    (show (strangers.perform minimalCbor asking).toOption.map _ =
      some ⟨true, [(bareHeader ⟨fun _ => 7⟩ .spudOpen).bytes],
        some ⟨true, [(bareHeader ⟨fun _ => 7⟩ .spudAck).bytes],
          some ⟨[], [], some .running, some .running⟩⟩⟩ by decide +kernel)
  obtain ⟨accepted, mayAccept, accepts, seen⟩ := exists_arrival seen
  obtain ⟨last, mayAcknowledge, acknowledges, seen⟩ := exists_arrival seen
  obtain ⟨initiator, responder, running, _⟩ := Ending.mk.inj seen
  have quiet := quiet_of_waiting initiator responder
  refine ⟨last, quiet, running, ?_⟩
  refine run_balances minimalCbor strangers last
    [asking, hearing .responder .spudOpen, hearing .initiator .spudAck] strangers_isNew ?_ quiet _
  refine .cons ⟨strangers_ask, fun _ _ => nofun⟩ asks ?_
  refine .cons ⟨mayAccept, fun _ _ => nofun⟩ accepts ?_
  exact .cons ⟨mayAcknowledge, fun _ _ => nofun⟩ acknowledges (.nil last)

/-- The initiator removes the tube it is opening: the tube of the responder runs for ever. -/
theorem removal_leaves_half_open : ∃ (last : Wired) (moves : List (Party × Act)),
    strangers.IsNew ∧ (system minimalCbor).Run strangers moves last ∧
      (∀ party, last.flight party = []) ∧
      (last.pair.mgr .responder).held ⟨fun _ => 7⟩ = some .running ∧
      (last.pair.mgr .initiator).held ⟨fun _ => 7⟩ ≠ some .running := by
  let leaving : Party × Act := (.initiator, .remove obliging 0)
  obtain ⟨asked, asks, seen⟩ := Exec.exists_of_map (fun asked : Wired =>
      (decide (asked.pair.mgr .initiator).table.Roomy,
        ((asked.pair.mgr .initiator).lookup ⟨fun _ => 7⟩).toOption.map id,
        (asked.perform minimalCbor leaving).toOption.map
          (arrival .responder .spudOpen (arrival .initiator .spudAck ending))))
    (show (strangers.perform minimalCbor asking).toOption.map _ =
      some (true, some (some 0), some ⟨true, [(bareHeader ⟨fun _ => 7⟩ .spudOpen).bytes],
        some ⟨true, [(bareHeader ⟨fun _ => 7⟩ .spudAck).bytes],
          some ⟨[], [], none, some .running⟩⟩⟩) by decide +kernel)
  obtain ⟨roomy, seen⟩ := Prod.mk.inj seen
  obtain ⟨stored, seen⟩ := Prod.mk.inj seen
  obtain ⟨found, looked, rfl⟩ := Exec.exists_of_map id stored
  obtain ⟨removed, leaves, seen⟩ := Exec.exists_of_map _ seen
  obtain ⟨accepted, mayAccept, accepts, seen⟩ := exists_arrival seen
  obtain ⟨last, mayAcknowledge, acknowledges, seen⟩ := exists_arrival seen
  obtain ⟨initiator, responder, missing, running⟩ := Ending.mk.inj seen
  have mayLeave : asked.MayMove leaving := {
    moves := ⟨⟨⟨fun _ => 7⟩, looked⟩, fun _ _ => nofun⟩
    succeeds := obliging_succeeds
    roomy := of_decide_eq_true roomy
    controls := fun _ _ _ => nofun
    fresh := fun _ _ _ => nofun
    first := fun _ _ _ => nofun }
  refine ⟨last, [asking, leaving, hearing .responder .spudOpen, hearing .initiator .spudAck],
    strangers_isNew, ?_, quiet_of_waiting initiator responder, running, ?_⟩
  · exact .cons strangers_ask asks (.cons mayLeave leaves
      (.cons mayAccept accepts (.cons mayAcknowledge acknowledges (.nil last))))
  · rw [missing]
    nofun

end Wired

end SpudLib
