import SpudLib.Network.Parties

/-!
# The handshake

The network between two parties may lose, duplicate, delay and reorder what they
send, but it makes nothing up.  A tube of the initiator runs only when the
responder has made one for an `OPEN` and acknowledged it, and the responder hands
over data only for a tube it has made for an `OPEN`.
-/

namespace SpudLib

open TubeManager

namespace Pair

def Genuine (pair : Pair) (party : Party) (received : Reception) : Prop :=
  ∃ datagram ∈ sendings (pair.mgr party.peer).trace, received.bytes = datagram.bytes

/-- Two parties and a network that delivers what was sent, at any time and any number
of times. -/
def lossy (library : CborLibrary) : System Pair (Party × Act) where
  Enabled pair move := pair.MayMove move ∧ ∀ env hasErr received,
    move.2 = .receive env hasErr received → pair.Genuine move.1 received
  step := perform library

/-- The responder processes an `OPEN` for an identifier and makes a tube for it. -/
structure Welcomes (library : CborLibrary) (id : SpudTubeId) (pair : Pair) (move : Party × Act)
    (next : Pair) : Prop where
  responder : move.1 = .responder
  opens : (pair.mgr .responder).Cues library id move.2 (.heard .spudOpen)
  missing : (pair.mgr .responder).held id = none
  running : (next.mgr .responder).held id = some .running
  added : (some id, .add) ∈ (pair.mgr .responder).named (next.mgr .responder)

structure Acknowledges (library : CborLibrary) (id : SpudTubeId) (pair : Pair)
    (move : Party × Act) (next : Pair) : Prop extends Welcomes library id pair move next where
  sent : ∃ ack ∈ (pair.mgr .responder).posted (next.mgr .responder), Carries id .spudAck ack.bytes

section Runs

variable {library : CborLibrary} {start pair next last : Pair} {moves : List (Party × Act)}
  {move : Party × Act}

def Proper (library : CborLibrary) (start : Pair) (moves : List (Party × Act)) (party : Party)
    (id : SpudTubeId) (cmd : SpudCommand) : Prop :=
  match party with
  | .initiator => cmd ≠ .spudAck
  | .responder => cmd ≠ .spudOpen ∧ (cmd = .spudAck →
      (lossy library).Past start moves (Acknowledges library id))

structure Honest (library : CborLibrary) (start : Pair) (moves : List (Party × Act))
    (pair : Pair) : Prop where
  tracked : pair.Tracked
  sent : ∀ party, ∀ datagram ∈ sendings (pair.mgr party).trace, ∃ id cmd,
    Carries id cmd datagram.bytes ∧ Proper library start moves party id cmd
  opened : ∀ id, (pair.mgr .initiator).held id = some .running →
    (lossy library).Past start moves (Acknowledges library id)
  accepted : ∀ id, (pair.mgr .responder).held id = some .running →
    (lossy library).Past start moves (Welcomes library id)

theorem Proper.append {party : Party} {id : SpudTubeId} {cmd : SpudCommand}
    (proper : Proper library start moves party id cmd) (rest : List (Party × Act)) :
    Proper library start (moves ++ rest) party id cmd := by
  cases party with
  | initiator => exact proper
  | responder => exact ⟨proper.1, fun ack => (proper.2 ack).append rest⟩

theorem Honest.heard (honest : Honest library start moves pair)
    (enabled : (lossy library).Enabled pair move) {id : SpudTubeId} {cmd : SpudCommand}
    (cues : (pair.mgr move.1).Cues library id move.2 (.heard cmd)) :
    Proper library start moves move.1.peer id cmd := by
  obtain ⟨party, call⟩ := move
  cases cues.cued with
  | heard parsed own heard =>
    obtain ⟨datagram, member, bytes⟩ := enabled.2 _ _ _ rfl
    obtain ⟨name, cmd, carries, proper⟩ := honest.sent party.peer datagram member
    rw [← bytes] at carries
    obtain ⟨same, command⟩ := carries.parsed parsed
    rw [← own, ← heard, same, command]
    exact proper

theorem opened_initiator (enabled : (lossy library).Enabled pair move) {id : SpudTubeId}
    (cues : (pair.mgr move.1).Cues library id move.2 .opened) : move.1 = .initiator := by
  obtain ⟨party, call⟩ := move
  cases cues.cued with
  | opened => exact enabled.1.2 _ _ rfl

theorem Honest.rest (honest : Honest library start moves pair)
    (tracked : next.Tracked)
    (held : ∀ party id, (next.mgr party).held id = (pair.mgr party).held id)
    (sent : ∀ party, sendings (next.mgr party).trace = sendings (pair.mgr party).trace) :
    Honest library start (moves ++ [move]) next := by
  refine ⟨tracked, ?_, ?_, ?_⟩
  · intro party datagram member
    rw [sent] at member
    obtain ⟨id, cmd, carries, proper⟩ := honest.sent party datagram member
    exact ⟨id, cmd, carries, proper.append _⟩
  · intro id running
    rw [held] at running
    exact (honest.opened id running).append _
  · intro id running
    rw [held] at running
    exact (honest.accepted id running).append _

section Steps

variable {call : Act} {party : Party} {id : SpudTubeId} {cue : Cue} {reply : Reply}

theorem welcomes_of_reacts (cues : (pair.mgr .responder).Cues library id call (.heard .spudOpen))
    (missing : (pair.mgr .responder).held id = none)
    (reacts : (pair.mgr .responder).Reacts (next.mgr .responder) id reply)
    (running : reply.held = some .running) (added : .add ∈ reply.events) :
    Welcomes library id pair (.responder, call) next := by
  refine ⟨rfl, cues, missing, reacts.own.trans running, ?_⟩
  rw [reacts.named]
  exact List.mem_map_of_mem added

/-- What a reaction sends is proper. -/
theorem Honest.sends (honest : Honest library start moves pair)
    (run : (lossy library).Run start moves pair)
    (enabled : (lossy library).Enabled pair (party, call))
    (stepped : (lossy library).step pair (party, call) = .ok next)
    (cues : (pair.mgr party).Cues library id call cue)
    (reaction : Reaction ((pair.mgr party).held id) cue reply)
    (reacts : (pair.mgr party).Reacts (next.mgr party) id reply) {datagram : Datagram}
    (member : datagram ∈ (pair.mgr party).posted (next.mgr party)) :
    ∃ id cmd, Carries id cmd datagram.bytes ∧
      Proper library start (moves ++ [(party, call)]) party id cmd := by
  obtain ⟨cmd, inside, carries⟩ := reacts.carries member
  refine ⟨id, cmd, carries, ?_⟩
  -- a command that either party may send at any time
  have plain : cmd ≠ .spudAck → cmd ≠ .spudOpen →
      Proper library start (moves ++ [(party, call)]) party id cmd := by
    intro noAck noOpen
    cases party with
    | initiator => exact noAck
    | responder => exact ⟨noOpen, fun ack => absurd ack noAck⟩
  generalize earlier : (pair.mgr party).held id = held at reaction
  cases reaction with
  | idle => cases inside
  | stunted => cases inside
  | told => cases inside
  | acked => cases inside
  | hungUp => cases inside
  | shut => cases inside
  | accepted few =>
    obtain rfl := List.mem_singleton.mp (few inside)
    cases party with
    | initiator => exact absurd rfl (honest.heard enabled cues).1
    | responder =>
      refine ⟨nofun, fun _ => ?_⟩
      exact .now run enabled stepped ⟨welcomes_of_reacts cues earlier reacts rfl
        (List.mem_singleton.mpr rfl), datagram, member, carries⟩
  | opened _ few =>
    obtain rfl := opened_initiator enabled cues
    rintro rfl
    exact absurd (few inside) (by decide)
  | dropped _ few =>
    obtain rfl := List.mem_singleton.mp (few inside)
    exact plain nofun nofun
  | said _ few =>
    obtain rfl := List.mem_singleton.mp (few inside)
    exact plain nofun nofun
  | closed _ few =>
    obtain rfl := List.mem_singleton.mp (few inside)
    exact plain nofun nofun
  | removed _ few =>
    obtain rfl := List.mem_singleton.mp (few inside)
    exact plain nofun nofun

theorem Honest.step (honest : Honest library start moves pair)
    (run : (lossy library).Run start moves pair)
    (enabled : (lossy library).Enabled pair (party, call))
    (stepped : (lossy library).step pair (party, call) = .ok next) :
    Honest library start (moves ++ [(party, call)]) next := by
  obtain ⟨acted, others⟩ := perform_eq stepped
  rcases (honest.tracked party).act enabled.1.1 acted with
    ⟨tracked, still⟩ | ⟨id, cue, luck, cues, _, tracked, reacts⟩
  · have trackedNext : next.Tracked := by
      intro other
      by_cases here : other = party
      · exact here ▸ tracked
      · rw [others other here]
        exact honest.tracked other
    refine honest.rest trackedNext ?_ ?_
    · intro other id
      by_cases here : other = party
      · rw [here]
        exact (still id).own
      · rw [others other here]
    · intro other
      by_cases here : other = party
      · rw [here, sendings_trace (still ⟨fun _ => 0⟩).grows,
          List.forall₂_nil_right_iff.mp (still ⟨fun _ => 0⟩).posted, List.append_nil]
      · rw [others other here]
  · have reaction := luck.reaction (pair.mgr party).tubeManagerIsResponder
      ((pair.mgr party).held id) cue
    generalize luck.react (pair.mgr party).tubeManagerIsResponder ((pair.mgr party).held id) cue =
      reply at reaction reacts
    have elsewhere : ∀ {other name}, (next.mgr other).held name = some .running →
        (other = party → name ≠ id) → (pair.mgr other).held name = some .running := by
      intro other name running apart
      by_cases here : other = party
      · rw [here] at running ⊢
        rwa [reacts.others name (apart here)] at running
      · rwa [others other here] at running
    refine ⟨?_, ?_, ?_, ?_⟩
    · intro other
      by_cases here : other = party
      · exact here ▸ tracked
      · rw [others other here]
        exact honest.tracked other
    · intro other datagram member
      by_cases here : other = party
      · subst here
        rw [sendings_trace reacts.grows] at member
        rcases List.mem_append.mp member with old | new
        · obtain ⟨id, cmd, carries, proper⟩ := honest.sent other datagram old
          exact ⟨id, cmd, carries, proper.append _⟩
        · exact honest.sends run enabled stepped cues reaction reacts new
      · rw [others other here] at member
        obtain ⟨id, cmd, carries, proper⟩ := honest.sent other datagram member
        exact ⟨id, cmd, carries, proper.append _⟩
    · intro name running
      by_cases here : party = .initiator ∧ name = id
      · obtain ⟨rfl, rfl⟩ := here
        rcases reaction.running (reacts.own.symm.trans running) with old | ⟨_, rfl, _⟩ | rfl
        · exact (honest.opened name old).append _
        · exact absurd rfl (honest.heard enabled cues).1
        · exact ((honest.heard enabled cues).2 rfl).append _
      · refine (honest.opened name (elsewhere running ?_)).append _
        rintro rfl rfl
        exact here ⟨rfl, rfl⟩
    · intro name running
      by_cases here : party = .responder ∧ name = id
      · obtain ⟨rfl, rfl⟩ := here
        rcases reaction.running (reacts.own.symm.trans running) with
          old | ⟨missing, rfl, added⟩ | rfl
        · exact (honest.accepted name old).append _
        · exact .now run enabled stepped (welcomes_of_reacts cues missing reacts
            (reacts.own.symm.trans running) added)
        · exact absurd rfl (honest.heard enabled cues)
      · refine (honest.accepted name (elsewhere running ?_)).append _
        rintro rfl rfl
        exact here ⟨rfl, rfl⟩

end Steps

theorem IsNew.honest (new : start.IsNew) : Honest library start [] start := by
  refine ⟨new.tracked, ?_, ?_, ?_⟩
  · intro party datagram member
    rw [(new party).tracks.2] at member
    cases member
  · intro id running
    rw [(new .initiator).held] at running
    cases running
  · intro id running
    rw [(new .responder).held] at running
    cases running

/-- An event of a step is about an identifier that the acting party reacts under. -/
theorem Honest.triggered (honest : Honest library start moves pair)
    (enabled : (lossy library).Enabled pair move)
    (stepped : (lossy library).step pair move = .ok next) {party : Party}
    {name : Option SpudTubeId} {event : TubeEvent}
    (member : (name, event) ∈ (pair.mgr party).named (next.mgr party)) :
    move.1 = party ∧ ∃ id cue reply, name = some id ∧ event ∈ reply.events ∧
      (pair.mgr party).Cues library id move.2 cue ∧
      Reaction ((pair.mgr party).held id) cue reply := by
  obtain ⟨actor, call⟩ := move
  obtain ⟨acted, others⟩ := perform_eq stepped
  by_cases here : actor = party
  · subst here
    refine ⟨rfl, ?_⟩
    rcases (honest.tracked actor).act enabled.1.1 acted with
      ⟨_, still⟩ | ⟨id, cue, luck, cues, _, _, reacts⟩
    · cases ((still ⟨fun _ => 0⟩).triggers member).2
    · obtain ⟨same, inside⟩ := reacts.triggers member
      exact ⟨id, cue, _, same, inside, cues, luck.reaction _ _ _⟩
  · have silent : (pair.mgr party).named (next.mgr party) = [] := by
      rw [others party fun same => here same.symm, TubeManager.named, List.drop_length]
      rfl
    rw [silent] at member
    cases member

/-- A tube of the initiator is running, or triggers the event running, only when the
responder has made a tube for an `OPEN` and acknowledged it, and the responder triggers the
event data only for an identifier for which it has made a tube for an `OPEN`. -/
theorem run_handshakes (library : CborLibrary) (start last : Pair) (moves : List (Party × Act))
    (new : start.IsNew) (run : (lossy library).Run start moves last) :
    (∀ id, (last.mgr .initiator).held id = some .running →
      (lossy library).Past start moves (Acknowledges library id)) ∧
    ∀ move next, (lossy library).Enabled last move → (lossy library).step last move = .ok next →
      (∀ name, (name, .running) ∈ (last.mgr .initiator).named (next.mgr .initiator) →
        ∃ id, name = some id ∧ (lossy library).Past start moves (Acknowledges library id)) ∧
      ∀ name, (name, .data) ∈ (last.mgr .responder).named (next.mgr .responder) →
        ∃ id, name = some id ∧ (lossy library).Past start moves (Welcomes library id) := by
  have honest : Honest library start moves last := by
    refine run.preserves_history (Honest library start) new.honest ?_
    intro moves pair move next run honest enabled stepped
    exact honest.step run enabled stepped
  refine ⟨honest.opened, ?_⟩
  intro move next enabled stepped
  constructor
  · intro name member
    obtain ⟨actor, id, cue, reply, same, inside, cues, reaction⟩ :=
      honest.triggered enabled stepped member
    obtain rfl := reaction.triggers.1 inside
    rw [← actor] at cues
    have proper := honest.heard enabled cues
    rw [actor] at proper
    exact ⟨id, same, proper.2 rfl⟩
  · intro name member
    obtain ⟨_, id, cue, reply, same, inside, _, reaction⟩ :=
      honest.triggered enabled stepped member
    exact ⟨id, same, honest.accepted id (reaction.triggers.2 inside)⟩

end Runs

def strangers : Pair := ⟨fun _ => newResponder⟩

theorem strangers_isNew : strangers.IsNew := by
  intro party
  refine ⟨3, true, fun size => decide (size < 2 ^ 30), ⟨0, 0⟩, 4, 6, tpWillRespond, _, ?_, rfl, rfl⟩
  exact fun _ huge => decide_eq_false (Nat.not_lt.mpr huge)

def openThenAck : List (Party × Act) :=
  [(.initiator, .openTube obliging (.inet 1402 0x7f000001)),
    (.responder, .receive obliging true (bareHeader ⟨fun _ => 7⟩ .spudOpen)),
    (.initiator, .receive obliging true (bareHeader ⟨fun _ => 7⟩ .spudAck))]

def sentBytes (pair : Pair) (party : Party) : List (List UInt8) :=
  (sendings (pair.mgr party).trace).map Datagram.bytes

theorem genuine_of_sentBytes {pair : Pair} {party : Party} {received : Reception}
    (sent : received.bytes ∈ pair.sentBytes party.peer) : pair.Genuine party received := by
  obtain ⟨datagram, member, same⟩ := List.mem_map.mp sent
  exact ⟨datagram, member, same.symm⟩

theorem run_handshakes_acknowledged : ∃ last : Pair,
    (last.mgr .initiator).held ⟨fun _ => 7⟩ = some .running ∧
    (lossy minimalCbor).Past strangers openThenAck
      (Acknowledges minimalCbor ⟨fun _ => 7⟩) := by
  let ack := bareHeader ⟨fun _ => 7⟩ .spudAck
  let acked : Party × Act := (.initiator, .receive obliging true ack)
  obtain ⟨last, run, running⟩ : ∃ last, (lossy minimalCbor).Run strangers openThenAck last ∧
      (last.mgr .initiator).held ⟨fun _ => 7⟩ = some .running := by
    refine System.Run.exists_cons ⟨⟨obliging_refused, fun _ _ _ => rfl⟩, fun _ _ _ => nofun⟩ rfl ?_
    refine System.Run.exists_cons_seen (fun pair : Pair => (pair.sentBytes .responder,
      (pair.perform minimalCbor acked).toOption.map fun last =>
        (last.mgr .initiator).held ⟨fun _ => 7⟩)) ⟨⟨obliging_refused, fun _ _ => nofun⟩, ?_⟩
      (show _ = some ([ack.bytes], some (some .running)) by decide +kernel) ?_
    · rintro _ _ _ ⟨⟩
      exact ⟨_, List.mem_cons_self, rfl⟩
    intro middle view
    obtain ⟨sent, onward⟩ := Prod.mk.inj view
    obtain ⟨last, returned, running⟩ := Exec.exists_of_map _ onward
    refine System.Run.exists_cons ⟨⟨obliging_refused, fun _ _ => nofun⟩, ?_⟩ returned
      ⟨last, .nil _, running⟩
    rintro _ _ _ ⟨⟩
    refine genuine_of_sentBytes ?_
    rw [Party.peer, sent]
    exact List.mem_singleton.mpr rfl
  obtain ⟨acknowledged, _⟩ :=
    run_handshakes minimalCbor strangers last openThenAck strangers_isNew run
  exact ⟨last, running, acknowledged _ running⟩

end Pair

end SpudLib
