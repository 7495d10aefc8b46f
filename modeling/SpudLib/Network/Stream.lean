import SpudLib.Network.Parties

/-!
# What is said under one identifier

Over channels that keep the order, each party hears a beginning of what the
other has said under an identifier.  While a tube is open it is missing only
what is on its way, whatever kind of data the letters between the parties carry.
-/

namespace SpudLib

structure Letter (Data : Type) where
  cmd : SpudCommand
  data : Data

def spoken {Data : Type} (letters : List (Letter Data)) : List Data :=
  letters.filterMap fun letter => if letter.cmd = .spudData then some letter.data else none

/-- What the parties hold under an identifier, the letters about it that each has sent and the
other has not heard, the data that each has said and heard, and whether the identifier has
been drawn. -/
structure Stream (Data : Type) where
  held : Party → Option TubeState
  flight : Party → List (Letter Data)
  said : Party → List Data
  heard : Party → List Data
  drawn : Bool

section Letters

variable {Data : Type} {letter : Letter Data} {letters rest : List (Letter Data)}

@[simp] theorem spoken_nil : spoken ([] : List (Letter Data)) = [] := rfl

@[simp] theorem spoken_append : spoken (letters ++ rest) = spoken letters ++ spoken rest :=
  List.filterMap_append

theorem spoken_data (data : letter.cmd = .spudData) :
    spoken (letter :: rest) = letter.data :: spoken rest :=
  List.filterMap_cons_some (if_pos data)

theorem spoken_control (control : letter.cmd ≠ .spudData) : spoken (letter :: rest) = spoken rest :=
  List.filterMap_cons_none (if_neg control)

end Letters

namespace Stream

variable {Data : Type}

/-- What a party can be told: the initiator opens a tube once, a party works with the tube it
holds, and it hears what comes first. -/
def May (stream : Stream Data) (party : Party) : Cue → Prop
  | .heard cmd => ∃ letter rest, stream.flight party.peer = letter :: rest ∧ letter.cmd = cmd
  | .opened => party = .initiator ∧ stream.drawn = false
  | .said | .closed | .removed => stream.held party ≠ none

def coming (stream : Stream Data) (party : Party) : Cue → List (Letter Data)
  | .heard _ => (stream.flight party.peer).tail
  | _ => stream.flight party.peer

/-- What a party is handed: the data of the letter that comes first. -/
def handed (stream : Stream Data) (party : Party) (reply : Reply) : List Data :=
  if .data ∈ reply.events then ((stream.flight party.peer).head?.map Letter.data).toList else []

structure Turn (stream : Stream Data) (party : Party) (cue : Cue) (reply : Reply)
    (next : Stream Data) : Prop where
  own : next.held party = reply.held
  peer : next.held party.peer = stream.held party.peer
  sent : ∃ letters : List (Letter Data), letters.map Letter.cmd = reply.sent ∧
    next.flight party = stream.flight party ++ letters ∧
    next.said party = stream.said party ++ spoken letters
  coming : next.flight party.peer = stream.coming party cue
  silent : next.said party.peer = stream.said party.peer
  handed : next.heard party = stream.heard party ++ stream.handed party reply
  deaf : next.heard party.peer = stream.heard party.peer
  drawn : cue ≠ .opened → next.drawn = stream.drawn

structure Rests (stream next : Stream Data) : Prop where
  held : next.held = stream.held
  flight : next.flight = stream.flight
  said : next.said = stream.said
  heard : next.heard = stream.heard
  drawn : stream.drawn = true → next.drawn = true

/-- From a party to its peer: a beginning of what was said has been heard, and while the peer
runs, the rest is on its way. -/
structure Lane (stream : Stream Data) (party : Party) : Prop where
  ordered : stream.heard party.peer <+: stream.said party
  complete : stream.held party.peer = some .running →
    stream.said party = stream.heard party.peer ++ spoken (stream.flight party)

structure Flowing (stream : Stream Data) : Prop where
  untouched : stream.drawn = false → ∀ party, stream.held party = none ∧
    stream.flight party = [] ∧ stream.said party = [] ∧ stream.heard party = []
  proper : .spudOpen ∉ (stream.flight .responder).map Letter.cmd ∧
    stream.held .responder ≠ some .opening
  asked : .spudOpen ∈ (stream.flight .initiator).map Letter.cmd →
    stream.held .responder = none ∧ stream.flight .responder = [] ∧
      stream.said .responder = [] ∧ stream.heard .responder = [] ∧
      ∃ letter rest, stream.flight .initiator = letter :: rest ∧ letter.cmd = .spudOpen ∧
        .spudOpen ∉ rest.map Letter.cmd ∧ stream.said .initiator = spoken rest
  opening : stream.held .initiator = some .opening → stream.heard .initiator = [] ∧
    (stream.held .responder = none ∧ stream.flight .responder = [] ∧ stream.said .responder = [] ∨
      ∃ letter rest, stream.flight .responder = letter :: rest ∧ letter.cmd = .spudAck ∧
        stream.said .responder = spoken rest)
  lane : ∀ party, stream.Lane party

variable {stream next : Stream Data} {party : Party} {cue : Cue} {reply : Reply}

theorem Party.peer_peer (party : Party) : party.peer.peer = party := by
  cases party <;> rfl

theorem Lane.speaks (lane : stream.Lane party) (turn : stream.Turn party cue reply next) :
    next.Lane party := by
  obtain ⟨letters, _, flight, said⟩ := turn.sent
  constructor
  · rw [turn.deaf, said]
    exact lane.ordered.trans (List.prefix_append _ _)
  · intro running
    rw [turn.peer] at running
    rw [turn.deaf, said, flight, spoken_append, lane.complete running, List.append_assoc]

theorem Lane.waits (lane : stream.Lane party.peer) (turn : stream.Turn party cue reply next)
    (calls : ∀ cmd, cue ≠ .heard cmd) (quiet : .data ∉ reply.events)
    (running : reply.held = some .running → stream.held party = some .running) :
    next.Lane party.peer := by
  have heard : next.heard party = stream.heard party := by
    rw [turn.handed, handed, if_neg quiet, List.append_nil]
  have flight : next.flight party.peer = stream.flight party.peer := by
    rw [turn.coming]
    cases cue with
    | heard cmd => exact absurd rfl (calls cmd)
    | opened => rfl
    | said => rfl
    | closed => rfl
    | removed => rfl
  have own := turn.own
  obtain ⟨ordered, complete⟩ := lane
  constructor
  · rw [Party.peer_peer] at ordered ⊢
    rw [heard, turn.silent]
    exact ordered
  · rw [Party.peer_peer] at complete ⊢
    intro runs
    rw [heard, turn.silent, flight]
    exact complete (running (own.symm.trans runs))

inductive Hearing (held : Option TubeState) (cmd : SpudCommand) (reply : Reply) : Prop where
  | passed (same : reply.held = held) (quiet : .data ∉ reply.events)
      (unasked : ¬ (held = some .opening ∧ cmd = .spudAck))
      (unsaid : ¬ (held = some .running ∧ cmd = .spudData))
  | told (running : held = some .running) (data : cmd = .spudData)
      (same : reply.held = some .running) (events : .data ∈ reply.events)
  | acked (opening : held = some .opening) (ack : cmd = .spudAck)
      (running : reply.held = some .running) (quiet : .data ∉ reply.events)
  | hungUp (close : cmd = .spudClose) (gone : reply.held = none) (quiet : .data ∉ reply.events)

theorem hear_later (responds : Bool) (held : Option TubeState) {cmd : SpudCommand}
    (later : cmd ≠ .spudOpen) : (Luck.full.hear responds held cmd).sent = [] ∧
      Hearing held cmd (Luck.full.hear responds held cmd) := by
  cases held with
  | none =>
    have nothing : Luck.full.hear responds none cmd = ⟨none, [], []⟩ := by
      simp [Luck.hear, later]
    rw [nothing]
    exact ⟨rfl, .passed rfl List.not_mem_nil (by simp) (by simp)⟩
  | some state =>
    cases idle : Environment.acts cmd state with
    | false =>
      rw [Luck.hear_idle idle]
      refine ⟨rfl, .passed rfl List.not_mem_nil ?_ ?_⟩
      · rintro ⟨⟨⟩, rfl⟩
        cases idle
      · rintro ⟨⟨⟩, rfl⟩
        cases idle
    | true =>
      cases cmd with
      | spudOpen => exact absurd rfl later
      | spudData =>
        obtain rfl : state = .running := of_decide_eq_true idle
        exact ⟨rfl, .told rfl rfl rfl (List.mem_singleton.mpr rfl)⟩
      | spudAck =>
        obtain rfl : state = .opening := of_decide_eq_true idle
        exact ⟨rfl, .acked rfl rfl rfl (by simp [Luck.hear_ack, Luck.events, Luck.full])⟩
      | spudClose =>
        rw [Luck.hear_close (of_decide_eq_true idle)]
        exact ⟨rfl, .hungUp rfl rfl (by decide)⟩

/-- A party hears a command other than `OPEN`.  What an opening tube of a party may expect is
said apart. -/
theorem Lane.hears {cmd : SpudCommand} (lane : stream.Lane party.peer)
    (turn : stream.Turn party (.heard cmd) reply next) {letter : Letter Data}
    {rest : List (Letter Data)} (first : stream.flight party.peer = letter :: rest)
    (command : letter.cmd = cmd) (hearing : Hearing (stream.held party) cmd reply)
    (starts : stream.held party = some .opening → cmd = .spudAck →
      stream.heard party = [] ∧ stream.said party.peer = spoken rest) :
    next.Lane party.peer := by
  obtain ⟨ordered, complete⟩ := lane
  have flight : next.flight party.peer = rest := by
    rw [turn.coming, coming, first, List.tail_cons]
  have handed := turn.handed
  have own := turn.own
  have silent := turn.silent
  rw [Stream.handed, first] at handed
  rw [Party.peer_peer] at ordered complete
  suffices next.heard party <+: next.said party.peer ∧ (next.held party = some .running →
      next.said party.peer = next.heard party ++ spoken rest) by
    refine ⟨?_, ?_⟩
    · rw [Party.peer_peer]
      exact this.1
    · rw [Party.peer_peer, flight]
      exact this.2
  cases hearing with
  | passed same quiet _ unsaid =>
    rw [if_neg quiet, List.append_nil] at handed
    rw [handed, silent, own, same]
    refine ⟨ordered, ?_⟩
    intro running
    have before := complete running
    rwa [first, spoken_control fun data => unsaid ⟨running, command.symm.trans data⟩] at before
  | told running data same events =>
    have before := complete running
    rw [if_pos events] at handed
    rw [first, spoken_data (command.trans data)] at before
    have now : next.said party.peer = next.heard party ++ spoken rest := by
      rw [silent, before, handed]
      simp
    exact ⟨now ▸ List.prefix_append _ _, fun _ => now⟩
  | acked opening ack running quiet =>
    obtain ⟨nothing, all⟩ := starts opening ack
    rw [if_neg quiet, List.append_nil, nothing] at handed
    rw [handed, silent, all]
    exact ⟨List.nil_prefix, fun _ => rfl⟩
  | hungUp close gone quiet =>
    rw [if_neg quiet, List.append_nil] at handed
    rw [handed, silent, own, gone]
    exact ⟨ordered, nofun⟩

theorem Flowing.rests (flowing : stream.Flowing) (rests : stream.Rests next) : next.Flowing := by
  obtain ⟨held, flight, said, heard, drawn⟩ := rests
  obtain ⟨untouched, proper, asked, opening, lane⟩ := flowing
  rw [← held, ← flight, ← said, ← heard] at untouched
  rw [← held, ← flight] at proper
  rw [← held, ← flight, ← said, ← heard] at asked
  rw [← held, ← flight, ← said, ← heard] at opening
  refine ⟨?_, proper, asked, opening, ?_⟩
  · intro undrawn
    apply untouched
    rw [← Bool.not_eq_true]
    intro known
    rw [drawn known] at undrawn
    cases undrawn
  · intro party
    obtain ⟨ordered, complete⟩ := lane party
    rw [← heard, ← said] at ordered
    rw [← held, ← flight, ← heard, ← said] at complete
    exact ⟨ordered, complete⟩

theorem Flowing.drawn_of_flight (flowing : stream.Flowing) {letter : Letter Data}
    {rest : List (Letter Data)} (first : stream.flight party = letter :: rest) :
    stream.drawn = true := by
  rw [← Bool.not_eq_false]
  intro undrawn
  rw [(flowing.untouched undrawn party).2.1] at first
  cases first

theorem Flowing.drawn_of_held (flowing : stream.Flowing) (held : stream.held party ≠ none) :
    stream.drawn = true := by
  rw [← Bool.not_eq_false]
  exact fun undrawn => held (flowing.untouched undrawn party).1

theorem Flowing.unasked (flowing : stream.Flowing) (held : stream.held .responder ≠ none) :
    .spudOpen ∉ (stream.flight .initiator).map Letter.cmd :=
  fun opens => held (flowing.asked opens).1

section Initiator

theorem Flowing.opened (flowing : stream.Flowing) (undrawn : stream.drawn = false)
    (turn : stream.Turn .initiator .opened ⟨some .opening, [.spudOpen], [.add]⟩ next)
    (drawn : next.drawn = true) : next.Flowing := by
  obtain ⟨absent, nothing, mute, deaf⟩ := flowing.untouched undrawn .responder
  obtain ⟨_, unsent, unsaid, unheard⟩ := flowing.untouched undrawn .initiator
  obtain ⟨letters, commands, flight, said⟩ := turn.sent
  obtain ⟨letter, rest, rfl, command, empty⟩ := List.map_eq_cons_iff.mp commands
  obtain rfl := List.map_eq_nil_iff.mp empty
  have control : letter.cmd ≠ .spudData := by
    rw [command]
    nofun
  rw [unsent, List.nil_append] at flight
  rw [unsaid, spoken_control control, spoken_nil, List.append_nil] at said
  have peerHeld : next.held .responder = none := turn.peer.trans absent
  have peerFlight : next.flight .responder = [] := turn.coming.trans nothing
  have peerSaid : next.said .responder = [] := turn.silent.trans mute
  have peerHeard : next.heard .responder = [] := turn.deaf.trans deaf
  have heard : next.heard .initiator = [] := by
    rw [turn.handed, unheard]
    rfl
  have own : next.held .initiator = some .opening := turn.own
  constructor
  · rw [drawn]
    nofun
  · rw [peerFlight, peerHeld]
    exact ⟨nofun, nofun⟩
  · intro _
    exact ⟨peerHeld, peerFlight, peerSaid, peerHeard, letter, [], flight, command, nofun, said⟩
  · intro _
    exact ⟨heard, .inl ⟨peerHeld, peerFlight, peerSaid⟩⟩
  · rintro (_ | _)
    · constructor
      · rw [said, show Party.initiator.peer = .responder from rfl, peerHeard]
      · rw [show Party.initiator.peer = .responder from rfl, peerHeld]
        nofun
    · constructor
      · rw [peerSaid, show Party.responder.peer = .initiator from rfl, heard]
      · rw [show Party.responder.peer = .initiator from rfl, own]
        nofun

theorem Flowing.asks (flowing : stream.Flowing) (turn : stream.Turn .initiator cue reply next)
    (calls : ∀ cmd, cue ≠ .heard cmd) (unopened : cue ≠ .opened)
    (held : stream.held .initiator ≠ none) (quiet : .data ∉ reply.events)
    (later : .spudOpen ∉ reply.sent)
    (states : ∀ state, reply.held = some state → state = .opening ∨ state = .running →
      stream.held .initiator = some state) : next.Flowing := by
  obtain ⟨letters, commands, flight, said⟩ := turn.sent
  have peerHeld : next.held .responder = stream.held .responder := turn.peer
  have peerSaid : next.said .responder = stream.said .responder := turn.silent
  have peerHeard : next.heard .responder = stream.heard .responder := turn.deaf
  have peerFlight : next.flight .responder = stream.flight .responder := by
    refine turn.coming.trans ?_
    cases cue with
    | heard cmd => exact absurd rfl (calls cmd)
    | opened => rfl
    | said => rfl
    | closed => rfl
    | removed => rfl
  have heard : next.heard .initiator = stream.heard .initiator := by
    rw [turn.handed, handed, if_neg quiet, List.append_nil]
  rw [← commands] at later
  constructor
  · rw [turn.drawn unopened, flowing.drawn_of_held held]
    nofun
  · rw [peerFlight, peerHeld]
    exact flowing.proper
  · intro opens
    rw [flight, List.map_append] at opens
    have before := (List.mem_append.mp opens).resolve_right later
    obtain ⟨absent, nothing, mute, deaf, letter, rest, first, command, once, all⟩ :=
      flowing.asked before
    refine ⟨peerHeld.trans absent, peerFlight.trans nothing, peerSaid.trans mute,
      peerHeard.trans deaf, letter, rest ++ letters, ?_, command, ?_, ?_⟩
    · rw [flight, first]
      rfl
    · rw [List.map_append]
      exact fun again => (List.mem_append.mp again).elim once later
    · rw [said, all, spoken_append]
  · intro opening
    rw [turn.own] at opening
    have before := flowing.opening (states _ opening (.inl rfl))
    rw [heard, peerHeld, peerFlight, peerSaid]
    exact before
  · rintro (_ | _)
    · exact (flowing.lane .initiator).speaks turn
    · exact Lane.waits (flowing.lane .responder) turn calls quiet
        fun running => states _ running (.inr rfl)

theorem Flowing.answered (flowing : stream.Flowing) {cmd : SpudCommand} {letter : Letter Data}
    {rest : List (Letter Data)} (first : stream.flight .responder = letter :: rest)
    (command : letter.cmd = cmd) {responds : Bool}
    (turn : stream.Turn .initiator (.heard cmd)
      (Luck.full.hear responds (stream.held .initiator) cmd) next) : next.Flowing := by
  obtain ⟨improper, unopening⟩ := flowing.proper
  rw [first, List.map_cons, command] at improper
  obtain ⟨later, others⟩ := List.ne_and_not_mem_of_not_mem_cons improper
  obtain ⟨silent, hearing⟩ :=
    hear_later responds (stream.held .initiator) (Ne.symm later)
  obtain ⟨letters, commands, flight, said⟩ := turn.sent
  rw [silent, List.map_eq_nil_iff] at commands
  subst commands
  rw [List.append_nil] at flight
  rw [spoken_nil, List.append_nil] at said
  have own := turn.own
  have peerHeld : next.held .responder = stream.held .responder := turn.peer
  have peerSaid : next.said .responder = stream.said .responder := turn.silent
  have coming : next.flight .responder = rest :=
    turn.coming.trans (congrArg List.tail first)
  constructor
  · rw [turn.drawn nofun, flowing.drawn_of_flight first]
    nofun
  · rw [coming, peerHeld]
    exact ⟨others, unopening⟩
  · rw [flight]
    intro opens
    rw [(flowing.asked opens).2.1] at first
    cases first
  · intro opening
    rw [own] at opening
    have before : stream.held .initiator = some .opening ∧ cmd ≠ .spudAck := by
      cases hearing with
      | passed same _ unasked _ =>
        rw [same] at opening
        exact ⟨opening, fun ack => unasked ⟨opening, ack⟩⟩
      | told _ _ same =>
        rw [same] at opening
        cases opening
      | acked _ _ running =>
        rw [running] at opening
        cases opening
      | hungUp _ gone =>
        rw [gone] at opening
        cases opening
    rcases (flowing.opening before.1).2 with ⟨_, nothing, _⟩ | ⟨other, _, same, ack, _⟩
    · rw [nothing] at first
      cases first
    · rw [first] at same
      cases same
      exact absurd (command.symm.trans ack) before.2
  · rintro (_ | _)
    · exact (flowing.lane .initiator).speaks turn
    · refine Lane.hears (flowing.lane .responder) turn first command hearing ?_
      intro opening _
      obtain ⟨unheard, ⟨_, nothing, _⟩ | ⟨_, _, same, _, all⟩⟩ := flowing.opening opening
      · rw [nothing] at first
        cases first
      · rw [first] at same
        cases same
        exact ⟨unheard, all⟩

end Initiator

section Responder

theorem Flowing.serves (flowing : stream.Flowing) (turn : stream.Turn .responder cue reply next)
    (calls : ∀ cmd, cue ≠ .heard cmd) (unopened : cue ≠ .opened)
    (held : stream.held .responder ≠ none) (quiet : .data ∉ reply.events)
    (later : .spudOpen ∉ reply.sent)
    (states : ∀ state, reply.held = some state → state = .opening ∨ state = .running →
      stream.held .responder = some state) : next.Flowing := by
  obtain ⟨letters, commands, flight, said⟩ := turn.sent
  have peerHeld : next.held .initiator = stream.held .initiator := turn.peer
  have peerHeard : next.heard .initiator = stream.heard .initiator := turn.deaf
  have peerFlight : next.flight .initiator = stream.flight .initiator := by
    refine turn.coming.trans ?_
    cases cue with
    | heard cmd => exact absurd rfl (calls cmd)
    | opened => rfl
    | said => rfl
    | closed => rfl
    | removed => rfl
  rw [← commands] at later
  constructor
  · rw [turn.drawn unopened, flowing.drawn_of_held held]
    nofun
  · rw [flight, List.map_append]
    refine ⟨fun opens => (List.mem_append.mp opens).elim flowing.proper.1 later, ?_⟩
    rw [turn.own]
    intro opening
    exact flowing.proper.2 (states _ opening (.inl rfl))
  · rw [peerFlight]
    exact fun opens => absurd opens (flowing.unasked held)
  · intro opening
    rw [peerHeld] at opening
    obtain ⟨unheard, ⟨absent, _⟩ | ⟨letter, rest, first, ack, all⟩⟩ := flowing.opening opening
    · exact absurd absent held
    · refine ⟨peerHeard.trans unheard, .inr ⟨letter, rest ++ letters, ?_, ack, ?_⟩⟩
      · rw [flight, first]
        rfl
      · rw [said, all, spoken_append]
  · rintro (_ | _)
    · exact Lane.waits (flowing.lane .initiator) turn calls quiet
        fun running => states _ running (.inr rfl)
    · exact (flowing.lane .responder).speaks turn

theorem Flowing.welcomed (flowing : stream.Flowing) {letter : Letter Data}
    {rest : List (Letter Data)} (first : stream.flight .initiator = letter :: rest)
    (command : letter.cmd = .spudOpen) {responds : Bool}
    (turn : stream.Turn .responder (.heard .spudOpen)
      (Luck.full.hear responds (stream.held .responder) .spudOpen) next) : next.Flowing := by
  obtain ⟨absent, nothing, mute, deaf, _, _, same, _, once, all⟩ :=
    flowing.asked (by rw [first, List.map_cons, command]; exact List.mem_cons_self)
  rw [first] at same
  cases same
  have peerHeld : next.held .initiator = stream.held .initiator := turn.peer
  have peerHeard : next.heard .initiator = stream.heard .initiator := turn.deaf
  have peerSaid : next.said .initiator = stream.said .initiator := turn.silent
  have coming : next.flight .initiator = rest := turn.coming.trans (congrArg List.tail first)
  obtain ⟨letters, commands, flight, said⟩ := turn.sent
  have own := turn.own
  have handed := turn.handed
  rw [absent] at own commands handed
  -- the answer is an `ACK`, or nothing
  have answer : spoken letters = [] ∧ (letters = [] ∧ next.held .responder = none ∨
      ∃ ack, letters = [ack] ∧ ack.cmd = .spudAck ∧ next.held .responder = some .running) ∧
      next.heard .responder = [] := by
    cases responds with
    | false =>
      obtain rfl := List.map_eq_nil_iff.mp commands
      refine ⟨rfl, .inl ⟨rfl, own⟩, ?_⟩
      rw [handed, deaf]
      rfl
    | true =>
      obtain ⟨ack, others, rfl, command, empty⟩ := List.map_eq_cons_iff.mp commands
      obtain rfl := List.map_eq_nil_iff.mp empty
      refine ⟨spoken_control (by rw [command]; nofun), .inr ⟨ack, rfl, command, own⟩, ?_⟩
      rw [handed, deaf]
      rfl
  obtain ⟨unsaid, accepts, unheard⟩ := answer
  rw [nothing, List.nil_append] at flight
  rw [mute, unsaid] at said
  constructor
  · rw [turn.drawn nofun, flowing.drawn_of_flight first]
    nofun
  · rw [flight]
    rcases accepts with ⟨rfl, gone⟩ | ⟨ack, rfl, command, running⟩
    · rw [gone]
      exact ⟨nofun, nofun⟩
    · rw [running, List.map_singleton, command]
      exact ⟨by decide, nofun⟩
  · rw [coming]
    exact fun again => absurd again once
  · intro opening
    rw [peerHeld] at opening
    refine ⟨peerHeard.trans (flowing.opening opening).1, ?_⟩
    rw [flight, said]
    rcases accepts with ⟨rfl, gone⟩ | ⟨ack, rfl, command, _⟩
    · exact .inl ⟨gone, rfl, rfl⟩
    · exact .inr ⟨ack, [], rfl, command, rfl⟩
  · rintro (_ | _)
    · constructor
      · rw [show Party.initiator.peer = .responder from rfl, unheard]
        exact List.nil_prefix
      · intro _
        rw [show Party.initiator.peer = .responder from rfl, unheard, peerSaid, coming, all]
        rfl
    · exact (flowing.lane .responder).speaks turn

theorem Flowing.obeyed (flowing : stream.Flowing) {cmd : SpudCommand} {letter : Letter Data}
    {rest : List (Letter Data)} (first : stream.flight .initiator = letter :: rest)
    (command : letter.cmd = cmd) (later : cmd ≠ .spudOpen) {responds : Bool}
    (turn : stream.Turn .responder (.heard cmd)
      (Luck.full.hear responds (stream.held .responder) cmd) next) : next.Flowing := by
  have unasked : .spudOpen ∉ (stream.flight .initiator).map Letter.cmd := by
    intro opens
    obtain ⟨_, _, _, _, other, _, same, opens, _⟩ := flowing.asked opens
    rw [first] at same
    cases same
    exact later (command.symm.trans opens)
  obtain ⟨silent, hearing⟩ := hear_later responds (stream.held .responder) later
  obtain ⟨letters, commands, flight, said⟩ := turn.sent
  rw [silent, List.map_eq_nil_iff] at commands
  subst commands
  rw [List.append_nil] at flight
  rw [spoken_nil, List.append_nil] at said
  have own := turn.own
  have peerHeld : next.held .initiator = stream.held .initiator := turn.peer
  have peerHeard : next.heard .initiator = stream.heard .initiator := turn.deaf
  have coming : next.flight .initiator = rest := turn.coming.trans (congrArg List.tail first)
  have gone : next.held .responder = stream.held .responder ∨ next.held .responder = none := by
    cases hearing with
    | passed same => exact .inl (own.trans same)
    | told running _ same => exact .inl (own.trans (same.trans running.symm))
    | acked opening => exact absurd opening flowing.proper.2
    | hungUp _ gone => exact .inr (own.trans gone)
  constructor
  · rw [turn.drawn nofun, flowing.drawn_of_flight first]
    nofun
  · rw [flight]
    refine ⟨flowing.proper.1, ?_⟩
    rcases gone with same | gone
    · rw [same]
      exact flowing.proper.2
    · rw [gone]
      nofun
  · rw [coming]
    rw [first, List.map_cons] at unasked
    exact fun opens => absurd (List.mem_cons_of_mem _ opens) unasked
  · intro opening
    rw [peerHeld] at opening
    obtain ⟨unheard, before⟩ := flowing.opening opening
    refine ⟨peerHeard.trans unheard, ?_⟩
    rw [flight, said]
    rcases before with ⟨absent, nothing⟩ | acked
    · refine .inl ⟨?_, nothing⟩
      rcases gone with same | gone
      · exact same.trans absent
      · exact gone
    · exact .inr acked
  · rintro (_ | _)
    · exact Lane.hears (flowing.lane .initiator) turn first command hearing
        fun opening => absurd opening flowing.proper.2
    · exact (flowing.lane .responder).speaks turn

end Responder

/-- What holds at any time holds after a turn in which everything succeeds, though the system
need not have sent what was said. -/
theorem Flowing.turn (flowing : stream.Flowing) (may : stream.May party cue) {luck : Luck}
    (full : cue ≠ .said → luck = .full) {responds : Bool}
    (turn : stream.Turn party cue (luck.react responds (stream.held party) cue) next)
    (drawn : cue = .opened → next.drawn = true) : next.Flowing := by
  cases cue with
  | heard cmd =>
    obtain rfl := full nofun
    obtain ⟨letter, rest, first, rfl⟩ := may
    cases party with
    | initiator => exact flowing.answered first rfl turn
    | responder =>
      by_cases opens : letter.cmd = .spudOpen
      · rw [opens] at turn
        exact flowing.welcomed first opens turn
      · exact flowing.obeyed first rfl opens turn
  | opened =>
    obtain rfl := full nofun
    obtain ⟨rfl, undrawn⟩ := may
    rw [(flowing.untouched undrawn .initiator).1] at turn
    exact flowing.opened undrawn turn (drawn rfl)
  | said =>
    have later : .spudOpen ∉ luck.sent .spudData := fun opens =>
      absurd (luck.sent_subset _ opens) (by decide)
    cases party with
    | initiator =>
      exact flowing.asks turn (fun _ => nofun) nofun may nofun later fun _ same _ => same
    | responder =>
      exact flowing.serves turn (fun _ => nofun) nofun may nofun later fun _ same _ => same
  | closed =>
    have later : .spudOpen ∉ luck.sent .spudClose := fun opens =>
      absurd (luck.sent_subset _ opens) (by decide)
    have states : ∀ state, some .unknown = some state → state = .opening ∨ state = .running →
        stream.held party = some state := by
      rintro _ ⟨⟩ same
      cases same with
      | inl opening => cases opening
      | inr running => cases running
    cases party with
    | initiator => exact flowing.asks turn (fun _ => nofun) nofun may nofun later states
    | responder => exact flowing.serves turn (fun _ => nofun) nofun may nofun later states
  | removed =>
    have later : .spudOpen ∉ luck.farewell (stream.held party) := fun opens =>
      absurd (luck.farewell_subset _ opens) (by decide)
    have quiet : .data ∉ luck.events .remove := fun data =>
      absurd (luck.events_subset _ data) (by decide)
    cases party with
    | initiator => exact flowing.asks turn (fun _ => nofun) nofun may quiet later fun _ => nofun
    | responder => exact flowing.serves turn (fun _ => nofun) nofun may quiet later fun _ => nofun

/-- What holds as long as nobody closes or removes the tube, and the responder answers. -/
structure Joined (stream : Stream Data) : Prop where
  unclosed : ∀ party, .spudClose ∉ (stream.flight party).map Letter.cmd
  unmet : stream.held .initiator = none → stream.held .responder = none ∧
    ∀ party, stream.flight party = []
  known : ∀ state, stream.held .initiator = some state → state = .opening ∨ state = .running
  opening : stream.held .initiator = some .opening →
    .spudOpen ∈ (stream.flight .initiator).map Letter.cmd ∨ stream.held .responder = some .running
  running : stream.held .initiator = some .running → stream.held .responder = some .running

theorem Joined.rests (joined : stream.Joined) (rests : stream.Rests next) : next.Joined := by
  obtain ⟨held, flight, _⟩ := rests
  obtain ⟨unclosed, unmet, known, opening, running⟩ := joined
  rw [← flight] at unclosed
  rw [← held, ← flight] at unmet opening
  rw [← held] at known running
  exact ⟨unclosed, unmet, known, opening, running⟩

/-- With nothing on its way both sides run, and each has heard what the other has said. -/
theorem Joined.settled (joined : stream.Joined) (flowing : stream.Flowing)
    (held : stream.held .initiator ≠ none) (quiet : ∀ party, stream.flight party = []) :
    ∀ party, stream.held party = some .running ∧
      stream.heard party = stream.said party.peer := by
  have running : stream.held .initiator = some .running := by
    obtain ⟨state, holds⟩ := Option.ne_none_iff_exists'.mp held
    rcases joined.known state holds with rfl | rfl
    · rcases joined.opening holds with opens | serves
      · rw [quiet] at opens
        cases opens
      · rcases (flowing.opening holds).2 with ⟨absent, _⟩ | ⟨letter, rest, first, _⟩
        · rw [absent] at serves
          cases serves
        · rw [quiet] at first
          cases first
    · exact holds
  have both : ∀ party, stream.held party = some .running := by
    rintro (_ | _)
    · exact running
    · exact joined.running running
  intro party
  refine ⟨both party, ?_⟩
  have complete := (flowing.lane party.peer).complete
  rw [Party.peer_peer, quiet, spoken_nil, List.append_nil] at complete
  exact (complete (both party)).symm

theorem Joined.speaks (joined : stream.Joined) {luck : Luck} (held : stream.held party ≠ none)
    (turn : stream.Turn party .said ⟨stream.held party, luck.sent .spudData, []⟩ next) :
    next.Joined := by
  obtain ⟨letters, commands, flight, _⟩ := turn.sent
  have coming : next.flight party.peer = stream.flight party.peer := turn.coming
  have same : ∀ other, next.held other = stream.held other := by
    have own := turn.own
    have peer := turn.peer
    cases party <;> rintro (_ | _) <;> assumption
  have grows : ∀ other, ∃ more, next.flight other = stream.flight other ++ more ∧
      more.map Letter.cmd ⊆ [.spudData] := by
    have own : ∃ more, next.flight party = stream.flight party ++ more ∧
        more.map Letter.cmd ⊆ [.spudData] :=
      ⟨letters, flight, commands ▸ luck.sent_subset _⟩
    have peer : ∃ more, next.flight party.peer = stream.flight party.peer ++ more ∧
        more.map Letter.cmd ⊆ [.spudData] :=
      ⟨[], coming.trans (List.append_nil _).symm, List.nil_subset _⟩
    cases party <;> rintro (_ | _) <;> assumption
  constructor
  · intro other closes
    obtain ⟨more, flight, few⟩ := grows other
    rw [flight, List.map_append] at closes
    rcases List.mem_append.mp closes with old | new
    · exact joined.unclosed other old
    · exact absurd (few new) (by decide)
  · rw [same]
    intro absent
    obtain ⟨missing, _⟩ := joined.unmet absent
    cases party with
    | initiator => exact absurd absent held
    | responder => exact absurd missing held
  · rw [same]
    exact joined.known
  · rw [same, same]
    intro opening
    refine (joined.opening opening).imp_left fun opens => ?_
    obtain ⟨more, flight, _⟩ := grows .initiator
    rw [flight, List.map_append]
    exact List.mem_append_left _ opens
  · rw [same, same]
    exact joined.running

theorem Joined.opened (flowing : stream.Flowing)
    (undrawn : stream.drawn = false)
    (turn : stream.Turn .initiator .opened ⟨some .opening, [.spudOpen], [.add]⟩ next) :
    next.Joined := by
  obtain ⟨letters, commands, flight, _⟩ := turn.sent
  have own := turn.own
  have coming : next.flight .responder = [] :=
    turn.coming.trans (flowing.untouched undrawn .responder).2.1
  rw [(flowing.untouched undrawn .initiator).2.1, List.nil_append] at flight
  constructor
  · rintro (_ | _)
    · rw [flight, commands]
      decide
    · rw [coming]
      nofun
  · rw [own]
    nofun
  · rw [own]
    rintro _ ⟨⟩
    exact .inl rfl
  · intro _
    rw [flight, commands]
    exact .inl (List.mem_singleton.mpr rfl)
  · rw [own]
    nofun

theorem Joined.answered (joined : stream.Joined) (flowing : stream.Flowing) {cmd : SpudCommand}
    {letter : Letter Data} {rest : List (Letter Data)}
    (first : stream.flight .responder = letter :: rest) (command : letter.cmd = cmd)
    {responds : Bool} (turn : stream.Turn .initiator (.heard cmd)
      (Luck.full.hear responds (stream.held .initiator) cmd) next) : next.Joined := by
  have improper := flowing.proper.1
  have unclosed := joined.unclosed .responder
  rw [first, List.map_cons, command] at improper unclosed
  obtain ⟨silent, hearing⟩ := hear_later responds (stream.held .initiator)
    fun opens => improper (opens ▸ List.mem_cons_self)
  obtain ⟨letters, commands, flight, _⟩ := turn.sent
  rw [silent, List.map_eq_nil_iff] at commands
  subst commands
  rw [List.append_nil] at flight
  have own := turn.own
  have peerHeld : next.held .responder = stream.held .responder := turn.peer
  have coming : next.flight .responder = rest := turn.coming.trans (congrArg List.tail first)
  have serves : stream.held .initiator = some .opening →
      stream.held .responder = some .running := by
    intro opening
    refine (joined.opening opening).resolve_left fun opens => ?_
    rw [(flowing.asked opens).2.1] at first
    cases first
  -- the tube is as it was, or it was opening and is running
  have state : next.held .initiator = stream.held .initiator ∨
      next.held .initiator = some .running ∧ stream.held .initiator = some .opening := by
    cases hearing with
    | passed same => exact .inl (own.trans same)
    | told running _ same => exact .inl (own.trans (same.trans running.symm))
    | acked opening _ running => exact .inr ⟨own.trans running, opening⟩
    | hungUp close => exact absurd (close ▸ List.mem_cons_self) unclosed
  constructor
  · rintro (_ | _)
    · rw [flight]
      exact joined.unclosed .initiator
    · rw [coming]
      exact fun closes => unclosed (List.mem_cons_of_mem _ closes)
  · intro absent
    rcases state with same | ⟨running, _⟩
    · rw [(joined.unmet (same.symm.trans absent)).2] at first
      cases first
    · rw [running] at absent
      cases absent
  · rcases state with same | ⟨running, _⟩
    · rw [same]
      exact joined.known
    · rw [running]
      rintro _ ⟨⟩
      exact .inr rfl
  · rw [peerHeld]
    intro opening
    rcases state with same | ⟨running, _⟩
    · exact .inr (serves (same.symm.trans opening))
    · rw [running] at opening
      cases opening
  · rw [peerHeld]
    intro running
    rcases state with same | ⟨_, opening⟩
    · exact joined.running (same.symm.trans running)
    · exact serves opening

theorem Joined.welcomed (joined : stream.Joined) (flowing : stream.Flowing) {cmd : SpudCommand}
    {letter : Letter Data} {rest : List (Letter Data)}
    (first : stream.flight .initiator = letter :: rest) (command : letter.cmd = cmd)
    (turn : stream.Turn .responder (.heard cmd)
      (Luck.full.hear true (stream.held .responder) cmd) next) : next.Joined := by
  have unclosed := joined.unclosed .initiator
  rw [first, List.map_cons, command] at unclosed
  obtain ⟨letters, commands, flight, _⟩ := turn.sent
  have own := turn.own
  have peerHeld : next.held .initiator = stream.held .initiator := turn.peer
  have coming : next.flight .initiator = rest := turn.coming.trans (congrArg List.tail first)
  have met : stream.held .initiator ≠ none := by
    intro absent
    rw [(joined.unmet absent).2] at first
    cases first
  -- either the `OPEN` is accepted, or no `OPEN` was on its way and the tube is as it was
  have state : .spudClose ∉ letters.map Letter.cmd ∧ (next.held .responder = some .running ∨
      next.held .responder = stream.held .responder ∧
        .spudOpen ∉ (stream.flight .initiator).map Letter.cmd) := by
    by_cases opens : cmd = .spudOpen
    · subst opens
      obtain ⟨absent, _⟩ := flowing.asked (by
        rw [first, List.map_cons, command]
        exact List.mem_cons_self)
      rw [absent] at own commands
      rw [commands]
      exact ⟨by decide, .inl own⟩
    · obtain ⟨silent, hearing⟩ := hear_later true (stream.held .responder) opens
      rw [commands, silent]
      refine ⟨nofun, ?_⟩
      have unasked : .spudOpen ∉ (stream.flight .initiator).map Letter.cmd := by
        intro asks
        obtain ⟨_, _, _, _, other, _, same, asks, _⟩ := flowing.asked asks
        rw [first] at same
        cases same
        exact opens (command.symm.trans asks)
      cases hearing with
      | passed same => exact .inr ⟨own.trans same, unasked⟩
      | told _ _ same => exact .inl (own.trans same)
      | acked _ _ running => exact .inl (own.trans running)
      | hungUp close => exact absurd (close ▸ List.mem_cons_self) unclosed
  obtain ⟨quiet, state⟩ := state
  constructor
  · rintro (_ | _)
    · rw [coming]
      exact fun closes => unclosed (List.mem_cons_of_mem _ closes)
    · rw [flight, List.map_append]
      exact fun closes => (List.mem_append.mp closes).elim (joined.unclosed .responder) quiet
  · rw [peerHeld]
    exact fun absent => absurd absent met
  · rw [peerHeld]
    exact joined.known
  · rw [peerHeld]
    intro opening
    rcases state with running | ⟨same, unasked⟩
    · exact .inr running
    · rw [same]
      exact .inr ((joined.opening opening).resolve_left unasked)
  · rw [peerHeld]
    intro runs
    rcases state with running | ⟨same, _⟩
    · exact running
    · rw [same]
      exact joined.running runs

theorem Joined.turn (joined : stream.Joined) (flowing : stream.Flowing)
    (may : stream.May party cue) {luck : Luck} (full : cue ≠ .said → luck = .full)
    (keeps : cue ≠ .closed ∧ cue ≠ .removed) {responds : Bool}
    (answers : party = .responder → responds = true)
    (turn : stream.Turn party cue (luck.react responds (stream.held party) cue) next) :
    next.Joined := by
  cases cue with
  | heard cmd =>
    obtain rfl := full nofun
    obtain ⟨letter, rest, first, rfl⟩ := may
    cases party with
    | initiator => exact joined.answered flowing first rfl turn
    | responder =>
      obtain rfl := answers rfl
      exact joined.welcomed flowing first rfl turn
  | opened =>
    obtain rfl := full nofun
    obtain ⟨rfl, undrawn⟩ := may
    rw [(flowing.untouched undrawn .initiator).1] at turn
    exact Joined.opened flowing undrawn turn
  | said => exact joined.speaks may turn
  | closed => exact absurd rfl keeps.1
  | removed => exact absurd rfl keeps.2

end Stream

end SpudLib
