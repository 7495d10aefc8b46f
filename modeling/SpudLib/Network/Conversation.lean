import SpudLib.Network.Parties

/-!
# One tube between two parties

Over channels that keep the order, what the parties hold under one identifier
and what they have sent about it tell how the tube will end.  While a `CLOSE` is
on its way the two sides may differ; with nothing on its way they agree.
-/

namespace SpudLib

/-- What the parties hold under an identifier, the commands about it that each has sent and
the other has not heard, and whether the identifier has been drawn. -/
structure Conversation where
  held : Party → Option TubeState
  flight : Party → List SpudCommand
  drawn : Bool

namespace Conversation

/-- What a party can be told: it opens a tube once, it closes and removes the tube it holds
but does not remove a tube that is opening, and it hears what comes first. -/
def May (talk : Conversation) (party : Party) : Cue → Prop
  | .heard cmd => ∃ rest, talk.flight party.peer = cmd :: rest
  | .opened => party = .initiator ∧ talk.drawn = false
  | .said => False
  | .closed => talk.held party ≠ none
  | .removed => talk.held party ≠ none ∧ talk.held party ≠ some .opening

def coming (talk : Conversation) (party : Party) : Cue → List SpudCommand
  | .heard _ => (talk.flight party.peer).tail
  | _ => talk.flight party.peer

structure Turn (talk : Conversation) (party : Party) (cue : Cue) (reply : Reply)
    (next : Conversation) : Prop where
  own : next.held party = reply.held
  peer : next.held party.peer = talk.held party.peer
  sent : next.flight party = talk.flight party ++ reply.sent
  coming : next.flight party.peer = talk.coming party cue
  drawn : cue ≠ .opened → next.drawn = talk.drawn

structure Sound (talk : Conversation) : Prop where
  untouched : talk.drawn = false → ∀ party, talk.held party = none ∧ talk.flight party = []
  proper : .spudOpen ∉ talk.flight .responder ∧ talk.held .responder ≠ some .opening
  asked : .spudOpen ∈ talk.flight .initiator →
    talk.held .responder = none ∧ talk.flight .responder = [] ∧
      ∃ rest, talk.flight .initiator = .spudOpen :: rest ∧ .spudOpen ∉ rest ∧
        (talk.held .initiator = some .opening ∨ .spudClose ∈ rest)
  opening : talk.held .initiator = some .opening → .spudClose ∉ talk.flight .initiator ∧
    (talk.held .responder = none ∧ talk.flight .responder = [] ∨
      ∃ rest, talk.flight .responder = .spudAck :: rest ∧
        (talk.held .responder = some .running ∨ .spudClose ∈ rest))
  running : talk.held .initiator = some .running →
    .spudClose ∉ talk.flight .initiator ∧ .spudOpen ∉ talk.flight .initiator ∧
      (talk.held .responder = some .running ∨ .spudClose ∈ talk.flight .responder)
  served : talk.held .responder = some .running → .spudClose ∉ talk.flight .responder ∧
    (talk.held .initiator = some .running ∨ talk.held .initiator = some .opening ∨
      .spudClose ∈ talk.flight .initiator)

variable {talk next : Conversation} {cue : Cue} {reply : Reply}

/-- With nothing on its way both sides run or neither does. -/
theorem Sound.agree (sound : talk.Sound) (quiet : ∀ party, talk.flight party = []) :
    talk.held .initiator = some .running ↔ talk.held .responder = some .running := by
  constructor
  · intro running
    rcases (sound.running running).2.2 with served | closing
    · exact served
    · rw [quiet] at closing
      cases closing
  · intro served
    rcases (sound.served served).2 with running | opening | closing
    · exact running
    · rcases (sound.opening opening).2 with ⟨missing, _⟩ | ⟨rest, acked, _⟩
      · rw [missing] at served
        cases served
      · rw [quiet] at acked
        cases acked
    · rw [quiet] at closing
      cases closing

theorem Sound.drawn (sound : talk.Sound) (held : next.held = talk.held)
    (flight : next.flight = talk.flight) (drawn : talk.drawn = true → next.drawn = true) :
    next.Sound := by
  obtain ⟨untouched, proper, asked, opening, running, served⟩ := sound
  rw [← held, ← flight] at *
  refine ⟨?_, proper, asked, opening, running, served⟩
  intro undrawn
  apply untouched
  rw [← Bool.not_eq_true]
  intro known
  rw [drawn known] at undrawn
  cases undrawn

theorem Turn.still {party : Party} (turn : talk.Turn party cue reply next)
    (calls : ∀ cmd, cue ≠ .heard cmd) : next.flight party.peer = talk.flight party.peer := by
  rw [turn.coming]
  cases cue with
  | heard cmd => exact absurd rfl (calls cmd)
  | opened => rfl
  | said => rfl
  | closed => rfl
  | removed => rfl

def Parts (held : Option TubeState) (reply : Reply) : Prop :=
  (reply.held = none ∨ reply.held = some .unknown) ∧
    (reply.sent = [.spudClose] ∨
      reply.sent = [] ∧ held ≠ some .opening ∧ held ≠ some .running)

theorem Parts.sent {held : Option TubeState} (parts : Parts held reply) :
    reply.sent ⊆ [.spudClose] := by
  rcases parts.2 with sent | ⟨sent, _⟩
  · rw [sent]
    exact List.Subset.refl _
  · rw [sent]
    exact List.nil_subset _

theorem Parts.held {held : Option TubeState} (parts : Parts held reply) :
    reply.held ≠ some .opening ∧ reply.held ≠ some .running := by
  rcases parts.1 with same | same
  · rw [same]
    exact ⟨nofun, nofun⟩
  · rw [same]
    exact ⟨nofun, nofun⟩

theorem heard_cases (responds : Bool) (held : Option TubeState) {cmd : SpudCommand}
    (later : cmd ≠ .spudOpen) : (Luck.full.hear responds held cmd).sent = [] ∧
      ((Luck.full.hear responds held cmd).held = held ∧ ¬ (held = some .opening ∧ cmd = .spudAck) ∧
          (cmd = .spudClose → held = none ∨ held = some .unknown) ∨
        held = some .opening ∧ cmd = .spudAck ∧
          (Luck.full.hear responds held cmd).held = some .running ∨
        cmd = .spudClose ∧ (Luck.full.hear responds held cmd).held = none) := by
  cases held with
  | none => cases responds <;> cases cmd <;> simp [Luck.hear] at later ⊢
  | some state =>
    cases state <;> cases cmd <;> simp [Luck.hear, Environment.acts, Luck.full] at later ⊢

theorem Sound.drawn_of_flight (sound : talk.Sound) {party : Party} {cmd : SpudCommand}
    {rest : List SpudCommand} (first : talk.flight party = cmd :: rest) : talk.drawn = true := by
  rw [← Bool.not_eq_false]
  intro undrawn
  rw [(sound.untouched undrawn party).2] at first
  cases first

section Initiator

theorem Sound.opened (sound : talk.Sound) (undrawn : talk.drawn = false)
    (turn : talk.Turn .initiator .opened ⟨some .opening, [.spudOpen], [.add]⟩ next)
    (drawn : next.drawn = true) : next.Sound := by
  obtain ⟨missing, nothing⟩ := sound.untouched undrawn .responder
  have first : next.flight .initiator = [.spudOpen] :=
    turn.sent.trans (congrArg (· ++ _) (sound.untouched undrawn .initiator).2)
  have silent : next.flight .responder = [] := turn.coming.trans nothing
  have absent : next.held .responder = none := turn.peer.trans missing
  constructor
  · rw [drawn]
    nofun
  · rw [silent, absent]
    exact ⟨nofun, nofun⟩
  · intro _
    exact ⟨absent, silent, [], first, nofun, .inl turn.own⟩
  · intro _
    rw [first]
    exact ⟨by decide, .inl ⟨absent, silent⟩⟩
  · rw [turn.own]
    nofun
  · rw [absent]
    nofun

theorem Sound.abandoned (sound : talk.Sound) (turn : talk.Turn .initiator cue reply next)
    (calls : ∀ cmd, cue ≠ .heard cmd) (unopened : cue ≠ .opened)
    (held : talk.held .initiator ≠ none) (parts : Parts (talk.held .initiator) reply) :
    next.Sound := by
  have absent : next.held .responder = talk.held .responder := turn.peer
  have silent : next.flight .responder = talk.flight .responder := turn.still calls
  constructor
  · intro undrawn
    rw [turn.drawn unopened] at undrawn
    exact absurd (sound.untouched undrawn .initiator).1 held
  · rw [silent, absent]
    exact sound.proper
  · intro opens
    rw [turn.sent] at opens ⊢
    have before : .spudOpen ∈ talk.flight .initiator := by
      rcases List.mem_append.mp opens with before | now
      · exact before
      · exact absurd (List.mem_singleton.mp (parts.sent now)) (by decide)
    obtain ⟨missing, nothing, rest, first, once, closing⟩ := sound.asked before
    refine ⟨absent.trans missing, silent.trans nothing, rest ++ reply.sent, ?_, ?_, .inr ?_⟩
    · rw [first]
      rfl
    · intro again
      rcases List.mem_append.mp again with again | now
      · exact once again
      · exact absurd (List.mem_singleton.mp (parts.sent now)) (by decide)
    · rcases parts.2 with sent | ⟨_, unopening, still⟩
      · rw [sent]
        exact List.mem_append_right _ (List.mem_singleton.mpr rfl)
      · rcases closing with opening | closing
        · exact absurd opening unopening
        · exact List.mem_append_left _ closing
  · intro opening
    rw [turn.own] at opening
    exact absurd opening parts.held.1
  · intro running
    rw [turn.own] at running
    exact absurd running parts.held.2
  · intro serves
    rw [absent] at serves
    obtain ⟨unshut, partner⟩ := sound.served serves
    rw [silent]
    refine ⟨unshut, .inr (.inr ?_)⟩
    rw [turn.sent]
    rcases parts.2 with sent | ⟨_, unopening, still⟩
    · rw [sent]
      exact List.mem_append_right _ (List.mem_singleton.mpr rfl)
    · rcases partner with running | opening | closing
      · exact absurd running still
      · exact absurd opening unopening
      · exact List.mem_append_left _ closing

theorem Sound.answered (sound : talk.Sound) {cmd : SpudCommand} {rest : List SpudCommand}
    (first : talk.flight .responder = cmd :: rest) {responds : Bool}
    (turn : talk.Turn .initiator (.heard cmd)
      (Luck.full.hear responds (talk.held .initiator) cmd) next) : next.Sound := by
  have absent : next.held .responder = talk.held .responder := turn.peer
  have coming : next.flight .responder = rest :=
    turn.coming.trans (congrArg List.tail first)
  have later : cmd ≠ .spudOpen := by
    rintro rfl
    apply sound.proper.1
    rw [first]
    exact List.mem_cons_self
  have unasked : .spudOpen ∉ talk.flight .initiator := by
    intro opens
    rw [(sound.asked opens).2.1] at first
    cases first
  obtain ⟨silent, cases⟩ := heard_cases responds (talk.held .initiator) later
  have sent : next.flight .initiator = talk.flight .initiator := by
    rw [turn.sent, silent, List.append_nil]
  have own := turn.own
  have drawn : next.drawn = true := (turn.drawn nofun).trans (sound.drawn_of_flight first)
  constructor
  · rw [drawn]
    nofun
  · rw [coming, absent]
    refine ⟨?_, sound.proper.2⟩
    intro opens
    apply sound.proper.1
    rw [first]
    exact List.mem_cons_of_mem _ opens
  · rw [sent]
    exact fun opens => absurd opens unasked
  · intro opening
    rw [own] at opening
    rcases cases with ⟨same, notAcked, _⟩ | ⟨_, _, running⟩ | ⟨_, missing⟩
    · rw [same] at opening
      rcases (sound.opening opening).2 with ⟨_, nothing⟩ | ⟨_, acked, _⟩
      · rw [nothing] at first
        cases first
      · rw [acked] at first
        cases first
        exact absurd ⟨opening, rfl⟩ notAcked
    · rw [running] at opening
      cases opening
    · rw [missing] at opening
      cases opening
  · intro running
    rw [own] at running
    rw [sent, absent, coming]
    rcases cases with ⟨same, _, shut⟩ | ⟨opening, rfl, _⟩ | ⟨_, missing⟩
    · rw [same] at running
      obtain ⟨unshut, _, served | closing⟩ := sound.running running
      · exact ⟨unshut, unasked, .inl served⟩
      · rw [first] at closing
        rcases List.mem_cons.mp closing with now | closing
        · rw [running] at shut
          rcases shut now.symm with none | unknown
          · cases none
          · cases unknown
        · exact ⟨unshut, unasked, .inr closing⟩
    · obtain ⟨unshut, ⟨_, nothing⟩ | ⟨_, acked, served⟩⟩ := sound.opening opening
      · rw [nothing] at first
        cases first
      · rw [acked] at first
        cases first
        exact ⟨unshut, unasked, served⟩
    · rw [missing] at running
      cases running
  · intro serves
    rw [absent] at serves
    obtain ⟨unshut, partner⟩ := sound.served serves
    rw [first] at unshut
    rw [coming, own, sent]
    refine ⟨fun closing => unshut (List.mem_cons_of_mem _ closing), ?_⟩
    rcases cases with ⟨same, _, _⟩ | ⟨_, _, running⟩ | ⟨rfl, _⟩
    · rw [same]
      exact partner
    · exact .inl running
    · exact absurd List.mem_cons_self unshut

end Initiator

section Responder

theorem Sound.dismissed (sound : talk.Sound) (turn : talk.Turn .responder cue reply next)
    (calls : ∀ cmd, cue ≠ .heard cmd) (unopened : cue ≠ .opened)
    (held : talk.held .responder ≠ none) (parts : Parts (talk.held .responder) reply) :
    next.Sound := by
  have absent : next.held .initiator = talk.held .initiator := turn.peer
  have silent : next.flight .initiator = talk.flight .initiator := turn.still calls
  have unshut : .spudOpen ∉ next.flight .responder := by
    rw [turn.sent]
    intro opens
    rcases List.mem_append.mp opens with before | now
    · exact sound.proper.1 before
    · exact absurd (List.mem_singleton.mp (parts.sent now)) (by decide)
  constructor
  · intro undrawn
    rw [turn.drawn unopened] at undrawn
    exact absurd (sound.untouched undrawn .responder).1 held
  · rw [turn.own]
    exact ⟨unshut, parts.held.1⟩
  · rw [silent]
    exact fun opens => absurd (sound.asked opens).1 held
  · intro opening
    rw [absent] at opening
    rw [silent, turn.sent]
    obtain ⟨unshut, ⟨missing, _⟩ | ⟨rest, acked, served⟩⟩ := sound.opening opening
    · exact absurd missing held
    · refine ⟨unshut, .inr ⟨rest ++ reply.sent, ?_, .inr ?_⟩⟩
      · rw [acked]
        rfl
      · rcases parts.2 with sent | ⟨_, unopening, still⟩
        · rw [sent]
          exact List.mem_append_right _ (List.mem_singleton.mpr rfl)
        · rcases served with serves | closing
          · exact absurd serves still
          · exact List.mem_append_left _ closing
  · intro running
    rw [absent] at running
    rw [silent, turn.sent]
    obtain ⟨unshut, unasked, served⟩ := sound.running running
    refine ⟨unshut, unasked, .inr ?_⟩
    rcases parts.2 with sent | ⟨_, unopening, still⟩
    · rw [sent]
      exact List.mem_append_right _ (List.mem_singleton.mpr rfl)
    · rcases served with serves | closing
      · exact absurd serves still
      · exact List.mem_append_left _ closing
  · intro serves
    rw [turn.own] at serves
    exact absurd serves parts.held.2

theorem Sound.welcomed (sound : talk.Sound) {rest : List SpudCommand}
    (first : talk.flight .initiator = .spudOpen :: rest) {responds : Bool}
    (turn : talk.Turn .responder (.heard .spudOpen)
      (Luck.full.hear responds (talk.held .responder) .spudOpen) next) : next.Sound := by
  have absent : next.held .initiator = talk.held .initiator := turn.peer
  have coming : next.flight .initiator = rest := turn.coming.trans (congrArg List.tail first)
  have drawn : next.drawn = true := (turn.drawn nofun).trans (sound.drawn_of_flight first)
  obtain ⟨missing, nothing, others, same, once, partner⟩ :=
    sound.asked (first ▸ List.mem_cons_self)
  obtain rfl : others = rest := List.tail_eq_of_cons_eq (same.symm.trans first)
  have own := turn.own
  have sent := turn.sent
  rw [missing] at own sent
  rw [nothing, List.nil_append] at sent
  have unrun : talk.held .initiator ≠ some .running := by
    intro running
    apply (sound.running running).2.1
    rw [first]
    exact List.mem_cons_self
  have unshut : talk.held .initiator = some .opening → .spudClose ∉ others := by
    intro opening closing
    apply (sound.opening opening).1
    rw [first]
    exact List.mem_cons_of_mem _ closing
  constructor
  · rw [drawn]
    nofun
  · rw [own, sent]
    cases responds with
    | false => exact ⟨nofun, nofun⟩
    | true => exact ⟨by decide, nofun⟩
  · rw [coming]
    exact fun again => absurd again once
  · rw [absent, coming, own, sent]
    intro opening
    refine ⟨unshut opening, ?_⟩
    cases responds with
    | false => exact .inl ⟨rfl, rfl⟩
    | true => exact .inr ⟨[], rfl, .inl rfl⟩
  · rw [absent]
    exact fun running => absurd running unrun
  · rw [absent, coming, own, sent]
    intro serves
    cases responds with
    | false => cases serves
    | true => exact ⟨by decide, .inr partner⟩

theorem Sound.obeyed (sound : talk.Sound) {cmd : SpudCommand} {rest : List SpudCommand}
    (first : talk.flight .initiator = cmd :: rest) (later : cmd ≠ .spudOpen) {responds : Bool}
    (turn : talk.Turn .responder (.heard cmd)
      (Luck.full.hear responds (talk.held .responder) cmd) next) : next.Sound := by
  have absent : next.held .initiator = talk.held .initiator := turn.peer
  have coming : next.flight .initiator = rest := turn.coming.trans (congrArg List.tail first)
  have drawn : next.drawn = true := (turn.drawn nofun).trans (sound.drawn_of_flight first)
  have unasked : .spudOpen ∉ talk.flight .initiator := by
    intro opens
    obtain ⟨_, _, _, same, _⟩ := sound.asked opens
    exact later (List.head_eq_of_cons_eq (first.symm.trans same))
  obtain ⟨silent, cases⟩ := heard_cases responds (talk.held .responder) later
  have sent : next.flight .responder = talk.flight .responder := by
    rw [turn.sent, silent, List.append_nil]
  have own := turn.own
  have fewer : ∀ other, other ∉ talk.flight .initiator → other ∉ rest := by
    rw [first]
    exact fun other missing member => missing (List.mem_cons_of_mem _ member)
  -- a command that is obeyed is a `CLOSE`, and the initiator is done with the tube
  have left : cmd = .spudClose → talk.held .initiator ≠ some .opening ∧
      talk.held .initiator ≠ some .running := by
    rintro rfl
    have closing : .spudClose ∈ talk.flight .initiator := first ▸ List.mem_cons_self
    exact ⟨fun opening => (sound.opening opening).1 closing,
      fun running => (sound.running running).1 closing⟩
  have kept : cmd ≠ .spudClose → next.held .responder = talk.held .responder := by
    intro unshut
    rcases cases with ⟨same, _⟩ | ⟨opening, _⟩ | ⟨shut, _⟩
    · exact own.trans same
    · exact absurd opening sound.proper.2
    · exact absurd shut unshut
  constructor
  · rw [drawn]
    nofun
  · rw [sent]
    refine ⟨sound.proper.1, ?_⟩
    by_cases shut : cmd = .spudClose
    · rcases cases with ⟨same, _⟩ | ⟨opening, _⟩ | ⟨_, missing⟩
      · rw [own, same]
        exact sound.proper.2
      · exact absurd opening sound.proper.2
      · rw [own, missing]
        nofun
    · rw [kept shut]
      exact sound.proper.2
  · rw [coming]
    exact fun opens => absurd opens (fewer _ unasked)
  · intro opening
    rw [absent] at opening
    rw [coming, sent, kept fun shut => (left shut).1 opening]
    exact ⟨fewer _ (sound.opening opening).1, (sound.opening opening).2⟩
  · intro running
    rw [absent] at running
    rw [coming, sent, kept fun shut => (left shut).2 running]
    obtain ⟨unshut, _, served⟩ := sound.running running
    exact ⟨fewer _ unshut, fewer _ unasked, served⟩
  · intro serves
    have before : talk.held .responder = some .running ∧ cmd ≠ .spudClose := by
      rw [own] at serves
      rcases cases with ⟨same, _, shut⟩ | ⟨opening, _⟩ | ⟨_, missing⟩
      · rw [same] at serves
        refine ⟨serves, ?_⟩
        intro now
        rw [serves] at shut
        rcases shut now with none | unknown
        · cases none
        · cases unknown
      · exact absurd opening sound.proper.2
      · rw [missing] at serves
        cases serves
    obtain ⟨unshut, partner⟩ := sound.served before.1
    rw [sent, absent, coming]
    refine ⟨unshut, ?_⟩
    rw [first] at partner
    rcases partner with running | opening | closing
    · exact .inl running
    · exact .inr (.inl opening)
    · rcases List.mem_cons.mp closing with now | closing
      · exact absurd now.symm before.2
      · exact .inr (.inr closing)

end Responder

theorem parts_closed (responds : Bool) (held : Option TubeState) :
    Parts held (Luck.full.react responds held .closed) := ⟨.inr rfl, .inl rfl⟩

theorem parts_removed (responds : Bool) {held : Option TubeState}
    (unopening : held ≠ some .opening) : Parts held (Luck.full.react responds held .removed) := by
  refine ⟨.inl rfl, ?_⟩
  by_cases running : held = some .running
  · exact .inl (if_pos running)
  · exact .inr ⟨if_neg running, unopening, running⟩

/-- A turn that a party may take keeps what holds between the parties. -/
theorem Sound.turn (sound : talk.Sound) {party : Party} {responds : Bool}
    (may : talk.May party cue)
    (turn : talk.Turn party cue (Luck.full.react responds (talk.held party) cue) next)
    (drawn : cue = .opened → next.drawn = true) : next.Sound := by
  cases party with
  | initiator =>
    cases cue with
    | heard cmd =>
      obtain ⟨rest, first⟩ := may
      exact sound.answered first turn
    | opened =>
      have missing := (sound.untouched may.2 .initiator).1
      rw [missing] at turn
      exact sound.opened may.2 turn (drawn rfl)
    | said => exact may.elim
    | closed => exact sound.abandoned turn nofun nofun may (parts_closed responds _)
    | removed => exact sound.abandoned turn nofun nofun may.1 (parts_removed responds may.2)
  | responder =>
    cases cue with
    | heard cmd =>
      obtain ⟨rest, first⟩ := may
      by_cases opens : cmd = .spudOpen
      · subst opens
        exact sound.welcomed first turn
      · exact sound.obeyed first opens turn
    | opened => exact absurd may.1 nofun
    | said => exact may.elim
    | closed => exact sound.dismissed turn nofun nofun may (parts_closed responds _)
    | removed => exact sound.dismissed turn nofun nofun may.1 (parts_removed responds may.2)

end Conversation

end SpudLib
