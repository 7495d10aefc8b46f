import SpudLib.Network.Streaming

/-!
# Data in full

When nothing is lost or refused, each step is a turn of the stream under one
identifier.  What is heard is a beginning of what was said, and a tube that
nobody closes runs on both sides in the end, with everything said and heard.
-/

namespace SpudLib

open TubeManager

namespace Streams

section Turns

variable {library : CborLibrary} {streams next start last : Streams} {party : Party} {call : Act}
  {id name : SpudTubeId} {move : Move} {moves : List Move}

theorem letters_of_posted {datagrams : List Datagram} {sent : List SpudCommand}
    (posted : List.Forall₂ (fun (datagram : Datagram) cmd => Carries id cmd datagram.bytes)
      datagrams sent)
    (legible : ∀ datagram ∈ datagrams, letterFor library id datagram ≠ none) :
    (datagrams.filterMap (letterFor library id)).map Letter.cmd = sent ∧
      ∀ name, name ≠ id → datagrams.filterMap (letterFor library name) = [] := by
  induction posted with
  | nil => exact ⟨rfl, fun _ _ => rfl⟩
  | @cons datagram cmd datagrams sent carries _ inductionHypothesis =>
    obtain ⟨own, others⟩ := inductionHypothesis fun other member =>
      legible other (List.mem_cons_of_mem _ member)
    obtain ⟨letter, known⟩ :=
      Option.ne_none_iff_exists'.mp (legible datagram List.mem_cons_self)
    constructor
    · rw [List.filterMap_cons_some known, List.map_cons, own,
        (letterFor_of_carries carries known).2]
    · intro name different
      rw [List.filterMap_cons_none, others name different]
      rw [← Option.not_isSome_iff_eq_none]
      intro some
      obtain ⟨letter, known⟩ := Option.isSome_iff_exists.mp some
      exact different (letterFor_of_carries carries known).1

theorem legible_controls {datagrams : List Datagram} {sent : List SpudCommand}
    (posted : List.Forall₂ (fun (datagram : Datagram) cmd => Carries id cmd datagram.bytes)
      datagrams sent) (controls : .spudData ∉ sent) :
    ∀ datagram ∈ datagrams, letterFor library id datagram ≠ none := by
  induction posted with
  | nil => exact fun _ => nofun
  | @cons datagram cmd datagrams sent carries _ inductionHypothesis =>
    obtain ⟨control, controls⟩ := List.ne_and_not_mem_of_not_mem_cons controls
    intro other member
    rcases List.mem_cons.mp member with rfl | member
    · obtain ⟨rest, bytes, bare⟩ := carries
      rw [bare (Ne.symm control), List.append_nil] at bytes
      rw [letterFor_bare bytes]
      nofun
    · exact inductionHypothesis controls other member

theorem sends_letters (lawful : library.Lawful) {mgr after : TubeManager} (tracked : mgr.Tracked)
    (may : mgr.MayAct call)
    (whole : ∀ env t bytes, call = .data env t bytes → bytes.length ≤ 1482 ∨ 1496 ≤ bytes.length)
    (sized : ∀ env t bytes, call = .data env t bytes → bytes.length < 2 ^ 64)
    (acted : mgr.act library call = .ok after) {cue : Cue} {reply : Reply}
    (cues : mgr.Cues library id call cue) (reaction : Reaction (mgr.held id) cue reply)
    (reacts : mgr.Reacts after id reply) :
    ((mgr.posted after).filterMap (letterFor library id)).map Letter.cmd = reply.sent ∧
      (∀ name, spoken ((mgr.posted after).filterMap (letterFor library name)) =
        (saying library mgr name call).map dataTree) ∧
      ∀ name, name ≠ id → (mgr.posted after).filterMap (letterFor library name) = [] := by
  have others : (∀ env t bytes, call ≠ .data env t bytes) →
      ((mgr.posted after).filterMap (letterFor library id)).map Letter.cmd = reply.sent ∧
      (∀ name, spoken ((mgr.posted after).filterMap (letterFor library name)) = []) ∧
      ∀ name, name ≠ id → (mgr.posted after).filterMap (letterFor library name) = [] := by
    intro others
    have mute : cue ≠ .said := by
      rintro rfl
      cases cues.cued with
      | said => exact others _ _ _ rfl
    obtain ⟨own, elsewhere⟩ := letters_of_posted reacts.posted
      (legible_controls reacts.posted (Wired.sends_controls reaction mute))
    exact ⟨own, fun _ => spoken_others tracked may acted others, elsewhere⟩
  cases call with
  | data env t bytes =>
    rcases data_posted lawful tracked may (sized env t bytes rfl) acted with
      ⟨posted, silent⟩ | ⟨other, datagram, posted, short, content, spoke⟩
    · have sent := reacts.posted
      rw [posted] at sent ⊢
      refine ⟨(List.forall₂_nil_left_iff.mp sent).symm, ?_, fun _ _ => rfl⟩
      intro name
      rw [silent]
      rfl
    · have fits : bytes.length ≤ 1482 :=
        (whole env t bytes rfl).resolve_right (Nat.not_le.mpr short)
      have known := @letterFor_data library other datagram lawful bytes (by omega) content fits
      have posts := reacts.posted
      obtain ⟨cmd, _, carries⟩ := reacts.carries (posted ▸ List.mem_singleton.mpr rfl)
      obtain ⟨rfl, _⟩ := letterFor_of_carries carries known
      rw [posted] at posts ⊢
      obtain ⟨own, elsewhere⟩ := letters_of_posted posts (by
        rintro _ (_ | ⟨_, ⟨⟩⟩)
        rw [known]
        nofun)
      refine ⟨own, ?_, elsewhere⟩
      intro name
      rw [spoke]
      by_cases here : name = other
      · rw [here, List.filterMap_cons_some known, if_pos rfl]
        rfl
      · rw [elsewhere name here, if_neg here]
        rfl
  | openTube env dest => exact others fun _ _ _ => nofun
  | close env t => exact others fun _ _ _ => nofun
  | remove env t => exact others fun _ _ _ => nofun
  | receive env hasErr received => exact others fun _ _ _ => nofun

/-- What comes in about the identifier of the cue, and about others. -/
theorem coming_letters (may : streams.MayAct party call) {cue : Cue}
    (cues : (streams.wired.pair.mgr party).Cues library id call cue) :
    (∀ name, (streams.wired.coming party call).filterMap (letterFor library name) =
        if name = id then (streams.stream library id).coming party cue
        else (streams.wired.flight party.peer).filterMap (letterFor library name)) ∧
      ∀ cmd, cue = .heard cmd → ∃ env hasErr received msg letter rest,
        call = .receive env hasErr received ∧ spudParse library received.buf = .ok msg ∧
        msg.header.tubeId = id ∧ (streams.stream library id).flight party.peer = letter :: rest ∧
        letter.cmd = cmd ∧ letter.data = msg.cbor := by
  have calls : streams.wired.coming party call = streams.wired.flight party.peer →
      (streams.stream library id).coming party cue =
        (streams.wired.flight party.peer).filterMap (letterFor library id) →
      ∀ name, (streams.wired.coming party call).filterMap (letterFor library name) =
        if name = id then (streams.stream library id).coming party cue
        else (streams.wired.flight party.peer).filterMap (letterFor library name) := by
    intro still deaf name
    rw [still]
    split_ifs with here
    · rw [here, deaf]
    · rfl
  cases cues.cued with
  | @heard env hasErr received msg cmd parsed own command =>
    subst own command
    obtain ⟨datagram, rest, first, bytes⟩ := may.first env hasErr received rfl
    have known := fun name => @letterFor_received library name _ _ _ bytes parsed
    have mine := known msg.header.tubeId
    rw [if_pos rfl] at mine
    have flight : (streams.stream library msg.header.tubeId).flight party.peer =
        ⟨SpudCommand.ofFlags msg.header.flags, msg.cbor⟩ ::
          rest.filterMap (letterFor library msg.header.tubeId) :=
      (congrArg (List.filterMap _) first).trans (List.filterMap_cons_some mine)
    constructor
    · intro name
      rw [Wired.coming, first, List.tail_cons]
      split_ifs with here
      · rw [here]
        exact (congrArg List.tail flight).symm
      · have other := known name
        rw [if_neg fun same => here same.symm] at other
        rw [List.filterMap_cons_none other]
    · rintro _ ⟨⟩
      exact ⟨env, hasErr, received, msg, _, _, rfl, parsed, rfl, flight, rfl, rfl⟩
  | opened => exact ⟨calls rfl rfl, fun _ same => by cases same⟩
  | said => exact ⟨calls rfl rfl, fun _ same => by cases same⟩
  | closed => exact ⟨calls rfl rfl, fun _ same => by cases same⟩
  | removed => exact ⟨calls rfl rfl, fun _ same => by cases same⟩

theorem handed_letters (tracked : streams.wired.pair.Tracked) (may : streams.MayAct party call)
    (succeeds : call.env.Succeeds) {after : TubeManager}
    (acted : (streams.wired.pair.mgr party).act library call = .ok after) {cue : Cue}
    {reply : Reply} (cues : (streams.wired.pair.mgr party).Cues library id call cue)
    (reaction : Reaction ((streams.wired.pair.mgr party).held id) cue reply)
    (reacts : (streams.wired.pair.mgr party).Reacts after id reply) (name : SpudTubeId) :
    (streams.wired.pair.mgr party).handed after name =
      if name = id then (streams.stream library id).handed party reply else [] := by
  by_cases told : name = id ∧ .data ∈ reply.events
  · obtain ⟨rfl, data⟩ := told
    obtain ⟨running, rfl⟩ := reaction.hands data
    obtain ⟨env, hasErr, received, msg, letter, rest, rfl, parsed, rfl, first, command, content⟩ :=
      (coming_letters may cues).2 .spudData rfl
    obtain ⟨find, tracks⟩ := tracked party
    obtain ⟨⟨verdict, last⟩, returned, same⟩ := Exec.bind_eq_ok.mp acted
    cases same
    have heard : SpudCommand.ofFlags msg.header.flags = .spudData := by
      obtain ⟨other, again, _, same⟩ := cues
      rw [parsed] at again
      cases again
      exact same
    rw [tubeManagerLoopBody_hands tracks parsed heard running returned,
      if_pos (show env.granted (.moment .data) = true from succeeds.granted _), if_pos rfl,
      Stream.handed, if_pos data, first, ← content]
    rfl
  · rw [reacts.handed_nil fun same data => told ⟨same, data⟩]
    split_ifs with here
    · rw [Stream.handed, if_neg fun data => told ⟨here, data⟩]
    · rfl

theorem rests_of_eq (performed : streams.perform library (.acts party call) = .ok next)
    (held : (next.wired.pair.mgr party).held name = (streams.wired.pair.mgr party).held name)
    (posted : ((streams.wired.pair.mgr party).posted (next.wired.pair.mgr party)).filterMap
      (letterFor library name) = [])
    (coming : (streams.wired.coming party call).filterMap (letterFor library name) =
      (streams.wired.flight party.peer).filterMap (letterFor library name))
    (mute : saying library (streams.wired.pair.mgr party) name call = [])
    (deaf : (streams.wired.pair.mgr party).handed (next.wired.pair.mgr party) name = []) :
    (streams.stream library name).Rests (next.stream library name) := by
  obtain ⟨moved, said, unsaid, heard, unheard⟩ := perform_acts performed
  obtain ⟨_, absent, sent, comes, drawn⟩ := Wired.perform_eq moved
  have both : ∀ {Holds : Party → Prop}, Holds party → Holds party.peer → ∀ other, Holds other := by
    intro Holds mine theirs
    cases party <;> rintro (_ | _) <;> assumption
  refine ⟨funext (both held ?_), funext (both ?_ ?_), funext (both ?_ ?_), funext (both ?_ ?_), ?_⟩
  · exact congrArg (fun mgr : TubeManager => mgr.held name) absent
  · change (next.wired.flight party).filterMap _ = _
    rw [sent, List.filterMap_append, posted, List.append_nil]
    rfl
  · exact (congrArg (List.filterMap _) comes).trans coming
  · change (next.said party name).map dataTree = _
    rw [said, mute, List.append_nil]
    rfl
  · exact congrArg (List.map dataTree) (unsaid name)
  · change next.heard party name = _
    rw [heard, deaf, List.append_nil]
    rfl
  · exact unheard name
  · intro known
    refine decide_eq_true ?_
    rw [drawn]
    exact List.mem_append_left _ (of_decide_eq_true known)

theorem rests_of_reorder {flight : List Datagram}
    (same : flight.filterMap (letterFor library name) =
      (streams.wired.flight party).filterMap (letterFor library name)) :
    (streams.stream library name).Rests ((streams.carrying party flight).stream library name) := by
  refine ⟨rfl, funext fun other => ?_, rfl, rfl, id⟩
  change (Function.update streams.wired.flight party flight other).filterMap _ = _
  rw [Function.update_apply]
  split_ifs with here
  · rw [here]
    exact same
  · rfl

/-- A cue is one that the stream allows, or the tube is dead. -/
theorem may_of_cues (may : streams.MayAct party call) (obliges : streams.Obliges party call)
    {after : TubeManager} (acted : (streams.wired.pair.mgr party).act library call = .ok after)
    {cue : Cue} (cues : (streams.wired.pair.mgr party).Cues library id call cue)
    (live : cue = .said → (streams.wired.pair.mgr party).held id ≠ none) :
    (streams.stream library id).May party cue := by
  cases cue with
  | heard cmd =>
    obtain ⟨_, _, _, _, letter, rest, _, _, _, first, command, _⟩ :=
      (coming_letters may cues).2 cmd rfl
    exact ⟨letter, rest, first, command⟩
  | opened =>
    cases cues.cued with
    | opened drawn =>
      exact ⟨obliges.initiator _ _ rfl, decide_eq_false (obliges.fresh _ _ id rfl drawn)⟩
  | said => exact live rfl
  | closed =>
    cases cues.cued with
    | closed stored => exact Wired.held_of_live stored (Wired.live_of_close acted)
  | removed =>
    cases cues.cued with
    | removed stored => exact Wired.held_of_live stored (Wired.live_of_remove acted)

/-- A move is a reaction in which everything succeeds, or nothing comes of a call or a datagram. -/
theorem acts_cases (tracked : streams.wired.pair.Tracked) (may : streams.MayAct party call)
    (obliges : streams.Obliges party call) {after : TubeManager}
    (acted : (streams.wired.pair.mgr party).act library call = .ok after) :
    (streams.wired.pair.mgr party).Rests after ∧
        (∀ name, (streams.wired.coming party call).filterMap (letterFor library name) =
          (streams.wired.flight party.peer).filterMap (letterFor library name)) ∨
      ∃ id cue, ∃ luck : Luck, (streams.wired.pair.mgr party).Cues library id call cue ∧
        (cue ≠ .said → luck = .full) ∧
        (streams.wired.pair.mgr party).Reacts after id
          (luck.react (streams.wired.pair.mgr party).tubeManagerIsResponder
            ((streams.wired.pair.mgr party).held id) cue) := by
  let mgr := streams.wired.pair.mgr party
  have others : mgr.Rests after ∨ ∃ id cue, ∃ luck : Luck, mgr.Cues library id call cue ∧
      (cue ≠ .said → luck = .full) ∧
      mgr.Reacts after id (luck.react mgr.tubeManagerIsResponder (mgr.held id) cue) := by
    rcases (tracked party).act may.acts acted with rests | ⟨id, cue, luck, cues, fits, _, reacts⟩
    · exact .inl rests
    · exact .inr ⟨id, cue, luck, cues, fun mute => fits mute obliges.succeeds obliges.roomy, reacts⟩
  cases call with
  | receive env hasErr received =>
    obtain ⟨find, tracks⟩ := tracked party
    obtain ⟨datagram, rest, first, bytes⟩ := may.first env hasErr received rfl
    obtain ⟨⟨verdict, last⟩, returned, same⟩ := Exec.bind_eq_ok.mp acted
    cases same
    have reacts := tubeManagerLoopBody_reacts tracks may.acts returned
    cases parsed : spudParse library received.buf with
    | error reason =>
      rw [parsed] at reacts
      refine .inl ⟨reacts.2, fun name => ?_⟩
      have unread : letterFor library name datagram = none :=
        @letterFor_of_rejected library name datagram reason (bytes ▸ parsed)
      rw [Wired.coming, first, List.tail_cons, List.filterMap_cons_none unread]
    | ok msg =>
      rw [parsed] at reacts
      obtain ⟨luck, fits, _, _, reacts⟩ := reacts
      exact .inr ⟨msg.header.tubeId, .heard (SpudCommand.ofFlags msg.header.flags), luck,
        ⟨msg, parsed, rfl, rfl⟩, fun _ => fits obliges.succeeds obliges.roomy, reacts⟩
  | openTube env dest => exact others.imp_left fun rests => ⟨rests, fun _ => rfl⟩
  | data env t bytes => exact others.imp_left fun rests => ⟨rests, fun _ => rfl⟩
  | close env t => exact others.imp_left fun rests => ⟨rests, fun _ => rfl⟩
  | remove env t => exact others.imp_left fun rests => ⟨rests, fun _ => rfl⟩

theorem held_of_posted {mgr after : TubeManager} (cues : mgr.Cues library id call .said)
    (acted : mgr.act library call = .ok after) (dead : mgr.held id = none) : after = mgr := by
  cases cues.cued with
  | said stored =>
    obtain ⟨⟨answer, last⟩, returned, same⟩ := Exec.bind_eq_ok.mp acted
    cases same
    rw [Wired.held_of_lookup stored, Option.map_eq_none_iff] at dead
    exact returned_tubeData_dead dead returned

theorem saying_nil (lawful : library.Lawful) {mgr after : TubeManager} (tracked : mgr.Tracked)
    (may : mgr.MayAct call)
    (sized : ∀ env t bytes, call = .data env t bytes → bytes.length < 2 ^ 64)
    (acted : mgr.act library call = .ok after) (unsent : mgr.posted after = []) :
    saying library mgr name call = [] := by
  cases call with
  | data env t bytes =>
    rcases data_posted lawful tracked may (sized env t bytes rfl) acted with
      ⟨_, silent⟩ | ⟨_, datagram, posted, _⟩
    · exact silent name
    · rw [unsent] at posted
      cases posted
  | openTube env dest => rfl
  | close env t => rfl
  | remove env t => rfl
  | receive env hasErr received => rfl

/-- A step is a turn of the stream under one identifier, and nothing happens under the others. -/
theorem acts_turn (lawful : library.Lawful) (tracked : streams.wired.pair.Tracked)
    (may : streams.MayAct party call) (obliges : streams.Obliges party call)
    (performed : streams.perform library (.acts party call) = .ok next) :
    (∀ name, (streams.stream library name).Rests (next.stream library name)) ∨
      ∃ id cue, ∃ luck : Luck, (streams.wired.pair.mgr party).Cues library id call cue ∧
        (cue ≠ .said → luck = .full) ∧ (streams.stream library id).May party cue ∧
        (streams.stream library id).Turn party cue
          (luck.react (streams.wired.pair.mgr party).tubeManagerIsResponder
            ((streams.stream library id).held party) cue) (next.stream library id) ∧
        (cue = .opened → (next.stream library id).drawn = true) ∧
        ∀ name, name ≠ id → (streams.stream library name).Rests (next.stream library name) := by
  obtain ⟨moved, said, unsaid, heard, unheard⟩ := perform_acts performed
  obtain ⟨acted, absent, sent, comes, drawn⟩ := Wired.perform_eq moved
  have unsaying := fun name => @saying_nil library call name lawful _ _ (tracked party) may.acts
    may.sized acted
  rcases acts_cases tracked may obliges acted with
    ⟨⟨_, still⟩, waiting⟩ | ⟨id, cue, luck, cues, full, reacts⟩
  · have unsent : (streams.wired.pair.mgr party).posted (next.wired.pair.mgr party) = [] :=
      List.forall₂_nil_right_iff.mp (still ⟨fun _ => 0⟩).posted
    refine .inl fun name => rests_of_eq performed (still name).own ?_ (waiting name)
      (unsaying name unsent) ((still name).handed_nil fun _ => nofun)
    rw [unsent]
    rfl
  · by_cases dead : cue = .said ∧ (streams.wired.pair.mgr party).held id = none
    · obtain ⟨rfl, dead⟩ := dead
      have same := held_of_posted cues acted dead
      have unsent : (streams.wired.pair.mgr party).posted (next.wired.pair.mgr party) = [] := by
        rw [same]
        exact posted_of_trace (List.append_nil _).symm
      have waiting := (coming_letters may cues).1
      refine .inl fun name => rests_of_eq performed (by rw [same]) ?_ ?_ (unsaying name unsent)
        (reacts.handed_nil fun _ => nofun)
      · rw [unsent]
        rfl
      · rw [waiting name]
        split_ifs with here
        · rw [here]
          rfl
        · rfl
    · have reaction := luck.reaction (streams.wired.pair.mgr party).tubeManagerIsResponder
        ((streams.wired.pair.mgr party).held id) cue
      obtain ⟨commands, spoke, elsewhere⟩ := sends_letters lawful (tracked party) may.acts
        obliges.whole may.sized acted cues reaction reacts
      have waiting := (coming_letters may cues).1
      have handed := handed_letters tracked may obliges.succeeds acted cues reaction reacts
      refine .inr ⟨id, cue, luck, cues, full,
        may_of_cues may obliges acted cues fun said lost => dead ⟨said, lost⟩, ?_, ?_, ?_⟩
      · refine ⟨reacts.own, congrArg (fun mgr : TubeManager => mgr.held id) absent,
          ⟨_, commands, ?_, ?_⟩, ?_, congrArg (List.map dataTree) (unsaid id), ?_, unheard id, ?_⟩
        · exact (congrArg (List.filterMap (letterFor library id)) sent).trans List.filterMap_append
        · refine (congrArg (List.map dataTree) (said id)).trans ?_
          rw [List.map_append, spoke]
          rfl
        · refine (congrArg (List.filterMap (letterFor library id)) comes).trans ?_
          rw [waiting, if_pos rfl]
        · refine (heard id).trans ?_
          rw [handed, if_pos rfl]
          rfl
        · intro unopened
          have quiet : Wired.drawing call = [] := Wired.drawing_nil cues unopened
          have same : next.wired.drawn = streams.wired.drawn := by
            rw [drawn, quiet, List.append_nil]
          exact congrArg (fun drawn => decide (id ∈ drawn)) same
      · rintro rfl
        refine decide_eq_true ?_
        rw [drawn]
        exact List.mem_append_right _ (Wired.mem_drawing cues)
      · intro name different
        have silent := spoke name
        rw [elsewhere name different] at silent
        refine rests_of_eq performed (reacts.others name different) (elsewhere name different) ?_
          (List.map_eq_nil_iff.mp silent.symm) ?_
        · rw [waiting, if_neg different]
        · rw [handed, if_neg different]

end Turns

section Runs

variable {library : CborLibrary} {streams next start last : Streams} {move : Move}
  {moves : List Move} {id : SpudTubeId}

structure Flows (library : CborLibrary) (streams : Streams) : Prop where
  tracked : streams.wired.pair.Tracked
  flowing : ∀ id, (streams.stream library id).Flowing

theorem Flows.step (flows : streams.Flows library) (lawful : library.Lawful)
    (enabled : ((system library).restrict Reliable).Enabled streams move)
    (stepped : (system library).step streams move = .ok next) : next.Flows library := by
  cases move with
  | loses party position => exact False.elim enabled.2
  | reorders party flight =>
    cases stepped
    exact ⟨flows.tracked, fun id => (flows.flowing id).rests (rests_of_reorder (enabled.1.2 id))⟩
  | acts party call =>
    obtain ⟨may, obliges⟩ := enabled
    refine ⟨tracked_next flows.tracked may (perform_acts stepped).1, fun name => ?_⟩
    rcases acts_turn lawful flows.tracked may obliges stepped with
      rests | ⟨own, cue, luck, _, full, mayTurn, turn, drawn, others⟩
    · exact (flows.flowing name).rests (rests name)
    · by_cases here : name = own
      · exact here ▸ (flows.flowing own).turn mayTurn full turn drawn
      · exact (flows.flowing name).rests (others name here)

theorem IsNew.stream (new : start.IsNew) (id : SpudTubeId) (party : Party) :
    (start.stream library id).held party = none ∧ (start.stream library id).flight party = [] ∧
      (start.stream library id).said party = [] ∧ (start.stream library id).heard party = [] := by
  obtain ⟨⟨pair, nothing, _⟩, mute, deaf⟩ := new
  exact ⟨(pair party).held id, congrArg (List.filterMap (letterFor library id)) (nothing party),
    congrArg (List.map dataTree) (mute party id), deaf party id⟩

theorem IsNew.flows (new : start.IsNew) : start.Flows library := by
  refine ⟨new.1.1.tracked, fun id => ?_⟩
  obtain ⟨absent, unsent, unsaid, unheard⟩ := @IsNew.stream library start new id .responder
  obtain ⟨unopened, unasked, _⟩ := @IsNew.stream library start new id .initiator
  constructor
  · exact fun _ party => new.stream id party
  · rw [absent, unsent]
    exact ⟨nofun, nofun⟩
  · rw [unasked]
    nofun
  · rw [unopened]
    nofun
  · intro party
    constructor
    · rw [(new.stream id party.peer).2.2.2]
      exact List.nil_prefix
    · rw [(new.stream id party.peer).1]
      nofun

/-- When nothing is lost or refused, what a party has heard under an identifier is a beginning of
what the other has said, and while its tube runs, the rest is on its way. -/
theorem run_delivers (library : CborLibrary) (lawful : library.Lawful) (start last : Streams)
    (moves : List Move) (new : start.IsNew)
    (run : ((system library).restrict Reliable).Run start moves last) (party : Party)
    (id : SpudTubeId) :
    last.heard party.peer id <+: (last.said party id).map dataTree ∧
      ((last.wired.pair.mgr party.peer).held id = some .running →
        (last.said party id).map dataTree = last.heard party.peer id ++
          spoken ((last.wired.flight party).filterMap (letterFor library id))) := by
  have flows := run.preserves (Flows library)
    (fun _ _ _ flows enabled stepped => flows.step lawful enabled stepped) new.flows
  obtain ⟨ordered, complete⟩ := (flows.flowing id).lane party
  exact ⟨ordered, complete⟩

def opening : List Scene :=
  [.asks 7, .arrives .responder, .arrives .initiator, .speaks .initiator 7 0 [1]]

theorem run_delivers_half : ∃ last : Streams, last.said .initiator ⟨fun _ => 7⟩ = [[1], [2]] ∧
    last.heard .responder ⟨fun _ => 7⟩ <+: [[1], [2]].map dataTree ∧
    [[1], [2]].map dataTree = last.heard .responder ⟨fun _ => 7⟩ ++
      spoken ((last.wired.flight .initiator).filterMap (letterFor minimalCbor ⟨fun _ => 7⟩)) ∧
    (last.heard .responder ⟨fun _ => 7⟩).length = 1 := by
  obtain ⟨last, played, seen⟩ := Option.map_eq_some_iff.mp
    (show (strangers.rehearse (opening ++ [.speaks .initiator 7 0 [2], .arrives .responder])).map
      (fun last => (last.said .initiator ⟨fun _ => 7⟩,
        (last.wired.pair.mgr .responder).held ⟨fun _ => 7⟩,
        (last.heard .responder ⟨fun _ => 7⟩).length)) = some ([[1], [2]], some .running, 1)
      by decide +kernel)
  obtain ⟨said, seen⟩ := Prod.mk.inj seen
  obtain ⟨running, heard⟩ := Prod.mk.inj seen
  obtain ⟨moves, run⟩ := run_of_rehearse played ⟨fun _ => 7⟩
  obtain ⟨ordered, complete⟩ := run_delivers minimalCbor minimalCbor_lawful strangers last moves
    strangers_isNew run.unrestricted .initiator ⟨fun _ => 7⟩
  have rest := complete running
  rw [said] at ordered rest
  exact ⟨last, said, ordered, rest, heard⟩

theorem Flows.step_joined (flows : streams.Flows library) (lawful : library.Lawful)
    (joined : (streams.stream library id).Joined)
    (enabled : (((system library).restrict Reliable).restrict (Keeps id)).Enabled streams move)
    (stepped : (system library).step streams move = .ok next) :
    (next.stream library id).Joined := by
  cases move with
  | loses party position => exact False.elim enabled.1.2
  | reorders party flight =>
    cases stepped
    exact joined.rests (rests_of_reorder (enabled.1.1.2 id))
  | acts party call =>
    obtain ⟨⟨may, obliges⟩, answers, keeps⟩ := enabled
    rcases acts_turn lawful flows.tracked may obliges stepped with
      rests | ⟨own, cue, luck, cues, full, mayTurn, turn, _, others⟩
    · exact joined.rests (rests id)
    · by_cases here : id = own
      · subst here
        refine joined.turn (flows.flowing id) mayTurn full ⟨?_, ?_⟩ ?_ turn
        · rintro rfl
          cases cues.cued with
          | closed stored => exact keeps _ _ (.inl rfl) stored
        · rintro rfl
          cases cues.cued with
          | removed stored => exact keeps _ _ (.inr rfl) stored
        · rintro rfl
          exact answers
      · exact joined.rests (others id here)

/-- When the responder answers and nobody closes or removes the tube, it runs on both sides once
everything has arrived, and each side has heard all that the other has said. -/
theorem run_connects (library : CborLibrary) (lawful : library.Lawful) (start last : Streams)
    (moves : List Move) (id : SpudTubeId) (new : start.IsNew)
    (run : (((system library).restrict Reliable).restrict (Keeps id)).Run start moves last)
    (quiet : ∀ party, last.wired.flight party = [])
    (held : (last.wired.pair.mgr .initiator).held id ≠ none) (party : Party) :
    (last.wired.pair.mgr party).held id = some .running ∧
      last.heard party id = (last.said party.peer id).map dataTree := by
  have unjoined : (start.stream library id).Joined := by
    obtain ⟨absent, _⟩ := @IsNew.stream library start new id .responder
    obtain ⟨unopened, _⟩ := @IsNew.stream library start new id .initiator
    constructor
    · intro other
      rw [(new.stream id other).2.1]
      nofun
    · exact fun _ => ⟨absent, fun other => (new.stream id other).2.1⟩
    · rw [unopened]
      exact fun _ => nofun
    · rw [unopened]
      nofun
    · rw [unopened]
      nofun
  obtain ⟨flows, joined⟩ := run.preserves
    (fun streams => streams.Flows library ∧ (streams.stream library id).Joined) (by
      rintro streams move next ⟨flows, joined⟩ enabled stepped
      exact ⟨flows.step lawful enabled.1 stepped, flows.step_joined lawful joined enabled stepped⟩)
    ⟨new.flows, unjoined⟩
  exact joined.settled (flows.flowing id) held
    (fun other => congrArg (List.filterMap (letterFor library id)) (quiet other)) party

theorem run_connects_heard : ∃ last : Streams, last.said .initiator ⟨fun _ => 7⟩ = [[1]] ∧
    (last.wired.pair.mgr .responder).held ⟨fun _ => 7⟩ = some .running ∧
    last.heard .responder ⟨fun _ => 7⟩ = [[1]].map dataTree := by
  obtain ⟨last, played, seen⟩ := Option.map_eq_some_iff.mp
    (show (strangers.rehearse (opening ++ [.arrives .responder])).map (fun last =>
        (last.said .initiator ⟨fun _ => 7⟩, last.wired.waiting .initiator,
          last.wired.waiting .responder,
          decide ((last.wired.pair.mgr .initiator).held ⟨fun _ => 7⟩ = none))) =
      some ([[1]], [], [], false) by decide +kernel)
  obtain ⟨said, seen⟩ := Prod.mk.inj seen
  obtain ⟨asked, seen⟩ := Prod.mk.inj seen
  obtain ⟨answered, held⟩ := Prod.mk.inj seen
  obtain ⟨moves, run⟩ := run_of_rehearse played ⟨fun _ => 7⟩
  obtain ⟨running, heard⟩ := run_connects minimalCbor minimalCbor_lawful strangers last moves
    ⟨fun _ => 7⟩ strangers_isNew run (Wired.quiet_of_waiting asked answered)
    (of_decide_eq_false held) .responder
  exact ⟨last, said, running, said ▸ heard⟩

end Runs

end Streams

end SpudLib
