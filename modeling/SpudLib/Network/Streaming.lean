import SpudLib.Network.HalfOpen
import SpudLib.Network.Speech

/-!
# Data in order

Two parties between whom the datagrams of each tube keep their order.  Whatever
is lost or refused, a party hears some of what the other has said, in the order
in which it was said.  When nothing is lost it hears a beginning of it, and all
of it in the end.
-/

namespace SpudLib

open TubeManager

/-- Two parties, and what each has said and heard under each identifier. -/
structure Streams where
  wired : Wired
  said : Party → SpudTubeId → List (List UInt8)
  heard : Party → SpudTubeId → List (Option Cbor)

namespace Streams

/-- A party acts, or a datagram that it has sent is lost, or those on their way overtake one
another. -/
inductive Move where
  | acts (party : Party) (call : Act)
  | loses (party : Party) (position : Nat)
  | reorders (party : Party) (flight : List Datagram)

def carrying (streams : Streams) (party : Party) (flight : List Datagram) : Streams :=
  { streams with wired := { streams.wired with
    flight := Function.update streams.wired.flight party flight } }

def perform (library : CborLibrary) (streams : Streams) : Move → Exec Streams
  | .acts party call => do
      let wired ← streams.wired.perform library (party, call)
      let mgr := streams.wired.pair.mgr party
      pure {
        wired := wired
        said := Function.update streams.said party fun id =>
          streams.said party id ++ saying library mgr id call
        heard := Function.update streams.heard party fun id =>
          streams.heard party id ++ mgr.handed (wired.pair.mgr party) id }
  | .loses party position =>
      .ok (streams.carrying party ((streams.wired.flight party).eraseIdx position))
  | .reorders party flight => .ok (streams.carrying party flight)

/-- What is received is what is first on its way; the length of data fits a `size_t`. -/
structure MayAct (streams : Streams) (party : Party) (call : Act) : Prop where
  acts : (streams.wired.pair.mgr party).MayAct call
  sized : ∀ env t bytes, call = .data env t bytes → bytes.length < 2 ^ 64
  first : ∀ env hasErr received, call = .receive env hasErr received → ∃ datagram rest,
    streams.wired.flight party.peer = datagram :: rest ∧ received.bytes = datagram.bytes

/-- What is about one tube keeps its order. -/
def MayMove (library : CborLibrary) (streams : Streams) : Move → Prop
  | .acts party call => streams.MayAct party call
  | .loses _ _ => True
  | .reorders party flight => flight.Perm (streams.wired.flight party) ∧ ∀ id,
      flight.filterMap (letterFor library id) =
        (streams.wired.flight party).filterMap (letterFor library id)

def system (library : CborLibrary) : System Streams Move where
  Enabled := MayMove library
  step := perform library

/-- Only the initiator opens tubes, each under an identifier of its own; every allocation and send
succeeds, and no data is cut off. -/
structure Obliges (streams : Streams) (party : Party) (call : Act) : Prop where
  initiator : ∀ env dest, call = .openTube env dest → party = .initiator
  succeeds : call.env.Succeeds
  roomy : (streams.wired.pair.mgr party).table.Roomy
  whole : ∀ env t bytes, call = .data env t bytes → bytes.length ≤ 1482 ∨ 1496 ≤ bytes.length
  fresh : ∀ env dest id, call = .openTube env dest → env.randomId = some id →
    id ∉ streams.wired.drawn

def Reliable (streams : Streams) : Move → Prop
  | .acts party call => streams.Obliges party call
  | .loses _ _ => False
  | .reorders _ _ => True

/-- The responder answers, and no tube with the identifier is closed or removed. -/
def Keeps (id : SpudTubeId) (streams : Streams) : Move → Prop
  | .acts party call =>
      (streams.wired.pair.mgr .responder).tubeManagerIsResponder = true ∧
      ∀ env t, call = .close env t ∨ call = .remove env t →
        (streams.wired.pair.mgr party).lookup id ≠ .ok (some t)
  | _ => True

def IsNew (streams : Streams) : Prop :=
  streams.wired.IsNew ∧ (∀ party id, streams.said party id = []) ∧
    ∀ party id, streams.heard party id = []

def stream (library : CborLibrary) (streams : Streams) (id : SpudTubeId) :
    Stream (Option Cbor) where
  held party := (streams.wired.pair.mgr party).held id
  flight party := (streams.wired.flight party).filterMap (letterFor library id)
  said party := (streams.said party id).map dataTree
  heard party := streams.heard party id
  drawn := decide (id ∈ streams.wired.drawn)

section Posting

variable {library : CborLibrary} {mgr after : TubeManager} {id name : SpudTubeId} {call : Act}

theorem spoken_controls {datagrams : List Datagram} {sent : List SpudCommand}
    (posted : List.Forall₂ (fun (datagram : Datagram) cmd => Carries id cmd datagram.bytes)
      datagrams sent) (controls : .spudData ∉ sent) :
    spoken (datagrams.filterMap (letterFor library name)) = [] := by
  refine List.eq_nil_iff_forall_not_mem.mpr fun data member => ?_
  obtain ⟨letter, inside, speaks⟩ := List.mem_filterMap.mp member
  obtain ⟨datagram, among, known⟩ := List.mem_filterMap.mp inside
  obtain ⟨cmd, commanded, carries⟩ : ∃ cmd ∈ sent, Carries id cmd datagram.bytes := by
    clear member inside controls
    induction posted with
    | nil => cases among
    | cons carries _ inductionHypothesis =>
      rcases List.mem_cons.mp among with rfl | among
      · exact ⟨_, List.mem_cons_self, carries⟩
      · obtain ⟨cmd, commanded, carries⟩ := inductionHypothesis among
        exact ⟨cmd, List.mem_cons_of_mem _ commanded, carries⟩
  obtain ⟨_, same⟩ := letterFor_of_carries carries known
  split_ifs at speaks with data
  rw [same] at data
  exact controls (data ▸ commanded)

theorem spoken_others (tracked : mgr.Tracked) (may : mgr.MayAct call)
    (acted : mgr.act library call = .ok after) (others : ∀ env t bytes, call ≠ .data env t bytes) :
    spoken ((mgr.posted after).filterMap (letterFor library name)) = [] := by
  rcases tracked.act may acted with ⟨_, still⟩ | ⟨id, cue, luck, cues, _, _, reacts⟩
  · rw [List.forall₂_nil_right_iff.mp (still name).posted]
    rfl
  · refine spoken_controls reacts.posted (Wired.sends_controls (luck.reaction _ _ _) ?_)
    rintro rfl
    cases cues.cued with
    | said => exact others _ _ _ rfl

theorem data_posted (lawful : library.Lawful) (tracked : mgr.Tracked) {env : Environment} {t : Nat}
    {bytes : List UInt8} (may : mgr.InTable t) (small : bytes.length < 2 ^ 64)
    (acted : mgr.act library (.data env t bytes) = .ok after) :
    mgr.posted after = [] ∧ (∀ name, saying library mgr name (.data env t bytes) = []) ∨
      ∃ id datagram, mgr.posted after = [datagram] ∧ bytes.length < 1496 ∧
        datagram.bytes = (sentHeader id .spudData false false).bytes ++
          (dataTree bytes).elim [] library.encoding ∧
        ∀ name, saying library mgr name (.data env t bytes) =
          if name = id then [bytes] else [] := by
  obtain ⟨find, tracks⟩ := tracked
  obtain ⟨⟨answer, last⟩, returned, same⟩ := Exec.bind_eq_ok.mp acted
  cases same
  rcases returned_tubeData lawful small returned with
    ⟨rfl, posted⟩ | ⟨rfl, cell, datagram, found, posted, content, short⟩
  · refine .inl ⟨posted, fun name => if_neg ?_⟩
    rw [returned]
    exact fun speaks => absurd speaks.2 (by simp [Except.toOption])
  · refine .inr ⟨cell.id, datagram, posted, short, content, fun name => ?_⟩
    have answered : ((tubeData env library t bytes).straight mgr).toOption.map Prod.fst =
        some true := by
      rw [returned]
      rfl
    rw [saying, answered, tracks.lookup]
    obtain ⟨id, stored, _⟩ := tracks.inTable may
    have own := tracks.own stored found
    refine if_congr ⟨?_, ?_⟩ rfl rfl
    · intro speaks
      exact (tracks.own (Option.some.inj speaks.1) found).symm
    · rintro rfl
      exact ⟨congrArg some (own ▸ stored), rfl⟩

/-- A datagram with data is a letter with it, or it is cut off. -/
theorem letterFor_said {datagram : Datagram} {data : List UInt8}
    (bytes : datagram.bytes = (sentHeader id .spudData false false).bytes ++
      (dataTree data).elim [] library.encoding) (lawful : library.Lawful)
    (small : data.length < 1496) :
    letterFor library id datagram = none ∨
      letterFor library id datagram = some ⟨.spudData, dataTree data⟩ := by
  by_cases fits : data.length ≤ 1482
  · exact .inr (letterFor_data lawful (by omega) bytes fits)
  · have filled : data ≠ [] := by
      rintro rfl
      exact fits (Nat.zero_le _)
    rw [dataTree, if_neg filled] at bytes
    have long : maxBufLen < spudHeaderSize + (Cbor.ofData data).size := by
      rw [Cbor.size_ofData]
      unfold Cbor.headSize maxBufLen spudHeaderSize
      split_ifs <;> omega
    obtain ⟨reason, rejected⟩ := @parse_cut library (arrival datagram.bytes) _ lawful
      (Cbor.ofData_representable (by omega)) _ bytes long
    exact .inl (letterFor_of_rejected rejected)

/-- What is said in letters has been said by the application. -/
theorem spoken_posted (lawful : library.Lawful) (tracked : mgr.Tracked) (may : mgr.MayAct call)
    (sized : ∀ env t bytes, call = .data env t bytes → bytes.length < 2 ^ 64)
    (acted : mgr.act library call = .ok after) :
    (spoken ((mgr.posted after).filterMap (letterFor library name))).Sublist
      ((saying library mgr name call).map dataTree) := by
  have others : (∀ env t bytes, call ≠ .data env t bytes) →
      (spoken ((mgr.posted after).filterMap (letterFor library name))).Sublist
        ((saying library mgr name call).map dataTree) := by
    intro others
    rw [spoken_others tracked may acted others]
    exact List.nil_sublist _
  cases call with
  | data env t bytes =>
    rcases data_posted lawful tracked may (sized env t bytes rfl) acted with
      ⟨posted, _⟩ | ⟨id, datagram, posted, small, content, speaks⟩
    · rw [posted]
      exact List.nil_sublist _
    · rw [posted, speaks]
      cases known : letterFor library name datagram with
      | none =>
        rw [List.filterMap_cons_none known]
        exact List.nil_sublist _
      | some letter =>
        have carries : Carries id .spudData datagram.bytes :=
          ⟨_, content, fun control => absurd rfl control⟩
        obtain ⟨rfl, _⟩ := letterFor_of_carries carries known
        rcases letterFor_said content lawful small with cut | whole
        · rw [known] at cut
          cases cut
        · rw [known] at whole
          rw [List.filterMap_cons_some known, Option.some.inj whole, if_pos rfl]
          exact List.Sublist.refl _
  | openTube env dest => exact others fun _ _ _ => nofun
  | close env t => exact others fun _ _ _ => nofun
  | remove env t => exact others fun _ _ _ => nofun
  | receive env hasErr received => exact others fun _ _ _ => nofun

end Posting

section Steps

variable {library : CborLibrary} {streams next start last : Streams} {party : Party} {call : Act}
  {id name : SpudTubeId} {move : Move} {moves : List Move}

theorem perform_acts (performed : streams.perform library (.acts party call) = .ok next) :
    streams.wired.perform library (party, call) = .ok next.wired ∧
      (∀ id, next.said party id = streams.said party id ++
        saying library (streams.wired.pair.mgr party) id call) ∧
      (∀ id, next.said party.peer id = streams.said party.peer id) ∧
      (∀ id, next.heard party id = streams.heard party id ++
        (streams.wired.pair.mgr party).handed (next.wired.pair.mgr party) id) ∧
      ∀ id, next.heard party.peer id = streams.heard party.peer id := by
  obtain ⟨wired, moved, same⟩ := Exec.bind_eq_ok.mp performed
  cases same
  have apart : party.peer ≠ party := by
    cases party <;> nofun
  refine ⟨moved, fun id => ?_, fun id => ?_, fun id => ?_, fun id => ?_⟩
  · simp only [Function.update_self]
  · simp only [Function.update_of_ne apart]
  · simp only [Function.update_self]
  · simp only [Function.update_of_ne apart]

theorem handed_calls {mgr after : TubeManager} (tracked : mgr.Tracked) (may : mgr.MayAct call)
    (acted : mgr.act library call = .ok after)
    (calls : ∀ env hasErr received, call ≠ .receive env hasErr received) :
    mgr.handed after name = [] := by
  rcases tracked.act may acted with ⟨_, still⟩ | ⟨id, cue, luck, cues, _, _, reacts⟩
  · exact (still name).handed_nil fun _ => nofun
  · refine reacts.handed_nil fun _ data => ?_
    obtain ⟨_, rfl⟩ := (luck.reaction _ _ _).hands data
    cases cues.cued with
    | heard => exact calls _ _ _ rfl

theorem letterFor_received {datagram : Datagram} {received : Reception} {msg : SpudMessage}
    (bytes : received.bytes = datagram.bytes) (parsed : spudParse library received.buf = .ok msg) :
    letterFor library name datagram = if msg.header.tubeId = name then
      some ⟨SpudCommand.ofFlags msg.header.flags, msg.cbor⟩ else none := by
  refine letterFor_of_parsed ?_
  rw [← bytes]
  exact parsed

/-- What is handed over was on its way, before everything that still is. -/
theorem handed_coming (tracked : streams.wired.pair.Tracked) (may : streams.MayAct party call)
    {after : TubeManager} (acted : (streams.wired.pair.mgr party).act library call = .ok after) :
    ((streams.wired.pair.mgr party).handed after name ++
        spoken ((streams.wired.coming party call).filterMap (letterFor library name))).Sublist
      (spoken ((streams.wired.flight party.peer).filterMap (letterFor library name))) := by
  have calls : (∀ env hasErr received, call ≠ .receive env hasErr received) →
      streams.wired.coming party call = streams.wired.flight party.peer →
      ((streams.wired.pair.mgr party).handed after name ++
          spoken ((streams.wired.coming party call).filterMap (letterFor library name))).Sublist
        (spoken ((streams.wired.flight party.peer).filterMap (letterFor library name))) := by
    intro calls still
    rw [handed_calls (tracked party) may.acts acted calls, still, List.nil_append]
  cases call with
  | openTube env dest => exact calls (fun _ _ _ => nofun) rfl
  | data env t bytes => exact calls (fun _ _ _ => nofun) rfl
  | close env t => exact calls (fun _ _ _ => nofun) rfl
  | remove env t => exact calls (fun _ _ _ => nofun) rfl
  | receive env hasErr received =>
    obtain ⟨find, tracks⟩ := tracked party
    obtain ⟨datagram, rest, first, bytes⟩ := may.first env hasErr received rfl
    obtain ⟨⟨verdict, last⟩, returned, same⟩ := Exec.bind_eq_ok.mp acted
    cases same
    have fewer : (spoken (rest.filterMap (letterFor library name))).Sublist
        (spoken ((datagram :: rest).filterMap (letterFor library name))) :=
      ((List.sublist_cons_self datagram rest).filterMap _).filterMap _
    rw [Wired.coming, first, List.tail_cons]
    rcases tubeManagerLoopBody_handed tracks may.acts returned name with
      nothing | ⟨msg, parsed, own, command, handed⟩
    · rw [nothing]
      exact fewer
    · have known := @letterFor_received library name _ _ _ bytes parsed
      rw [if_pos own, command] at known
      rw [handed, List.filterMap_cons_some known, spoken_data rfl]
      exact List.Sublist.refl _

/-- What holds whatever is lost: what has been heard, and then what is on its way, is some of what
has been said. -/
structure Ordered (library : CborLibrary) (streams : Streams) : Prop where
  tracked : streams.wired.pair.Tracked
  ordered : ∀ party id, (streams.heard party.peer id ++
      spoken ((streams.wired.flight party).filterMap (letterFor library id))).Sublist
    ((streams.said party id).map dataTree)

theorem tracked_next (tracked : streams.wired.pair.Tracked) (may : streams.MayAct party call)
    (performed : streams.wired.perform library (party, call) = .ok next.wired) :
    next.wired.pair.Tracked := by
  obtain ⟨acted, absent, _⟩ := Wired.perform_eq performed
  have mine : (next.wired.pair.mgr party).Tracked := by
    rcases (tracked party).act may.acts acted with ⟨mine, _⟩ | ⟨_, _, _, _, _, mine, _⟩
    · exact mine
    · exact mine
  have theirs : (next.wired.pair.mgr party.peer).Tracked := by
    rw [absent]
    exact tracked _
  cases party <;> rintro (_ | _) <;> assumption

/-- It does not matter what is lost, or what overtakes the datagrams of another tube. -/
theorem Ordered.carrying (ordered : streams.Ordered library) {flight : List Datagram}
    (fewer : ∀ id, (flight.filterMap (letterFor library id)).Sublist
      ((streams.wired.flight party).filterMap (letterFor library id))) :
    (streams.carrying party flight).Ordered library := by
  refine ⟨ordered.tracked, fun other id => ?_⟩
  refine .trans (List.Sublist.append_left (List.Sublist.filterMap _ ?_) _)
    (ordered.ordered other id)
  simp only [Streams.carrying, Function.update_apply]
  split_ifs with here
  · rw [here]
    exact fewer id
  · exact List.Sublist.refl _

theorem Ordered.step (ordered : streams.Ordered library) (lawful : library.Lawful)
    (enabled : (system library).Enabled streams move)
    (stepped : (system library).step streams move = .ok next) : next.Ordered library := by
  cases move with
  | loses party position =>
    cases stepped
    exact ordered.carrying fun id => (List.eraseIdx_sublist _ _).filterMap _
  | reorders party flight =>
    cases stepped
    exact ordered.carrying fun id => (enabled.2 id).symm ▸ List.Sublist.refl _
  | acts party call =>
    obtain ⟨moved, said, unsaid, heard, unheard⟩ := perform_acts stepped
    obtain ⟨acted, _, sent, coming, _⟩ := Wired.perform_eq moved
    refine ⟨tracked_next ordered.tracked enabled moved, ?_⟩
    have mine : ∀ id, (next.heard party.peer id ++
        spoken ((next.wired.flight party).filterMap (letterFor library id))).Sublist
          ((next.said party id).map dataTree) := by
      intro id
      rw [unheard, said, sent, List.filterMap_append, spoken_append, List.map_append,
        ← List.append_assoc]
      exact (ordered.ordered party id).append
        (spoken_posted lawful (ordered.tracked party) enabled.acts enabled.sized acted)
    have theirs : ∀ id, (next.heard party id ++
        spoken ((next.wired.flight party.peer).filterMap (letterFor library id))).Sublist
          ((next.said party.peer id).map dataTree) := by
      intro id
      have before := ordered.ordered party.peer id
      rw [Stream.Party.peer_peer] at before
      rw [heard, unsaid, coming, List.append_assoc]
      exact (List.Sublist.append_left (handed_coming ordered.tracked enabled acted) _).trans before
    cases party <;> rintro (_ | _) <;> assumption

theorem IsNew.ordered (new : start.IsNew) : start.Ordered library := by
  obtain ⟨⟨pair, nothing, _⟩, mute, deaf⟩ := new
  refine ⟨pair.tracked, fun party id => ?_⟩
  rw [deaf, mute, nothing]
  exact List.Sublist.refl _

/-- Whatever is lost and whatever memory is refused, what a party hears under an identifier is
some of what the other has said under it, in the order in which it was said. -/
theorem run_keeps_order (library : CborLibrary) (lawful : library.Lawful) (start last : Streams)
    (moves : List Move) (new : start.IsNew) (run : (system library).Run start moves last)
    (party : Party) (id : SpudTubeId) :
    (last.heard party.peer id).Sublist ((last.said party id).map dataTree) := by
  have ordered := run.preserves (Ordered library)
    (fun _ _ _ ordered enabled stepped => ordered.step lawful enabled stepped) new.ordered
  exact (List.sublist_append_left _ _).trans (ordered.ordered party id)

end Steps

section Rehearsals

def strangers : Streams := ⟨Wired.strangers, fun _ _ => [], fun _ _ => []⟩

theorem strangers_isNew : strangers.IsNew :=
  ⟨Wired.strangers_isNew, fun _ _ => rfl, fun _ _ => rfl⟩

/-- A tube is opened under a name of one byte, what comes first arrives, or data is sent. -/
inductive Scene where
  | asks (name : UInt8)
  | arrives (party : Party)
  | speaks (party : Party) (name : UInt8) (t : Nat) (bytes : List UInt8)

def Scene.actor : Scene → Party
  | .asks _ => .initiator
  | .arrives party | .speaks party _ _ _ => party

def Scene.call (streams : Streams) : Scene → Option Act
  | .asks name =>
      if (⟨fun _ => name⟩ : SpudTubeId) ∈ streams.wired.drawn then none
      else some (.openTube { obliging with randomId := some ⟨fun _ => name⟩ }
        (.inet 1402 0x7f000001))
  | .arrives party =>
      (streams.wired.flight party.peer).head?.map fun datagram =>
        .receive obliging true (arrival datagram.bytes)
  | .speaks party name t bytes =>
      if ((streams.wired.pair.mgr party).lookup ⟨fun _ => name⟩).toOption = some (some t) ∧
          bytes.length ≤ 1482 then some (.data obliging t bytes)
      else none

def rehearse (streams : Streams) : List Scene → Option Streams
  | [] => some streams
  | scene :: scenes =>
      if (streams.wired.pair.mgr scene.actor).table.Roomy ∧
          (streams.wired.pair.mgr .responder).tubeManagerIsResponder = true then do
        let call ← scene.call streams
        let next ← (streams.perform minimalCbor (.acts scene.actor call)).toOption
        rehearse next scenes
      else none

theorem Scene.mayAct {streams : Streams} {scene : Scene} {call : Act}
    (played : scene.call streams = some call)
    (roomy : (streams.wired.pair.mgr scene.actor).table.Roomy) :
    streams.MayAct scene.actor call ∧ streams.Obliges scene.actor call ∧
      ∀ env t, call ≠ .close env t ∧ call ≠ .remove env t := by
  cases scene with
  | asks name =>
    rw [Scene.call, Option.ite_none_left_eq_some] at played
    obtain ⟨drawn, same⟩ := played
    cases same
    refine ⟨⟨obliging_refused, fun _ _ _ => nofun, fun _ _ _ => nofun⟩,
      ⟨fun _ _ _ => rfl, ⟨fun _ => rfl, fun _ => rfl, fun _ => rfl⟩, roomy, fun _ _ _ => nofun,
        ?_⟩,
      fun _ _ => ⟨nofun, nofun⟩⟩
    rintro _ _ _ ⟨⟩ ⟨⟩
    exact drawn
  | arrives party =>
    obtain ⟨datagram, first, rfl⟩ := Option.map_eq_some_iff.mp played
    obtain ⟨rest, first⟩ := List.head?_eq_some_iff.mp first
    refine ⟨⟨obliging_refused, fun _ _ _ => nofun, ?_⟩, ⟨fun _ _ => nofun, obliging_succeeds, roomy,
      fun _ _ _ => nofun, fun _ _ _ => nofun⟩, fun _ _ => ⟨nofun, nofun⟩⟩
    rintro _ _ _ ⟨⟩
    exact ⟨datagram, rest, first, rfl⟩
  | speaks party name t bytes =>
    rw [Scene.call, Option.ite_none_right_eq_some] at played
    obtain ⟨⟨found, small⟩, same⟩ := played
    cases same
    refine ⟨⟨?_, ?_, fun _ _ _ => nofun⟩, ⟨fun _ _ => nofun, obliging_succeeds, roomy, ?_,
      fun _ _ _ => nofun⟩, fun _ _ => ⟨nofun, nofun⟩⟩
    · exact ⟨⟨fun _ => name⟩, Exec.eq_ok_of_toOption found⟩
    · rintro _ _ _ ⟨⟩
      omega
    · rintro _ _ _ ⟨⟩
      exact .inl small

theorem run_of_rehearse {streams last : Streams} {scenes : List Scene}
    (rehearsed : streams.rehearse scenes = some last) (id : SpudTubeId) :
    ∃ moves, (((system minimalCbor).restrict Reliable).restrict (Keeps id)).Run
      streams moves last := by
  induction scenes generalizing streams with
  | nil =>
    cases rehearsed
    exact ⟨[], .nil _⟩
  | cons scene scenes inductionHypothesis =>
    unfold rehearse at rehearsed
    split_ifs at rehearsed with ready
    obtain ⟨call, played, rehearsed⟩ := Option.bind_eq_some_iff.mp rehearsed
    obtain ⟨next, performed, rehearsed⟩ := Option.bind_eq_some_iff.mp rehearsed
    obtain ⟨moves, run⟩ := inductionHypothesis rehearsed
    obtain ⟨may, obliges, keeps⟩ := Scene.mayAct played ready.1
    refine ⟨.acts scene.actor call :: moves, .cons ⟨⟨may, obliges⟩, ready.2, ?_⟩
      (Exec.eq_ok_of_toOption performed) run⟩
    rintro env t (rfl | rfl)
    · exact absurd rfl (keeps env t).1
    · exact absurd rfl (keeps env t).2

theorem apart_of_parsed {library : CborLibrary} {early late : Datagram} {msg other : SpudMessage}
    (parsed : spudParse library (early.bytes.take maxBufLen) = .ok msg)
    (parsedLate : spudParse library (late.bytes.take maxBufLen) = .ok other)
    (different : msg.header.tubeId ≠ other.header.tubeId) (id : SpudTubeId) :
    letterFor library id early = none ∨ letterFor library id late = none := by
  rw [letterFor_of_parsed parsed, letterFor_of_parsed parsedLate]
  by_cases own : msg.header.tubeId = id
  · exact .inr (if_neg fun same => different (own.trans same.symm))
  · exact .inl (if_neg own)

theorem mayMove_overtakes {library : CborLibrary} {streams : Streams} {party : Party}
    {front back : List Datagram} {early late : Datagram}
    (flight : streams.wired.flight party = front ++ early :: late :: back)
    (apart : ∀ id, letterFor library id early = none ∨ letterFor library id late = none) :
    streams.MayMove library (.reorders party (front ++ late :: early :: back)) := by
  constructor
  · rw [flight]
    exact (List.Perm.swap early late back).append_left front
  · intro id
    rw [flight, List.filterMap_append, List.filterMap_append]
    refine congrArg (front.filterMap _ ++ ·) ?_
    rcases apart id with missing | missing <;> simp only [List.filterMap_cons, missing]

/-- Two tubes are open, and data is sent through the first, the second and the first. -/
def interleaved : List Scene :=
  [.asks 7, .arrives .responder, .arrives .initiator, .asks 8, .arrives .responder,
    .arrives .initiator, .speaks .initiator 7 0 [1], .speaks .initiator 8 1 [3],
    .speaks .initiator 7 0 [2]]

def nameOf (datagram : Datagram) : Option UInt8 :=
  (spudParse minimalCbor (datagram.bytes.take maxBufLen)).toOption.map fun msg =>
    msg.header.tubeId.octet 0

theorem parsed_of_nameOf {datagram : Datagram} {name : UInt8} (named : nameOf datagram = some name) :
    ∃ msg, spudParse minimalCbor (datagram.bytes.take maxBufLen) = .ok msg ∧
      msg.header.tubeId.octet 0 = name := by
  unfold nameOf at named
  cases parsed : spudParse minimalCbor (datagram.bytes.take maxBufLen) with
  | error reason =>
    rw [parsed] at named
    cases named
  | ok msg =>
    rw [parsed] at named
    exact ⟨msg, rfl, Option.some.inj named⟩

/-- The data of the second tube overtakes the first piece for the other, which is lost. -/
theorem run_keeps_order_lossy : ∃ last : Streams, last.said .initiator ⟨fun _ => 7⟩ = [[1], [2]] ∧
    (last.heard .responder ⟨fun _ => 7⟩).length = 1 ∧
    (last.heard .responder ⟨fun _ => 8⟩).length = 1 ∧
    (last.heard .responder ⟨fun _ => 7⟩).Sublist
      ((last.said .initiator ⟨fun _ => 7⟩).map dataTree) := by
  let overtaken (streams : Streams) : List Datagram :=
    ((streams.wired.flight .initiator).take 2).reverse ++
      (streams.wired.flight .initiator).drop 2
  let losing (streams : Streams) : Streams :=
    streams.carrying .initiator ((streams.wired.flight .initiator).eraseIdx 1)
  obtain ⟨last, played, seen⟩ := Option.map_eq_some_iff.mp
    (show ((strangers.rehearse interleaved).bind fun middle =>
        ((losing (middle.carrying .initiator (overtaken middle))).rehearse
          [.arrives .responder, .arrives .responder]).map fun last =>
            ((middle.wired.flight .initiator).map nameOf, last)).map (fun seen =>
          (seen.1, seen.2.said .initiator ⟨fun _ => 7⟩,
            (seen.2.heard .responder ⟨fun _ => 7⟩).length,
            (seen.2.heard .responder ⟨fun _ => 8⟩).length)) =
      some ([some 7, some 8, some 7], [[1], [2]], 1, 1)
      by decide +kernel)
  obtain ⟨middle, first, played⟩ := Option.bind_eq_some_iff.mp played
  obtain ⟨last, second, rfl⟩ := Option.map_eq_some_iff.mp played
  simp only [Prod.mk.injEq] at seen
  obtain ⟨names, said, heard, overtook⟩ := seen
  obtain ⟨early, behind, flight, ofEarly, names⟩ := List.map_eq_cons_iff.mp names
  obtain ⟨late, rest, rfl, ofLate, _⟩ := List.map_eq_cons_iff.mp names
  obtain ⟨msg, parsed, own⟩ := parsed_of_nameOf ofEarly
  obtain ⟨other, parsedLate, ownLate⟩ := parsed_of_nameOf ofLate
  have reorders : middle.MayMove minimalCbor (.reorders .initiator (overtaken middle)) := by
    have swapped : overtaken middle = [] ++ late :: early :: rest := by
      simp [overtaken, flight]
    rw [swapped]
    refine mayMove_overtakes flight (apart_of_parsed parsed parsedLate fun same => ?_)
    rw [same, ownLate] at own
    exact absurd own (by decide)
  obtain ⟨moves, opens⟩ := run_of_rehearse first ⟨fun _ => 7⟩
  obtain ⟨onward, hears⟩ := run_of_rehearse second ⟨fun _ => 7⟩
  refine ⟨last, said, heard, overtook, ?_⟩
  refine run_keeps_order minimalCbor minimalCbor_lawful strangers last
    (moves ++ .reorders .initiator (overtaken middle) :: .loses .initiator 1 :: onward)
    strangers_isNew ?_ .initiator _
  exact opens.unrestricted.unrestricted.append
    (.cons reorders rfl (.cons trivial rfl hears.unrestricted.unrestricted))

end Rehearsals

end Streams

end SpudLib
