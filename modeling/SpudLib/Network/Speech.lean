import SpudLib.Network.Stream
import SpudLib.Tube.Delivery

/-!
# What is said and what is handed over

What a manager sends for the data of its application, and what another makes of
it: a letter about the identifier in the header, with the tree behind it.
-/

namespace SpudLib

open TubeManager

/-- What `tube_data` puts behind the header: nothing, or a map. -/
def dataTree (data : List UInt8) : Option Cbor :=
  if data = [] then none else some (.ofData data)

/-- What a receiver makes of a datagram, as far as it is about an identifier. -/
def letterFor (library : CborLibrary) (id : SpudTubeId) (datagram : Datagram) :
    Option (Letter (Option Cbor)) :=
  match spudParse library (datagram.bytes.take maxBufLen) with
  | .ok msg =>
      if msg.header.tubeId = id then some ⟨SpudCommand.ofFlags msg.header.flags, msg.cbor⟩
      else none
  | .error _ => none

/-- What the application says under an identifier: the data that `tube_data` reports as sent
through the tube the table has for it. -/
def saying (library : CborLibrary) (mgr : TubeManager) (id : SpudTubeId) : Act → List (List UInt8)
  | .data env t bytes =>
      if (mgr.lookup id).toOption = some (some t) ∧
          ((tubeData env library t bytes).straight mgr).toOption.map Prod.fst = some true then
        [bytes]
      else []
  | _ => []

namespace TubeManager

/-- What the event data hands over for a tube with the identifier, which is live before or after
it.  The identifiers are compared as words. -/
def handed (mgr after : TubeManager) (id : SpudTubeId) : List (Option Cbor) :=
  (after.trace.drop mgr.trace.length).filterMap fun effect => match effect with
    | .triggered (.data d) =>
        if ((mgr.tubes.cells d.t).or (after.tubes.cells d.t)).map (fun cell => cell.id.word) =
            some id.word then
          some d.cbor
        else none
    | _ => none

end TubeManager

section Letters

variable {library : CborLibrary} {id name : SpudTubeId} {cmd : SpudCommand} {datagram : Datagram}
  {msg : SpudMessage}

theorem letterFor_of_parsed
    (parsed : spudParse library (datagram.bytes.take maxBufLen) = .ok msg) :
    letterFor library id datagram =
      if msg.header.tubeId = id then some ⟨SpudCommand.ofFlags msg.header.flags, msg.cbor⟩
      else none := by
  rw [letterFor, parsed]

theorem letterFor_of_rejected {reason : SpudError}
    (rejected : spudParse library (datagram.bytes.take maxBufLen) = .error reason) :
    letterFor library id datagram = none := by
  rw [letterFor, rejected]

/-- A letter is about the identifier in the header and has the command in it. -/
theorem letterFor_of_carries (carries : Carries id cmd datagram.bytes)
    {letter : Letter (Option Cbor)} (known : letterFor library name datagram = some letter) :
    name = id ∧ letter.cmd = cmd := by
  cases parsed : spudParse library (datagram.bytes.take maxBufLen) with
  | error reason =>
    rw [letterFor_of_rejected parsed] at known
    cases known
  | ok msg =>
    obtain ⟨same, command⟩ :=
      @Carries.parsed library id cmd (arrival datagram.bytes) msg carries parsed
    rw [letterFor_of_parsed parsed] at known
    split_ifs at known with own
    cases known
    exact ⟨own.symm.trans same, command⟩

/-- A bare header is a letter with nothing in it. -/
theorem letterFor_bare (bytes : datagram.bytes = (sentHeader id cmd false false).bytes) :
    letterFor library id datagram = some ⟨cmd, none⟩ := by
  have whole : datagram.bytes.take maxBufLen = (bareHeader id cmd).buf := by
    rw [bytes]
    rfl
  have parsed := bareHeader_parsed library id cmd
  rw [← whole] at parsed
  rw [letterFor_of_parsed parsed]
  refine (if_pos rfl).trans (congrArg (fun cmd => some (Letter.mk cmd none)) ?_)
  change SpudCommand.ofFlags cmd.value = cmd
  cases cmd <;> decide

/-- Data that fits the receiver's buffer is a letter with the tree in it. -/
theorem letterFor_data (lawful : library.Lawful) {data : List UInt8}
    (small : data.length < 2 ^ 64)
    (bytes : datagram.bytes = (sentHeader id .spudData false false).bytes ++
      (dataTree data).elim [] library.encoding)
    (fits : data.length ≤ 1482) :
    letterFor library id datagram = some ⟨.spudData, dataTree data⟩ := by
  by_cases empty : data = []
  · rw [dataTree, if_pos empty] at bytes ⊢
    exact letterFor_bare (bytes.trans (List.append_nil _))
  · rw [dataTree, if_neg empty] at bytes ⊢
    have room : spudHeaderSize + (Cbor.ofData data).size ≤ maxBufLen := by
      refine ((Cbor.size_ofData_iff data).mpr (.inl fits)).resolve_right fun long => ?_
      rw [Cbor.size_ofData] at long
      unfold Cbor.headSize maxBufLen at long
      split_ifs at long <;> omega
    have parsed := @parse_fitting library (arrival datagram.bytes) _ lawful
      (Cbor.ofData_representable small) _ bytes room
    rw [letterFor_of_parsed parsed, ofFlags_sentHeader]
    exact if_pos rfl

end Letters

section Managers

variable {library : CborLibrary} {mgr after : TubeManager} {env : Environment} {t : Nat}
  {find : SpudTubeId → Option Nat} {id : SpudTubeId} {reply : Reply} {cue : Cue}

/-- What `tube_send` reports as sent is sent for a live tube, and nothing else is. -/
theorem returned_tubeSend {cmd : SpudCommand} {adec pdec : Bool} {parts : List (List UInt8)}
    {answer : Bool}
    (returned : (tubeSend env t cmd adec pdec parts).straight mgr = .ok (answer, after)) :
    answer = false ∧ mgr.posted after = [] ∨ answer = true ∧ ∃ cell, mgr.tubes.cells t = some cell ∧
      mgr.posted after = [cell.datagram cmd adec pdec parts] := by
  cases granted : env.granted .iovec with
  | false =>
    rw [tubeSend, granted, if_neg Bool.false_ne_true] at returned
    obtain ⟨rfl, rfl⟩ := returned_pure returned
    exact .inl ⟨rfl, posted_of_trace (List.append_nil _).symm⟩
  | true =>
    have onward := returned
    rw [tubeSend, if_pos granted] at onward
    obtain ⟨cell, _, read, _⟩ := returned_bind onward
    have found : mgr.tubes.cells t = some cell := (returned_readTube read).1
    rw [Proc.straight_of_done (tubeSend_ok found cmd adec pdec parts)] at returned
    cases returned
    rw [posted_of_trace rfl, Environment.effects, Environment.answer, granted, if_pos rfl]
    cases sent : env.sendmsg (cell.datagram cmd adec pdec parts) with
    | false => exact .inl ⟨rfl, rfl⟩
    | true => exact .inr ⟨rfl, cell, found, rfl⟩

/-- What `tube_data` reports as sent is a datagram with the tree of the data. -/
theorem returned_tubeData (lawful : library.Lawful) {data : List UInt8}
    (small : data.length < 2 ^ 64) {answer : Bool}
    (returned : (tubeData env library t data).straight mgr = .ok (answer, after)) :
    answer = false ∧ mgr.posted after = [] ∨ answer = true ∧ ∃ cell datagram,
      mgr.tubes.cells t = some cell ∧ mgr.posted after = [datagram] ∧
      datagram.bytes = (sentHeader cell.id .spudData false false).bytes ++
        (dataTree data).elim [] library.encoding ∧
      data.length < 1496 := by
  have nothing : ∀ {answer : Bool},
      (pure false : Tubing Bool).straight mgr = .ok (answer, after) →
      answer = false ∧ mgr.posted after = [] := by
    intro answer returned
    obtain ⟨rfl, rfl⟩ := returned_pure returned
    exact ⟨rfl, posted_of_trace (List.append_nil _).symm⟩
  by_cases empty : data = []
  · subst empty
    refine (returned_tubeSend returned).imp_right ?_
    rintro ⟨sent, cell, found, posted⟩
    refine ⟨sent, cell, _, found, posted, ?_, by decide⟩
    simp [Tube.datagram, dataTree]
  · have long : data.length ≠ 0 := fun none => empty (List.length_eq_zero_iff.mp none)
    rw [tubeData, if_neg long] at returned
    split_ifs at returned
    · have representable := Cbor.ofData_representable small
      have written := lawful.write maxBufLen _ representable
      rw [lawful.minimal _ representable] at written
      unfold tubeSendCbor at returned
      rw [lawful.ofData, written] at returned
      by_cases fits : (Cbor.ofData data).size ≤ maxBufLen
      · rw [if_pos fits] at returned
        refine (returned_tubeSend returned).imp_right ?_
        rintro ⟨sent, cell, found, posted⟩
        refine ⟨sent, cell, _, found, posted, ?_, ?_⟩
        · rw [dataTree, if_neg empty]
          exact cborDatagram_bytes ..
        · rw [Cbor.size_ofData] at fits
          unfold Cbor.headSize maxBufLen at fits
          split_ifs at fits <;> omega
      · rw [if_neg fits] at returned
        exact .inl (nothing returned)
    · exact .inl (nothing returned)

theorem Reaction.hands {held : Option TubeState} (reaction : Reaction held cue reply)
    (data : .data ∈ reply.events) : held = some .running ∧ cue = .heard .spudData := by
  refine ⟨reaction.triggers.2 data, ?_⟩
  cases reaction with
  | idle => cases data
  | accepted => simp at data
  | stunted => cases data
  | told => rfl
  | acked few => exact absurd (few data) (by decide)
  | hungUp _ few =>
    rcases List.mem_cons.mp data with same | data
    · cases same
    · exact absurd (few data) (by decide)
  | shut => cases data
  | opened => simp at data
  | dropped => cases data
  | said => cases data
  | closed => cases data
  | removed _ _ few => exact absurd (few data) (by decide)

theorem named_of_handed {cbor : Option Cbor} (member : cbor ∈ mgr.handed after id) :
    (some id, .data) ∈ mgr.named after := by
  obtain ⟨effect, inside, hands⟩ := List.mem_filterMap.mp member
  refine List.mem_filterMap.mpr ⟨effect, inside, ?_⟩
  cases effect with
  | triggered notice =>
    cases notice with
    | data d =>
      simp only at hands
      split_ifs at hands with named
      obtain ⟨cell, live, same⟩ := Option.map_eq_some_iff.mp named
      rw [naming, Notice.tube, live, Option.map_some, SpudTubeId.word_injective same]
      rfl
    | add => cases hands
    | running => cases hands
    | close => cases hands
    | remove => cases hands
  | sent => cases hands
  | destroyed => cases hands

theorem TubeManager.Reacts.handed_nil (reacts : mgr.Reacts after id reply) {name : SpudTubeId}
    (quiet : name = id → .data ∉ reply.events) : mgr.handed after name = [] := by
  refine List.eq_nil_iff_forall_not_mem.mpr fun cbor member => ?_
  obtain ⟨same, inside⟩ := reacts.triggers (named_of_handed member)
  exact quiet (Option.some.inj same) inside

/-- The loop hands over the tree of the datagram, if there is memory for the event. -/
theorem tubeManagerLoopBody_hands (tracks : mgr.Tracks find) {received : Reception}
    {msg : SpudMessage} (parsed : spudParse library received.buf = .ok msg)
    (command : SpudCommand.ofFlags msg.header.flags = .spudData)
    (running : mgr.held msg.header.tubeId = some .running) {hasErr : Bool} {verdict : Verdict}
    (returned : (tubeManagerLoopBody env library hasErr received).straight mgr =
      .ok (verdict, after)) :
    mgr.handed after msg.header.tubeId =
      if env.granted (.moment .data) then [msg.cbor] else [] := by
  have some : received.buf ≠ [] := by
    intro empty
    rw [tubeManagerLoopBody_empty empty] at returned
    cases returned
  rw [tracks.held] at running
  obtain ⟨t, stored, state⟩ := Option.bind_eq_some_iff.mp running
  obtain ⟨cell, found, state⟩ := Option.map_eq_some_iff.mp state
  rw [tubeManagerLoopBody_parsed some parsed] at returned
  obtain ⟨_, _, read, onward⟩ := returned_bind returned
  rw [returned_readKeys read] at onward
  obtain ⟨key, _, looked, finished⟩ := returned_bind onward
  rw [straight_lift, show (mgr.at env received).table = mgr.table from rfl,
    tracks.registers.get ⟨none, msg.header.tubeId⟩] at looked
  cases looked
  simp only [stored, command] at finished
  have foundNow : (mgr.at env received).tubes.cells t = .some cell := found
  rw [@obey_data _ env ⟨t, msg.cbor, received.source⟩ cell foundNow state] at finished
  cases finished
  have named : ((mgr.tubes.cells t).or (((mgr.at env received).noted (env.triggers
      (.data ⟨t, msg.cbor, received.source⟩))).tubes.cells t)).map (fun cell => cell.id.word) =
        .some msg.header.tubeId.word := by
    rw [found, ← tracks.own stored found]
    rfl
  rw [TubeManager.handed, show ((mgr.at env received).noted
    (env.triggers (.data ⟨t, msg.cbor, received.source⟩))).trace = mgr.trace ++ _ from rfl,
    List.drop_left, Environment.triggers]
  cases granted : env.granted (.moment .data) with
  | false =>
    rw [if_neg (by rw [Notice.event, granted]; exact Bool.false_ne_true)]
    rfl
  | true =>
    rw [if_pos (show env.granted (.moment (Notice.data _).event) = true from granted)]
    exact List.filterMap_cons_some (if_pos named)

/-- All that the loop hands over under an identifier is the tree of a `DATA` for it. -/
theorem tubeManagerLoopBody_handed (tracks : mgr.Tracks find) {received : Reception}
    (refused : ∀ size, 2 ^ 30 ≤ size → env.calloc size = false) {hasErr : Bool}
    {verdict : Verdict}
    (returned : (tubeManagerLoopBody env library hasErr received).straight mgr =
      .ok (verdict, after)) (name : SpudTubeId) :
    mgr.handed after name = [] ∨ ∃ msg, spudParse library received.buf = .ok msg ∧
      msg.header.tubeId = name ∧ SpudCommand.ofFlags msg.header.flags = .spudData ∧
      mgr.handed after name = [msg.cbor] := by
  have reacts := tubeManagerLoopBody_reacts tracks refused returned
  cases parsed : spudParse library received.buf with
  | error reason =>
    rw [parsed] at reacts
    exact .inl ((reacts.2.2 name).handed_nil fun _ => nofun)
  | ok msg =>
    rw [parsed] at reacts
    obtain ⟨luck, _, _, _, reacts⟩ := reacts
    by_cases told : name = msg.header.tubeId ∧ .data ∈ (luck.react mgr.tubeManagerIsResponder
        (mgr.held msg.header.tubeId) (.heard (SpudCommand.ofFlags msg.header.flags))).events
    · obtain ⟨rfl, data⟩ := told
      obtain ⟨running, cue⟩ := (luck.reaction _ _ _).hands data
      have command := Cue.heard.inj cue
      have handed := tubeManagerLoopBody_hands tracks parsed command running returned
      split_ifs at handed
      · exact .inr ⟨msg, rfl, rfl, command, handed⟩
      · exact .inl handed
    · exact .inl (reacts.handed_nil fun same data => told ⟨same, data⟩)

end Managers

end SpudLib
