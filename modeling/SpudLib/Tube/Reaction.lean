import SpudLib.Tube.Isolation

/-!
# What a manager does about one identifier

Seen from one identifier, a manager holds a tube in some state or none.  On a
command or a call it sends commands, triggers events and goes to another state,
all of it under that identifier, as far as memory and `sendmsg` allow.
-/

namespace SpudLib

/-- What a manager is told about an identifier: a command that arrives, or a call. -/
inductive Cue where
  | heard (cmd : SpudCommand)
  | opened
  | said
  | closed
  | removed
  deriving DecidableEq

/-- What comes of it: the state of the tube now held, the commands sent and the events
triggered. -/
structure Reply where
  held : Option TubeState
  sent : List SpudCommand
  events : List TubeEvent
  deriving DecidableEq

/-- What the system grants: allocations, a place in the table, and sends. -/
structure Luck where
  granted : Allocation → Bool
  placed : Bool
  sends : SpudCommand → Bool

namespace Luck

def full : Luck := ⟨fun _ => true, true, fun _ => true⟩

def events (luck : Luck) (event : TubeEvent) : List TubeEvent :=
  if luck.granted (.moment event) then [event] else []

def sent (luck : Luck) (cmd : SpudCommand) : List SpudCommand :=
  if luck.granted .iovec && luck.sends cmd then [cmd] else []

def farewell (luck : Luck) (held : Option TubeState) : List SpudCommand :=
  if held = some .running then luck.sent .spudClose else []

end Luck

/-- What comes of an `OPEN` for an identifier under which no tube is held. -/
def Luck.accept (luck : Luck) : Reply :=
  if luck.granted .tube && luck.granted .pktinfo && luck.placed then
    if luck.granted (.moment .add) then ⟨some .running, luck.sent .spudAck, [.add]⟩
    else ⟨some .unknown, [], []⟩
  else ⟨none, [], []⟩

def Luck.hear (luck : Luck) (responds : Bool) (held : Option TubeState) (cmd : SpudCommand) :
    Reply :=
  match held with
  | none => if responds && cmd = .spudOpen then luck.accept else ⟨none, [], []⟩
  | some state =>
      if Environment.acts cmd state then
        match cmd with
        | .spudData => ⟨held, [], luck.events .data⟩
        | .spudAck => ⟨some .running, [], luck.events .running⟩
        | .spudClose =>
            if luck.granted (.moment .close) then ⟨none, [], .close :: luck.events .remove⟩
            else ⟨some .unknown, [], []⟩
        | .spudOpen => ⟨held, [], []⟩
      else ⟨held, [], []⟩

/-- What comes of a cue when the manager holds a tube in the state, or none. -/
def Luck.react (luck : Luck) (responds : Bool) (held : Option TubeState) : Cue → Reply
  | .heard cmd => luck.hear responds held cmd
  | .opened =>
      if luck.granted .tube && luck.placed then
        if luck.granted (.moment .add) then
          ⟨some .opening, luck.farewell held ++ luck.sent .spudOpen, [.add]⟩
        else ⟨none, luck.farewell held, []⟩
      else ⟨held, [], []⟩
  | .said => ⟨held, luck.sent .spudData, []⟩
  | .closed => ⟨some .unknown, luck.sent .spudClose, []⟩
  | .removed => ⟨none, luck.farewell held, luck.events .remove⟩

section Hearing

variable {luck : Luck} {responds : Bool} {state : TubeState} {cmd : SpudCommand}

theorem Luck.hear_idle (idle : Environment.acts cmd state = false) :
    luck.hear responds (some state) cmd = ⟨some state, [], []⟩ := by
  simp [hear, idle]

theorem Luck.hear_data : luck.hear responds (some .running) .spudData =
    ⟨some .running, [], luck.events .data⟩ := rfl

theorem Luck.hear_ack : luck.hear responds (some .opening) .spudAck =
    ⟨some .running, [], luck.events .running⟩ := rfl

theorem Luck.hear_close (known : state ≠ .unknown) : luck.hear responds (some state) .spudClose =
    if luck.granted (.moment .close) then ⟨none, [], .close :: luck.events .remove⟩
    else ⟨some .unknown, [], []⟩ := by
  simp [hear, Environment.acts, known]

end Hearing

inductive Reaction : Option TubeState → Cue → Reply → Prop where
  | idle (held cue) : Reaction held cue ⟨held, [], []⟩
  | accepted {sent} : sent ⊆ [.spudAck] →
      Reaction none (.heard .spudOpen) ⟨some .running, sent, [.add]⟩
  | stunted : Reaction none (.heard .spudOpen) ⟨some .unknown, [], []⟩
  | told : Reaction (some .running) (.heard .spudData) ⟨some .running, [], [.data]⟩
  | acked {events} : events ⊆ [.running] →
      Reaction (some .opening) (.heard .spudAck) ⟨some .running, [], events⟩
  | hungUp {state events} : state ≠ .unknown → events ⊆ [.remove] →
      Reaction (some state) (.heard .spudClose) ⟨none, [], .close :: events⟩
  | shut {state} : state ≠ .unknown →
      Reaction (some state) (.heard .spudClose) ⟨some .unknown, [], []⟩
  | opened (held) {sent} : sent ⊆ [.spudClose, .spudOpen] →
      Reaction held .opened ⟨some .opening, sent, [.add]⟩
  | dropped (held) {sent} : sent ⊆ [.spudClose] → Reaction held .opened ⟨none, sent, []⟩
  | said (held) {sent} : sent ⊆ [.spudData] → Reaction held .said ⟨held, sent, []⟩
  | closed (held) {sent} : sent ⊆ [.spudClose] →
      Reaction held .closed ⟨some .unknown, sent, []⟩
  | removed (held) {sent events} : sent ⊆ [.spudClose] → events ⊆ [.remove] →
      Reaction held .removed ⟨none, sent, events⟩

theorem Luck.sent_subset (luck : Luck) (cmd : SpudCommand) : luck.sent cmd ⊆ [cmd] := by
  unfold sent
  split_ifs
  · exact List.Subset.refl _
  · exact List.nil_subset _

theorem Luck.events_subset (luck : Luck) (event : TubeEvent) : luck.events event ⊆ [event] := by
  unfold events
  split_ifs
  · exact List.Subset.refl _
  · exact List.nil_subset _

theorem Luck.farewell_subset (luck : Luck) (held : Option TubeState) :
    luck.farewell held ⊆ [.spudClose] := by
  unfold farewell
  split_ifs
  · exact luck.sent_subset _
  · exact List.nil_subset _

theorem Luck.reaction (luck : Luck) (responds : Bool) (held : Option TubeState) (cue : Cue) :
    Reaction held cue (luck.react responds held cue) := by
  cases cue with
  | heard cmd =>
    cases held with
    | none =>
      simp only [react, hear, accept]
      split_ifs with opens
      · obtain ⟨_, rfl⟩ : responds = true ∧ cmd = .spudOpen := by simpa using opens
        exact .accepted (luck.sent_subset _)
      · obtain ⟨_, rfl⟩ : responds = true ∧ cmd = .spudOpen := by simpa using opens
        exact .stunted
      · exact .idle none _
      · exact .idle none _
    | some state =>
      rw [react]
      by_cases idle : Environment.acts cmd state = false
      · rw [hear_idle idle]
        exact .idle _ _
      · rw [Bool.not_eq_false] at idle
        cases cmd with
        | spudOpen => cases idle
        | spudData =>
          obtain rfl : state = .running := of_decide_eq_true idle
          rw [hear_data]
          unfold events
          split_ifs
          · exact .told
          · exact .idle _ _
        | spudAck =>
          obtain rfl : state = .opening := of_decide_eq_true idle
          rw [hear_ack]
          exact .acked (luck.events_subset _)
        | spudClose =>
          have known : state ≠ .unknown := of_decide_eq_true idle
          rw [hear_close known]
          split_ifs
          · exact .hungUp known (luck.events_subset _)
          · exact .shut known
  | opened =>
    rw [react]
    split_ifs
    · refine .opened held (List.append_subset.mpr ⟨?_, ?_⟩)
      · exact fun cmd member => List.mem_cons.mpr (.inl (List.mem_singleton.mp
          (luck.farewell_subset held member)))
      · exact fun cmd member => List.mem_cons_of_mem _ (luck.sent_subset _ member)
    · exact .dropped held (luck.farewell_subset held)
    · exact .idle held _
  | said => exact .said held (luck.sent_subset _)
  | closed => exact .closed held (luck.sent_subset _)
  | removed => exact .removed held (luck.farewell_subset held) (luck.events_subset _)
theorem Reaction.running {held : Option TubeState} {cue : Cue} {reply : Reply}
    (reaction : Reaction held cue reply)
    (running : reply.held = some .running) : held = some .running ∨
      held = none ∧ cue = .heard .spudOpen ∧ .add ∈ reply.events ∨ cue = .heard .spudAck := by
  cases reaction with
  | idle => exact .inl running
  | accepted => exact .inr (.inl ⟨rfl, rfl, List.mem_singleton.mpr rfl⟩)
  | told => exact .inl rfl
  | acked => exact .inr (.inr rfl)
  | said => exact .inl running
  | stunted => cases running
  | hungUp => cases running
  | shut => cases running
  | opened => cases running
  | dropped => cases running
  | closed => cases running
  | removed => cases running

theorem Reaction.triggers {held : Option TubeState} {cue : Cue} {reply : Reply}
    (reaction : Reaction held cue reply) :
    (.running ∈ reply.events → cue = .heard .spudAck) ∧
      (.data ∈ reply.events → held = some .running) := by
  cases reaction with
  | idle => exact ⟨nofun, nofun⟩
  | accepted => exact ⟨by simp, by simp⟩
  | stunted => exact ⟨nofun, nofun⟩
  | told => exact ⟨by simp, fun _ => rfl⟩
  | acked few => exact ⟨fun _ => rfl, fun member => absurd (few member) (by decide)⟩
  | hungUp _ few =>
    constructor
    · intro member
      rcases List.mem_cons.mp member with same | member
      · cases same
      · exact absurd (few member) (by decide)
    · intro member
      rcases List.mem_cons.mp member with same | member
      · cases same
      · exact absurd (few member) (by decide)
  | shut => exact ⟨nofun, nofun⟩
  | opened => exact ⟨by simp, by simp⟩
  | dropped => exact ⟨nofun, nofun⟩
  | said => exact ⟨nofun, nofun⟩
  | closed => exact ⟨nofun, nofun⟩
  | removed _ _ few =>
    exact ⟨fun member => absurd (few member) (by decide),
      fun member => absurd (few member) (by decide)⟩

/-- The bytes are a header with the identifier and the command, and for `DATA` something
behind it. -/
def Carries (id : SpudTubeId) (cmd : SpudCommand) (bytes : List UInt8) : Prop :=
  ∃ rest, bytes = (sentHeader id cmd false false).bytes ++ rest ∧ (cmd ≠ .spudData → rest = [])

/-- The receiver finds what the header says, or rejects the datagram. -/
theorem Carries.parsed {library : CborLibrary} {id : SpudTubeId} {cmd : SpudCommand}
    {received : Reception} {msg : SpudMessage} (carries : Carries id cmd received.bytes)
    (parsed : spudParse library received.buf = .ok msg) :
    msg.header.tubeId = id ∧ SpudCommand.ofFlags msg.header.flags = cmd := by
  obtain ⟨rest, bytes, _⟩ := carries
  let header := sentHeader id cmd false false
  have cut : received.buf = header.bytes ++ rest.take (maxBufLen - spudHeaderSize) := by
    rw [Reception.buf, bytes, List.take_append, header.length_bytes,
      List.take_of_length_le (by rw [header.length_bytes]; decide)]
  have same : SpudHeader.ofBytes received.buf = header := by
    rw [cut, SpudHeader.ofBytes_bytes]
  have read : msg.header = header := by
    rw [← same]
    unfold spudParse at parsed
    split_ifs at parsed
    · split at parsed
      · cases parsed
        rfl
      · cases parsed
    · cases parsed
      rfl
  rw [read]
  exact ⟨rfl, SpudCommand.ofFlags_value cmd false false⟩

def sendings (effects : List Effect) : List Datagram :=
  effects.filterMap fun effect => match effect with
    | .sent datagram true => some datagram
    | _ => none

namespace TubeManager

def held (mgr : TubeManager) (id : SpudTubeId) : Option TubeState :=
  match mgr.lookup id with
  | .ok (some t) => (mgr.tubes.cells t).map Tube.state
  | _ => none

def posted (mgr after : TubeManager) : List Datagram :=
  sendings (after.trace.drop mgr.trace.length)

/-- The event an effect is, with the identifier of its tube, which is live before or
after it. -/
def naming (mgr after : TubeManager) : Effect → Option (Option SpudTubeId × TubeEvent)
  | .triggered notice =>
      some (((mgr.tubes.cells notice.tube).or (after.tubes.cells notice.tube)).map Tube.id,
        notice.event)
  | _ => none

def named (mgr after : TubeManager) : List (Option SpudTubeId × TubeEvent) :=
  (after.trace.drop mgr.trace.length).filterMap (mgr.naming after)

/-- The manager does under one identifier what the reply says, and nothing else. -/
structure Reacts (mgr after : TubeManager) (id : SpudTubeId) (reply : Reply) : Prop where
  grows : mgr.trace <+: after.trace
  own : after.held id = reply.held
  others : ∀ other, other ≠ id → after.held other = mgr.held other
  posted : List.Forall₂ (fun (datagram : Datagram) cmd => Carries id cmd datagram.bytes)
    (mgr.posted after) reply.sent
  named : mgr.named after = reply.events.map fun event => (some id, event)

variable {mgr after : TubeManager} {id : SpudTubeId} {reply : Reply}

theorem Reacts.carries (reacts : mgr.Reacts after id reply) {datagram : Datagram}
    (member : datagram ∈ mgr.posted after) : ∃ cmd ∈ reply.sent, Carries id cmd datagram.bytes := by
  have posted := reacts.posted
  generalize mgr.posted after = datagrams at member posted
  generalize reply.sent = sent at posted
  induction posted with
  | nil => cases member
  | cons carries _ inductionHypothesis =>
    rcases List.mem_cons.mp member with rfl | member
    · exact ⟨_, List.mem_cons_self, carries⟩
    · obtain ⟨cmd, inside, carries⟩ := inductionHypothesis member
      exact ⟨cmd, List.mem_cons_of_mem _ inside, carries⟩

theorem Reacts.triggers (reacts : mgr.Reacts after id reply) {name : Option SpudTubeId}
    {event : TubeEvent} (member : (name, event) ∈ mgr.named after) :
    name = some id ∧ event ∈ reply.events := by
  rw [reacts.named, List.mem_map] at member
  obtain ⟨other, inside, same⟩ := member
  cases same
  exact ⟨rfl, inside⟩

/-- The table registers the map, and a tube it finds has its identifier as long as it
lives. -/
structure Tracks (mgr : TubeManager) (find : SpudTubeId → Option Nat) : Prop where
  registers : Registers mgr.table find
  known : ∀ id t, find id = some t → t < mgr.tubes.fresh ∧
    ∀ cell, mgr.tubes.cells t = some cell → cell.id = id

def Tracked (mgr : TubeManager) : Prop := ∃ find, mgr.Tracks find

variable {mgr after : TubeManager} {find later : SpudTubeId → Option Nat} {id : SpudTubeId}
  {t : Nat} {cell : Tube} {effects : List Effect}

theorem Holds.tracks (holds : mgr.Holds find) : mgr.Tracks find := by
  refine ⟨holds.registers, ?_⟩
  intro id t stored
  obtain ⟨cell, found, own⟩ := holds.live id t stored
  refine ⟨Memory.lt_fresh found, ?_⟩
  intro other same
  rw [found] at same
  cases same
  exact own

theorem Tracks.lookup (tracks : mgr.Tracks find) (id : SpudTubeId) :
    mgr.lookup id = .ok (find id) :=
  tracks.registers.get ⟨none, id⟩

theorem Tracks.held (tracks : mgr.Tracks find) (id : SpudTubeId) :
    mgr.held id = (find id).bind fun t => (mgr.tubes.cells t).map Tube.state := by
  rw [TubeManager.held, tracks.lookup]
  cases find id with
  | none => rfl
  | some t => rfl

theorem Tracks.held_none (tracks : mgr.Tracks find) (missing : find id = none) :
    mgr.held id = none := by
  rw [tracks.held, missing]
  rfl

theorem Tracks.held_some (tracks : mgr.Tracks find) (stored : find id = some t)
    (found : mgr.tubes.cells t = some cell) : mgr.held id = some cell.state := by
  rw [tracks.held, stored, Option.bind_some, found]
  rfl

theorem Tracks.own (tracks : mgr.Tracks find) (stored : find id = some t)
    (found : mgr.tubes.cells t = some cell) : cell.id = id :=
  (tracks.known id t stored).2 cell found

theorem posted_of_trace (trace : after.trace = mgr.trace ++ effects) :
    mgr.posted after = sendings effects := by
  rw [posted, trace, List.drop_left]

theorem sendings_append (first second : List Effect) :
    sendings (first ++ second) = sendings first ++ sendings second :=
  List.filterMap_append

theorem sendings_trace (grows : mgr.trace <+: after.trace) :
    sendings after.trace = sendings mgr.trace ++ mgr.posted after := by
  obtain ⟨effects, trace⟩ := grows
  rw [posted_of_trace trace.symm, ← trace, sendings_append]

theorem named_of_trace (trace : after.trace = mgr.trace ++ effects) :
    mgr.named after = effects.filterMap (mgr.naming after) := by
  rw [named, trace, List.drop_left]

theorem naming_old {notice : Notice} (found : mgr.tubes.cells notice.tube = some cell) :
    mgr.naming after (.triggered notice) = some (some cell.id, notice.event) := by
  rw [naming, found]
  rfl

theorem naming_new {notice : Notice} (missing : mgr.tubes.cells notice.tube = none)
    (found : after.tubes.cells notice.tube = some cell) :
    mgr.naming after (.triggered notice) = some (some cell.id, notice.event) := by
  rw [naming, missing, found]
  rfl

/-- Tubes with other identifiers, and tubes already destroyed, are as before. -/
def Spare (mgr after : TubeManager) (id : SpudTubeId) : Prop :=
  ∀ t, t < mgr.tubes.fresh → (∀ cell, mgr.tubes.cells t = some cell → cell.id ≠ id) →
    after.tubes.cells t = mgr.tubes.cells t

/-- Whatever leaves other tubes and other entries as they are changes only what is held
under the identifier. -/
theorem Tracks.others (tracks : mgr.Tracks find) (tracksAfter : after.Tracks later)
    (spare : mgr.Spare after id) (lookups : ∀ other, other ≠ id → later other = find other) :
    ∀ other, other ≠ id → after.held other = mgr.held other := by
  intro other different
  rw [tracks.held, tracksAfter.held, lookups other different]
  cases stored : find other with
  | none => rfl
  | some t =>
    rw [Option.bind_some, Option.bind_some, spare t (tracks.known other t stored).1]
    intro cell found same
    exact different ((tracks.own stored found).symm.trans same)

section Changes

variable {changed : Tube} {reply : Reply}

theorem Tracks.beside (tracks : mgr.Tracks find) (registers : Registers after.table find)
    (fresh : mgr.tubes.fresh ≤ after.tubes.fresh)
    (cells : ∀ other, other < mgr.tubes.fresh →
      after.tubes.cells other = mgr.tubes.cells other)
    (trace : after.trace = mgr.trace ++ effects) (unsent : sendings effects = [])
    (quiet : effects.filterMap (mgr.naming after) = []) :
    after.Tracked ∧ ∀ id, mgr.Reacts after id ⟨mgr.held id, [], []⟩ := by
  have tracksAfter : after.Tracks find := by
    refine ⟨registers, ?_⟩
    intro other t stored
    obtain ⟨old, own⟩ := tracks.known other t stored
    refine ⟨old.trans_le fresh, ?_⟩
    rw [cells t old]
    exact own
  refine ⟨⟨find, tracksAfter⟩, ?_⟩
  intro id
  have same : ∀ other, after.held other = mgr.held other := by
    intro other
    rw [tracks.held, tracksAfter.held]
    cases stored : find other with
    | none => rfl
    | some t => rw [Option.bind_some, Option.bind_some, cells t (tracks.known other t stored).1]
  refine ⟨⟨effects, trace.symm⟩, same id, fun other _ => same other, ?_, ?_⟩
  · rw [posted_of_trace trace, unsent]
    exact .nil
  · rw [named_of_trace trace, quiet]
    rfl

theorem Tracks.inPlace (tracks : mgr.Tracks find) (stored : find id = some t)
    (found : mgr.tubes.cells t = some cell) (table : after.table = mgr.table)
    (fresh : after.tubes.fresh = mgr.tubes.fresh)
    (changes : after.tubes.cells t = some changed) (same : changed.id = cell.id)
    (others : ∀ other, other ≠ t → after.tubes.cells other = mgr.tubes.cells other)
    (trace : after.trace = mgr.trace ++ effects) (own : reply.held = some changed.state)
    (posted : List.Forall₂ (fun (datagram : Datagram) cmd => Carries id cmd datagram.bytes)
      (sendings effects) reply.sent)
    (named : effects.filterMap (mgr.naming after) =
      reply.events.map fun event => (some id, event)) :
    after.Tracked ∧ mgr.Reacts after id reply := by
  have mine := tracks.own stored found
  have tracksAfter : after.Tracks find := by
    refine ⟨table ▸ tracks.registers, ?_⟩
    intro other second member
    obtain ⟨old, theirs⟩ := tracks.known other second member
    refine ⟨fresh ▸ old, ?_⟩
    by_cases here : second = t
    · subst here
      intro later foundLater
      rw [changes] at foundLater
      cases foundLater
      exact same.trans (theirs cell found)
    · rw [others second here]
      exact theirs
  refine ⟨⟨_, tracksAfter⟩, ⟨effects, trace.symm⟩, ?_, ?_, ?_, ?_⟩
  · rw [tracksAfter.held_some stored changes, own]
  · refine tracks.others tracksAfter ?_ fun _ _ => rfl
    intro second _ different
    refine others second ?_
    rintro rfl
    exact different cell found mine
  · rw [posted_of_trace trace]
    exact posted
  · rw [named_of_trace trace]
    exact named

theorem Tracks.leaves (tracks : mgr.Tracks find) (stored : find id = some t)
    (found : mgr.tubes.cells t = some cell)
    (registers : Registers after.table (Function.update find id none))
    (fresh : after.tubes.fresh = mgr.tubes.fresh)
    (others : ∀ other, other ≠ t → after.tubes.cells other = mgr.tubes.cells other)
    (erased : after.tubes.cells t = none)
    (trace : after.trace = mgr.trace ++ effects) (own : reply.held = none)
    (posted : List.Forall₂ (fun (datagram : Datagram) cmd => Carries id cmd datagram.bytes)
      (sendings effects) reply.sent)
    (named : effects.filterMap (mgr.naming after) =
      reply.events.map fun event => (some id, event)) :
    after.Tracked ∧ mgr.Reacts after id reply := by
  have mine := tracks.own stored found
  have tracksAfter : after.Tracks (Function.update find id none) := by
    refine ⟨registers, ?_⟩
    intro other second member
    by_cases here : other = id
    · rw [here, Function.update_self] at member
      cases member
    · rw [Function.update_of_ne here] at member
      obtain ⟨old, theirs⟩ := tracks.known other second member
      refine ⟨fresh ▸ old, ?_⟩
      by_cases same : second = t
      · subst same
        intro later foundLater
        rw [erased] at foundLater
        cases foundLater
      · rw [others second same]
        exact theirs
  refine ⟨⟨_, tracksAfter⟩, ⟨effects, trace.symm⟩, ?_, ?_, ?_, ?_⟩
  · rw [tracksAfter.held_none (Function.update_self ..), own]
  · refine tracks.others tracksAfter ?_ fun _ different => Function.update_of_ne different ..
    intro second _ different
    refine others second ?_
    rintro rfl
    exact different cell found mine
  · rw [posted_of_trace trace]
    exact posted
  · rw [named_of_trace trace]
    exact named

theorem Tracks.enters (tracks : mgr.Tracks find)
    (registers : Registers after.table (Function.update find id (some mgr.tubes.fresh)))
    (fresh : after.tubes.fresh = mgr.tubes.fresh + 1)
    (mine : ∀ cell, after.tubes.cells mgr.tubes.fresh = some cell → cell.id = id)
    (others : ∀ other, other ≠ mgr.tubes.fresh → find id ≠ some other →
      after.tubes.cells other = mgr.tubes.cells other)
    (displaced : ∀ other, find id = some other → after.tubes.cells other = none)
    (trace : after.trace = mgr.trace ++ effects)
    (own : reply.held = (after.tubes.cells mgr.tubes.fresh).map Tube.state)
    (posted : List.Forall₂ (fun (datagram : Datagram) cmd => Carries id cmd datagram.bytes)
      (sendings effects) reply.sent)
    (named : effects.filterMap (mgr.naming after) =
      reply.events.map fun event => (some id, event)) :
    after.Tracked ∧ mgr.Reacts after id reply := by
  have kept : ∀ second, second < mgr.tubes.fresh → find id ≠ some second →
      after.tubes.cells second = mgr.tubes.cells second :=
    fun second old => others second (Nat.ne_of_lt old)
  have tracksAfter : after.Tracks (Function.update find id (some mgr.tubes.fresh)) := by
    refine ⟨registers, ?_⟩
    intro other second member
    by_cases here : other = id
    · rw [here, Function.update_self] at member
      cases member
      rw [here, fresh]
      exact ⟨Nat.lt_succ_self _, mine⟩
    · rw [Function.update_of_ne here] at member
      obtain ⟨old, theirs⟩ := tracks.known other second member
      refine ⟨fresh ▸ old.trans (Nat.lt_succ_self _), ?_⟩
      by_cases gone : find id = some second
      · intro later foundLater
        rw [displaced second gone] at foundLater
        cases foundLater
      · rw [kept second old gone]
        exact theirs
  refine ⟨⟨_, tracksAfter⟩, ⟨effects, trace.symm⟩, ?_, ?_, ?_, ?_⟩
  · rw [tracksAfter.held, Function.update_self, own]
    rfl
  · refine tracks.others tracksAfter ?_ fun _ different => Function.update_of_ne different ..
    intro second old different
    by_cases gone : find id = some second
    · rw [displaced second gone]
      cases found : mgr.tubes.cells second with
      | none => rfl
      | some cell => exact absurd (tracks.own gone found) (different cell found)
    · exact kept second old gone
  · rw [posted_of_trace trace]
    exact posted
  · rw [named_of_trace trace]
    exact named

end Changes

end TubeManager

end SpudLib
