import SpudLib.Network.Streaming

/-!
# Data is not made up

Over a network that may lose, duplicate, delay and reorder what the parties
send, and whoever of them opens tubes, whatever is handed over under an
identifier has been given to `tube_data` at the other end, through the tube with
that identifier.
-/

namespace SpudLib

open TubeManager

namespace Pair

/-- What is received was sent, at any time; the length of data fits a `size_t`. -/
structure MayTrade (pair : Pair) (move : Party × Act) : Prop where
  acts : (pair.mgr move.1).MayAct move.2
  sized : ∀ env t bytes, move.2 = .data env t bytes → bytes.length < 2 ^ 64
  genuine : ∀ env hasErr received, move.2 = .receive env hasErr received →
    pair.Genuine move.1 received

def trading (library : CborLibrary) : System Pair (Party × Act) := ⟨MayTrade, perform library⟩

def Speaks (library : CborLibrary) (party : Party) (id : SpudTubeId) (content : Option Cbor)
    (pair : Pair) (move : Party × Act) (_ : Pair) : Prop :=
  move.1 = party ∧ ∃ data ∈ saying library (pair.mgr party) id move.2, dataTree data = content

section Runs

variable {library : CborLibrary} {start pair next last : Pair} {moves : List (Party × Act)}
  {party : Party} {call : Act}

/-- What holds after any moves: a `DATA` that was sent has been said. -/
structure Attested (library : CborLibrary) (start : Pair) (moves : List (Party × Act))
    (pair : Pair) : Prop where
  tracked : pair.Tracked
  sent : ∀ party, ∀ datagram ∈ sendings (pair.mgr party).trace, ∀ id letter,
    letterFor library id datagram = some letter → letter.cmd = .spudData →
    (trading library).Past start moves (Speaks library party id letter.data)

theorem Attested.step (attested : Attested library start moves pair) (lawful : library.Lawful)
    (run : (trading library).Run start moves pair)
    (enabled : (trading library).Enabled pair (party, call))
    (stepped : (trading library).step pair (party, call) = .ok next) :
    Attested library start (moves ++ [(party, call)]) next := by
  obtain ⟨acted, others⟩ := perform_eq stepped
  have tracked := attested.tracked party
  have mine : (next.mgr party).Tracked ∧
      sendings (next.mgr party).trace = sendings (pair.mgr party).trace ++
        (pair.mgr party).posted (next.mgr party) := by
    rcases tracked.act enabled.acts acted with ⟨mine, still⟩ | ⟨_, _, _, _, _, mine, reacts⟩
    · exact ⟨mine, sendings_trace (still ⟨fun _ => 0⟩).grows⟩
    · exact ⟨mine, sendings_trace reacts.grows⟩
  constructor
  · intro other
    by_cases here : other = party
    · exact here ▸ mine.1
    · rw [others other here]
      exact attested.tracked other
  · intro other datagram member id letter known data
    by_cases here : other = party
    · subst here
      rw [mine.2] at member
      rcases List.mem_append.mp member with old | new
      · exact (attested.sent other datagram old id letter known data).append _
      · have speaks : letter.data ∈ spoken
            (((pair.mgr other).posted (next.mgr other)).filterMap (letterFor library id)) :=
          List.mem_filterMap.mpr ⟨letter, List.mem_filterMap.mpr ⟨datagram, new, known⟩,
            if_pos data⟩
        have said := (Streams.spoken_posted lawful tracked enabled.acts enabled.sized acted).subset
          speaks
        obtain ⟨bytes, among, same⟩ := List.mem_map.mp said
        exact .now run enabled stepped ⟨rfl, bytes, among, same⟩
    · rw [others other here] at member
      exact (attested.sent other datagram member id letter known data).append _

/-- Whatever a party is handed under an identifier, the application of its peer has said under
it before. -/
theorem run_makes_nothing_up (library : CborLibrary) (lawful : library.Lawful)
    (start last next : Pair) (moves : List (Party × Act)) (move : Party × Act) (new : start.IsNew)
    (run : (trading library).Run start moves last)
    (enabled : (trading library).Enabled last move)
    (stepped : (trading library).step last move = .ok next) (party : Party) (id : SpudTubeId)
    (content : Option Cbor)
    (member : content ∈ (last.mgr party).handed (next.mgr party) id) :
    (trading library).Past start moves (Speaks library party.peer id content) := by
  have attested : Attested library start moves last := by
    refine run.preserves_history (Attested library start) ⟨new.tracked, ?_⟩ ?_
    · intro party datagram member
      rw [(new party).tracks.2] at member
      cases member
    · intro moves pair move next run attested enabled stepped
      exact attested.step lawful run enabled stepped
  obtain ⟨actor, call⟩ := move
  obtain ⟨acted, others⟩ := perform_eq stepped
  by_cases here : party = actor
  · subst here
    by_cases receives : ∃ env hasErr received, call = .receive env hasErr received
    · obtain ⟨env, hasErr, received, rfl⟩ := receives
      obtain ⟨⟨verdict, after⟩, returned, same⟩ := Exec.bind_eq_ok.mp acted
      cases same
      obtain ⟨find, tracks⟩ := attested.tracked party
      obtain ⟨datagram, sent, bytes⟩ := enabled.genuine env hasErr received rfl
      rcases tubeManagerLoopBody_handed tracks enabled.acts returned id with
        nothing | ⟨msg, parsed, own, command, handed⟩
      · rw [nothing] at member
        cases member
      · rw [handed] at member
        obtain rfl := List.mem_singleton.mp member
        have known := @Streams.letterFor_received library id _ _ _ bytes parsed
        rw [if_pos own] at known
        exact attested.sent party.peer datagram sent id _ known command
    · have nothing := @Streams.handed_calls library call id _ _ (attested.tracked party)
        enabled.acts acted fun env hasErr received same => receives ⟨env, hasErr, received, same⟩
      rw [nothing] at member
      cases member
  · have nothing : (last.mgr party).handed (next.mgr party) id = [] := by
      rw [others party here, TubeManager.handed, List.drop_length]
      rfl
    rw [nothing] at member
    cases member

end Runs

structure Sight (Seen : Type) where
  ready : Bool
  after : Option Seen
  deriving DecidableEq

def sight {Seen : Type} (ready : Pair → Bool) (move : Party × Act) (view : Pair → Seen)
    (pair : Pair) : Sight Seen :=
  ⟨ready pair, (pair.perform minimalCbor move).toOption.map view⟩

theorem exists_of_sight {Seen : Type} {ready : Pair → Bool} {move : Party × Act}
    {view : Pair → Seen} {pair : Pair} {seen : Seen}
    (sighted : sight ready move view pair = ⟨true, some seen⟩) :
    ready pair = true ∧ ∃ next, pair.perform minimalCbor move = .ok next ∧ view next = seen := by
  obtain ⟨ready, after⟩ := Sight.mk.inj sighted
  exact ⟨ready, Exec.exists_of_map view after⟩

def wasSent (party : Party) (bytes : List UInt8) (pair : Pair) : Bool :=
  decide (bytes ∈ pair.sentBytes party.peer)

theorem run_makes_nothing_up_byte : ∃ last next : Pair, ∃ moves : List (Party × Act),
    ∃ content ∈ (last.mgr .responder).handed (next.mgr .responder) ⟨fun _ => 7⟩,
      (trading minimalCbor).Past strangers moves
        (Speaks minimalCbor .initiator ⟨fun _ => 7⟩ content) := by
  let bytes := (sentHeader ⟨fun _ => 7⟩ .spudData false false).bytes ++ [0xa1, 0, 0x41, 1]
  let opens := bareHeader ⟨fun _ => 7⟩ .spudOpen
  let acks := bareHeader ⟨fun _ => 7⟩ .spudAck
  let asks : Party × Act := (.initiator, .openTube obliging (.inet 1402 0x7f000001))
  let accepts : Party × Act := (.responder, .receive obliging true opens)
  let acknowledges : Party × Act := (.initiator, .receive obliging true acks)
  let speaks : Party × Act := (.initiator, .data obliging 0 [1])
  let hears : Party × Act := (.responder, .receive obliging true (arrival bytes))
  let stores (pair : Pair) : Bool :=
    decide (((pair.mgr .initiator).lookup ⟨fun _ => 7⟩).toOption = some (some 0))
  let handing (pair : Pair) : Sight Nat :=
    ⟨wasSent .responder bytes pair, (pair.perform minimalCbor hears).toOption.map fun next =>
      ((pair.mgr .responder).handed (next.mgr .responder) ⟨fun _ => 7⟩).length⟩
  obtain ⟨_, asked, ask, seen⟩ := exists_of_sight
    (show sight (fun _ => true) asks (sight (wasSent .responder opens.bytes) accepts
        (sight (wasSent .initiator acks.bytes) acknowledges (sight stores speaks handing)))
        strangers =
      ⟨true, some ⟨true, some ⟨true, some ⟨true, some ⟨true, some 1⟩⟩⟩⟩⟩ by decide +kernel)
  obtain ⟨opened, accepted, accept, seen⟩ := exists_of_sight seen
  obtain ⟨acked, running, acknowledge, seen⟩ := exists_of_sight seen
  obtain ⟨stored, last, speak, seen⟩ := exists_of_sight seen
  obtain ⟨sent, seen⟩ := Sight.mk.inj seen
  obtain ⟨next, hear, handed⟩ := Exec.exists_of_map _ seen
  obtain ⟨content, one⟩ := List.length_eq_one_iff.mp handed
  have member : content ∈ (last.mgr .responder).handed (next.mgr .responder) ⟨fun _ => 7⟩ :=
    one ▸ List.mem_singleton.mpr rfl
  -- what arrives has been sent
  have hearing : ∀ {pair : Pair} {party : Party} {received : Reception},
      wasSent party received.bytes pair = true → (trading minimalCbor).Enabled pair
        (party, .receive obliging true received) := by
    intro pair party received genuine
    refine ⟨obliging_refused, fun _ _ _ => nofun, ?_⟩
    rintro _ _ _ ⟨⟩
    exact genuine_of_sentBytes (of_decide_eq_true genuine)
  refine ⟨last, next, _, content, member, run_makes_nothing_up minimalCbor minimalCbor_lawful
    strangers last next [asks, accepts, acknowledges, speaks] hears strangers_isNew ?_
    (hearing sent) hear .responder _ content member⟩
  refine .cons ⟨obliging_refused, fun _ _ _ => nofun, fun _ _ _ => nofun⟩ ask ?_
  refine .cons (hearing opened) accept ?_
  refine .cons (hearing acked) acknowledge ?_
  refine .cons ⟨⟨⟨fun _ => 7⟩, Exec.eq_ok_of_toOption (of_decide_eq_true stored)⟩, ?_,
    fun _ _ _ => nofun⟩ speak (.nil last)
  rintro _ _ _ ⟨⟩
  decide

end Pair

end SpudLib
