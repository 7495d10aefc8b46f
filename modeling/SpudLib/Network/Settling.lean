import SpudLib.Foundation.System
import SpudLib.Tube.Reacting

/-!
# A network settles

Any number of managers send datagrams to each other.  When their applications
rest, only an `OPEN` is answered, and the answer is an `ACK`, so that every
delivery brings the network closer to silence.
-/

namespace SpudLib

open TubeManager

def Reception.opens (library : CborLibrary) (received : Reception) : Bool :=
  match spudParse library received.buf with
  | .ok msg => SpudCommand.ofFlags msg.header.flags = .spudOpen
  | .error _ => false

/-- Managers, and the datagrams on their way, each with the manager it goes to. -/
structure Network (Index : Type) where
  managers : Index → TubeManager
  inFlight : List (Index × Reception)

/-- A datagram on its way is lost, or it is delivered; `route` says where a datagram
that is sent meanwhile goes, and what arrives there. -/
inductive Transit (Index : Type) where
  | lose (position : Nat)
  | deliver (position : Nat) (env : Environment) (hasErr : Bool)
      (route : Datagram → Option (Index × Reception))

namespace Network

variable {Index : Type} [DecidableEq Index] (library : CborLibrary)

def perform (network : Network Index) : Transit Index → Exec (Network Index)
  | .lose position => .ok { network with inFlight := network.inFlight.eraseIdx position }
  | .deliver position env hasErr route =>
      match network.inFlight[position]? with
      | none => .ok network
      | some (index, received) => do
          let mgr := network.managers index
          let (_, after) ← (tubeManagerLoopBody env library hasErr received).straight mgr
          pure {
            managers := Function.update network.managers index after
            inFlight := network.inFlight.eraseIdx position ++
              (mgr.posted after).filterMap route }

/-- Datagrams arrive as they were sent, somewhere; an array of `2 ^ 30` buckets cannot
be allocated. -/
def Allowed (network : Network Index) : Transit Index → Prop
  | .lose position => position < network.inFlight.length
  | .deliver position env _ route => position < network.inFlight.length ∧
      (∀ size, 2 ^ 30 ≤ size → env.calloc size = false) ∧
      ∀ datagram index received, route datagram = some (index, received) →
        received.bytes = datagram.bytes

def system : System (Network Index) (Transit Index) where
  Enabled := Allowed
  step := perform library

/-- How many deliveries a datagram can still cause, itself included. -/
def cost (entry : Index × Reception) : Nat := if entry.2.opens library then 2 else 1

def weight (network : Network Index) : Nat := (network.inFlight.map (cost library)).sum

end Network

/-- Nothing is sent, or the datagram is an `OPEN` and one `ACK` goes back to its source. -/
def TubeManager.AnswersOnce (mgr : TubeManager) (library : CborLibrary) (received : Reception)
    (after : TubeManager) : Prop :=
  mgr.posted after = [] ∨ ∃ msg ack, spudParse library received.buf = .ok msg ∧
    SpudCommand.ofFlags msg.header.flags = .spudOpen ∧ mgr.posted after = [ack] ∧
    ack.dest = received.source ∧ Carries msg.header.tubeId .spudAck ack.bytes

section Answers

variable {library : CborLibrary} {mgr after : TubeManager} {env : Environment}
  {received : Reception}

theorem Luck.react_heard_sent (luck : Luck) (responds : Bool) (held : Option TubeState)
    (cmd : SpudCommand) : (luck.react responds held (.heard cmd)).sent = [] ∨
      (luck.react responds held (.heard cmd)).sent = [.spudAck] := by
  cases held with
  | none =>
    rw [react, hear]
    split_ifs
    · unfold accept sent
      split_ifs <;> simp
    · exact .inl rfl
  | some state =>
    refine .inl ?_
    by_cases idle : Environment.acts cmd state = false
    · rw [react, hear_idle idle]
    · rw [Bool.not_eq_false] at idle
      simp only [react, hear, idle, if_true]
      cases cmd with
      | spudData => rfl
      | spudOpen => rfl
      | spudAck => rfl
      | spudClose =>
        simp only
        split_ifs <;> rfl

theorem tubeManagerLoopBody_answers (tracked : mgr.Tracked)
    (refused : ∀ size, 2 ^ 30 ≤ size → env.calloc size = false) {hasErr : Bool} {verdict : Verdict}
    (returned : (tubeManagerLoopBody env library hasErr received).straight mgr =
      .ok (verdict, after)) :
    after.Tracked ∧ mgr.AnswersOnce library received after := by
  obtain ⟨find, tracks⟩ := tracked
  have reacts := tubeManagerLoopBody_reacts tracks refused returned
  cases parsed : spudParse library received.buf with
  | error reason =>
    rw [parsed] at reacts
    exact ⟨reacts.2.1, .inl reacts.1⟩
  | ok msg =>
    rw [parsed] at reacts
    obtain ⟨luck, _, acks, trackedAfter, reacts⟩ := reacts
    refine ⟨trackedAfter, ?_⟩
    have posted := reacts.posted
    rcases luck.react_heard_sent mgr.tubeManagerIsResponder (mgr.held msg.header.tubeId)
      (SpudCommand.ofFlags msg.header.flags) with silent | single
    · rw [silent] at posted
      exact .inl (List.forall₂_nil_right_iff.mp posted)
    · rw [single] at posted
      obtain ⟨ack, rest, carries, done, whole⟩ := List.forall₂_cons_right_iff.mp posted
      rw [List.forall₂_nil_right_iff.mp done] at whole
      obtain ⟨command, same⟩ := acks ack (by rw [whole]; exact List.mem_cons_self)
      refine .inr ⟨msg, ack, parsed, command, whole, ?_, carries⟩
      rw [same]
      rfl

end Answers

namespace Network

section Runs

variable {Index : Type} {library : CborLibrary} {network next start last : Network Index}
  {transit : Transit Index} {labels : List (Transit Index)}

theorem cost_pos (entry : Index × Reception) : 0 < cost library entry := by
  unfold cost
  split_ifs <;> decide

theorem weight_eraseIdx {position : Nat} {entry : Index × Reception}
    (there : network.inFlight[position]? = some entry) :
    ((network.inFlight.eraseIdx position).map (cost library)).sum + cost library entry =
      network.weight library := by
  obtain ⟨inside, rfl⟩ := List.getElem?_eq_some_iff.mp there
  have perm := (List.getElem_cons_eraseIdx_perm inside).map (cost library)
  rw [weight, ← perm.sum_eq, List.map_cons, List.sum_cons, Nat.add_comm]

/-- What a delivery brings under way costs less than what it takes away. -/
theorem cost_answers {mgr after : TubeManager} {received : Reception} (index : Index)
    (answers : mgr.AnswersOnce library received after)
    {route : Datagram → Option (Index × Reception)}
    (faithful : ∀ datagram index received, route datagram = some (index, received) →
      received.bytes = datagram.bytes) :
    (((mgr.posted after).filterMap route).map (cost library)).sum <
      cost library (index, received) := by
  rcases answers with silent | ⟨msg, ack, parsed, command, single, _, carries⟩
  · rw [silent]
    exact cost_pos _
  · have opening : cost library (index, received) = 2 := by
      rw [cost, Reception.opens, parsed]
      simp [command]
    rw [single, opening]
    cases routed : route ack with
    | none => simp [routed]
    | some entry =>
      obtain ⟨index, arrived⟩ := entry
      rw [← faithful ack index arrived routed] at carries
      have closed : arrived.opens library = false := by
        unfold Reception.opens
        split
        next other accepted =>
          rw [(carries.parsed accepted).2]
          rfl
        next => rfl
      simp [routed, cost, closed]

variable [DecidableEq Index]

/-- One step: the managers stay sound, and the weight goes down. -/
theorem step_lighter (tracked : ∀ index, (network.managers index).Tracked)
    (enabled : (system library).Enabled network transit)
    (stepped : (system library).step network transit = .ok next) :
    (∀ index, (next.managers index).Tracked) ∧
      next.weight library < network.weight library := by
  cases transit with
  | lose position =>
    cases stepped
    refine ⟨tracked, ?_⟩
    have erased := @weight_eraseIdx Index library network position _
      (List.getElem?_eq_getElem enabled)
    have positive : 0 < cost library network.inFlight[position] := cost_pos _
    rw [weight, ← erased]
    exact Nat.lt_add_of_pos_right positive
  | deliver position env hasErr route =>
    obtain ⟨inside, refused, faithful⟩ := enabled
    obtain ⟨⟨index, received⟩, there⟩ : ∃ entry, network.inFlight[position]? = some entry :=
      ⟨_, List.getElem?_eq_getElem inside⟩
    simp only [system, perform, there] at stepped
    obtain ⟨⟨verdict, after⟩, returned, same⟩ := Exec.bind_eq_ok.mp stepped
    cases same
    obtain ⟨trackedAfter, answers⟩ :=
      tubeManagerLoopBody_answers (tracked index) refused returned
    constructor
    · intro other
      change (Function.update network.managers index after other).Tracked
      by_cases here : other = index
      · rw [here, Function.update_self]
        exact trackedAfter
      · rw [Function.update_of_ne here]
        exact tracked other
    · have erased := @weight_eraseIdx Index library network position _ there
      have less := cost_answers index answers faithful
      rw [weight, List.map_append, List.sum_append, ← erased]
      exact Nat.add_lt_add_left less _

/-- From any managers that find tubes under their own identifiers, whatever datagrams are
on their way, every sequence of deliveries and losses is finite, and no delivery is
answered but that of an `OPEN`, by one `ACK`. -/
theorem run_settles (library : CborLibrary) (start last : Network Index)
    (labels : List (Transit Index)) (tracked : ∀ index, (start.managers index).Tracked)
    (run : (system library).Run start labels last) :
    labels.length + last.weight library ≤ start.weight library ∧
      ∀ index env hasErr received verdict after,
        (∀ size, 2 ^ 30 ≤ size → env.calloc size = false) →
        (tubeManagerLoopBody env library hasErr received).straight (last.managers index) =
          .ok (verdict, after) →
        (last.managers index).AnswersOnce library received after := by
  induction run with
  | nil state =>
    refine ⟨by rw [List.length_nil, Nat.zero_add], ?_⟩
    intro index env hasErr received verdict after refused returned
    exact (tubeManagerLoopBody_answers (tracked index) refused returned).2
  | cons enabled stepped _ inductionHypothesis =>
    obtain ⟨trackedNext, lighter⟩ := step_lighter tracked enabled stepped
    obtain ⟨short, answers⟩ := inductionHypothesis trackedNext
    refine ⟨?_, answers⟩
    rw [List.length_cons]
    omega

end Runs

def helloNetwork : Network Bool :=
  ⟨fun _ => newResponder, [(false, bareHeader ⟨fun _ => 7⟩ .spudOpen)]⟩

def deliverBack (datagram : Datagram) : Option (Bool × Reception) :=
  some (true, { bareHeader ⟨fun _ => 7⟩ .spudAck with bytes := datagram.bytes })

theorem run_settles_hello : ∃ last : Network Bool,
    (system minimalCbor).Run helloNetwork
      [.deliver 0 obliging true deliverBack, .lose 0] last ∧ last.weight minimalCbor = 0 := by
  obtain ⟨last, run⟩ : ∃ last, (system minimalCbor).Run helloNetwork
      [.deliver 0 obliging true deliverBack, .lose 0] last := by
    have faithful : ∀ datagram index received,
        deliverBack datagram = some (index, received) → received.bytes = datagram.bytes := by
      intro datagram index received routed
      cases routed
      rfl
    have here : (0 : Nat) < 1 := Nat.one_pos
    exact ⟨_, .cons ⟨here, obliging_refused, faithful⟩ rfl (.cons here rfl (.nil _))⟩
  obtain ⟨short, _⟩ :=
    run_settles minimalCbor helloNetwork last _ (fun _ => ⟨_, newResponder_holds.tracks⟩) run
  have light : helloNetwork.weight minimalCbor = 2 := by decide
  refine ⟨last, run, ?_⟩
  rw [light, List.length_cons, List.length_cons, List.length_nil] at short
  omega

end Network

end SpudLib
