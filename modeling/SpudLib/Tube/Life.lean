import SpudLib.Tube.Tube

/-!
# The life of a tube

What a manager is for, seen from one tube: the phases of its life and what may
happen in each.  A tube is destroyed at most once, and the events triggered for
it follow the protocol that its state is there to enforce.
-/

namespace SpudLib

inductive Deed where
  | event (event : TubeEvent)
  | destroyed
  deriving DecidableEq

/-- Who made the tube: `tube_manager_open_tube`, an `OPEN`, or the application. -/
inductive Origin where
  | opened
  | accepted
  | added
  deriving DecidableEq

inductive Phase where
  | absent
  | detached (state : TubeState)
  | managed (origin : Origin) (state : TubeState)
  | destroyed (origin : Origin)

/-- What may happen in a phase, and the phase it leads to. -/
inductive Phase.Step : Phase → List Deed → Phase → Prop where
  | failed (origin) : Step .absent [.destroyed] (.destroyed origin)
  | made (state) : Step .absent [] (.detached state)
  | set (state state') : Step (.detached state) [] (.detached state')
  | added (state) : Step (.detached state) [.event .add] (.managed .added state)
  | opened : Step .absent [.event .add] (.managed .opened .opening)
  | accepted : Step .absent [.event .add] (.managed .accepted .running)
  | data (origin) :
      Step (.managed origin .running) [.event .data] (.managed origin .running)
  | acked (origin) :
      Step (.managed origin .opening) [.event .running] (.managed origin .running)
  | closed (origin state) : Step (.managed origin state) [] (.managed origin .unknown)
  | hungUp (origin state) : state ≠ .unknown →
      Step (.managed origin state) [.event .close, .event .remove, .destroyed]
        (.destroyed origin)
  | removed (origin state) :
      Step (.managed origin state) [.event .remove, .destroyed] (.destroyed origin)
  | dropped (origin state) : Step (.managed origin state) [.destroyed] (.destroyed origin)

/-- The phase can be reached, and the deeds are what happened until then. -/
inductive Lived : Phase → List Deed → Prop where
  | absent : Lived .absent []
  | step {phase story deeds next} : Lived phase story → Phase.Step phase deeds next →
      Lived next (story ++ deeds)

/-- The events that a tube in the table has seen, by its origin and state. -/
def Phase.Events : Origin → TubeState → List TubeEvent → Prop
  | .opened, .opening, events => events = [.add]
  | .opened, .running, events => ∃ n, events = .add :: .running :: List.replicate n .data
  | .opened, .unknown, events =>
      events = [.add] ∨ ∃ n, events = .add :: .running :: List.replicate n .data
  | .accepted, .running, events | .accepted, .unknown, events =>
      ∃ n, events = .add :: List.replicate n .data
  | .added, _, _ => True
  | _, _, _ => False

def endings : List (List TubeEvent) := [[], [.remove], [.close, .remove]]

def Phase.Told : Phase → List Deed → Prop
  | .absent, story | .detached _, story => story = []
  | .managed origin state, story =>
      ∃ events, Phase.Events origin state events ∧ story = events.map .event
  | .destroyed origin, story => story = [.destroyed] ∨
      ∃ state events ending, Phase.Events origin state events ∧ ending ∈ endings ∧
        story = (events ++ ending).map .event ++ [.destroyed]

theorem Phase.Events.closed {origin : Origin} {state : TubeState} {events : List TubeEvent}
    (seen : Phase.Events origin state events) : Phase.Events origin .unknown events := by
  cases origin with
  | opened =>
    cases state with
    | opening => exact .inl seen
    | running => exact .inr seen
    | unknown => exact seen
    | start => exact seen.elim
    | resuming => exact seen.elim
  | accepted =>
    cases state with
    | running => exact seen
    | unknown => exact seen
    | start => exact seen.elim
    | opening => exact seen.elim
    | resuming => exact seen.elim
  | added => trivial

theorem Phase.Events.data {origin : Origin} {events : List TubeEvent}
    (seen : Phase.Events origin .running events) :
    Phase.Events origin .running (events ++ [.data]) := by
  cases origin with
  | opened =>
    obtain ⟨n, rfl⟩ := seen
    exact ⟨n + 1, by rw [List.replicate_succ']; rfl⟩
  | accepted =>
    obtain ⟨n, rfl⟩ := seen
    exact ⟨n + 1, by rw [List.replicate_succ']; rfl⟩
  | added => trivial

theorem Phase.Events.acked {origin : Origin} {events : List TubeEvent}
    (seen : Phase.Events origin .opening events) :
    Phase.Events origin .running (events ++ [.running]) := by
  cases origin with
  | opened =>
    obtain rfl : events = [.add] := seen
    exact ⟨0, rfl⟩
  | accepted => exact seen.elim
  | added => trivial

theorem Phase.Told.ended {origin : Origin} {state : TubeState} {story : List Deed}
    (told : Phase.Told (.managed origin state) story) {ending : List TubeEvent}
    (known : ending ∈ endings) :
    Phase.Told (.destroyed origin) (story ++ (ending.map .event ++ [.destroyed])) := by
  obtain ⟨events, seen, rfl⟩ := told
  refine .inr ⟨state, events, ending, seen, known, ?_⟩
  rw [List.map_append, List.append_assoc]

theorem Phase.Told.step {phase next : Phase} {story deeds : List Deed}
    (told : phase.Told story) (stepped : Phase.Step phase deeds next) :
    next.Told (story ++ deeds) := by
  cases stepped with
  | failed origin =>
    obtain rfl : story = [] := told
    exact .inl rfl
  | made state =>
    obtain rfl : story = [] := told
    rfl
  | set state state' =>
    obtain rfl : story = [] := told
    rfl
  | added state =>
    obtain rfl : story = [] := told
    exact ⟨[.add], trivial, rfl⟩
  | opened =>
    obtain rfl : story = [] := told
    exact ⟨[.add], rfl, rfl⟩
  | accepted =>
    obtain rfl : story = [] := told
    exact ⟨[.add], ⟨0, rfl⟩, rfl⟩
  | data origin =>
    obtain ⟨events, seen, rfl⟩ := told
    exact ⟨events ++ [.data], seen.data, by rw [List.map_append]; rfl⟩
  | acked origin =>
    obtain ⟨events, seen, rfl⟩ := told
    exact ⟨events ++ [.running], seen.acked, by rw [List.map_append]; rfl⟩
  | closed origin state =>
    obtain ⟨events, seen, rfl⟩ := told
    exact ⟨events, seen.closed, List.append_nil _⟩
  | hungUp origin state known => exact @ended origin state story told [.close, .remove] (by decide)
  | removed origin state => exact @ended origin state story told [.remove] (by decide)
  | dropped origin state => exact @ended origin state story told [] (by decide)

theorem Lived.told {phase : Phase} {story : List Deed} (lived : Lived phase story) :
    phase.Told story := by
  induction lived with
  | absent => rfl
  | step _ stepped inductionHypothesis => exact inductionHypothesis.step stepped

def Phase.deaths : Phase → Nat
  | .destroyed _ => 1
  | _ => 0

theorem count_destroyed_events (events : List TubeEvent) :
    (events.map Deed.event).count .destroyed = 0 := by
  refine List.count_eq_zero.mpr fun member => ?_
  obtain ⟨event, _, same⟩ := List.mem_map.mp member
  cases same

theorem Phase.Told.deaths {phase : Phase} {story : List Deed} (told : phase.Told story) :
    story.count .destroyed = phase.deaths := by
  cases phase with
  | absent =>
    obtain rfl : story = [] := told
    rfl
  | detached state =>
    obtain rfl : story = [] := told
    rfl
  | managed origin state =>
    obtain ⟨events, _, rfl⟩ := told
    exact count_destroyed_events events
  | destroyed origin =>
    rcases told with rfl | ⟨state, events, ending, _, _, rfl⟩
    · rfl
    · rw [List.count_append, count_destroyed_events]
      rfl

def events (story : List Deed) : List TubeEvent :=
  story.filterMap fun deed => match deed with
    | .event event => some event
    | .destroyed => none

@[simp] theorem events_map (seen : List TubeEvent) : events (seen.map .event) = seen := by
  rw [events, List.filterMap_map]
  exact List.filterMap_some

theorem events_append (first second : List Deed) :
    events (first ++ second) = events first ++ events second :=
  List.filterMap_append

/-- `add`, then at most one `running` if the tube was opened here, any number of
`data`, at most one `close` and at most one `remove`. -/
def ProtocolWord (opened : Bool) (word : List TubeEvent) : Prop :=
  ∃ r n c m, r ≤ (if opened then 1 else 0) ∧ c ≤ 1 ∧ m ≤ 1 ∧
    word = .add :: (List.replicate r .running ++ (List.replicate n .data ++
      (List.replicate c .close ++ List.replicate m .remove)))

/-- What the events of one tube obey. -/
structure Protocol (opened : Bool) (seen : List TubeEvent) : Prop where
  word : ∃ word, ProtocolWord opened word ∧ seen <+: word
  runningFirst : opened = true → ∀ before after, seen = before ++ .data :: after →
    .running ∈ before
  closeRemove : ∀ before after, seen = before ++ .close :: after →
    ∃ rest, after = .remove :: rest

theorem Protocol.empty (opened : Bool) : Protocol opened [] where
  word := ⟨[.add], ⟨0, 0, 0, 0, Nat.zero_le _, by decide, by decide, rfl⟩, List.nil_prefix⟩
  runningFirst _ before after none := by
    cases before <;> cases none
  closeRemove before after none := by
    cases before <;> cases none

theorem protocolWord_of_ending {opened : Bool} {r n : Nat}
    (once : r ≤ (if opened then 1 else 0)) {ending : List TubeEvent}
    (known : ending ∈ endings) :
    ProtocolWord opened
      ((.add :: (List.replicate r .running ++ List.replicate n .data)) ++ ending) := by
  have shape : ∃ c m, c ≤ 1 ∧ m ≤ 1 ∧
      ending = List.replicate c .close ++ List.replicate m .remove := by
    simp only [endings, List.mem_cons, List.not_mem_nil, or_false] at known
    rcases known with rfl | rfl | rfl
    · exact ⟨0, 0, by decide, by decide, rfl⟩
    · exact ⟨0, 1, by decide, by decide, rfl⟩
    · exact ⟨1, 1, by decide, by decide, rfl⟩
  obtain ⟨c, m, few, fewer, rfl⟩ := shape
  refine ⟨r, n, c, m, once, few, fewer, ?_⟩
  rw [List.cons_append, List.append_assoc]

theorem close_then_remove {seen ending : List TubeEvent} (open_ : .close ∉ seen)
    (known : ending ∈ endings) {before after : List TubeEvent}
    (split : seen ++ ending = before ++ .close :: after) : ∃ rest, after = .remove :: rest := by
  have inside : ∃ front, ending = front ++ .close :: after := by
    rcases List.append_eq_append_iff.mp split with ⟨front, _, same⟩ | ⟨back, same, rest⟩
    · exact ⟨front, same⟩
    · cases back with
      | nil => exact ⟨[], rest.symm⟩
      | cons first back =>
        rw [List.cons_append, List.cons.injEq] at rest
        refine absurd ?_ open_
        rw [same, ← rest.1]
        simp
  obtain ⟨front, same⟩ := inside
  simp only [endings, List.mem_cons, List.not_mem_nil, or_false] at known
  rcases known with rfl | rfl | rfl
  · cases front <;> cases same
  · cases front with
    | nil => cases same
    | cons first front => cases front <;> cases same
  · cases front with
    | nil =>
      cases same
      exact ⟨[], rfl⟩
    | cons first front =>
      cases front with
      | nil => cases same
      | cons second front => cases front <;> cases same

theorem protocol_of_ending {opened : Bool} {r n : Nat} (once : r ≤ (if opened then 1 else 0))
    (first : opened = true → 0 < n → r = 1) {ending : List TubeEvent}
    (known : ending ∈ endings) :
    Protocol opened
      ((.add :: (List.replicate r .running ++ List.replicate n .data)) ++ ending) where
  word := ⟨_, protocolWord_of_ending once known, List.prefix_refl _⟩
  runningFirst here before after split := by
    have data : TubeEvent.data ∈ List.replicate n TubeEvent.data := by
      have member : TubeEvent.data ∈
          (.add :: (List.replicate r .running ++ List.replicate n .data)) ++ ending := by
        rw [split]
        simp
      have foreign : TubeEvent.data ∉ ending := by
        simp only [endings, List.mem_cons, List.not_mem_nil, or_false] at known
        rcases known with rfl | rfl | rfl <;> decide
      simpa [foreign] using member
    obtain rfl : r = 1 := first here (Nat.pos_of_ne_zero (List.mem_replicate.mp data).1)
    cases before with
    | nil => cases split
    | cons one before =>
      cases before with
      | nil => cases split
      | cons two before =>
        simp only [List.replicate_one, List.cons_append, List.cons.injEq] at split
        rw [← split.2.1]
        simp
  closeRemove before after split := by
    refine close_then_remove ?_ known split
    simp [List.mem_replicate]

theorem Phase.Events.word {origin : Origin} {state : TubeState} {seen : List TubeEvent}
    (events : Phase.Events origin state seen) (inner : origin ≠ .added) :
    ∃ r n, r ≤ (if decide (origin = .opened) then 1 else 0) ∧
      (decide (origin = .opened) = true → 0 < n → r = 1) ∧
      seen = .add :: (List.replicate r .running ++ List.replicate n .data) := by
  cases origin with
  | opened =>
    have shape : seen = [.add] ∨ ∃ n, seen = .add :: .running :: List.replicate n .data := by
      cases state with
      | opening => exact .inl events
      | running => exact .inr events
      | unknown => exact events
      | start => exact events.elim
      | resuming => exact events.elim
    rcases shape with rfl | ⟨n, rfl⟩
    · exact ⟨0, 0, by decide, fun _ none => absurd none (by decide), rfl⟩
    · exact ⟨1, n, by decide, fun _ _ => rfl, rfl⟩
  | accepted =>
    obtain ⟨n, rfl⟩ : ∃ n, seen = .add :: List.replicate n .data := by
      cases state with
      | running => exact events
      | unknown => exact events
      | start => exact events.elim
      | opening => exact events.elim
      | resuming => exact events.elim
    exact ⟨0, n, by decide, fun same => absurd same (by decide), rfl⟩
  | added => exact absurd rfl inner

def Phase.origin? : Phase → Option Origin
  | .managed origin _ | .destroyed origin => some origin
  | _ => none

/-- The events of a tube follow the protocol, unless the application made it. -/
theorem Phase.Told.protocol {phase : Phase} {story : List Deed} (told : phase.Told story)
    (inner : phase.origin? ≠ some .added) :
    Protocol (decide (phase.origin? = some .opened)) (events story) := by
  cases phase with
  | absent =>
    obtain rfl : story = [] := told
    exact Protocol.empty _
  | detached state =>
    obtain rfl : story = [] := told
    exact Protocol.empty _
  | managed origin state =>
    obtain ⟨seen, events, rfl⟩ := told
    obtain ⟨r, n, once, first, rfl⟩ := events.word fun same => inner (congrArg some same)
    have protocol := protocol_of_ending once first (List.mem_cons_self : [] ∈ endings)
    rw [List.append_nil] at protocol
    rw [events_map]
    simpa [Phase.origin?] using protocol
  | destroyed origin =>
    rcases told with rfl | ⟨state, seen, ending, events, known, rfl⟩
    · exact Protocol.empty _
    · obtain ⟨r, n, once, first, rfl⟩ := events.word fun same => inner (congrArg some same)
      have protocol := protocol_of_ending once first known
      rw [events_append, events_map]
      simpa [Phase.origin?, SpudLib.events] using protocol

end SpudLib
