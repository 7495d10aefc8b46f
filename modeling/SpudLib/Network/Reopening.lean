import SpudLib.Network.Handshake

/-!
# Copies of an `OPEN`

A manager forgets a tube with its table entry.  As long as the responder holds
the tube a second `OPEN` is a no-op; after a `CLOSE` it opens the tube again.
-/

namespace SpudLib

open TubeManager

/-- Two parties, and the events the responder has triggered so far. -/
structure Recorded where
  pair : Pair
  log : List (Option SpudTubeId × TubeEvent)

namespace Recorded

def perform (library : CborLibrary) (recorded : Recorded) (move : Party × Act) :
    Exec Recorded := do
  let next ← recorded.pair.perform library move
  pure ⟨next, recorded.log ++ (recorded.pair.mgr .responder).named (next.mgr .responder)⟩

/-- The parties on a lossy network; the responder only receives. -/
def system (library : CborLibrary) : System Recorded (Party × Act) where
  Enabled recorded move := (Pair.lossy library).Enabled recorded.pair move ∧
    (move.1 = .responder → ∃ env hasErr received, move.2 = .receive env hasErr received)
  step := perform library

/-- No `OPEN` arrives once the event close was triggered. -/
def NotLate (library : CborLibrary) (id : SpudTubeId) (recorded : Recorded)
    (move : Party × Act) : Prop :=
  (some id, .close) ∈ recorded.log → move.1 = .responder →
    ¬ (recorded.pair.mgr .responder).Cues library id move.2 (.heard .spudOpen)

def count (recorded : Recorded) (id : SpudTubeId) (event : TubeEvent) : Nat :=
  recorded.log.count (some id, event)

def held (recorded : Recorded) (id : SpudTubeId) : Option TubeState :=
  (recorded.pair.mgr .responder).held id

section Runs

variable {library : CborLibrary} {recorded next start last : Recorded} {move : Party × Act}
  {moves : List (Party × Act)} {id : SpudTubeId}

theorem step_cases (tracked : recorded.pair.Tracked)
    (enabled : (system library).Enabled recorded move)
    (stepped : (system library).step recorded move = .ok next) (id : SpudTubeId) :
    next.pair.Tracked ∧
      (next.held id = recorded.held id ∧ (∀ event, next.count id event = recorded.count id event) ∨
      ∃ cmd reply, move.1 = .responder ∧
        (recorded.pair.mgr .responder).Cues library id move.2 (.heard cmd) ∧
        Reaction (recorded.held id) (.heard cmd) reply ∧ next.held id = reply.held ∧
        ∀ event, next.count id event = recorded.count id event + reply.events.count event) := by
  obtain ⟨party, call⟩ := move
  obtain ⟨after, performed, same⟩ := Exec.bind_eq_ok.mp stepped
  cases same
  obtain ⟨acted, others⟩ := Pair.perform_eq performed
  have counts : ∀ event, (recorded.log ++ (recorded.pair.mgr .responder).named
      (after.mgr .responder)).count (some id, event) = recorded.count id event +
        ((recorded.pair.mgr .responder).named (after.mgr .responder)).count (some id, event) :=
    fun event => List.count_append
  have tracks : ∀ mine : (after.mgr party).Tracked, after.Tracked := by
    intro mine other
    by_cases here : other = party
    · exact here ▸ mine
    · rw [others other here]
      exact tracked other
  cases party with
  | initiator =>
    have same : after.mgr .responder = recorded.pair.mgr .responder := others .responder nofun
    have quiet : (recorded.pair.mgr .responder).named (after.mgr .responder) = [] := by
      rw [same, TubeManager.named, List.drop_length]
      rfl
    have mine : (after.mgr .initiator).Tracked := by
      rcases (tracked .initiator).act enabled.1.1.1 acted with rests | ⟨_, _, _, _, _, mine, _⟩
      · exact rests.1
      · exact mine
    refine ⟨tracks mine, .inl ⟨?_, ?_⟩⟩
    · exact congrArg (fun mgr : TubeManager => mgr.held id) same
    · intro event
      refine (counts event).trans ?_
      rw [quiet]
      rfl
  | responder =>
    obtain ⟨env, hasErr, received, rfl⟩ := enabled.2 rfl
    rcases (tracked .responder).act enabled.1.1.1 acted with
      ⟨mine, still⟩ | ⟨name, cue, luck, cues, _, mine, reacts⟩
    · refine ⟨tracks mine, .inl ⟨(still id).own, ?_⟩⟩
      intro event
      refine (counts event).trans ?_
      rw [(still id).named]
      rfl
    · refine ⟨tracks mine, ?_⟩
      by_cases here : name = id
      · subst here
        cases cues.cued with
        | heard =>
          refine .inr ⟨_, _, rfl, cues, luck.reaction _ _ _, reacts.own, ?_⟩
          intro event
          refine (counts event).trans ?_
          have apart : Function.Injective fun event : TubeEvent => (some name, event) :=
            Prod.mk_right_injective _
          rw [reacts.named, List.count_map_of_injective _ _ apart]
          rfl
      · refine .inl ⟨reacts.others id fun same => here same.symm, ?_⟩
        intro event
        refine (counts event).trans ?_
        rw [reacts.named, List.count_eq_zero_of_not_mem]
        · rfl
        · intro member
          obtain ⟨_, _, same⟩ := List.mem_map.mp member
          cases same
          exact here rfl

theorem count_of_subset {events : List TubeEvent} {only event : TubeEvent}
    (few : events ⊆ [only]) (other : event ≠ only) : events.count event = 0 :=
  List.count_eq_zero_of_not_mem fun member => other (List.mem_singleton.mp (few member))

/-- A command enters a tube, which triggers add, or takes it down, which triggers close,
or triggers neither. -/
theorem Reaction.tally {held : Option TubeState} {cmd : SpudCommand} {reply : Reply}
    (reaction : Reaction held (.heard cmd) reply) :
    held = none ∧ cmd = .spudOpen ∧ reply.events.count .add = 1 ∧
        reply.events.count .close = 0 ∧ reply.held ≠ none ∨
      held ≠ none ∧ reply.held = none ∧ reply.events.count .add = 0 ∧
        reply.events.count .close = 1 ∨
      (reply.held = none → held = none) ∧ (held = none → reply.held = none ∨ cmd = .spudOpen) ∧
        reply.events.count .add = 0 ∧ reply.events.count .close = 0 := by
  cases reaction with
  | idle => exact .inr (.inr ⟨id, .inl, rfl, rfl⟩)
  | accepted => exact .inl ⟨rfl, rfl, rfl, rfl, nofun⟩
  | stunted => exact .inr (.inr ⟨nofun, fun _ => .inr rfl, rfl, rfl⟩)
  | told => exact .inr (.inr ⟨nofun, nofun, rfl, rfl⟩)
  | acked few =>
    exact .inr (.inr ⟨nofun, nofun, count_of_subset few (by decide),
      count_of_subset few (by decide)⟩)
  | hungUp _ few =>
    refine .inr (.inl ⟨nofun, rfl, ?_, ?_⟩)
    · exact (List.count_cons_of_ne (by decide)).trans (count_of_subset few (by decide))
    · exact List.count_cons_self.trans
        (congrArg Nat.succ (count_of_subset few (by decide)))
  | shut => exact .inr (.inr ⟨nofun, nofun, rfl, rfl⟩)

structure Counted (recorded : Recorded) (id : SpudTubeId) : Prop where
  tracked : recorded.pair.Tracked
  free : recorded.held id = none → recorded.count id .add ≤ recorded.count id .close
  taken : recorded.count id .add ≤ recorded.count id .close + 1

theorem Counted.step (counted : recorded.Counted id)
    (enabled : (system library).Enabled recorded move)
    (stepped : (system library).step recorded move = .ok next) : next.Counted id := by
  obtain ⟨tracked, free, taken⟩ := counted
  obtain ⟨trackedNext, ⟨held, counts⟩ | ⟨cmd, reply, _, _, reaction, held, counts⟩⟩ :=
    step_cases tracked enabled stepped id
  · refine ⟨trackedNext, ?_, ?_⟩
    · rw [held, counts, counts]
      exact free
    · rw [counts, counts]
      exact taken
  · have adds := counts .add
    have closes := counts .close
    refine ⟨trackedNext, ?_, ?_⟩
    · intro missing
      rw [held] at missing
      rcases Reaction.tally reaction with ⟨_, _, _, _, kept⟩ | ⟨_, _, none, one⟩ |
        ⟨was, _, none, zero⟩
      · exact absurd missing kept
      · omega
      · have before := free (was missing)
        omega
    · rcases Reaction.tally reaction with ⟨was, _, one, zero, _⟩ | ⟨_, _, none, one⟩ |
        ⟨_, _, none, zero⟩
      · have before := free was
        omega
      · omega
      · omega

/-- Without a late `OPEN` the tube is gone for good when it is closed. -/
structure Forgotten (recorded : Recorded) (id : SpudTubeId) : Prop where
  tracked : recorded.pair.Tracked
  gone : (some id, .close) ∈ recorded.log → recorded.held id = none
  once : recorded.count id .add ≤ 1
  fresh : (some id, .close) ∉ recorded.log → recorded.held id = none →
    recorded.count id .add = 0

theorem mem_log_iff : (some id, .close) ∈ recorded.log ↔ 0 < recorded.count id .close :=
  List.count_pos_iff.symm

theorem Forgotten.step (forgotten : recorded.Forgotten id)
    (enabled : (system library).Enabled recorded move) (notLate : NotLate library id recorded move)
    (stepped : (system library).step recorded move = .ok next) : next.Forgotten id := by
  obtain ⟨tracked, gone, once, fresh⟩ := forgotten
  rw [NotLate] at notLate
  rw [mem_log_iff] at gone fresh notLate
  obtain ⟨trackedNext, ⟨held, counts⟩ | ⟨cmd, reply, responder, cues, reaction, held, counts⟩⟩ :=
    step_cases tracked enabled stepped id
  · refine ⟨trackedNext, ?_, ?_, ?_⟩
    · rw [mem_log_iff, held, counts]
      exact gone
    · rw [counts]
      exact once
    · rw [mem_log_iff, held, counts, counts]
      exact fresh
  · have adds := counts .add
    have closes := counts .close
    have late : 0 < recorded.count id .close → cmd ≠ .spudOpen := by
      rintro shut rfl
      exact notLate shut responder cues
    rcases Reaction.tally reaction with ⟨was, opening, one, zero, kept⟩ | ⟨was, left, none, one⟩ |
      ⟨was, stays, none, zero⟩
    · have open_ : ¬ 0 < recorded.count id .close := fun shut => late shut opening
      have before := fresh open_ was
      refine ⟨trackedNext, ?_, by omega, ?_⟩
      · rw [mem_log_iff]
        omega
      · rw [held]
        exact fun _ missing => absurd missing kept
    · refine ⟨trackedNext, fun _ => held.trans left, by omega, ?_⟩
      rw [mem_log_iff]
      omega
    · refine ⟨trackedNext, ?_, by omega, ?_⟩
      · rw [mem_log_iff]
        intro shut
        have shutBefore : 0 < recorded.count id .close := by omega
        rcases stays (gone shutBefore) with left | opening
        · exact held.trans left
        · exact absurd opening (late shutBefore)
      · rw [mem_log_iff, held]
        intro open_ missing
        have before := fresh (by omega) (was missing)
        omega

def IsNew (recorded : Recorded) : Prop := recorded.pair.IsNew ∧ recorded.log = []

theorem IsNew.count (new : recorded.IsNew) (event : TubeEvent) : recorded.count id event = 0 := by
  rw [Recorded.count, new.2]
  rfl

/-- In every run the responder triggers add for an identifier at most once more often than
close, and as long as no `OPEN` arrives after the event close, it triggers add at most
once and holds no tube with the identifier after close. -/
theorem run_reopens_late (library : CborLibrary) (id : SpudTubeId) (start last : Recorded)
    (moves : List (Party × Act)) (new : start.IsNew) (run : (system library).Run start moves last) :
    last.count id .add ≤ last.count id .close + 1 ∧
      (((system library).restrict (NotLate library id)).Run start moves last →
        last.count id .add ≤ 1 ∧
          ((some id, .close) ∈ last.log → last.held id ≠ some .running)) := by
  have missing : start.held id = none := (new.1 .responder).held id
  constructor
  · have counted : start.Counted id := by
      refine ⟨new.1.tracked, ?_, ?_⟩
      · rw [new.count, new.count]
        exact fun _ => Nat.le_refl 0
      · rw [new.count]
        exact Nat.zero_le _
    refine (run.preserves (Counted · id) ?_ counted).taken
    intro recorded move next counted enabled stepped
    exact counted.step enabled stepped
  · intro timely
    have forgotten : start.Forgotten id := by
      refine ⟨new.1.tracked, fun _ => missing, ?_, fun _ _ => new.count .add⟩
      rw [new.count]
      exact Nat.zero_le 1
    have after := timely.preserves (Forgotten · id) (by
      intro recorded move next forgotten enabled stepped
      exact forgotten.step enabled.1 enabled.2 stepped) forgotten
    refine ⟨after.once, ?_⟩
    intro closed
    rw [after.gone closed]
    nofun

end Runs

theorem timely_of_open {library : CborLibrary} {id : SpudTubeId} {start last : Recorded}
    {moves : List (Party × Act)} (run : (system library).Run start moves last)
    (unshut : (some id, .close) ∉ last.log) :
    ((system library).restrict (NotLate library id)).Run start moves last ∧
      (some id, .close) ∉ start.log := by
  induction run with
  | nil => exact ⟨.nil _, unshut⟩
  | cons enabled stepped _ inductionHypothesis =>
    obtain ⟨rest, open_⟩ := inductionHypothesis unshut
    obtain ⟨_, _, same⟩ := Exec.bind_eq_ok.mp stepped
    cases same
    have earlier : (some id, TubeEvent.close) ∉ _ := fun member =>
      open_ (List.mem_append_left _ member)
    exact ⟨.cons ⟨enabled, fun shut => absurd shut earlier⟩ stepped rest, earlier⟩

def hearing (id : SpudTubeId) (commands : List SpudCommand) : List (Party × Act) :=
  commands.map fun cmd => (.responder, .receive obliging true (bareHeader id cmd))

def handle (id : SpudTubeId) (recorded : Recorded) (cmd : SpudCommand) : Exec Recorded := do
  let mgr := recorded.pair.mgr .responder
  let received := bareHeader id cmd
  let (_, after) ← (handleMessage obliging received ⟨⟨id, cmd.value⟩, none⟩).straight
    (mgr.at obliging received)
  pure ⟨⟨Function.update recorded.pair.mgr .responder after⟩, recorded.log ++ mgr.named after⟩

theorem perform_bareHeader (library : CborLibrary) (id : SpudTubeId) (recorded : Recorded)
    (cmd : SpudCommand) :
    perform library recorded (.responder, .receive obliging true (bareHeader id cmd)) =
      recorded.handle id cmd := by
  have filled : (bareHeader id cmd).buf ≠ [] := by
    cases cmd <;> nofun
  rw [perform, Pair.perform, act, tubeManagerLoopBody_parsed filled (bareHeader_parsed ..), handle]
  cases (handleMessage obliging (bareHeader id cmd) ⟨⟨id, cmd.value⟩, none⟩).straight
    ((recorded.pair.mgr .responder).at obliging (bareHeader id cmd)) with
  | error fault => rfl
  | ok result =>
    simp only [Exec.ok_bind, Exec.pure_eq_ok, Function.update_self]

theorem exists_hearing {library : CborLibrary} {id : SpudTubeId} {Seen : Type}
    (view : Recorded → Seen) {seen : Seen} (commands : List SpudCommand) (recorded : Recorded)
    (sent : ∀ cmd ∈ commands, (bareHeader id cmd).bytes ∈ recorded.pair.sentBytes .initiator)
    (same : (commands.foldlM (handle id) recorded).toOption.map view = some seen) :
    ∃ last, (system library).Run recorded (hearing id commands) last ∧ view last = seen := by
  induction commands generalizing recorded with
  | nil => exact ⟨recorded, .nil _, Option.some.inj same⟩
  | cons cmd rest inductionHypothesis =>
    have performed := perform_bareHeader library id recorded cmd
    rw [List.foldlM_cons] at same
    cases handled : recorded.handle id cmd with
    | error fault =>
      rw [handled] at same
      cases same
    | ok next =>
      rw [handled] at same performed
      have kept : next.pair.sentBytes .initiator = recorded.pair.sentBytes .initiator := by
        obtain ⟨after, moved, here⟩ := Exec.bind_eq_ok.mp performed
        cases here
        rw [Pair.sentBytes, Pair.sentBytes, (Pair.perform_eq moved).2 .initiator nofun]
      obtain ⟨last, run, known⟩ := inductionHypothesis next (fun other member =>
        kept ▸ sent other (List.mem_cons_of_mem _ member)) same
      refine ⟨last, .cons ⟨⟨⟨obliging_refused, fun _ _ => nofun⟩, ?_⟩, ?_⟩ performed run, known⟩
      · rintro _ _ _ ⟨⟩
        exact Pair.genuine_of_sentBytes (sent cmd List.mem_cons_self)
      · exact fun _ => ⟨obliging, true, _, rfl⟩

def openAndClose : List (Party × Act) :=
  [(.initiator, .openTube obliging (.inet 1402 0x7f000001)), (.initiator, .close obliging 0)]

theorem exists_openAndClose {Seen : Type} (view : Recorded → Seen) {seen : Seen}
    (commands : List SpudCommand) (known : commands ⊆ [.spudOpen, .spudClose])
    (same : (openAndClose.foldlM (perform minimalCbor) ⟨Pair.strangers, []⟩ >>= fun closed =>
      commands.foldlM (handle ⟨fun _ => 7⟩) closed).toOption.map view = some seen) :
    ∃ last, (system minimalCbor).Run ⟨Pair.strangers, []⟩
      (openAndClose ++ hearing ⟨fun _ => 7⟩ commands) last ∧ view last = seen := by
  let id : SpudTubeId := ⟨fun _ => 7⟩
  let opening : Party × Act := (.initiator, .openTube obliging (.inet 1402 0x7f000001))
  let closing : Party × Act := (.initiator, .close obliging 0)
  obtain ⟨opened, first, seenOpened⟩ := Exec.exists_of_map (fun opened : Recorded =>
      (((opened.pair.mgr .initiator).lookup id).toOption,
        (perform minimalCbor opened closing).toOption.map (·.pair.sentBytes .initiator)))
    (show (perform minimalCbor ⟨Pair.strangers, []⟩ opening).toOption.map _ =
      some (some (some 0), some ([.spudOpen, .spudClose].map fun cmd => (bareHeader id cmd).bytes))
      by decide +kernel)
  obtain ⟨stored, seenClosed⟩ := Prod.mk.inj seenOpened
  obtain ⟨closed, second, sent⟩ := Exec.exists_of_map _ seenClosed
  have inTable : (opened.pair.mgr .initiator).lookup id = .ok (some 0) := by
    obtain ⟨found, looked, same⟩ :=
      Exec.exists_of_map (fun found => found) (Option.map_id'.trans stored)
    rw [looked, same]
  have both : openAndClose.foldlM (perform minimalCbor) ⟨Pair.strangers, []⟩ = .ok closed := by
    rw [openAndClose, List.foldlM_cons, first]
    exact congrArg (· >>= pure) second
  rw [both] at same
  have mayOpen : (system minimalCbor).Enabled ⟨Pair.strangers, []⟩ opening :=
    ⟨⟨⟨obliging_refused, fun _ _ _ => rfl⟩, fun _ _ _ => nofun⟩, nofun⟩
  have mayClose : (system minimalCbor).Enabled opened closing :=
    ⟨⟨⟨⟨id, inTable⟩, fun _ _ => nofun⟩, fun _ _ _ => nofun⟩, nofun⟩
  suffices onward : ∃ last, (system minimalCbor).Run closed (hearing id commands) last ∧
      view last = seen by
    obtain ⟨last, run, known⟩ := onward
    exact ⟨last, .cons mayOpen first (.cons mayClose second run), known⟩
  refine exists_hearing view commands closed ?_ same
  intro cmd inside
  rw [sent]
  exact List.mem_map_of_mem (known inside)

theorem run_reopens_late_once : ∃ last : Recorded,
    last.count ⟨fun _ => 7⟩ .close = 1 ∧ last.count ⟨fun _ => 7⟩ .add ≤ 1 ∧
      last.held ⟨fun _ => 7⟩ ≠ some .running := by
  let id : SpudTubeId := ⟨fun _ => 7⟩
  let leave : Party × Act := (.responder, .receive obliging true (bareHeader id .spudClose))
  obtain ⟨before, run, seen⟩ := exists_openAndClose
    (fun before => (before.count id .close, before.pair.sentBytes .initiator,
      (perform minimalCbor before leave).toOption.map (Recorded.count · id .close)))
    [.spudOpen] (by decide)
    (show _ = some (0, [(bareHeader id .spudOpen).bytes, (bareHeader id .spudClose).bytes], some 1)
      by decide +kernel)
  obtain ⟨unshut, seen⟩ := Prod.mk.inj seen
  obtain ⟨sent, seen⟩ := Prod.mk.inj seen
  obtain ⟨last, left, closed⟩ := Exec.exists_of_map _ seen
  have open_ : (some id, .close) ∉ before.log := by
    intro member
    rw [mem_log_iff, unshut] at member
    exact absurd member (Nat.lt_irrefl 0)
  have enabled : (system minimalCbor).Enabled before leave := by
    refine ⟨⟨⟨obliging_refused, fun _ _ => nofun⟩, ?_⟩, fun _ => ⟨_, _, _, rfl⟩⟩
    rintro _ _ _ ⟨⟩
    refine Pair.genuine_of_sentBytes ?_
    rw [Party.peer, sent]
    exact List.mem_cons_of_mem _ List.mem_cons_self
  have timely := (timely_of_open run open_).1.append
    (.cons ⟨enabled, fun shut => absurd shut open_⟩ left (.nil last))
  obtain ⟨_, forgets⟩ := run_reopens_late minimalCbor id ⟨Pair.strangers, []⟩ last _
    ⟨Pair.strangers_isNew, rfl⟩ timely.unrestricted
  obtain ⟨once, gone⟩ := forgets timely
  refine ⟨last, closed, once, gone (mem_log_iff.mpr ?_)⟩
  rw [closed]
  exact Nat.one_pos

/-- A copy of the `OPEN` arrives after the `CLOSE`: the tube is added and running again. -/
theorem late_open_reopens : ∃ last : Recorded,
    (system minimalCbor).Run ⟨Pair.strangers, []⟩
      (openAndClose ++ hearing ⟨fun _ => 7⟩ [.spudOpen, .spudClose, .spudOpen]) last ∧
    last.count ⟨fun _ => 7⟩ .add = 2 ∧ (some ⟨fun _ => 7⟩, .close) ∈ last.log ∧
    last.held ⟨fun _ => 7⟩ = some .running := by
  obtain ⟨last, run, seen⟩ := exists_openAndClose
    (fun last => (last.count ⟨fun _ => 7⟩ .add, last.count ⟨fun _ => 7⟩ .close,
      last.held ⟨fun _ => 7⟩))
    [.spudOpen, .spudClose, .spudOpen] (by decide)
    (show _ = some (2, 1, some .running) by decide +kernel)
  obtain ⟨added, seen⟩ := Prod.mk.inj seen
  obtain ⟨closed, running⟩ := Prod.mk.inj seen
  refine ⟨last, run, added, mem_log_iff.mpr ?_, running⟩
  rw [closed]
  exact Nat.one_pos

end Recorded

end SpudLib
