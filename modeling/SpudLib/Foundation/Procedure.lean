import SpudLib.Foundation.Fault

/-!
# Procedures that call back

A procedure works on a state and may hand control to code that it does not
know, such as the callbacks of an application, and goes on with the state that
code leaves.  What the unknown code does is chosen afterwards: `straight` runs
a procedure when it changes nothing, `answered` lets a handler act on a second
state, and `Meets` is the rule for code of which only a guarantee is known.
`Obeys` and
`Triple` are rules for what may fault, and `Follows` is the rule for what depends
on how the code called back has answered so far.
-/

namespace SpudLib

/-- How far a procedure gets: it returns, faults, or calls back. -/
inductive Outcome (Call State Alpha : Type) where
  | done (value : Alpha) (state : State)
  | fault (reason : Fault)
  | calling (call : Call) (state : State) (resume : State → Outcome Call State Alpha)

namespace Outcome

variable {Call State Alpha Beta Other : Type}

def bind (next : Alpha → State → Outcome Call State Beta) :
    Outcome Call State Alpha → Outcome Call State Beta
  | .done value state => next value state
  | .fault reason => .fault reason
  | .calling call state resume => .calling call state fun after => (resume after).bind next

/-- The code called back changes nothing. -/
def straight : Outcome Call State Alpha → Exec (Alpha × State)
  | .done value state => .ok (value, state)
  | .fault reason => .error reason
  | .calling _ state resume => (resume state).straight

/-- The code called back changes a second state only. -/
def answered (handler : Call → Other → Exec Other) :
    Outcome Call State Alpha → Other → Exec (Alpha × State × Other)
  | .done value state, other => .ok (value, state, other)
  | .fault reason, _ => .error reason
  | .calling call state resume, other => do
      let other ← handler call other
      (resume state).answered handler other

/-- The procedure keeps `Ensured` whenever it calls back, and ends with `Post`,
provided the code called back keeps `Rely`. -/
def Meets (Ensured : Call → State → Prop) (Rely : Call → State → State → Prop)
    (Post : Alpha → State → Prop) : Outcome Call State Alpha → Prop
  | .done value state => Post value state
  | .fault _ => False
  | .calling call state resume =>
      Ensured call state ∧ ∀ after, Rely call state after → (resume after).Meets Ensured Rely Post

theorem straight_bind (outcome : Outcome Call State Alpha)
    (next : Alpha → State → Outcome Call State Beta) :
    (outcome.bind next).straight =
      outcome.straight >>= fun result => (next result.1 result.2).straight := by
  induction outcome with
  | done value state => rfl
  | fault reason => rfl
  | calling call state resume inductionHypothesis => exact inductionHypothesis state

variable {Ensured : Call → State → Prop} {Rely : Call → State → State → Prop}
  {Post : Alpha → State → Prop}

theorem Meets.bind {outcome : Outcome Call State Alpha}
    {next : Alpha → State → Outcome Call State Beta} {Final : Beta → State → Prop}
    (first : outcome.Meets Ensured Rely Post)
    (second : ∀ value state, Post value state → (next value state).Meets Ensured Rely Final) :
    (outcome.bind next).Meets Ensured Rely Final := by
  induction outcome with
  | done value state => exact second value state first
  | fault reason => exact first.elim
  | calling call state resume inductionHypothesis =>
    refine ⟨first.1, ?_⟩
    intro after relied
    exact inductionHypothesis after (first.2 after relied)

/-- Against a handler that can deal with every call the procedure makes, and
keeps an invariant of its own. -/
theorem Meets.answered {outcome : Outcome Call State Alpha} {handler : Call → Other → Exec Other}
    {Kept : Other → Prop} (meets : outcome.Meets Ensured Rely Post)
    (unchanged : ∀ call state, Ensured call state → Rely call state state)
    (handled : ∀ call state other, Ensured call state → Kept other →
      ∃ after, handler call other = .ok after ∧ Kept after)
    {other : Other} (kept : Kept other) :
    ∃ value state after, outcome.answered handler other = .ok (value, state, after) ∧
      Post value state ∧ Kept after := by
  induction outcome generalizing other with
  | done value state => exact ⟨value, state, other, rfl, meets, kept⟩
  | fault reason => exact meets.elim
  | calling call state resume inductionHypothesis =>
    obtain ⟨next, returned, nextKept⟩ := handled call state other meets.1 kept
    obtain ⟨value, last, after, finished, post, lastKept⟩ :=
      inductionHypothesis state (meets.2 state (unchanged call state meets.1)) nextKept
    refine ⟨value, last, after, ?_, post, lastKept⟩
    rw [Outcome.answered, returned]
    exact finished

structure Exchange (Call State : Type) where
  call : Call
  before : State
  after : State

/-- The procedure returns, after these exchanges with the code called back. -/
inductive Returns :
    Outcome Call State Alpha → List (Exchange Call State) → Alpha → State → Prop where
  | done (value state) : Returns (.done value state) [] value state
  | calling {call before resume after exchanges value state} :
      Returns (resume after) exchanges value state →
      Returns (.calling call before resume) (⟨call, before, after⟩ :: exchanges) value state

theorem returns_of_straight {outcome : Outcome Call State Alpha} {value : Alpha} {state : State}
    (returned : outcome.straight = .ok (value, state)) :
    ∃ exchanges, outcome.Returns exchanges value state ∧
      ∀ exchange ∈ exchanges, exchange.after = exchange.before := by
  induction outcome with
  | done other after =>
    cases returned
    exact ⟨[], .done value state, fun exchange member => absurd member List.not_mem_nil⟩
  | fault reason => cases returned
  | calling call before resume inductionHypothesis =>
    obtain ⟨exchanges, returns, same⟩ := inductionHypothesis before returned
    refine ⟨⟨call, before, before⟩ :: exchanges, .calling returns, ?_⟩
    intro exchange member
    rcases List.mem_cons.mp member with rfl | member
    · rfl
    · exact same exchange member

/-- The procedure keeps `Ensured` whenever it calls back, and ends with `Post` if it returns,
provided the code called back keeps `Rely`; it faults only where it may. -/
def Obeys (MayFault : Prop) (Ensured : Call → State → Prop) (Rely : Call → State → State → Prop)
    (Post : Alpha → State → Prop) : Outcome Call State Alpha → Prop
  | .done value state => Post value state
  | .fault _ => MayFault
  | .calling call state resume =>
      Ensured call state ∧
        ∀ after, Rely call state after → (resume after).Obeys MayFault Ensured Rely Post

section Obeys

variable {MayFault : Prop} {outcome : Outcome Call State Alpha}

theorem Obeys.returned {exchanges : List (Exchange Call State)} {value : Alpha} {state : State}
    (obeys : outcome.Obeys MayFault Ensured Rely Post)
    (returns : outcome.Returns exchanges value state)
    (relied : ∀ exchange ∈ exchanges, Rely exchange.call exchange.before exchange.after) :
    Post value state := by
  induction returns with
  | done => exact obeys
  | calling _ inductionHypothesis =>
    exact inductionHypothesis (obeys.2 _ (relied _ List.mem_cons_self))
      fun exchange member => relied exchange (List.mem_cons_of_mem _ member)

theorem Obeys.bind {next : Alpha → State → Outcome Call State Beta}
    {Final : Beta → State → Prop} (first : outcome.Obeys MayFault Ensured Rely Post)
    (second : ∀ value state, Post value state →
      (next value state).Obeys MayFault Ensured Rely Final) :
    (outcome.bind next).Obeys MayFault Ensured Rely Final := by
  induction outcome with
  | done value state => exact second value state first
  | fault reason => exact first
  | calling call state resume inductionHypothesis =>
    refine ⟨first.1, ?_⟩
    intro after relied
    exact inductionHypothesis after (first.2 after relied)

theorem Obeys.consequence {MayFaultToo : Prop} {Weaker : Call → State → Prop}
    {Stronger : Call → State → State → Prop} {Final : Alpha → State → Prop}
    (obeys : outcome.Obeys MayFault Ensured Rely Post) (faults : MayFault → MayFaultToo)
    (calls : ∀ call state, Ensured call state → Weaker call state)
    (answers : ∀ call before after, Stronger call before after → Rely call before after)
    (returns : ∀ value state, Post value state → Final value state) :
    outcome.Obeys MayFaultToo Weaker Stronger Final := by
  induction outcome with
  | done value state => exact returns value state obeys
  | fault reason => exact faults obeys
  | calling call state resume inductionHypothesis =>
    refine ⟨calls call state obeys.1, ?_⟩
    intro after relied
    exact inductionHypothesis after (obeys.2 after (answers call state after relied))

end Obeys

inductive Leads :
    Outcome Call State Alpha → List (Exchange Call State) → Outcome Call State Alpha → Prop where
  | here (outcome) : Leads outcome [] outcome
  | calling {call before resume after exchanges rest} : Leads (resume after) exchanges rest →
      Leads (.calling call before resume) (⟨call, before, after⟩ :: exchanges) rest

/-- `Obeys` along a history, which each exchange with the code called back moves on. -/
def Follows {History : Type} (advance : History → Exchange Call State → History)
    (MayFault : History → Prop) (Ensured : History → Call → State → Prop)
    (Rely : Call → State → State → Prop) (Post : History → Alpha → State → Prop)
    (history : History) : Outcome Call State Alpha → Prop
  | .done value state => Post history value state
  | .fault _ => MayFault history
  | .calling call state resume =>
      Ensured history call state ∧ ∀ after, Rely call state after →
        (resume after).Follows advance MayFault Ensured Rely Post
          (advance history ⟨call, state, after⟩)

section Follows

variable {History : Type} {advance : History → Exchange Call State → History}
  {MayFault : History → Prop} {Ensured : History → Call → State → Prop}
  {Post : History → Alpha → State → Prop} {history : History}
  {outcome rest : Outcome Call State Alpha}

theorem Follows.bind {next : Alpha → State → Outcome Call State Beta}
    {Final : History → Beta → State → Prop}
    (first : outcome.Follows advance MayFault Ensured Rely Post history)
    (second : ∀ history value state, Post history value state →
      (next value state).Follows advance MayFault Ensured Rely Final history) :
    (outcome.bind next).Follows advance MayFault Ensured Rely Final history := by
  induction outcome generalizing history with
  | done value state => exact second history value state first
  | fault reason => exact first
  | calling call state resume inductionHypothesis =>
    refine ⟨first.1, ?_⟩
    intro after relied
    exact inductionHypothesis after (first.2 after relied)

theorem Follows.leads {exchanges : List (Exchange Call State)}
    (follows : outcome.Follows advance MayFault Ensured Rely Post history)
    (leads : outcome.Leads exchanges rest)
    (relied : ∀ exchange ∈ exchanges, Rely exchange.call exchange.before exchange.after) :
    rest.Follows advance MayFault Ensured Rely Post (exchanges.foldl advance history) := by
  induction leads generalizing history with
  | here => exact follows
  | calling _ inductionHypothesis =>
    exact inductionHypothesis (follows.2 _ (relied _ List.mem_cons_self))
      fun exchange member => relied exchange (List.mem_cons_of_mem _ member)

theorem Follows.consequence {Weaker : History → Alpha → State → Prop}
    (follows : outcome.Follows advance MayFault Ensured Rely Post history)
    (weaker : ∀ history value state, Post history value state → Weaker history value state) :
    outcome.Follows advance MayFault Ensured Rely Weaker history := by
  induction outcome generalizing history with
  | done value state => exact weaker history value state follows
  | fault reason => exact follows
  | calling call state resume inductionHypothesis =>
    exact ⟨follows.1, fun after relied => inductionHypothesis after (follows.2 after relied)⟩

theorem Follows.given {assumption : Prop}
    (follows : assumption → outcome.Follows advance MayFault Ensured Rely Post history) :
    outcome.Follows advance (fun history => assumption → MayFault history)
      (fun history call state => assumption → Ensured history call state)
      (fun call before after => assumption → Rely call before after)
      (fun history value state => assumption → Post history value state) history := by
  induction outcome generalizing history with
  | done value state => exact follows
  | fault reason => exact follows
  | calling call state resume inductionHypothesis =>
    refine ⟨fun holds => (follows holds).1, ?_⟩
    intro after relied
    exact inductionHypothesis after fun holds => (follows holds).2 after (relied holds)

/-- A history that no exchange moves on need not be told. -/
theorem Follows.obeys (still : ∀ exchange, advance history exchange = history)
    (follows : outcome.Follows advance MayFault Ensured Rely Post history) :
    outcome.Obeys (MayFault history) (Ensured history) Rely (Post history) := by
  induction outcome with
  | done value state => exact follows
  | fault reason => exact follows
  | calling call state resume inductionHypothesis =>
    refine ⟨follows.1, ?_⟩
    intro after relied
    refine inductionHypothesis after ?_
    have onward := follows.2 after relied
    rwa [still] at onward

end Follows

/-- Only the code called back changes what is seen of the state. -/
def Preserves {Seen : Type} (see : State → Seen) (seen : Seen) :
    Outcome Call State Alpha → Prop :=
  Follows (fun _ exchange => see exchange.after) (fun _ => True)
    (fun seen _ state => see state = seen) (fun _ _ _ => True)
    (fun seen _ state => see state = seen) seen

/-- What follows one history and preserves what is seen follows both. -/
theorem Follows.preserving {History Seen : Type}
    {advance : History → Exchange Call State → History} {MayFault : History → Prop}
    {Ensured : History → Call → State → Prop} {Post : History → Alpha → State → Prop}
    {see : State → Seen} {outcome : Outcome Call State Alpha} {history : History} {seen : Seen}
    (follows : outcome.Follows advance MayFault Ensured Rely Post history)
    (preserves : outcome.Preserves see seen) :
    outcome.Follows (fun both exchange => (advance both.1 exchange, see exchange.after))
      (fun both => MayFault both.1)
      (fun both call state => Ensured both.1 call state ∧ see state = both.2) Rely
      (fun both value state => Post both.1 value state ∧ see state = both.2) (history, seen) := by
  induction outcome generalizing history seen with
  | done value state => exact ⟨follows, preserves⟩
  | fault reason => exact follows
  | calling call state resume inductionHypothesis =>
    refine ⟨⟨follows.1, preserves.1⟩, ?_⟩
    intro after relied
    exact inductionHypothesis after (follows.2 after relied) (preserves.2 after trivial)

section Zoom

variable {Whole WholeCall : Type} (view : Whole → State) (put : State → Whole → Whole)
  (name : Call → WholeCall)

/-- A procedure on a part of a state, as one on the whole. -/
def zoom : Outcome Call State Alpha → Whole → Outcome WholeCall Whole Alpha
  | .done value state, whole => .done value (put state whole)
  | .fault reason, _ => .fault reason
  | .calling call state resume, whole =>
      .calling (name call) (put state whole) fun after => (resume (view after)).zoom after

variable {view put name}

theorem Follows.zoom {History WholeHistory : Type}
    {advance : History → Exchange Call State → History} {MayFault : History → Prop}
    {Ensured : History → Call → State → Prop} {Post : History → Alpha → State → Prop}
    {advanceWhole : WholeHistory → Exchange WholeCall Whole → WholeHistory}
    {MayFaultWhole : WholeHistory → Prop}
    {EnsuredWhole : WholeHistory → WholeCall → Whole → Prop}
    {RelyWhole : WholeCall → Whole → Whole → Prop}
    {PostWhole : WholeHistory → Alpha → Whole → Prop}
    (Linked : History → WholeHistory → Whole → Prop) {outcome : Outcome Call State Alpha}
    {history : History} {wholeHistory : WholeHistory} {whole : Whole}
    (follows : outcome.Follows advance MayFault Ensured Rely Post history)
    (linked : Linked history wholeHistory whole)
    (faults : ∀ history wholeHistory whole, Linked history wholeHistory whole →
      MayFault history → MayFaultWhole wholeHistory)
    (calls : ∀ history wholeHistory whole call state, Linked history wholeHistory whole →
      Ensured history call state → EnsuredWhole wholeHistory (name call) (put state whole) ∧
        ∀ after, RelyWhole (name call) (put state whole) after → Rely call state (view after) ∧
          Linked (advance history ⟨call, state, view after⟩)
            (advanceWhole wholeHistory ⟨name call, put state whole, after⟩) after)
    (returns : ∀ history wholeHistory whole value state, Linked history wholeHistory whole →
      Post history value state → PostWhole wholeHistory value (put state whole)) :
    (outcome.zoom view put name whole).Follows advanceWhole MayFaultWhole EnsuredWhole RelyWhole
      PostWhole wholeHistory := by
  induction outcome generalizing history wholeHistory whole with
  | done value state => exact returns history wholeHistory whole value state linked follows
  | fault reason => exact faults history wholeHistory whole linked follows
  | calling call state resume inductionHypothesis =>
    obtain ⟨ensured, answered⟩ := calls history wholeHistory whole call state linked follows.1
    refine ⟨ensured, ?_⟩
    intro after reliedWhole
    obtain ⟨relied, linkedAfter⟩ := answered after reliedWhole
    exact inductionHypothesis (view after) (follows.2 _ relied) linkedAfter

end Zoom

end Outcome

structure Proc (Call State Alpha : Type) where
  run : State → Outcome Call State Alpha

namespace Proc

variable {Call State Alpha Beta : Type}

instance : Monad (Proc Call State) where
  pure value := ⟨fun state => .done value state⟩
  bind procedure next := ⟨fun state => (procedure.run state).bind fun value => (next value).run⟩

def get : Proc Call State State := ⟨fun state => .done state state⟩

def modify (change : State → State) : Proc Call State Unit :=
  ⟨fun state => .done () (change state)⟩

def lift (computation : State → Exec (Alpha × State)) : Proc Call State Alpha where
  run state :=
    match computation state with
    | .ok (value, after) => .done value after
    | .error reason => .fault reason

def fail (reason : Fault) : Proc Call State Alpha := ⟨fun _ => .fault reason⟩

def zoom {Whole WholeCall : Type} (view : Whole → State) (put : State → Whole → Whole)
    (name : Call → WholeCall) (procedure : Proc Call State Alpha) : Proc WholeCall Whole Alpha where
  run whole := (procedure.run (view whole)).zoom view put name whole

def callBack (call : Call) : Proc Call State Unit where
  run state := .calling call state fun after => .done () after

def straight (procedure : Proc Call State Alpha) (state : State) : Exec (Alpha × State) :=
  (procedure.run state).straight

section Steps

variable {procedure : Proc Call State Alpha} {next : Alpha → Proc Call State Beta}
  {state after : State} {value : Alpha}

theorem run_pure (value : Alpha) (state : State) :
    (pure value : Proc Call State Alpha).run state = .done value state := rfl

theorem run_bind_of_done (returned : procedure.run state = .done value after) :
    (procedure >>= next).run state = (next value).run after := by
  change (procedure.run state).bind _ = _
  rw [returned]
  rfl

theorem run_bind_of_calling {call : Call} {resume : State → Outcome Call State Alpha}
    (called : procedure.run state = .calling call after resume) :
    (procedure >>= next).run state = .calling call after fun later =>
      (resume later).bind fun value => (next value).run := by
  change (procedure.run state).bind _ = _
  rw [called]
  rfl

theorem run_lift_of_ok {computation : State → Exec (Alpha × State)}
    (returned : computation state = .ok (value, after)) :
    (lift computation : Proc Call State Alpha).run state = .done value after := by
  simp only [lift, returned]

theorem straight_of_done (returned : procedure.run state = .done value after) :
    procedure.straight state = .ok (value, after) := by
  rw [straight, returned]
  rfl

theorem straight_bind :
    straight (procedure >>= next) state =
      procedure.straight state >>= fun result => (next result.1).straight result.2 :=
  Outcome.straight_bind _ _

end Steps

/-- Between the answers of the code called back the procedure leaves what is seen as it is. -/
def Preserves {Seen : Type} (see : State → Seen) (procedure : Proc Call State Alpha) : Prop :=
  ∀ state, (procedure.run state).Preserves see (see state)

namespace Preserves

variable {Seen : Type} {see : State → Seen}

theorem pure (value : Alpha) : Preserves see (Pure.pure value : Proc Call State Alpha) :=
  fun _ => rfl

theorem fail (reason : Fault) : Preserves see (Proc.fail reason : Proc Call State Alpha) :=
  fun _ => trivial

theorem get : Preserves see (Proc.get : Proc Call State State) := fun _ => rfl

theorem modify {change : State → State} (same : ∀ state, see (change state) = see state) :
    Preserves see (Proc.modify change : Proc Call State Unit) := same

theorem callBack (call : Call) : Preserves see (Proc.callBack call : Proc Call State Unit) :=
  fun _ => ⟨rfl, fun _ _ => rfl⟩

theorem lift {computation : State → Exec (Alpha × State)}
    (same : ∀ state value after, computation state = .ok (value, after) → see after = see state) :
    Preserves see (Proc.lift computation : Proc Call State Alpha) := by
  intro state
  unfold Proc.lift
  dsimp only
  split
  next value after returned => exact same state value after returned
  next => trivial

theorem lift_bind {Found : Type} {compute : State → Exec Found}
    {change : Found → State → Alpha × State}
    (same : ∀ found state, see (change found state).2 = see state) :
    Preserves see (Proc.lift fun state => do
      let found ← compute state
      Pure.pure (change found state) : Proc Call State Alpha) := by
  apply lift
  intro state value after returned
  obtain ⟨found, _, changed⟩ := Exec.bind_eq_ok.mp returned
  have last : change found state = (value, after) := Except.ok.inj changed
  rw [← same found state, last]

theorem bind {procedure : Proc Call State Alpha} {next : Alpha → Proc Call State Beta}
    (first : Preserves see procedure) (second : ∀ value, Preserves see (next value)) :
    Preserves see (procedure >>= next) := by
  intro state
  refine Outcome.Follows.bind (first state) ?_
  rintro _ value after rfl
  exact second value after

theorem ite {condition : Prop} [Decidable condition] {first second : Proc Call State Alpha}
    (one : Preserves see first) (other : Preserves see second) :
    Preserves see (if condition then first else second) := by
  split
  · exact one
  · exact other

end Preserves

def Meets (Ensured : Call → State → Prop) (Rely : Call → State → State → Prop)
    (procedure : Proc Call State Alpha) (state : State) (Post : Alpha → State → Prop) : Prop :=
  (procedure.run state).Meets Ensured Rely Post

/-- From a state as in `Pre` the procedure ends as in `Post` if it returns, provided the code
called back keeps `Rely`. -/
def Triple (Rely : Call → State → State → Prop) (Pre : State → Prop)
    (procedure : Proc Call State Alpha) (Post : Alpha → State → Prop) : Prop :=
  ∀ state, Pre state → (procedure.run state).Obeys True (fun _ _ => True) Rely Post

section Triple

variable {Rely : Call → State → State → Prop} {Pre : State → Prop} {Post : Alpha → State → Prop}

theorem Triple.pure {value : Alpha} (holds : ∀ state, Pre state → Post value state) :
    Triple Rely Pre (Pure.pure value) Post := holds

theorem Triple.bind {procedure : Proc Call State Alpha} {next : Alpha → Proc Call State Beta}
    {Final : Beta → State → Prop} (first : Triple Rely Pre procedure Post)
    (second : ∀ value, Triple Rely (Post value) (next value) Final) :
    Triple Rely Pre (procedure >>= next) Final :=
  fun state before => (first state before).bind fun value after holds => second value after holds

theorem Triple.lift {computation : State → Exec (Alpha × State)}
    (holds : ∀ state value after, Pre state → computation state = .ok (value, after) →
      Post value after) :
    Triple Rely Pre (Proc.lift computation) Post := by
  intro state before
  unfold Proc.lift
  dsimp only
  split
  next value after returned => exact holds state value after before returned
  next => trivial

theorem Triple.fail (reason : Fault) : Triple Rely Pre (Proc.fail reason) Post :=
  fun _ _ => trivial

theorem Triple.callBack {call : Call} {Post : Unit → State → Prop}
    (holds : ∀ state after, Pre state → Rely call state after → Post () after) :
    Triple Rely Pre (Proc.callBack call) Post :=
  fun state before => ⟨trivial, fun after relied => holds state after before relied⟩

theorem Triple.exists {Index : Type} {Pre : Index → State → Prop}
    {procedure : Proc Call State Alpha}
    (each : ∀ index, Triple Rely (Pre index) procedure Post) :
    Triple Rely (fun state => ∃ index, Pre index state) procedure Post := by
  rintro state ⟨index, before⟩
  exact each index state before

end Triple

end Proc

end SpudLib
