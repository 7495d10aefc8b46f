import SpudLib.Tube.MainLoop
import SpudLib.Tube.Resolution

/-!
# Stopping the main loop

Once a callback has stopped the manager no timer is started and at most one more
datagram is read.  The loop then returns true, unless that datagram is rejected
and there is no `err`, or callbacks destroy the tube that the loop goes on with.
-/

namespace SpudLib

open Outcome

theorem TubeManager.WellFormed.atTime {mgr : TubeManager} (wellFormed : mgr.WellFormed)
    (now : Timeval) : TubeManager.WellFormed { mgr with last := now } := by
  obtain ⟨find, holds⟩ := wellFormed
  exact ⟨find, holds.registers, holds.live⟩

namespace LoopState

def Stopped (state : LoopState) : Prop := state.mgr.keepGoing = false

def Reads (reads : Nat) (before after : LoopState) : Prop :=
  ∃ news, after.received = before.received ++ news ∧ news.length ≤ reads

/-- The manager was stopped, and few datagrams have been read since; if all is in order, so is the
table, and it has room as long as there was none. -/
structure Quiet (orderly : Prop) (reads : Nat) (stop state : LoopState) : Prop where
  stopped : state.Stopped
  wellFormed : orderly → state.mgr.WellFormed
  roomy : orderly → reads = 0 → state.mgr.table.Roomy
  received : stop.Reads reads state

end LoopState

def LoopEnv.Limited (env : LoopEnv) : Prop :=
  ∀ state size, 2 ^ 30 ≤ size → (env.environment state).calloc size = false

/-- Once the manager is stopped no system call, allocation or trigger reports an error, and no
empty datagram arrives. -/
structure LoopEnv.Untroubled (env : LoopEnv) (library : CborLibrary) : Prop where
  receives : ∀ state sock, state.Stopped → env.recvmsg sock state ≠ .failed
  nonempty : ∀ state sock received, state.Stopped →
    env.recvmsg sock state = .datagram received → received.bytes ≠ []
  clock : ∀ state, state.Stopped → env.gettimeofday state ≠ none
  handles : ∀ state : LoopState, state.Stopped → state.mgr.table.Roomy →
    ∀ received ∈ state.received.getLast?, ∀ msg, spudParse library received.buf = .ok msg →
      ¬ state.mgr.Breaks (env.environment state) msg

/-- There is an `err`, or what arrives once the manager is stopped is accepted. -/
def LoopEnv.Tolerated (env : LoopEnv) (library : CborLibrary) (hasErr : Bool) : Prop :=
  hasErr = true ∨ ∀ state sock received, state.Stopped →
    env.recvmsg sock state = .datagram received → ∃ msg, spudParse library received.buf = .ok msg

/-- The tube that the loop goes on with after an event. -/
def LoopCall.keeps : LoopCall → Option Nat
  | .event (.add t) | .event (.remove t) => some t
  | .event (.close d) => some d.t
  | _ => none

def LoopCall.IsTimer : LoopCall → Prop
  | .timer _ _ => True
  | _ => False

namespace MainLoop

/-- A callback does not receive for the loop, nor start the manager again. -/
structure Plain (before after : LoopState) : Prop where
  received : after.received = before.received
  stays : before.Stopped → after.Stopped

/-- A callback leaves the table in order and with room for a tube, and the tube that the loop goes
on with. -/
structure Considerate (call : LoopCall) (after : LoopState) : Prop where
  wellFormed : after.mgr.WellFormed
  roomy : after.mgr.table.Roomy
  keeps : ∀ t, call.keeps = some t → after.mgr.tubes.Live t

def Behaves (orderly : Prop) (call : LoopCall) (before after : LoopState) : Prop :=
  Plain before after ∧ (orderly → Considerate call after)

def sinceStop (stop : Option LoopState) (exchange : Exchange LoopCall LoopState) :
    Option LoopState :=
  match stop with
  | some state => some state
  | none => if exchange.after.mgr.keepGoing then none else some exchange.after

def Phase (orderly : Prop) (reads : Nat) (stop : Option LoopState) (state : LoopState) : Prop :=
  match stop with
  | none => state.mgr.keepGoing = true ∧ (orderly → state.mgr.WellFormed)
  | some stop => LoopState.Quiet orderly reads stop state

/-- Until the manager is stopped anything may happen; then no timer is started, and nothing
faults if all is in order. -/
def Heeds {Alpha : Type} (orderly : Prop) (Post : Option LoopState → Alpha → LoopState → Prop)
    (stop : Option LoopState) (outcome : Outcome LoopCall LoopState Alpha) : Prop :=
  outcome.Follows sinceStop (fun stop => stop.isSome → ¬ orderly)
    (fun stop call state => stop.isSome → Phase orderly 1 stop state ∧ ¬ call.IsTimer)
    (Behaves orderly) Post stop

section Rules

variable {Alpha Beta : Type} {orderly : Prop} {reads : Nat} {stop : Option LoopState}
  {state : LoopState}

theorem Phase.mono {more : Nat} (fewer : reads ≤ more) (phase : Phase orderly reads stop state) :
    Phase orderly more stop state := by
  cases stop with
  | none => exact phase
  | some stop =>
    obtain ⟨stopped, wellFormed, roomy, news, received, few⟩ := phase
    refine ⟨stopped, wellFormed, ?_, news, received, few.trans fewer⟩
    rintro holds rfl
    exact roomy holds (Nat.le_zero.mp fewer)

theorem Phase.wellFormed (phase : Phase orderly reads stop state) (holds : orderly) :
    state.mgr.WellFormed := by
  cases stop with
  | none => exact phase.2 holds
  | some stop => exact LoopState.Quiet.wellFormed phase holds

theorem Phase.isStopped (phase : Phase orderly reads stop state) (late : stop.isSome) :
    state.Stopped := by
  cases stop with
  | none => cases late
  | some stop => exact LoopState.Quiet.stopped phase

theorem Phase.roomy (phase : Phase orderly 0 stop state) (late : stop.isSome) (holds : orderly) :
    state.mgr.table.Roomy := by
  cases stop with
  | none => cases late
  | some stop => exact LoopState.Quiet.roomy phase holds rfl

theorem Phase.of_eq (phase : Phase orderly reads stop state) {after : LoopState}
    (going : after.mgr.keepGoing = state.mgr.keepGoing)
    (wellFormed : orderly → after.mgr.WellFormed) (received : after.received = state.received)
    (table : reads = 0 → after.mgr.table = state.mgr.table) : Phase orderly reads stop after := by
  cases stop with
  | none => exact ⟨going.trans phase.1, wellFormed⟩
  | some stop =>
    obtain ⟨stopped, _, roomy, news, same, few⟩ := phase
    refine ⟨going.trans stopped, wellFormed, ?_, news, received.trans same, few⟩
    intro holds none
    rw [table none]
    exact roomy holds none

theorem Phase.entered {call : LoopCall} (considerate : orderly → Considerate call state) :
    Phase orderly reads (if state.mgr.keepGoing then none else some state) state := by
  have wellFormed := fun holds => (considerate holds).wellFormed
  cases going : state.mgr.keepGoing with
  | true => exact ⟨going, wellFormed⟩
  | false =>
    exact ⟨going, wellFormed, fun holds _ => (considerate holds).roomy, [],
      (List.append_nil _).symm, Nat.zero_le _⟩

theorem Phase.callBack {call : LoopCall} {after : LoopState}
    (phase : Phase orderly reads stop state) (behaves : Behaves orderly call state after) :
    Phase orderly reads (sinceStop stop ⟨call, state, after⟩) after := by
  obtain ⟨plain, considerate⟩ := behaves
  cases stop with
  | none => exact Phase.entered considerate
  | some stop =>
    obtain ⟨stopped, _, _, news, same, few⟩ := phase
    exact ⟨plain.stays stopped, fun holds => (considerate holds).wellFormed,
      fun holds _ => (considerate holds).roomy, news, plain.received.trans same, few⟩

theorem Heeds.bind {procedure : Looping Alpha} {next : Alpha → Looping Beta}
    {Post : Option LoopState → Alpha → LoopState → Prop}
    {Final : Option LoopState → Beta → LoopState → Prop}
    (first : Heeds orderly Post stop (procedure.run state))
    (second : ∀ stop value after, Post stop value after →
      Heeds orderly Final stop ((next value).run after)) :
    Heeds orderly Final stop ((procedure >>= next).run state) :=
  Follows.bind first second

theorem Heeds.ask {Final : Option LoopState → Beta → LoopState → Prop}
    {answer : LoopState → Alpha} {next : Alpha → Looping Beta}
    (phase : Phase orderly reads stop state)
    (second : ∀ after, Phase orderly reads stop after → after.mgr = state.mgr →
      after.received = state.received →
      Heeds orderly Final stop ((next (answer state)).run after)) :
    Heeds orderly Final stop ((MainLoop.ask answer >>= next).run state) :=
  second _ (phase.of_eq rfl phase.wellFormed rfl fun _ => rfl) rfl rfl

/-- Work on the timers may fault until the manager is stopped. -/
theorem Heeds.onTimers {Final : Option LoopState → Beta → LoopState → Prop}
    {computation : TimerManager → Exec (Alpha × TimerManager)} {next : Alpha → Looping Beta}
    (phase : Phase orderly reads none state)
    (second : ∀ value after, Phase orderly reads none after →
      Heeds orderly Final none ((next value).run after)) :
    Heeds orderly Final none ((MainLoop.onTimers computation >>= next).run state) := by
  have first : Heeds orderly (fun stop _ after => stop = none ∧ Phase orderly reads none after)
      none ((MainLoop.onTimers computation).run state) := by
    unfold MainLoop.onTimers Proc.lift
    dsimp only
    split
    next value after returned =>
      obtain ⟨_, _, same⟩ := Exec.bind_eq_ok.mp returned
      cases same
      exact ⟨rfl, phase.of_eq rfl phase.wellFormed rfl fun _ => rfl⟩
    next => exact nofun
  apply Heeds.bind first
  rintro _ value after ⟨rfl, phaseAfter⟩
  exact second value after phaseAfter

end Rules

section Loops

variable {Alpha : Type} {orderly : Prop} {reads : Nat} {stop : Option LoopState}
  {state : LoopState}

theorem whileGoing_stopped (stopped : Alpha) (turn : Looping (Option Alpha)) (bound : Nat)
    (ended : state.Stopped) : (whileGoing stopped turn bound).run state = .done stopped state := by
  cases bound with
  | zero =>
    rw [whileGoing, Proc.run_bind_of_done rfl, ended]
    rfl
  | succ bound =>
    rw [whileGoing, Proc.run_bind_of_done rfl, ended]
    rfl

/-- A turn starts while the manager goes.  If it is stopped in a turn that leaves the loop, the
loop ends with the value of that turn, else with its own. -/
theorem whileGoing_heeds {Ends : Alpha → Prop} {stopped : Alpha} (ends : Ends stopped)
    {turn : Looping (Option Alpha)}
    (turns : ∀ state, Phase orderly reads none state →
      Heeds orderly (fun stop left after => Phase orderly reads stop after ∧
        (stop.isSome → ∀ value, left = some value → Ends value)) none (turn.run state))
    (bound : Nat) (phase : Phase orderly reads stop state) :
    Heeds orderly (fun stop value after => Phase orderly reads stop after ∧
      (stop.isSome → Ends value)) stop ((whileGoing stopped turn bound).run state) := by
  induction bound generalizing stop state with
  | zero =>
    cases stop with
    | some stop =>
      rw [whileGoing_stopped _ _ _ (LoopState.Quiet.stopped phase)]
      exact ⟨phase, fun _ => ends⟩
    | none =>
      rw [whileGoing, Proc.run_bind_of_done rfl, if_pos phase.1]
      exact nofun
  | succ bound inductionHypothesis =>
    cases stop with
    | some stop =>
      rw [whileGoing_stopped _ _ _ (LoopState.Quiet.stopped phase)]
      exact ⟨phase, fun _ => ends⟩
    | none =>
      rw [whileGoing, Proc.run_bind_of_done rfl, if_pos phase.1]
      apply Heeds.bind (turns state phase)
      rintro stop (_ | value) after ⟨phaseAfter, left⟩
      · exact inductionHypothesis phaseAfter
      · exact ⟨phaseAfter, fun late => left late value rfl⟩

theorem execSlot_heeds {slot : Nat} (phase : Phase orderly 0 none state) :
    Heeds orderly (fun stop _ after => Phase orderly 0 stop after) none
      ((execSlot slot).run state) := by
  apply Heeds.onTimers phase
  intro found state phase
  exact ⟨nofun, fun after behaves => phase.callBack behaves⟩

theorem pendingTurn_heeds (env : LoopEnv) (phase : Phase orderly 0 none state) :
    Heeds orderly (fun stop left after => Phase orderly 0 stop after ∧
      (stop.isSome → ∀ result, left = some result → result.ret = -2)) none
      ((pendingTurn env).run state) := by
  unfold pendingTurn
  apply Heeds.ask phase
  intro state phase _ _
  split_ifs
  · exact ⟨phase, nofun⟩
  · rw [Proc.run_bind_of_done rfl]
    split
    · apply Heeds.ask phase
      intro state phase _ _
      exact ⟨phase, nofun⟩
    · apply Heeds.onTimers phase
      rintro ⟨tim, timer⟩ state phase
      simp only []
      split_ifs
      · apply Heeds.ask phase
        intro state phase _ _
        exact ⟨phase, nofun⟩
      · apply Heeds.onTimers phase
        intro _ state phase
        apply Heeds.ask phase
        intro state phase _ _
        split_ifs
        · exact ⟨phase, nofun⟩
        · apply Heeds.bind (execSlot_heeds phase)
          exact fun stop _ after phaseAfter => ⟨phaseAfter, fun _ => nofun⟩

theorem pendingTimers_heeds (env : LoopEnv) (bound : Nat) (phase : Phase orderly 0 none state) :
    Heeds orderly (fun stop result after => Phase orderly 0 stop after ∧
      (stop.isSome → result.ret = -2)) none ((pendingTimers env bound).run state) := by
  refine whileGoing_heeds ?_ (fun _ phase => pendingTurn_heeds env phase) bound phase
  rfl

theorem callSignals_heeds (b : Int) (contexts : List SigContext)
    (phase : Phase orderly 0 stop state) :
    Heeds orderly (fun stop _ after => Phase orderly 0 stop after) stop
      ((callSignals b contexts).run state) := by
  induction contexts generalizing stop state with
  | nil => exact phase
  | cons c next inductionHypothesis =>
    rw [callSignals]
    split_ifs
    · refine ⟨fun _ => ⟨phase.mono (Nat.zero_le _), id⟩, ?_⟩
      intro after behaves
      exact inductionHypothesis (phase.callBack behaves)
    · exact inductionHypothesis phase

theorem readySocket_heeds (reads : Int → Bool) (phase : Phase orderly 0 stop state) :
    Heeds orderly (fun stop left after => Phase orderly 0 stop after ∧
      (stop.isSome → ∀ sock, left = some sock → sock ≠ -1)) stop
      ((readySocket reads).run state) := by
  rw [readySocket, Proc.run_bind_of_done rfl]
  split_ifs with ready ready
  · refine ⟨phase, ?_⟩
    rintro _ _ ⟨⟩ failed
    simp [failed] at ready
  · refine ⟨phase, ?_⟩
    rintro _ _ ⟨⟩ failed
    simp [failed] at ready
  · exact ⟨phase, fun _ => nofun⟩

/-- A turn of `tube_manager_wait`: stopped by a timer it returns `-2`, and stopped by a signal it
goes on to the sockets. -/
theorem waitTurn_heeds (env : LoopEnv) (bound : Nat) (pipeR : Int)
    (phase : Phase orderly 0 none state) :
    Heeds orderly (fun stop left after => Phase orderly 0 stop after ∧
      (stop.isSome → ∀ sock, left = some sock → sock ≠ -1)) none
      ((waitTurn env bound pipeR).run state) := by
  apply Heeds.bind (pendingTimers_heeds env bound phase)
  rintro stop pending state ⟨phase, returned⟩
  split_ifs with left
  · refine ⟨phase, ?_⟩
    rintro late _ ⟨⟩
    rw [returned late]
    decide
  · cases stop with
    | some stop => exact absurd (returned rfl ▸ (by decide : (-2 : Int) < 0)) left
    | none =>
      apply Heeds.onTimers phase
      intro timeout state phase
      apply Heeds.ask phase
      intro state phase _ _
      split
      · exact ⟨phase, nofun⟩
      · exact ⟨phase, nofun⟩
      · apply Heeds.ask phase
        intro state phase _ _
        split
        · exact ⟨phase, nofun⟩
        · refine ⟨phase.of_eq rfl ?_ rfl fun _ => rfl, nofun⟩
          exact fun holds => (phase.wellFormed holds).atTime _
      · split_ifs
        · apply Heeds.ask phase
          intro state phase _ _
          split
          · exact readySocket_heeds _ phase
          · rw [Proc.run_bind_of_done rfl]
            apply Heeds.bind (callSignals_heeds _ _ phase)
            exact fun stop _ after phaseAfter => readySocket_heeds _ phaseAfter
        · exact readySocket_heeds _ phase

theorem tubeManagerWait_heeds (env : LoopEnv) (bound : Nat) (phase : Phase orderly 0 none state) :
    Heeds orderly (fun stop sock after => Phase orderly 0 stop after ∧
      (stop.isSome → sock ≠ -1)) none ((tubeManagerWait env bound).run state) := by
  rw [tubeManagerWait, Proc.run_bind_of_done rfl]
  refine whileGoing_heeds ?_ (fun _ phase => waitTurn_heeds env bound _ phase) bound phase
  decide

end Loops

section Datagrams

variable {orderly : Prop} {stop : Option LoopState}
  {state : LoopState} {received : Reception}

/-- The body of the loop, which callbacks may stop. -/
theorem body_heeds {environment : Environment} {library : CborLibrary} {hasErr : Bool}
    (limited : orderly → ∀ size, 2 ^ 30 ≤ size → environment.calloc size = false)
    (phase : Phase orderly 1 stop state)
    (calm : orderly → stop.isSome → received.bytes ≠ [] ∧
      (hasErr = true ∨ ∃ msg, spudParse library received.buf = .ok msg) ∧
      ∀ msg, spudParse library received.buf = .ok msg → ¬ state.mgr.Breaks environment msg) :
    Heeds orderly (fun stop verdict after => Phase orderly 1 stop after ∧
        (orderly → stop.isSome → verdict = .next)) stop
      ((onTubes (tubeManagerLoopBody environment library hasErr received)).run state) := by
  let keeps : Notice → Option Nat := fun notice => (LoopCall.event notice).keeps
  have attends : Attends keeps := ⟨fun _ => rfl, fun _ => rfl, fun _ => rfl⟩
  have resolves := Follows.given fun holds : orderly =>
    @tubeManagerLoopBody_resolves state.mgr environment keeps library hasErr received
      (phase.wellFormed holds) attends (limited holds)
  have keepsGoing := @tubeManagerLoopBody_keepsGoing environment library hasErr received state.mgr
  let Linked : Bool × Bool → Option LoopState → LoopState → Prop := fun seen stop whole =>
    Phase orderly 1 stop whole ∧ whole.mgr.keepGoing = seen.2 ∧
      (orderly → stop.isSome → seen.1 = false → received.bytes ≠ [] ∧
        (hasErr = true ∨ ∃ msg, spudParse library received.buf = .ok msg) ∧
        ∀ msg, spudParse library received.buf = .ok msg → ¬ state.mgr.Breaks environment msg)
  refine Follows.zoom Linked (resolves.preserving keepsGoing) ⟨phase, rfl, fun holds late _ =>
    calm holds late⟩ ?_ ?_ ?_
  · rintro ⟨called, going⟩ stop whole ⟨_, _, calm⟩ faults late holds
    obtain ⟨first, faulty⟩ := faults holds
    obtain ⟨nonempty, tolerated, _⟩ := calm holds late first
    rcases faulty with empty | ⟨noErr, rejected⟩
    · exact nonempty empty
    · rcases tolerated with hasErr | ⟨msg, parsed⟩
      · cases noErr.symm.trans hasErr
      · exact rejected msg parsed
  · rintro ⟨called, going⟩ stop whole call mgr ⟨phase, seen, _⟩ ⟨ensured, same⟩
    have phaseCall : Phase orderly 1 stop { whole with mgr := mgr } :=
      phase.of_eq (same.trans seen.symm) (fun holds => (ensured holds).1) rfl nofun
    refine ⟨fun _ => ⟨phaseCall, id⟩, ?_⟩
    intro after behaves
    refine ⟨fun holds => ⟨(behaves.2 holds).wellFormed, (behaves.2 holds).keeps⟩,
      phaseCall.callBack behaves, rfl, fun _ _ => nofun⟩
  · rintro ⟨called, going⟩ stop whole verdict mgr ⟨phase, seen, calm⟩ ⟨post, same⟩
    refine ⟨phase.of_eq (same.trans seen.symm) (fun holds => (post holds).1) rfl nofun, ?_⟩
    intro holds late
    cases verdict with
    | next => rfl
    | failed =>
      obtain ⟨first, msg, parsed, breaks⟩ := (post holds).2 rfl
      exact absurd breaks ((calm holds late first).2.2 msg parsed)

theorem Phase.receive (phase : Phase orderly 0 stop state) (received : Reception) :
    Phase orderly 1 stop { state with received := state.received ++ [received] } := by
  cases stop with
  | none => exact phase
  | some stop =>
    obtain ⟨stopped, wellFormed, _, news, same, few⟩ := phase
    refine ⟨stopped, wellFormed, nofun, news ++ [received], ?_, ?_⟩
    · rw [same, List.append_assoc]
    · rw [List.length_append]
      exact Nat.add_le_add_right few 1

variable {env : LoopEnv} {library : CborLibrary} {hasErr : Bool}

/-- A datagram after the stop is the last one, and does not end the loop with an error. -/
theorem handle_heeds (limited : orderly → env.Limited)
    (untroubled : orderly → env.Untroubled library)
    (phase : Phase orderly 1 stop state) (last : received ∈ state.received.getLast?)
    (calm : orderly → stop.isSome → received.bytes ≠ [] ∧
      (hasErr = true ∨ ∃ msg, spudParse library received.buf = .ok msg) ∧
        state.mgr.table.Roomy) (now : Timeval) :
    Heeds orderly (fun stop left after => Phase orderly 1 stop after ∧
        (stop.isSome → ∀ value, left = some value → orderly → value = true)) stop
      ((handle env library hasErr received now).run state) := by
  apply Heeds.ask phase
  intro asked phaseAsked same read
  let environment : Environment := { env.environment state with clock := now }
  have few : orderly → ∀ size, 2 ^ 30 ≤ size → environment.calloc size = false :=
    fun holds => limited holds state
  apply Heeds.bind (body_heeds few phaseAsked ?_)
  · rintro stop verdict after ⟨phaseAfter, ends⟩
    refine ⟨phaseAfter, ?_⟩
    intro late value left holds
    rw [ends holds late] at left
    cases left
  · intro holds late
    obtain ⟨nonempty, tolerated, roomy⟩ := calm holds late
    refine ⟨nonempty, tolerated, ?_⟩
    rw [same]
    exact (untroubled holds).handles state (phase.isStopped late) roomy received last

theorem receive_heeds (limited : orderly → env.Limited)
    (untroubled : orderly → env.Untroubled library)
    (phase : Phase orderly 0 stop state)
    (calm : orderly → stop.isSome → received.bytes ≠ [] ∧
      (hasErr = true ∨ ∃ msg, spudParse library received.buf = .ok msg)) :
    Heeds orderly (fun stop left after => Phase orderly 1 stop after ∧
        (stop.isSome → ∀ value, left = some value → orderly → value = true)) stop
      ((receive env library hasErr received).run state) := by
  have phaseRead := phase.receive received
  have settled : orderly → stop.isSome → received.bytes ≠ [] ∧
      (hasErr = true ∨ ∃ msg, spudParse library received.buf = .ok msg) ∧
        state.mgr.table.Roomy := by
    intro holds late
    exact ⟨(calm holds late).1, (calm holds late).2, phase.roomy late holds⟩
  have last : received ∈ (state.received ++ [received]).getLast? := by simp
  rw [receive, Proc.run_bind_of_done rfl]
  split_ifs with empty
  · intro late holds
    exact buf_ne_nil (calm holds late).1 (List.length_eq_zero_iff.mp empty)
  · split
    · exact handle_heeds limited untroubled phaseRead last settled _
    · apply Heeds.ask phaseRead
      intro asked phaseAsked same read
      split
      next missing =>
        refine ⟨phaseAsked, ?_⟩
        intro late value left holds
        exact absurd missing ((untroubled holds).clock _ (phaseRead.isStopped late))
      next now _ =>
        apply handle_heeds limited untroubled phaseAsked (read ▸ last) ?_ now
        rw [same]
        exact settled

/-- A turn of the loop: a stop makes `tube_manager_wait` return a socket or `-2`. -/
theorem loopTurn_heeds (limited : orderly → env.Limited)
    (untroubled : orderly → env.Untroubled library)
    (tolerated : orderly → env.Tolerated library hasErr) (bound : Nat)
    (phase : Phase orderly 1 none state) :
    Heeds orderly (fun stop left after => Phase orderly 1 stop after ∧
        (stop.isSome → ∀ value, left = some value → orderly → value = true)) none
      ((loopTurn env library hasErr bound).run state) := by
  apply Heeds.bind (tubeManagerWait_heeds env bound phase)
  rintro stop sock state ⟨phase, works⟩
  split_ifs with failed stopped
  · exact ⟨phase.mono (Nat.zero_le _), fun late => absurd failed (works late)⟩
  · exact ⟨phase.mono (Nat.zero_le _), fun _ => nofun⟩
  · apply Heeds.ask phase
    intro asked phaseAsked _ _
    cases answer : env.recvmsg sock state with
    | interrupted => exact ⟨phaseAsked.mono (Nat.zero_le _), fun _ => nofun⟩
    | failed =>
      refine ⟨phaseAsked.mono (Nat.zero_le _), ?_⟩
      intro late value left holds
      exact absurd answer ((untroubled holds).receives state sock (phase.isStopped late))
    | datagram received =>
      apply receive_heeds limited untroubled phaseAsked
      intro holds late
      have stopped := phase.isStopped late
      refine ⟨(untroubled holds).nonempty state sock received stopped answer, ?_⟩
      exact (tolerated holds).imp_right fun accepted => accepted state sock received stopped answer

theorem tubeManagerLoop_heeds (limited : orderly → env.Limited)
    (untroubled : orderly → env.Untroubled library)
    (tolerated : orderly → env.Tolerated library hasErr) (bound : Nat) (state : LoopState) :
    Heeds orderly (fun stop value after => stop.isSome →
        Phase orderly 1 stop after ∧ (orderly → value = true)) none
      ((tubeManagerLoop env library hasErr bound).run state) := by
  rw [tubeManagerLoop, Proc.run_bind_of_done rfl]
  split_ifs
  · exact nofun
  · rw [Proc.run_bind_of_done rfl]
    split_ifs
    · exact nofun
    · refine ⟨nofun, ?_⟩
      intro after behaves
      have phase : Phase orderly 1 _ after := Phase.entered behaves.2
      apply Follows.consequence (whileGoing_heeds (fun _ => rfl)
        (fun _ phase => loopTurn_heeds limited untroubled tolerated bound phase) bound phase)
      exact fun stop value after holds late => ⟨holds.1, holds.2 late⟩

end Datagrams

section Stops

variable {env : LoopEnv} {library : CborLibrary} {hasErr : Bool} {bound : Nat} {start : LoopState}
  {exchanges : List (Exchange LoopCall LoopState)} {last : Exchange LoopCall LoopState}
  {rest : Outcome LoopCall LoopState Bool}

theorem sinceStop_foldl (going : ∀ exchange ∈ exchanges, exchange.after.mgr.keepGoing = true)
    (stopped : last.after.Stopped) :
    (exchanges ++ [last]).foldl sinceStop none = some last.after := by
  rw [List.foldl_append]
  have none : exchanges.foldl sinceStop none = none := by
    induction exchanges with
    | nil => rfl
    | cons exchange exchanges inductionHypothesis =>
      rw [List.foldl_cons, sinceStop, if_pos (going _ List.mem_cons_self)]
      exact inductionHypothesis fun other member => going other (List.mem_cons_of_mem _ member)
  rw [none, List.foldl_cons, List.foldl_nil, sinceStop, if_neg]
  exact Bool.eq_false_iff.mp stopped

theorem rest_obeys {orderly : Prop} (limited : orderly → env.Limited)
    (untroubled : orderly → env.Untroubled library)
    (tolerated : orderly → env.Tolerated library hasErr)
    (leads : ((tubeManagerLoop env library hasErr bound).run start).Leads (exchanges ++ [last])
      rest)
    (behaved : ∀ exchange ∈ exchanges ++ [last],
      Behaves orderly exchange.call exchange.before exchange.after)
    (going : ∀ exchange ∈ exchanges, exchange.after.mgr.keepGoing = true)
    (stopped : last.after.Stopped) :
    rest.Obeys (¬ orderly) (fun call state => ¬ call.IsTimer ∧ last.after.Reads 1 state)
      (Behaves orderly)
      (fun value state => (orderly → value = true) ∧ last.after.Reads 1 state) := by
  have follows := Follows.leads
    (tubeManagerLoop_heeds limited untroubled tolerated bound start) leads behaved
  rw [sinceStop_foldl going stopped] at follows
  apply (follows.obeys fun _ => rfl).consequence (fun faults => faults rfl)
  · intro call state ensured
    obtain ⟨phase, notTimer⟩ := ensured rfl
    exact ⟨notTimer, phase.received⟩
  · exact fun _ _ _ behaves => behaves
  · intro value state ended
    obtain ⟨phase, returned⟩ := ended rfl
    exact ⟨returned, phase.received⟩

/-- The loop up to the callback that stops the manager, and from there on: no timer is started and
at most one datagram is read, whatever else happens; and the loop returns true without a fault,
unless the system reports an error, if there is an `err` or the datagram is accepted and the
callbacks leave the table in order and the tube that the loop goes on with. -/
theorem stop_prompt
    (leads : ((tubeManagerLoop env library hasErr bound).run start).Leads (exchanges ++ [last])
      rest)
    (plain : ∀ exchange ∈ exchanges ++ [last], Plain exchange.before exchange.after)
    (going : ∀ exchange ∈ exchanges, exchange.after.mgr.keepGoing = true)
    (stopped : last.after.mgr.keepGoing = false) :
    rest.Obeys True (fun call state => ¬ call.IsTimer ∧ last.after.Reads 1 state)
        (fun _ before after => Plain before after) (fun _ state => last.after.Reads 1 state) ∧
      (env.Limited → env.Untroubled library → env.Tolerated library hasErr →
        (∀ exchange ∈ exchanges ++ [last], Considerate exchange.call exchange.after) →
        rest.Obeys False (fun _ _ => True)
          (fun call before after => Plain before after ∧ Considerate call after)
          (fun value _ => value = true)) := by
  constructor
  · have obeys := @rest_obeys env library hasErr bound start exchanges last rest False
      False.elim False.elim False.elim leads
      (fun exchange member => ⟨plain exchange member, False.elim⟩) going stopped
    exact obeys.consequence (fun _ => trivial) (fun _ _ ensured => ensured)
      (fun _ _ _ plain => ⟨plain, False.elim⟩) fun _ _ ended => ended.2
  · intro limited untroubled tolerated considerate
    have obeys := @rest_obeys env library hasErr bound start exchanges last rest True
      (fun _ => limited) (fun _ => untroubled) (fun _ => tolerated) leads
      (fun exchange member => ⟨plain exchange member, fun _ => considerate exchange member⟩) going
      stopped
    exact obeys.consequence (fun faults => faults trivial) (fun _ _ _ => trivial)
      (fun _ _ _ behaves => ⟨behaves.1, fun _ => behaves.2⟩) fun _ _ ended => ended.1 trivial

end Stops

theorem not_breaks {mgr : TubeManager} {environment : Environment} {msg : SpudMessage}
    (succeeds : environment.Succeeds) (roomy : mgr.table.Roomy) : ¬ mgr.Breaks environment msg := by
  unfold TubeManager.Breaks
  split
  · rintro ⟨cell, _, fails⟩
    unfold Environment.Fails at fails
    simp only [succeeds.granted] at fails
    split at fails <;> simp at fails
  · rintro ⟨_, denied⟩
    exact denied ⟨succeeds.granted _, ⟨succeeds.granted _, succeeds.accepts roomy⟩,
      succeeds.granted _⟩
  · exact id

/-- A system that is always ready: the byte 10 is in the pipe, and the datagram in a socket. -/
def busy (bytes : List UInt8) : LoopEnv where
  pktinfo _ := true
  moment _ := true
  lock _ := true
  unlock _ := true
  select _ _ := .ready fun _ => true
  read _ := some 10
  recvmsg _ _ := .datagram { bareHeader ⟨fun _ => 9⟩ .spudOpen with bytes := bytes }
  gettimeofday _ := some ⟨1, 0⟩
  environment _ := obliging

theorem busy_untroubled {bytes : List UInt8} (nonempty : bytes ≠ []) :
    (busy bytes).Untroubled minimalCbor where
  receives _ _ _ := nofun
  nonempty state sock received _ answer := by
    cases answer
    exact nonempty
  clock _ _ := nofun
  handles state _ roomy _ _ _ _ := not_breaks obliging_succeeds roomy

def registered : LoopState where
  mgr := newResponder
  timers := Memory.empty
  timerQ := .gpriorityQueueCreate TimerManager.itemSize
  pipeR := 5
  sigContexts := [⟨0, 10, 0, 7⟩]
  requests := 0
  received := []

def loopstarted : Exchange LoopCall LoopState :=
  ⟨.loopstart, { registered with requests := 2 }, { registered with requests := 2 }⟩

def signalled : Exchange LoopCall LoopState :=
  ⟨.signal 7 10, { registered with requests := 6 },
    (tubeManagerStop true { registered with requests := 6 }).2⟩

theorem signalled_behaves : ∀ exchange ∈ [loopstarted, signalled],
    Plain exchange.before exchange.after ∧ Considerate exchange.call exchange.after := by
  have roomy : newResponder.table.Roomy := by decide
  intro exchange member
  rcases List.mem_pair.mp member with rfl | rfl
  · exact ⟨⟨rfl, id⟩, ⟨_, newResponder_holds⟩, roomy, nofun⟩
  · exact ⟨⟨rfl, fun _ => rfl⟩,
      ⟨_, newResponder_holds.registers, newResponder_holds.live⟩, roomy, nofun⟩

theorem stop_prompt_signalled : ∃ rest : Outcome LoopCall LoopState Bool,
    ((tubeManagerLoop (busy (sentHeader ⟨fun _ => 9⟩ .spudOpen false false).bytes) minimalCbor
      false 1).run registered).Leads [loopstarted, signalled] rest ∧
    rest.Obeys True (fun call state => ¬ call.IsTimer ∧ signalled.after.Reads 1 state)
      (fun _ before after => Plain before after) (fun _ state => signalled.after.Reads 1 state) ∧
    rest.Obeys False (fun _ _ => True)
      (fun call before after => Plain before after ∧ Considerate call after)
      (fun value _ => value = true) := by
  let env := busy (sentHeader ⟨fun _ => 9⟩ .spudOpen false false).bytes
  obtain ⟨rest, leads⟩ : ∃ rest, ((tubeManagerLoop env minimalCbor false 1).run registered).Leads
      [loopstarted, signalled] rest := ⟨_, .calling (.calling (.here _))⟩
  have going : ∀ exchange ∈ [loopstarted], exchange.after.mgr.keepGoing = true := by
    rintro exchange member
    rw [List.mem_singleton.mp member]
    rfl
  obtain ⟨quiet, returns⟩ := @stop_prompt env minimalCbor false 1 registered [loopstarted]
    signalled rest leads (fun exchange member => (signalled_behaves exchange member).1) going rfl
  refine ⟨rest, leads, quiet, returns (fun _ => obliging_refused) (busy_untroubled (by decide)) ?_
    fun exchange member => (signalled_behaves exchange member).2⟩
  refine .inr ?_
  rintro state sock _ _ ⟨⟩
  exact ⟨_, bareHeader_parsed minimalCbor ⟨fun _ => 9⟩ .spudOpen⟩

/-- Stopped by a signal, the loop reads the datagram that is there; without an `err` it is logged
through a null pointer if it is rejected. -/
theorem stop_rejected : (busy [0]).Limited ∧ (busy [0]).Untroubled minimalCbor ∧
    (∀ exchange ∈ [loopstarted, signalled],
      Plain exchange.before exchange.after ∧ Considerate exchange.call exchange.after) ∧
    signalled.before.mgr.keepGoing = true ∧
    signalled.after = (tubeManagerStop true signalled.before).2 ∧
    ((tubeManagerLoop (busy [0]) minimalCbor false 1).run registered).Leads
      [loopstarted, signalled] (.fault .nullDereference) :=
  ⟨fun _ => obliging_refused, busy_untroubled (by decide), signalled_behaves, rfl, rfl,
    .calling (.calling (.here _))⟩

end MainLoop

end SpudLib
