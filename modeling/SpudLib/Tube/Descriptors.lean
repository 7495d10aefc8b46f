import SpudLib.Foundation.Attempt
import Mathlib.Data.List.Infix

/-!
# The descriptors of a manager

`tube_manager_create`, `tube_manager_socket` and `tube_manager_destroy` of
`src/tube_manager.c`, with what they ask the system for.  The kernel answers
each call and each allocation in turn, and remembers which descriptors were
opened for the manager and which were closed.  An answer to `ls_htable_create`
or to `ls_event_dispatcher_create` is one to the whole of it.
-/

namespace SpudLib

/-- The descriptors a manager asked for, and the answers still to come. -/
structure Kernel where
  fresh : Nat
  opened : List Nat
  closed : List Nat
  answers : List Bool
  deriving DecidableEq

/-- `tube_manager`, as far as it is set up: of a pointer it is known whether it is NULL. -/
structure ManagerParts where
  initialized : Bool
  sock4 : Int
  sock6 : Int
  pipe : Int × Int
  maxFd : Int
  tubes : Bool
  dispatcher : Bool
  timerQ : Bool
  keepGoing : Bool
  willRespond : Bool
  deriving DecidableEq

/-- A manager as `calloc` returns it. -/
def ManagerParts.zero : ManagerParts := ⟨false, 0, 0, (0, 0), 0, false, false, false, false, false⟩

inductive SetupError where
  | noMemory
  | errno
  deriving DecidableEq

structure Setup where
  kernel : Kernel
  mgr : ManagerParts

/-- Every descriptor that was opened has been closed. -/
def Kernel.Balanced (kernel : Kernel) : Prop := ∀ fd ∈ kernel.opened, fd ∈ kernel.closed

instance (kernel : Kernel) : Decidable kernel.Balanced :=
  inferInstanceAs (Decidable (∀ fd ∈ kernel.opened, fd ∈ kernel.closed))

namespace Setup

def ask : Attempt Setup SetupError Bool :=
  .lift fun setup => (setup.kernel.answers.headD false,
    { setup with kernel := { setup.kernel with answers := setup.kernel.answers.tail } })

def require (error : SetupError) : Attempt Setup SetupError Unit := do
  if ← ask then pure () else .fail error

def assign (change : ManagerParts → ManagerParts) : Attempt Setup SetupError Unit :=
  .modify fun setup => { setup with mgr := change setup.mgr }

def openDescriptor : Attempt Setup SetupError Int :=
  .lift fun setup => (setup.kernel.fresh,
    { setup with
      kernel := { setup.kernel with
        fresh := setup.kernel.fresh + 1
        opened := setup.kernel.opened ++ [setup.kernel.fresh] } })

def pipe : Attempt Setup SetupError (Int × Int) := do
  require .errno
  let reader ← openDescriptor
  let writer ← openDescriptor
  pure (reader, writer)

/-- `socket`, which returns `-1` if it fails. -/
def socket : Attempt Setup SetupError Int := do
  if ← ask then openDescriptor else pure (-1)

/-- Read and set the flags of a descriptor with `fcntl`. -/
def setNonBlocking : Attempt Setup SetupError Unit := do
  require .errno
  require .errno

/-- `_tube_manager_finalize`.  The interrupt and the mutex may fail, which is not noticed. -/
def tubeManagerFinalize : Attempt Setup SetupError Unit := do
  assign fun mgr => { mgr with keepGoing := false }
  if (← Attempt.get).mgr.initialized then
    let _ ← ask
  assign fun mgr => { mgr with initialized := false }
  let _ ← ask
  assign fun mgr => { mgr with tubes := false, dispatcher := false, timerQ := false }

def managerEvents : List String := ["loopstart", "running", "data", "close", "add", "remove"]

/-- The calls of `ls_event_dispatcher_create_event`, up to the first that fails. -/
def createEvents : List String → Attempt Setup SetupError Unit
  | [] => pure ()
  | _ :: names => do
      require .noMemory
      createEvents names

/-- The part of `_tube_manager_init` that opens the pipe and sets it to non-blocking. -/
def setUpPipe : Attempt Setup SetupError Unit := do
  let ends ← pipe
  assign fun mgr => { mgr with pipe := ends }
  assign fun mgr => { mgr with maxFd := max mgr.maxFd ends.1 }
  setNonBlocking
  assign fun mgr => { mgr with maxFd := max mgr.maxFd ends.2 }
  setNonBlocking

/-- The part of `_tube_manager_init` that may fail. -/
def setUp : Attempt Setup SetupError Unit := do
  require .errno
  require .noMemory
  assign fun mgr => { mgr with tubes := true }
  require .noMemory
  assign fun mgr => { mgr with dispatcher := true }
  createEvents managerEvents
  require .noMemory
  assign fun mgr => { mgr with timerQ := true }
  require .errno
  setUpPipe

def tubeManagerInit : Attempt Setup SetupError Unit := do
  assign fun mgr => { mgr with
    initialized := false, sock4 := -1, sock6 := -1, maxFd := -1, keepGoing := true,
    pipe := (-1, -1) }
  setUp.orElse fun error => do
    tubeManagerFinalize
    .fail error

/-- `tube_manager_create`, of a manager that is all zeros. -/
def tubeManagerCreate : Attempt Setup SetupError Unit := do
  require .noMemory
  tubeManagerInit
  assign fun mgr => { mgr with initialized := true }

def tubeManagerDestroy : Attempt Setup SetupError Unit := tubeManagerFinalize

def tubeManagerSocket (port : UInt16) : Attempt Setup SetupError Unit := do
  assign fun mgr => { mgr with willRespond := port ≠ 0 }
  let sock6 ← socket
  assign fun mgr => { mgr with sock6 := sock6 }
  if sock6 < 0 then .fail .errno
  -- `IPV6_V6ONLY`, `bind`, `IPV6_RECVPKTINFO` and `SO_TIMESTAMP`
  require .errno
  require .errno
  require .errno
  require .errno
  setNonBlocking
  assign fun mgr => { mgr with maxFd := max mgr.maxFd sock6 }
  let sock4 ← socket
  assign fun mgr => { mgr with sock4 := sock4 }
  if sock4 < 0 then .fail .errno
  -- `bind`, `IP_PKTINFO` and `SO_TIMESTAMP`
  require .errno
  require .errno
  require .errno
  setNonBlocking
  assign fun mgr => { mgr with maxFd := max mgr.maxFd sock4 }

/-- Create a manager, ask for sockets any number of times, and destroy it; a manager that could
not be created is gone already. -/
def lifecycle (fresh : Nat) (answers : List Bool) (ports : List UInt16) : Kernel :=
  match tubeManagerCreate.run ⟨⟨fresh, [], [], answers⟩, .zero⟩ with
  | (.error _, setup) => setup.kernel
  | (.ok _, setup) =>
      let used := ports.foldl (fun setup port => ((tubeManagerSocket port).run setup).2) setup
      (tubeManagerDestroy.run used).2.kernel

/-- No descriptor was closed, and those that were open are the first of those that are. -/
def Extends (before after : Setup) : Prop :=
  before.kernel.opened <+: after.kernel.opened ∧ after.kernel.closed = before.kernel.closed

def Untouched (before after : Setup) : Prop :=
  after.kernel.opened = before.kernel.opened ∧ after.kernel.closed = before.kernel.closed

/-- The attempt opens descriptors if the next answers are in favour, and otherwise fails without
having opened any. -/
structure OpensAfter (count : Nat) (attempt : Attempt Setup SetupError Unit) : Prop where
  extending : attempt.Keeps Extends
  opens : ∀ setup, (attempt.run setup).2.kernel.opened = setup.kernel.opened ↔
    ¬ Grants setup.kernel.answers count
  fails : ∀ setup, ¬ Grants setup.kernel.answers count →
    ∃ error, (attempt.run setup).1 = .error error

section Keeps

instance : Std.Refl Extends := ⟨fun _ => ⟨List.prefix_rfl, rfl⟩⟩

instance : IsTrans Setup Extends :=
  ⟨fun _ _ _ before after => ⟨before.1.trans after.1, after.2.trans before.2⟩⟩

instance : Std.Refl Untouched := ⟨fun _ => ⟨rfl, rfl⟩⟩

instance : IsTrans Setup Untouched :=
  ⟨fun _ _ _ before after => ⟨after.1.trans before.1, after.2.trans before.2⟩⟩

theorem Untouched.extends {before after : Setup} (untouched : Untouched before after) :
    Extends before after :=
  ⟨by rw [untouched.1], untouched.2⟩

theorem ask_untouched : ask.Keeps Untouched := fun _ => ⟨rfl, rfl⟩

theorem assign_untouched (change : ManagerParts → ManagerParts) :
    (assign change).Keeps Untouched := fun _ => ⟨rfl, rfl⟩

theorem require_untouched (error : SetupError) : (require error).Keeps Untouched := by
  refine .bind ask_untouched ?_
  rintro (_ | _)
  · exact .fail error
  · exact .pure ()

theorem finalize_untouched : tubeManagerFinalize.Keeps Untouched := by
  refine .bind (assign_untouched _) fun _ => ?_
  refine .bind .get fun setup => ?_
  have rest : Attempt.Keeps Untouched (do
      assign fun mgr => { mgr with initialized := false }
      let _ ← ask
      assign fun mgr => { mgr with tubes := false, dispatcher := false, timerQ := false }) :=
    .bind (assign_untouched _) fun _ =>
      .bind ask_untouched fun _ => assign_untouched _
  cases setup.mgr.initialized with
  | false => exact rest
  | true => exact .bind ask_untouched fun _ => rest

theorem openDescriptor_extends : openDescriptor.Keeps Extends :=
  fun setup => ⟨List.prefix_append _ [setup.kernel.fresh], rfl⟩

theorem Keeps.extending {Alpha : Type} {attempt : Attempt Setup SetupError Alpha}
    (untouched : attempt.Keeps Untouched) : attempt.Keeps Extends :=
  fun setup => (untouched setup).extends

theorem require_extends (error : SetupError) : (require error).Keeps Extends :=
  Keeps.extending (require_untouched error)

theorem assign_extends (change : ManagerParts → ManagerParts) : (assign change).Keeps Extends :=
  Keeps.extending (assign_untouched change)

theorem pipe_extends : pipe.Keeps Extends := by
  refine .bind (require_extends _) fun _ => ?_
  refine .bind openDescriptor_extends fun reader => ?_
  exact .bind openDescriptor_extends fun writer => .pure _

theorem socket_extends : socket.Keeps Extends := by
  refine .bind (Keeps.extending ask_untouched) ?_
  rintro (_ | _)
  · exact .pure _
  · exact openDescriptor_extends

theorem setNonBlocking_extends : setNonBlocking.Keeps Extends :=
  .bind (require_extends _) fun _ => require_extends _

theorem tubeManagerSocket_extends (port : UInt16) : (tubeManagerSocket port).Keeps Extends := by
  have checked : ∀ (fd : Int) (next : Attempt Setup SetupError Unit), next.Keeps Extends →
      Attempt.Keeps Extends (do
        if fd < 0 then .fail .errno
        next) := by
    intro fd next rest
    split
    · exact .bind (.fail _) fun _ => rest
    · exact rest
  refine .bind (assign_extends _) fun _ => .bind socket_extends fun sock6 => ?_
  refine .bind (assign_extends _) fun _ => checked sock6 _ ?_
  refine .bind (require_extends _) fun _ => .bind (require_extends _) fun _ => ?_
  refine .bind (require_extends _) fun _ => .bind (require_extends _) fun _ => ?_
  refine .bind setNonBlocking_extends fun _ => .bind (assign_extends _) fun _ => ?_
  refine .bind socket_extends fun sock4 => .bind (assign_extends _) fun _ => checked sock4 _ ?_
  refine .bind (require_extends _) fun _ => .bind (require_extends _) fun _ => ?_
  refine .bind (require_extends _) fun _ => .bind setNonBlocking_extends fun _ => ?_
  exact assign_extends _

end Keeps

section OpensAfter

variable {count : Nat} {next : Attempt Setup SetupError Unit}

def advanced (setup : Setup) : Setup :=
  { setup with kernel := { setup.kernel with answers := setup.kernel.answers.tail } }

theorem require_granted {setup : Setup} (error : SetupError)
    (granted : Grants setup.kernel.answers 1) :
    (require error).run setup = (.ok (), setup.advanced) := by
  rcases answers : setup.kernel.answers with _ | ⟨answer, rest⟩
  · simp [answers] at granted
  · obtain rfl : answer = true := by simpa [answers] using granted
    have asked : ask.run setup = (.ok true, setup.advanced) := by
      simp [ask, Attempt.lift, answers, advanced]
    rw [require, Attempt.run_bind_of_ok asked]
    rfl

theorem require_refused {setup : Setup} (error : SetupError)
    (refused : ¬ Grants setup.kernel.answers 1) :
    (require error).run setup = (.error error, setup.advanced) := by
  have asked : ask.run setup = (.ok false, setup.advanced) := by
    rcases answers : setup.kernel.answers with _ | ⟨answer, rest⟩
    · simp [ask, Attempt.lift, answers, advanced]
    · have other : answer = false := by simpa [answers] using refused
      simp [ask, Attempt.lift, answers, advanced, other]
  rw [require, Attempt.run_bind_of_ok asked]
  rfl

theorem OpensAfter.require (opens : OpensAfter count next) (error : SetupError) :
    OpensAfter (count + 1) (Setup.require error >>= fun _ => next) := by
  have run : ∀ setup : Setup, Grants setup.kernel.answers 1 →
      (Setup.require error >>= fun _ => next).run setup = next.run setup.advanced :=
    fun setup granted => Attempt.run_bind_of_ok (require_granted error granted)
  have refused : ∀ setup : Setup, ¬ Grants setup.kernel.answers 1 →
      (Setup.require error >>= fun _ => next).run setup = (.error error, setup.advanced) :=
    fun setup refused => Attempt.run_bind_of_error (require_refused error refused)
  refine ⟨.bind (require_extends error) fun _ => opens.extending, ?_, ?_⟩
  · intro setup
    rw [grants_succ]
    by_cases granted : Grants setup.kernel.answers 1
    · rw [run setup granted, and_iff_right granted]
      exact opens.opens setup.advanced
    · rw [refused setup granted]
      simp [granted, advanced]
  · intro setup missing
    rw [grants_succ, not_and] at missing
    by_cases granted : Grants setup.kernel.answers 1
    · rw [run setup granted]
      exact opens.fails setup.advanced (missing granted)
    · rw [refused setup granted]
      exact ⟨error, rfl⟩

theorem OpensAfter.assign (opens : OpensAfter count next)
    (change : ManagerParts → ManagerParts) :
    OpensAfter count (Setup.assign change >>= fun _ => next) :=
  ⟨.bind (assign_extends change) fun _ => opens.extending, fun _ => opens.opens _,
    fun setup => opens.fails { setup with mgr := change setup.mgr }⟩

theorem OpensAfter.createEvents (opens : OpensAfter count next) (names : List String) :
    OpensAfter (names.length + count) (Setup.createEvents names >>= fun _ => next) := by
  induction names with
  | nil =>
    rw [List.length_nil, Nat.zero_add]
    exact ⟨.bind (.pure ()) fun _ => opens.extending, opens.opens, opens.fails⟩
  | cons name names inductionHypothesis =>
    rw [List.length_cons, Nat.add_right_comm]
    rw [Setup.createEvents, Attempt.bind_assoc]
    exact inductionHypothesis.require .noMemory

def piped (setup : Setup) : Setup :=
  { setup with
    kernel := { setup.kernel with
      fresh := setup.kernel.fresh + 2
      opened := setup.kernel.opened ++ [setup.kernel.fresh] ++ [setup.kernel.fresh + 1] } }

theorem pipe_granted {setup : Setup} (granted : Grants setup.kernel.answers 1) :
    pipe.run setup =
      (.ok (setup.kernel.fresh, (setup.kernel.fresh + 1 : Nat)), setup.advanced.piped) := by
  rw [pipe, Attempt.run_bind_of_ok (require_granted .errno granted)]
  rfl

theorem setUpPipe_opensAfter : OpensAfter 1 setUpPipe := by
  have rest : ∀ ends : Int × Int, Attempt.Keeps Extends (do
      Setup.assign fun mgr => { mgr with pipe := ends }
      Setup.assign fun mgr => { mgr with maxFd := max mgr.maxFd ends.1 }
      setNonBlocking
      Setup.assign fun mgr => { mgr with maxFd := max mgr.maxFd ends.2 }
      setNonBlocking) := by
    intro ends
    refine .bind (assign_extends _) fun _ => .bind (assign_extends _) fun _ => ?_
    refine .bind setNonBlocking_extends fun _ => .bind (assign_extends _) fun _ => ?_
    exact setNonBlocking_extends
  have refused : ∀ setup : Setup, ¬ Grants setup.kernel.answers 1 →
      setUpPipe.run setup = (.error .errno, setup.advanced) := by
    intro setup missing
    have failed : pipe.run setup = (.error .errno, setup.advanced) := by
      rw [pipe, Attempt.run_bind_of_error (require_refused .errno missing)]
    rw [setUpPipe, Attempt.run_bind_of_error failed]
  refine ⟨.bind pipe_extends rest, ?_, fun setup missing => ?_⟩
  · intro setup
    by_cases granted : Grants setup.kernel.answers 1
    · have longer := (rest (setup.kernel.fresh, (setup.kernel.fresh + 1 : Nat))
        setup.advanced.piped).1.length_le
      rw [setUpPipe, Attempt.run_bind_of_ok (pipe_granted granted)]
      refine iff_of_false ?_ (not_not.mpr granted)
      intro same
      rw [same] at longer
      simp only [piped, advanced, List.length_append, List.length_singleton] at longer
      omega
    · rw [refused setup granted]
      simp [granted, advanced]
  · rw [refused setup missing]
    exact ⟨.errno, rfl⟩

theorem OpensAfter.orElse (opens : OpensAfter count next)
    {handler : SetupError → Attempt Setup SetupError Unit}
    (handled : ∀ error, (handler error).Keeps Untouched)
    (failing : ∀ error setup, ∃ again, ((handler error).run setup).1 = .error again) :
    OpensAfter count (next.orElse handler) := by
  refine ⟨.orElse opens.extending fun error => Keeps.extending (handled error), ?_, ?_⟩
  · intro setup
    have exactly := opens.opens setup
    rcases ran : next.run setup with ⟨error | value, after⟩
    · rw [Attempt.run_orElse_of_error ran, (handled error after).1]
      rwa [ran] at exactly
    · rw [Attempt.run_orElse_of_ok ran]
      rwa [ran] at exactly
  · intro setup missing
    obtain ⟨error, failed⟩ := opens.fails setup missing
    rw [Attempt.run_orElse_of_error (Prod.ext failed rfl)]
    exact failing error _

theorem OpensAfter.andThen (opens : OpensAfter count next)
    {last : Attempt Setup SetupError Unit} (untouched : last.Keeps Untouched) :
    OpensAfter count (next >>= fun _ => last) := by
  refine ⟨.bind opens.extending fun _ => Keeps.extending untouched, ?_, ?_⟩
  · intro setup
    have exactly := opens.opens setup
    rcases ran : next.run setup with ⟨error | value, after⟩
    · rw [Attempt.run_bind_of_error ran]
      rwa [ran] at exactly
    · rw [Attempt.run_bind_of_ok ran, (untouched after).1]
      rwa [ran] at exactly
  · intro setup missing
    obtain ⟨error, failed⟩ := opens.fails setup missing
    rw [Attempt.run_bind_of_error (Prod.ext failed rfl)]
    exact ⟨error, rfl⟩

/-- Eleven things are asked for before the pipe. -/
theorem setUp_opensAfter : OpensAfter 12 setUp := by
  refine @OpensAfter.require 11 _ ?_ .errno
  refine @OpensAfter.require 10 _ (.assign ?_ _) .noMemory
  refine @OpensAfter.require 9 _ (.assign ?_ _) .noMemory
  refine @OpensAfter.createEvents 3 _ ?_ managerEvents
  refine @OpensAfter.require 2 _ (.assign ?_ _) .noMemory
  exact setUpPipe_opensAfter.require .errno

theorem tubeManagerCreate_opensAfter : OpensAfter 13 tubeManagerCreate := by
  have handled : ∀ error, Attempt.Keeps Untouched (do
      tubeManagerFinalize
      .fail error : Attempt Setup SetupError Unit) :=
    fun error => .bind finalize_untouched fun _ => .fail error
  have failing : ∀ (error : SetupError) (setup : Setup), ∃ again, ((do
      tubeManagerFinalize
      .fail error : Attempt Setup SetupError Unit).run setup).1 = .error again := by
    intro error setup
    rcases ran : tubeManagerFinalize.run setup with ⟨other | value, after⟩
    · rw [Attempt.run_bind_of_error ran]
      exact ⟨other, rfl⟩
    · rw [Attempt.run_bind_of_ok ran]
      exact ⟨error, rfl⟩
  have init : OpensAfter 12 tubeManagerInit := (setUp_opensAfter.orElse handled failing).assign _
  exact (init.andThen (assign_untouched _)).require .noMemory

end OpensAfter

theorem balanced_iff {kernel : Kernel} (closed : kernel.closed = []) :
    kernel.Balanced ↔ kernel.opened = [] := by
  rw [Kernel.Balanced, closed, List.eq_nil_iff_forall_not_mem]
  exact forall_congr' fun fd => imp_congr_right fun _ => by simp

/-- Every descriptor that was opened for a manager is closed in the end exactly when creating it
failed no later than in `pipe`, with the thirteenth answer. -/
theorem lifecycle_balanced_iff (fresh : Nat) (answers : List Bool) (ports : List UInt16) :
    (lifecycle fresh answers ports).Balanced ↔ ¬ Grants answers 13 := by
  have create := tubeManagerCreate_opensAfter
  have exactly := create.opens ⟨⟨fresh, [], [], answers⟩, .zero⟩
  have fails := create.fails ⟨⟨fresh, [], [], answers⟩, .zero⟩
  have closed := (create.extending ⟨⟨fresh, [], [], answers⟩, .zero⟩).2
  rw [lifecycle]
  rcases ran : tubeManagerCreate.run ⟨⟨fresh, [], [], answers⟩, .zero⟩ with
    ⟨error | value, setup⟩ <;> rw [ran] at exactly fails closed
  · exact (balanced_iff closed).trans exactly
  · have used : ∀ before, Extends before (ports.foldl
        (fun setup port => ((tubeManagerSocket port).run setup).2) before) := by
      induction ports with
      | nil => exact fun before => Std.Refl.refl before
      | cons port ports inductionHypothesis =>
        exact fun before => IsTrans.trans _ _ _ (tubeManagerSocket_extends port before)
          (inductionHypothesis _)
    have later := IsTrans.trans _ _ _ (used setup) (finalize_untouched _).extends
    have granted : Grants answers 13 := by
      by_contra missing
      obtain ⟨error, failed⟩ := fails missing
      cases failed
    refine iff_of_false ?_ (not_not.mpr granted)
    intro balanced
    have none := (balanced_iff (later.2.trans closed)).mp balanced
    have nothing : setup.kernel.opened = [] := List.prefix_nil.mp (none ▸ later.1)
    exact exactly.mp nothing granted

theorem lifecycle_leaks :
    (lifecycle 3 (List.replicate 40 true) [0]).opened = [3, 4, 5, 6] ∧
      (lifecycle 3 (List.replicate 40 true) [0]).closed = [] ∧
      ¬ (lifecycle 3 (List.replicate 40 true) [0]).Balanced ∧
      (lifecycle 3 (List.replicate 13 true) []).opened = [3, 4] ∧
      ¬ (lifecycle 3 (List.replicate 13 true) []).Balanced := by
  decide

end Setup

end SpudLib
