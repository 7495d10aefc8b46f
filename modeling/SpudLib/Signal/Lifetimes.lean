import SpudLib.Signal.SelfPipe
import SpudLib.Tube.Descriptors
import SpudLib.Foundation.Memory

/-!
# Registrations and the lives of managers

Managers are created and destroyed while the registrations of signals are on
one list for the whole process, from which nothing is ever taken.  A
registration is about a living manager as long as no manager is destroyed that
has one.
-/

namespace SpudLib

/-- A process: its managers, the kernel that it asks, and its registrations. -/
structure Process where
  kernel : Kernel
  managers : Memory ManagerParts
  signals : Signals

inductive ProcessStep where
  | create (answers : List Bool)
  | signal (mgr : Nat) (sig : Int) (cb : Nat) (granted : Bool)
  | destroy (mgr : Option Nat) (answers : List Bool)
  | deliver (sig : Int)

namespace Process

def asked (process : Process) (answers : List Bool) (mgr : ManagerParts) : Setup :=
  ⟨{ process.kernel with answers := answers }, mgr⟩

/-- `_tm_signal` looks the pipe of each manager up that it interrupts. -/
def lookUpPipes (managers : Memory ManagerParts) (sig : Int) : List SigContext → Exec Unit
  | [] => pure ()
  | c :: next =>
      if c.sig = sig then do
        let _ ← managers.read c.mgr
        lookUpPipes managers sig next
      else lookUpPipes managers sig next

/-- One step; `accepts` says for which numbers `signal` sets the handler. -/
def perform (accepts : Int → Bool) (process : Process) : ProcessStep → Exec Process
  | .create answers =>
      match Setup.tubeManagerCreate.run (process.asked answers .zero) with
      | (.error _, setup) => pure { process with kernel := setup.kernel }
      | (.ok _, setup) =>
          pure { process with
            kernel := setup.kernel
            managers := process.managers.alloc setup.mgr }
  | .signal mgr sig cb granted =>
      pure { process with
        signals := process.signals.perform accepts (.register mgr sig cb granted) }
  | .destroy none _ => pure process
  | .destroy (some mgr) answers => do
      let parts ← process.managers.read mgr
      let setup := (Setup.tubeManagerDestroy.run (process.asked answers parts)).2
      let managers ← process.managers.free mgr
      pure { process with kernel := setup.kernel, managers := managers }
  | .deliver sig => do
      lookUpPipes process.managers sig process.signals.sigContexts
      pure { process with signals := process.signals.perform accepts (.deliver sig) }

def system (accepts : Int → Bool) : System Process ProcessStep where
  Enabled process
    | .signal mgr _ _ _ | .destroy (some mgr) _ => process.managers.Live mgr
    | _ => True
  step := perform accepts

def AllLive (process : Process) : Prop :=
  ∀ c ∈ process.signals.sigContexts, process.managers.Live c.mgr

def Unregistered (process : Process) : ProcessStep → Prop
  | .destroy (some mgr) _ => ∀ c ∈ process.signals.sigContexts, c.mgr ≠ mgr
  | _ => True

section Steps

variable {accepts : Int → Bool} {process next : Process}

theorem lookUpPipes_ok {managers : Memory ManagerParts} {contexts : List SigContext}
    (live : ∀ c ∈ contexts, managers.Live c.mgr) (sig : Int) :
    lookUpPipes managers sig contexts = .ok () := by
  induction contexts with
  | nil => rfl
  | cons c contexts inductionHypothesis =>
    have rest := inductionHypothesis fun d member => live d (List.mem_cons_of_mem c member)
    rw [lookUpPipes]
    split
    · obtain ⟨parts, found⟩ := live c List.mem_cons_self
      rw [Memory.read_of_some found]
      exact rest
    · exact rest

theorem destroyed {mgr : Nat} {answers : List Bool}
    (returned : process.perform accepts (.destroy (some mgr) answers) = .ok next) :
    process.managers.Live mgr ∧ next.managers = process.managers.erase mgr ∧
      next.signals = process.signals := by
  obtain ⟨parts, read, onward⟩ := Exec.bind_eq_ok.mp returned
  have found := Memory.read_eq_ok_iff.mp read
  obtain ⟨managers, freed, same⟩ := Exec.bind_eq_ok.mp onward
  rw [Memory.free_of_some found] at freed
  cases freed
  cases same
  exact ⟨⟨parts, found⟩, rfl, rfl⟩

/-- A manager leaves no registration behind exactly when it has none. -/
theorem AllLive.destroyed_iff (live : process.AllLive) {mgr : Nat} {answers : List Bool}
    (returned : process.perform accepts (.destroy (some mgr) answers) = .ok next) :
    next.AllLive ↔ process.Unregistered (.destroy (some mgr) answers) := by
  obtain ⟨_, managers, signals⟩ := destroyed returned
  rw [AllLive, Unregistered, managers, signals]
  refine forall_congr' fun c => forall_congr' fun member => ?_
  constructor
  · rintro ⟨parts, found⟩ rfl
    rw [Memory.erase_cells_self] at found
    cases found
  · exact (live c member).erase

theorem AllLive.signal (live : process.AllLive) {mgr cb : Nat} {sig : Int} {granted : Bool}
    (here : process.managers.Live mgr) :
    ∀ c ∈ (process.signals.perform accepts (.register mgr sig cb granted)).sigContexts,
      process.managers.Live c.mgr := by
  rw [Signals.perform, Signals.tubeManagerSignal]
  split
  · exact live
  · split
    · exact live
    · rintro c (_ | ⟨_, member⟩)
      · exact here
      · exact live c member

theorem AllLive.step (live : process.AllLive) {step : ProcessStep}
    (enabled : (system accepts).Enabled process step) (unregistered : process.Unregistered step)
    (returned : process.perform accepts step = .ok next) : next.AllLive := by
  cases step with
  | create answers =>
    rw [perform] at returned
    split at returned
    · cases returned
      exact live
    · cases returned
      intro c member
      exact (live c member).alloc _
  | signal mgr sig cb granted =>
    cases returned
    exact live.signal enabled
  | destroy mgr answers =>
    cases mgr with
    | none =>
      cases returned
      exact live
    | some mgr => exact (live.destroyed_iff returned).mpr unregistered
  | deliver sig =>
    obtain ⟨_, _, same⟩ := Exec.bind_eq_ok.mp returned
    cases same
    intro c member
    refine live c ?_
    rw [← (Signals.tmSignal_kept sig process.signals.sigContexts process.signals).1]
    exact member

end Steps

/-- As long as no manager is destroyed that has a registration, every registration is about a
living manager and every signal finds its managers; destroying one that has a registration leaves
that behind. -/
theorem run_registrations_live (accepts : Int → Bool) (start last : Process)
    (steps : List ProcessStep) (none : start.signals.sigContexts = [])
    (run : ((system accepts).restrict Unregistered).Run start steps last) :
    last.AllLive ∧ (∀ sig, ∃ next, last.perform accepts (.deliver sig) = .ok next) ∧
      ∀ mgr answers next, last.perform accepts (.destroy (some mgr) answers) = .ok next →
        (next.AllLive ↔ last.Unregistered (.destroy (some mgr) answers)) := by
  have live : last.AllLive := by
    refine run.preserves AllLive ?_ ?_
    · rintro process step next live ⟨enabled, unregistered⟩ returned
      exact live.step enabled unregistered returned
    · rw [AllLive, none]
      nofun
  refine ⟨live, ?_, fun mgr answers next returned => live.destroyed_iff returned⟩
  intro sig
  refine ⟨{ last with signals := last.signals.perform accepts (.deliver sig) }, ?_⟩
  rw [perform, lookUpPipes_ok live sig]
  rfl

def empty : Process := ⟨⟨3, [], [], []⟩, .empty, .silent⟩

def obliging : List Bool := List.replicate 17 true

theorem run_registrations_live_two : ∃ last : Process,
    last.signals.sigContexts = [⟨0, 10, 1, 100⟩] ∧ last.AllLive := by
  obtain ⟨last, run, contexts⟩ : ∃ last, ((system Signals.usual).restrict Unregistered).Run empty
      [.create obliging, .create obliging, .signal 1 10 100 true, .destroy (some 0) [true, true],
        .deliver 10] last ∧ last.signals.sigContexts = [⟨0, 10, 1, 100⟩] := by
    refine System.Run.exists_cons ⟨trivial, trivial⟩ rfl ?_
    refine System.Run.exists_cons ⟨trivial, trivial⟩ rfl ?_
    refine System.Run.exists_cons ⟨⟨_, rfl⟩, trivial⟩ rfl ?_
    refine System.Run.exists_cons ⟨⟨_, rfl⟩, ?_⟩ rfl ?_
    · intro c member
      obtain rfl := List.mem_singleton.mp member
      decide
    · exact System.Run.exists_cons ⟨trivial, trivial⟩ rfl ⟨_, .nil _, rfl⟩
  exact ⟨last, contexts,
    (run_registrations_live Signals.usual empty last _ rfl run).1⟩

/-- A manager is destroyed after it registered a signal, and the signal finds it gone. -/
theorem registration_dangles : ∃ last : Process,
    (system Signals.usual).Run empty
      [.create obliging, .signal 0 10 100 true, .destroy (some 0) [true, true]] last ∧
    ¬ last.AllLive ∧ last.perform Signals.usual (.deliver 10) = .error .useAfterFree := by
  refine System.Run.exists_cons trivial rfl ?_
  refine System.Run.exists_cons ⟨_, rfl⟩ rfl ?_
  refine System.Run.exists_cons ⟨_, rfl⟩ rfl ⟨_, .nil _, ?_, rfl⟩
  intro live
  obtain ⟨parts, found⟩ := live ⟨0, 10, 0, 100⟩ (List.mem_singleton.mpr rfl)
  cases found

end Process

end SpudLib
