import SpudLib.Eventing.Awaiting
import SpudLib.Tube.Host

/-!
# A manager whose callbacks call it

`ls_event_trigger` runs the callbacks of an event before it returns, unless it is
called from a callback: then the event waits for its turn.  A call made while no
event runs is therefore suspended at the events it triggers, until the callbacks
of these events, and of those that they trigger, have returned; a call from a
callback runs straight to its end.
-/

namespace SpudLib

open TubeManager

/-- The events in the order in which `tube_manager_create` makes them, after `loopstart`. -/
def TubeEvent.address : TubeEvent → Nat
  | .running => 1
  | .data => 2
  | .close => 3
  | .add => 4
  | .remove => 5

/-- The dispatcher that `tube_manager_create` sets up. -/
def newDispatcher : Machine Notice where
  dispatch :=
    { events := ["loopstart", "running", "data", "close", "add", "remove"].foldl
        (fun events name => events.alloc ⟨name, none⟩) Memory.empty
      bindings := Memory.empty
      moments := Memory.empty
      running := none
      momentQueueTail := none
      nextMoment := none
      destroyPending := false
      freed := false }
  control := .idle
  prepared := []
  triggered := []
  trace := []

def Request.procedure (library : CborLibrary) : Request → Tubing Unit
  | .openTube env dest => do
      let _ ← tubeManagerOpenTube env dest
      pure ()
  | .create env => do
      let _ ← tubeCreate env
      pure ()
  | .setInfo t socket peer id => tubeSetInfo t socket peer id
  | .setState t state => tubeSetState t state
  | .add env t => do
      let _ ← tubeManagerAdd env t
      pure ()
  | .close env t => do
      let _ ← tubeClose env t
      pure ()
  | .data env t bytes => do
      let _ ← tubeData env library t bytes
      pure ()
  | .remove env t => tubeManagerRemove env t
  | .setPolicy willRespond => tubeManagerSetPolicyResponder willRespond
  | .receive env hasErr received => do
      let _ ← tubeManagerLoopBody env library hasErr received
      pure ()
  | .destroy env => tubeManagerDestroy env

def TubeManager.displaced (mgr : TubeManager) (id : SpudTubeId) : Option Nat :=
  (mgr.lookup id).toOption.join

/-- The tube that a request destroys: the one removed, or the one that had the identifier. -/
def TubeManager.destroys (mgr : TubeManager) : Request → Option Nat
  | .remove _ t => some t
  | .openTube env dest => if dest.isInternet then env.randomId.bind mgr.displaced else none
  | .add _ t => (mgr.tubes.cells t).bind fun cell => mgr.displaced cell.id
  | _ => none

def Request.removed : Request → List Nat
  | .remove _ t => [t]
  | _ => []

def Request.keeps (request : Request) (notice : Notice) : Option Nat :=
  match request with
  | .add .. => none
  | _ =>
      match notice with
      | .add t | .remove t => some t
      | .close d => some d.t
      | .running _ | .data _ => none

structure Suspension where
  request : Request
  notice : Notice
  resume : TubeManager → Outcome Notice TubeManager Unit

def Suspension.tube (suspension : Suspension) : Option Nat :=
  suspension.request.keeps suspension.notice

/-- A manager, its dispatcher, and the call that waits for callbacks. -/
structure Reentrant where
  machine : Machine Notice
  mgr : TubeManager
  suspended : Option Suspension

/-- A step: the dispatcher goes on, the suspended call goes on, the callback that
runs returns, `tube_manager_bind_event` is called, or another function is. -/
inductive ReentrantLabel where
  | dispatch
  | proceed
  | ret (left : Bool)
  | bind (event : TubeEvent) (cb : Nat) (granted : Bool)
  | call (request : Request)

namespace Reentrant

/-- A call goes on to its end, or up to an event whose callbacks are run first.  There is
memory for the moment: the call has seen to that. -/
def proceed (request : Request) (suspended : Option Suspension) :
    Outcome Notice TubeManager Unit → Machine Notice → Exec Reentrant
  | .done _ mgr, machine => pure ⟨machine, mgr, suspended⟩
  | .fault reason, _ => .error reason
  | .calling notice mgr resume, machine => do
      let machine ← machine.perform (.trigger notice.event.address notice none 0 true)
      if machine.control = .dispatching then pure ⟨machine, mgr, some ⟨request, notice, resume⟩⟩
      else proceed request suspended (resume mgr) machine

def perform (library : CborLibrary) (state : Reentrant) : ReentrantLabel → Exec Reentrant
  | .dispatch => do
      let machine ← state.machine.advance
      pure { state with machine := machine }
  | .proceed =>
      match state.suspended with
      | none => pure state
      | some suspension =>
          proceed suspension.request none (suspension.resume state.mgr) state.machine
  | .ret left => do
      let machine ← state.machine.resume left
      pure { state with machine := machine }
  | .bind event cb granted => do
      let machine ← state.machine.perform (.bind event.address cb 0 granted)
      pure { state with machine := machine }
  | .call request =>
      proceed request state.suspended ((request.procedure library).run state.mgr) state.machine

def Acting (state : Reentrant) : Prop :=
  state.machine.control.Outside ∧ (state.machine.control = .idle → state.suspended.isNone)

def Unadded (state : Reentrant) (t : Nat) : Prop :=
  state.mgr.tubes.Live t ∧ ¬ state.mgr.InTable t

/-- Calls are about tubes that exist, removals about tubes in the table; allocations and
sends succeed; the loop is not called from callbacks, and the manager is not destroyed. -/
def Allowed (library : CborLibrary) (state : Reentrant) : Request → Prop
  | .openTube env _ | .create env => env.Succeeds
  | .setInfo t _ peer _ =>
      state.Unadded t ∧ ∀ addr, peer = some addr → addr.isInternet = true
  | .setState t _ => state.mgr.tubes.Live t
  | .add env t => env.Succeeds ∧ state.Unadded t
  | .close env t | .data env t _ => env.Succeeds ∧ state.mgr.tubes.Live t
  | .remove env t => env.Succeeds ∧ state.mgr.InTable t
  | .setPolicy _ => True
  | .receive env hasErr received =>
      state.machine.control = .idle ∧ env.Succeeds ∧ received.bytes ≠ [] ∧
        (hasErr = true ∨ ∃ msg, spudParse library received.buf = .ok msg)
  | .destroy _ => False

def system (library : CborLibrary) : System Reentrant ReentrantLabel where
  Enabled state
    | .dispatch => ¬ state.machine.control.Outside
    | .proceed => state.machine.control = .idle ∧ state.suspended.isSome
    | .ret _ => state.machine.control.Outside ∧ state.machine.control ≠ .idle
    | .bind .. => state.Acting
    | .call request => state.Acting ∧ state.Allowed library request
  step := perform library

def IsNew (state : Reentrant) : Prop :=
  state.mgr.IsNew ∧ state.machine = newDispatcher ∧ state.suspended = none

def Invokes (label : ReentrantLabel) (next : Reentrant) : Prop :=
  label = .dispatch ∧
    ∃ moment binding handled, next.machine.control = .calling moment binding handled

def GivesLive (state : Reentrant) : Prop :=
  ∃ notice, state.machine.given = some notice ∧ state.mgr.tubes.Live notice.tube

/-- Whatever is done next, no call uses a tube that is destroyed, and no callback is given one. -/
structure UsesLive (steps : System Reentrant ReentrantLabel) (state : Reentrant) : Prop where
  safe : steps.Safe state
  given : ∀ label next, steps.Enabled state label → steps.step state label = .ok next →
    Invokes label next → next.GivesLive

/-- The tubes that callbacks are yet to be given, or that the suspended call goes on with. -/
def awaited (state : Reentrant) : List Nat :=
  (state.suspended.bind Suspension.tube).toList ++ state.machine.awaited.map Notice.tube

def announced (state : Reentrant) (request : Request) : List Nat :=
  if state.machine.dispatch.listed TubeEvent.remove.address = [] then [] else request.removed

/-- A call from a callback destroys no tube that is still awaited. -/
def Spares (state : Reentrant) : ReentrantLabel → Prop
  | .call request => state.machine.control ≠ .idle → ∀ t, state.mgr.destroys request = some t →
      t ∉ state.awaited ++ state.announced request
  | _ => True

end Reentrant

end SpudLib
