import SpudLib.Eventing.Progress
import SpudLib.Eventing.Release

/-!
# Any run of a dispatcher

What holds while callers bind, unbind, trigger and destroy as they like, even
when a queued moment has lost the binding it captured: the loop faults as soon
as it reads such a binding, and never after the dispatcher's destruction was
asked for.  `Moved` says what a step that returns has done.
-/

namespace SpudLib.Machine

open Link

variable {Data : Type}

/-- Callers may also unbind what is not bound, though not from the running event. -/
def Tolerated (machine : Machine Data) : EventCall Data → Prop
  | .unbind event cb =>
      machine.dispatch.events.Live event ∧
        (machine.dispatch.running = some event →
          cb ∈ Dispatcher.callbacks (machine.dispatch.listed event))
  | request => machine.Allowed request

def tolerantSystem (Data : Type) : System (Machine Data) (EventLabel Data) where
  Enabled machine
    | .internal => ¬ machine.control.Outside
    | .call request =>
        machine.control.Outside ∧ machine.dispatch.freed = false ∧ machine.Tolerated request
    | .ret _ => machine.control.Outside ∧ machine.control ≠ .idle
  step := (system Data).step

/-- The loop is at `moment`, of `event`, and the bindings it does not skip are
those the event had when the moment started. -/
structure Processes (machine : Machine Data) (view : View Data) (moment event : Nat) : Prop where
  running : machine.dispatch.running = some event
  head : ∃ data rest, view.queue = (moment, data) :: rest ∧ data.notifier = some event
  begun : .started moment event (active (view.lists event)) ∈ machine.trace

/-- Where the loop can stand.  A moment starts at the binding it captured, which
may be gone by then. -/
def Position (machine : Machine Data) (view : View Data) : Control → Prop
  | .idle =>
      machine.dispatch.running = none ∧ view.queue = [] ∧
        machine.dispatch.destroyPending = false
  | .dispatching => machine.dispatch.running = none
  | .visiting moment (some binding) => ∃ event, machine.Processes view moment event ∧
      (binding ∈ refs (view.lists event) ∨
        machine.dispatch.bindings.Freed binding ∧ machine.dispatch.destroyPending = false)
  | .calling moment binding _ => ∃ event, machine.Processes view moment event ∧
      binding ∈ refs (view.lists event)
  | .visiting moment none | .reporting moment | .resulting moment | .finishing moment =>
      ∃ event, machine.Processes view moment event

/-- The loop is at a binding that is gone. -/
def Dangles (machine : Machine Data) : Prop :=
  ∃ moment binding, machine.control = .visiting moment (some binding) ∧
    machine.dispatch.bindings.Freed binding

structure Orderly (machine : Machine Data) (view : View Data) : Prop where
  represents : machine.dispatch.Represents view
  distinct : ∀ event, machine.dispatch.events.Live event →
    (Dispatcher.callbacks (view.lists event)).Nodup
  unflagged : ∀ event, machine.dispatch.events.Live event →
    machine.dispatch.running ≠ some event → ∀ cell ∈ view.lists event, cell.2.unbound = false
  captured : ∀ cell ∈ view.queue, ∃ event, cell.2.notifier = some event ∧
    machine.dispatch.events.Live event ∧ ∀ binding, cell.2.bindings = some binding →
      binding ∈ refs (view.lists event) ∨ machine.dispatch.bindings.Freed binding
  prepared : ∀ moment ∈ machine.prepared, moment ∉ refs view.queue ∧
    ∃ data, machine.dispatch.moments.cells moment = some ⟨data, none⟩
  once : machine.prepared.Nodup
  accounted : ∀ moment ∈ machine.triggered.map Trigger.moment,
    moment ∈ refs view.queue ∨ machine.dispatch.moments.Freed moment
  alive : machine.dispatch.freed = false
  position : machine.Position view machine.control

/-- The dispatcher was destroyed, with every event it had and every moment ever
triggered. -/
structure Gone (before machine : Machine Data) : Prop where
  unoccupied : before.control = .idle ∨ before.control = .dispatching
  control : machine.control = .idle
  freed : machine.dispatch.freed = true
  trace : machine.trace = before.trace
  events : ∀ event, before.dispatch.events.Live event → machine.dispatch.events.Freed event
  noEvents : ∀ event, ¬ machine.dispatch.events.Live event
  triggered : machine.triggered = before.triggered
  moments : ∀ moment ∈ machine.triggered.map Trigger.moment,
    machine.dispatch.moments.Freed moment

/-- Between the two machines a caller has acted. -/
structure Keeps (machine next : Machine Data) : Prop where
  trace : next.trace = machine.trace
  running : next.dispatch.running = machine.dispatch.running
  live : ∀ event, next.dispatch.events.Live event ↔ machine.dispatch.events.Live event
  pending : machine.dispatch.destroyPending = true → next.dispatch.destroyPending = true
  control : next.control = machine.control ∨
    machine.control = .idle ∧ next.control = .dispatching

/-- The moves of the loop inside one moment, and what they add to the trace. -/
inductive Stride (cells : List (Nat × BindingData)) (moment : Nat) (data : MomentData Data) :
    Control → List Entry → Control → Prop where
  | ended : Stride cells moment data (.visiting moment none) [] (.reporting moment)
  | skipped {passed binding content rest} : cells = passed ++ (binding, content) :: rest →
      content.normalBound = false →
      Stride cells moment data (.visiting moment (some binding)) []
        (.visiting moment (refs rest).head?)
  | called {passed binding content rest} : cells = passed ++ (binding, content) :: rest →
      content.normalBound = true →
      Stride cells moment data (.visiting moment (some binding))
        [.called moment content.cb content.arg] (.calling moment binding data.handled)
  | unreported : data.resultCb = none →
      Stride cells moment data (.reporting moment) [] (.finishing moment)
  | reported {resultCb} : data.resultCb = some resultCb →
      Stride cells moment data (.reporting moment) [.reported moment resultCb data.handled]
        (.resulting moment)
  | resumed : Stride cells moment data (.resulting moment) [] (.finishing moment)

/-- What a call adds to the triggers made, and to the queue. -/
inductive Queues (view : View Data) (before : List Trigger) :
    List Trigger → List (Nat × MomentData Data) → Prop where
  | nothing : Queues view before before []
  | moment {moment event} {data : Data} {resultCb resultArg} :
      moment ∉ before.map Trigger.moment →
      Queues view before
        (before ++ [⟨moment, event, Dispatcher.callbacks (view.lists event), resultCb⟩])
        [(moment, ⟨some event, some data, false, resultCb, resultArg,
          (refs (view.lists event)).head?⟩)]

/-- What a step does to the machine and to what it stands for. -/
inductive Moved (machine : Machine Data) (view : View Data) :
    EventLabel Data → Machine Data → View Data → Prop where
  | refused {event cb arg} : cb ∉ Dispatcher.callbacks (view.lists event) →
      Moved machine view (.call (.bind event cb arg false)) machine view
  | bound {event cb arg granted dispatch} :
      granted = true ∨ cb ∈ Dispatcher.callbacks (view.lists event) →
      machine.Keeps { machine with dispatch := dispatch } →
      dispatch.destroyPending = machine.dispatch.destroyPending →
      Moved machine view (.call (.bind event cb arg granted)) { machine with dispatch := dispatch }
        (view.setList event
          (Dispatcher.boundCells cb arg machine.dispatch.bindings.fresh (view.lists event)))
  | unbound {event cb dispatch} : machine.Keeps { machine with dispatch := dispatch } →
      dispatch.destroyPending = machine.dispatch.destroyPending →
      Moved machine view (.call (.unbind event cb)) { machine with dispatch := dispatch }
        (view.setList event
          (if machine.dispatch.running = some event then
            Dispatcher.flaggedCells cb (view.lists event)
          else Dispatcher.unboundCells cb (view.lists event)))
  | asked {request next more} : (∀ event cb arg granted, request ≠ .bind event cb arg granted) →
      (∀ event cb, request ≠ .unbind event cb) → machine.Keeps next →
      Queues view machine.triggered next.triggered more →
      request = .destroy ∨ next.dispatch.destroyPending = machine.dispatch.destroyPending →
      Moved machine view (.call request) next { view with queue := view.queue ++ more }
  | rested : machine.control = .dispatching → machine.dispatch.destroyPending = false →
      view.queue = [] →
      Moved machine view .internal { machine with control := .idle } view
  | started {moment event data rest dispatch} : machine.control = .dispatching →
      machine.dispatch.destroyPending = false →
      view.queue = (moment, data) :: rest → data.notifier = some event →
      machine.dispatch.events.Live event → dispatch.running = some event →
      (∀ other, dispatch.events.Live other ↔ machine.dispatch.events.Live other) →
      dispatch.destroyPending = false →
      Moved machine view .internal
        { machine with
          dispatch := dispatch
          control := .visiting moment data.bindings
          trace := machine.trace ++
            [.started moment event (Dispatcher.callbacks (view.lists event))] }
        (view.setList event (Dispatcher.settledCells (view.lists event)))
  | walked {label moment event data rest control added} : machine.Processes view moment event →
      view.queue = (moment, data) :: rest →
      Stride (view.lists event) moment data machine.control added control →
      label = .internal ∨ (∃ left, label = .ret left) →
      Moved machine view label
        { machine with control := control, trace := machine.trace ++ added } view
  | returned {moment event binding handled left passed content cells data rest dispatch} :
      machine.Processes view moment event →
      machine.control = .calling moment binding handled →
      view.lists event = passed ++ (binding, content) :: cells →
      view.queue = (moment, data) :: rest →
      dispatch.running = machine.dispatch.running →
      dispatch.destroyPending = machine.dispatch.destroyPending →
      dispatch.events = machine.dispatch.events →
      Moved machine view (.ret left)
        { machine with
          dispatch := dispatch
          control := .visiting moment (refs cells).head?
          trace := machine.trace ++ [.returned moment left] }
        { view with queue := (moment, { data with handled := handled || left }) :: rest }
  | finished {moment event data rest dispatch} : machine.Processes view moment event →
      machine.control = .finishing moment → view.queue = (moment, data) :: rest →
      dispatch.running = none →
      dispatch.destroyPending = machine.dispatch.destroyPending →
      (∀ other, dispatch.events.Live other ↔ machine.dispatch.events.Live other) →
      Moved machine view .internal
        { machine with
          dispatch := dispatch
          control := .dispatching
          trace := machine.trace ++ [.finished moment] }
        (View.setList { view with queue := rest } event
          (Dispatcher.sweptCells (view.lists event)))

end SpudLib.Machine
