import SpudLib.Eventing.Dispatcher
import SpudLib.Eventing.Operations
import SpudLib.Foundation.System

/-!
# Runs of a dispatcher

`_dispatch_trigger` calls `_handle_trigger_int`, which calls back into code
that may call the dispatcher again.  The machine cuts this into steps: between
two steps either the program outside is about to act (it is idle, or inside a
callback), or the dispatch loop is at one of its own control points.  Two
records are kept for what is said about runs: the moments triggered, and what
the dispatch loop did, in order.
-/

namespace SpudLib

/-- A moment at the time it was triggered, with the callbacks its event had then. -/
structure Trigger where
  moment : Nat
  event : Nat
  callbacks : List Nat
  resultCb : Option Nat
  deriving DecidableEq

/-- What the dispatch loop does: it starts a moment while its event has these
callbacks, calls one with its argument, gets back what it left in
`evt->handled`, reports to the result callback, and finishes. -/
inductive Entry where
  | started (moment event : Nat) (callbacks : List Nat)
  | called (moment cb arg : Nat)
  | returned (moment : Nat) (left : Bool)
  | reported (moment resultCb : Nat) (result : Bool)
  | finished (moment : Nat)
  deriving DecidableEq

def Entry.moment : Entry → Nat
  | .started moment .. | .called moment .. | .returned moment .. | .reported moment ..
  | .finished moment => moment

/-- Where execution stands.  `visiting` is the head of the loop over bindings,
`calling` and `resulting` are inside a callback and a result callback;
`handled` is the local of that name. -/
inductive Control where
  | idle
  | dispatching
  | visiting (moment : Nat) (binding : Option Nat)
  | calling (moment binding : Nat) (handled : Bool)
  | reporting (moment : Nat)
  | resulting (moment : Nat)
  | finishing (moment : Nat)
  deriving DecidableEq

inductive EventCall (Data : Type) where
  | bind (event cb arg : Nat) (granted : Bool)
  | unbind (event cb : Nat)
  | prepareTrigger (granted : Bool)
  | unprepareTrigger (moment : Nat)
  | trigger (event : Nat) (data : Data) (resultCb : Option Nat) (resultArg : Nat) (granted : Bool)
  | triggerPrepared (event : Nat) (data : Data) (resultCb : Option Nat) (resultArg moment : Nat)
  | destroy

/-- A step: the dispatch loop goes on, the program makes a call, or the
callback that runs returns with `left` in `evt->handled`. -/
inductive EventLabel (Data : Type) where
  | internal
  | call (request : EventCall Data)
  | ret (left : Bool)

/-- A dispatcher in the middle of a run; `prepared` are the moments prepared
and not triggered yet. -/
structure Machine (Data : Type) where
  dispatch : Dispatcher Data
  control : Control
  prepared : List Nat
  triggered : List Trigger
  trace : List Entry

namespace Control

def Outside : Control → Prop
  | idle | calling .. | resulting _ => True
  | _ => False

instance (control : Control) : Decidable control.Outside := by
  cases control <;> unfold Outside <;> infer_instance

end Control

namespace Machine

variable {Data : Type}

/-- `ls_event_trigger_prepared`. -/
def triggerPrepared (machine : Machine Data) (event : Nat) (data : Data) (resultCb : Option Nat)
    (resultArg moment : Nat) : Exec (Machine Data) := do
  let filled ← machine.dispatch.fillMoment event data resultCb resultArg moment
  let queued ← filled.enqueue moment
  pure { machine with
    dispatch := queued
    prepared := machine.prepared.erase moment
    control := if queued.running.isSome then machine.control else .dispatching
    triggered := machine.triggered ++
      [⟨moment, event, Dispatcher.callbacks (machine.dispatch.listed event), resultCb⟩] }

def perform (machine : Machine Data) : EventCall Data → Exec (Machine Data)
  | .bind event cb arg granted => do
      let answer ← machine.dispatch.lsEventBind event cb arg granted
      pure { machine with dispatch := answer.2 }
  | .unbind event cb => do
      let dispatch ← machine.dispatch.lsEventUnbind event cb
      pure { machine with dispatch := dispatch }
  | .prepareTrigger granted =>
      match machine.dispatch.prepareTrigger granted with
      | (none, dispatch) => pure { machine with dispatch := dispatch }
      | (some moment, dispatch) =>
          pure { machine with dispatch := dispatch, prepared := machine.prepared ++ [moment] }
  | .unprepareTrigger moment => do
      let moments ← machine.dispatch.moments.free moment
      pure { machine with
        dispatch := { machine.dispatch with moments := moments }
        prepared := machine.prepared.erase moment }
  | .trigger event data resultCb resultArg granted =>
      match machine.dispatch.prepareTrigger granted with
      | (none, dispatch) => pure { machine with dispatch := dispatch }
      | (some moment, dispatch) =>
          { machine with
            dispatch := dispatch
            prepared := machine.prepared ++ [moment] }.triggerPrepared event data resultCb resultArg
              moment
  | .triggerPrepared event data resultCb resultArg moment =>
      machine.triggerPrepared event data resultCb resultArg moment
  | .destroy => do
      let dispatch ← machine.dispatch.lsEventDispatcherDestroy
      pure { machine with dispatch := dispatch }

/-- The beginning of `_handle_trigger_int`, up to its loop. -/
def start (machine : Machine Data) (moment : Nat) : Exec (Machine Data) := do
  let cell ← machine.dispatch.moments.read moment
  match cell.data.notifier with
  | none => .error .nullDereference
  | some event =>
      if machine.dispatch.running.isSome then .error .assertFailed
      else do
        let dispatch ← { machine.dispatch with running := some event }.setBindStatus event
        pure { machine with
          dispatch := dispatch
          control := .visiting moment cell.data.bindings
          trace := machine.trace ++
            [.started moment event (Dispatcher.callbacks (machine.dispatch.listed event))] }

/-- The head of the loop `while (NULL != next_moment && !destroy_pending)`. -/
def dispatchNext (machine : Machine Data) : Exec (Machine Data) :=
  if machine.dispatch.destroyPending then do
    let dispatch ← machine.dispatch.lsEventDispatcherDestroy
    pure { machine with dispatch := dispatch, control := .idle }
  else
    match machine.dispatch.nextMoment with
    | none => pure { machine with control := .idle }
    | some moment => machine.start moment

/-- The head of the loop over bindings: the next one, if any, is called when it
was bound before the moment started. -/
def visit (machine : Machine Data) (moment : Nat) : Option Nat → Exec (Machine Data)
  | none => pure { machine with control := .reporting moment }
  | some binding => do
      let cell ← machine.dispatch.bindings.read binding
      if cell.data.normalBound then do
        let evt ← machine.dispatch.moments.read moment
        pure { machine with
          control := .calling moment binding evt.data.handled
          trace := machine.trace ++ [.called moment cell.data.cb cell.data.arg] }
      else pure { machine with control := .visiting moment cell.next }

def report (machine : Machine Data) (moment : Nat) : Exec (Machine Data) := do
  let evt ← machine.dispatch.moments.read moment
  match evt.data.resultCb with
  | none => pure { machine with control := .finishing moment }
  | some resultCb =>
      pure { machine with
        control := .resulting moment
        trace := machine.trace ++ [.reported moment resultCb evt.data.handled] }

def advance (machine : Machine Data) : Exec (Machine Data) :=
  match machine.control with
  | .dispatching => machine.dispatchNext
  | .visiting moment binding => machine.visit moment binding
  | .reporting moment => machine.report moment
  | .finishing moment => do
      let dispatch ← machine.dispatch.finishMoment moment
      pure { machine with
        dispatch := dispatch
        control := .dispatching
        trace := machine.trace ++ [.finished moment] }
  | _ => pure machine

/-- The callback that runs returns.  A callback cannot take back an earlier
`handled`; what a result callback leaves there is not looked at. -/
def resume (machine : Machine Data) (left : Bool) : Exec (Machine Data) :=
  match machine.control with
  | .calling moment binding handled => do
      let moments ← machine.dispatch.moments.modify moment fun cell =>
        { cell with data := { cell.data with handled := handled || left } }
      let cell ← machine.dispatch.bindings.read binding
      pure { machine with
        dispatch := { machine.dispatch with moments := moments }
        control := .visiting moment cell.next
        trace := machine.trace ++ [.returned moment left] }
  | .resulting moment => pure { machine with control := .finishing moment }
  | _ => pure machine

/-- What the caller of each function promises: the event exists, an unbound
callback is bound, a prepared trigger is used once. -/
def Allowed (machine : Machine Data) : EventCall Data → Prop
  | .bind event _ _ _ => machine.dispatch.events.Live event
  | .unbind event cb =>
      machine.dispatch.events.Live event ∧ cb ∈ Dispatcher.callbacks (machine.dispatch.listed event)
  | .prepareTrigger _ => True
  | .unprepareTrigger moment => moment ∈ machine.prepared
  | .trigger event _ _ _ _ => machine.dispatch.events.Live event
  | .triggerPrepared event _ _ _ moment =>
      machine.dispatch.events.Live event ∧ moment ∈ machine.prepared
  | .destroy => True

/-- Callers act outside the dispatch loop only, and never on a freed dispatcher. -/
def system (Data : Type) : System (Machine Data) (EventLabel Data) where
  Enabled machine
    | .internal => ¬ machine.control.Outside
    | .call request =>
        machine.control.Outside ∧ machine.dispatch.freed = false ∧ machine.Allowed request
    | .ret _ => machine.control.Outside ∧ machine.control ≠ .idle
  step machine
    | .internal => machine.advance
    | .call request => machine.perform request
    | .ret left => machine.resume left

/-- A dispatcher just created, with events nobody has bound to yet. -/
structure Initial (machine : Machine Data) : Prop where
  unbound : ∀ event notifier, machine.dispatch.events.cells event = some notifier →
    notifier.bindings = none
  bindings : machine.dispatch.bindings = Memory.empty
  moments : machine.dispatch.moments = Memory.empty
  running : machine.dispatch.running = none
  momentQueueTail : machine.dispatch.momentQueueTail = none
  nextMoment : machine.dispatch.nextMoment = none
  destroyPending : machine.dispatch.destroyPending = false
  freed : machine.dispatch.freed = false
  control : machine.control = .idle
  prepared : machine.prepared = []
  triggered : machine.triggered = []
  trace : machine.trace = []

def queued (machine : Machine Data) : List (Nat × MomentData Data) :=
  Link.walk machine.dispatch.moments machine.dispatch.moments.fresh machine.dispatch.nextMoment

def waiting (machine : Machine Data) : List (Nat × MomentData Data) :=
  match machine.control with
  | .idle | .dispatching => machine.queued
  | _ => machine.queued.tail

/-- The bindings a step removes from their event's list and frees. -/
def removed (machine : Machine Data) : EventLabel Data → List Nat
  | .call (.unbind event cb) =>
      if machine.dispatch.running = some event then []
      else Link.refs ((machine.dispatch.listed event).filter fun cell => cell.2.cb = cb)
  | .internal =>
      match machine.control, machine.dispatch.running with
      | .finishing _, some event =>
          Link.refs ((machine.dispatch.listed event).filter fun cell => cell.2.unbound)
      | _, _ => []
  | _ => []

def SparesWaiting (machine : Machine Data) (label : EventLabel Data) : Prop :=
  ∀ cell ∈ machine.waiting, ∀ binding, cell.2.bindings = some binding →
    binding ∉ machine.removed label

def twoEvents : Machine Unit where
  dispatch :=
    { events := (Memory.empty.alloc ⟨"first", none⟩).alloc ⟨"second", none⟩
      bindings := Memory.empty
      moments := Memory.empty
      running := none
      momentQueueTail := none
      nextMoment := none
      destroyPending := false
      freed := false }
  control := .idle
  prepared := []
  triggered := []
  trace := []

theorem twoEvents_initial : twoEvents.Initial := by
  refine ⟨?_, rfl, rfl, rfl, rfl, rfl, rfl, rfl, rfl, rfl, rfl, rfl⟩
  intro event notifier found
  by_cases second : event = 1
  · subst second
    cases found
    rfl
  · by_cases first : event = 0
    · subst first
      cases found
      rfl
    · simp [twoEvents, Memory.alloc, Memory.empty, first, second] at found

end Machine

end SpudLib
