import SpudLib.Foundation.LinkedList

/-!
# The event dispatcher

The data of `src/ls_eventing_int.h` and the functions of `src/ls_eventing.c`
that edit it.  Bindings and moments live in memory and are reached through
their addresses, as in the source: an event points to its first binding, a
moment keeps the binding that was first when it was triggered.

Function pointers, callback arguments and the dispatcher's clients are numbers;
`Data` is the type behind the `void*` an event is triggered with.  A loop over
a list is bounded by the number of cells ever allocated, which no list exceeds.
-/

namespace SpudLib

/-- `ls_event_binding_t` without its link. -/
structure BindingData where
  cb : Nat
  arg : Nat
  unbound : Bool
  normalBound : Bool
  deriving DecidableEq

/-- `ls_event_notifier_t`. -/
structure Notifier where
  name : String
  bindings : Option Nat
  deriving DecidableEq

/-- `ls_event_moment_t` with the fields of its `evt` that a dispatcher uses.  A
moment that was prepared but not triggered has no event yet. -/
structure MomentData (Data : Type) where
  notifier : Option Nat
  data : Option Data
  handled : Bool
  resultCb : Option Nat
  resultArg : Nat
  bindings : Option Nat
  deriving DecidableEq

/-- `ls_event_dispatch_t`; `freed` is set once the dispatcher itself is. -/
structure Dispatcher (Data : Type) where
  events : Memory Notifier
  bindings : Memory (Link BindingData)
  moments : Memory (Link (MomentData Data))
  running : Option Nat
  momentQueueTail : Option Nat
  nextMoment : Option Nat
  destroyPending : Bool
  freed : Bool

namespace Dispatcher

variable {Data : Type}

def setHead (dispatch : Dispatcher Data) (event : Nat) (head : Option Nat) :
    Exec (Dispatcher Data) := do
  let events ← dispatch.events.modify event fun notifier => { notifier with bindings := head }
  pure { dispatch with events := events }

def modifyBinding (dispatch : Dispatcher Data) (binding : Nat)
    (change : BindingData → BindingData) : Exec (Dispatcher Data) := do
  let bindings ← dispatch.bindings.modify binding fun cell => { cell with data := change cell.data }
  pure { dispatch with bindings := bindings }

def setNext (dispatch : Dispatcher Data) (binding : Nat) (next : Option Nat) :
    Exec (Dispatcher Data) := do
  let bindings ← dispatch.bindings.modify binding fun cell => { cell with next := next }
  pure { dispatch with bindings := bindings }

def freeBinding (dispatch : Dispatcher Data) (binding : Nat) : Exec (Dispatcher Data) := do
  let bindings ← dispatch.bindings.free binding
  pure { dispatch with bindings := bindings }

/-- Redirect what pointed at a binding: its predecessor, or the event for the head. -/
def relink (dispatch : Dispatcher Data) (event : Nat) (prev next : Option Nat) :
    Exec (Dispatcher Data) :=
  match prev with
  | none => dispatch.setHead event next
  | some prev => dispatch.setNext prev next

/-- The loop of `_remove_binding`: the match, if any, is unlinked and returned
with the binding before it, else the last binding is returned. -/
def removeBindingLoop (event cb : Nat) :
    Nat → (curr prev : Option Nat) → Dispatcher Data →
      Exec (Option Nat × Option Nat × Dispatcher Data)
  | _, none, prev, dispatch => pure (none, prev, dispatch)
  | 0, some _, _, _ => .error .diverges
  | bound + 1, some curr, prev, dispatch => do
      let binding ← dispatch.bindings.read curr
      if binding.data.cb = cb then
        let dispatch ← dispatch.relink event prev binding.next
        let dispatch ← dispatch.setNext curr none
        pure (some curr, prev, dispatch)
      else removeBindingLoop event cb bound binding.next (some curr) dispatch

def removeBinding (dispatch : Dispatcher Data) (event cb : Nat) :
    Exec (Option Nat × Option Nat × Dispatcher Data) := do
  let notifier ← dispatch.events.read event
  removeBindingLoop event cb dispatch.bindings.fresh notifier.bindings none dispatch

def processPendingUnbindsLoop (event : Nat) :
    Nat → (cur prev : Option Nat) → Dispatcher Data → Exec (Dispatcher Data)
  | _, none, _, dispatch => pure dispatch
  | 0, some _, _, _ => .error .diverges
  | bound + 1, some cur, prev, dispatch => do
      let binding ← dispatch.bindings.read cur
      if !binding.data.unbound then
        processPendingUnbindsLoop event bound binding.next (some cur) dispatch
      else
        let dispatch ← dispatch.relink event prev binding.next
        let dispatch ← dispatch.freeBinding cur
        processPendingUnbindsLoop event bound binding.next prev dispatch

def processPendingUnbinds (dispatch : Dispatcher Data) (event : Nat) :
    Exec (Dispatcher Data) := do
  let notifier ← dispatch.events.read event
  processPendingUnbindsLoop event dispatch.bindings.fresh notifier.bindings none dispatch

def setBindStatusLoop : Nat → Option Nat → Dispatcher Data → Exec (Dispatcher Data)
  | _, none, dispatch => pure dispatch
  | 0, some _, _ => .error .diverges
  | bound + 1, some cur, dispatch => do
      let dispatch ← dispatch.modifyBinding cur fun data => { data with normalBound := true }
      let binding ← dispatch.bindings.read cur
      setBindStatusLoop bound binding.next dispatch

def setBindStatus (dispatch : Dispatcher Data) (event : Nat) : Exec (Dispatcher Data) := do
  let notifier ← dispatch.events.read event
  setBindStatusLoop dispatch.bindings.fresh notifier.bindings dispatch

/-- The end of `ls_event_bind`: put `binding` back after `prev`, or first. -/
def insertBinding (dispatch : Dispatcher Data) (event binding : Nat) (prev : Option Nat) :
    Exec (Dispatcher Data) := do
  let notifier ← dispatch.events.read event
  match notifier.bindings, prev with
  | none, _ => dispatch.setHead event (some binding)
  | some _, some prev => do
      let before ← dispatch.bindings.read prev
      match before.next with
      | none => dispatch.setNext prev (some binding)
      | some next => do
          let dispatch ← dispatch.setNext binding (some next)
          dispatch.setNext prev (some binding)
  | some head, none => do
      let dispatch ← dispatch.setNext binding (some head)
      dispatch.setHead event (some binding)

/-- `ls_event_bind`; `granted` answers the allocation of a new binding. -/
def lsEventBind (dispatch : Dispatcher Data) (event cb arg : Nat) (granted : Bool) :
    Exec (Bool × Dispatcher Data) := do
  let (found, prev, dispatch) ← dispatch.removeBinding event cb
  match found with
  | none =>
      if !granted then pure (false, dispatch)
      else do
        let binding := dispatch.bindings.fresh
        let cell : Link BindingData := ⟨⟨cb, arg, false, false⟩, none⟩
        let dispatch := { dispatch with bindings := dispatch.bindings.alloc cell }
        let dispatch ← dispatch.insertBinding event binding prev
        pure (true, dispatch)
  | some binding => do
      let cell ← dispatch.bindings.read binding
      let cleared : BindingData := ⟨cb, arg, false, cell.data.normalBound⟩
      let bindings ← dispatch.bindings.modify binding fun _ => ⟨cleared, none⟩
      let dispatch ← { dispatch with bindings := bindings }.insertBinding event binding prev
      pure (true, dispatch)

/-- The search of `ls_event_unbind` in the running event, which expects to find
the callback. -/
def flagUnboundLoop (cb : Nat) : Nat → Nat → Dispatcher Data → Exec (Dispatcher Data)
  | 0, _, _ => .error .diverges
  | bound + 1, cur, dispatch => do
      let binding ← dispatch.bindings.read cur
      if binding.data.cb = cb then
        dispatch.modifyBinding cur fun data => { data with unbound := true }
      else
        match binding.next with
        | none => .error .assertFailed
        | some next => flagUnboundLoop cb bound next dispatch

def lsEventUnbind (dispatch : Dispatcher Data) (event cb : Nat) : Exec (Dispatcher Data) :=
  if dispatch.running ≠ some event then do
    let (found, _, dispatch) ← dispatch.removeBinding event cb
    match found with
    | none => pure dispatch
    | some binding => dispatch.freeBinding binding
  else do
    let notifier ← dispatch.events.read event
    match notifier.bindings with
    | none => .error .nullDereference
    | some head => flagUnboundLoop cb dispatch.bindings.fresh head dispatch

/-- `_prepare_trigger`: one pool holds the moment, zeroed. -/
def prepareTrigger (dispatch : Dispatcher Data) (granted : Bool) :
    Option Nat × Dispatcher Data :=
  if !granted then (none, dispatch)
  else
    (some dispatch.moments.fresh,
      { dispatch with
        moments := dispatch.moments.alloc ⟨⟨none, none, false, none, 0, none⟩, none⟩ })

/-- The part of `_trigger_prepared` that fills in the moment. -/
def fillMoment (dispatch : Dispatcher Data) (event : Nat) (data : Data) (resultCb : Option Nat)
    (resultArg moment : Nat) : Exec (Dispatcher Data) := do
  let notifier ← dispatch.events.read event
  let filled : MomentData Data :=
    ⟨some event, some data, false, resultCb, resultArg, notifier.bindings⟩
  let moments ← dispatch.moments.modify moment fun cell => { cell with data := filled }
  pure { dispatch with moments := moments }

/-- The part of `_dispatch_trigger` that enqueues the moment. -/
def enqueue (dispatch : Dispatcher Data) (moment : Nat) : Exec (Dispatcher Data) := do
  let moments ← match dispatch.momentQueueTail with
    | none => pure dispatch.moments
    | some tail => dispatch.moments.modify tail fun cell => { cell with next := some moment }
  pure { dispatch with
    moments := moments
    nextMoment := some (dispatch.nextMoment.getD moment)
    momentQueueTail := some moment }

/-- The end of `_handle_trigger_int`: pending unbinds are swept, the moment
leaves the queue and is destroyed. -/
def finishMoment (dispatch : Dispatcher Data) (moment : Nat) : Exec (Dispatcher Data) := do
  let cell ← dispatch.moments.read moment
  match cell.data.notifier with
  | none => .error .nullDereference
  | some event => do
      let dispatch ← dispatch.processPendingUnbinds event
      let moments ← dispatch.moments.free moment
      pure { dispatch with
        moments := moments
        nextMoment := cell.next
        momentQueueTail := if cell.next.isNone then none else dispatch.momentQueueTail
        running := none }

/-- The loop of `ls_event_dispatcher_destroy` over the moments still queued. -/
def destroyMoments : Nat → Option Nat → Dispatcher Data → Exec (Dispatcher Data)
  | _, none, dispatch => pure dispatch
  | 0, some _, _ => .error .diverges
  | bound + 1, some moment, dispatch => do
      let cell ← dispatch.moments.read moment
      let moments ← dispatch.moments.free moment
      destroyMoments bound cell.next { dispatch with moments := moments }

def cleanBindings : Nat → Option Nat → Dispatcher Data → Exec (Dispatcher Data)
  | _, none, dispatch => pure dispatch
  | 0, some _, _ => .error .diverges
  | bound + 1, some curr, dispatch => do
      let binding ← dispatch.bindings.read curr
      let dispatch ← dispatch.freeBinding curr
      cleanBindings bound binding.next dispatch

def cleanEvent (event : Nat) (dispatch : Dispatcher Data) : Exec (Dispatcher Data) := do
  let notifier ← dispatch.events.read event
  let dispatch ← cleanBindings dispatch.bindings.fresh notifier.bindings dispatch
  let events ← dispatch.events.free event
  pure { dispatch with events := events }

/-- `ls_event_dispatcher_destroy`; the event table cleans every event it holds. -/
def lsEventDispatcherDestroy (dispatch : Dispatcher Data) : Exec (Dispatcher Data) :=
  if dispatch.running.isSome then pure { dispatch with destroyPending := true }
  else do
    let dispatch ← destroyMoments dispatch.moments.fresh dispatch.nextMoment dispatch
    let events := (List.range dispatch.events.fresh).filter
      fun event => (dispatch.events.cells event).isSome
    let dispatch ← events.foldlM (fun dispatch event => cleanEvent event dispatch) dispatch
    pure { dispatch with freed := true }

end Dispatcher

end SpudLib
