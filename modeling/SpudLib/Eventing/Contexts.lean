import SpudLib.Eventing.Dispatcher
import SpudLib.Eventing.EventNames
import SpudLib.Foundation.Procedure
import SpudLib.Logging.Ndc

/-!
# Diagnostic contexts around the dispatcher

The public functions of `src/ls_eventing.c` with `PUSH_EVENTING_NDC` and
`POP_EVENTING_NDC` where the source has them: every function pushes a context
that names it and pops it again before each of its returns.  Callbacks are
handed control and may do anything, to any dispatcher and to the contexts; of
a call that returns it is shown that the contexts are those of before, if the
callbacks it ran left theirs so.
-/

namespace SpudLib

/-- What a dispatcher calls: the callback of a binding, or the result callback of a trigger. -/
inductive EventCallback where
  | notify (dispatch moment cb arg : Nat)
  | result (dispatch moment resultCb resultArg : Nat) (handled : Bool)

/-- `ls_event_dispatch_t`: its events by name, and their bindings and moments. -/
structure EventHub (Data : Type) where
  catalog : EventCatalog
  dispatch : Dispatcher Data

structure EventWorld (Data : Type) where
  hubs : Memory (EventHub Data)
  ndc : Ndc
  answers : List Bool

abbrev Eventing (Data Alpha : Type) : Type := Proc EventCallback (EventWorld Data) Alpha

namespace Eventing

variable {Data Alpha Beta : Type}

def ask : Eventing Data Bool :=
  .lift fun world => pure (world.answers.headD false, { world with answers := world.answers.tail })

def onHub (ref : Nat) (change : EventHub Data → Exec (Alpha × EventHub Data)) :
    Eventing Data Alpha :=
  .lift fun world => do
    let hub ← world.hubs.read ref
    let changed ← change hub
    pure (changed.1, { world with hubs := world.hubs.set ref changed.2 })

def onDispatch (ref : Nat) (change : Dispatcher Data → Exec (Alpha × Dispatcher Data)) :
    Eventing Data Alpha :=
  onHub ref fun hub => do
    let changed ← change hub.dispatch
    pure (changed.1, { hub with dispatch := changed.2 })

def edit (ref : Nat) (change : Dispatcher Data → Exec (Dispatcher Data)) : Eventing Data Unit :=
  onDispatch ref fun dispatch => do
    let dispatch ← change dispatch
    pure ((), dispatch)

def readDispatch (ref : Nat) : Eventing Data (Dispatcher Data) :=
  onDispatch ref fun dispatch => pure (dispatch, dispatch)

def readMoment (ref moment : Nat) : Eventing Data (Link (MomentData Data)) :=
  onDispatch ref fun dispatch => do
    let cell ← dispatch.moments.read moment
    pure (cell, dispatch)

def readBinding (ref binding : Nat) : Eventing Data (Link BindingData) :=
  onDispatch ref fun dispatch => do
    let cell ← dispatch.bindings.read binding
    pure (cell, dispatch)

/-- `ls_data_calloc` of a dispatcher, with the fields that are assigned once the context is
pushed. -/
def allocHub (hub : EventHub Data) : Eventing Data Nat :=
  .lift fun world => pure (world.hubs.fresh, { world with hubs := world.hubs.alloc hub })

def freeHub (ref : Nat) : Eventing Data Unit :=
  .lift fun world => do
    let hubs ← world.hubs.free ref
    pure ((), { world with hubs := hubs })

def pushEventingNdc (dispatch : Option Nat) (entrypoint : String) : Eventing Data Int := do
  let measured ← ask
  let node ← ask
  let message ← ask
  let printed ← ask
  .lift fun world => do
    let address := (dispatch.map toString).getD "(nil)"
    let pushed ← world.ndc.lsLogPushNdc
      ("eventing dispatcher=" ++ address ++ "; entrypoint=" ++ entrypoint)
      ⟨measured, node, message, printed⟩
    pure (pushed.1, { world with ndc := pushed.2 })

def popEventingNdc (ndcDepth : Int) : Eventing Data Unit :=
  if ndcDepth > 0 then
    .lift fun world => do
      let ndc ← world.ndc.lsLogPopNdc ndcDepth
      pure ((), { world with ndc := ndc })
  else pure ()

def emptyHub (source : Nat) (events : HTable AsciiString Nat) : EventHub Data :=
  ⟨⟨source, events, .empty⟩, ⟨.empty, .empty, .empty, none, none, none, false, false⟩⟩

def lsEventDispatcherCreate (source : Nat) : Eventing Data (Option Nat) := do
  let table ← ask
  let buckets ← ask
  match HTable.lsHtableCreate EventCatalog.dispatchBuckets lsStrcaseHashcode lsStrcaseCompare
      table fun _ => buckets with
  | none => pure none
  | some events =>
      let granted ← ask
      if !granted then pure none
      else
        let dispatch ← allocHub (emptyHub source events)
        let ndcDepth ← pushEventingNdc (some dispatch) "ls_event_dispatcher_create"
        if ndcDepth = 0 then
          freeHub dispatch
          pure none
        else
          popEventingNdc ndcDepth
          pure (some dispatch)

def lsEventDispatcherDestroy (ref : Nat) : Eventing Data Unit := do
  let ndcDepth ← pushEventingNdc (some ref) "ls_event_dispatcher_destroy"
  let dispatch ← readDispatch ref
  if dispatch.running.isSome then
    edit ref fun dispatch => pure { dispatch with destroyPending := true }
    popEventingNdc ndcDepth
  else
    edit ref fun dispatch =>
      Dispatcher.destroyMoments dispatch.moments.fresh dispatch.nextMoment dispatch
    edit ref fun dispatch =>
      ((List.range dispatch.events.fresh).filter fun event =>
        (dispatch.events.cells event).isSome).foldlM
          (fun dispatch event => dispatch.cleanEvent event) dispatch
    freeHub ref
    popEventingNdc ndcDepth

def lsEventDispatcherGetEvent (ref : Nat) (name : AsciiString) : Eventing Data (Option Nat) := do
  let ndcDepth ← pushEventingNdc (some ref) "ls_event_dispatcher_get_event"
  let evt ← onHub ref fun hub => do
    let evt ← hub.catalog.lsEventDispatcherGetEvent name
    pure (evt, hub)
  popEventingNdc ndcDepth
  pure evt

/-- `ls_event_dispatcher_create_event` up to its label, to which all its branches lead.  The
bindings of the new event are at its address. -/
def createEvent (name : AsciiString) (answers : CreateAnswers) (hub : EventHub Data) :
    Exec (Except EventError Nat × EventHub Data) := do
  let answer ← hub.catalog.lsEventDispatcherCreateEvent name answers
  let text := String.ofList (name.val.map fun character => Char.ofNat character.toNat)
  let notifier := hub.dispatch.events.fresh
  let allocated := hub.dispatch.events.alloc ⟨text, none⟩
  let events :=
    if answer.2.notifiers.fresh = hub.catalog.notifiers.fresh then hub.dispatch.events
    else if answer.1.toOption.isSome then allocated
    else allocated.erase notifier
  pure (answer.1, ⟨answer.2, { hub.dispatch with events := events }⟩)

def lsEventDispatcherCreateEvent (ref : Nat) (name : AsciiString) :
    Eventing Data (Except EventError Nat) := do
  let ndcDepth ← pushEventingNdc (some ref) "ls_event_dispatcher_create_event"
  let evtName ← ask
  let notifier ← ask
  let buckets ← ask
  let node ← ask
  let retval ← onHub ref (createEvent name ⟨evtName, notifier, fun _ => buckets, node⟩)
  popEventingNdc ndcDepth
  pure retval

def lsEventBind (ref event cb arg : Nat) : Eventing Data Bool := do
  let ndcDepth ← pushEventingNdc (some ref) "ls_event_bind"
  let (found, prev) ← onDispatch ref fun dispatch => do
    let (found, prev, dispatch) ← dispatch.removeBinding event cb
    pure ((found, prev), dispatch)
  match found with
  | none =>
      let granted ← ask
      if !granted then
        popEventingNdc ndcDepth
        pure false
      else
        let binding ← onDispatch ref fun dispatch =>
          pure (dispatch.bindings.fresh,
            { dispatch with bindings := dispatch.bindings.alloc ⟨⟨cb, arg, false, false⟩, none⟩ })
        edit ref fun dispatch => dispatch.insertBinding event binding prev
        popEventingNdc ndcDepth
        pure true
  | some binding =>
      edit ref fun dispatch => do
        let cell ← dispatch.bindings.read binding
        let bindings ← dispatch.bindings.modify binding fun _ =>
          ⟨⟨cb, arg, false, cell.data.normalBound⟩, none⟩
        pure { dispatch with bindings := bindings }
      edit ref fun dispatch => dispatch.insertBinding event binding prev
      popEventingNdc ndcDepth
      pure true

def lsEventUnbind (ref event cb : Nat) : Eventing Data Unit := do
  let ndcDepth ← pushEventingNdc (some ref) "ls_event_unbind"
  edit ref fun dispatch => dispatch.lsEventUnbind event cb
  popEventingNdc ndcDepth

/-- `_prepare_trigger`: a pool, the moment in it and the trigger data. -/
def prepareTrigger (ref : Nat) : Eventing Data (Option Nat) := do
  let pool ← ask
  let moment ← ask
  let triggerData ← ask
  onDispatch ref fun dispatch => pure (dispatch.prepareTrigger (pool && moment && triggerData))

def lsEventPrepareTrigger (ref : Nat) : Eventing Data (Option Nat) := do
  let ndcDepth ← pushEventingNdc (some ref) "ls_event_prepare_trigger"
  let ret ← prepareTrigger ref
  popEventingNdc ndcDepth
  pure ret

/-- `ls_event_unprepare_trigger`; a moment that was not triggered names no dispatcher. -/
def lsEventUnprepareTrigger (ref moment : Nat) : Eventing Data Unit := do
  let cell ← readMoment ref moment
  let dispatch := cell.data.notifier.map fun _ => ref
  let ndcDepth ← pushEventingNdc dispatch "ls_event_unprepare_trigger"
  edit ref fun dispatch => do
    let moments ← dispatch.moments.free moment
    pure { dispatch with moments := moments }
  popEventingNdc ndcDepth

/-- The loop of `_handle_trigger_int` over the bindings of the moment. -/
def processCallbacks (ref moment : Nat) : Nat → Option Nat → Eventing Data Unit
  | _, none => pure ()
  | 0, some _ => .fail .diverges
  | bound + 1, some binding => do
      let cell ← readBinding ref binding
      if cell.data.normalBound then
        let evt ← readMoment ref moment
        .callBack (.notify ref moment cell.data.cb cell.data.arg)
        -- a callback cannot take back an earlier `handled`
        edit ref fun dispatch => do
          let moments ← dispatch.moments.modify moment fun now =>
            { now with data := { now.data with handled := evt.data.handled || now.data.handled } }
          pure { dispatch with moments := moments }
      else pure ()
      let cell ← readBinding ref binding
      processCallbacks ref moment bound cell.next

def handleTriggerInt (ref bound : Nat) : Eventing Data Unit := do
  let dispatch ← readDispatch ref
  match dispatch.nextMoment with
  | none => .fail .assertFailed
  | some moment =>
      let cell ← readMoment ref moment
      match cell.data.notifier with
      | none => .fail .nullDereference
      | some event =>
          if dispatch.running.isSome then .fail .assertFailed
          else
            edit ref fun dispatch => { dispatch with running := some event }.setBindStatus event
            processCallbacks ref moment bound cell.data.bindings
            let evt ← readMoment ref moment
            match evt.data.resultCb with
            | none => pure ()
            | some resultCb =>
                .callBack (.result ref moment resultCb evt.data.resultArg evt.data.handled)
            edit ref fun dispatch => dispatch.finishMoment moment

/-- The loop of `_dispatch_trigger`. -/
def dispatchLoop (ref : Nat) : Nat → Eventing Data Unit
  | 0 => .fail .diverges
  | bound + 1 => do
      let dispatch ← readDispatch ref
      if dispatch.nextMoment.isSome && !dispatch.destroyPending then
        handleTriggerInt ref bound
        dispatchLoop ref bound
      else pure ()

def dispatchTrigger (ref moment bound : Nat) : Eventing Data Unit := do
  edit ref fun dispatch => dispatch.enqueue moment
  let dispatch ← readDispatch ref
  if dispatch.running.isSome then pure ()
  else
    dispatchLoop ref bound
    let dispatch ← readDispatch ref
    if dispatch.destroyPending then lsEventDispatcherDestroy ref else pure ()

def triggerPrepared (ref event : Nat) (data : Data) (resultCb : Option Nat)
    (resultArg moment bound : Nat) : Eventing Data Unit := do
  edit ref fun dispatch => dispatch.fillMoment event data resultCb resultArg moment
  dispatchTrigger ref moment bound

def lsEventTriggerPrepared (ref event : Nat) (data : Data) (resultCb : Option Nat)
    (resultArg moment bound : Nat) : Eventing Data Unit := do
  let ndcDepth ← pushEventingNdc (some ref) "ls_event_trigger_prepared"
  triggerPrepared ref event data resultCb resultArg moment bound
  popEventingNdc ndcDepth

def lsEventTrigger (ref event : Nat) (data : Data) (resultCb : Option Nat)
    (resultArg bound : Nat) : Eventing Data Bool := do
  let ndcDepth ← pushEventingNdc (some ref) "ls_event_trigger"
  let prepared ← prepareTrigger ref
  match prepared with
  | none =>
      popEventingNdc ndcDepth
      pure false
  | some moment =>
      triggerPrepared ref event data resultCb resultArg moment bound
      popEventingNdc ndcDepth
      pure true

def At (stack : List NdcNode) (world : EventWorld Data) : Prop :=
  world.ndc.Counted ∧ world.ndc.head = stack

def Restored (before after : EventWorld Data) : Prop :=
  before.ndc.Counted → after.ndc.Counted ∧ after.ndc.head = before.ndc.head

def Rely (_ : EventCallback) (before after : EventWorld Data) : Prop := Restored before after

/-- The procedure leaves the contexts as they were, provided the callbacks do. -/
def Restores (procedure : Eventing Data Alpha) : Prop :=
  ∀ stack, Proc.Triple Rely (At stack) procedure fun _ => At stack

section Rules

variable {procedure : Eventing Data Alpha} {next : Alpha → Eventing Data Beta}
  {stack top : List NdcNode} {ndcDepth : Int} {Post : Beta → EventWorld Data → Prop}

theorem restores_pure (value : Alpha) : (pure value : Eventing Data Alpha).Restores :=
  fun _ => Proc.Triple.pure fun _ stays => stays

theorem Restores.bind (first : procedure.Restores) (second : ∀ value, (next value).Restores) :
    (procedure >>= next).Restores :=
  fun stack => (first stack).bind fun value => second value stack

theorem restores_fail (reason : Fault) : Restores (Proc.fail reason : Eventing Data Alpha) :=
  fun _ => Proc.Triple.fail reason

theorem restores_callBack (call : EventCallback) :
    Restores (Proc.callBack call : Eventing Data Unit) := by
  intro stack
  refine Proc.Triple.callBack ?_
  rintro state after ⟨counted, rfl⟩ restored
  exact restored counted

theorem restores_lift {computation : EventWorld Data → Exec (Alpha × EventWorld Data)}
    (same : ∀ world value after, computation world = .ok (value, after) → after.ndc = world.ndc) :
    Restores (Proc.lift computation : Eventing Data Alpha) := by
  intro stack
  refine Proc.Triple.lift ?_
  rintro world value after ⟨counted, rfl⟩ returned
  rw [At, same world value after returned]
  exact ⟨counted, rfl⟩

theorem restores_ask : (ask : Eventing Data Bool).Restores :=
  restores_lift fun world value after returned => by cases returned; rfl

theorem restores_onHub (ref : Nat) (change : EventHub Data → Exec (Alpha × EventHub Data)) :
    (onHub ref change).Restores := by
  refine restores_lift ?_
  intro world value after returned
  obtain ⟨hub, _, returned⟩ := Exec.bind_eq_ok.mp returned
  obtain ⟨changed, _, returned⟩ := Exec.bind_eq_ok.mp returned
  cases returned
  rfl

theorem restores_onDispatch (ref : Nat)
    (change : Dispatcher Data → Exec (Alpha × Dispatcher Data)) :
    (onDispatch ref change).Restores := restores_onHub ref _

theorem restores_edit (ref : Nat) (change : Dispatcher Data → Exec (Dispatcher Data)) :
    (edit ref change).Restores := restores_onDispatch ref _

theorem restores_readDispatch (ref : Nat) : (readDispatch ref : Eventing Data _).Restores :=
  restores_onDispatch ref _

theorem restores_readMoment (ref moment : Nat) :
    (readMoment ref moment : Eventing Data _).Restores := restores_onDispatch ref _

theorem restores_readBinding (ref binding : Nat) :
    (readBinding ref binding : Eventing Data _).Restores := restores_onDispatch ref _

theorem restores_allocHub (hub : EventHub Data) : (allocHub hub).Restores :=
  restores_lift fun world value after returned => by cases returned; rfl

theorem restores_freeHub (ref : Nat) : (freeHub ref : Eventing Data Unit).Restores := by
  refine restores_lift ?_
  intro world value after returned
  obtain ⟨hubs, _, returned⟩ := Exec.bind_eq_ok.mp returned
  cases returned
  rfl

theorem step (first : procedure.Restores)
    (rest : ∀ value, Proc.Triple Rely (At top) (next value) Post) :
    Proc.Triple Rely (At top) (procedure >>= next) Post :=
  (first top).bind rest

/-- After `PUSH_EVENTING_NDC` a context stands on those of before, or none was pushed. -/
theorem enter {dispatch : Option Nat} {entrypoint : String} {next : Int → Eventing Data Beta}
    (rest : ∀ ndcDepth top, Ndc.Above stack ndcDepth top →
      Proc.Triple Rely (At top) (next ndcDepth) Post) :
    Proc.Triple Rely (At stack) (pushEventingNdc dispatch entrypoint >>= next) Post := by
  have pushes : Proc.Triple Rely (At stack)
      (pushEventingNdc dispatch entrypoint : Eventing Data Int)
      fun ndcDepth world => ∃ top, Ndc.Above stack ndcDepth top ∧ At top world := by
    refine step restores_ask fun _ => step restores_ask fun _ => step restores_ask fun _ =>
      step restores_ask fun _ => Proc.Triple.lift ?_
    rintro world ndcDepth after ⟨counted, rfl⟩ returned
    obtain ⟨⟨depth, ndc⟩, pushed, returned⟩ := Exec.bind_eq_ok.mp returned
    cases returned
    obtain ⟨countedAfter, above⟩ := Ndc.lsLogPushNdc_ok counted pushed
    exact ⟨_, above, countedAfter, rfl⟩
  refine pushes.bind ?_
  rintro ndcDepth state ⟨top, above, stacked⟩
  exact rest ndcDepth top above state stacked

theorem leave (above : Ndc.Above stack ndcDepth top) :
    Proc.Triple Rely (At top) (popEventingNdc ndcDepth : Eventing Data Unit)
      fun _ => At stack := by
  unfold popEventingNdc
  split
  · refine Proc.Triple.lift ?_
    rintro world _ after ⟨counted, same⟩ returned
    obtain ⟨ndc, popped, returned⟩ := Exec.bind_eq_ok.mp returned
    cases returned
    exact above.pop counted same popped
  next unpushed =>
    refine Proc.Triple.pure ?_
    rcases above with ⟨_, rfl⟩ | ⟨deep, _⟩
    · exact fun _ stays => stays
    · omega

theorem leave_with (above : Ndc.Above stack ndcDepth top) (value : Alpha) :
    Proc.Triple Rely (At top)
      (popEventingNdc ndcDepth >>= fun _ => pure value : Eventing Data Alpha) fun _ => At stack :=
  (leave above).bind fun _ => restores_pure value stack

end Rules

section Functions

theorem lsEventDispatcherCreate_restores (source : Nat) :
    (lsEventDispatcherCreate source : Eventing Data _).Restores := by
  refine restores_ask.bind fun table => restores_ask.bind fun buckets => ?_
  split
  · exact restores_pure none
  · refine restores_ask.bind fun granted => ?_
    split
    · exact restores_pure none
    · refine (restores_allocHub _).bind fun dispatch stack => enter fun ndcDepth top above => ?_
      split
      next refused =>
        -- nothing was pushed, so that nothing has to be popped
        rcases above with ⟨_, rfl⟩ | ⟨deep, _⟩
        · exact step (restores_freeHub dispatch) fun _ => restores_pure none top
        · omega
      next => exact leave_with above _

theorem lsEventDispatcherDestroy_restores (ref : Nat) :
    (lsEventDispatcherDestroy ref : Eventing Data Unit).Restores := by
  intro stack
  refine enter fun ndcDepth top above => step (restores_readDispatch ref) fun dispatch => ?_
  split
  · exact step (restores_edit ref _) fun _ => leave above
  · exact step (restores_edit ref _) fun _ => step (restores_edit ref _) fun _ =>
      step (restores_freeHub ref) fun _ => leave above

theorem lsEventDispatcherGetEvent_restores (ref : Nat) (name : AsciiString) :
    (lsEventDispatcherGetEvent ref name : Eventing Data _).Restores := by
  intro stack
  exact enter fun ndcDepth top above =>
    step (restores_onHub ref _) fun evt => leave_with above evt

theorem lsEventDispatcherCreateEvent_restores (ref : Nat) (name : AsciiString) :
    (lsEventDispatcherCreateEvent ref name : Eventing Data _).Restores := by
  intro stack
  refine enter fun ndcDepth top above => ?_
  refine step restores_ask fun _ => step restores_ask fun _ => step restores_ask fun _ =>
    step restores_ask fun _ => ?_
  exact step (restores_onHub ref _) fun retval => leave_with above retval

theorem lsEventBind_restores (ref event cb arg : Nat) :
    (lsEventBind ref event cb arg : Eventing Data Bool).Restores := by
  intro stack
  refine enter fun ndcDepth top above => step (restores_onDispatch ref _) fun found => ?_
  obtain ⟨found, prev⟩ := found
  cases found with
  | none =>
    refine step restores_ask fun granted => ?_
    split
    · exact leave_with above false
    · exact step (restores_onDispatch ref _) fun binding =>
        step (restores_edit ref _) fun _ => leave_with above true
  | some binding =>
    exact step (restores_edit ref _) fun _ => step (restores_edit ref _) fun _ =>
      leave_with above true

theorem lsEventUnbind_restores (ref event cb : Nat) :
    (lsEventUnbind ref event cb : Eventing Data Unit).Restores := by
  intro stack
  exact enter fun ndcDepth top above => step (restores_edit ref _) fun _ => leave above

theorem prepareTrigger_restores (ref : Nat) : (prepareTrigger ref : Eventing Data _).Restores :=
  restores_ask.bind fun _ => restores_ask.bind fun _ => restores_ask.bind fun _ =>
    restores_onDispatch ref _

theorem lsEventPrepareTrigger_restores (ref : Nat) :
    (lsEventPrepareTrigger ref : Eventing Data _).Restores := by
  intro stack
  exact enter fun ndcDepth top above =>
    step (prepareTrigger_restores ref) fun ret => leave_with above ret

theorem lsEventUnprepareTrigger_restores (ref moment : Nat) :
    (lsEventUnprepareTrigger ref moment : Eventing Data Unit).Restores := by
  intro stack
  exact step (restores_readMoment ref moment) fun cell => enter fun ndcDepth top above =>
    step (restores_edit ref _) fun _ => leave above

/-- Between two callbacks the contexts are those the loop was entered with. -/
theorem processCallbacks_restores (ref moment bound : Nat) (binding : Option Nat) :
    (processCallbacks ref moment bound binding : Eventing Data Unit).Restores := by
  induction bound generalizing binding with
  | zero =>
    cases binding with
    | none => exact restores_pure ()
    | some binding => exact restores_fail _
  | succ bound inductionHypothesis =>
    cases binding with
    | none => exact restores_pure ()
    | some binding =>
      refine (restores_readBinding ref binding).bind fun cell => ?_
      have rest : ∀ _ : Unit, Restores (readBinding ref binding >>= fun cell =>
          processCallbacks ref moment bound cell.next : Eventing Data Unit) := fun _ =>
        (restores_readBinding ref binding).bind fun cell => inductionHypothesis cell.next
      dsimp only
      split
      · exact (restores_readMoment ref moment).bind fun evt => (restores_callBack _).bind fun _ =>
          (restores_edit ref _).bind rest
      · exact (restores_pure ()).bind rest

theorem handleTriggerInt_restores (ref bound : Nat) :
    (handleTriggerInt ref bound : Eventing Data Unit).Restores := by
  refine (restores_readDispatch ref).bind fun dispatch => ?_
  split
  · exact restores_fail _
  next moment _ =>
    refine (restores_readMoment ref moment).bind fun cell => ?_
    split
    · exact restores_fail _
    · split
      · exact restores_fail _
      · refine (restores_edit ref _).bind fun _ =>
          (processCallbacks_restores ref moment bound _).bind fun _ =>
            (restores_readMoment ref moment).bind fun evt => ?_
        dsimp only
        split
        · exact restores_edit ref _
        · exact (restores_callBack _).bind fun _ => restores_edit ref _

theorem dispatchLoop_restores (ref bound : Nat) :
    (dispatchLoop ref bound : Eventing Data Unit).Restores := by
  induction bound with
  | zero => exact restores_fail _
  | succ bound inductionHypothesis =>
    refine (restores_readDispatch ref).bind fun dispatch => ?_
    split
    · exact (handleTriggerInt_restores ref bound).bind fun _ => inductionHypothesis
    · exact restores_pure ()

theorem dispatchTrigger_restores (ref moment bound : Nat) :
    (dispatchTrigger ref moment bound : Eventing Data Unit).Restores := by
  refine (restores_edit ref _).bind fun _ => (restores_readDispatch ref).bind fun dispatch => ?_
  split
  · exact restores_pure ()
  · refine (dispatchLoop_restores ref bound).bind fun _ =>
      (restores_readDispatch ref).bind fun dispatch => ?_
    split
    · exact lsEventDispatcherDestroy_restores ref
    · exact restores_pure ()

theorem triggerPrepared_restores (ref event : Nat) (data : Data) (resultCb : Option Nat)
    (resultArg moment bound : Nat) :
    (triggerPrepared ref event data resultCb resultArg moment bound).Restores :=
  (restores_edit ref _).bind fun _ => dispatchTrigger_restores ref moment bound

theorem lsEventTriggerPrepared_restores (ref event : Nat) (data : Data) (resultCb : Option Nat)
    (resultArg moment bound : Nat) :
    (lsEventTriggerPrepared ref event data resultCb resultArg moment bound).Restores := by
  intro stack
  exact enter fun ndcDepth top above =>
    step (triggerPrepared_restores ref event data resultCb resultArg moment bound) fun _ =>
      leave above

theorem lsEventTrigger_restores (ref event : Nat) (data : Data) (resultCb : Option Nat)
    (resultArg bound : Nat) :
    (lsEventTrigger ref event data resultCb resultArg bound).Restores := by
  intro stack
  refine enter fun ndcDepth top above => step (prepareTrigger_restores ref) fun prepared => ?_
  cases prepared with
  | none => exact leave_with above false
  | some moment =>
    exact step (triggerPrepared_restores ref event data resultCb resultArg moment bound) fun _ =>
      leave_with above true

end Functions

end Eventing

inductive EventingCall (Data : Type) where
  | create (source : Nat)
  | destroy (ref : Nat)
  | createEvent (ref : Nat) (name : AsciiString)
  | getEvent (ref : Nat) (name : AsciiString)
  | bind (ref event cb arg : Nat)
  | unbind (ref event cb : Nat)
  | prepareTrigger (ref : Nat)
  | unprepareTrigger (ref moment : Nat)
  | trigger (ref event : Nat) (data : Data) (resultCb : Option Nat) (resultArg : Nat)
  | triggerPrepared (ref event : Nat) (data : Data) (resultCb : Option Nat)
      (resultArg moment : Nat)

namespace EventingCall

open Eventing

variable {Data : Type}

/-- The call; the bound counts the turns of the loops over moments and bindings. -/
def perform (bound : Nat) : EventingCall Data → Eventing Data Unit
  | .create source => do
      let _ ← lsEventDispatcherCreate source
      pure ()
  | .destroy ref => lsEventDispatcherDestroy ref
  | .createEvent ref name => do
      let _ ← lsEventDispatcherCreateEvent ref name
      pure ()
  | .getEvent ref name => do
      let _ ← lsEventDispatcherGetEvent ref name
      pure ()
  | .bind ref event cb arg => do
      let _ ← lsEventBind ref event cb arg
      pure ()
  | .unbind ref event cb => lsEventUnbind ref event cb
  | .prepareTrigger ref => do
      let _ ← lsEventPrepareTrigger ref
      pure ()
  | .unprepareTrigger ref moment => lsEventUnprepareTrigger ref moment
  | .trigger ref event data resultCb resultArg => do
      let _ ← lsEventTrigger ref event data resultCb resultArg bound
      pure ()
  | .triggerPrepared ref event data resultCb resultArg moment =>
      lsEventTriggerPrepared ref event data resultCb resultArg moment bound

theorem perform_restores (bound : Nat) (call : EventingCall Data) :
    (call.perform bound).Restores := by
  cases call with
  | create source => exact (lsEventDispatcherCreate_restores source).bind fun _ => restores_pure ()
  | destroy ref => exact lsEventDispatcherDestroy_restores ref
  | createEvent ref name =>
    exact (lsEventDispatcherCreateEvent_restores ref name).bind fun _ => restores_pure ()
  | getEvent ref name =>
    exact (lsEventDispatcherGetEvent_restores ref name).bind fun _ => restores_pure ()
  | bind ref event cb arg =>
    exact (lsEventBind_restores ref event cb arg).bind fun _ => restores_pure ()
  | unbind ref event cb => exact lsEventUnbind_restores ref event cb
  | prepareTrigger ref =>
    exact (lsEventPrepareTrigger_restores ref).bind fun _ => restores_pure ()
  | unprepareTrigger ref moment => exact lsEventUnprepareTrigger_restores ref moment
  | trigger ref event data resultCb resultArg =>
    exact (lsEventTrigger_restores ref event data resultCb resultArg bound).bind fun _ =>
      restores_pure ()
  | triggerPrepared ref event data resultCb resultArg moment =>
    exact lsEventTriggerPrepared_restores ref event data resultCb resultArg moment bound

/-- What code can do that is made of public calls, whose callbacks are such code again, of pushes
and the pops of what they return, and of anything that does not touch the contexts. -/
inductive Composed : EventWorld Data → EventWorld Data → Prop where
  | aside {before after} : after.ndc = before.ndc → Composed before after
  | follow {before middle after} : Composed before middle → Composed middle after →
      Composed before after
  | pushPop {before inside : EventWorld Data} {message answers ndcDepth pushed popped} :
      before.ndc.lsLogPushNdc message answers = .ok (ndcDepth, pushed) →
      Composed { before with ndc := pushed } inside →
      inside.ndc.lsLogPopNdc ndcDepth = .ok popped →
      Composed before { inside with ndc := popped }
  | call {request bound exchanges before after} :
      ((perform bound request).run before).Returns exchanges () after →
      (∀ exchange ∈ exchanges, Composed exchange.before exchange.after) →
      Composed before after

variable {before after : EventWorld Data}

theorem returned_restored {call : EventingCall Data} {bound : Nat}
    {exchanges : List (Outcome.Exchange EventCallback (EventWorld Data))}
    (returned : ((call.perform bound).run before).Returns exchanges () after)
    (restored : ∀ exchange ∈ exchanges, Restored exchange.before exchange.after) :
    Restored before after := fun counted =>
  (perform_restores bound call before.ndc.head before ⟨counted, rfl⟩).returned returned restored

/-- However deep the calls nest. -/
theorem Composed.restored (composed : Composed before after) : Restored before after := by
  induction composed with
  | aside same =>
    intro counted
    rw [same]
    exact ⟨counted, rfl⟩
  | follow _ _ first second =>
    intro counted
    obtain ⟨countedMiddle, same⟩ := first counted
    obtain ⟨countedAfter, sameAfter⟩ := second countedMiddle
    exact ⟨countedAfter, sameAfter.trans same⟩
  | pushPop pushed _ popped inductionHypothesis =>
    intro counted
    obtain ⟨countedPushed, above⟩ := Ndc.lsLogPushNdc_ok counted pushed
    obtain ⟨countedInside, same⟩ := inductionHypothesis countedPushed
    exact above.pop countedInside same popped
  | call returned _ inductionHypothesis => exact returned_restored returned inductionHypothesis

/-- The contexts are counted right, popping what a push returned restores those of before it, and
every public call that returns leaves them as they were. -/
theorem contexts_restored (Data : Type) :
    (∀ (start last : NdcSession) (requests : List NdcRequest), start.ndc.Counted →
      NdcSession.system.Run start requests last → last.ndc.depth = last.ndc.head.length) ∧
    (∀ (before pushed : Ndc) (message : String) (answers : PushAnswers) (ndcDepth : Int)
      (requests : List NdcRequest) (last : NdcSession), before.Counted →
      before.lsLogPushNdc message answers = .ok (ndcDepth, pushed) → 0 < ndcDepth →
      (NdcSession.system.restrict NdcSession.Matching).Run ⟨pushed, []⟩ requests last →
      last.ndc.lsLogPopNdc ndcDepth =
        .ok { last.ndc with head := before.head, depth := before.depth }) ∧
    (∀ (call : EventingCall Data) (bound : Nat) (before after : EventWorld Data)
      (exchanges : List (Outcome.Exchange EventCallback (EventWorld Data))),
      ((call.perform bound).run before).Returns exchanges () after →
      (∀ exchange ∈ exchanges, Restored exchange.before exchange.after) →
      Restored before after) ∧
    ∀ before after : EventWorld Data, Composed before after → Restored before after :=
  ⟨fun _ _ _ counted run => NdcSession.run_counted counted run,
    fun _ _ _ _ _ _ _ counted pushed positive run =>
      NdcSession.run_pop_restores counted pushed positive run,
    fun _ _ _ _ _ returned restored => returned_restored returned restored,
    fun _ _ composed => composed.restored⟩

def oneContext : EventWorld Unit := ⟨.empty, ⟨1, [⟨0, "main"⟩], 1⟩, List.replicate 60 true⟩

def setUpEvent : Eventing Unit Unit := do
  let _ ← lsEventDispatcherCreate 5
  let _ ← lsEventDispatcherCreateEvent 0 ⟨[103, 111], by simp⟩
  let _ ← lsEventBind 0 0 10 0

theorem contexts_restored_trigger :
    ∃ (before after : EventWorld Unit)
      (exchanges : List (Outcome.Exchange EventCallback (EventWorld Unit))),
      ((perform 4 (.trigger 0 0 () (some 20) 0)).run before).Returns exchanges () after ∧
      after.ndc.head = [⟨0, "main"⟩] := by
  have ready : (setUpEvent.straight oneContext).toOption.map (fun answer =>
      (answer.2.ndc.head, answer.2.ndc.depth,
        ((perform 4 (.trigger 0 0 () (some 20) 0)).straight answer.2).toOption.isSome)) =
      some ([⟨0, "main"⟩], 1, true) := by
    decide +kernel
  obtain ⟨⟨_, before⟩, _, seen⟩ := Exec.exists_of_map _ ready
  obtain ⟨head, depth, returns⟩ : before.ndc.head = [⟨0, "main"⟩] ∧ before.ndc.depth = 1 ∧
      ((perform 4 (.trigger 0 0 () (some 20) 0)).straight before).toOption.isSome = true := by
    simpa only [Prod.mk.injEq] using seen
  have counted : before.ndc.Counted := by
    rw [Ndc.Counted, head, depth]
    rfl
  cases returned : (perform 4 (.trigger 0 0 () (some 20) 0)).straight before with
  | error reason =>
    rw [returned] at returns
    cases returns
  | ok answer =>
    obtain ⟨⟨⟩, after⟩ := answer
    obtain ⟨exchanges, exchanged, unchanged⟩ := Outcome.returns_of_straight returned
    obtain ⟨_, _, calls, _⟩ := contexts_restored Unit
    obtain ⟨_, same⟩ := calls _ _ _ _ exchanges exchanged
      (fun exchange member counted => by rw [unchanged exchange member]; exact ⟨counted, rfl⟩)
      counted
    exact ⟨before, after, exchanges, exchanged, same.trans head⟩

end EventingCall

end SpudLib
