import SpudLib.Eventing.Steps

/-!
# The invariant of a dispatcher's runs

What the dispatch loop has done so far is one block of entries for every moment
that was processed, in the order of the triggers, followed by the beginning of
the block of the moment being processed.  A program keeps this up that spares
the bindings which waiting moments have captured.
-/

namespace SpudLib

open Link

variable {Data : Type}

/-- What the dispatch loop is doing with the triggers not processed yet, and
the entries of the block it is in. -/
inductive Activity (machine : Machine Data) (view : View Data) (pending : List Trigger) :
    List Entry → Prop where
  | resting :
      machine.dispatch.running = none →
      (machine.control = .idle ∧ view.queue = [] ∨ machine.control = .dispatching) →
      List.Forall₂ Trigger.Scheduled pending view.queue →
      Activity machine view pending []
  | processing (trigger waiting data rest start rounds entries) :
      machine.dispatch.running = some trigger.event →
      pending = trigger :: waiting →
      view.queue = (trigger.moment, { data with handled := rounds.any Round.left }) :: rest →
      trigger.Scheduled (trigger.moment, data) →
      List.Forall₂ Trigger.Scheduled waiting rest →
      start.Nodup →
      Progress trigger start (view.lists trigger.event) rounds machine.control entries →
      Activity machine view pending entries

namespace Machine

/-- The invariant; `quiet` says that nothing is unbound from the running event. -/
structure Invariant (quiet : Prop) (machine : Machine Data) (view : View Data) : Prop where
  orderly : machine.Orderly view
  unflagged : quiet → ∀ event, machine.dispatch.events.Live event →
    ∀ cell ∈ view.lists event, cell.2.unbound = false
  heads : ∀ cell ∈ view.queue, ∀ event, cell.2.notifier = some event →
    ∀ binding, cell.2.bindings = some binding → (refs (view.lists event)).head? = some binding
  once : (machine.triggered.map Trigger.moment).Nodup
  lasting : machine.dispatch.destroyPending = false
  history : ∃ done pending blocks entries, machine.triggered = done ++ pending ∧
    List.Forall₂ Trigger.Processed done blocks ∧
    machine.trace = blocks.flatten ++ entries ∧ Activity machine view pending entries

structure Processing (machine : Machine Data) (view : View Data) (done : List Trigger)
    (blocks : List (List Entry)) (trigger : Trigger) (others : List Trigger)
    (data : MomentData Data) (rest : List (Nat × MomentData Data)) (start : List Nat)
    (rounds : List Round) (entries : List Entry) : Prop where
  triggered : machine.triggered = done ++ trigger :: others
  processed : List.Forall₂ Trigger.Processed done blocks
  trace : machine.trace = blocks.flatten ++ entries
  running : machine.dispatch.running = some trigger.event
  queue : view.queue = (trigger.moment, { data with handled := rounds.any Round.left }) :: rest
  scheduled : trigger.Scheduled (trigger.moment, data)
  behind : List.Forall₂ Trigger.Scheduled others rest
  startNodup : start.Nodup
  progress : Progress trigger start (view.lists trigger.event) rounds machine.control entries

/-- What an enabled step has to meet besides: nobody destroys the dispatcher,
removals spare what waiting moments captured, and a quiet program unbinds
between triggers only. -/
structure Careful (quiet : Prop) (machine : Machine Data) (label : EventLabel Data) : Prop where
  lasting : label ≠ .call .destroy
  spares : machine.SparesWaiting label
  calm : quiet → ∀ event cb, label = .call (.unbind event cb) → machine.control = .idle

variable {quiet : Prop} {machine next : Machine Data} {view later : View Data} {moment event : Nat}
  {label : EventLabel Data}

section Places

theorem Invariant.processing (invariant : machine.Invariant quiet view)
    (processes : machine.Processes view moment event) :
    ∃ done blocks trigger others data rest start rounds entries,
      machine.Processing view done blocks trigger others data rest start rounds entries ∧
        trigger.moment = moment ∧ trigger.event = event := by
  obtain ⟨done, pending, blocks, entries, triggered, processed, trace, activity⟩ :=
    invariant.history
  cases activity with
  | resting notRunning => cases notRunning.symm.trans processes.running
  | processing trigger others data rest start rounds entries running split queue scheduled behind
      startNodup progress =>
    obtain ⟨_, _, head, _⟩ := processes.head
    refine ⟨done, blocks, trigger, others, data, rest, start, rounds, entries,
      ⟨by rw [triggered, split], processed, trace, running, queue, scheduled, behind, startNodup,
        progress⟩, ?_, Option.some.inj (running.symm.trans processes.running)⟩
    rw [queue] at head
    exact congrArg Prod.fst (List.cons.inj head).1

theorem Invariant.resting (invariant : machine.Invariant quiet view)
    (notRunning : machine.dispatch.running = none) :
    ∃ done pending blocks, machine.triggered = done ++ pending ∧
      List.Forall₂ Trigger.Processed done blocks ∧ machine.trace = blocks.flatten ∧
      List.Forall₂ Trigger.Scheduled pending view.queue := by
  obtain ⟨done, pending, blocks, entries, triggered, processed, trace, activity⟩ :=
    invariant.history
  cases activity with
  | resting _ _ schedules =>
    exact ⟨done, pending, blocks, triggered, processed, by rw [trace, List.append_nil], schedules⟩
  | processing _ _ _ _ _ _ _ running => cases notRunning.symm.trans running

theorem Invariant.mem_waiting (invariant : machine.Invariant quiet view)
    {cell : Nat × MomentData Data} (member : cell ∈ view.queue) :
    cell ∈ machine.waiting ∨ cell.2.notifier = machine.dispatch.running := by
  have queued : machine.queued = view.queue := invariant.orderly.represents.queued_eq
  by_cases idle : machine.control = .idle
  · left
    simpa only [waiting, idle, queued] using member
  by_cases dispatching : machine.control = .dispatching
  · left
    simpa only [waiting, dispatching, queued] using member
  · obtain ⟨moment, event, processes⟩ := invariant.orderly.processes idle dispatching
    obtain ⟨data, rest, head, ofEvent⟩ := processes.head
    rw [head] at member
    rcases List.mem_cons.mp member with rfl | behind
    · right
      rw [processes.running]
      exact ofEvent
    · left
      unfold waiting
      split
      · contradiction
      · contradiction
      · rw [queued, head]
        exact behind

end Places

section Edits

theorem Invariant.edit (invariant : machine.Invariant quiet view) {dispatch : Dispatcher Data}
    {cells : List (Nat × BindingData)}
    (kept : Orderly { machine with dispatch := dispatch } (view.setList event cells))
    (keeps : machine.Keeps { machine with dispatch := dispatch })
    (lasting : dispatch.destroyPending = machine.dispatch.destroyPending)
    (unflagged : quiet → machine.dispatch.events.Live event →
      ∀ cell ∈ cells, cell.2.unbound = false)
    (heads : ∀ cell ∈ view.queue, cell.2.notifier = some event → ∀ binding,
      cell.2.bindings = some binding → (refs cells).head? = some binding)
    (grown : machine.dispatch.running = some event →
      machine.control.Outside ∧ Grown (view.lists event) cells) :
    Invariant quiet { machine with dispatch := dispatch } (view.setList event cells) := by
  have running : dispatch.running = machine.dispatch.running := keeps.running
  refine ⟨kept, ?_, ?_, invariant.once, lasting.trans invariant.lasting, ?_⟩
  · intro calm other live
    have before := (keeps.live other).mp live
    by_cases here : other = event
    · subst here
      rw [View.setList_lists_self]
      exact unflagged calm before
    · rw [View.setList_lists_of_ne _ here]
      exact invariant.unflagged calm other before
  · intro cell member other ofOther
    by_cases here : other = event
    · subst here
      rw [View.setList_lists_self]
      exact heads cell member ofOther
    · rw [View.setList_lists_of_ne _ here]
      exact invariant.heads cell member other ofOther
  · obtain ⟨done, pending, blocks, entries, triggered, processed, trace, activity⟩ :=
      invariant.history
    refine ⟨done, pending, blocks, entries, triggered, processed, trace, ?_⟩
    cases activity with
    | resting notRunning control scheduled =>
      exact .resting (running.trans notRunning) control scheduled
    | processing trigger others data rest start rounds entries runs split head scheduled behind
        startNodup progress =>
      refine .processing _ _ _ _ _ _ _ (running.trans runs) split head scheduled behind
        startNodup ?_
      by_cases here : trigger.event = event
      · obtain ⟨outside, grown⟩ := grown (here ▸ runs)
        subst here
        rw [View.setList_lists_self]
        exact progress.grown outside grown
      · rw [View.setList_lists_of_ne _ here]
        exact progress

theorem Invariant.grow (invariant : machine.Invariant quiet view) {dispatch : Dispatcher Data}
    {cells : List (Nat × BindingData)}
    (kept : Orderly { machine with dispatch := dispatch } (view.setList event cells))
    (keeps : machine.Keeps { machine with dispatch := dispatch })
    (lasting : dispatch.destroyPending = machine.dispatch.destroyPending)
    (unflagged : quiet → machine.dispatch.events.Live event →
      ∀ cell ∈ cells, cell.2.unbound = false)
    (outside : machine.control.Outside) (grown : Grown (view.lists event) cells) :
    Invariant quiet { machine with dispatch := dispatch } (view.setList event cells) := by
  refine invariant.edit kept keeps lasting unflagged ?_ fun _ => ⟨outside, grown⟩
  intro cell member ofEvent binding captured
  exact grown.head (invariant.heads cell member event ofEvent binding captured)

theorem head_of_filtered {cells : List (Nat × BindingData)} {binding : Nat}
    (keep : Nat × BindingData → Bool) (first : (refs cells).head? = some binding)
    (spared : binding ∉ refs (cells.filter fun cell => !keep cell)) :
    ∃ cell rest, cells = cell :: rest ∧ cell.1 = binding ∧ keep cell = true := by
  cases cells with
  | nil => cases first
  | cons cell rest =>
    refine ⟨cell, rest, rfl, Option.some.inj first, ?_⟩
    cases kept : keep cell with
    | true => rfl
    | false =>
      refine absurd ?_ spared
      rw [List.filter_cons_of_pos (by simp [kept])]
      exact List.mem_cons.mpr (.inl (Option.some.inj first).symm)

theorem Invariant.unbind (invariant : machine.Invariant quiet view) {cb : Nat}
    {dispatch : Dispatcher Data} (live : machine.dispatch.events.Live event)
    (kept : Orderly { machine with dispatch := dispatch }
      (view.setList event (Dispatcher.unboundCells cb (view.lists event))))
    (keeps : machine.Keeps { machine with dispatch := dispatch })
    (lasting : dispatch.destroyPending = machine.dispatch.destroyPending)
    (notRunning : machine.dispatch.running ≠ some event)
    (spares : machine.SparesWaiting (.call (.unbind event cb))) :
    Invariant quiet { machine with dispatch := dispatch }
      (view.setList event (Dispatcher.unboundCells cb (view.lists event))) := by
  refine invariant.edit kept keeps lasting ?_ ?_ fun running => absurd running notRunning
  · intro calm _ cell member
    exact invariant.unflagged calm event live cell (List.mem_of_mem_eraseP member)
  · intro cell member ofEvent binding captured
    have waits := (invariant.mem_waiting member).resolve_right fun runs =>
      notRunning (runs.symm.trans ofEvent)
    have spared := spares cell waits binding captured
    simp only [removed, if_neg notRunning, invariant.orderly.represents.listed_eq live] at spared
    obtain ⟨first, rest, split, here, different⟩ :=
      head_of_filtered (fun cell => !decide (cell.2.cb = cb))
        (invariant.heads cell member event ofEvent binding captured) (by simpa using spared)
    rw [Dispatcher.unboundCells, split, List.eraseP_cons_of_neg (by simpa using different)]
    exact congrArg some here

theorem Queues.scheduled {before after : List Trigger} {more : List (Nat × MomentData Data)}
    (queues : Queues view before after more) (once : (before.map Trigger.moment).Nodup) :
    (∃ triggers, after = before ++ triggers ∧ List.Forall₂ Trigger.Scheduled triggers more) ∧
      (after.map Trigger.moment).Nodup ∧
      ∀ cell ∈ more, ∀ event, cell.2.notifier = some event →
        ∀ binding, cell.2.bindings = some binding →
          (refs (view.lists event)).head? = some binding := by
  cases queues with
  | nothing => exact ⟨⟨[], (List.append_nil _).symm, .nil⟩, once, fun _ member => by cases member⟩
  | @moment moment event _ _ _ untriggered =>
    refine ⟨⟨_, rfl, .cons ⟨rfl, rfl, rfl, rfl, ?_⟩ .nil⟩, ?_, ?_⟩
    · cases cells : view.lists event with
      | nil => simp [Dispatcher.callbacks, refs]
      | cons cell rest => simp [Dispatcher.callbacks, refs]
    · rw [List.map_append]
      refine List.Nodup.append once (List.nodup_singleton _) ?_
      intro other old new
      obtain rfl := List.mem_singleton.mp new
      exact untriggered old
    · intro cell member other ofOther
      obtain rfl := List.mem_singleton.mp member
      cases ofOther
      exact fun _ => id

theorem Invariant.asked (invariant : machine.Invariant quiet view)
    {more : List (Nat × MomentData Data)}
    (kept : next.Orderly { view with queue := view.queue ++ more }) (keeps : machine.Keeps next)
    (queues : Queues view machine.triggered next.triggered more)
    (lasting : next.dispatch.destroyPending = machine.dispatch.destroyPending) :
    next.Invariant quiet { view with queue := view.queue ++ more } := by
  obtain ⟨⟨triggers, triggered, scheduled⟩, once, heads⟩ := queues.scheduled invariant.once
  refine ⟨kept, ?_, ?_, once, lasting.trans invariant.lasting, ?_⟩
  · intro calm event live
    exact invariant.unflagged calm event ((keeps.live event).mp live)
  · intro cell member
    exact (List.mem_append.mp member).elim (invariant.heads cell) (heads cell)
  · obtain ⟨done, pending, blocks, entries, before, processed, trace, activity⟩ :=
      invariant.history
    refine ⟨done, pending ++ triggers, blocks, entries, ?_, processed, keeps.trace.trans trace, ?_⟩
    · rw [triggered, before, List.append_assoc]
    cases activity with
    | resting notRunning control schedules =>
      refine .resting (keeps.running.trans notRunning) ?_ (List.rel_append schedules scheduled)
      have standing : next.control = .idle ∨ next.control = .dispatching := by
        rcases keeps.control with same | ⟨_, dispatching⟩
        · rw [same]
          exact control.imp_left And.left
        · exact .inr dispatching
      refine standing.imp_left fun idle => ⟨idle, ?_⟩
      have position := kept.position
      rw [idle] at position
      exact position.2.1
    | processing trigger others data rest start rounds entries running split head first behind
        startNodup progress =>
      have control : next.control = machine.control := by
        refine keeps.control.resolve_right fun awakes => ?_
        rw [awakes.1] at progress
        exact progress
      refine .processing trigger (others ++ triggers) data (rest ++ more) start rounds entries
        (keeps.running.trans running) ?_ ?_ first (List.rel_append behind scheduled) startNodup
        (control ▸ progress)
      · rw [split, List.cons_append]
      · rw [head, List.cons_append]

end Edits

section Loop

variable {data : MomentData Data} {rest : List (Nat × MomentData Data)}
  {dispatch : Dispatcher Data}

theorem Progress.walk {trigger : Trigger} {start : List Nat} {cells : List (Nat × BindingData)}
    {rounds : List Round} {before control : Control} {entries added : List Entry}
    (progress : Progress trigger start cells rounds before entries)
    (stride : Stride cells trigger.moment data before added control)
    (nodup : (refs cells).Nodup) (handled : data.handled = rounds.any Round.left)
    (resultCb : data.resultCb = trigger.resultCb) :
    Progress trigger start cells rounds control (entries ++ added) := by
  cases stride with
  | ended =>
    obtain ⟨_, rfl, passed, ahead, _, position, plan⟩ := progress
    have done : ahead = [] := by simpa [refs] using position.symm
    subst done
    exact ⟨rfl, List.append_nil _, by simpa [active] using plan⟩
  | @skipped passed binding content rest split skipped =>
    obtain ⟨_, rfl, before, ahead, again, position, plan⟩ := progress
    cases ahead with
    | nil => cases position
    | cons cell ahead =>
      obtain ⟨here, other⟩ := cell
      cases position
      subst split
      obtain ⟨rfl, rfl⟩ := split_unique nodup again
      rw [active_cons, skipped, if_neg Bool.false_ne_true] at plan
      exact ⟨rfl, List.append_nil _, passed ++ [(here, content)], rest, by simp, rfl, plan⟩
  | @called passed binding content rest split bound =>
    obtain ⟨_, rfl, before, ahead, again, position, plan⟩ := progress
    cases ahead with
    | nil => cases position
    | cons cell ahead =>
      obtain ⟨here, other⟩ := cell
      cases position
      subst split
      obtain ⟨rfl, rfl⟩ := split_unique nodup again
      rw [active_cons, bound, if_pos rfl] at plan
      exact ⟨rfl, handled, passed, content, rest, content.arg, rfl, rfl, plan⟩
  | unreported none =>
    obtain ⟨_, rfl, plan⟩ := progress
    exact ⟨rfl, by rw [Trigger.result, ← resultCb, none], plan⟩
  | reported some =>
    obtain ⟨_, rfl, plan⟩ := progress
    exact ⟨rfl, by rw [Trigger.result, ← resultCb, some, handled], plan⟩
  | resumed =>
    obtain ⟨_, rfl, plan⟩ := progress
    exact ⟨rfl, List.append_nil _, plan⟩

theorem Invariant.walked (invariant : machine.Invariant quiet view) {control : Control}
    {added : List Entry}
    (kept : Orderly { machine with control := control, trace := machine.trace ++ added } view)
    (processes : machine.Processes view moment event) (queue : view.queue = (moment, data) :: rest)
    (stride : Stride (view.lists event) moment data machine.control added control) :
    Invariant quiet { machine with control := control, trace := machine.trace ++ added } view := by
  obtain ⟨done, blocks, trigger, others, content, behind, start, rounds, entries, processing, rfl,
    rfl⟩ := invariant.processing processes
  have nodup :=
    (invariant.orderly.represents.lists _ (invariant.orderly.live processes)).nodup
  obtain ⟨same, _⟩ := List.cons.inj (queue.symm.trans processing.queue)
  obtain rfl := congrArg Prod.snd same
  refine ⟨kept, invariant.unflagged, invariant.heads, invariant.once, invariant.lasting, done,
    trigger :: others, blocks, entries ++ added, processing.triggered, processing.processed, ?_,
    .processing _ _ _ _ _ _ _ processing.running rfl processing.queue processing.scheduled
      processing.behind processing.startNodup
      (Progress.walk processing.progress stride nodup rfl processing.scheduled.resultCb)⟩
  change machine.trace ++ added = _
  rw [processing.trace, List.append_assoc]

theorem Invariant.returned (invariant : machine.Invariant quiet view) {binding : Nat}
    {handled left : Bool} {passed cells : List (Nat × BindingData)} {content : BindingData}
    (kept : Orderly
      { machine with
        dispatch := dispatch
        control := .visiting moment (refs cells).head?
        trace := machine.trace ++ [.returned moment left] }
      { view with queue := (moment, { data with handled := handled || left }) :: rest })
    (processes : machine.Processes view moment event)
    (control : machine.control = .calling moment binding handled)
    (split : view.lists event = passed ++ (binding, content) :: cells)
    (queue : view.queue = (moment, data) :: rest)
    (running : dispatch.running = machine.dispatch.running)
    (lasting : dispatch.destroyPending = machine.dispatch.destroyPending)
    (events : dispatch.events = machine.dispatch.events) :
    Invariant quiet
      { machine with
        dispatch := dispatch
        control := .visiting moment (refs cells).head?
        trace := machine.trace ++ [.returned moment left] }
      { view with queue := (moment, { data with handled := handled || left }) :: rest } := by
  obtain ⟨done, blocks, trigger, others, first, behind, start, rounds, entries, processing, rfl,
    rfl⟩ := invariant.processing processes
  have nodup :=
    (invariant.orderly.represents.lists _ (invariant.orderly.live processes)).nodup
  obtain ⟨same, rfl⟩ := List.cons.inj (queue.symm.trans processing.queue)
  have head : data = { first with handled := rounds.any Round.left } := congrArg Prod.snd same
  have progress := processing.progress
  rw [control] at progress
  obtain ⟨_, rfl, before, here, ahead, arg, again, opened, plan⟩ := progress
  rw [split] at nodup again
  obtain ⟨rfl, rfl⟩ := split_unique nodup again
  let round : Round := ⟨content.cb, arg, left⟩
  refine ⟨kept, ?_, ?_, invariant.once, lasting.trans invariant.lasting, done, trigger :: others,
    blocks, trigger.opening start (rounds ++ [round]), processing.triggered, processing.processed,
    ?_, ?_⟩
  · intro calm other live
    exact invariant.unflagged calm other (events ▸ live)
  · intro cell member
    rcases List.mem_cons.mp member with rfl | later
    · exact invariant.heads (trigger.moment, data) (by simp [queue])
    · exact invariant.heads cell (by simp [queue, later])
  · change machine.trace ++ _ = _
    rw [processing.trace, opened]
    simp [Trigger.opening, Round.entries, round]
  · refine .processing trigger others first rest start (rounds ++ [round]) _
      (running.trans processing.running) rfl ?_ processing.scheduled processing.behind
      processing.startNodup ⟨rfl, rfl, passed ++ [(binding, content)], cells, ?_, rfl, ?_⟩
    · simp [head, round]
    · simpa using split
    · simpa [round] using plan

/-- The end of a moment, when the sweep spares what waiting moments captured. -/
theorem Invariant.finished (invariant : machine.Invariant quiet view)
    (kept : Orderly
      { machine with
        dispatch := dispatch
        control := .dispatching
        trace := machine.trace ++ [.finished moment] }
      (View.setList { view with queue := rest } event
        (Dispatcher.sweptCells (view.lists event))))
    (processes : machine.Processes view moment event) (control : machine.control = .finishing moment)
    (queue : view.queue = (moment, data) :: rest) (notRunning : dispatch.running = none)
    (lasting : dispatch.destroyPending = machine.dispatch.destroyPending)
    (live : ∀ other, dispatch.events.Live other ↔ machine.dispatch.events.Live other)
    (spares : machine.SparesWaiting .internal) :
    Invariant quiet
      { machine with
        dispatch := dispatch
        control := .dispatching
        trace := machine.trace ++ [.finished moment] }
      (View.setList { view with queue := rest } event
        (Dispatcher.sweptCells (view.lists event))) := by
  have still := invariant.orderly.live processes
  have queued : machine.queued = view.queue := invariant.orderly.represents.queued_eq
  obtain ⟨done, blocks, trigger, others, first, behind, start, rounds, entries, processing, rfl,
    rfl⟩ := invariant.processing processes
  obtain ⟨_, rfl⟩ := List.cons.inj (queue.symm.trans processing.queue)
  have progress := processing.progress
  rw [control] at progress
  obtain ⟨_, closing, plan⟩ := progress
  refine ⟨kept, ?_, ?_, invariant.once, lasting.trans invariant.lasting, done ++ [trigger], others,
    blocks ++ [trigger.block start rounds], [], ?_, ?_, ?_,
    .resting notRunning (.inr rfl) processing.behind⟩
  · intro calm other otherLive
    have before := (live other).mp otherLive
    by_cases here : other = trigger.event
    · rw [here, View.setList_lists_self]
      intro cell member
      exact invariant.unflagged calm _ still cell (List.mem_of_mem_filter member)
    · rw [View.setList_lists_of_ne _ here]
      exact invariant.unflagged calm other before
  · intro cell member other ofOther binding captured
    have waits : cell ∈ machine.waiting := by
      simp only [waiting, control, queued, queue]
      exact member
    have head := invariant.heads cell (by rw [queue]; exact List.mem_cons_of_mem _ member) other
      ofOther binding captured
    by_cases here : other = trigger.event
    · subst here
      rw [View.setList_lists_self]
      have spared := spares cell waits binding captured
      simp only [removed, control, processes.running,
        invariant.orderly.represents.listed_eq still] at spared
      obtain ⟨leading, later, split, same, unmarked⟩ :=
        head_of_filtered (fun cell => !cell.2.unbound) head (by simpa using spared)
      have swept : Dispatcher.sweptCells (view.lists trigger.event) =
          leading :: Dispatcher.sweptCells later := by
        rw [split]
        exact List.filter_cons_of_pos unmarked
      rw [swept]
      exact congrArg some same
    · rw [View.setList_lists_of_ne _ here]
      exact head
  · change machine.triggered = _
    rw [processing.triggered]
    simp
  · exact List.rel_append processing.processed
      (.cons ⟨start, rounds, processing.startNodup, plan, rfl⟩ .nil)
  · change machine.trace ++ _ = _
    rw [processing.trace, closing]
    simp [Trigger.block]

theorem Invariant.started (invariant : machine.Invariant quiet view)
    (kept : Orderly
      { machine with
        dispatch := dispatch
        control := .visiting moment data.bindings
        trace := machine.trace ++
          [.started moment event (Dispatcher.callbacks (view.lists event))] }
      (view.setList event (Dispatcher.settledCells (view.lists event))))
    (control : machine.control = .dispatching) (queue : view.queue = (moment, data) :: rest)
    (ofEvent : data.notifier = some event) (still : machine.dispatch.events.Live event)
    (running : dispatch.running = some event)
    (live : ∀ other, dispatch.events.Live other ↔ machine.dispatch.events.Live other)
    (lasting : dispatch.destroyPending = false) :
    Invariant quiet
      { machine with
        dispatch := dispatch
        control := .visiting moment data.bindings
        trace := machine.trace ++
          [.started moment event (Dispatcher.callbacks (view.lists event))] }
      (view.setList event (Dispatcher.settledCells (view.lists event))) := by
  have position := invariant.orderly.position
  rw [control] at position
  obtain ⟨done, pending, blocks, triggered, processed, trace, schedules⟩ :=
    invariant.resting position
  rw [queue] at schedules
  cases schedules with
  | @cons trigger _ others _ scheduled behind =>
    obtain rfl : moment = trigger.moment := scheduled.moment
    obtain rfl : event = trigger.event := Option.some.inj (ofEvent.symm.trans scheduled.notifier)
    let start := Dispatcher.callbacks (view.lists trigger.event)
    have unhandled : { data with handled := [].any Round.left } = data := by
      rw [show [].any Round.left = data.handled from scheduled.handled.symm]
    refine ⟨kept, ?_, ?_, invariant.once, lasting, done, trigger :: others, blocks,
      trigger.opening start [], triggered, processed, ?_,
      .processing trigger others data rest start [] _ running rfl ?_ scheduled behind
        (invariant.orderly.distinct _ still) ⟨rfl, rfl, ?_⟩⟩
    · intro calm other otherLive
      have before := (live other).mp otherLive
      by_cases here : other = trigger.event
      · rw [here, View.setList_lists_self]
        intro cell member
        obtain ⟨old, inside, rfl⟩ := List.mem_map.mp member
        exact invariant.unflagged calm _ still old inside
      · rw [View.setList_lists_of_ne _ here]
        exact invariant.unflagged calm other before
    · intro cell member other ofOther
      by_cases here : other = trigger.event
      · rw [here, View.setList_lists_self, Dispatcher.Represents.refs_settled, ← here]
        exact invariant.heads cell member other ofOther
      · rw [View.setList_lists_of_ne _ here]
        exact invariant.heads cell member other ofOther
    · change machine.trace ++ _ = _
      rw [trace]
      simp [Trigger.opening, start]
    · rw [unhandled]
      exact queue
    · rw [View.setList_lists_self]
      cases captured : data.bindings with
      | none =>
        have empty : trigger.callbacks = [] := scheduled.captured.mp captured
        exact ⟨_, [], (List.append_nil _).symm, rfl, by simp [active, Trigger.planned, empty]⟩
      | some binding =>
        have nonempty : trigger.callbacks ≠ [] := fun empty => by
          cases captured.symm.trans (scheduled.captured.mpr empty)
        have head := invariant.heads (trigger.moment, data) (by simp [queue]) _ ofEvent binding
          captured
        refine ⟨[], Dispatcher.settledCells (view.lists trigger.event), rfl, ?_, ?_⟩
        · rw [Dispatcher.Represents.refs_settled]
          exact head.symm
        · rw [active_settled, Trigger.planned, if_neg nonempty]
          rfl

/-- What a careful step has done keeps the invariant. -/
theorem Invariant.moved (invariant : machine.Invariant quiet view)
    (enabled : (system Data).Enabled machine label) (careful : Careful quiet machine label)
    (kept : next.Orderly later) (moved : machine.Moved view label next later) :
    next.Invariant quiet later := by
  cases moved with
  | refused => exact invariant
  | @bound event cb arg granted dispatch _ keeps lasting =>
    refine invariant.grow kept keeps lasting ?_ enabled.1 (boundCells_grown ..)
    intro calm live cell member
    exact (Dispatcher.mem_boundCells member).elim (invariant.unflagged calm event live cell) id
  | @unbound event cb dispatch keeps lasting =>
    by_cases running : machine.dispatch.running = some event
    · rw [if_pos running] at kept ⊢
      refine invariant.grow kept keeps lasting ?_ enabled.1 (flaggedCells_grown ..)
      intro calm
      exact absurd (careful.calm calm event cb rfl) (invariant.orderly.inside running).1
    · rw [if_neg running] at kept ⊢
      exact invariant.unbind enabled.2.2.1 kept keeps lasting running careful.spares
  | asked _ _ keeps queues lasting =>
    refine invariant.asked kept keeps queues (lasting.resolve_left ?_)
    rintro rfl
    exact careful.lasting rfl
  | rested control _ queue =>
    have position := invariant.orderly.position
    rw [control] at position
    obtain ⟨done, pending, blocks, triggered, processed, trace, schedules⟩ :=
      invariant.resting position
    exact ⟨kept, invariant.unflagged, invariant.heads, invariant.once, invariant.lasting, done,
      pending, blocks, [], triggered, processed, by rw [List.append_nil]; exact trace,
      .resting position (.inl ⟨rfl, queue⟩) schedules⟩
  | started control _ queue ofEvent still running live lasting =>
    exact invariant.started kept control queue ofEvent still running live lasting
  | walked processes queue stride => exact invariant.walked kept processes queue stride
  | returned processes control split queue running lasting events =>
    exact invariant.returned kept processes control split queue running lasting events
  | finished processes control queue notRunning lasting live =>
    exact invariant.finished kept processes control queue notRunning lasting live careful.spares

theorem Invariant.not_dangles (invariant : machine.Invariant quiet view) : ¬ machine.Dangles := by
  rintro ⟨moment, binding, control, freed⟩
  obtain ⟨_, _, processes⟩ :=
    invariant.orderly.processes (by simp [control]) (by simp [control])
  obtain ⟨_, _, trigger, _, _, _, _, _, _, processing, rfl, rfl⟩ := invariant.processing processes
  have progress := processing.progress
  rw [control] at progress
  obtain ⟨_, _, passed, ahead, split, position, _⟩ := progress
  refine invariant.orderly.represents.not_freed (invariant.orderly.live processes) ?_ freed
  rw [split, refs_append]
  exact List.mem_append_right _ (List.mem_of_mem_head? position.symm)

theorem tolerated (enabled : (system Data).Enabled machine label) :
    (tolerantSystem Data).Enabled machine label := by
  cases label with
  | internal => exact enabled
  | ret left => exact enabled
  | call request =>
    obtain ⟨outside, alive, allowed⟩ := enabled
    refine ⟨outside, alive, ?_⟩
    cases request with
    | unbind event cb => exact ⟨allowed.1, fun _ => allowed.2⟩
    | _ => exact allowed

/-- A careful step returns and keeps the invariant. -/
theorem Invariant.step (invariant : machine.Invariant quiet view)
    (enabled : (system Data).Enabled machine label) (careful : Careful quiet machine label) :
    ∃ next later, (system Data).step machine label = .ok next ∧
      machine.Moved view label next later ∧ Invariant quiet next later := by
  rcases invariant.orderly.step (tolerated enabled) with
    ⟨next, returned, ⟨later, kept, moved⟩ | ⟨_, destroyed⟩⟩ | ⟨_, _, dangles⟩
  · exact ⟨next, later, returned, moved, invariant.moved enabled careful kept moved⟩
  · rcases destroyed with rfl | pending
    · exact absurd rfl careful.lasting
    · cases pending.symm.trans invariant.lasting
  · exact absurd dangles invariant.not_dangles

end Loop

end Machine

end SpudLib
