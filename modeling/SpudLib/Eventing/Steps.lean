import SpudLib.Eventing.Orderly

/-!
# Every step of an orderly dispatcher

Each call, each move of the loop and each return of a callback is taken from an
orderly state to an orderly one, and `Moved` is what it did.
-/

namespace SpudLib

open Link

namespace Machine

variable {Data : Type}

section Calls

variable {machine : Machine Data} {view : View Data}

theorem refs_subset_of_grown {cells later : List (Nat × BindingData)} (grown : Grown cells later) :
    refs cells ⊆ refs later := by
  induction grown with
  | added => exact List.nil_subset _
  | kept _ _ _ inductionHypothesis =>
    intro ref member
    rcases List.mem_cons.mp member with rfl | member
    · exact List.mem_cons_self
    · exact List.mem_cons_of_mem _ (inductionHypothesis member)

theorem Orderly.live (orderly : machine.Orderly view) {moment event : Nat}
    (processes : machine.Processes view moment event) : machine.dispatch.events.Live event := by
  obtain ⟨data, rest, queue, ofEvent⟩ := processes.head
  obtain ⟨other, ofOther, live, _⟩ := orderly.captured (moment, data) (by simp [queue])
  cases ofOther.symm.trans ofEvent
  exact live

theorem Orderly.processes (orderly : machine.Orderly view) (awake : machine.control ≠ .idle)
    (inside : machine.control ≠ .dispatching) :
    ∃ moment event, machine.Processes view moment event := by
  have position := orderly.position
  cases control : machine.control with
  | idle => exact absurd control awake
  | dispatching => exact absurd control inside
  | visiting moment binding =>
    rw [control] at position
    cases binding with
    | none =>
      obtain ⟨event, processes⟩ := position
      exact ⟨moment, event, processes⟩
    | some binding =>
      obtain ⟨event, processes, _⟩ := position
      exact ⟨moment, event, processes⟩
  | calling moment binding handled =>
    rw [control] at position
    obtain ⟨event, processes, _⟩ := position
    exact ⟨moment, event, processes⟩
  | reporting moment =>
    rw [control] at position
    exact ⟨moment, position⟩
  | resulting moment =>
    rw [control] at position
    exact ⟨moment, position⟩
  | finishing moment =>
    rw [control] at position
    exact ⟨moment, position⟩

theorem ne_dispatching_of_outside (outside : machine.control.Outside) :
    machine.control ≠ .dispatching := by
  intro dispatching
  rw [dispatching] at outside
  exact outside

theorem Orderly.runs (orderly : machine.Orderly view) (outside : machine.control.Outside)
    (busy : machine.control ≠ .idle) : machine.dispatch.running.isSome = true := by
  obtain ⟨_, _, processes⟩ := orderly.processes busy (ne_dispatching_of_outside outside)
  rw [processes.running]
  rfl

theorem Orderly.inside (orderly : machine.Orderly view) {event : Nat}
    (running : machine.dispatch.running = some event) :
    machine.control ≠ .idle ∧ machine.control ≠ .dispatching := by
  have position := orderly.position
  constructor
  · intro idle
    rw [idle] at position
    cases position.1.symm.trans running
  · intro dispatching
    rw [dispatching] at position
    have notRunning : machine.dispatch.running = none := position
    cases notRunning.symm.trans running

theorem Processes.unique {moment event other second : Nat}
    (processes : machine.Processes view moment event)
    (running : machine.dispatch.running = some other)
    (head : (refs view.queue).head? = some second) : event = other ∧ moment = second := by
  obtain ⟨data, rest, queue, _⟩ := processes.head
  rw [queue] at head
  exact ⟨Option.some.inj (processes.running.symm.trans running), Option.some.inj head⟩

theorem Orderly.edit (orderly : machine.Orderly view) (outside : machine.control.Outside)
    {after : Dispatcher Data} {event : Nat} {cells : List (Nat × BindingData)}
    (represents : after.Represents (view.setList event cells))
    (same : Dispatcher.SameButBindings machine.dispatch after)
    (distinct : (Dispatcher.callbacks cells).Nodup)
    (unflagged : machine.dispatch.running ≠ some event → ∀ cell ∈ cells, cell.2.unbound = false)
    (kept : ∀ binding ∈ refs (view.lists event),
      binding ∈ refs cells ∨ after.bindings.Freed binding)
    (grown : machine.dispatch.running = some event → Grown (view.lists event) cells) :
    Orderly { machine with dispatch := after } (view.setList event cells) := by
  have running : after.running = machine.dispatch.running := by rw [same.shape]
  have pending : after.destroyPending = machine.dispatch.destroyPending := by rw [same.shape]
  have moments : after.moments = machine.dispatch.moments := by rw [same.shape]
  -- the list of the event that runs has only grown
  have behind : ∀ other, machine.dispatch.running = some other →
      Grown (view.lists other) ((view.setList event cells).lists other) := by
    intro other runs
    by_cases here : other = event
    · subst here
      rw [View.setList_lists_self]
      exact grown runs
    · rw [View.setList_lists_of_ne _ here]
      exact Grown.refl _
  have still : ∀ moment other, machine.Processes view moment other →
      Processes { machine with dispatch := after } (view.setList event cells) moment other := by
    intro moment other processes
    constructor
    · exact running.trans processes.running
    · exact processes.head
    · rw [(behind other processes.running).active_eq]
      exact processes.begun
  constructor
  · exact represents
  · intro other live
    by_cases here : other = event
    · rw [here, View.setList_lists_self]
      exact distinct
    · rw [View.setList_lists_of_ne _ here]
      exact orderly.distinct other ((same.live other).mp live)
  · intro other live
    rw [running]
    by_cases here : other = event
    · subst here
      rw [View.setList_lists_self]
      exact unflagged
    · rw [View.setList_lists_of_ne _ here]
      exact orderly.unflagged other ((same.live other).mp live)
  · intro cell member
    obtain ⟨other, ofOther, live, bound⟩ := orderly.captured cell member
    refine ⟨other, ofOther, (same.live other).mpr live, ?_⟩
    intro binding captured
    rcases bound binding captured with listed | freed
    · by_cases here : other = event
      · subst here
        rw [View.setList_lists_self]
        exact kept binding listed
      · rw [View.setList_lists_of_ne _ here]
        exact .inl listed
    · exact .inr (same.freed binding freed)
  · intro moment member
    change _ ∧ ∃ data, after.moments.cells moment = _
    rw [moments]
    exact orderly.prepared moment member
  · exact orderly.once
  · intro moment member
    change _ ∨ after.moments.Freed moment
    rw [moments]
    exact orderly.accounted moment member
  · change after.freed = false
    rw [same.shape]
    exact orderly.alive
  · have placed : ∀ control : Control, control.Outside → machine.Position view control →
        Position { machine with dispatch := after } (view.setList event cells) control := by
      intro control outside position
      cases control with
      | idle => exact ⟨running.trans position.1, position.2.1, pending.trans position.2.2⟩
      | calling moment binding handled =>
        obtain ⟨other, processes, listed⟩ := position
        exact ⟨other, still moment other processes,
          refs_subset_of_grown (behind other processes.running) listed⟩
      | resulting moment =>
        obtain ⟨other, processes⟩ := position
        exact ⟨other, still moment other processes⟩
      | dispatching => exact outside.elim
      | visiting => exact outside.elim
      | reporting => exact outside.elim
      | finishing => exact outside.elim
    exact placed _ outside orderly.position

theorem keeps_of_sameButBindings {after : Dispatcher Data}
    (same : Dispatcher.SameButBindings machine.dispatch after) :
    machine.Keeps { machine with dispatch := after } := by
  constructor
  · rfl
  · change after.running = _
    rw [same.shape]
  · exact same.live
  · intro pending
    change after.destroyPending = true
    rw [same.shape]
    exact pending
  · exact .inl rfl

theorem Orderly.bind (orderly : machine.Orderly view) (outside : machine.control.Outside)
    {event : Nat} (live : machine.dispatch.events.Live event) (cb arg : Nat) (granted : Bool) :
    ∃ next later, machine.perform (.bind event cb arg granted) = .ok next ∧
      next.Orderly later ∧
      machine.Moved view (.call (.bind event cb arg granted)) next later := by
  obtain ⟨bound, after, returned, outcome⟩ := orderly.represents.bind live cb arg granted
  have stepped : machine.perform (.bind event cb arg granted) =
      .ok { machine with dispatch := after } := by
    simp [perform, returned]
  rcases outcome with ⟨⟨_, rfl, unknown⟩, rfl⟩ | ⟨rfl, represents, same⟩
  · exact ⟨machine, view, stepped, orderly, .refused unknown⟩
  · have grown := boundCells_grown cb arg machine.dispatch.bindings.fresh (view.lists event)
    refine ⟨_, _, stepped, orderly.edit outside represents same ?_ ?_ ?_ fun _ => grown,
      .bound ?_ (keeps_of_sameButBindings same) (by rw [same.shape])⟩
    · rw [Dispatcher.callbacks_boundCells]
      have distinct := orderly.distinct event live
      by_cases known : cb ∈ Dispatcher.callbacks (view.lists event)
      · rw [if_pos known]
        exact distinct
      · rw [if_neg known]
        exact List.Nodup.append distinct (List.nodup_singleton cb) (by simpa using known)
    · intro notRunning cell member
      rcases Dispatcher.mem_boundCells member with old | new
      · exact orderly.unflagged event live notRunning cell old
      · exact new
    · intro binding listed
      exact .inl (refs_subset_of_grown grown listed)
    · by_contra refused
      rw [not_or, Bool.not_eq_true] at refused
      obtain ⟨rfl, unknown⟩ := refused
      have missing : ∀ cell ∈ view.lists event, cell.2.cb ≠ cb := fun cell member matching =>
        unknown (Dispatcher.mem_callbacks.mpr ⟨cell, member, matching⟩)
      have failed := @Dispatcher.lsEventBind_refused _ _ _ _ cb arg
        (orderly.represents.lists event live) missing
      cases returned.symm.trans failed

theorem Orderly.unbind (orderly : machine.Orderly view) (outside : machine.control.Outside)
    {event cb : Nat} (live : machine.dispatch.events.Live event)
    (known : machine.dispatch.running = some event →
      cb ∈ Dispatcher.callbacks (machine.dispatch.listed event)) :
    ∃ next later, machine.perform (.unbind event cb) = .ok next ∧ next.Orderly later ∧
      machine.Moved view (.call (.unbind event cb)) next later := by
  have distinct := orderly.distinct event live
  rw [orderly.represents.listed_eq live] at known
  by_cases bound : cb ∈ Dispatcher.callbacks (view.lists event)
  · obtain ⟨after, returned, represents, same, gone⟩ := orderly.represents.unbind live bound
    have stepped : machine.perform (.unbind event cb) = .ok { machine with dispatch := after } := by
      simp [perform, returned]
    refine ⟨_, _, stepped, orderly.edit outside represents same ?_ ?_ ?_ ?_,
      .unbound (keeps_of_sameButBindings same) (by rw [same.shape])⟩
    · split
      · rw [Dispatcher.callbacks_flaggedCells]
        exact distinct
      · exact distinct.sublist (Dispatcher.callbacks_unboundCells_sublist cb _)
    · intro notRunning cell member
      rw [if_neg notRunning] at member
      exact orderly.unflagged event live notRunning cell (List.mem_of_mem_eraseP member)
    · intro binding listed
      split
      next => exact .inl (refs_subset_of_grown (flaggedCells_grown cb _) listed)
      next notRunning => exact (gone binding listed).resolve_left notRunning
    · intro runs
      rw [if_pos runs]
      exact flaggedCells_grown cb _
  · have notRunning : machine.dispatch.running ≠ some event := fun runs => bound (known runs)
    have missing : ∀ cell ∈ view.lists event, cell.2.cb ≠ cb := fun cell member matching =>
      bound (Dispatcher.mem_callbacks.mpr ⟨cell, member, matching⟩)
    have returned := Dispatcher.lsEventUnbind_missing notRunning
      (orderly.represents.lists event live) missing
    have unchanged : Dispatcher.unboundCells cb (view.lists event) = view.lists event := by
      apply List.eraseP_of_forall_not
      simpa using missing
    have sameView : view.setList event (view.lists event) = view := by
      simp [View.setList]
    have moved : machine.Moved view (.call (.unbind event cb)) machine (view.setList event
        (if machine.dispatch.running = some event then
          Dispatcher.flaggedCells cb (view.lists event)
        else Dispatcher.unboundCells cb (view.lists event))) :=
      .unbound ⟨rfl, rfl, fun _ => Iff.rfl, id, .inl rfl⟩ rfl
    rw [if_neg notRunning, unchanged, sameView] at moved
    exact ⟨machine, view, by simp [perform, returned], orderly, moved⟩

theorem Processes.extend {next : Machine Data} {later : View Data} {moment event : Nat}
    {more : List (Nat × MomentData Data)} (processes : machine.Processes view moment event)
    (running : next.dispatch.running = machine.dispatch.running)
    (trace : next.trace = machine.trace) (lists : later.lists = view.lists)
    (queue : later.queue = view.queue ++ more) : next.Processes later moment event := by
  constructor
  · exact running.trans processes.running
  · obtain ⟨data, rest, head, ofEvent⟩ := processes.head
    exact ⟨data, rest ++ more, by rw [queue, head, List.cons_append], ofEvent⟩
  · rw [trace, lists]
    exact processes.begun

/-- Inside a callback, more moments in the queue change nothing for the loop. -/
theorem Position.extend {next : Machine Data} {later : View Data} {control : Control}
    {more : List (Nat × MomentData Data)} (position : machine.Position view control)
    (outside : control.Outside) (busy : control ≠ .idle)
    (running : next.dispatch.running = machine.dispatch.running)
    (trace : next.trace = machine.trace) (lists : later.lists = view.lists)
    (queue : later.queue = view.queue ++ more) : next.Position later control := by
  cases control with
  | idle => exact absurd rfl busy
  | calling moment binding handled =>
    obtain ⟨event, processes, listed⟩ := position
    exact ⟨event, processes.extend running trace lists queue, lists ▸ listed⟩
  | resulting moment =>
    obtain ⟨event, processes⟩ := position
    exact ⟨event, processes.extend running trace lists queue⟩
  | dispatching => exact outside.elim
  | visiting => exact outside.elim
  | reporting => exact outside.elim
  | finishing => exact outside.elim

/-- Where the loop stands, what it has traced and what it has put off says nothing about
the lists and the queue. -/
theorem Orderly.relocate (orderly : machine.Orderly view) {pending : Bool} {control : Control}
    {trace : List Entry}
    (position : Position { machine with
      dispatch := { machine.dispatch with destroyPending := pending }
      control := control
      trace := trace } view control) :
    Orderly { machine with
      dispatch := { machine.dispatch with destroyPending := pending }
      control := control
      trace := trace } view := by
  constructor
  · exact ⟨orderly.represents.lists, orderly.represents.apart, orderly.represents.queue,
      orderly.represents.tail⟩
  · exact orderly.distinct
  · exact orderly.unflagged
  · exact orderly.captured
  · exact orderly.prepared
  · exact orderly.once
  · exact orderly.accounted
  · exact orderly.alive
  · exact position

theorem Orderly.park (orderly : machine.Orderly view) (outside : machine.control.Outside)
    (moments : Memory (Link (MomentData Data))) (prepared : List Nat)
    (same : ∀ moment ∈ refs view.queue,
      moments.cells moment = machine.dispatch.moments.cells moment)
    (gone : ∀ moment, machine.dispatch.moments.Freed moment → moments.Freed moment)
    (parked : ∀ moment ∈ prepared, moment ∉ refs view.queue ∧
      ∃ data, moments.cells moment = some ⟨data, none⟩)
    (nodup : prepared.Nodup) :
    Orderly
      { machine with
        dispatch := { machine.dispatch with moments := moments }
        prepared := prepared } view := by
  constructor
  · exact orderly.represents.with_moments same
  · exact orderly.distinct
  · exact orderly.unflagged
  · exact orderly.captured
  · exact parked
  · exact nodup
  · intro moment member
    exact (orderly.accounted moment member).imp_right (gone moment)
  · exact orderly.alive
  · by_cases idle : machine.control = .idle
    · have position := orderly.position
      rw [idle] at position
      change Position _ _ machine.control
      rw [idle]
      exact position
    · exact orderly.position.extend outside idle rfl rfl rfl (List.append_nil _).symm

theorem Orderly.prepareTrigger (orderly : machine.Orderly view)
    (outside : machine.control.Outside) :
    ∃ dispatch, machine.dispatch.prepareTrigger true =
        (some machine.dispatch.moments.fresh, dispatch) ∧
      Orderly
        { machine with
          dispatch := dispatch
          prepared := machine.prepared ++ [machine.dispatch.moments.fresh] } view ∧
      machine.Keeps
        { machine with
          dispatch := dispatch
          prepared := machine.prepared ++ [machine.dispatch.moments.fresh] } ∧
      dispatch.events = machine.dispatch.events ∧
      dispatch.destroyPending = machine.dispatch.destroyPending := by
  have unqueued : machine.dispatch.moments.fresh ∉ refs view.queue := fun member =>
    Nat.lt_irrefl _ (orderly.represents.moments_lt_fresh _ member)
  refine ⟨_, rfl, orderly.park outside _ _ ?_ ?_ ?_ ?_, ⟨rfl, rfl, fun _ => Iff.rfl, id, .inl rfl⟩,
    rfl, rfl⟩
  · intro moment member
    apply Memory.alloc_cells_of_ne
    rintro rfl
    exact unqueued member
  · intro moment freed
    exact freed.alloc _
  · intro moment member
    rcases List.mem_append.mp member with old | new
    · obtain ⟨away, data, found⟩ := orderly.prepared moment old
      exact ⟨away, data, Memory.alloc_cells_of_some _ _ found⟩
    · obtain rfl := List.mem_singleton.mp new
      exact ⟨unqueued, _, Memory.alloc_cells_self _ _⟩
  · refine List.Nodup.append orderly.once (List.nodup_singleton _) ?_
    intro moment old new
    obtain rfl := List.mem_singleton.mp new
    obtain ⟨_, data, found⟩ := orderly.prepared _ old
    exact Nat.lt_irrefl _ (Memory.lt_fresh found)

theorem Orderly.unprepareTrigger (orderly : machine.Orderly view)
    (outside : machine.control.Outside) {moment : Nat} (member : moment ∈ machine.prepared) :
    ∃ next, machine.perform (.unprepareTrigger moment) = .ok next ∧ next.Orderly view ∧
      machine.Keeps next ∧ next.triggered = machine.triggered ∧
      next.dispatch.destroyPending = machine.dispatch.destroyPending := by
  obtain ⟨away, data, found⟩ := orderly.prepared moment member
  refine ⟨_, ?_, orderly.park outside (machine.dispatch.moments.erase moment)
    (machine.prepared.erase moment) ?_ ?_ ?_ ?_, ⟨rfl, rfl, fun _ => Iff.rfl, id, .inl rfl⟩, rfl,
    rfl⟩
  · simp only [perform, Memory.free_of_some found, Exec.ok_bind, Exec.pure_eq_ok]
  · intro queued inside
    apply Memory.erase_cells_of_ne
    rintro rfl
    exact away inside
  · intro other freed
    exact freed.erase moment
  · intro other otherMember
    obtain ⟨different, old⟩ := (List.Nodup.mem_erase_iff orderly.once).mp otherMember
    obtain ⟨otherAway, otherData, otherFound⟩ := orderly.prepared other old
    refine ⟨otherAway, otherData, ?_⟩
    rw [Memory.erase_cells_of_ne _ different]
    exact otherFound
  · exact orderly.once.erase moment

theorem Orderly.triggerPrepared (orderly : machine.Orderly view)
    (outside : machine.control.Outside) {event moment : Nat}
    (live : machine.dispatch.events.Live event) (member : moment ∈ machine.prepared)
    (data : Data) (resultCb : Option Nat) (resultArg : Nat) :
    ∃ next, machine.triggerPrepared event data resultCb resultArg moment = .ok next ∧
      next.Orderly { view with
        queue := view.queue ++ [(moment,
          ⟨some event, some data, false, resultCb, resultArg,
            (refs (view.lists event)).head?⟩)] } ∧
      machine.Keeps next ∧
      Queues view machine.triggered next.triggered [(moment,
        ⟨some event, some data, false, resultCb, resultArg, (refs (view.lists event)).head?⟩)] ∧
      next.dispatch.destroyPending = machine.dispatch.destroyPending := by
  obtain ⟨unqueued, old, found⟩ := orderly.prepared moment member
  obtain ⟨filled, after, filling, queued, represents, same, fresh, others⟩ :=
    orderly.represents.trigger live found unqueued data resultCb resultArg
  have running : after.running = machine.dispatch.running := by rw [same.shape]
  have events : after.events = machine.dispatch.events := by rw [same.shape]
  have bindings : after.bindings = machine.dispatch.bindings := by rw [same.shape]
  have pending : after.destroyPending = machine.dispatch.destroyPending := by rw [same.shape]
  let content : MomentData Data :=
    ⟨some event, some data, false, resultCb, resultArg, (refs (view.lists event)).head?⟩
  let next : Machine Data := { machine with
    dispatch := after
    prepared := machine.prepared.erase moment
    control := if after.running.isSome then machine.control else .dispatching
    triggered := machine.triggered ++
      [⟨moment, event, Dispatcher.callbacks (machine.dispatch.listed event), resultCb⟩] }
  -- an idle machine goes to the loop, and a callback goes on
  have standing : machine.control = .idle ∧ next.control = .dispatching ∧ after.running = none ∨
      machine.control ≠ .idle ∧ next.control = machine.control := by
    by_cases idle : machine.control = .idle
    · have position := orderly.position
      rw [idle] at position
      have notRunning := running.trans position.1
      exact .inl ⟨idle, if_neg (by simp [notRunning]), notRunning⟩
    · refine .inr ⟨idle, if_pos ?_⟩
      rw [running]
      exact orderly.runs outside idle
  have untriggered : moment ∉ machine.triggered.map Trigger.moment := by
    intro before
    rcases orderly.accounted moment before with inside | freed
    · exact unqueued inside
    · exact freed.ne found rfl
  have queues : Queues view machine.triggered next.triggered [(moment, content)] := by
    simp only [next, orderly.represents.listed_eq live]
    exact .moment untriggered
  refine ⟨next, ?_, ?_, ?_, queues, pending⟩
  · simp only [Machine.triggerPrepared, filling, Exec.ok_bind, queued, Exec.pure_eq_ok]
    rfl
  · constructor
    · exact represents
    · change ∀ other, after.events.Live other → _
      rw [events]
      exact orderly.distinct
    · change ∀ other, after.events.Live other → after.running ≠ some other → _
      rw [events, running]
      exact orderly.unflagged
    · intro cell inside
      change ∃ other, _ ∧ after.events.Live other ∧ ∀ binding, _ → _ ∨ after.bindings.Freed binding
      rw [events, bindings]
      rcases List.mem_append.mp inside with before | last
      · exact orderly.captured cell before
      · obtain rfl := List.mem_singleton.mp last
        exact ⟨event, rfl, live, fun binding first => .inl (List.mem_of_mem_head? first)⟩
    · intro other otherMember
      obtain ⟨different, before⟩ := (List.Nodup.mem_erase_iff orderly.once).mp otherMember
      obtain ⟨otherAway, otherData, otherFound⟩ := orderly.prepared other before
      refine ⟨?_, otherData, (others other otherAway different).trans otherFound⟩
      simpa [different] using otherAway
    · exact orderly.once.erase moment
    · intro other otherMember
      rw [refs_append, List.mem_append]
      rw [List.map_append, List.mem_append] at otherMember
      rcases otherMember with before | last
      · rcases orderly.accounted other before with inside | freed
        · exact .inl (.inl inside)
        · refine .inr ⟨?_, ?_⟩
          · change other < after.moments.fresh
            rw [fresh]
            exact freed.1
          · change after.moments.cells other = none
            refine (others other ?_ (freed.ne found)).trans freed.2
            intro inside
            obtain ⟨⟨_, queuedData⟩, queuedMember, rfl⟩ := List.mem_map.mp inside
            obtain ⟨_, foundQueued⟩ := Segment.found orderly.represents.queue queuedMember
            exact freed.ne foundQueued rfl
      · obtain rfl := List.mem_singleton.mp last
        exact .inl (.inr List.mem_cons_self)
    · change after.freed = false
      rw [same.shape]
      exact orderly.alive
    · rcases standing with ⟨_, dispatching, notRunning⟩ | ⟨busy, control⟩
      · rw [dispatching]
        exact notRunning
      · rw [control]
        exact orderly.position.extend outside busy running rfl rfl rfl
  · constructor
    · rfl
    · exact running
    · intro other
      change after.events.Live other ↔ _
      rw [events]
    · intro asked
      exact pending.trans asked
    · rcases standing with ⟨idle, dispatching, _⟩ | ⟨_, control⟩
      · exact .inr ⟨idle, dispatching⟩
      · exact .inl control

theorem Keeps.trans {middle next : Machine Data} (first : machine.Keeps middle)
    (second : middle.Keeps next) : machine.Keeps next := by
  constructor
  · exact second.trace.trans first.trace
  · exact second.running.trans first.running
  · intro event
    exact (second.live event).trans (first.live event)
  · intro pending
    exact second.pending (first.pending pending)
  · rcases second.control with same | ⟨idle, dispatching⟩
    · rw [same]
      exact first.control
    · rcases first.control with same | ⟨_, busy⟩
      · exact .inr ⟨same ▸ idle, dispatching⟩
      · cases idle.symm.trans busy

theorem Orderly.trigger (orderly : machine.Orderly view) (outside : machine.control.Outside)
    {event : Nat} (live : machine.dispatch.events.Live event) (data : Data)
    (resultCb : Option Nat) (resultArg : Nat) :
    ∃ next, machine.perform (.trigger event data resultCb resultArg true) = .ok next ∧
      next.Orderly { view with
        queue := view.queue ++ [(machine.dispatch.moments.fresh,
          ⟨some event, some data, false, resultCb, resultArg,
            (refs (view.lists event)).head?⟩)] } ∧
      machine.Keeps next ∧
      Queues view machine.triggered next.triggered [(machine.dispatch.moments.fresh,
        ⟨some event, some data, false, resultCb, resultArg, (refs (view.lists event)).head?⟩)] ∧
      next.dispatch.destroyPending = machine.dispatch.destroyPending := by
  obtain ⟨dispatch, prepared, kept, keeps, events, pending⟩ := orderly.prepareTrigger outside
  have stillLive : dispatch.events.Live event := by
    rw [events]
    exact live
  obtain ⟨next, returned, keptAgain, keepsAgain, queues, pendingAgain⟩ :=
    kept.triggerPrepared outside stillLive
      (List.mem_append_right _ (List.mem_singleton.mpr rfl)) data resultCb resultArg
  refine ⟨next, ?_, keptAgain, keeps.trans keepsAgain, queues, pendingAgain.trans pending⟩
  simp only [perform, prepared]
  exact returned

theorem Orderly.postpone (orderly : machine.Orderly view) (outside : machine.control.Outside)
    (busy : machine.control ≠ .idle) :
    ∃ next, machine.perform .destroy = .ok next ∧ next.Orderly view ∧ machine.Keeps next ∧
      next.dispatch.destroyPending = true ∧ next.control = machine.control ∧
      next.triggered = machine.triggered := by
  have runs := orderly.runs outside busy
  refine ⟨{ machine with dispatch := { machine.dispatch with destroyPending := true } }, ?_, ?_,
    ⟨rfl, rfl, fun _ => Iff.rfl, fun _ => rfl, .inl rfl⟩, rfl, rfl, rfl⟩
  · simp [perform, Dispatcher.lsEventDispatcherDestroy, runs]
  · exact orderly.relocate
      (orderly.position.extend outside busy rfl rfl rfl (List.append_nil _).symm)

theorem Orderly.destroy (orderly : machine.Orderly view)
    (notRunning : machine.dispatch.running = none)
    (unoccupied : machine.control = .idle ∨ machine.control = .dispatching) :
    ∃ after, machine.dispatch.lsEventDispatcherDestroy = .ok after ∧
      ∀ next : Machine Data, next.dispatch = after → next.control = .idle →
        next.trace = machine.trace → next.triggered = machine.triggered → Gone machine next := by
  obtain ⟨after, destroyed, freed, moments, events, noEvents⟩ :=
    orderly.represents.destroy notRunning
  refine ⟨after, destroyed, ?_⟩
  rintro next rfl control trace triggered
  constructor
  · exact unoccupied
  · exact control
  · exact freed
  · exact trace
  · intro event live
    exact (events event live).1
  · exact noEvents
  · exact triggered
  · intro moment member
    rw [triggered] at member
    rw [moments]
    rcases orderly.accounted moment member with queued | gone
    · constructor
      · rw [Memory.eraseAll_fresh]
        exact orderly.represents.moments_lt_fresh moment queued
      · exact Memory.eraseAll_cells_of_mem _ queued
    · exact gone.eraseAll _

end Calls

section Loop

variable {machine : Machine Data} {view : View Data} {moment event : Nat}
  {data : MomentData Data} {rest : List (Nat × MomentData Data)}

theorem Processes.traced (processes : machine.Processes view moment event) (control : Control)
    (added : List Entry) :
    Processes { machine with control := control, trace := machine.trace ++ added } view moment
      event :=
  ⟨processes.running, processes.head, List.mem_append_left _ processes.begun⟩

theorem Position.ahead {passed cells : List (Nat × BindingData)} {cell : Nat × BindingData}
    (processes : machine.Processes view moment event)
    (split : view.lists event = passed ++ cell :: cells) :
    machine.Position view (.visiting moment (refs cells).head?) := by
  cases cells with
  | nil => exact ⟨event, processes⟩
  | cons next cells =>
    refine ⟨event, processes, .inl ?_⟩
    rw [split]
    simp [refs]

theorem Orderly.walk (orderly : machine.Orderly view) {control : Control} {added : List Entry}
    (processes : machine.Processes view moment event)
    (stride : Stride (view.lists event) moment data machine.control added control) :
    Orderly { machine with control := control, trace := machine.trace ++ added } view := by
  have still := processes.traced control added
  refine orderly.relocate ?_
  revert stride
  generalize machine.control = before
  intro stride
  cases stride with
  | ended => exact ⟨event, still⟩
  | skipped split _ => exact Position.ahead still split
  | called split _ =>
    refine ⟨event, still, ?_⟩
    rw [split]
    simp [refs]
  | unreported => exact ⟨event, still⟩
  | reported => exact ⟨event, still⟩
  | resumed => exact ⟨event, still⟩

theorem Orderly.found (orderly : machine.Orderly view)
    (queue : view.queue = (moment, data) :: rest) :
    ∃ next, machine.dispatch.moments.cells moment = some ⟨data, next⟩ :=
  Segment.found orderly.represents.queue (by simp [queue])

/-- The loop over bindings goes on, unless it starts from a binding that is gone. -/
theorem Orderly.visit (orderly : machine.Orderly view) {binding : Option Nat}
    (control : machine.control = .visiting moment binding) :
    (∃ event data rest reached added, machine.Processes view moment event ∧
      view.queue = (moment, data) :: rest ∧
      Stride (view.lists event) moment data machine.control added reached ∧
      machine.visit moment binding =
        .ok { machine with control := reached, trace := machine.trace ++ added }) ∨
    machine.visit moment binding = .error .useAfterFree ∧
      machine.dispatch.destroyPending = false ∧ machine.Dangles := by
  have position := orderly.position
  have dangles : ∀ here, binding = some here → machine.dispatch.bindings.Freed here →
      machine.Dangles := by
    rintro here rfl freed
    exact ⟨moment, here, control, freed⟩
  rw [control] at position ⊢
  cases binding with
  | none =>
    obtain ⟨event, processes⟩ := position
    obtain ⟨data, rest, queue, _⟩ := processes.head
    refine .inl ⟨event, data, rest, .reporting moment, [], processes, queue, .ended, ?_⟩
    rw [List.append_nil]
    rfl
  | some binding =>
    obtain ⟨event, processes, listed | ⟨freed, lasting⟩⟩ := position
    · left
      obtain ⟨data, rest, queue, _⟩ := processes.head
      obtain ⟨⟨here, content⟩, member, rfl⟩ := List.mem_map.mp listed
      obtain ⟨passed, cells, split⟩ := List.append_of_mem member
      have lists := orderly.represents.lists event (orderly.live processes)
      rw [split] at lists
      have read := Memory.read_of_some lists.found
      cases bound : content.normalBound with
      | true =>
        obtain ⟨next, found⟩ := orderly.found queue
        refine ⟨event, data, rest, _, _, processes, queue, .called split bound, ?_⟩
        simp only [Machine.visit, read, Exec.ok_bind, bound, if_true, Memory.read_of_some found,
          Exec.pure_eq_ok]
      | false =>
        refine ⟨event, data, rest, _, _, processes, queue, .skipped split bound, ?_⟩
        rw [List.append_nil]
        simp only [Machine.visit, read, Exec.ok_bind, bound, Bool.false_eq_true, if_false,
          Exec.pure_eq_ok]
    · right
      refine ⟨?_, lasting, dangles binding rfl freed⟩
      simp only [Machine.visit, Memory.read_of_none freed.2, Exec.error_bind]

theorem Orderly.report (orderly : machine.Orderly view)
    (control : machine.control = .reporting moment) :
    ∃ event data rest reached added, machine.Processes view moment event ∧
      view.queue = (moment, data) :: rest ∧
      Stride (view.lists event) moment data machine.control added reached ∧
      machine.report moment =
        .ok { machine with control := reached, trace := machine.trace ++ added } := by
  have position := orderly.position
  rw [control] at position ⊢
  obtain ⟨event, processes⟩ := position
  obtain ⟨data, rest, queue, _⟩ := processes.head
  obtain ⟨next, found⟩ := orderly.found queue
  cases resultCb : data.resultCb with
  | none =>
    refine ⟨event, data, rest, _, _, processes, queue, .unreported resultCb, ?_⟩
    rw [List.append_nil]
    simp only [Machine.report, Memory.read_of_some found, Exec.ok_bind, resultCb, Exec.pure_eq_ok]
  | some result =>
    refine ⟨event, data, rest, _, _, processes, queue, .reported resultCb, ?_⟩
    simp only [Machine.report, Memory.read_of_some found, Exec.ok_bind, resultCb, Exec.pure_eq_ok]

theorem Orderly.resume (orderly : machine.Orderly view) (outside : machine.control.Outside)
    (busy : machine.control ≠ .idle) (left : Bool) :
    ∃ next later, machine.resume left = .ok next ∧ next.Orderly later ∧
      machine.Moved view (.ret left) next later := by
  have position := orderly.position
  cases control : machine.control with
  | calling moment binding handled =>
    rw [control] at position
    obtain ⟨event, processes, listed⟩ := position
    obtain ⟨data, rest, queue, ofEvent⟩ := processes.head
    obtain ⟨⟨here, content⟩, member, rfl⟩ := List.mem_map.mp listed
    obtain ⟨passed, cells, split⟩ := List.append_of_mem member
    have lists := orderly.represents.lists event (orderly.live processes)
    rw [split] at lists
    let written : MomentData Data := { data with handled := handled || left }
    let later : View Data := { view with queue := (moment, written) :: rest }
    have headed : machine.dispatch.Represents { view with queue := (moment, data) :: rest } := by
      rw [← queue]
      exact orderly.represents
    obtain ⟨next, found, changed⟩ := headed.set_head written
    let dispatch : Dispatcher Data := { machine.dispatch with
      moments := machine.dispatch.moments.set moment ⟨written, next⟩ }
    refine ⟨{ machine with
        dispatch := dispatch
        control := .visiting moment (refs cells).head?
        trace := machine.trace ++ [.returned moment left] }, later, ?_, ?_,
      .returned processes control split queue rfl rfl rfl⟩
    · simp only [Machine.resume, control, Memory.modify_of_some found, Exec.ok_bind,
        Memory.read_of_some lists.found, Exec.pure_eq_ok]
      rfl
    · constructor
      · exact changed
      · exact orderly.distinct
      · exact orderly.unflagged
      · intro cell inside
        rcases List.mem_cons.mp inside with rfl | behind
        · exact orderly.captured (moment, data) (by simp [queue])
        · exact orderly.captured cell (by simp [queue, behind])
      · intro other otherMember
        obtain ⟨unqueued, parked, foundParked⟩ := orderly.prepared other otherMember
        rw [queue] at unqueued
        refine ⟨unqueued, parked, ?_⟩
        refine (Memory.set_cells_of_ne _ _ ?_).trans foundParked
        rintro rfl
        exact unqueued List.mem_cons_self
      · exact orderly.once
      · intro other otherMember
        rcases orderly.accounted other otherMember with inside | freed
        · rw [queue] at inside
          exact .inl inside
        · exact .inr ⟨freed.1, (Memory.set_cells_of_ne _ _ (freed.ne found)).trans freed.2⟩
      · exact orderly.alive
      · have still : Processes { machine with
            dispatch := dispatch
            control := .visiting moment (refs cells).head?
            trace := machine.trace ++ [.returned moment left] } later moment event :=
          ⟨processes.running, ⟨written, rest, rfl, ofEvent⟩,
            List.mem_append_left _ processes.begun⟩
        exact Position.ahead still split
  | resulting moment =>
    rw [control] at position
    obtain ⟨event, processes⟩ := position
    obtain ⟨data, rest, queue, _⟩ := processes.head
    have stride : Stride (view.lists event) moment data machine.control [] (.finishing moment) := by
      rw [control]
      exact .resumed
    refine ⟨_, view, ?_, orderly.walk processes stride,
      .walked processes queue stride (.inr ⟨left, rfl⟩)⟩
    rw [List.append_nil]
    simp only [Machine.resume, control, Exec.pure_eq_ok]
  | idle => exact absurd control busy
  | dispatching => rw [control] at outside; exact outside.elim
  | visiting => rw [control] at outside; exact outside.elim
  | reporting => rw [control] at outside; exact outside.elim
  | finishing => rw [control] at outside; exact outside.elim

theorem Orderly.start (orderly : machine.Orderly view) (control : machine.control = .dispatching)
    (lasting : machine.dispatch.destroyPending = false)
    (queue : view.queue = (moment, data) :: rest) :
    ∃ next later, machine.start moment = .ok next ∧ next.Orderly later ∧
      machine.Moved view .internal next later := by
  have position := orderly.position
  rw [control] at position
  have notRunning : machine.dispatch.running = none := position
  obtain ⟨event, captures, live, bound⟩ := orderly.captured (moment, data) (by simp [queue])
  have ofEvent : data.notifier = some event := captures
  let marked : Dispatcher Data := { machine.dispatch with running := some event }
  have markedRepresents : marked.Represents view :=
    ⟨orderly.represents.lists, orderly.represents.apart, orderly.represents.queue,
      orderly.represents.tail⟩
  obtain ⟨after, settled, represents, same⟩ := markedRepresents.settle live
  have running : after.running = some event := by rw [same.shape]
  have moments : after.moments = machine.dispatch.moments := by rw [same.shape]
  have pending : after.destroyPending = false := by
    rw [same.shape]
    exact lasting
  have listed := orderly.represents.listed_eq live
  obtain ⟨next, found⟩ := orderly.found queue
  let later := view.setList event (Dispatcher.settledCells (view.lists event))
  have sameRefs : ∀ other, refs (later.lists other) = refs (view.lists other) := by
    intro other
    by_cases here : other = event
    · rw [here, View.setList_lists_self, Dispatcher.Represents.refs_settled]
    · rw [View.setList_lists_of_ne _ here]
  refine ⟨{ machine with
      dispatch := after
      control := .visiting moment data.bindings
      trace := machine.trace ++
        [.started moment event (Dispatcher.callbacks (view.lists event))] }, later, ?_, ?_,
    .started control lasting queue ofEvent live running same.live pending⟩
  · have notSome : machine.dispatch.running.isSome = false := by rw [notRunning]; rfl
    simp only [Machine.start, Memory.read_of_some found, Exec.ok_bind, ofEvent, notSome, listed]
    rw [show Dispatcher.setBindStatus { machine.dispatch with running := some event } event =
      .ok after from settled]
    rfl
  · constructor
    · exact represents
    · intro other otherLive
      by_cases here : other = event
      · rw [here, View.setList_lists_self, Dispatcher.callbacks_settledCells]
        exact orderly.distinct event live
      · rw [View.setList_lists_of_ne _ here]
        exact orderly.distinct other ((same.live other).mp otherLive)
    · intro other otherLive away
      have here : other ≠ event := by
        rintro rfl
        exact away running
      rw [View.setList_lists_of_ne _ here]
      exact orderly.unflagged other ((same.live other).mp otherLive) (by simp [notRunning])
    · intro cell member
      obtain ⟨other, ofOther, otherLive, otherBound⟩ := orderly.captured cell member
      refine ⟨other, ofOther, (same.live other).mpr otherLive, ?_⟩
      intro binding captured
      rw [sameRefs other]
      exact (otherBound binding captured).imp_right (same.freed binding)
    · intro other member
      change _ ∧ ∃ parked, after.moments.cells other = _
      rw [moments]
      exact orderly.prepared other member
    · exact orderly.once
    · intro other member
      change _ ∨ after.moments.Freed other
      rw [moments]
      exact orderly.accounted other member
    · change after.freed = false
      rw [same.shape]
      exact orderly.alive
    · have begun : Processes { machine with
          dispatch := after
          control := .visiting moment data.bindings
          trace := machine.trace ++
            [.started moment event (Dispatcher.callbacks (view.lists event))] } later moment
          event := by
        refine ⟨running, ⟨data, rest, queue, ofEvent⟩, ?_⟩
        rw [View.setList_lists_self, active_settled]
        exact List.mem_append_right _ List.mem_cons_self
      change Position _ later (.visiting moment data.bindings)
      cases captured : data.bindings with
      | none =>
        rw [captured] at begun
        exact ⟨event, begun⟩
      | some binding =>
        rw [captured] at begun
        refine ⟨event, begun, ?_⟩
        rw [sameRefs event]
        exact (bound binding captured).imp_right fun freed => ⟨same.freed binding freed, pending⟩

theorem Orderly.finish (orderly : machine.Orderly view)
    (control : machine.control = .finishing moment) :
    ∃ next later, machine.advance = .ok next ∧ next.Orderly later ∧
      machine.Moved view .internal next later := by
  have position := orderly.position
  rw [control] at position
  obtain ⟨event, processes⟩ := position
  have live := orderly.live processes
  obtain ⟨data, rest, queue, ofEvent⟩ := processes.head
  have headed : machine.dispatch.Represents { view with queue := (moment, data) :: rest } := by
    rw [← queue]
    exact orderly.represents
  obtain ⟨after, finished, represents, moments, notRunning, pending, alive, sameLive, freed,
    gone⟩ := headed.finishMoment ofEvent live
  obtain ⟨next, found⟩ := orderly.found queue
  let later := View.setList { view with queue := rest } event
    (Dispatcher.sweptCells (view.lists event))
  refine ⟨{ machine with
      dispatch := after
      control := .dispatching
      trace := machine.trace ++ [.finished moment] }, later, ?_, ?_,
    .finished processes control queue notRunning pending sameLive⟩
  · simp only [Machine.advance, control, finished, Exec.ok_bind, Exec.pure_eq_ok]
  · constructor
    · exact represents
    · intro other otherLive
      by_cases here : other = event
      · rw [here, View.setList_lists_self]
        exact (orderly.distinct event live).sublist (Dispatcher.callbacks_sweptCells_sublist _)
      · rw [View.setList_lists_of_ne _ here]
        exact orderly.distinct other ((sameLive other).mp otherLive)
    · intro other otherLive _ cell member
      by_cases here : other = event
      · rw [here, View.setList_lists_self] at member
        simpa using (List.mem_filter.mp member).2
      · rw [View.setList_lists_of_ne _ here] at member
        apply orderly.unflagged other ((sameLive other).mp otherLive) _ cell member
        rw [processes.running]
        exact fun same => here (Option.some.inj same).symm
    · intro cell member
      obtain ⟨other, ofOther, otherLive, bound⟩ :=
        orderly.captured cell (by rw [queue]; exact List.mem_cons_of_mem _ member)
      refine ⟨other, ofOther, (sameLive other).mpr otherLive, ?_⟩
      intro binding captured
      rcases bound binding captured with listed | lost
      · by_cases here : other = event
        · subst here
          rw [View.setList_lists_self]
          obtain ⟨⟨_, content⟩, inside, rfl⟩ := List.mem_map.mp listed
          by_cases flagged : content.unbound = true
          · exact .inr (gone _ inside flagged)
          · exact .inl (List.mem_map_of_mem
              (List.mem_filter.mpr ⟨inside, by simpa using flagged⟩))
        · rw [View.setList_lists_of_ne _ here]
          exact .inl listed
      · exact .inr (freed binding lost)
    · intro other member
      obtain ⟨unqueued, parked, foundParked⟩ := orderly.prepared other member
      rw [queue, refs_cons, List.mem_cons, not_or] at unqueued
      refine ⟨unqueued.2, parked, ?_⟩
      change after.moments.cells other = _
      rw [moments, Memory.erase_cells_of_ne _ unqueued.1]
      exact foundParked
    · exact orderly.once
    · intro other member
      change _ ∨ after.moments.Freed other
      rw [moments]
      rcases orderly.accounted other member with inside | lost
      · rw [queue, refs_cons, List.mem_cons] at inside
        rcases inside with rfl | behind
        · exact .inr (Memory.freed_erase found)
        · exact .inl behind
      · exact .inr (lost.erase moment)
    · exact alive.trans orderly.alive
    · exact notRunning

theorem Orderly.dispatchNext (orderly : machine.Orderly view)
    (control : machine.control = .dispatching) :
    ∃ next, machine.dispatchNext = .ok next ∧
      ((∃ later, next.Orderly later ∧ machine.Moved view .internal next later) ∨
        Gone machine next ∧ machine.dispatch.destroyPending = true) := by
  have position := orderly.position
  rw [control] at position
  unfold Machine.dispatchNext
  by_cases pending : machine.dispatch.destroyPending = true
  · obtain ⟨after, destroyed, gone⟩ := orderly.destroy position (.inr control)
    refine ⟨{ machine with dispatch := after, control := .idle }, ?_,
      .inr ⟨gone _ rfl rfl rfl rfl, pending⟩⟩
    rw [if_pos pending, destroyed]
    rfl
  · rw [if_neg pending]
    rw [Bool.not_eq_true] at pending
    have headIs := Chain.start_eq_head orderly.represents.queue
    cases queue : view.queue with
    | nil =>
      rw [queue] at headIs
      rw [headIs]
      exact ⟨{ machine with control := .idle }, rfl,
        .inl ⟨view, orderly.relocate ⟨position, queue, pending⟩, .rested control pending queue⟩⟩
    | cons cell rest =>
      obtain ⟨moment, data⟩ := cell
      rw [queue] at headIs
      rw [headIs]
      obtain ⟨next, later, started, kept, moved⟩ := orderly.start control pending queue
      exact ⟨next, started, .inl ⟨later, kept, moved⟩⟩

end Loop

theorem Keeps.refl {machine : Machine Data} : machine.Keeps machine :=
  ⟨rfl, rfl, fun _ => Iff.rfl, id, .inl rfl⟩

theorem Keeps.asked {machine next : Machine Data} {view : View Data} {request : EventCall Data}
    (keeps : machine.Keeps next)
    (binds : ∀ event cb arg granted, request ≠ .bind event cb arg granted)
    (unbinds : ∀ event cb, request ≠ .unbind event cb)
    (triggered : next.triggered = machine.triggered)
    (pending : request = .destroy ∨
      next.dispatch.destroyPending = machine.dispatch.destroyPending) :
    machine.Moved view (.call request) next view := by
  have moved : machine.Moved view (.call request) next { view with queue := view.queue ++ [] } :=
    .asked binds unbinds keeps (triggered ▸ .nothing) pending
  rwa [List.append_nil] at moved

/-- An enabled step returns, and keeps order or destroys the dispatcher when that was asked for,
unless the loop reads a binding that is gone; it never does so once the destruction of the
dispatcher was asked for. -/
theorem Orderly.step {machine : Machine Data} {view : View Data} (orderly : machine.Orderly view)
    {label : EventLabel Data} (enabled : (tolerantSystem Data).Enabled machine label) :
    (∃ next, (tolerantSystem Data).step machine label = .ok next ∧
      ((∃ later, next.Orderly later ∧ machine.Moved view label next later) ∨
        Gone machine next ∧
          (label = .call .destroy ∨ machine.dispatch.destroyPending = true))) ∨
    (tolerantSystem Data).step machine label = .error .useAfterFree ∧
      machine.dispatch.destroyPending = false ∧ machine.Dangles := by
  cases label with
  | internal =>
    change (∃ next, machine.advance = .ok next ∧ _) ∨ machine.advance = _ ∧ _
    cases control : machine.control with
    | dispatching =>
      obtain ⟨next, returned, outcome⟩ := orderly.dispatchNext control
      refine .inl ⟨next, by rw [advance, control]; exact returned, ?_⟩
      exact outcome.imp_right fun gone => ⟨gone.1, .inr gone.2⟩
    | visiting moment binding =>
      rcases orderly.visit control with
        ⟨event, data, rest, reached, added, processes, queue, stride, returned⟩ | faulted
      · exact .inl ⟨_, by rw [advance, control]; exact returned,
          .inl ⟨view, orderly.walk processes stride, .walked processes queue stride (.inl rfl)⟩⟩
      · exact .inr ⟨by rw [advance, control]; exact faulted.1, faulted.2⟩
    | reporting moment =>
      obtain ⟨event, data, rest, reached, added, processes, queue, stride, returned⟩ :=
        orderly.report control
      exact .inl ⟨_, by rw [advance, control]; exact returned,
        .inl ⟨view, orderly.walk processes stride, .walked processes queue stride (.inl rfl)⟩⟩
    | finishing moment =>
      obtain ⟨next, later, returned, kept, moved⟩ := orderly.finish control
      exact .inl ⟨next, returned, .inl ⟨later, kept, moved⟩⟩
    | idle => exact absurd (by rw [control]; trivial) enabled
    | calling => exact absurd (by rw [control]; trivial) enabled
    | resulting => exact absurd (by rw [control]; trivial) enabled
  | ret left =>
    obtain ⟨next, later, returned, kept, moved⟩ := orderly.resume enabled.1 enabled.2 left
    exact .inl ⟨next, returned, .inl ⟨later, kept, moved⟩⟩
  | call request =>
    obtain ⟨outside, _, allowed⟩ := enabled
    left
    change ∃ next, machine.perform request = .ok next ∧ _
    cases request with
    | bind event cb arg granted =>
      obtain ⟨next, later, returned, kept, moved⟩ := orderly.bind outside allowed cb arg granted
      exact ⟨next, returned, .inl ⟨later, kept, moved⟩⟩
    | unbind event cb =>
      obtain ⟨next, later, returned, kept, moved⟩ := orderly.unbind outside allowed.1 allowed.2
      exact ⟨next, returned, .inl ⟨later, kept, moved⟩⟩
    | prepareTrigger granted =>
      cases granted with
      | false =>
        exact ⟨machine, rfl,
          .inl ⟨view, orderly, Keeps.refl.asked (by simp) (by simp) rfl (.inr rfl)⟩⟩
      | true =>
        obtain ⟨dispatch, prepared, kept, keeps, _, pending⟩ := orderly.prepareTrigger outside
        refine ⟨_, ?_, .inl ⟨view, kept, keeps.asked (by simp) (by simp) rfl (.inr pending)⟩⟩
        simp only [perform, prepared, Exec.pure_eq_ok]
    | unprepareTrigger moment =>
      obtain ⟨next, returned, kept, keeps, triggered, pending⟩ :=
        orderly.unprepareTrigger outside allowed
      exact ⟨next, returned,
        .inl ⟨view, kept, keeps.asked (by simp) (by simp) triggered (.inr pending)⟩⟩
    | trigger event data resultCb resultArg granted =>
      cases granted with
      | false =>
        exact ⟨machine, rfl,
          .inl ⟨view, orderly, Keeps.refl.asked (by simp) (by simp) rfl (.inr rfl)⟩⟩
      | true =>
        obtain ⟨next, returned, kept, keeps, queues, pending⟩ :=
          orderly.trigger outside allowed data resultCb resultArg
        exact ⟨next, returned,
          .inl ⟨_, kept, .asked (by simp) (by simp) keeps queues (.inr pending)⟩⟩
    | triggerPrepared event data resultCb resultArg moment =>
      obtain ⟨next, returned, kept, keeps, queues, pending⟩ :=
        orderly.triggerPrepared outside allowed.1 allowed.2 data resultCb resultArg
      exact ⟨next, returned,
        .inl ⟨_, kept, .asked (by simp) (by simp) keeps queues (.inr pending)⟩⟩
    | destroy =>
      by_cases idle : machine.control = .idle
      · have position := orderly.position
        rw [idle] at position
        obtain ⟨after, destroyed, gone⟩ := orderly.destroy position.1 (.inl idle)
        refine ⟨{ machine with dispatch := after }, ?_, .inr ⟨gone _ rfl idle rfl rfl, .inl rfl⟩⟩
        simp only [perform, destroyed, Exec.ok_bind, Exec.pure_eq_ok]
      · obtain ⟨next, returned, kept, keeps, _, _, triggered⟩ := orderly.postpone outside idle
        exact ⟨next, returned,
          .inl ⟨view, kept, keeps.asked (by simp) (by simp) triggered (.inl rfl)⟩⟩

theorem Gone.stops {before machine : Machine Data} (gone : Gone before machine)
    (label : EventLabel Data) : ¬ (tolerantSystem Data).Enabled machine label := by
  intro enabled
  cases label with
  | internal => exact enabled (by rw [gone.control]; trivial)
  | ret left => exact enabled.2 gone.control
  | call request =>
    have alive := enabled.2.1
    rw [gone.freed] at alive
    cases alive

theorem Initial.orderly {start : Machine Data} (initial : start.Initial) :
    start.Orderly ⟨fun _ => [], []⟩ := by
  constructor
  · refine ⟨?_, ?_, initial.nextMoment, initial.momentQueueTail⟩
    · rintro event ⟨notifier, found⟩
      exact ⟨notifier, found, initial.unbound event notifier found⟩
    · intro event other _ _ _ binding member
      cases member
  · intro event _
    exact List.nodup_nil
  · intro event _ _ cell member
    cases member
  · intro cell member
    cases member
  · intro moment member
    rw [initial.prepared] at member
    cases member
  · rw [initial.prepared]
    exact List.nodup_nil
  · intro moment member
    rw [initial.triggered] at member
    cases member
  · exact initial.freed
  · rw [initial.control]
    exact ⟨initial.running, rfl, initial.destroyPending⟩

/-- Every run leads to an orderly machine, or to one whose dispatcher is gone. -/
theorem orderly_of_run {start machine : Machine Data} {labels : List (EventLabel Data)}
    (initial : start.Initial) (run : (tolerantSystem Data).Run start labels machine) :
    (∃ view, machine.Orderly view) ∨ ∃ before, Gone before machine := by
  refine run.preserves
    (fun machine => (∃ view, machine.Orderly view) ∨ ∃ before, Gone before machine)
    ?_ (.inl ⟨_, initial.orderly⟩)
  rintro before label after (⟨view, orderly⟩ | ⟨_, gone⟩) enabled stepped
  · rcases orderly.step enabled with ⟨next, returned, outcome⟩ | ⟨faulted, _⟩
    · cases stepped.symm.trans returned
      rcases outcome with ⟨later, kept, _⟩ | ⟨gone, _⟩
      · exact .inl ⟨later, kept⟩
      · exact .inr ⟨before, gone⟩
    · cases stepped.symm.trans faulted
  · exact absurd enabled (gone.stops label)

end Machine

end SpudLib
