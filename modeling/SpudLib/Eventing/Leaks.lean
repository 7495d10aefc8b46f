import SpudLib.Eventing.Destruction

/-!
# What a dispatcher holds in memory

Bindings, moments and events are allocated one by one and nothing but a list or
a queue leads to them.  No binding is ever out of reach of the lists of the
events and no moment out of reach of the queue and of the callers that prepared
it, so a dispatcher that is destroyed leaves only triggers that were prepared and
neither used nor given back.
-/

namespace SpudLib

open Link

variable {Data : Type}

namespace Dispatcher

section Bindings

variable {dispatch after : Dispatcher Data} {view : View Data} {event cb arg binding : Nat}
  {cells : List (Nat × BindingData)}

theorem Lists.live (lists : dispatch.Lists event cells) (member : binding ∈ refs cells) :
    dispatch.bindings.Live binding := by
  obtain ⟨_, _, chain⟩ := lists
  obtain ⟨⟨_, data⟩, inside, rfl⟩ := List.mem_map.mp member
  obtain ⟨next, found⟩ := Segment.found chain inside
  exact ⟨_, found⟩

theorem Edits.live {owned : List Nat} (edits : Edits dispatch event owned after)
    (lists : dispatch.Lists event cells) (listed : ∀ mine ∈ owned, mine ∈ refs cells)
    (live : after.bindings.Live binding) : dispatch.bindings.Live binding := by
  by_cases mine : binding ∈ owned
  · exact lists.live (listed binding mine)
  · obtain ⟨cell, found⟩ := live
    exact ⟨cell, (edits.outside binding mine).symm.trans found⟩

theorem Represents.bind_live (represents : dispatch.Represents view)
    (eventLive : dispatch.events.Live event) {granted bound : Bool}
    (returned : dispatch.lsEventBind event cb arg granted = .ok (bound, after)) :
    after.moments = dispatch.moments ∧ ∀ binding, after.bindings.Live binding →
      dispatch.bindings.Live binding ∨
        binding ∈ refs (boundCells cb arg dispatch.bindings.fresh (view.lists event)) := by
  have lists := represents.lists event eventLive
  by_cases known : cb ∈ callbacks (view.lists event)
  · obtain ⟨front, here, data, back, split, absent, matching⟩ := split_at_callback known
    rw [split] at lists
    obtain ⟨_, again, _, edits⟩ := lsEventBind_found arg granted lists absent matching
    cases returned.symm.trans again
    refine ⟨by rw [edits.shape], fun binding live => .inl (edits.live lists ?_ live)⟩
    intro mine member
    simp only [refs_append, refs_cons, List.mem_append, List.mem_cons] at member ⊢
    tauto
  · have absent : ∀ cell ∈ view.lists event, cell.2.cb ≠ cb := fun cell member same =>
      known (mem_callbacks.mpr ⟨cell, member, same⟩)
    cases granted with
    | false =>
      cases returned.symm.trans (lsEventBind_refused arg lists absent)
      exact ⟨rfl, fun _ live => .inl live⟩
    | true =>
      obtain ⟨_, again, _, edits⟩ := lsEventBind_missing arg lists absent
      cases returned.symm.trans again
      refine ⟨by rw [edits.shape], fun binding live => ?_⟩
      rw [boundCells_missing absent]
      by_cases new : binding = dispatch.bindings.fresh
      · exact .inr (by simp [new])
      · by_cases listed : binding ∈ refs (view.lists event)
        · exact .inl (lists.live listed)
        · obtain ⟨cell, found⟩ := live
          refine .inl ⟨cell, (edits.outside binding ?_).symm.trans found⟩
          simp [new, listed]

theorem Represents.unbind_live (represents : dispatch.Represents view)
    (eventLive : dispatch.events.Live event)
    (known : dispatch.running = some event → cb ∈ callbacks (view.lists event))
    (returned : dispatch.lsEventUnbind event cb = .ok after) :
    after.moments = dispatch.moments ∧ ∀ binding, after.bindings.Live binding →
      dispatch.bindings.Live binding ∧ (binding ∈ refs (view.lists event) →
        binding ∈ refs (if dispatch.running = some event then flaggedCells cb (view.lists event)
          else unboundCells cb (view.lists event))) := by
  have lists := represents.lists event eventLive
  by_cases bound : cb ∈ callbacks (view.lists event)
  · obtain ⟨_, again, _, same, gone⟩ := represents.unbind eventLive bound
    cases returned.symm.trans again
    obtain ⟨front, here, data, back, split, absent, matching⟩ := split_at_callback bound
    refine ⟨by rw [same.shape], fun binding live => ⟨?_, fun listed => ?_⟩⟩
    · rw [split] at lists
      by_cases running : dispatch.running = some event
      · obtain ⟨_, again, _, edits⟩ := lsEventUnbind_running running lists absent matching
        cases returned.symm.trans again
        exact edits.live lists (by simp) live
      · obtain ⟨_, again, _, edits, _⟩ := lsEventUnbind_found running lists absent matching
        cases returned.symm.trans again
        apply edits.live lists _ live
        intro mine member
        simp only [refs_append, refs_cons, List.mem_append, List.mem_cons] at member ⊢
        tauto
    · split
      next => exact Machine.refs_subset_of_grown (flaggedCells_grown cb _) listed
      next running =>
        obtain ⟨cell, found⟩ := live
        refine ((gone binding listed).resolve_left running).resolve_right ?_
        intro freed
        cases freed.2.symm.trans found
  · have running : dispatch.running ≠ some event := fun running => bound (known running)
    have absent : ∀ cell ∈ view.lists event, cell.2.cb ≠ cb := fun cell member same =>
      bound (mem_callbacks.mpr ⟨cell, member, same⟩)
    cases returned.symm.trans (lsEventUnbind_missing running lists absent)
    refine ⟨rfl, fun binding live => ⟨live, fun listed => ?_⟩⟩
    rw [if_neg running, unboundCells, List.eraseP_of_forall_not (by simpa using absent)]
    exact listed

theorem Represents.finishMoment_live {moment : Nat} {data : MomentData Data}
    {rest : List (Nat × MomentData Data)}
    (represents : dispatch.Represents { view with queue := (moment, data) :: rest })
    (ofEvent : data.notifier = some event) (eventLive : dispatch.events.Live event)
    (returned : dispatch.finishMoment moment = .ok after) (live : after.bindings.Live binding) :
    dispatch.bindings.Live binding ∧ (binding ∈ refs (view.lists event) →
      binding ∈ refs (sweptCells (view.lists event))) := by
  have lists := represents.lists event eventLive
  obtain ⟨_, again, _, _, _, _, _, _, _, gone⟩ := represents.finishMoment ofEvent eventLive
  cases returned.symm.trans again
  constructor
  · obtain ⟨_, next, found, _⟩ := represents.queue
    obtain ⟨swept, sweeping, _, edits, _⟩ := processPendingUnbinds_ok lists
    simp only [Dispatcher.finishMoment, Memory.read_of_some found, Exec.ok_bind, ofEvent,
      sweeping] at returned
    obtain ⟨moments, _, rebuilt⟩ := Exec.bind_eq_ok.mp returned
    cases rebuilt
    exact edits.live lists (fun _ mine => mine) live
  · intro listed
    obtain ⟨⟨_, content⟩, inside, rfl⟩ := List.mem_map.mp listed
    apply List.mem_map_of_mem
    apply List.mem_filter.mpr
    refine ⟨inside, ?_⟩
    cases flagged : content.unbound with
    | false => rfl
    | true =>
      obtain ⟨cell, found⟩ := live
      cases (gone _ inside flagged).2.symm.trans found

theorem Represents.settle_live (represents : dispatch.Represents view)
    (eventLive : dispatch.events.Live event) (returned : dispatch.setBindStatus event = .ok after) :
    after.moments = dispatch.moments ∧ ∀ binding, after.bindings.Live binding →
      dispatch.bindings.Live binding := by
  obtain ⟨_, again, _, edits⟩ := setBindStatus_ok (represents.lists event eventLive)
  cases returned.symm.trans again
  refine ⟨by rw [edits.shape], fun binding live => ?_⟩
  exact edits.live (represents.lists event eventLive) (fun _ mine => mine) live

theorem Represents.destroy_live (represents : dispatch.Represents view)
    (notRunning : dispatch.running = none)
    (returned : dispatch.lsEventDispatcherDestroy = .ok after)
    (live : after.bindings.Live binding) : dispatch.bindings.Live binding := by
  let events := (List.range dispatch.events.fresh).filter
    fun event => (dispatch.events.cells event).isSome
  have held : ∀ event ∈ events, dispatch.events.Live event := fun event member =>
    Option.isSome_iff_exists.mp (List.mem_filter.mp member).2
  have emptied := destroyMoments_ok represents.queue (Chain.length_le_fresh represents.queue)
  have cleaned := @cleanEvents_ok Data
    { dispatch with moments := dispatch.moments.eraseAll (refs view.queue) } events view.lists
    (fun event member => represents.lists event (held event member)) (List.nodup_range.filter _)
    (fun event member other otherMember =>
      represents.apart event other (held event member) (held other otherMember))
  have idle : dispatch.running.isSome = false := by rw [notRunning]; rfl
  simp only [lsEventDispatcherDestroy, idle, Bool.false_eq_true, if_false, emptied,
    Exec.ok_bind] at returned
  obtain ⟨last, folded, rebuilt⟩ := Exec.bind_eq_ok.mp returned
  cases folded.symm.trans cleaned
  cases rebuilt
  exact (Memory.live_of_eraseAll live).2

end Bindings

end Dispatcher

namespace Machine

variable {machine next : Machine Data} {view later : View Data} {label : EventLabel Data}

/-- Every binding is in the list of an event, and every moment is queued or
prepared. -/
structure Reached (machine : Machine Data) (view : View Data) : Prop where
  bindings : ∀ binding, machine.dispatch.bindings.Live binding →
    ∃ event, machine.dispatch.events.Live event ∧ binding ∈ refs (view.lists event)
  moments : ∀ moment, machine.dispatch.moments.Live moment →
    moment ∈ refs view.queue ∨ moment ∈ machine.prepared

/-- A step that keeps the bindings, or frees those it takes out of a list. -/
theorem Reached.bindings_setList (reached : machine.Reached view) {event : Nat}
    {cells : List (Nat × BindingData)}
    (live : ∀ other, next.dispatch.events.Live other ↔ machine.dispatch.events.Live other)
    (kept : ∀ binding, next.dispatch.bindings.Live binding →
      machine.dispatch.bindings.Live binding ∧
        (binding ∈ refs (view.lists event) → binding ∈ refs cells) ∨
      machine.dispatch.events.Live event ∧ binding ∈ refs cells) :
    ∀ binding, next.dispatch.bindings.Live binding → ∃ other, next.dispatch.events.Live other ∧
      binding ∈ refs ((view.setList event cells).lists other) := by
  intro binding still
  rcases kept binding still with ⟨before, stays⟩ | ⟨eventLive, listed⟩
  · obtain ⟨other, otherLive, listed⟩ := reached.bindings binding before
    refine ⟨other, (live other).mpr otherLive, ?_⟩
    by_cases here : other = event
    · subst here
      rw [View.setList_lists_self]
      exact stays listed
    · rw [View.setList_lists_of_ne _ here]
      exact listed
  · refine ⟨event, (live event).mpr eventLive, ?_⟩
    rw [View.setList_lists_self]
    exact listed

theorem Reached.of_represents (reached : machine.Reached view)
    (represents : machine.dispatch.Represents view)
    (again : machine.dispatch.Represents later) : machine.Reached later := by
  constructor
  · intro binding live
    obtain ⟨event, eventLive, listed⟩ := reached.bindings binding live
    refine ⟨event, eventLive, ?_⟩
    rw [← again.listed_eq eventLive, represents.listed_eq eventLive]
    exact listed
  · intro moment live
    rw [← again.queued_eq, represents.queued_eq]
    exact reached.moments moment live

theorem Reached.prepareTrigger (reached : machine.Reached view) :
    Reached
      { machine with
        dispatch := (machine.dispatch.prepareTrigger true).2
        prepared := machine.prepared ++ [machine.dispatch.moments.fresh] } view := by
  refine ⟨reached.bindings, ?_⟩
  rintro moment ⟨cell, found⟩
  by_cases new : moment = machine.dispatch.moments.fresh
  · exact .inr (List.mem_append_right _ (List.mem_singleton.mpr new))
  · have before : machine.dispatch.moments.cells moment = some cell :=
      (Memory.alloc_cells_of_ne _ _ new).symm.trans found
    exact (reached.moments moment ⟨cell, before⟩).imp_right (List.mem_append_left _)

theorem Reached.unprepareTrigger (reached : machine.Reached view) {moment : Nat}
    (returned : machine.perform (.unprepareTrigger moment) = .ok next) : next.Reached view := by
  obtain ⟨moments, freed, rebuilt⟩ := Exec.bind_eq_ok.mp returned
  cases rebuilt
  refine ⟨reached.bindings, ?_⟩
  unfold Memory.free at freed
  split at freed
  next =>
    cases freed
    intro other live
    obtain ⟨different, before⟩ := Memory.live_of_erase live
    exact (reached.moments other before).imp_right (List.mem_erase_of_ne different).mpr
  next => cases freed

theorem Reached.triggerPrepared (reached : machine.Reached view) (orderly : machine.Orderly view)
    {event moment : Nat} (live : machine.dispatch.events.Live event)
    (member : moment ∈ machine.prepared) {data : Data} {resultCb : Option Nat} {resultArg : Nat}
    (returned : machine.triggerPrepared event data resultCb resultArg moment = .ok next)
    (again : next.dispatch.Represents later) : next.Reached later := by
  obtain ⟨unqueued, old, found⟩ := orderly.prepared moment member
  obtain ⟨filled, after, filling, queued, represents, same, _, others⟩ :=
    orderly.represents.trigger live found unqueued data resultCb resultArg
  simp only [Machine.triggerPrepared, filling, Exec.ok_bind, queued, Exec.pure_eq_ok] at returned
  cases returned
  refine Reached.of_represents ?_ represents again
  have bindings : after.bindings = machine.dispatch.bindings := by rw [same.shape]
  have events : after.events = machine.dispatch.events := by rw [same.shape]
  constructor
  · change ∀ binding, after.bindings.Live binding → ∃ other, after.events.Live other ∧ _
    rw [bindings, events]
    exact reached.bindings
  · intro other otherLive
    change other ∈ refs (view.queue ++ _) ∨ other ∈ machine.prepared.erase moment
    rw [refs_append, List.mem_append]
    by_cases here : other = moment
    · exact .inl (.inr (by simp [here]))
    · by_cases inside : other ∈ refs view.queue
      · exact .inl (.inl inside)
      · obtain ⟨cell, foundAfter⟩ := otherLive
        have before := (others other inside here).symm.trans foundAfter
        rcases reached.moments other ⟨cell, before⟩ with inside | parked
        · exact .inl (.inl inside)
        · exact .inr ((List.mem_erase_of_ne here).mpr parked)

theorem Reached.perform (reached : machine.Reached view) (orderly : machine.Orderly view)
    (outside : machine.control.Outside) {request : EventCall Data}
    (tolerated : machine.Tolerated request)
    (binds : ∀ event cb arg granted, request ≠ .bind event cb arg granted)
    (unbinds : ∀ event cb, request ≠ .unbind event cb)
    (returned : machine.perform request = .ok next) (kept : next.Orderly later) :
    next.Reached later := by
  cases request with
  | bind event cb arg granted => exact absurd rfl (binds event cb arg granted)
  | unbind event cb => exact absurd rfl (unbinds event cb)
  | prepareTrigger granted =>
    cases granted with
    | false =>
      cases returned
      exact reached.of_represents orderly.represents kept.represents
    | true =>
      obtain ⟨dispatch, prepared, onward, _, _⟩ := orderly.prepareTrigger outside
      cases prepared
      cases returned
      exact reached.prepareTrigger.of_represents onward.represents kept.represents
  | unprepareTrigger moment =>
    obtain ⟨_, again, onward, _⟩ := orderly.unprepareTrigger outside tolerated
    cases returned.symm.trans again
    exact (reached.unprepareTrigger returned).of_represents onward.represents kept.represents
  | trigger event data resultCb resultArg granted =>
    cases granted with
    | false =>
      cases returned
      exact reached.of_represents orderly.represents kept.represents
    | true =>
      obtain ⟨dispatch, prepared, onward, _, events, _⟩ := orderly.prepareTrigger outside
      cases prepared
      exact reached.prepareTrigger.triggerPrepared onward tolerated
        (List.mem_append_right _ (List.mem_singleton.mpr rfl)) returned kept.represents
  | triggerPrepared event data resultCb resultArg moment =>
    exact reached.triggerPrepared orderly tolerated.1 tolerated.2 returned kept.represents
  | destroy =>
    obtain ⟨dispatch, destroyed, rebuilt⟩ := Exec.bind_eq_ok.mp returned
    cases rebuilt
    unfold Dispatcher.lsEventDispatcherDestroy at destroyed
    split at destroyed
    next =>
      cases destroyed
      exact Reached.of_represents ⟨reached.bindings, reached.moments⟩
        ⟨orderly.represents.lists, orderly.represents.apart, orderly.represents.queue,
          orderly.represents.tail⟩ kept.represents
    next =>
      obtain ⟨emptied, _, destroyed⟩ := Exec.bind_eq_ok.mp destroyed
      obtain ⟨cleaned, _, rebuilt⟩ := Exec.bind_eq_ok.mp destroyed
      cases rebuilt
      cases kept.alive

/-- As long as the dispatcher lives, every step keeps what is allocated in reach. -/
theorem Moved.reached (moved : machine.Moved view label next later)
    (reached : machine.Reached view) (orderly : machine.Orderly view) (kept : next.Orderly later)
    (enabled : (tolerantSystem Data).Enabled machine label)
    (stepped : (tolerantSystem Data).step machine label = .ok next) : next.Reached later := by
  cases moved with
  | refused => exact reached
  | @bound event cb arg granted dispatch _ keeps =>
    obtain ⟨⟨bound, after⟩, returned, rebuilt⟩ := Exec.bind_eq_ok.mp stepped
    obtain rfl : after = dispatch := congrArg Machine.dispatch (Except.ok.inj rebuilt)
    have live : machine.dispatch.events.Live event := enabled.2.2
    obtain ⟨moments, bindings⟩ := orderly.represents.bind_live live returned
    constructor
    · apply reached.bindings_setList keeps.live
      intro binding still
      rcases bindings binding still with before | listed
      · exact .inl ⟨before, fun listed => refs_subset_of_grown (boundCells_grown ..) listed⟩
      · exact .inr ⟨live, listed⟩
    · change ∀ moment, after.moments.Live moment → _
      rw [moments]
      exact reached.moments
  | @unbound event cb dispatch keeps =>
    obtain ⟨after, returned, rebuilt⟩ := Exec.bind_eq_ok.mp stepped
    obtain rfl : after = dispatch := congrArg Machine.dispatch (Except.ok.inj rebuilt)
    obtain ⟨live, known⟩ : machine.Tolerated (.unbind event cb) := enabled.2.2
    rw [orderly.represents.listed_eq live] at known
    obtain ⟨moments, bindings⟩ := orderly.represents.unbind_live live known returned
    constructor
    · apply reached.bindings_setList keeps.live
      exact fun binding still => .inl (bindings binding still)
    · change ∀ moment, after.moments.Live moment → _
      rw [moments]
      exact reached.moments
  | asked binds unbinds =>
    exact reached.perform orderly enabled.1 enabled.2.2 binds unbinds stepped kept
  | rested => exact ⟨reached.bindings, reached.moments⟩
  | @started moment event data rest dispatch control lasting queue ofEvent live running sameLive =>
    have headIs := Chain.start_eq_head orderly.represents.queue
    rw [queue] at headIs
    obtain ⟨_, found⟩ := orderly.found queue
    change machine.advance = _ at stepped
    have notRunning : machine.dispatch.running.isSome = false := by
      have position := orderly.position
      rw [control] at position
      rw [show machine.dispatch.running = none from position]
      rfl
    simp only [advance, control, dispatchNext, lasting, Bool.false_eq_true, if_false, headIs,
      refs_cons, List.head?_cons] at stepped
    simp only [Machine.start, Memory.read_of_some found, Exec.ok_bind, ofEvent, notRunning,
      Bool.false_eq_true, if_false] at stepped
    obtain ⟨settled, returned, rebuilt⟩ := Exec.bind_eq_ok.mp stepped
    have same : settled = dispatch :=
      congrArg Machine.dispatch (Except.ok.inj rebuilt)
    subst same
    have represents : Dispatcher.Represents { machine.dispatch with running := some event } view :=
      ⟨orderly.represents.lists, orderly.represents.apart, orderly.represents.queue,
        orderly.represents.tail⟩
    obtain ⟨moments, bindings⟩ := represents.settle_live live returned
    constructor
    · apply reached.bindings_setList sameLive
      intro binding still
      refine .inl ⟨bindings binding still, fun listed => ?_⟩
      rw [Dispatcher.Represents.refs_settled]
      exact listed
    · change ∀ moment, settled.moments.Live moment → _
      rw [moments]
      exact reached.moments
  | walked => exact ⟨reached.bindings, reached.moments⟩
  | @returned moment event binding handled left passed content cells data rest dispatch processes
      control split queue =>
    change machine.resume left = _ at stepped
    obtain ⟨_, found⟩ := orderly.found queue
    have lists := orderly.represents.lists event (orderly.live processes)
    rw [split] at lists
    simp only [resume, control, Memory.modify_of_some found, Exec.ok_bind,
      Memory.read_of_some lists.found, Exec.pure_eq_ok] at stepped
    have same := congrArg Machine.dispatch (Except.ok.inj stepped)
    dsimp only at same
    subst same
    refine ⟨reached.bindings, ?_⟩
    intro other live
    have before := reached.moments other (Memory.live_of_set live)
    rw [queue] at before
    exact before
  | @finished moment event data rest dispatch processes control queue _ _ sameLive =>
    change machine.advance = _ at stepped
    simp only [advance, control] at stepped
    obtain ⟨after, returned, rebuilt⟩ := Exec.bind_eq_ok.mp stepped
    have same : after = dispatch := congrArg Machine.dispatch (Except.ok.inj rebuilt)
    subst same
    have headed : machine.dispatch.Represents { view with queue := (moment, data) :: rest } := by
      rw [← queue]
      exact orderly.represents
    obtain ⟨first, others, again, ofEvent⟩ := processes.head
    cases queue.symm.trans again
    have live := orderly.live processes
    obtain ⟨_, finished, _, moments, _⟩ := headed.finishMoment ofEvent live
    cases returned.symm.trans finished
    constructor
    · refine reached.bindings_setList sameLive ?_
      exact fun binding still =>
        .inl (headed.finishMoment_live ofEvent live returned still)
    · intro other otherLive
      change after.moments.Live other at otherLive
      rw [moments] at otherLive
      obtain ⟨different, before⟩ := Memory.live_of_erase otherLive
      have inside := reached.moments other before
      rw [queue, refs_cons, List.mem_cons] at inside
      exact inside.imp_left fun listed => listed.resolve_left different

theorem Gone.destroyed (gone : Gone machine next) (orderly : machine.Orderly view)
    (enabled : (tolerantSystem Data).Enabled machine label)
    (stepped : (tolerantSystem Data).step machine label = .ok next) :
    machine.dispatch.running = none ∧
      machine.dispatch.lsEventDispatcherDestroy = .ok next.dispatch ∧
      next.prepared = machine.prepared := by
  have notRunning : machine.dispatch.running = none := by
    have position := orderly.position
    rcases gone.unoccupied with idle | dispatching
    · rw [idle] at position
      exact position.1
    · rw [dispatching] at position
      exact position
  refine ⟨notRunning, ?_⟩
  have lasts : ∀ later, ¬ next.Orderly later := by
    intro later kept
    cases kept.alive.symm.trans gone.freed
  cases label with
  | ret left =>
    obtain ⟨_, later, again, kept, _⟩ := orderly.resume enabled.1 enabled.2 left
    cases stepped.symm.trans again
    exact absurd kept (lasts later)
  | internal =>
    have dispatching := gone.unoccupied.resolve_left fun idle =>
      enabled (by rw [idle]; trivial)
    change machine.advance = _ at stepped
    simp only [advance, dispatching, dispatchNext] at stepped
    split at stepped
    next =>
      obtain ⟨after, destroyed, rebuilt⟩ := Exec.bind_eq_ok.mp stepped
      cases rebuilt
      exact ⟨destroyed, rfl⟩
    next lasting =>
      rw [Bool.not_eq_true] at lasting
      have headIs := Chain.start_eq_head orderly.represents.queue
      cases queue : view.queue with
      | nil =>
        rw [queue] at headIs
        rw [headIs] at stepped
        cases stepped
        cases orderly.alive.symm.trans gone.freed
      | cons cell rest =>
        rw [queue] at headIs
        rw [headIs] at stepped
        obtain ⟨_, later, again, kept, _⟩ := orderly.start dispatching lasting queue
        cases stepped.symm.trans again
        exact absurd kept (lasts later)
  | call request =>
    obtain ⟨outside, _, tolerated⟩ := enabled
    change machine.perform request = _ at stepped
    cases request with
    | destroy =>
      obtain ⟨after, destroyed, rebuilt⟩ := Exec.bind_eq_ok.mp stepped
      cases rebuilt
      exact ⟨destroyed, rfl⟩
    | bind event cb arg granted =>
      obtain ⟨_, later, again, kept, _⟩ := orderly.bind outside tolerated cb arg granted
      cases stepped.symm.trans again
      exact absurd kept (lasts later)
    | unbind event cb =>
      obtain ⟨_, later, again, kept, _⟩ := orderly.unbind outside tolerated.1 tolerated.2
      cases stepped.symm.trans again
      exact absurd kept (lasts later)
    | prepareTrigger granted =>
      cases granted with
      | false =>
        cases stepped
        exact absurd orderly (lasts view)
      | true =>
        obtain ⟨_, prepared, kept, _⟩ := orderly.prepareTrigger outside
        cases prepared
        cases stepped
        exact absurd kept (lasts view)
    | unprepareTrigger moment =>
      obtain ⟨_, again, kept, _⟩ := orderly.unprepareTrigger outside tolerated
      cases stepped.symm.trans again
      exact absurd kept (lasts view)
    | trigger event data resultCb resultArg granted =>
      cases granted with
      | false =>
        cases stepped
        exact absurd orderly (lasts view)
      | true =>
        obtain ⟨_, again, kept, _⟩ := orderly.trigger outside tolerated data resultCb resultArg
        cases stepped.symm.trans again
        exact absurd kept (lasts _)
    | triggerPrepared event data resultCb resultArg moment =>
      obtain ⟨_, again, kept, _⟩ :=
        orderly.triggerPrepared outside tolerated.1 tolerated.2 data resultCb resultArg
      cases stepped.symm.trans again
      exact absurd kept (lasts _)

/-- What is allocated is what the lists, the queue and the callers lead to. -/
structure InReach (machine : Machine Data) : Prop where
  alive : machine.dispatch.freed = false
  bindings : ∀ binding, machine.dispatch.bindings.Live binding ↔
    ∃ event, binding ∈ refs (machine.dispatch.listed event)
  moments : ∀ moment, machine.dispatch.moments.Live moment ↔
    moment ∈ refs machine.queued ∨ moment ∈ machine.prepared

/-- Of a dispatcher that was destroyed only the triggers are left that were
prepared and neither used nor given back. -/
structure LeftOver (machine : Machine Data) : Prop where
  gone : machine.dispatch.freed = true
  events : ∀ event, ¬ machine.dispatch.events.Live event
  bindings : ∀ binding, ¬ machine.dispatch.bindings.Live binding
  moments : ∀ moment, machine.dispatch.moments.Live moment ↔ moment ∈ machine.prepared

theorem Orderly.inReach (orderly : machine.Orderly view) (reached : machine.Reached view) :
    machine.InReach := by
  refine ⟨orderly.alive, fun binding => ⟨fun live => ?_, ?_⟩, fun moment => ⟨fun live => ?_, ?_⟩⟩
  · obtain ⟨event, eventLive, listed⟩ := reached.bindings binding live
    refine ⟨event, ?_⟩
    rw [orderly.represents.listed_eq eventLive]
    exact listed
  · rintro ⟨event, listed⟩
    cases found : machine.dispatch.events.cells event with
    | none =>
      rw [Dispatcher.listed, found] at listed
      cases listed
    | some notifier =>
      have lists := orderly.represents.lists event ⟨notifier, found⟩
      rw [lists.listed_eq] at listed
      exact lists.live listed
  · rw [show machine.queued = view.queue from orderly.represents.queued_eq]
    exact reached.moments moment live
  · rintro (queued | parked)
    · rw [show machine.queued = view.queue from orderly.represents.queued_eq] at queued
      obtain ⟨⟨_, data⟩, inside, rfl⟩ := List.mem_map.mp queued
      obtain ⟨next, found⟩ := Segment.found orderly.represents.queue inside
      exact ⟨_, found⟩
    · obtain ⟨_, data, found⟩ := orderly.prepared moment parked
      exact ⟨_, found⟩

theorem Gone.leftOver (gone : Gone machine next) (orderly : machine.Orderly view)
    (reached : machine.Reached view) (enabled : (tolerantSystem Data).Enabled machine label)
    (stepped : (tolerantSystem Data).step machine label = .ok next) : next.LeftOver := by
  obtain ⟨notRunning, destroyed, prepared⟩ := gone.destroyed orderly enabled stepped
  obtain ⟨_, again, _, moments, events, noEvents⟩ := orderly.represents.destroy notRunning
  cases destroyed.symm.trans again
  refine ⟨gone.freed, noEvents, ?_, ?_⟩
  · intro binding live
    obtain ⟨event, eventLive, listed⟩ := reached.bindings binding
      (orderly.represents.destroy_live notRunning destroyed live)
    obtain ⟨cell, found⟩ := live
    cases ((events event eventLive).2 binding listed).2.symm.trans found
  · intro moment
    rw [moments, prepared]
    constructor
    · intro live
      obtain ⟨unqueued, before⟩ := Memory.live_of_eraseAll live
      exact (reached.moments moment before).resolve_left unqueued
    · intro parked
      obtain ⟨unqueued, data, found⟩ := orderly.prepared moment parked
      exact ⟨_, (Memory.eraseAll_cells_of_notMem _ unqueued).trans found⟩

theorem Initial.reached {start : Machine Data} (initial : start.Initial) :
    start.Reached ⟨fun _ => [], []⟩ := by
  constructor
  · rintro binding ⟨cell, found⟩
    rw [initial.bindings] at found
    cases found
  · rintro moment ⟨cell, found⟩
    rw [initial.moments] at found
    cases found

/-- In every run of a dispatcher what is allocated can be reached and freed, and
its destruction leaves nothing but triggers the callers kept for themselves. -/
theorem run_leaks_nothing {start : Machine Data} {labels : List (EventLabel Data)}
    (initial : start.Initial) (run : (tolerantSystem Data).Run start labels machine) :
    machine.InReach ∨ machine.LeftOver := by
  have invariant := run.preserves
    (fun machine => (∃ view, machine.Orderly view ∧ machine.Reached view) ∨
      machine.LeftOver ∧ ∃ before, Gone before machine) ?_
    (.inl ⟨_, initial.orderly, initial.reached⟩)
  · rcases invariant with ⟨view, orderly, reached⟩ | ⟨leftOver, _⟩
    · exact .inl (orderly.inReach reached)
    · exact .inr leftOver
  · rintro before label after (⟨view, orderly, reached⟩ | ⟨_, _, gone⟩) enabled stepped
    · rcases orderly.step enabled with ⟨next, returned, outcome⟩ | ⟨faulted, _⟩
      · cases stepped.symm.trans returned
        rcases outcome with ⟨later, kept, moved⟩ | ⟨gone, _⟩
        · exact .inl ⟨later, kept, moved.reached reached orderly kept enabled stepped⟩
        · exact .inr ⟨gone.leftOver orderly reached enabled stepped, before, gone⟩
      · cases stepped.symm.trans faulted
    · exact absurd enabled (gone.stops label)

/-- A callback is bound and unbound, a trigger queued from it, one prepared and
given back and one prepared and kept; then the dispatcher is destroyed. -/
def usedUp : List (EventLabel Unit) :=
  [.call (.bind 0 10 0 true), .call (.bind 1 20 0 true), .call (.prepareTrigger true),
    .call (.prepareTrigger true), .call (.unprepareTrigger 0),
    .call (.trigger 0 () none 0 true), .internal, .internal, .call (.unbind 0 10),
    .call (.trigger 1 () none 0 true), .call .destroy, .ret false, .internal, .internal,
    .internal, .internal]

theorem run_leaks_nothing_usedUp : ∃ machine : Machine Unit,
    (tolerantSystem Unit).Run twoEvents usedUp machine ∧ machine.dispatch.freed = true ∧
      machine.prepared = [1] ∧ (machine.InReach ∨ machine.LeftOver) := by
  obtain ⟨machine, run, freed, parked⟩ : ∃ machine : Machine Unit,
      (tolerantSystem Unit).Run twoEvents usedUp machine ∧ machine.dispatch.freed = true ∧
        machine.prepared = [1] := by
    refine System.Run.exists_cons ⟨trivial, rfl, _, rfl⟩ rfl ?_
    refine System.Run.exists_cons ⟨trivial, rfl, _, rfl⟩ rfl ?_
    refine System.Run.exists_cons ⟨trivial, rfl, trivial⟩ rfl ?_
    refine System.Run.exists_cons ⟨trivial, rfl, trivial⟩ rfl ?_
    refine System.Run.exists_cons ⟨trivial, rfl, List.mem_cons_self⟩ rfl ?_
    refine System.Run.exists_cons ⟨trivial, rfl, _, rfl⟩ rfl ?_
    refine System.Run.exists_cons id rfl ?_
    refine System.Run.exists_cons id rfl ?_
    refine System.Run.exists_cons ⟨trivial, rfl, ⟨_, rfl⟩, fun _ => by decide⟩ rfl ?_
    refine System.Run.exists_cons ⟨trivial, rfl, _, rfl⟩ rfl ?_
    refine System.Run.exists_cons ⟨trivial, rfl, trivial⟩ rfl ?_
    refine System.Run.exists_cons ⟨trivial, by simp⟩ rfl ?_
    refine System.Run.exists_cons id rfl ?_
    refine System.Run.exists_cons id rfl ?_
    refine System.Run.exists_cons id rfl ?_
    refine System.Run.exists_cons id rfl ?_
    exact ⟨_, .nil _, rfl, rfl⟩
  exact ⟨machine, run, freed, parked, run_leaks_nothing twoEvents_initial run⟩

end Machine

end SpudLib
