import SpudLib.Eventing.Operations

/-!
# What a dispatcher in memory stands for

A `View` is a dispatcher without addresses to follow: the binding list of every
event and the queue of moments.  `Represents` ties the memory of a dispatcher
to its view, and every operation of the dispatcher is shown to return and to
act on the view as its name says.
-/

namespace SpudLib

open Link

/-- The binding lists by event, and the queued moments, first to last. -/
structure View (Data : Type) where
  lists : Nat → List (Nat × BindingData)
  queue : List (Nat × MomentData Data)

variable {Data : Type}

namespace View

def setList (view : View Data) (event : Nat) (cells : List (Nat × BindingData)) : View Data :=
  { view with lists := Function.update view.lists event cells }

@[simp] theorem setList_lists_self (view : View Data) (event : Nat)
    (cells : List (Nat × BindingData)) : (view.setList event cells).lists event = cells := by
  simp [setList]

theorem setList_lists_of_ne (view : View Data) {event other : Nat} (different : other ≠ event)
    (cells : List (Nat × BindingData)) :
    (view.setList event cells).lists other = view.lists other := by
  simp [setList, different]

@[simp] theorem setList_queue (view : View Data) (event : Nat)
    (cells : List (Nat × BindingData)) : (view.setList event cells).queue = view.queue := rfl

end View

namespace Dispatcher

/-- Each event has its list to itself, and the queue runs from `next_moment` to
`moment_queue_tail`. -/
structure Represents (dispatch : Dispatcher Data) (view : View Data) : Prop where
  lists : ∀ event, dispatch.events.Live event → dispatch.Lists event (view.lists event)
  apart : ∀ event other, dispatch.events.Live event → dispatch.events.Live other →
    event ≠ other → ∀ binding ∈ refs (view.lists event), binding ∉ refs (view.lists other)
  queue : Chain dispatch.moments dispatch.nextMoment view.queue
  tail : dispatch.momentQueueTail = lastRef view.queue

/-- Only binding lists differ, the events are the same, and no freed binding is
used again. -/
structure SameButBindings (before after : Dispatcher Data) : Prop where
  shape : after = { before with events := after.events, bindings := after.bindings }
  live : ∀ event, after.events.Live event ↔ before.events.Live event
  freed : ∀ binding, before.bindings.Freed binding → after.bindings.Freed binding

theorem Edits.sameButBindings {before after : Dispatcher Data} {event : Nat} {owned : List Nat}
    {cells : List (Nat × BindingData)} (edits : Edits before event owned after)
    (live : before.events.Live event) (lists : after.Lists event cells)
    (used : ∀ binding ∈ owned, ¬ before.bindings.Freed binding) :
    SameButBindings before after := by
  refine ⟨edits.shape, fun other => ?_, fun binding freed =>
    edits.freed freed fun mine => used binding mine freed⟩
  by_cases same : other = event
  · subst same
    obtain ⟨notifier, found, _⟩ := lists
    exact ⟨fun _ => live, fun _ => ⟨notifier, found⟩⟩
  · unfold Memory.Live
    rw [edits.others other same]

namespace Represents

variable {dispatch after : Dispatcher Data} {view : View Data} {event : Nat}

theorem not_freed (represents : dispatch.Represents view) (live : dispatch.events.Live event)
    {binding : Nat} (member : binding ∈ refs (view.lists event)) :
    ¬ dispatch.bindings.Freed binding := by
  obtain ⟨_, _, chain⟩ := represents.lists event live
  obtain ⟨⟨_, data⟩, inside, rfl⟩ := List.mem_map.mp member
  obtain ⟨next, found⟩ := Segment.found chain inside
  intro freed
  rw [freed.2] at found
  cases found

theorem listed_eq (represents : dispatch.Represents view) (live : dispatch.events.Live event) :
    dispatch.listed event = view.lists event :=
  (represents.lists event live).listed_eq

theorem edited (represents : dispatch.Represents view) (live : dispatch.events.Live event)
    {owned : List Nat} {cells : List (Nat × BindingData)}
    (edits : Edits dispatch event owned after) (lists : after.Lists event cells)
    (ownedOld : owned ⊆ dispatch.bindings.fresh :: refs (view.lists event))
    (cellsOld : refs cells ⊆ dispatch.bindings.fresh :: refs (view.lists event)) :
    after.Represents (view.setList event cells) ∧ SameButBindings dispatch after := by
  have used : ∀ binding ∈ owned, ¬ dispatch.bindings.Freed binding := by
    intro binding mine
    rcases List.mem_cons.mp (ownedOld mine) with rfl | listed
    · exact fun freed => Nat.lt_irrefl _ freed.1
    · exact represents.not_freed live listed
  have same := edits.sameButBindings live lists used
  have foreign : ∀ other, dispatch.events.Live other → other ≠ event →
      ∀ binding ∈ refs (view.lists other),
        binding ∉ dispatch.bindings.fresh :: refs (view.lists event) := by
    intro other otherLive different binding member old
    rcases List.mem_cons.mp old with rfl | old
    · obtain ⟨_, _, chain⟩ := represents.lists other otherLive
      exact Nat.lt_irrefl _ (chain.lt_fresh _ member)
    · exact represents.apart other event otherLive live different binding member old
  refine ⟨⟨?_, ?_, ?_, ?_⟩, same⟩
  · intro other otherLive
    have oldLive := (same.live other).mp otherLive
    by_cases here : other = event
    · rw [here, View.setList_lists_self]
      exact lists
    · rw [View.setList_lists_of_ne _ here]
      refine edits.lists_other here (represents.lists other oldLive) ?_
      intro binding member mine
      exact foreign other oldLive here binding member (ownedOld mine)
  · intro one other oneLive otherLive different binding member
    have oneOld := (same.live one).mp oneLive
    have otherOld := (same.live other).mp otherLive
    by_cases oneHere : one = event
    · have otherAway : other ≠ event := fun here => different (oneHere.trans here.symm)
      rw [oneHere, View.setList_lists_self] at member
      rw [View.setList_lists_of_ne _ otherAway]
      exact fun inside => foreign other otherOld otherAway binding inside (cellsOld member)
    · rw [View.setList_lists_of_ne _ oneHere] at member
      by_cases otherHere : other = event
      · rw [otherHere, View.setList_lists_self]
        exact fun inside => foreign one oneOld oneHere binding member (cellsOld inside)
      · rw [View.setList_lists_of_ne _ otherHere]
        exact represents.apart one other oneOld otherOld different binding member
  · rw [same.shape]
    exact represents.queue
  · rw [same.shape]
    exact represents.tail

/-- `ls_event_bind` either has no memory for a new binding or binds. -/
theorem bind (represents : dispatch.Represents view) (live : dispatch.events.Live event)
    (cb arg : Nat) (granted : Bool) :
    ∃ bound after, dispatch.lsEventBind event cb arg granted = .ok (bound, after) ∧
      ((bound = false ∧ granted = false ∧ cb ∉ callbacks (view.lists event)) ∧ after = dispatch ∨
        bound = true ∧ after.Represents (view.setList event
          (boundCells cb arg dispatch.bindings.fresh (view.lists event))) ∧
        SameButBindings dispatch after) := by
  have lists := represents.lists event live
  by_cases known : cb ∈ callbacks (view.lists event)
  · obtain ⟨front, binding, data, back, split, absent, matching⟩ := split_at_callback known
    rw [split] at lists
    obtain ⟨after, bound, listed, edits⟩ :=
      lsEventBind_found arg granted lists absent matching
    refine ⟨true, after, bound, .inr ⟨rfl, ?_⟩⟩
    rw [split, boundCells_found absent matching]
    refine represents.edited live edits listed ?_ ?_ <;>
    · rw [split]
      intro ref member
      simp only [List.mem_cons, refs_append, refs_cons, List.mem_append] at member ⊢
      tauto
  · have absent : ∀ cell ∈ view.lists event, cell.2.cb ≠ cb := fun cell member same =>
      known (mem_callbacks.mpr ⟨cell, member, same⟩)
    cases granted with
    | false =>
      exact ⟨false, dispatch, lsEventBind_refused arg lists absent, .inl ⟨⟨rfl, rfl, known⟩, rfl⟩⟩
    | true =>
      obtain ⟨after, bound, listed, edits⟩ := lsEventBind_missing arg lists absent
      refine ⟨true, after, bound, .inr ⟨rfl, ?_⟩⟩
      rw [boundCells_missing absent]
      refine represents.edited live edits listed (List.Subset.refl _) ?_
      intro ref member
      simp only [refs_append, refs_cons, refs_nil, List.mem_append, List.mem_cons,
        List.not_mem_nil, or_false] at member ⊢
      exact member.symm

/-- `ls_event_unbind` of a bound callback removes it, or marks it while its
event is running. -/
theorem unbind (represents : dispatch.Represents view) (live : dispatch.events.Live event)
    {cb : Nat} (known : cb ∈ callbacks (view.lists event)) :
    ∃ after, dispatch.lsEventUnbind event cb = .ok after ∧
      after.Represents (view.setList event
        (if dispatch.running = some event then flaggedCells cb (view.lists event)
          else unboundCells cb (view.lists event))) ∧
      SameButBindings dispatch after ∧
      ∀ binding ∈ refs (view.lists event), dispatch.running = some event ∨
        binding ∈ refs (unboundCells cb (view.lists event)) ∨ after.bindings.Freed binding := by
  have lists := represents.lists event live
  obtain ⟨front, binding, data, back, split, absent, matching⟩ := split_at_callback known
  rw [split] at lists
  by_cases running : dispatch.running = some event
  · obtain ⟨after, unbound, listed, edits⟩ := lsEventUnbind_running running lists absent matching
    refine ⟨after, unbound, and_assoc.mp ⟨?_, fun binding _ => .inl running⟩⟩
    rw [if_pos running, split, flaggedCells_found absent matching]
    refine represents.edited live edits listed ?_ ?_ <;>
    · rw [split]
      intro ref member
      simp only [List.mem_cons, refs_append, refs_cons, List.mem_append, List.not_mem_nil,
        or_false] at member ⊢
      tauto
  · obtain ⟨after, unbound, listed, edits, freed⟩ :=
      lsEventUnbind_found running lists absent matching
    refine ⟨after, unbound, and_assoc.mp ⟨?_, ?_⟩⟩
    · rw [if_neg running, split, unboundCells_found absent matching]
      refine represents.edited live edits listed ?_ ?_ <;>
      · rw [split]
        intro ref member
        simp only [List.mem_cons, refs_append, refs_cons, List.mem_append] at member ⊢
        tauto
    · rw [split, unboundCells_found absent matching]
      intro other member
      simp only [refs_append, refs_cons, List.mem_append, List.mem_cons] at member ⊢
      rcases member with front | rfl | back
      · exact .inr (.inl (.inl front))
      · exact .inr (.inr freed)
      · exact .inr (.inl (.inr back))

theorem refs_settled (cells : List (Nat × BindingData)) :
    refs (settledCells cells) = refs cells := by
  simp [refs, settledCells, Function.comp_def]

theorem settle (represents : dispatch.Represents view) (live : dispatch.events.Live event) :
    ∃ after, dispatch.setBindStatus event = .ok after ∧
      after.Represents (view.setList event (settledCells (view.lists event))) ∧
      SameButBindings dispatch after := by
  obtain ⟨after, settled, listed, edits⟩ := setBindStatus_ok (represents.lists event live)
  refine ⟨after, settled, represents.edited live edits listed ?_ ?_⟩
  · exact List.subset_cons_self _ _
  · rw [refs_settled]
    exact List.subset_cons_self _ _

theorem refs_swept_subset (cells : List (Nat × BindingData)) :
    refs (sweptCells cells) ⊆ refs cells :=
  List.map_subset _ (List.filter_subset_self _)

theorem sweep (represents : dispatch.Represents view) (live : dispatch.events.Live event) :
    ∃ after, dispatch.processPendingUnbinds event = .ok after ∧
      after.Represents (view.setList event (sweptCells (view.lists event))) ∧
      SameButBindings dispatch after ∧
      ∀ cell ∈ view.lists event, cell.2.unbound = true → after.bindings.Freed cell.1 := by
  obtain ⟨after, swept, listed, edits, gone⟩ :=
    processPendingUnbinds_ok (represents.lists event live)
  refine ⟨after, swept, and_assoc.mp ⟨represents.edited live edits listed ?_ ?_, gone⟩⟩
  · exact List.subset_cons_self _ _
  · exact List.subset_cons_of_subset _ (refs_swept_subset _)

end Represents

/-- Only the moments and the two ends of their queue differ. -/
structure SameButMoments (before after : Dispatcher Data) : Prop where
  shape : after = { before with
    moments := after.moments
    nextMoment := after.nextMoment
    momentQueueTail := after.momentQueueTail }

namespace Represents

variable {dispatch : Dispatcher Data} {view : View Data} {moment : Nat}

theorem moments_lt_fresh (represents : dispatch.Represents view) :
    ∀ queued ∈ refs view.queue, queued < dispatch.moments.fresh :=
  Segment.lt_fresh represents.queue

theorem queued_eq (represents : dispatch.Represents view) :
    walk dispatch.moments dispatch.moments.fresh dispatch.nextMoment = view.queue :=
  Chain.walk_eq represents.queue (Chain.length_le_fresh represents.queue)

/-- Memory that differs outside the queue only stands for the same view. -/
theorem with_moments (represents : dispatch.Represents view)
    {moments : Memory (Link (MomentData Data))}
    (same : ∀ queued ∈ refs view.queue, moments.cells queued = dispatch.moments.cells queued) :
    Dispatcher.Represents { dispatch with moments := moments } view :=
  ⟨represents.lists, represents.apart, Segment.frame represents.queue same, represents.tail⟩

theorem set_head {data : MomentData Data} {rest : List (Nat × MomentData Data)}
    (represents : dispatch.Represents { view with queue := (moment, data) :: rest })
    (change : MomentData Data) :
    ∃ next, dispatch.moments.cells moment = some ⟨data, next⟩ ∧
      Dispatcher.Represents { dispatch with moments := dispatch.moments.set moment ⟨change, next⟩ }
        { view with queue := (moment, change) :: rest } := by
  obtain ⟨next, found, changed⟩ := Chain.set_data [] represents.queue change
  refine ⟨next, found, represents.lists, represents.apart, changed, ?_⟩
  have tail := represents.tail
  unfold lastRef at tail ⊢
  exact tail

theorem enqueue {data : MomentData Data} (represents : dispatch.Represents view)
    (found : dispatch.moments.cells moment = some ⟨data, none⟩)
    (outside : moment ∉ refs view.queue) :
    ∃ after, dispatch.enqueue moment = .ok after ∧
      after.Represents { view with queue := view.queue ++ [(moment, data)] } ∧
      SameButMoments dispatch after ∧ after.moments.fresh = dispatch.moments.fresh ∧
      ∀ other ∉ refs view.queue, after.moments.cells other = dispatch.moments.cells other := by
  rcases view.queue.eq_nil_or_concat' with empty | ⟨front, ⟨last, lastData⟩, split⟩
  · have noTail : dispatch.momentQueueTail = none := by rw [represents.tail, empty]; rfl
    have noHead : dispatch.nextMoment = none := by
      have chain := represents.queue
      rw [empty] at chain
      exact chain
    refine ⟨{ dispatch with nextMoment := some moment, momentQueueTail := some moment }, ?_,
      ⟨represents.lists, represents.apart, ?_, ?_⟩, ⟨rfl⟩, rfl, fun _ _ => rfl⟩
    · simp [Dispatcher.enqueue, noTail, noHead]
    · rw [empty]
      exact ⟨rfl, none, found, rfl⟩
    · rw [lastRef_concat]
  · have chain := represents.queue
    have tail := represents.tail
    rw [split] at chain tail outside
    rw [lastRef_concat] at tail
    have foundLast := Segment.last_next chain
    obtain ⟨head, headIs⟩ : ∃ head, dispatch.nextMoment = some head := by
      cases front with
      | nil => exact ⟨_, chain.1⟩
      | cons cell rest => exact ⟨_, chain.1⟩
    refine ⟨{ dispatch with
        moments := dispatch.moments.set last ⟨lastData, some moment⟩
        nextMoment := some head
        momentQueueTail := some moment }, ?_,
      ⟨represents.lists, represents.apart, ?_, ?_⟩, ⟨rfl⟩, rfl, ?_⟩
    · simp [Dispatcher.enqueue, tail, headIs, Memory.modify_of_some foundLast]
    · rw [split]
      simpa only [headIs] using chain.concat found outside
    · rw [lastRef_concat]
    · intro other away
      refine Memory.set_cells_of_ne _ _ ?_
      rintro rfl
      exact away (by simp [split])

theorem trigger (represents : dispatch.Represents view) {event : Nat}
    (live : dispatch.events.Live event) {old : MomentData Data}
    (found : dispatch.moments.cells moment = some ⟨old, none⟩)
    (outside : moment ∉ refs view.queue) (data : Data) (resultCb : Option Nat) (resultArg : Nat) :
    ∃ filled after, dispatch.fillMoment event data resultCb resultArg moment = .ok filled ∧
      filled.enqueue moment = .ok after ∧
      after.Represents { view with queue := view.queue ++ [(moment, ⟨some event, some data, false,
        resultCb, resultArg, (refs (view.lists event)).head?⟩)] } ∧
      SameButMoments dispatch after ∧ after.moments.fresh = dispatch.moments.fresh ∧
      ∀ other ∉ refs view.queue, other ≠ moment →
        after.moments.cells other = dispatch.moments.cells other := by
  obtain ⟨notifier, foundEvent, chain⟩ := represents.lists event live
  let content : MomentData Data :=
    ⟨some event, some data, false, resultCb, resultArg, (refs (view.lists event)).head?⟩
  let filled := { dispatch with moments := dispatch.moments.set moment ⟨content, none⟩ }
  have filling : dispatch.fillMoment event data resultCb resultArg moment = .ok filled := by
    simp only [fillMoment, Memory.read_of_some foundEvent, Exec.ok_bind, chain.start_eq_head,
      Memory.modify_of_some found, Exec.pure_eq_ok]
    rfl
  have filledRepresents : Dispatcher.Represents filled view :=
    represents.with_moments fun queued member =>
      Memory.set_cells_of_ne _ _ (by rintro rfl; exact outside member)
  obtain ⟨after, queued, queuedRepresents, same, fresh, others⟩ :=
    filledRepresents.enqueue (Memory.set_cells_self _ found) outside
  refine ⟨filled, after, filling, queued, queuedRepresents, ⟨same.shape⟩, fresh, ?_⟩
  intro other away different
  exact (others other away).trans (Memory.set_cells_of_ne _ _ different)

theorem finishMoment {event : Nat} {data : MomentData Data} {rest : List (Nat × MomentData Data)}
    (represents : dispatch.Represents { view with queue := (moment, data) :: rest })
    (ofEvent : data.notifier = some event) (live : dispatch.events.Live event) :
    ∃ after, dispatch.finishMoment moment = .ok after ∧
      after.Represents
        (View.setList { view with queue := rest } event (sweptCells (view.lists event))) ∧
      after.moments = dispatch.moments.erase moment ∧ after.running = none ∧
      after.destroyPending = dispatch.destroyPending ∧ after.freed = dispatch.freed ∧
      (∀ other, after.events.Live other ↔ dispatch.events.Live other) ∧
      (∀ binding, dispatch.bindings.Freed binding → after.bindings.Freed binding) ∧
      ∀ cell ∈ view.lists event, cell.2.unbound = true → after.bindings.Freed cell.1 := by
  obtain ⟨here, next, found, onward⟩ := represents.queue
  obtain ⟨notBehind, _⟩ := List.nodup_cons.mp (Chain.nodup represents.queue)
  obtain ⟨swept, sweeping, sweptRepresents, same, gone⟩ := represents.sweep live
  have sameMoments : swept.moments = dispatch.moments := by rw [same.shape]
  have sameTail : swept.momentQueueTail = dispatch.momentQueueTail := by rw [same.shape]
  refine ⟨{ swept with
      moments := dispatch.moments.erase moment
      nextMoment := next
      momentQueueTail := if next.isNone then none else swept.momentQueueTail
      running := none }, ?_, ⟨sweptRepresents.lists, sweptRepresents.apart, ?_, ?_⟩, rfl, rfl,
    by rw [same.shape], by rw [same.shape], same.live, same.freed, gone⟩
  · simp only [Dispatcher.finishMoment, Memory.read_of_some found, Exec.ok_bind, ofEvent, sweeping,
      sameMoments, Memory.free_of_some found, Exec.pure_eq_ok]
  · exact Segment.frame onward fun ref member =>
      Memory.erase_cells_of_ne _ (by rintro rfl; exact notBehind member)
  · rw [sameTail, represents.tail]
    cases rest with
    | nil =>
      cases onward
      rfl
    | cons cell rest =>
      obtain ⟨rfl, _⟩ := onward
      exact List.getLast?_cons_cons

end Represents

end Dispatcher

end SpudLib
