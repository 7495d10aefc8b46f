import SpudLib.Eventing.Representation

/-!
# Destroying a dispatcher

`ls_event_dispatcher_destroy` releases what a dispatcher that is not running
still holds: the moments in its queue, then every event with its bindings.
Each loop reads the link of an object before it frees it, so a loop over a
chain erases exactly the cells of the chain.
-/

namespace SpudLib.Dispatcher

open Link

variable {Data : Type} {dispatch : Dispatcher Data} {view : View Data}

theorem destroyMoments_ok {bound : Nat} {start : Option Nat}
    {cells : List (Nat × MomentData Data)} (chain : Chain dispatch.moments start cells)
    (enough : cells.length ≤ bound) :
    destroyMoments bound start dispatch =
      .ok { dispatch with moments := dispatch.moments.eraseAll (refs cells) } := by
  induction cells generalizing bound start dispatch with
  | nil =>
    cases chain
    cases bound <;> rfl
  | cons cell rest inductionHypothesis =>
    obtain ⟨moment, data⟩ := cell
    have nodup := chain.nodup
    obtain ⟨rfl, next, found, onward⟩ := chain
    have behind : moment ∉ refs rest := (List.nodup_cons.mp nodup).1
    cases bound with
    | zero => simp at enough
    | succ bound =>
      have still : Chain (dispatch.moments.erase moment) next rest := by
        apply onward.frame
        intro ref member
        apply Memory.erase_cells_of_ne
        rintro rfl
        exact behind member
      simp only [destroyMoments, Memory.read_of_some found, Memory.free_of_some found,
        Exec.ok_bind]
      exact @inductionHypothesis { dispatch with moments := dispatch.moments.erase moment } bound
        next still (by simpa using enough)

theorem cleanBindings_ok {bound : Nat} {start : Option Nat} {cells : List (Nat × BindingData)}
    (chain : Chain dispatch.bindings start cells) (enough : cells.length ≤ bound) :
    cleanBindings bound start dispatch =
      .ok { dispatch with bindings := dispatch.bindings.eraseAll (refs cells) } := by
  induction cells generalizing bound start dispatch with
  | nil =>
    cases chain
    cases bound <;> rfl
  | cons cell rest inductionHypothesis =>
    obtain ⟨binding, data⟩ := cell
    have nodup := chain.nodup
    obtain ⟨rfl, next, found, onward⟩ := chain
    have behind : binding ∉ refs rest := (List.nodup_cons.mp nodup).1
    cases bound with
    | zero => simp at enough
    | succ bound =>
      have still : Chain (dispatch.bindings.erase binding) next rest := by
        apply onward.frame
        intro ref member
        apply Memory.erase_cells_of_ne
        rintro rfl
        exact behind member
      simp only [cleanBindings, Memory.read_of_some found, freeBinding_ok found, Exec.ok_bind]
      exact @inductionHypothesis { dispatch with bindings := dispatch.bindings.erase binding } bound
        next still (by simpa using enough)

theorem cleanEvent_ok {event : Nat} {cells : List (Nat × BindingData)}
    (lists : dispatch.Lists event cells) :
    cleanEvent event dispatch =
      .ok { dispatch with
        events := dispatch.events.erase event
        bindings := dispatch.bindings.eraseAll (refs cells) } := by
  obtain ⟨notifier, found, chain⟩ := lists
  simp only [cleanEvent, Memory.read_of_some found, Exec.ok_bind,
    cleanBindings_ok chain chain.length_le_fresh, Memory.free_of_some found, Exec.pure_eq_ok]

theorem cleanEvent_lists {event other : Nat} {cells others : List (Nat × BindingData)}
    (lists : dispatch.Lists other others) (different : other ≠ event)
    (apart : ∀ binding ∈ refs others, binding ∉ refs cells) :
    Lists { dispatch with
      events := dispatch.events.erase event
      bindings := dispatch.bindings.eraseAll (refs cells) } other others := by
  obtain ⟨notifier, found, chain⟩ := lists
  refine ⟨notifier, (Memory.erase_cells_of_ne _ different).trans found, chain.frame ?_⟩
  intro binding member
  exact Memory.eraseAll_cells_of_notMem _ (apart binding member)

/-- The event table cleans one event after the other. -/
theorem cleanEvents_ok {events : List Nat} {lists : Nat → List (Nat × BindingData)}
    (listed : ∀ event ∈ events, dispatch.Lists event (lists event)) (nodup : events.Nodup)
    (apart : ∀ event ∈ events, ∀ other ∈ events, event ≠ other →
      ∀ binding ∈ refs (lists event), binding ∉ refs (lists other)) :
    events.foldlM (fun dispatch event => cleanEvent event dispatch) dispatch =
      .ok { dispatch with
        events := dispatch.events.eraseAll events
        bindings :=
          dispatch.bindings.eraseAll (events.flatMap fun event => refs (lists event)) } := by
  induction events generalizing dispatch with
  | nil => rfl
  | cons event rest inductionHypothesis =>
    obtain ⟨once, nodupRest⟩ := List.nodup_cons.mp nodup
    rw [List.foldlM_cons, cleanEvent_ok (listed event List.mem_cons_self), Exec.ok_bind,
      List.flatMap_cons, Memory.eraseAll_append, Memory.eraseAll_cons]
    apply inductionHypothesis _ nodupRest
    · intro one oneMember other otherMember
      exact apart one (List.mem_cons_of_mem _ oneMember) other (List.mem_cons_of_mem _ otherMember)
    · intro other member
      have different : other ≠ event := by
        rintro rfl
        exact once member
      apply cleanEvent_lists (listed other (List.mem_cons_of_mem _ member)) different
      exact apart other (List.mem_cons_of_mem _ member) event List.mem_cons_self different

/-- A dispatcher that is not running releases its queue, its events and their
bindings, and is freed itself. -/
theorem Represents.destroy (represents : dispatch.Represents view)
    (notRunning : dispatch.running = none) :
    ∃ after, dispatch.lsEventDispatcherDestroy = .ok after ∧ after.freed = true ∧
      after.moments = dispatch.moments.eraseAll (refs view.queue) ∧
      (∀ event, dispatch.events.Live event → after.events.Freed event ∧
        ∀ binding ∈ refs (view.lists event), after.bindings.Freed binding) ∧
      ∀ event, ¬ after.events.Live event := by
  let events := (List.range dispatch.events.fresh).filter
    fun event => (dispatch.events.cells event).isSome
  have live : ∀ event, event ∈ events ↔ dispatch.events.Live event := by
    intro event
    constructor
    · intro member
      exact Option.isSome_iff_exists.mp (List.mem_filter.mp member).2
    · rintro ⟨notifier, found⟩
      apply List.mem_filter.mpr
      exact ⟨List.mem_range.mpr (Memory.lt_fresh found), by simp [found]⟩
  have emptied := destroyMoments_ok represents.queue (Chain.length_le_fresh represents.queue)
  have cleaned := @cleanEvents_ok Data
    { dispatch with moments := dispatch.moments.eraseAll (refs view.queue) } events view.lists
    (fun event member => represents.lists event ((live event).mp member))
    (List.nodup_range.filter _)
    (fun event member other otherMember =>
      represents.apart event other ((live event).mp member) ((live other).mp otherMember))
  refine ⟨{ dispatch with
      events := dispatch.events.eraseAll events
      bindings := dispatch.bindings.eraseAll (events.flatMap fun event => refs (view.lists event))
      moments := dispatch.moments.eraseAll (refs view.queue)
      freed := true }, ?_, rfl, rfl, ?_, ?_⟩
  · have idle : dispatch.running.isSome = false := by rw [notRunning]; rfl
    simp only [lsEventDispatcherDestroy, idle, Bool.false_eq_true, if_false, emptied, Exec.ok_bind]
    exact congrArg (· >>= _) cleaned
  · intro event eventLive
    have member := (live event).mpr eventLive
    obtain ⟨notifier, found, chain⟩ := represents.lists event eventLive
    refine ⟨⟨?_, Memory.eraseAll_cells_of_mem _ member⟩, ?_⟩
    · change event < (dispatch.events.eraseAll events).fresh
      rw [Memory.eraseAll_fresh]
      exact Memory.lt_fresh found
    · intro binding listed
      constructor
      · change binding < (dispatch.bindings.eraseAll _).fresh
        rw [Memory.eraseAll_fresh]
        exact chain.lt_fresh binding listed
      · exact Memory.eraseAll_cells_of_mem _ (List.mem_flatMap.mpr ⟨event, member, listed⟩)
  · rintro event ⟨notifier, found⟩
    change (dispatch.events.eraseAll events).cells event = some notifier at found
    by_cases member : event ∈ events
    · rw [Memory.eraseAll_cells_of_mem _ member] at found
      cases found
    · rw [Memory.eraseAll_cells_of_notMem _ member] at found
      exact member ((live event).mpr ⟨notifier, found⟩)

end SpudLib.Dispatcher
