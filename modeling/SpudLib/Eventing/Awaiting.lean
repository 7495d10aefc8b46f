import SpudLib.Eventing.Destruction
import SpudLib.Eventing.Fifo

/-!
# What callbacks are yet to be given

A moment hands its data to every callback that it calls.  Data is awaited from
the trigger, if the event has a binding then, until the last of these callbacks
is called: triggers add to what is awaited, and the loop gives away nothing else.
-/

namespace SpudLib

open Link

/-- The data of the moment at the head of a queue, while callbacks are ahead. -/
def current {Data : Type} (ahead : List Nat) (queue : List (Nat × MomentData Data)) : List Data :=
  if ahead = [] then [] else (queue.head?.bind fun cell => cell.2.data).toList

def reserved {Data : Type} (queue : List (Nat × MomentData Data)) : List Data :=
  queue.filterMap fun cell => if cell.2.bindings = none then none else cell.2.data

namespace Machine

variable {Data : Type} {machine next : Machine Data} {view later : View Data}
  {moment event : Nat} {label : EventLabel Data}

/-- What the callback that runs was given, in `evt->data`. -/
def given (machine : Machine Data) : Option Data :=
  match machine.control with
  | .calling moment _ _ => (machine.dispatch.moments.cells moment).bind fun cell => cell.data.data
  | _ => none

def awaited (machine : Machine Data) : List Data :=
  current machine.remaining machine.queued ++ reserved machine.waiting

section Places

theorem Orderly.awaited_idle (orderly : machine.Orderly view) (control : machine.control = .idle) :
    machine.awaited = [] := by
  have position := orderly.position
  rw [control] at position
  have queued : machine.queued = view.queue := orderly.represents.queued_eq
  have waiting : machine.waiting = [] := by
    unfold Machine.waiting
    rw [control, queued, position.2.1]
  rw [awaited, Machine.remaining, position.1, waiting]
  rfl

theorem Orderly.awaited_dispatching (orderly : machine.Orderly view)
    (control : machine.control = .dispatching) : machine.awaited = reserved view.queue := by
  have position := orderly.position
  rw [control] at position
  have notRunning : machine.dispatch.running = none := position
  have queued : machine.queued = view.queue := orderly.represents.queued_eq
  have waiting : machine.waiting = view.queue := by
    unfold Machine.waiting
    rw [control, queued]
  rw [awaited, Machine.remaining, notRunning, waiting]
  rfl

/-- At a moment its own data is awaited while callbacks are ahead. -/
theorem Orderly.awaited_processes (orderly : machine.Orderly view)
    (processes : machine.Processes view moment event) :
    machine.awaited =
      current (machine.control.ahead (view.lists event)) view.queue ++
        reserved view.queue.tail := by
  obtain ⟨busy, away⟩ := orderly.inside processes.running
  have queued : machine.queued = view.queue := orderly.represents.queued_eq
  have waiting : machine.waiting = view.queue.tail := by
    unfold Machine.waiting
    rw [queued]
    cases control : machine.control with
    | idle => exact absurd control busy
    | dispatching => exact absurd control away
    | visiting => rfl
    | calling => rfl
    | reporting => rfl
    | resulting => rfl
    | finishing => rfl
  have remaining : machine.remaining = machine.control.ahead (view.lists event) := by
    unfold Machine.remaining
    rw [processes.running]
    exact congrArg machine.control.ahead
      (orderly.represents.listed_eq (orderly.live processes))
  rw [awaited, remaining, queued, waiting]

end Places

section Steps

theorem reserved_append (front back : List (Nat × MomentData Data)) :
    reserved (front ++ back) = reserved front ++ reserved back := List.filterMap_append

theorem current_subset {ahead onward : List Nat} (queue : List (Nat × MomentData Data))
    (further : onward ≠ [] → ahead ≠ []) : current onward queue ⊆ current ahead queue := by
  unfold current
  by_cases done : onward = []
  · simp [done]
  · rw [if_neg done, if_neg (further done)]
    exact List.Subset.refl _

theorem Keeps.awaited {more : List (Nat × MomentData Data)} (keeps : machine.Keeps next)
    (orderly : machine.Orderly view) (kept : next.Orderly later)
    (queue : later.queue = view.queue ++ more)
    (grown : ∀ event, machine.dispatch.running = some event →
      Grown (view.lists event) (later.lists event)) :
    next.awaited ⊆ machine.awaited ++ reserved more := by
  have unoccupied : view.queue = [] → next.control = .idle ∨ next.control = .dispatching →
      next.awaited ⊆ reserved more := by
    intro empty control
    rw [empty, List.nil_append] at queue
    rcases control with idle | dispatching
    · rw [kept.awaited_idle idle]
      exact List.nil_subset _
    · rw [kept.awaited_dispatching dispatching, queue]
      exact List.Subset.refl _
  by_cases idle : machine.control = .idle
  · have position := orderly.position
    rw [idle] at position
    rw [orderly.awaited_idle idle, List.nil_append]
    refine unoccupied position.2.1 ?_
    rcases keeps.control with same | ⟨_, dispatching⟩
    · exact .inl (same.trans idle)
    · exact .inr dispatching
  · have control : next.control = machine.control :=
      keeps.control.resolve_right fun awake => idle awake.1
    by_cases dispatching : machine.control = .dispatching
    · rw [kept.awaited_dispatching (control.trans dispatching),
        orderly.awaited_dispatching dispatching, queue, reserved_append]
      exact List.Subset.refl _
    · obtain ⟨moment, event, processes⟩ := orderly.processes idle dispatching
      have growing := grown event processes.running
      obtain ⟨data, rest, head, ofEvent⟩ := processes.head
      have again : next.Processes later moment event := by
        refine ⟨keeps.running.trans processes.running, ?_, ?_⟩
        · exact ⟨data, rest ++ more, by rw [queue, head, List.cons_append], ofEvent⟩
        · rw [keeps.trace, growing.active_eq]
          exact processes.begun
      rw [kept.awaited_processes again, orderly.awaited_processes processes, control,
        growing.ahead, queue, head, List.cons_append, List.tail_cons, List.tail_cons,
        reserved_append, List.append_assoc]
      exact List.Subset.refl _

/-- The loop gives away what is awaited, and a binding adds nothing to it. -/
theorem Moved.awaited (moved : machine.Moved view label next later)
    (orderly : machine.Orderly view) (kept : next.Orderly later)
    (binds : ∀ request, label = .call request →
      ∃ event cb arg granted, request = .bind event cb arg granted) :
    next.awaited ⊆ machine.awaited := by
  cases moved with
  | refused => exact List.Subset.refl _
  | @bound other cb arg granted _ _ keeps =>
    have growing : ∀ event, machine.dispatch.running = some event →
        Grown (view.lists event) ((view.setList other (Dispatcher.boundCells cb arg
          machine.dispatch.bindings.fresh (view.lists other))).lists event) := by
      intro event _
      by_cases here : event = other
      · rw [here, View.setList_lists_self]
        exact boundCells_grown cb arg _ _
      · rw [View.setList_lists_of_ne _ here]
        exact Grown.refl _
    have subset := keeps.awaited orderly kept (List.append_nil _).symm growing
    simpa [reserved] using subset
  | unbound =>
    obtain ⟨_, _, _, _, same⟩ := binds _ rfl
    cases same
  | asked notBind =>
    obtain ⟨event, cb, arg, granted, same⟩ := binds _ rfl
    exact absurd same (notBind event cb arg granted)
  | rested =>
    rw [kept.awaited_idle rfl]
    exact List.nil_subset _
  | @started moment event data rest dispatch control pending queue ofEvent live running sameLive =>
    have processes : Processes
        { machine with
          dispatch := dispatch
          control := .visiting moment data.bindings
          trace := machine.trace ++
            [.started moment event (Dispatcher.callbacks (view.lists event))] }
        (view.setList event (Dispatcher.settledCells (view.lists event))) moment event := by
      refine ⟨running, ⟨data, rest, queue, ofEvent⟩, ?_⟩
      rw [View.setList_lists_self, active_settled]
      exact List.mem_append_right _ List.mem_cons_self
    rw [kept.awaited_processes processes, orderly.awaited_dispatching control,
      View.setList_queue, queue, List.tail_cons]
    intro given member
    rcases List.mem_append.mp member with first | later
    · -- callbacks are ahead only if the moment captured a binding
      cases captures : data.bindings with
      | none => simp [captures, current, Control.ahead] at first
      | some binding =>
        apply List.mem_filterMap.mpr
        refine ⟨(moment, data), List.mem_cons_self, ?_⟩
        rw [if_neg (by simp [captures])]
        unfold current at first
        split at first
        · cases first
        · exact Option.mem_toList.mp first
    · exact List.mem_filterMap.mpr (by
        obtain ⟨cell, inside, same⟩ := List.mem_filterMap.mp later
        exact ⟨cell, List.mem_cons_of_mem _ inside, same⟩)
  | @walked _ moment event data rest control added processes queue stride _ =>
    have nodup := (orderly.represents.lists event (orderly.live processes)).nodup
    have head : view.queue.head? = some (moment, data) := by
      rw [queue]
      rfl
    have account := stride.account nodup head machine.trace
    rw [kept.awaited_processes (processes.traced control added),
      orderly.awaited_processes processes]
    apply List.append_subset.mpr
    constructor
    · apply List.Subset.trans (current_subset _ ?_) (List.subset_append_left _ _)
      intro more none
      have calls := account.calls
      rw [none] at calls
      exact more (List.append_eq_nil_iff.mp calls).2
    · exact List.subset_append_right _ _
  | @returned moment event binding handled left passed content cells data rest dispatch processes
      control split queue running samePending events =>
    obtain ⟨_, _, first, ofEvent⟩ := processes.head
    cases queue.symm.trans first
    have nodup := (orderly.represents.lists event (orderly.live processes)).nodup
    have again : Processes
        { machine with
          dispatch := dispatch
          control := .visiting moment (refs cells).head?
          trace := machine.trace ++ [.returned moment left] }
        { view with queue := (moment, { data with handled := handled || left }) :: rest }
        moment event :=
      ⟨running.trans processes.running, ⟨_, _, rfl, ofEvent⟩,
        List.mem_append_left _ processes.begun⟩
    rw [kept.awaited_processes again, orderly.awaited_processes processes, control, queue]
    rw [split] at nodup ⊢
    rw [ahead_behind nodup, Control.ahead, fromBinding_split nodup]
    exact List.Subset.refl _
  | @finished moment event data rest dispatch processes control queue _ _ _ =>
    rw [kept.awaited_dispatching rfl, orderly.awaited_processes processes, queue]
    exact List.subset_append_right _ _

theorem Moved.gives (moved : machine.Moved view .internal next later)
    (orderly : machine.Orderly view) (full : ∀ cell ∈ view.queue, cell.2.data ≠ none)
    {moment binding : Nat} {handled : Bool}
    (calling : next.control = .calling moment binding handled) :
    ∃ data, next.given = some data ∧ data ∈ machine.awaited := by
  cases moved with
  | rested => cases calling
  | started => cases calling
  | finished => cases calling
  | @walked _ moment event data rest control added processes queue stride _ =>
    obtain rfl : control = .calling _ _ _ := calling
    have member : (moment, data) ∈ view.queue := by
      rw [queue]
      exact List.mem_cons_self
    have head : view.queue.head? = some (moment, data) := by
      rw [queue]
      rfl
    have nodup := (orderly.represents.lists event (orderly.live processes)).nodup
    have account := stride.account nodup head machine.trace
    obtain ⟨content, carried⟩ := Option.ne_none_iff_exists'.mp (full (moment, data) member)
    obtain ⟨behind, found⟩ := Segment.found orderly.represents.queue member
    generalize standing : machine.control = before at stride account
    cases stride with
    | called split bound =>
      refine ⟨content, ?_, ?_⟩
      · change (machine.dispatch.moments.cells moment).bind _ = _
        rw [found]
        exact carried
      · rw [orderly.awaited_processes processes, standing]
        apply List.mem_append_left
        unfold current
        rw [if_neg, head]
        · exact Option.mem_toList.mpr carried
        · intro none
          have calls := account.calls
          rw [none] at calls
          cases calls

theorem Moved.full (moved : machine.Moved view label next later)
    (full : ∀ cell ∈ view.queue, cell.2.data ≠ none)
    (binds : ∀ request, label = .call request →
      ∃ event cb arg granted, request = .bind event cb arg granted) :
    ∀ cell ∈ later.queue, cell.2.data ≠ none := by
  cases moved with
  | refused => exact full
  | bound => exact full
  | unbound => exact full
  | asked notBind =>
    obtain ⟨event, cb, arg, granted, same⟩ := binds _ rfl
    exact absurd same (notBind event cb arg granted)
  | rested => exact full
  | started => exact full
  | walked => exact full
  | @returned moment _ _ _ _ _ _ _ data _ _ _ _ _ queue =>
    rw [queue] at full
    intro cell member
    rcases List.mem_cons.mp member with rfl | behind
    · exact full (moment, data) List.mem_cons_self
    · exact full cell (List.mem_cons_of_mem _ behind)
  | finished _ _ queue =>
    rw [queue] at full
    intro cell member
    exact full cell (List.mem_cons_of_mem _ member)

theorem Moved.live (moved : machine.Moved view label next later) (event : Nat) :
    next.dispatch.events.Live event ↔ machine.dispatch.events.Live event := by
  cases moved with
  | refused => exact Iff.rfl
  | bound _ keeps => exact keeps.live event
  | unbound keeps => exact keeps.live event
  | asked _ _ keeps => exact keeps.live event
  | rested => exact Iff.rfl
  | started _ _ _ _ _ _ live => exact live event
  | walked => exact Iff.rfl
  | returned _ _ _ _ _ _ events =>
    rw [events]
  | finished _ _ _ _ _ live => exact live event

end Steps

section Programs

/-- The dispatcher of a program that keeps its bindings and the dispatcher. -/
structure Steady (machine : Machine Data) (view : View Data) : Prop where
  invariant : machine.Invariant True view
  full : ∀ cell ∈ view.queue, cell.2.data ≠ none

theorem Initial.steady {start : Machine Data} (initial : start.Initial) :
    start.Steady ⟨fun _ => [], []⟩ where
  invariant := initial.invariant
  full cell member := by cases member

theorem Steady.step (steady : machine.Steady view) (enabled : (system Data).Enabled machine label)
    (binds : ∀ request, label = .call request →
      ∃ event cb arg granted, request = .bind event cb arg granted) :
    ∃ next later, (system Data).step machine label = .ok next ∧ next.Steady later ∧
      machine.Moved view label next later ∧ next.awaited ⊆ machine.awaited := by
  have triggers : machine.TriggersOnly label := by
    cases label with
    | internal => trivial
    | ret left => trivial
    | call request =>
      obtain ⟨event, cb, arg, granted, rfl⟩ := binds request rfl
      trivial
  obtain ⟨next, later, returned, moved, kept⟩ :=
    steady.invariant.step enabled (steady.invariant.careful triggers)
  exact ⟨next, later, returned, ⟨kept, moved.full steady.full binds⟩, moved,
    moved.awaited steady.invariant.orderly kept.orderly binds⟩

theorem Steady.trigger (steady : machine.Steady view) (outside : machine.control.Outside)
    (live : machine.dispatch.events.Live event) (data : Data) :
    ∃ next later, machine.perform (.trigger event data none 0 true) = .ok next ∧
      next.Steady later ∧ machine.Keeps next ∧
      next.awaited ⊆ machine.awaited ++
        (if machine.dispatch.listed event = [] then [] else [data]) ∧
      (machine.control = .idle → next.control = .dispatching) := by
  obtain ⟨next, returned, orderly, keeps, queues, lasting⟩ :=
    steady.invariant.orderly.trigger outside live data none 0
  have invariant := steady.invariant.asked orderly keeps queues lasting
  refine ⟨next, _, returned, ⟨invariant, ?_⟩, keeps, ?_, ?_⟩
  · intro cell member
    rcases List.mem_append.mp member with old | new
    · exact steady.full cell old
    · obtain rfl := List.mem_singleton.mp new
      simp
  · have subset := keeps.awaited steady.invariant.orderly orderly rfl fun _ _ => Grown.refl _
    have own : reserved [(machine.dispatch.moments.fresh, (⟨some event, some data, false, none, 0,
        (refs (view.lists event)).head?⟩ : MomentData Data))] =
          if machine.dispatch.listed event = [] then [] else [data] := by
      rw [steady.invariant.orderly.represents.listed_eq live]
      cases view.lists event <;> rfl
    rw [own] at subset
    exact subset
  · intro idle
    refine keeps.control.elim (fun same => ?_) And.right
    have position := orderly.position
    rw [same, idle] at position
    simpa using position.2.1

end Programs

end Machine

end SpudLib
