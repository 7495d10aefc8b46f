import SpudLib.Eventing.Awaiting

/-!
# The dispatch loop comes to an end

The loop over moments runs until the queue is empty, while the callbacks it calls may
bind, so that the list being visited grows, and trigger, so that the queue does.  Each
such call brings a bounded amount of work, and every other step takes some away: between
two calls the loop cannot go on for ever, and it is never stuck on its way.
-/

namespace SpudLib

open Link

namespace EventLabel

variable {Data : Type}

/-- How many steps of the loop this is: it goes on, or a callback returns to it. -/
def loopSteps : EventLabel Data → Nat
  | .call _ => 0
  | _ => 1

def binds : EventLabel Data → Nat
  | .call (.bind ..) => 1
  | _ => 0

def triggers : EventLabel Data → Nat
  | .call (.trigger ..) | .call (.triggerPrepared ..) => 1
  | _ => 0

end EventLabel

namespace Control

def unstarted {Data : Type} (queue : List (Nat × MomentData Data)) :
    Control → List (Nat × MomentData Data)
  | .idle | .dispatching => queue
  | _ => queue.tail

/-- What the loop has to do if nobody acts: it is at one moment, and starts the others
with at most `bound` bindings each. -/
def work {Data : Type} (bound : Nat) (cells : List (Nat × BindingData))
    (queue : List (Nat × MomentData Data)) (control : Control) : Nat :=
  control.rank cells + (control.unstarted queue).length * (5 + 2 * bound)

theorem rank_le (cells : List (Nat × BindingData)) (control : Control) :
    control.rank cells ≤ 6 + 2 * cells.length := by
  have suffix : ∀ binding, (fromBinding binding cells).length ≤ cells.length := fun binding =>
    (List.dropWhile_suffix _).length_le
  cases control with
  | visiting moment binding =>
    cases binding with
    | none => simp only [rank]; omega
    | some binding =>
      have shorter := suffix binding
      simp only [rank]
      omega
  | calling moment binding handled =>
    have shorter := suffix binding
    simp only [rank, List.length_tail]
    omega
  | _ => simp only [rank]; omega

end Control

/-- Charging a moment pays for it and for the loop that goes to it. -/
theorem charge_eq (bound count : Nat) :
    (6 + 2 * bound) * count = count * (5 + 2 * bound) + count := by
  rw [show 6 + 2 * bound = 5 + 2 * bound + 1 by omega, Nat.succ_mul, Nat.mul_comm]

variable {cells later : List (Nat × BindingData)}

theorem Grown.lengths (grown : Grown cells later) :
    ∃ extra, later.length = cells.length + extra ∧
      ∀ binding, (fromBinding binding later).length ≤
        (fromBinding binding cells).length + extra := by
  induction grown with
  | @added later _ =>
    refine ⟨later.length, (Nat.zero_add _).symm, ?_⟩
    intro binding
    exact (List.dropWhile_suffix _).length_le.trans (Nat.le_add_left _ _)
  | @kept first data change cells later _ _ _ inductionHypothesis =>
    obtain ⟨extra, longer, behind⟩ := inductionHypothesis
    refine ⟨extra, by simp [longer]; omega, ?_⟩
    intro binding
    by_cases here : first = binding
    · have whole : later.length + 1 ≤ cells.length + 1 + extra := by omega
      simpa [fromBinding, here] using whole
    · simpa [fromBinding, here] using behind binding

theorem Grown.rank_le (grown : Grown cells later) (control : Control) :
    control.rank later ≤ control.rank cells + 2 * (later.length - cells.length) := by
  obtain ⟨extra, longer, behind⟩ := grown.lengths
  cases control with
  | visiting moment binding =>
    cases binding with
    | none => exact Nat.le_add_right _ _
    | some binding =>
      have further := behind binding
      simp only [Control.rank]
      omega
  | calling moment binding handled =>
    have further := behind binding
    simp only [Control.rank, List.length_tail]
    omega
  | _ => exact Nat.le_add_right _ _

theorem length_boundCells_le (cb arg fresh : Nat) (cells : List (Nat × BindingData)) :
    (Dispatcher.boundCells cb arg fresh cells).length ≤ cells.length + 1 := by
  induction cells with
  | nil => exact le_refl 1
  | cons cell rest inductionHypothesis =>
    unfold Dispatcher.boundCells
    split
    · simp
    · simpa using inductionHypothesis

theorem length_flaggedCells (cb : Nat) (cells : List (Nat × BindingData)) :
    (Dispatcher.flaggedCells cb cells).length = cells.length := by
  induction cells with
  | nil => rfl
  | cons cell rest inductionHypothesis =>
    unfold Dispatcher.flaggedCells
    split
    · rfl
    · simp [inductionHypothesis]

namespace Machine

variable {Data : Type} {machine next : Machine Data} {view later : View Data}
  {moment event bound : Nat} {label : EventLabel Data}

def current (machine : Machine Data) (view : View Data) : List (Nat × BindingData) :=
  match machine.dispatch.running with
  | some event => view.lists event
  | none => []

def work (bound : Nat) (machine : Machine Data) : Nat :=
  if machine.dispatch.freed then 0
  else machine.control.work bound (machine.current ⟨machine.dispatch.listed, machine.queued⟩)
    machine.queued

theorem Processes.current_eq (processes : machine.Processes view moment event) :
    machine.current view = view.lists event := by
  unfold current
  rw [processes.running]

theorem Orderly.current_eq (orderly : machine.Orderly view) :
    machine.current ⟨machine.dispatch.listed, machine.queued⟩ = machine.current view := by
  cases running : machine.dispatch.running with
  | none => simp only [current, running]
  | some event =>
    obtain ⟨busy, away⟩ := orderly.inside running
    obtain ⟨moment, other, processes⟩ := orderly.processes busy away
    cases running.symm.trans processes.running
    simp only [current, running]
    exact orderly.represents.listed_eq (orderly.live processes)

theorem Orderly.work_eq (orderly : machine.Orderly view) :
    machine.work bound = machine.control.work bound (machine.current view) view.queue := by
  have queued : machine.queued = view.queue := orderly.represents.queued_eq
  rw [work, orderly.alive, orderly.current_eq, queued]
  rfl

theorem Orderly.work_le (orderly : machine.Orderly view)
    (short : (machine.current view).length ≤ bound) :
    machine.work bound ≤ (6 + 2 * bound) * view.queue.length + 1 := by
  have rank := machine.control.rank_le (machine.current view)
  rw [orderly.work_eq, Control.work]
  by_cases idle : machine.control = .idle
  · have position := orderly.position
    rw [idle] at position ⊢
    simp [Control.rank, Control.unstarted, position.2.1]
  by_cases dispatching : machine.control = .dispatching
  · rw [dispatching]
    simp only [Control.rank, Control.unstarted, charge_eq]
    omega
  · obtain ⟨moment, event, processes⟩ := orderly.processes idle dispatching
    obtain ⟨data, rest, queue, _⟩ := processes.head
    have tail : machine.control.unstarted view.queue = rest := by
      rw [queue]
      cases control : machine.control with
      | idle => exact absurd control idle
      | dispatching => exact absurd control dispatching
      | _ => rfl
    rw [tail, queue, List.length_cons, Nat.mul_succ, charge_eq]
    omega

/-- What a call of the program adds to the lists and the queue. -/
structure Adds (machine : Machine Data) (label : EventLabel Data) (view later : View Data) :
    Prop where
  queue : later.queue.length ≤ view.queue.length + label.triggers
  lists : ∀ event, (later.lists event).length ≤ (view.lists event).length + label.binds
  running : ∀ event, machine.dispatch.running = some event →
    Grown (view.lists event) (later.lists event)

theorem Adds.same : machine.Adds label view view :=
  ⟨Nat.le_add_right _ _, fun _ => Nat.le_add_right _ _, fun _ _ => Grown.refl _⟩

theorem Adds.queued {cell : Nat × MomentData Data} (one : label.triggers = 1) :
    machine.Adds label view { view with queue := view.queue ++ [cell] } := by
  refine ⟨?_, fun _ => Nat.le_add_right _ _, fun _ _ => Grown.refl _⟩
  simp [one]

theorem Adds.edited {cells : List (Nat × BindingData)}
    (length : cells.length ≤ (view.lists event).length + label.binds)
    (grown : machine.dispatch.running = some event → Grown (view.lists event) cells) :
    machine.Adds label view (view.setList event cells) := by
  refine ⟨Nat.le_add_right _ _, ?_, ?_⟩
  · intro other
    by_cases same : other = event
    · subst same
      rw [View.setList_lists_self]
      exact length
    · rw [View.setList_lists_of_ne _ same]
      exact Nat.le_add_right _ _
  · intro other running
    by_cases same : other = event
    · subst same
      rw [View.setList_lists_self]
      exact grown running
    · rw [View.setList_lists_of_ne _ same]
      exact Grown.refl _

theorem Moved.adds (moved : machine.Moved view label next later)
    (edits : ∃ event cb, (∃ arg granted, label = .call (.bind event cb arg granted)) ∨
      label = .call (.unbind event cb)) : machine.Adds label view later := by
  cases moved with
  | refused => exact .same
  | bound =>
    apply Adds.edited
    · exact length_boundCells_le _ _ _ _
    · exact fun _ => boundCells_grown _ _ _ _
  | unbound =>
    split
    next running =>
      apply Adds.edited
      · exact (length_flaggedCells _ _).le
      · exact fun _ => flaggedCells_grown _ _
    next notRunning =>
      apply Adds.edited
      · exact (List.eraseP_sublist).length_le
      · exact fun running => absurd running notRunning
  | asked notBind notUnbind =>
    obtain ⟨event, cb, ⟨arg, granted, same⟩ | same⟩ := edits
    · cases same
      exact absurd rfl (notBind _ _ _ _)
    · cases same
      exact absurd rfl (notUnbind _ _)
  | walked _ _ _ onward => rcases onward with rfl | ⟨left, rfl⟩ <;> simp at edits
  | _ => simp at edits

theorem Orderly.called {request : EventCall Data} (orderly : machine.Orderly view)
    (enabled : (tolerantSystem Data).Enabled machine (.call request))
    (returned : machine.perform request = .ok next) :
    Gone machine next ∨ ∃ later, next.Orderly later ∧ machine.Keeps next ∧
      machine.Adds (.call request) view later := by
  obtain ⟨outside, _, allowed⟩ := enabled
  cases request with
  | bind event cb arg granted =>
    obtain ⟨_, later, again, kept, moved⟩ := orderly.bind outside allowed cb arg granted
    cases returned.symm.trans again
    refine .inr ⟨later, kept, ?_, moved.adds ⟨event, cb, .inl ⟨arg, granted, rfl⟩⟩⟩
    cases moved with
    | refused => exact .refl
    | bound _ keeps => exact keeps
    | asked _ _ keeps => exact keeps
    | walked _ _ _ onward => simp at onward
  | unbind event cb =>
    obtain ⟨_, later, again, kept, moved⟩ := orderly.unbind outside allowed.1 allowed.2
    cases returned.symm.trans again
    refine .inr ⟨later, kept, ?_, moved.adds ⟨event, cb, .inr rfl⟩⟩
    cases moved with
    | unbound keeps => exact keeps
    | asked _ _ keeps => exact keeps
    | walked _ _ _ onward => simp at onward
  | prepareTrigger granted =>
    cases granted with
    | false =>
      cases returned
      exact .inr ⟨view, orderly, .refl, .same⟩
    | true =>
      obtain ⟨dispatch, prepared, kept, keeps, _⟩ := orderly.prepareTrigger outside
      simp only [perform, prepared, Exec.pure_eq_ok] at returned
      cases returned
      exact .inr ⟨view, kept, keeps, .same⟩
  | unprepareTrigger moment =>
    obtain ⟨_, again, kept, keeps, _⟩ := orderly.unprepareTrigger outside allowed
    cases returned.symm.trans again
    exact .inr ⟨view, kept, keeps, .same⟩
  | trigger event data resultCb resultArg granted =>
    cases granted with
    | false =>
      cases returned
      exact .inr ⟨view, orderly, .refl, .same⟩
    | true =>
      obtain ⟨_, again, kept, keeps, _⟩ :=
        orderly.trigger outside allowed data resultCb resultArg
      cases returned.symm.trans again
      exact .inr ⟨_, kept, keeps, .queued rfl⟩
  | triggerPrepared event data resultCb resultArg moment =>
    obtain ⟨_, again, kept, keeps, _⟩ :=
      orderly.triggerPrepared outside allowed.1 allowed.2 data resultCb resultArg
    cases returned.symm.trans again
    exact .inr ⟨_, kept, keeps, .queued rfl⟩
  | destroy =>
    by_cases idle : machine.control = .idle
    · have position := orderly.position
      rw [idle] at position
      obtain ⟨after, destroyed, gone⟩ := orderly.destroy position.1 (.inl idle)
      simp only [perform, destroyed, Exec.ok_bind, Exec.pure_eq_ok] at returned
      cases returned
      exact .inl (gone _ rfl idle rfl rfl)
    · obtain ⟨_, again, kept, keeps, _⟩ := orderly.postpone outside idle
      cases returned.symm.trans again
      exact .inr ⟨view, kept, keeps, .same⟩

theorem control_of_perform {request : EventCall Data}
    (returned : machine.perform request = .ok next) :
    next.control = machine.control ∨
      EventLabel.triggers (.call request : EventLabel Data) = 1 := by
  cases request with
  | bind event cb arg granted =>
    obtain ⟨answer, _, rest⟩ := Exec.bind_eq_ok.mp returned
    cases rest
    exact .inl rfl
  | unbind event cb =>
    obtain ⟨dispatch, _, rest⟩ := Exec.bind_eq_ok.mp returned
    cases rest
    exact .inl rfl
  | prepareTrigger granted => cases granted <;> (cases returned; exact .inl rfl)
  | unprepareTrigger moment =>
    obtain ⟨moments, _, rest⟩ := Exec.bind_eq_ok.mp returned
    cases rest
    exact .inl rfl
  | trigger => exact .inr rfl
  | triggerPrepared => exact .inr rfl
  | destroy =>
    obtain ⟨dispatch, _, rest⟩ := Exec.bind_eq_ok.mp returned
    cases rest
    exact .inl rfl

def charge (bound : Nat) (label : EventLabel Data) : Nat :=
  2 * label.binds + (6 + 2 * bound) * label.triggers

theorem Adds.charged (adds : machine.Adds label view later) (keeps : machine.Keeps next)
    (orderly : machine.Orderly view) (kept : next.Orderly later)
    (control : next.control = machine.control ∨ label.triggers = 1) :
    next.work bound ≤ machine.work bound + charge bound label := by
  have current : Grown (machine.current view) (next.current later) ∧
      (next.current later).length ≤ (machine.current view).length + label.binds := by
    unfold Machine.current
    rw [keeps.running]
    cases running : machine.dispatch.running with
    | none => exact ⟨Grown.refl _, Nat.zero_le _⟩
    | some event => exact ⟨adds.running event running, adds.lists event⟩
  obtain ⟨grown, length⟩ := current
  have queue := adds.queue
  have moved : next.control.rank (next.current later) ≤
        machine.control.rank (machine.current view) + 2 * label.binds + label.triggers ∧
      (next.control.unstarted later.queue).length ≤
        (machine.control.unstarted view.queue).length + label.triggers := by
    by_cases same : next.control = machine.control
    · rw [same]
      have rank := grown.rank_le machine.control
      refine ⟨by omega, ?_⟩
      cases machine.control with
      | idle => exact queue
      | dispatching => exact queue
      | _ =>
        simp only [Control.unstarted, List.length_tail]
        omega
    · obtain ⟨idle, dispatching⟩ := keeps.control.resolve_left same
      rw [idle, dispatching, control.resolve_left same]
      refine ⟨?_, (control.resolve_left same) ▸ queue⟩
      simp only [Control.rank]
      omega
  rw [orderly.work_eq, kept.work_eq, Control.work, Control.work, charge, charge_eq]
  have started := Nat.mul_le_mul_right (5 + 2 * bound) moved.2
  rw [Nat.add_mul] at started
  omega

/-- What a step of the loop leaves to be done is less. -/
theorem Moved.pays (moved : machine.Moved view label next later) (orderly : machine.Orderly view)
    (kept : next.Orderly later) (onward : ∀ request, label ≠ .call request)
    (short : ∀ event, machine.dispatch.events.Live event →
      (view.lists event).length ≤ bound) :
    1 + next.work bound ≤ machine.work bound := by
  rw [orderly.work_eq, kept.work_eq, Control.work, Control.work]
  -- inside a moment the queue behind it stays
  have inside : ∀ {moment event}, machine.Processes view moment event →
      (next.control.unstarted later.queue).length = view.queue.tail.length →
      next.control.rank (next.current later) = next.control.rank (later.lists event) →
      1 + (next.control.rank (next.current later) +
        (next.control.unstarted later.queue).length * (5 + 2 * bound)) ≤
        machine.control.rank (machine.current view) +
          (machine.control.unstarted view.queue).length * (5 + 2 * bound) := by
    intro moment event processes behind current
    have closer := moved.rank orderly processes onward
    have before : machine.control.unstarted view.queue = view.queue.tail := by
      obtain ⟨busy, away⟩ := orderly.inside processes.running
      cases control : machine.control with
      | idle => exact absurd control busy
      | dispatching => exact absurd control away
      | _ => rfl
    rw [behind, before, current, processes.current_eq]
    omega
  cases moved with
  | refused => exact absurd rfl (onward _)
  | bound => exact absurd rfl (onward _)
  | unbound => exact absurd rfl (onward _)
  | asked => exact absurd rfl (onward _)
  | rested dispatching _ queue => simp [dispatching, queue, Control.rank, Control.unstarted]
  | @started moment event data rest dispatch dispatching _ queue _ live running =>
    have length : (Dispatcher.settledCells (view.lists event)).length ≤ bound := by
      rw [Dispatcher.settledCells, List.length_map]
      exact short event live
    have rank : (Control.visiting moment data.bindings).rank
        (Dispatcher.settledCells (view.lists event)) ≤ 5 + 2 * bound := by
      cases data.bindings with
      | none => exact Nat.le_add_right _ _
      | some binding =>
        have suffix : (fromBinding binding
            (Dispatcher.settledCells (view.lists event))).length ≤ _ :=
          (List.dropWhile_suffix _).length_le
        simp only [Control.rank]
        omega
    rw [dispatching, queue]
    simp only [current, running, View.setList_lists_self, Control.unstarted, View.setList_queue,
      queue, List.tail_cons, List.length_cons]
    rw [Nat.succ_mul rest.length,
      show ∀ cells, Control.rank cells .dispatching = 1 by simp [Control.rank]]
    omega
  | @walked _ moment event data rest control added processes queue stride _ =>
    apply inside processes
    · generalize machine.control = before at stride
      cases stride <;> rfl
    · have running := processes.running
      simp only [current, running]
  | @returned moment event binding handled left passed content cells data rest dispatch processes
      control split queue running =>
    apply inside processes
    · rw [queue]
      rfl
    · have same := running.trans processes.running
      simp only [current, same]
  | @finished moment event data rest dispatch processes control queue =>
    apply inside processes
    · rw [queue]
      rfl
    · rfl

theorem Moved.lists_le (moved : machine.Moved view label next later)
    (onward : ∀ request, label ≠ .call request) (event : Nat) :
    (later.lists event).length ≤ (view.lists event).length := by
  have edited : ∀ {other : Nat} {cells : List (Nat × BindingData)},
      cells.length ≤ (view.lists other).length →
        ((view.setList other cells).lists event).length ≤ (view.lists event).length := by
    intro other cells shorter
    by_cases same : event = other
    · subst same
      rwa [View.setList_lists_self]
    · rw [View.setList_lists_of_ne _ same]
  cases moved with
  | refused => exact absurd rfl (onward _)
  | bound => exact absurd rfl (onward _)
  | unbound => exact absurd rfl (onward _)
  | asked => exact absurd rfl (onward _)
  | rested => exact le_refl _
  | started =>
    apply edited
    rw [Dispatcher.settledCells, List.length_map]
  | walked => exact le_refl _
  | returned => exact le_refl _
  | finished => exact edited (List.length_filter_le _ _)

/-- With the bindings of `labels` still to come no list gets longer than `bound`. -/
def Fits (bound : Nat) (labels : List (EventLabel Data)) (machine : Machine Data) : Prop :=
  (∃ view, machine.Orderly view ∧ ∀ event, machine.dispatch.events.Live event →
    (view.lists event).length + (labels.map EventLabel.binds).sum ≤ bound) ∨
  ∃ before, Gone before machine

theorem Gone.work_eq {before : Machine Data} (gone : Gone before machine) :
    machine.work bound = 0 := by
  rw [work, gone.freed]
  rfl

/-- A step of the loop is paid for by the work it does. -/
theorem Fits.step {rest : List (EventLabel Data)} (fits : machine.Fits bound (label :: rest))
    (enabled : (tolerantSystem Data).Enabled machine label)
    (returned : (tolerantSystem Data).step machine label = .ok next) :
    next.Fits bound rest ∧
      label.loopSteps + next.work bound ≤ machine.work bound + charge bound label := by
  rcases fits with ⟨view, orderly, short⟩ | ⟨_, gone⟩
  · simp only [List.map_cons, List.sum_cons] at short
    by_cases called : ∃ request, label = .call request
    · obtain ⟨request, rfl⟩ := called
      rcases orderly.called enabled returned with gone | ⟨later, kept, keeps, adds⟩
      · rw [gone.work_eq]
        exact ⟨.inr ⟨machine, gone⟩, Nat.zero_le _⟩
      · refine ⟨.inl ⟨later, kept, ?_⟩, ?_⟩
        · intro event live
          have longer := adds.lists event
          have fit := short event ((keeps.live event).mp live)
          omega
        · have charged := @Adds.charged _ _ _ _ _ bound _ adds keeps orderly kept
            (control_of_perform returned)
          simpa [EventLabel.loopSteps] using charged
    · have onward : ∀ request, label ≠ .call request := fun request same => called ⟨request, same⟩
      have one : label.loopSteps = 1 := by
        cases label with
        | call request => exact absurd rfl (onward request)
        | _ => rfl
      rw [one]
      rcases orderly.step enabled with
        ⟨_, again, ⟨later, kept, moved⟩ | ⟨gone, _⟩⟩ | ⟨faulted, _⟩
      · cases returned.symm.trans again
        have shrunk := moved.lists_le onward
        refine ⟨.inl ⟨later, kept, ?_⟩, ?_⟩
        · intro event live
          have shorter := shrunk event
          have fit := short event ((moved.live event).mp live)
          omega
        · refine (moved.pays orderly kept onward ?_).trans (Nat.le_add_right _ _)
          intro event live
          have fit := short event live
          omega
      · -- the loop comes back to its head and destroys the dispatcher
        cases returned.symm.trans again
        refine ⟨.inr ⟨machine, gone⟩, ?_⟩
        have dispatching : machine.control = .dispatching := by
          refine gone.unoccupied.resolve_left fun idle => ?_
          cases label with
          | internal => exact enabled (by rw [idle]; trivial)
          | ret left => exact enabled.2 idle
          | call request => exact onward request rfl
        rw [gone.work_eq, orderly.work_eq, Control.work, dispatching]
        simp only [Control.rank]
        omega
      · cases returned.symm.trans faulted
  · exact absurd enabled (gone.stops label)

/-- Nothing but a binding that is gone keeps an enabled step from returning. -/
theorem Orderly.goesOn (orderly : machine.Orderly view) (intact : ¬ machine.Dangles)
    (enabled : (tolerantSystem Data).Enabled machine label) :
    ∃ next, (tolerantSystem Data).step machine label = .ok next := by
  rcases orderly.step enabled with ⟨next, returned, _⟩ | ⟨_, _, dangles⟩
  · exact ⟨next, returned⟩
  · exact absurd dangles intact

/-- What the program outside does between two calls is waited for, and no more: the loop
takes boundedly many steps for the moments in the queue and those that callbacks put there,
it can go on unless it is at a binding that is gone, and once it is idle it has let go of every
moment triggered. -/
theorem run_drains {start last : Machine Data} {before labels : List (EventLabel Data)}
    (initial : start.Initial) (reached : (tolerantSystem Data).Run start before machine)
    {longest : Nat} (listed : ∀ event, machine.dispatch.events.Live event →
      (machine.dispatch.listed event).length ≤ longest)
    (run : (tolerantSystem Data).Run machine labels last) :
    let binds := (labels.map EventLabel.binds).sum
    let triggers := (labels.map EventLabel.triggers).sum
    (labels.map EventLabel.loopSteps).sum ≤
        (6 + 2 * (longest + binds)) * (machine.queued.length + triggers) + 2 * binds + 1 ∧
      (last.control ≠ .idle → ¬ last.Dangles → ∃ (label : EventLabel Data) (next : Machine Data),
        label.loopSteps = 1 ∧ (tolerantSystem Data).Enabled last label ∧
          (tolerantSystem Data).step last label = .ok next) ∧
      (last.control = .idle → ∀ trigger ∈ last.triggered,
        last.dispatch.moments.Freed trigger.moment) := by
  intro binds triggers
  have charged : (labels.map (charge (longest + binds))).sum =
      2 * binds + (6 + 2 * (longest + binds)) * triggers := by
    generalize longest + binds = bound
    simp only [binds, triggers]
    clear run
    induction labels with
    | nil => rfl
    | cons label labels inductionHypothesis =>
      simp only [List.map_cons, List.sum_cons, inductionHypothesis, charge, Nat.mul_add]
      omega
  have fits : machine.Fits (longest + binds) labels := by
    rcases orderly_of_run initial reached with ⟨view, orderly⟩ | gone
    · refine .inl ⟨view, orderly, ?_⟩
      intro event live
      have short := listed event live
      rw [orderly.represents.listed_eq live] at short
      exact Nat.add_le_add_right short _
    · exact .inr gone
  obtain ⟨fitsLast, account⟩ := run.amortizes (Fits (longest + binds)) (work (longest + binds))
    EventLabel.loopSteps (charge (longest + binds))
    (fun _ _ _ _ fits enabled returned => fits.step enabled returned) fits
  refine ⟨?_, ?_, ?_⟩
  · have owed : machine.work (longest + binds) ≤
        (6 + 2 * (longest + binds)) * machine.queued.length + 1 := by
      rcases fits with ⟨view, orderly, short⟩ | ⟨_, gone⟩
      · have queued : machine.queued = view.queue := orderly.represents.queued_eq
        rw [queued]
        apply orderly.work_le
        unfold current
        split
        next event running =>
          obtain ⟨busy, away⟩ := orderly.inside running
          obtain ⟨moment, other, processes⟩ := orderly.processes busy away
          cases running.symm.trans processes.running
          exact (Nat.le_add_right _ _).trans (short event (orderly.live processes))
        next => exact Nat.zero_le _
      · rw [gone.work_eq]
        exact Nat.zero_le _
    rw [Nat.mul_add]
    omega
  · intro busy intact
    rcases fitsLast with ⟨view, orderly, _⟩ | ⟨_, gone⟩
    · by_cases outside : last.control.Outside
      · obtain ⟨next, returned⟩ := orderly.goesOn intact
          (show (tolerantSystem Data).Enabled last (.ret false) from ⟨outside, busy⟩)
        exact ⟨.ret false, next, rfl, ⟨outside, busy⟩, returned⟩
      · obtain ⟨next, returned⟩ := orderly.goesOn intact
          (show (tolerantSystem Data).Enabled last .internal from outside)
        exact ⟨.internal, next, rfl, outside, returned⟩
    · exact absurd gone.control busy
  · intro idle trigger member
    rcases fitsLast with ⟨view, orderly, _⟩ | ⟨_, gone⟩
    · have position := orderly.position
      rw [idle] at position
      have accounted := orderly.accounted trigger.moment (List.mem_map_of_mem member)
      rw [position.2.1] at accounted
      exact accounted.resolve_left List.not_mem_nil
    · exact gone.moments trigger.moment (List.mem_map_of_mem member)

/-- A callback binds another and triggers the second event; the loop skips the new binding,
finishes the moment and takes the next. -/
def bindAndTrigger : List (EventLabel Unit) :=
  [.call (.bind 0 10 0 true), .call (.trigger 0 () none 0 true), .internal, .internal,
    .call (.bind 0 11 0 true), .call (.trigger 1 () none 0 true), .ret false, .internal, .internal,
    .internal, .internal, .internal, .internal, .internal, .internal, .internal]

theorem run_drains_bindAndTrigger : ∃ last : Machine Unit,
    (tolerantSystem Unit).Run twoEvents bindAndTrigger last ∧
      last.control = .idle ∧ last.triggered.length = 2 ∧
      (bindAndTrigger.map EventLabel.loopSteps).sum = 12 ∧
      (bindAndTrigger.map EventLabel.loopSteps).sum ≤ 25 ∧
      ∀ trigger ∈ last.triggered, last.dispatch.moments.Freed trigger.moment := by
  obtain ⟨last, run, idle, count⟩ : ∃ last : Machine Unit,
      (tolerantSystem Unit).Run twoEvents bindAndTrigger last ∧
        last.control = .idle ∧ last.triggered.length = 2 := by
    refine System.Run.exists_cons ⟨trivial, rfl, _, rfl⟩ rfl ?_
    refine System.Run.exists_cons ⟨trivial, rfl, _, rfl⟩ rfl ?_
    refine System.Run.exists_cons id rfl ?_
    refine System.Run.exists_cons id rfl ?_
    refine System.Run.exists_cons ⟨trivial, rfl, _, rfl⟩ rfl ?_
    refine System.Run.exists_cons ⟨trivial, rfl, _, rfl⟩ rfl ?_
    refine System.Run.exists_cons ⟨trivial, by simp⟩ rfl ?_
    refine System.Run.exists_cons id rfl ?_
    refine System.Run.exists_cons id rfl ?_
    refine System.Run.exists_cons id rfl ?_
    refine System.Run.exists_cons id rfl ?_
    refine System.Run.exists_cons id rfl ?_
    refine System.Run.exists_cons id rfl ?_
    refine System.Run.exists_cons id rfl ?_
    refine System.Run.exists_cons id rfl ?_
    refine System.Run.exists_cons id rfl ?_
    exact ⟨_, .nil _, rfl, rfl⟩
  have unbound : ∀ event, twoEvents.dispatch.events.Live event →
      (twoEvents.dispatch.listed event).length ≤ 0 := by
    rintro event ⟨notifier, found⟩
    have none := twoEvents_initial.unbound event notifier found
    simp only [Dispatcher.listed, found, none]
    rfl
  obtain ⟨bounded, _, drained⟩ := run_drains twoEvents_initial (.nil _) unbound run
  exact ⟨last, run, idle, count, rfl, bounded, drained idle⟩

end Machine

end SpudLib
