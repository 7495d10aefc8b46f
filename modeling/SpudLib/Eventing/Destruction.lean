import SpudLib.Eventing.Moments
import SpudLib.Eventing.Steps

/-!
# Destroying a dispatcher from its own callbacks

`ls_event_dispatcher_destroy` is put off while an event is running.  The moment
being processed goes on as if nothing had been asked; the loop over moments then
ends, and frees the dispatcher with its events and every moment still queued.
-/

namespace SpudLib

open Link

def Entry.result? : Entry → Option Nat
  | .reported _ resultCb _ => some resultCb
  | _ => none

def reports (entries : List Entry) : List Nat := entries.filterMap Entry.result?

@[simp] theorem reports_append (front back : List Entry) :
    reports (front ++ back) = reports front ++ reports back := List.filterMap_append

def fromBinding (binding : Nat) (cells : List (Nat × BindingData)) : List (Nat × BindingData) :=
  cells.dropWhile fun cell => cell.1 ≠ binding

namespace Control

/-- The callbacks of `cells` that the loop has yet to call. -/
def ahead (cells : List (Nat × BindingData)) : Control → List Nat
  | .visiting _ (some binding) => active (fromBinding binding cells)
  | .calling _ binding _ => active (fromBinding binding cells).tail
  | _ => []

def unreported {Data : Type} (queue : List (Nat × MomentData Data)) : Control → Option Nat
  | .visiting .. | .calling .. | .reporting _ => queue.head?.bind fun cell => cell.2.resultCb
  | _ => none

/-- How many steps the loop is from its end, if nobody binds. -/
def rank (cells : List (Nat × BindingData)) : Control → Nat
  | .idle => 0
  | .dispatching => 1
  | .finishing _ => 2
  | .resulting _ => 3
  | .reporting _ => 4
  | .visiting _ none => 5
  | .visiting _ (some binding) => 5 + 2 * (fromBinding binding cells).length
  | .calling _ binding _ => 6 + 2 * (fromBinding binding cells).tail.length

end Control

section Ahead

variable {passed rest cells later : List (Nat × BindingData)} {binding moment : Nat}
  {content : BindingData}

theorem fromBinding_split (nodup : (refs (passed ++ (binding, content) :: rest)).Nodup) :
    fromBinding binding (passed ++ (binding, content) :: rest) = (binding, content) :: rest := by
  obtain ⟨once, _, _⟩ := once_of_nodup nodup
  rw [fromBinding, List.dropWhile_append_of_pos]
  · simp
  · intro cell member
    simp only [decide_eq_true_eq]
    rintro rfl
    exact once (List.mem_map_of_mem member)

theorem ahead_visiting (nodup : (refs (passed ++ rest)).Nodup) :
    Control.ahead (passed ++ rest) (.visiting moment (refs rest).head?) = active rest := by
  cases rest with
  | nil => rfl
  | cons cell rest =>
    obtain ⟨binding, content⟩ := cell
    exact congrArg active (fromBinding_split nodup)

theorem ahead_behind (nodup : (refs (passed ++ (binding, content) :: rest)).Nodup) :
    Control.ahead (passed ++ (binding, content) :: rest) (.visiting moment (refs rest).head?) =
      active rest := by
  rw [List.append_cons] at nodup ⊢
  exact ahead_visiting nodup

theorem rank_visiting (nodup : (refs (passed ++ rest)).Nodup) :
    Control.rank (passed ++ rest) (.visiting moment (refs rest).head?) = 5 + 2 * rest.length := by
  cases rest with
  | nil => rfl
  | cons cell rest =>
    obtain ⟨binding, content⟩ := cell
    exact congrArg (fun cells => 5 + 2 * List.length cells) (fromBinding_split nodup)

theorem active_of_skipped (skipped : ∀ cell ∈ cells, cell.2.normalBound = false) :
    active cells = [] := by
  have none : cells.filter (fun cell => cell.2.normalBound) = [] := by
    apply List.filter_eq_nil_iff.mpr
    intro cell member
    simp [skipped cell member]
  rw [active, none]
  rfl

/-- Edits from a callback leave the callbacks that are ahead. -/
theorem Grown.ahead (grown : Grown cells later) (control : Control) :
    control.ahead later = control.ahead cells := by
  have both : ∀ binding, active (fromBinding binding later) = active (fromBinding binding cells) ∧
      active (fromBinding binding later).tail = active (fromBinding binding cells).tail := by
    intro binding
    induction grown with
    | @added later skipped =>
      have dropped : ∀ cell ∈ fromBinding binding later, cell.2.normalBound = false :=
        fun cell member => skipped cell (List.dropWhile_sublist _ |>.subset member)
      refine ⟨active_of_skipped dropped, active_of_skipped ?_⟩
      intro cell member
      exact dropped cell (List.mem_of_mem_tail member)
    | @kept first data change cells later sameCb sameBound grown inductionHypothesis =>
      by_cases here : first = binding
      · subst here
        have whole : active ((first, change) :: later) = active ((first, data) :: cells) :=
          (Grown.kept sameCb sameBound grown).active_eq
        simp only [fromBinding, List.dropWhile_cons, ne_eq, not_true_eq_false, decide_false,
          Bool.false_eq_true, if_false, List.tail_cons]
        exact ⟨whole, grown.active_eq⟩
      · simpa [fromBinding, List.dropWhile_cons, here] using inductionHypothesis
  cases control with
  | visiting moment binding =>
    cases binding with
    | none => rfl
    | some binding => exact (both binding).1
  | calling moment binding handled => exact (both binding).2
  | idle => rfl
  | dispatching => rfl
  | reporting => rfl
  | resulting => rfl
  | finishing => rfl

end Ahead

/-- What was added to a trace is about one moment, and calls what was ahead and
is not any more. -/
structure Continues (moment : Nat) (trace later : List Entry) (ahead aheadLater : List Nat)
    (due dueLater : Option Nat) (added : List Entry) : Prop where
  trace : later = trace ++ added
  about : ∀ entry ∈ added, entry.moment = moment
  calls : calls added ++ aheadLater = ahead
  reports : reports added ++ dueLater.toList = due.toList

theorem Continues.refl (moment : Nat) (trace : List Entry) (ahead : List Nat) (due : Option Nat) :
    Continues moment trace trace ahead ahead due due [] :=
  ⟨(List.append_nil _).symm, fun _ member => absurd member List.not_mem_nil, rfl, rfl⟩

theorem Continues.trans {moment : Nat} {trace middle later : List Entry}
    {ahead aheadMiddle aheadLater : List Nat} {due dueMiddle dueLater : Option Nat}
    {added more : List Entry}
    (first : Continues moment trace middle ahead aheadMiddle due dueMiddle added)
    (second : Continues moment middle later aheadMiddle aheadLater dueMiddle dueLater more) :
    Continues moment trace later ahead aheadLater due dueLater (added ++ more) := by
  constructor
  · rw [second.trace, first.trace, List.append_assoc]
  · intro entry member
    exact (List.mem_append.mp member).elim (first.about entry) (second.about entry)
  · rw [calls_append, List.append_assoc, second.calls, first.calls]
  · rw [reports_append, List.append_assoc, second.reports, first.reports]

namespace Machine

variable {Data : Type} {machine next : Machine Data} {view later : View Data}
  {moment event : Nat} {label : EventLabel Data}

def remaining (machine : Machine Data) : List Nat :=
  match machine.dispatch.running with
  | some event => machine.control.ahead (machine.dispatch.listed event)
  | none => []

def unreported (machine : Machine Data) : Option Nat := machine.control.unreported machine.queued

/-- The destruction of the dispatcher `asked` was put off, and the loop is still
at the moment it was at, or has just finished it. -/
structure Closing (asked : Machine Data) (moment event : Nat) (machine : Machine Data)
    (view : View Data) : Prop where
  orderly : machine.Orderly view
  pending : machine.dispatch.destroyPending = true
  live : ∀ other, machine.dispatch.events.Live other ↔ asked.dispatch.events.Live other
  place : machine.Processes view moment event ∨
    machine.control = .dispatching ∧ machine.trace.getLast? = some (.finished moment)
  account : ∃ added, Continues moment asked.trace machine.trace asked.remaining
    (machine.control.ahead (view.lists event)) asked.unreported
    (machine.control.unreported view.queue) added

/-- The dispatcher was destroyed after the moment it was at: what the trace has
gained since is the rest of that moment. -/
structure Concluded (asked : Machine Data) (moment : Nat) (last : Machine Data)
    (added : List Entry) : Prop where
  trace : last.trace = asked.trace ++ added
  about : ∀ entry ∈ added, entry.moment = moment
  calls : calls added = asked.remaining
  reports : reports added = asked.unreported.toList
  finished : last.trace.getLast? = some (.finished moment)
  control : last.control = .idle
  dispatcher : last.dispatch.freed = true
  events : ∀ event, asked.dispatch.events.Live event → last.dispatch.events.Freed event
  moments : ∀ trigger ∈ last.triggered, last.dispatch.moments.Freed trigger.moment
  closed : ∀ label, ¬ (tolerantSystem Data).Enabled last label

theorem Stride.account {cells : List (Nat × BindingData)} {data : MomentData Data}
    {before control : Control} {added : List Entry} {queue : List (Nat × MomentData Data)}
    (stride : Stride cells moment data before added control) (nodup : (refs cells).Nodup)
    (head : queue.head? = some (moment, data)) (trace : List Entry) :
    Continues moment trace (trace ++ added) (before.ahead cells) (control.ahead cells)
      (before.unreported queue) (control.unreported queue) added := by
  have due : (queue.head?.bind fun cell => cell.2.resultCb) = data.resultCb := by
    rw [head]
    rfl
  cases stride with
  | ended => exact ⟨rfl, nofun, rfl, rfl⟩
  | @skipped passed binding content rest split skipped =>
    subst split
    refine ⟨rfl, nofun, ?_, rfl⟩
    rw [ahead_behind nodup, Control.ahead, fromBinding_split nodup, active_cons, skipped]
    rfl
  | @called passed binding content rest split bound =>
    subst split
    refine ⟨rfl, ?_, ?_, rfl⟩
    · intro entry member
      obtain rfl := List.mem_singleton.mp member
      rfl
    · rw [Control.ahead, Control.ahead, fromBinding_split nodup, active_cons, bound]
      rfl
  | unreported silent =>
    refine ⟨rfl, nofun, rfl, ?_⟩
    rw [Control.unreported, due, silent]
    rfl
  | @reported resultCb answers =>
    refine ⟨rfl, ?_, rfl, ?_⟩
    · intro entry member
      obtain rfl := List.mem_singleton.mp member
      rfl
    · change [resultCb] ++ [] = (queue.head?.bind fun cell => cell.2.resultCb).toList
      rw [due, answers]
      rfl
  | resumed => exact ⟨rfl, nofun, rfl, rfl⟩

structure Accounted (machine : Machine Data) (view : View Data) (moment event : Nat)
    (next : Machine Data) (later : View Data) : Prop where
  pending : next.dispatch.destroyPending = true
  live : ∀ other, next.dispatch.events.Live other ↔ machine.dispatch.events.Live other
  place : next.Processes later moment event ∨
    next.control = .dispatching ∧ next.trace.getLast? = some (.finished moment)
  account : ∃ added, Continues moment machine.trace next.trace
    (machine.control.ahead (view.lists event)) (next.control.ahead (later.lists event))
    (machine.control.unreported view.queue) (next.control.unreported later.queue) added

/-- A caller can queue moments and edit lists, and the loop has the same ahead of it. -/
theorem Keeps.accounted {more : List (Nat × MomentData Data)} (keeps : machine.Keeps next)
    (pending : machine.dispatch.destroyPending = true) (busy : machine.control ≠ .idle)
    (processes : machine.Processes view moment event)
    (queue : later.queue = view.queue ++ more)
    (grown : Grown (view.lists event) (later.lists event)) :
    machine.Accounted view moment event next later := by
  have control := keeps.control.resolve_right fun idle => busy idle.1
  obtain ⟨data, rest, head, ofEvent⟩ := processes.head
  constructor
  · exact keeps.pending pending
  · exact keeps.live
  · refine .inl ⟨keeps.running.trans processes.running, ?_, ?_⟩
    · exact ⟨data, rest ++ more, by rw [queue, head, List.cons_append], ofEvent⟩
    · rw [keeps.trace, grown.active_eq]
      exact processes.begun
  · refine ⟨[], ?_⟩
    rw [control, keeps.trace, Grown.ahead grown, queue, head]
    exact Continues.refl _ _ _ _

/-- Inside a moment every step is accounted for, and at its end the moment is
finished and the loop is back at its head. -/
theorem Moved.accounted (moved : machine.Moved view label next later)
    (orderly : machine.Orderly view) (pending : machine.dispatch.destroyPending = true)
    (processes : machine.Processes view moment event) :
    machine.Accounted view moment event next later := by
  obtain ⟨busy, away⟩ := orderly.inside processes.running
  have nodup := (orderly.represents.lists event (orderly.live processes)).nodup
  have head : (refs view.queue).head? = some moment := by
    obtain ⟨data, rest, queue, _⟩ := processes.head
    rw [queue]
    rfl
  cases moved with
  | refused =>
    exact Keeps.refl.accounted pending busy processes (List.append_nil _).symm (Grown.refl _)
  | @bound other cb arg granted _ _ keeps =>
    refine keeps.accounted pending busy processes (List.append_nil _).symm ?_
    by_cases here : event = other
    · subst here
      rw [View.setList_lists_self]
      exact boundCells_grown cb arg _ _
    · rw [View.setList_lists_of_ne _ here]
      exact Grown.refl _
  | @unbound other cb _ keeps =>
    refine keeps.accounted pending busy processes (List.append_nil _).symm ?_
    by_cases here : event = other
    · subst here
      rw [View.setList_lists_self, if_pos processes.running]
      exact flaggedCells_grown cb _
    · rw [View.setList_lists_of_ne _ here]
      exact Grown.refl _
  | asked _ _ keeps => exact keeps.accounted pending busy processes rfl (Grown.refl _)
  | rested dispatching => exact absurd dispatching away
  | started dispatching => exact absurd dispatching away
  | @walked _ now here data rest control added again queue stride _ =>
    obtain ⟨rfl, rfl⟩ := again.unique processes.running head
    have first : view.queue.head? = some (now, data) := by rw [queue]; rfl
    exact ⟨pending, fun _ => Iff.rfl, .inl (processes.traced control added), added,
      stride.account nodup first machine.trace⟩
  | @returned now here binding handled left passed content cells data rest dispatch again control
      split queue running samePending events =>
    obtain ⟨rfl, rfl⟩ := again.unique processes.running head
    obtain ⟨_, _, first, ofEvent⟩ := again.head
    cases queue.symm.trans first
    rw [split] at nodup
    constructor
    · exact samePending.trans pending
    · intro other
      change dispatch.events.Live other ↔ _
      rw [events]
    · refine .inl ⟨running.trans processes.running, ?_, ?_⟩
      · exact ⟨{ data with handled := handled || left }, rest, rfl, ofEvent⟩
      · exact List.mem_append_left _ processes.begun
    · refine ⟨[.returned _ left], rfl, ?_, ?_, ?_⟩
      · intro entry member
        obtain rfl := List.mem_singleton.mp member
        rfl
      · rw [control]
        change [] ++ Control.ahead (view.lists here) (.visiting now (refs cells).head?) = _
        rw [split, ahead_behind nodup, Control.ahead, fromBinding_split nodup]
        rfl
      · rw [control, queue]
        rfl
  | @finished _ _ data rest dispatch again control queue _ samePending live =>
    obtain ⟨rfl, rfl⟩ := again.unique processes.running head
    constructor
    · exact samePending.trans pending
    · exact live
    · exact .inr ⟨rfl, List.getLast?_concat⟩
    · refine ⟨[.finished _], rfl, ?_, ?_, ?_⟩
      · intro entry member
        obtain rfl := List.mem_singleton.mp member
        rfl
      · rw [control]
        rfl
      · rw [control]
        rfl

theorem Moved.rank (moved : machine.Moved view label next later)
    (orderly : machine.Orderly view) (processes : machine.Processes view moment event)
    (onward : ∀ request, label ≠ .call request) :
    next.control.rank (later.lists event) < machine.control.rank (view.lists event) := by
  obtain ⟨busy, away⟩ := orderly.inside processes.running
  have nodup := (orderly.represents.lists event (orderly.live processes)).nodup
  have head : (refs view.queue).head? = some moment := by
    obtain ⟨data, rest, queue, _⟩ := processes.head
    rw [queue]
    rfl
  cases moved with
  | refused => exact absurd rfl (onward _)
  | bound => exact absurd rfl (onward _)
  | unbound => exact absurd rfl (onward _)
  | asked => exact absurd rfl (onward _)
  | rested dispatching => exact absurd dispatching away
  | started dispatching => exact absurd dispatching away
  | @walked _ now here data rest control added again queue stride _ =>
    obtain ⟨rfl, rfl⟩ := again.unique processes.running head
    change control.rank (view.lists here) < _
    generalize machine.control = before at stride ⊢
    cases stride with
    | ended => exact Nat.lt_succ_self 4
    | @skipped passed binding content rest split skipped =>
      rw [split] at nodup ⊢
      have onward : Control.rank (passed ++ (binding, content) :: rest)
          (.visiting now (refs rest).head?) = 5 + 2 * rest.length := by
        rw [List.append_cons] at nodup ⊢
        exact rank_visiting nodup
      rw [onward, Control.rank, fromBinding_split nodup, List.length_cons]
      omega
    | @called passed binding content rest split bound =>
      rw [split] at nodup ⊢
      rw [Control.rank, Control.rank, fromBinding_split nodup, List.length_cons, List.tail_cons]
      omega
    | unreported => exact (by decide : 2 < 4)
    | reported => exact Nat.lt_succ_self 3
    | resumed => exact Nat.lt_succ_self 2
  | @returned now here binding handled left passed content cells data rest dispatch again control
      split _ _ _ _ =>
    obtain ⟨rfl, rfl⟩ := again.unique processes.running head
    rw [control]
    change Control.rank (view.lists here) (.visiting now (refs cells).head?) < _
    rw [split] at nodup ⊢
    have onward : Control.rank (passed ++ (binding, content) :: cells)
        (.visiting now (refs cells).head?) = 5 + 2 * cells.length := by
      rw [List.append_cons] at nodup ⊢
      exact rank_visiting nodup
    rw [onward, Control.rank, fromBinding_split nodup, List.tail_cons]
    omega
  | finished _ control =>
    rw [control]
    exact Nat.lt_succ_self 1

variable {asked : Machine Data}

theorem Closing.step (closing : Closing asked moment event machine view)
    (enabled : (tolerantSystem Data).Enabled machine label) :
    ∃ next, (tolerantSystem Data).step machine label = .ok next ∧
      ((∃ later, Closing asked moment event next later ∧
        ((∀ request, label ≠ .call request) →
          next.control.rank (later.lists event) < machine.control.rank (view.lists event))) ∨
      ∃ added, Concluded asked moment next added) := by
  obtain ⟨sofar, account⟩ := closing.account
  rcases closing.orderly.step enabled with
    ⟨next, returned, ⟨later, kept, moved⟩ | ⟨gone, _⟩⟩ | ⟨_, lasting, _⟩
  · refine ⟨next, returned, ?_⟩
    rcases closing.place with processes | ⟨dispatching, _⟩
    · obtain ⟨pending, live, place, more, further⟩ :=
        moved.accounted closing.orderly closing.pending processes
      left
      refine ⟨later, ⟨kept, pending, ?_, place, _, account.trans further⟩, ?_⟩
      · intro other
        exact (live other).trans (closing.live other)
      · exact moved.rank closing.orderly processes
    · -- at its head the loop sees that the dispatcher is to be destroyed
      exfalso
      have outside : ∀ request, label ≠ .call request := by
        rintro request rfl
        have standing := enabled.1
        rw [dispatching] at standing
        exact standing
      cases moved with
      | refused => exact outside _ rfl
      | bound => exact outside _ rfl
      | unbound => exact outside _ rfl
      | asked => exact outside _ rfl
      | rested _ lasting => cases closing.pending.symm.trans lasting
      | started _ lasting => cases closing.pending.symm.trans lasting
      | walked _ _ stride =>
        rw [dispatching] at stride
        cases stride
      | returned _ calling => cases dispatching.symm.trans calling
      | finished _ finishing => cases dispatching.symm.trans finishing
  · refine ⟨next, returned, .inr ?_⟩
    rcases closing.place with processes | ⟨dispatching, finished⟩
    · obtain ⟨busy, away⟩ := closing.orderly.inside processes.running
      exact (gone.unoccupied.elim busy away).elim
    · refine ⟨sofar, ?_⟩
      rw [dispatching] at account
      constructor
      · rw [gone.trace]
        exact account.trace
      · exact account.about
      · exact (List.append_nil _).symm.trans account.calls
      · exact (List.append_nil _).symm.trans account.reports
      · rw [gone.trace]
        exact finished
      · exact gone.control
      · exact gone.freed
      · intro other live
        exact gone.events other ((closing.live other).mpr live)
      · intro trigger member
        exact gone.moments trigger.moment (List.mem_map_of_mem member)
      · exact gone.stops
  · cases closing.pending.symm.trans lasting

/-- Whatever is done after the destruction was asked for, the machine is closing
or everything has ended. -/
theorem closing_of_run {labels : List (EventLabel Data)} {last : Machine Data}
    (closing : ∃ view, Closing asked moment event asked view)
    (run : (tolerantSystem Data).Run asked labels last) :
    (∃ view, Closing asked moment event last view) ∨
      ∃ added, Concluded asked moment last added := by
  refine run.preserves (fun state => (∃ view, Closing asked moment event state view) ∨
    ∃ added, Concluded asked moment state added) ?_ (.inl closing)
  rintro state label next (⟨view, closing⟩ | ⟨added, concluded⟩) enabled stepped
  · obtain ⟨_, returned, outcome⟩ := closing.step enabled
    cases stepped.symm.trans returned
    exact outcome.imp_left fun ⟨later, closing, _⟩ => ⟨later, closing⟩
  · exact absurd enabled (concluded.closed label)

theorem Closing.returns (closing : Closing asked moment event machine view) :
    ∃ labels last, (tolerantSystem Data).Run machine labels last ∧ last.control = .idle := by
  generalize size : machine.control.rank (view.lists event) = rank
  induction rank using Nat.strongRecOn generalizing machine view with
  | ind rank inductionHypothesis =>
    -- the loop goes on, or the callback that runs returns
    obtain ⟨label, enabled, onward⟩ : ∃ label, (tolerantSystem Data).Enabled machine label ∧
        ∀ request, label ≠ .call request := by
      by_cases outside : machine.control.Outside
      · refine ⟨.ret false, ⟨outside, ?_⟩, nofun⟩
        rcases closing.place with processes | ⟨dispatching, _⟩
        · exact (closing.orderly.inside processes.running).1
        · rw [dispatching] at outside
          exact outside.elim
      · exact ⟨.internal, outside, nofun⟩
    obtain ⟨next, returned, ⟨later, further, closer⟩ | ⟨added, concluded⟩⟩ := closing.step enabled
    · obtain ⟨labels, last, run, idle⟩ :=
        inductionHypothesis _ (size ▸ closer onward) further rfl
      exact ⟨label :: labels, last, .cons enabled returned run, idle⟩
    · exact ⟨[label], next, .cons enabled returned (.nil next), concluded.control⟩

theorem active_suffix {cells behind : List (Nat × BindingData)} (suffix : behind <:+ cells) :
    active behind <:+ active cells := (suffix.filter _).map _

theorem Orderly.closing (orderly : machine.Orderly view) (outside : machine.control.Outside)
    (busy : machine.control ≠ .idle) (asks : machine.perform .destroy = .ok asked) :
    ∃ moment event callbacks, (refs asked.queued).head? = some moment ∧
      .started moment event callbacks ∈ asked.trace ∧ asked.remaining <:+ callbacks ∧
      Closing asked moment event asked view := by
  obtain ⟨_, returned, kept, _, pending, control, _⟩ := orderly.postpone outside busy
  cases asks.symm.trans returned
  obtain ⟨moment, event, processes⟩ : ∃ moment event, asked.Processes view moment event := by
    rw [← control] at outside busy
    exact kept.processes busy (ne_dispatching_of_outside outside)
  have queued : asked.queued = view.queue := kept.represents.queued_eq
  have remaining : asked.remaining = asked.control.ahead (view.lists event) := by
    unfold Machine.remaining
    rw [processes.running]
    exact congrArg asked.control.ahead (kept.represents.listed_eq (kept.live processes))
  refine ⟨moment, event, active (view.lists event), ?_, processes.begun, ?_, kept, pending,
    fun _ => Iff.rfl, .inl processes, [], ?_⟩
  · obtain ⟨data, rest, queue, _⟩ := processes.head
    rw [queued, queue]
    rfl
  · rw [remaining]
    unfold Control.ahead
    split
    · exact active_suffix (List.dropWhile_suffix _)
    · exact active_suffix ((List.tail_suffix _).trans (List.dropWhile_suffix _))
    · exact List.nil_suffix
  · rw [remaining, Machine.unreported, queued]
    exact Continues.refl _ _ _ _

/-- When the dispatcher is destroyed from a callback, the moment being processed
goes on to its end and no other is processed; no step can go wrong, the
outermost trigger can return, and when it has, everything is freed. -/
theorem destroy_inside {start : Machine Data} {before : List (EventLabel Data)}
    (initial : start.Initial) (run : (tolerantSystem Data).Run start before machine)
    (enabled : (tolerantSystem Data).Enabled machine (.call .destroy))
    (busy : machine.control ≠ .idle)
    (called : (tolerantSystem Data).step machine (.call .destroy) = .ok asked) :
    ∃ moment event callbacks, (refs asked.queued).head? = some moment ∧
      .started moment event callbacks ∈ asked.trace ∧ asked.remaining <:+ callbacks ∧
      ∀ labels last, (tolerantSystem Data).Run asked labels last →
        (tolerantSystem Data).Safe last ∧
        (∃ more final, (tolerantSystem Data).Run last more final ∧ final.control = .idle) ∧
        (last.control = .idle → ∃ added, Concluded asked moment last added) := by
  rcases orderly_of_run initial run with ⟨view, orderly⟩ | ⟨_, gone⟩
  · obtain ⟨moment, event, callbacks, head, begun, suffix, closing⟩ :=
      orderly.closing enabled.1 busy called
    refine ⟨moment, event, callbacks, head, begun, suffix, ?_⟩
    intro labels last onward
    rcases closing_of_run ⟨view, closing⟩ onward with ⟨later, further⟩ | ⟨added, concluded⟩
    · refine ⟨?_, further.returns, ?_⟩
      · intro label enabled
        obtain ⟨next, returned, _⟩ := further.step enabled
        exact ⟨next, returned⟩
      · intro idle
        rcases further.place with processes | ⟨dispatching, _⟩
        · exact absurd idle (further.orderly.inside processes.running).1
        · cases idle.symm.trans dispatching
    · refine ⟨?_, ⟨[], last, .nil last, concluded.control⟩, fun _ => ⟨added, concluded⟩⟩
      intro label enabled
      exact absurd enabled (concluded.closed label)
  · exact absurd enabled (gone.stops _)

/-- The first callback of an event queues a moment of another. -/
def triggerBoth : List (EventLabel Unit) :=
  [.call (.bind 0 10 0 true), .call (.bind 0 11 0 true), .call (.trigger 0 () (some 30) 0 true),
    .internal, .internal, .call (.trigger 1 () none 0 true)]

/-- It destroys the dispatcher, queues one more and returns; the second callback
and the result callback, which destroys once more, follow. -/
def afterDestroy : List (EventLabel Unit) :=
  [.call (.trigger 1 () none 0 true), .ret true, .internal, .ret false, .internal, .internal,
    .call .destroy, .ret false, .internal, .internal]

theorem destroy_inside_triggerBoth : ∃ machine asked last : Machine Unit,
    (tolerantSystem Unit).Run twoEvents triggerBoth machine ∧
      machine.perform .destroy = .ok asked ∧ asked.remaining = [11] ∧
      asked.unreported = some 30 ∧ asked.queued.length = 2 ∧
      (tolerantSystem Unit).Run asked afterDestroy last ∧ last.triggered.length = 3 ∧
      ∃ moment added, Concluded asked moment last added := by
  obtain ⟨machine, run, outside, alive, busy, asked, called, ahead, due, queued, last, onward,
      count, idle⟩ :
      ∃ machine : Machine Unit, (tolerantSystem Unit).Run twoEvents triggerBoth machine ∧
        machine.control.Outside ∧ machine.dispatch.freed = false ∧ machine.control ≠ .idle ∧
        ∃ asked, machine.perform .destroy = .ok asked ∧ asked.remaining = [11] ∧
          asked.unreported = some 30 ∧ asked.queued.length = 2 ∧
          ∃ last, (tolerantSystem Unit).Run asked afterDestroy last ∧ last.triggered.length = 3 ∧
            last.control = .idle := by
    refine System.Run.exists_cons ⟨trivial, rfl, _, rfl⟩ rfl ?_
    refine System.Run.exists_cons ⟨trivial, rfl, _, rfl⟩ rfl ?_
    refine System.Run.exists_cons ⟨trivial, rfl, _, rfl⟩ rfl ?_
    refine System.Run.exists_cons id rfl ?_
    refine System.Run.exists_cons id rfl ?_
    refine System.Run.exists_cons ⟨trivial, rfl, _, rfl⟩ rfl ?_
    refine ⟨_, .nil _, trivial, rfl, nofun, _, rfl, by decide, by decide, by decide, ?_⟩
    refine System.Run.exists_cons ⟨trivial, rfl, _, rfl⟩ rfl ?_
    refine System.Run.exists_cons ⟨trivial, nofun⟩ rfl ?_
    refine System.Run.exists_cons id rfl ?_
    refine System.Run.exists_cons ⟨trivial, nofun⟩ rfl ?_
    refine System.Run.exists_cons id rfl ?_
    refine System.Run.exists_cons id rfl ?_
    refine System.Run.exists_cons ⟨trivial, rfl, trivial⟩ rfl ?_
    refine System.Run.exists_cons ⟨trivial, nofun⟩ rfl ?_
    refine System.Run.exists_cons id rfl ?_
    refine System.Run.exists_cons id rfl ?_
    exact ⟨_, .nil _, rfl, rfl⟩
  refine ⟨machine, asked, last, run, called, ahead, due, queued, onward, count, ?_⟩
  obtain ⟨moment, _, _, _, _, _, ends⟩ :=
    destroy_inside twoEvents_initial run ⟨outside, alive, trivial⟩ busy called
  exact ⟨moment, (ends afterDestroy last onward).2.2 idle⟩

end Machine

end SpudLib
