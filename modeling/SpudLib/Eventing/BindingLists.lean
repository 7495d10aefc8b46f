import SpudLib.Eventing.Steps

/-!
# What binding and unbinding do to the lists

In every run each event's list names a callback once, binding puts a new
callback last and leaves a known one in its place, and unbinding takes a
callback out at once or, from the running event, when the moment ends.  A
callback is then gone if the last thing said about it was an unbind.  The one
call that is not safe is an unbind, from the running event, of what is not bound.
-/

namespace SpudLib

open Link

namespace Dispatcher

variable {Data : Type} {dispatch : Dispatcher Data} {event cb : Nat}

theorem flagUnboundLoop_missing {bound head : Nat} {cells : List (Nat × BindingData)}
    (chain : Chain dispatch.bindings (some head) cells) (enough : cells.length ≤ bound)
    (absent : ∀ cell ∈ cells, cell.2.cb ≠ cb) :
    flagUnboundLoop cb bound head dispatch = .error .assertFailed := by
  induction cells generalizing bound head with
  | nil => cases chain
  | cons cell rest inductionHypothesis =>
    obtain ⟨binding, data⟩ := cell
    obtain ⟨here, next, found, onward⟩ := chain
    cases here
    have different : data.cb ≠ cb := absent (head, data) List.mem_cons_self
    cases bound with
    | zero => simp at enough
    | succ bound =>
      simp only [flagUnboundLoop, Memory.read_of_some found, Exec.ok_bind, different, if_false]
      cases next with
      | none => rfl
      | some next =>
        apply inductionHypothesis onward (by simpa using enough)
        intro cell member
        exact absent cell (List.mem_cons_of_mem _ member)

theorem lsEventUnbind_running_missing {cells : List (Nat × BindingData)}
    (running : dispatch.running = some event) (lists : dispatch.Lists event cells)
    (absent : ∀ cell ∈ cells, cell.2.cb ≠ cb) :
    dispatch.lsEventUnbind event cb =
      .error (if cells = [] then .nullDereference else .assertFailed) := by
  obtain ⟨notifier, found, chain⟩ := lists
  have headIs := chain.start_eq_head
  simp only [lsEventUnbind, if_neg (not_not.mpr running), Memory.read_of_some found, Exec.ok_bind]
  cases cells with
  | nil =>
    rw [headIs]
    rfl
  | cons cell rest =>
    rw [headIs] at chain ⊢
    simp only [refs, List.map_cons, List.head?_cons] at chain ⊢
    rw [flagUnboundLoop_missing chain chain.length_le_fresh absent]
    rfl

/-- `ls_event_bind` on the lists of the events, where `bound` is its answer. -/
structure Binds (before : Dispatcher Data) (event cb arg : Nat) (granted bound : Bool)
    (after : Dispatcher Data) : Prop where
  fails : bound = false ↔ granted = false ∧ cb ∉ callbacks (before.listed event)
  failed : bound = false → after = before
  appended : bound = true → cb ∉ callbacks (before.listed event) → ∃ binding,
    after.listed event = before.listed event ++ [(binding, ⟨cb, arg, false, false⟩)]
  replaced : ∀ front binding data back,
    before.listed event = front ++ (binding, data) :: back → data.cb = cb →
      after.listed event = front ++ (binding, ⟨cb, arg, false, data.normalBound⟩) :: back
  others : ∀ other, other ≠ event → before.events.Live other →
    after.listed other = before.listed other

structure Unbinds (before : Dispatcher Data) (event cb : Nat) (after : Dispatcher Data) :
    Prop where
  absent : cb ∉ callbacks (before.listed event) → after = before
  removed : before.running ≠ some event → ∀ front binding data back,
    before.listed event = front ++ (binding, data) :: back → data.cb = cb →
      after.listed event = front ++ back
  flagged : before.running = some event → ∀ front binding data back,
    before.listed event = front ++ (binding, data) :: back → data.cb = cb →
      after.listed event = front ++ (binding, { data with unbound := true }) :: back
  others : ∀ other, other ≠ event → before.events.Live other →
    after.listed other = before.listed other

theorem absent_of_nodup {cells front back : List (Nat × BindingData)} {binding : Nat}
    {data : BindingData} (nodup : (callbacks cells).Nodup)
    (split : cells = front ++ (binding, data) :: back) (matching : data.cb = cb) :
    ∀ cell ∈ front, cell.2.cb ≠ cb := by
  rw [split, callbacks_append, callbacks_cons, List.nodup_middle] at nodup
  intro cell member same
  apply (List.nodup_cons.mp nodup).1
  apply List.mem_append_left
  exact mem_callbacks.mpr ⟨cell, member, same.trans matching.symm⟩

end Dispatcher

namespace Machine

variable {Data : Type} {machine : Machine Data} {view : View Data}

section Calls

open Dispatcher

variable {event cb : Nat}

theorem Orderly.binds (orderly : machine.Orderly view) (live : machine.dispatch.events.Live event)
    (arg : Nat) (granted : Bool) :
    ∃ bound after, machine.dispatch.lsEventBind event cb arg granted = .ok (bound, after) ∧
      Binds machine.dispatch event cb arg granted bound after := by
  have listed := orderly.represents.listed_eq live
  have distinct := orderly.distinct event live
  obtain ⟨bound, after, returned, ⟨⟨rfl, refused, unknown⟩, rfl⟩ | ⟨rfl, represents, same⟩⟩ :=
    orderly.represents.bind live cb arg granted
  · refine ⟨false, _, returned, ?_⟩
    constructor
    · exact iff_of_true rfl ⟨refused, by rwa [listed]⟩
    · exact fun _ => rfl
    · intro impossible
      cases impossible
    · intro front binding data back split matching
      rw [listed] at split
      refine absurd ?_ unknown
      rw [split]
      exact mem_callbacks.mpr ⟨(binding, data), by simp, matching⟩
    · exact fun _ _ _ => rfl
  · have later := represents.listed_eq ((same.live event).mpr live)
    rw [View.setList_lists_self] at later
    refine ⟨true, after, returned, ?_⟩
    constructor
    · constructor
      · intro impossible
        cases impossible
      · rintro ⟨rfl, unknown⟩
        rw [listed] at unknown
        have missing : ∀ cell ∈ view.lists event, cell.2.cb ≠ cb := fun cell member matching =>
          unknown (mem_callbacks.mpr ⟨cell, member, matching⟩)
        have failed := @lsEventBind_refused _ _ _ _ cb arg (orderly.represents.lists event live)
          missing
        cases returned.symm.trans failed
    · intro impossible
      cases impossible
    · intro _ unknown
      rw [listed] at unknown ⊢
      refine ⟨machine.dispatch.bindings.fresh, later.trans (boundCells_missing ?_)⟩
      intro cell member matching
      exact unknown (mem_callbacks.mpr ⟨cell, member, matching⟩)
    · intro front binding data back split matching
      rw [listed] at split
      rw [later, split]
      exact boundCells_found (absent_of_nodup distinct split matching) matching
    · intro other different otherLive
      rw [represents.listed_eq ((same.live other).mpr otherLive),
        View.setList_lists_of_ne _ different, orderly.represents.listed_eq otherLive]

theorem Orderly.unbinds (orderly : machine.Orderly view)
    (live : machine.dispatch.events.Live event)
    (known : machine.dispatch.running = some event →
      cb ∈ callbacks (machine.dispatch.listed event)) :
    ∃ after, machine.dispatch.lsEventUnbind event cb = .ok after ∧
      Unbinds machine.dispatch event cb after := by
  have listed := orderly.represents.listed_eq live
  have distinct := orderly.distinct event live
  by_cases bound : cb ∈ callbacks (view.lists event)
  · obtain ⟨after, returned, represents, same, _⟩ := orderly.represents.unbind live bound
    have later := represents.listed_eq ((same.live event).mpr live)
    rw [View.setList_lists_self] at later
    refine ⟨after, returned, ?_⟩
    constructor
    · intro unknown
      rw [listed] at unknown
      exact absurd bound unknown
    · intro notRunning front binding data back split matching
      rw [listed] at split
      rw [later, if_neg notRunning, split]
      exact unboundCells_found (absent_of_nodup distinct split matching) matching
    · intro running front binding data back split matching
      rw [listed] at split
      rw [later, if_pos running, split]
      exact flaggedCells_found (absent_of_nodup distinct split matching) matching
    · intro other different otherLive
      rw [represents.listed_eq ((same.live other).mpr otherLive),
        View.setList_lists_of_ne _ different, orderly.represents.listed_eq otherLive]
  · rw [listed] at known
    have notRunning : machine.dispatch.running ≠ some event := fun runs => bound (known runs)
    have missing : ∀ cell ∈ view.lists event, cell.2.cb ≠ cb := fun cell member matching =>
      bound (mem_callbacks.mpr ⟨cell, member, matching⟩)
    refine ⟨machine.dispatch,
      lsEventUnbind_missing notRunning (orderly.represents.lists event live) missing, ?_⟩
    constructor
    · exact fun _ => rfl
    · intro _ front binding data back split matching
      rw [listed] at split
      exact absurd matching (missing (binding, data) (by simp [split]))
    · intro runs
      exact absurd runs notRunning
    · exact fun _ _ _ => rfl

end Calls

/-- An unbind of what is not bound returns and changes nothing exactly when its
event is not running. -/
theorem lsEventUnbind_unbound_iff {start machine : Machine Data}
    {labels : List (EventLabel Data)} (initial : start.Initial)
    (run : (tolerantSystem Data).Run start labels machine) {event cb : Nat}
    (live : machine.dispatch.events.Live event)
    (absent : cb ∉ Dispatcher.callbacks (machine.dispatch.listed event)) :
    (∃ after, machine.dispatch.lsEventUnbind event cb = .ok after ∧
      ∀ other, after.listed other = machine.dispatch.listed other) ↔
    machine.dispatch.running ≠ some event := by
  rcases orderly_of_run initial run with ⟨view, orderly⟩ | ⟨before, gone⟩
  · have lists := orderly.represents.lists event live
    rw [orderly.represents.listed_eq live] at absent
    have missing : ∀ cell ∈ view.lists event, cell.2.cb ≠ cb := fun cell member matching =>
      absent (Dispatcher.mem_callbacks.mpr ⟨cell, member, matching⟩)
    constructor
    · rintro ⟨after, returned, _⟩ running
      cases returned.symm.trans (Dispatcher.lsEventUnbind_running_missing running lists missing)
    · intro notRunning
      exact ⟨machine.dispatch, Dispatcher.lsEventUnbind_missing notRunning lists missing,
        fun _ => rfl⟩
  · exact absurd live (gone.noEvents event)

/-- A callback of the first event unbinds callback 99 or, once nobody is bound,
the result callback unbinds callback 10. -/
def unbindUnbound (bound : Bool) : List (EventLabel Unit) :=
  (if bound then [.call (.bind 0 10 0 true)] else []) ++
    [.call (.trigger 0 () (some 30) 0 true), .internal, .internal] ++
    (if bound then [] else [.internal])

theorem unbindUnbound_faults : twoEvents.Initial ∧
    (∃ machine, (tolerantSystem Unit).Run twoEvents (unbindUnbound true) machine ∧
      machine.control.Outside ∧ machine.dispatch.events.Live 0 ∧
      99 ∉ Dispatcher.callbacks (machine.dispatch.listed 0) ∧
      machine.dispatch.lsEventUnbind 0 99 = .error .assertFailed) ∧
    ∃ machine, (tolerantSystem Unit).Run twoEvents (unbindUnbound false) machine ∧
      machine.control.Outside ∧ machine.dispatch.events.Live 0 ∧
      10 ∉ Dispatcher.callbacks (machine.dispatch.listed 0) ∧
      machine.dispatch.lsEventUnbind 0 10 = .error .nullDereference := by
  refine ⟨twoEvents_initial, ?_, ?_⟩
  · refine System.Run.exists_cons ⟨trivial, rfl, _, rfl⟩ rfl ?_
    refine System.Run.exists_cons ⟨trivial, rfl, _, rfl⟩ rfl ?_
    refine System.Run.exists_cons id rfl ?_
    refine System.Run.exists_cons id rfl ?_
    exact ⟨_, .nil _, trivial, ⟨_, rfl⟩, by decide, rfl⟩
  · refine System.Run.exists_cons ⟨trivial, rfl, _, rfl⟩ rfl ?_
    refine System.Run.exists_cons id rfl ?_
    refine System.Run.exists_cons id rfl ?_
    refine System.Run.exists_cons id rfl ?_
    exact ⟨_, .nil _, trivial, ⟨_, rfl⟩, by decide, rfl⟩

theorem lsEventUnbind_unbound_iff_second : ∃ machine,
    (tolerantSystem Unit).Run twoEvents (unbindUnbound true) machine ∧
      machine.dispatch.running = some 0 ∧
      ∃ after, machine.dispatch.lsEventUnbind 1 10 = .ok after ∧
        ∀ other, after.listed other = machine.dispatch.listed other := by
  obtain ⟨machine, run, running, live, absent⟩ : ∃ machine,
      (tolerantSystem Unit).Run twoEvents (unbindUnbound true) machine ∧
        machine.dispatch.running = some 0 ∧ machine.dispatch.events.Live 1 ∧
        10 ∉ Dispatcher.callbacks (machine.dispatch.listed 1) := by
    refine System.Run.exists_cons ⟨trivial, rfl, _, rfl⟩ rfl ?_
    refine System.Run.exists_cons ⟨trivial, rfl, _, rfl⟩ rfl ?_
    refine System.Run.exists_cons id rfl ?_
    refine System.Run.exists_cons id rfl ?_
    exact ⟨_, .nil _, rfl, ⟨_, rfl⟩, by decide⟩
  refine ⟨machine, run, running, ?_⟩
  exact (lsEventUnbind_unbound_iff twoEvents_initial run live absent).mpr (by simp [running])

section Operations

/-- Whether the last operation on `cb` of `event` was an unbind, one step later.
A bind that is refused is about a callback that is not in the list. -/
def amended (event cb : Nat) (unbound : Bool) : EventLabel Data → Bool
  | .call (.bind other known _ _) => if other = event ∧ known = cb then false else unbound
  | .call (.unbind other known) => if other = event ∧ known = cb then true else unbound
  | _ => unbound

def lastUnbound (event cb : Nat) (labels : List (EventLabel Data)) : Bool :=
  labels.foldl (amended event cb) false

theorem lastUnbound_concat (event cb : Nat) (labels : List (EventLabel Data))
    (label : EventLabel Data) :
    lastUnbound event cb (labels ++ [label]) =
      amended event cb (lastUnbound event cb labels) label := by
  rw [lastUnbound, List.foldl_append]
  rfl

open Dispatcher

variable {cb : Nat} {cells : List (Nat × BindingData)}

theorem mem_boundCells_of_nodup {arg fresh : Nat} {cell : Nat × BindingData}
    (nodup : (callbacks cells).Nodup) (member : cell ∈ boundCells cb arg fresh cells) :
    cell.2.cb = cb ∧ cell.2.unbound = false ∨ cell.2.cb ≠ cb ∧ cell ∈ cells := by
  by_cases known : cb ∈ callbacks cells
  · obtain ⟨front, binding, data, back, rfl, absent, matching⟩ := split_at_callback known
    rw [boundCells_found absent matching] at member
    rw [callbacks_append, callbacks_cons, List.nodup_middle, List.nodup_cons] at nodup
    rcases List.mem_append.mp member with inFront | inBack
    · exact .inr ⟨absent cell inFront, List.mem_append_left _ inFront⟩
    · rcases List.mem_cons.mp inBack with rfl | inBack
      · exact .inl ⟨rfl, rfl⟩
      · refine .inr ⟨?_, by simp [inBack]⟩
        intro same
        apply nodup.1
        apply List.mem_append_right
        exact mem_callbacks.mpr ⟨cell, inBack, same.trans matching.symm⟩
  · have missing : ∀ cell ∈ cells, cell.2.cb ≠ cb := fun cell inside matching =>
      known (mem_callbacks.mpr ⟨cell, inside, matching⟩)
    rw [boundCells_missing missing] at member
    rcases List.mem_append.mp member with old | new
    · exact .inr ⟨missing cell old, old⟩
    · obtain rfl := List.mem_singleton.mp new
      exact .inl ⟨rfl, rfl⟩

theorem mem_flaggedCells_of_nodup {cell : Nat × BindingData} (nodup : (callbacks cells).Nodup)
    (member : cell ∈ flaggedCells cb cells) :
    cell.2.cb = cb ∧ cell.2.unbound = true ∨ cell.2.cb ≠ cb ∧ cell ∈ cells := by
  induction cells with
  | nil => cases member
  | cons first rest inductionHypothesis =>
    obtain ⟨binding, data⟩ := first
    obtain ⟨once, nodup⟩ := List.nodup_cons.mp nodup
    rw [flaggedCells] at member
    by_cases same : data.cb = cb
    · rw [if_pos same] at member
      rcases List.mem_cons.mp member with rfl | later
      · exact .inl ⟨same, rfl⟩
      · refine .inr ⟨?_, List.mem_cons_of_mem _ later⟩
        intro again
        exact once (mem_callbacks.mpr ⟨cell, later, again.trans same.symm⟩)
    · rw [if_neg same] at member
      rcases List.mem_cons.mp member with rfl | later
      · exact .inr ⟨same, List.mem_cons_self⟩
      · exact (inductionHypothesis nodup later).imp_right
          fun old => ⟨old.1, List.mem_cons_of_mem _ old.2⟩

theorem callbacks_prefix_boundCells (arg fresh : Nat) :
    callbacks cells <+: callbacks (boundCells cb arg fresh cells) := by
  rw [callbacks_boundCells]
  split
  · exact List.prefix_refl _
  · exact List.prefix_append _ _

end Operations

section Moments

open Dispatcher

/-- A moment of `event` is being processed; `first` are the callbacks the event
had as it started, and `labels` the steps since then. -/
structure During (moment event : Nat) (first : List Nat) (labels : List (EventLabel Data))
    (machine : Machine Data) (view : View Data) : Prop where
  orderly : machine.Orderly view
  live : machine.dispatch.events.Live event
  running : machine.dispatch.running = some event
  head : (refs view.queue).head? = some moment
  flags : ∀ cell ∈ view.lists event, cell.2.unbound = lastUnbound event cell.2.cb labels
  grown : first <+: callbacks (view.lists event)

variable {moment event : Nat} {first : List Nat} {labels : List (EventLabel Data)}

theorem During.other (during : During moment event first labels machine view)
    {label : EventLabel Data} {next : Machine Data} {later : View Data}
    (orderly : next.Orderly later) (live : next.dispatch.events.Live event)
    (running : next.dispatch.running = some event)
    (head : (refs later.queue).head? = some moment)
    (same : later.lists event = view.lists event)
    (spared : ∀ cell ∈ view.lists event, ∀ flag, amended event cell.2.cb flag label = flag) :
    During moment event first (labels ++ [label]) next later := by
  constructor
  · exact orderly
  · exact live
  · exact running
  · exact head
  · intro cell member
    rw [same] at member
    rw [lastUnbound_concat, spared cell member]
    exact during.flags cell member
  · rw [same]
    exact during.grown

theorem During.step (during : During moment event first labels machine view)
    {label : EventLabel Data} {next : Machine Data}
    (enabled : (tolerantSystem Data).Enabled machine label)
    (onward : machine.control ≠ .finishing moment)
    (stepped : (tolerantSystem Data).step machine label = .ok next) :
    ∃ later, During moment event first (labels ++ [label]) next later := by
  obtain ⟨busy, away⟩ := during.orderly.inside during.running
  have distinct := during.orderly.distinct event during.live
  obtain ⟨later, kept, moved⟩ :
      ∃ later, next.Orderly later ∧ machine.Moved view label next later := by
    rcases during.orderly.step enabled with ⟨_, returned, outcome⟩ | ⟨faulted, _⟩
    · cases stepped.symm.trans returned
      exact outcome.resolve_right fun gone => gone.1.unoccupied.elim busy away
    · cases stepped.symm.trans faulted
  refine ⟨later, ?_⟩
  cases moved with
  | @refused other cb arg unknown =>
    apply during.other kept during.live during.running during.head rfl
    intro cell member flag
    apply if_neg
    rintro ⟨rfl, rfl⟩
    exact unknown (mem_callbacks.mpr ⟨cell, member, rfl⟩)
  | @bound other cb arg granted _ _ keeps =>
    by_cases here : other = event
    · subst here
      constructor
      · exact kept
      · exact (keeps.live other).mpr during.live
      · exact keeps.running.trans during.running
      · exact during.head
      · intro cell member
        rw [View.setList_lists_self] at member
        rw [lastUnbound_concat]
        rcases mem_boundCells_of_nodup distinct member with ⟨rfl, cleared⟩ | ⟨different, old⟩
        · exact cleared.trans (if_pos ⟨rfl, rfl⟩).symm
        · rw [amended, if_neg fun same => different same.2.symm]
          exact during.flags cell old
      · rw [View.setList_lists_self]
        exact during.grown.trans (callbacks_prefix_boundCells _ _)
    · apply during.other kept ((keeps.live event).mpr during.live)
        (keeps.running.trans during.running) during.head
      · exact View.setList_lists_of_ne _ (Ne.symm here) _
      · intro cell _ flag
        exact if_neg fun same => here same.1
  | @unbound other cb _ keeps =>
    by_cases here : other = event
    · subst here
      rw [if_pos during.running] at kept ⊢
      constructor
      · exact kept
      · exact (keeps.live other).mpr during.live
      · exact keeps.running.trans during.running
      · exact during.head
      · intro cell member
        rw [View.setList_lists_self] at member
        rw [lastUnbound_concat]
        rcases mem_flaggedCells_of_nodup distinct member with ⟨rfl, flagged⟩ | ⟨different, old⟩
        · exact flagged.trans (if_pos ⟨rfl, rfl⟩).symm
        · rw [amended, if_neg fun same => different same.2.symm]
          exact during.flags cell old
      · rw [View.setList_lists_self, callbacks_flaggedCells]
        exact during.grown
    · apply during.other kept ((keeps.live event).mpr during.live)
        (keeps.running.trans during.running) during.head
      · exact View.setList_lists_of_ne _ (Ne.symm here) _
      · intro cell _ flag
        exact if_neg fun same => here same.1
  | @asked request _ more binds unbinds keeps =>
    apply during.other kept ((keeps.live event).mpr during.live)
      (keeps.running.trans during.running) _ rfl
    · intro cell _ flag
      cases request with
      | bind other cb arg granted => exact absurd rfl (binds other cb arg granted)
      | unbind other cb => exact absurd rfl (unbinds other cb)
      | prepareTrigger => rfl
      | unprepareTrigger => rfl
      | trigger => rfl
      | triggerPrepared => rfl
      | destroy => rfl
    · have head := during.head
      rw [refs_append, List.head?_append, head]
      rfl
  | rested dispatching => exact absurd dispatching away
  | started dispatching => exact absurd dispatching away
  | walked _ _ _ kind =>
    apply during.other kept during.live during.running during.head rfl
    intro cell _ flag
    rcases kind with rfl | ⟨left, rfl⟩
    · rfl
    · rfl
  | @returned _ _ _ _ _ _ _ _ data rest dispatch processes _ _ queue running _ events =>
    apply during.other kept _ (running.trans during.running) _ rfl fun _ _ _ => rfl
    · change dispatch.events.Live event
      rw [events]
      exact during.live
    · have head := during.head
      rw [queue] at head
      exact head
  | finished processes finishing =>
    obtain ⟨rfl, rfl⟩ := processes.unique during.running during.head
    exact absurd finishing onward

def momentSystem (Data : Type) (moment : Nat) : System (Machine Data) (EventLabel Data) :=
  (tolerantSystem Data).restrict fun machine _ => machine.control ≠ .finishing moment

/-- What has become of the lists when a moment of `event` has ended: `before` was
the machine as it started, `ending` as it ended, `labels` lie between. -/
structure Swept (before : Machine Data) (event : Nat) (labels : List (EventLabel Data))
    (ending after : Machine Data) : Prop where
  grown : callbacks (before.dispatch.listed event) <+: callbacks (ending.dispatch.listed event)
  swept : after.dispatch.listed event =
    (ending.dispatch.listed event).filter fun cell => !lastUnbound event cell.2.cb labels
  others : ∀ other, other ≠ event → after.dispatch.events.Live other →
    after.dispatch.listed other = ending.dispatch.listed other

/-- What is true of the binding lists in a state, and of what the next steps do. -/
structure ListSemantics (machine : Machine Data) : Prop where
  distinct : ∀ event, machine.dispatch.events.Live event →
    (callbacks (machine.dispatch.listed event)).Nodup
  unflagged : ∀ event, machine.dispatch.events.Live event →
    machine.dispatch.running ≠ some event →
      ∀ cell ∈ machine.dispatch.listed event, cell.2.unbound = false
  binds : ∀ event cb arg granted,
    (tolerantSystem Data).Enabled machine (.call (.bind event cb arg granted)) →
      ∃ bound after, machine.dispatch.lsEventBind event cb arg granted = .ok (bound, after) ∧
        Binds machine.dispatch event cb arg granted bound after
  unbinds : ∀ event cb, (tolerantSystem Data).Enabled machine (.call (.unbind event cb)) →
    ∃ after, machine.dispatch.lsEventUnbind event cb = .ok after ∧
      Unbinds machine.dispatch event cb after
  others : ∀ label next, (tolerantSystem Data).Enabled machine label →
    (tolerantSystem Data).step machine label = .ok next →
    (∀ event cb arg granted, label ≠ .call (.bind event cb arg granted)) →
    (∀ event cb, label ≠ .call (.unbind event cb)) →
    (∀ moment, machine.control ≠ .finishing moment) →
    ∀ event, next.dispatch.events.Live event →
      settledCells (next.dispatch.listed event) = settledCells (machine.dispatch.listed event)
  moments : ∀ first moment binding event, machine.control = .dispatching →
    (tolerantSystem Data).step machine .internal = .ok first →
    first.control = .visiting moment binding → first.dispatch.running = some event →
    ∀ labels ending, (momentSystem Data moment).Run first labels ending →
      ending.control = .finishing moment →
      ∃ after, (tolerantSystem Data).step ending .internal = .ok after ∧
        Swept machine event labels ending after

theorem During.swept {before : Machine Data} {after : Machine Data}
    (during : During moment event (callbacks (before.dispatch.listed event)) labels machine view)
    (control : machine.control = .finishing moment)
    (stepped : (tolerantSystem Data).step machine .internal = .ok after) :
    Swept before event labels machine after := by
  obtain ⟨busy, away⟩ := during.orderly.inside during.running
  have enabled : (tolerantSystem Data).Enabled machine .internal := by
    change ¬ machine.control.Outside
    rw [control]
    exact id
  obtain ⟨later, kept, moved⟩ :
      ∃ later, after.Orderly later ∧ machine.Moved view .internal after later := by
    rcases during.orderly.step enabled with ⟨_, returned, outcome⟩ | ⟨faulted, _⟩
    · cases stepped.symm.trans returned
      exact outcome.resolve_right fun gone => gone.1.unoccupied.elim busy away
    · cases stepped.symm.trans faulted
  have listed := during.orderly.represents.listed_eq during.live
  cases moved with
  | rested dispatching => exact absurd dispatching away
  | started dispatching => exact absurd dispatching away
  | walked _ _ stride =>
    rw [control] at stride
    cases stride
  | finished processes _ _ _ _ live =>
    obtain ⟨rfl, rfl⟩ := processes.unique during.running during.head
    constructor
    · rw [listed]
      exact during.grown
    · rw [kept.represents.listed_eq ((live _).mpr during.live), View.setList_lists_self, listed]
      apply List.filter_congr
      intro cell member
      rw [during.flags cell member]
    · intro other different otherLive
      rw [kept.represents.listed_eq otherLive, View.setList_lists_of_ne _ different,
        during.orderly.represents.listed_eq ((live other).mp otherLive)]

theorem momentRun_during {start : Machine Data}
    (during : ∃ view, During moment event first [] start view)
    (run : (momentSystem Data moment).Run start labels machine) :
    ∃ view, During moment event first labels machine view := by
  apply run.preserves_history
    (fun labels machine => ∃ view, During moment event first labels machine view) during
  rintro labels state label next _ ⟨view, inside⟩ enabled stepped
  exact inside.step enabled.1 enabled.2 stepped

theorem Orderly.begins (orderly : machine.Orderly view) {started : Machine Data}
    {binding : Option Nat} (control : machine.control = .dispatching)
    (stepped : (tolerantSystem Data).step machine .internal = .ok started)
    (visiting : started.control = .visiting moment binding)
    (running : started.dispatch.running = some event) :
    ∃ later, During moment event (callbacks (machine.dispatch.listed event)) [] started later := by
  have enabled : (tolerantSystem Data).Enabled machine .internal := by
    change ¬ machine.control.Outside
    rw [control]
    exact id
  rcases orderly.step enabled with ⟨_, returned, ⟨later, kept, moved⟩ | ⟨gone, _⟩⟩ | ⟨faulted, _⟩
  · cases stepped.symm.trans returned
    cases moved with
    | rested => cases visiting
    | started _ _ queue _ live runs same =>
      cases visiting
      cases running.symm.trans runs
      refine ⟨_, kept, (same event).mpr live, running, by rw [View.setList_queue, queue]; rfl, ?_,
        ?_⟩
      · intro cell member
        rw [View.setList_lists_self] at member
        obtain ⟨old, inside, rfl⟩ := List.mem_map.mp member
        have position := orderly.position
        rw [control] at position
        have notRunning : machine.dispatch.running = none := position
        exact orderly.unflagged event live (by simp [notRunning]) old inside
      · apply List.prefix_iff_eq_take.mpr
        rw [View.setList_lists_self, callbacks_settledCells, orderly.represents.listed_eq live,
          List.take_length]
    | walked _ _ stride =>
      rw [control] at stride
      cases stride
    | finished _ finishing =>
      rw [control] at finishing
      cases finishing
  · cases stepped.symm.trans returned
    rw [gone.control] at visiting
    cases visiting
  · cases stepped.symm.trans faulted

theorem settledCells_settledCells (cells : List (Nat × BindingData)) :
    settledCells (settledCells cells) = settledCells cells := by
  simp [settledCells, Function.comp_def]

/-- The steps that are no operation on a binding leave the lists as they are, up
to the mark of the bindings that a moment found as it started. -/
theorem Orderly.others (orderly : machine.Orderly view) {label : EventLabel Data}
    {next : Machine Data} (enabled : (tolerantSystem Data).Enabled machine label)
    (stepped : (tolerantSystem Data).step machine label = .ok next)
    (binds : ∀ event cb arg granted, label ≠ .call (.bind event cb arg granted))
    (unbinds : ∀ event cb, label ≠ .call (.unbind event cb))
    (onward : ∀ moment, machine.control ≠ .finishing moment)
    (live : next.dispatch.events.Live event) :
    settledCells (next.dispatch.listed event) = settledCells (machine.dispatch.listed event) := by
  rcases orderly.step enabled with ⟨_, returned, ⟨later, kept, moved⟩ | ⟨gone, _⟩⟩ | ⟨faulted, _⟩
  · cases stepped.symm.trans returned
    rw [kept.represents.listed_eq live]
    cases moved with
    | refused => exact absurd rfl (binds _ _ _ _)
    | bound => exact absurd rfl (binds _ _ _ _)
    | unbound => exact absurd rfl (unbinds _ _)
    | asked _ _ keeps => rw [orderly.represents.listed_eq ((keeps.live event).mp live)]
    | rested => rw [orderly.represents.listed_eq live]
    | @started _ other _ _ dispatch _ _ _ _ _ _ same =>
      have before := (same event).mp live
      by_cases here : event = other
      · subst here
        rw [View.setList_lists_self, settledCells_settledCells, orderly.represents.listed_eq before]
      · rw [View.setList_lists_of_ne _ here, orderly.represents.listed_eq before]
    | walked => rw [orderly.represents.listed_eq live]
    | returned _ _ _ _ _ _ events =>
      rw [orderly.represents.listed_eq (events ▸ live)]
    | finished _ finishing => exact absurd finishing (onward _)
  · cases stepped.symm.trans returned
    exact absurd live (gone.noEvents event)
  · cases stepped.symm.trans faulted

/-- In every run the binding lists mean what the operations on them say. -/
theorem listSemantics_of_run {start machine : Machine Data} {labels : List (EventLabel Data)}
    (initial : start.Initial) (run : (tolerantSystem Data).Run start labels machine) :
    machine.ListSemantics := by
  rcases orderly_of_run initial run with ⟨view, orderly⟩ | ⟨before, gone⟩
  · constructor
    · intro event live
      rw [orderly.represents.listed_eq live]
      exact orderly.distinct event live
    · intro event live away cell member
      rw [orderly.represents.listed_eq live] at member
      exact orderly.unflagged event live away cell member
    · intro event cb arg granted enabled
      exact orderly.binds enabled.2.2 arg granted
    · intro event cb enabled
      exact orderly.unbinds enabled.2.2.1 enabled.2.2.2
    · intro label next enabled stepped binds unbinds onward event live
      exact orderly.others enabled stepped binds unbinds onward live
    · intro first moment binding event control stepped visiting running labels ending onward closing
      obtain ⟨last, during⟩ := momentRun_during
        (orderly.begins control stepped visiting running) onward
      obtain ⟨after, later, returned, _, _⟩ := during.orderly.finish closing
      exact ⟨after, returned, during.swept closing returned⟩
  · constructor
    · intro event live
      exact absurd live (gone.noEvents event)
    · intro event live
      exact absurd live (gone.noEvents event)
    · intro event cb arg granted enabled
      exact absurd enabled (gone.stops _)
    · intro event cb enabled
      exact absurd enabled (gone.stops _)
    · intro label next enabled
      exact absurd enabled (gone.stops label)
    · intro first moment binding event control
      rw [gone.control] at control
      cases control

/-- A callback unbinds itself, and there is no memory to bind another. -/
def unbindSelf : List (EventLabel Unit) :=
  [.call (.bind 0 10 0 true), .call (.bind 0 11 0 true), .call (.trigger 0 () none 0 true),
    .internal, .internal, .call (.unbind 0 10), .call (.bind 0 12 0 false)]

theorem listSemantics_of_run_unbindSelf : ∃ machine,
    (tolerantSystem Unit).Run twoEvents unbindSelf machine ∧
      machine.dispatch.listed 0 = [(0, ⟨10, 0, true, true⟩), (1, ⟨11, 0, false, true⟩)] ∧
      machine.ListSemantics := by
  obtain ⟨machine, run, listed⟩ : ∃ machine,
      (tolerantSystem Unit).Run twoEvents unbindSelf machine ∧
        machine.dispatch.listed 0 = [(0, ⟨10, 0, true, true⟩), (1, ⟨11, 0, false, true⟩)] := by
    refine System.Run.exists_cons ⟨trivial, rfl, _, rfl⟩ rfl ?_
    refine System.Run.exists_cons ⟨trivial, rfl, _, rfl⟩ rfl ?_
    refine System.Run.exists_cons ⟨trivial, rfl, _, rfl⟩ rfl ?_
    refine System.Run.exists_cons id rfl ?_
    refine System.Run.exists_cons id rfl ?_
    refine System.Run.exists_cons ⟨trivial, rfl, ⟨_, rfl⟩, fun _ => by decide⟩ rfl ?_
    refine System.Run.exists_cons ⟨trivial, rfl, _, rfl⟩ rfl ?_
    exact ⟨_, .nil _, by decide⟩
  exact ⟨machine, run, listed, listSemantics_of_run twoEvents_initial run⟩

end Moments

end Machine

end SpudLib
