import SpudLib.Tube.Mirroring
import SpudLib.Tube.Suspension

/-!
# Callbacks that call the manager

A tube is destroyed as soon as it leaves the table, while the event that
announces it may have to wait.  Calls from callbacks are harmless as long as
they destroy no tube that callbacks are yet to be given or that the suspended
call goes on with: then neither meets a tube that is gone, however the
callbacks nest.
-/

namespace SpudLib

open TubeManager

theorem Request.keeps_tube {request : Request} {notice : Notice} {t : Nat}
    (kept : request.keeps notice = some t) : t = notice.tube := by
  unfold Request.keeps at kept
  cases request <;> cases notice <;> simp_all [Notice.tube]

section New

theorem unbound_foldl (names : List String) (events : Memory Notifier)
    (unbound : ∀ event notifier, events.cells event = some notifier → notifier.bindings = none) :
    ∀ event notifier,
      (names.foldl (fun events name => events.alloc ⟨name, none⟩) events).cells event =
        some notifier → notifier.bindings = none := by
  induction names generalizing events with
  | nil => exact unbound
  | cons name names inductionHypothesis =>
    apply inductionHypothesis
    intro event notifier found
    by_cases new : event = events.fresh
    · rw [new, Memory.alloc_cells_self] at found
      cases found
      rfl
    · rw [Memory.alloc_cells_of_ne _ _ new] at found
      exact unbound event notifier found

theorem newDispatcher_initial : newDispatcher.Initial := by
  refine ⟨unbound_foldl _ Memory.empty ?_, rfl, rfl, rfl, rfl, rfl, rfl, rfl, rfl, rfl, rfl, rfl⟩
  intro event notifier found
  cases found

theorem newDispatcher_live (event : TubeEvent) :
    newDispatcher.dispatch.events.Live event.address := by
  cases event <;> exact ⟨_, rfl⟩

end New

namespace Reentrant

structure Sound (state : Reentrant) (view : View Notice) (find : SpudTubeId → Option Nat) :
    Prop where
  steady : state.machine.Steady view
  events : ∀ event : TubeEvent, state.machine.dispatch.events.Live event.address
  holds : state.mgr.Holds find
  awaited : ∀ t ∈ state.awaited, state.mgr.tubes.Live t
  resumes : ∀ suspension, state.suspended = some suspension → ∀ after,
    Respected suspension.request.keeps suspension.notice state.mgr after →
      Endures suspension.request.keeps (fun _ last => last.WellFormed) (suspension.resume after)

variable {state next : Reentrant} {view : View Notice} {find : SpudTubeId → Option Nat}
  {library : CborLibrary} {request : Request} {label : ReentrantLabel}

theorem IsNew.sound (new : state.IsNew) : state.Sound ⟨fun _ => [], []⟩ fun _ => none := by
  obtain ⟨isNew, machine, suspended⟩ := new
  have steady := newDispatcher_initial.steady
  have nothing : state.awaited = [] := by
    rw [Reentrant.awaited, suspended, machine, steady.invariant.orderly.awaited_idle rfl]
    rfl
  refine ⟨machine ▸ steady, machine ▸ newDispatcher_live, isNew.mirrors.holds, ?_, ?_⟩
  · intro t member
    rw [nothing] at member
    cases member
  · intro suspension pending
    rw [suspended] at pending
    cases pending

section Proceeding

variable {machine : Machine Notice} {suspended : Option Suspension}
  {outcome : Outcome Notice TubeManager Unit}

/-- No call is under way: a call goes on up to its next event, whose callbacks are due then. -/
theorem proceed_sound (steady : machine.Steady view)
    (events : ∀ event : TubeEvent, machine.dispatch.events.Live event.address)
    (idle : machine.control = .idle)
    (endures : Endures request.keeps (fun _ after => after.WellFormed) outcome) :
    ∃ next view find, proceed request none outcome machine = .ok next ∧ next.Sound view find := by
  cases outcome with
  | fault reason => exact endures.elim
  | done value mgr =>
    obtain ⟨find, holds⟩ := endures
    refine ⟨⟨machine, mgr, none⟩, view, find, rfl, steady, events, holds, ?_, by simp⟩
    intro t member
    rw [Reentrant.awaited, steady.invariant.orderly.awaited_idle idle] at member
    cases member
  | calling notice mgr resume =>
    obtain ⟨⟨⟨find, holds⟩, live⟩, resumes⟩ := endures
    have outside : machine.control.Outside := by
      rw [idle]
      trivial
    obtain ⟨after, later, returned, steadyAfter, keeps, awaited, awake⟩ :=
      steady.trigger outside (events notice.event) notice
    refine ⟨⟨after, mgr, some ⟨request, notice, resume⟩⟩, later, find, ?_, steadyAfter, ?_,
      holds, ?_, ?_⟩
    · rw [proceed, returned]
      exact if_pos (awake idle)
    · exact fun event => (keeps.live _).mpr (events event)
    · intro t member
      rcases List.mem_append.mp member with kept | given
      · obtain rfl := Request.keeps_tube (Option.mem_toList.mp kept)
        exact live
      · obtain ⟨other, inside, rfl⟩ := List.mem_map.mp given
        have due := awaited inside
        rw [steady.invariant.orderly.awaited_idle idle, List.nil_append] at due
        split at due
        · cases due
        · obtain rfl := List.mem_singleton.mp due
          exact live
    · rintro _ ⟨⟩
      exact resumes

theorem Sound.nested (sound : state.Sound view find) (outside : state.machine.control.Outside)
    (busy : state.machine.control ≠ .idle) {lost : Option Nat}
    (brief : Brief state.mgr request.keeps lost request.removed outcome)
    (spares : ∀ t, lost = some t → t ∉ state.awaited ++ state.announced request) :
    ∃ next view find, proceed request state.suspended outcome state.machine = .ok next ∧
      next.Sound view find := by
  have spared : ∀ t ∈ state.awaited, lost ≠ some t :=
    fun t member same => spares t same (List.mem_append_left _ member)
  cases brief with
  | @done value after wellFormed loses =>
    obtain ⟨later, holds⟩ := wellFormed
    refine ⟨{ state with mgr := after }, view, later, rfl, sound.steady, sound.events, holds, ?_,
      sound.resumes⟩
    exact fun t member => loses t (sound.awaited t member) (spared t member)
  | @calling notice middle resume wellFormed live loses own resumes =>
    obtain ⟨machine, later, returned, steady, keeps, awaited, _⟩ :=
      sound.steady.trigger outside (sound.events notice.event) notice
    have control : machine.control = state.machine.control :=
      keeps.control.resolve_right fun awake => busy awake.1
    have away : machine.control ≠ .dispatching := by
      intro dispatching
      rw [control.symm.trans dispatching] at outside
      exact outside.elim
    have needed : ∀ t, request.keeps notice = some t → middle.tubes.Live t := by
      intro t kept
      obtain rfl := Request.keeps_tube kept
      exact live
    obtain ⟨value, last, ended, ⟨found, holds⟩, losesLast⟩ := resumes middle wellFormed needed
    refine ⟨⟨machine, last, state.suspended⟩, later, found, ?_, steady, ?_, holds, ?_,
      sound.resumes⟩
    · rw [proceed, returned]
      refine (if_neg away).trans ?_
      rw [ended]
      rfl
    · exact fun event => (keeps.live _).mpr (sound.events event)
    · intro t member
      have lives : ∀ t, middle.tubes.Live t → lost ≠ some t → last.tubes.Live t := losesLast rfl
      have old : t ∈ state.awaited → last.tubes.Live t := fun inside =>
        lives t (loses t (sound.awaited t inside) (spared t inside)) (spared t inside)
      rcases List.mem_append.mp member with kept | given
      · exact old (List.mem_append_left _ kept)
      · obtain ⟨other, inside, rfl⟩ := List.mem_map.mp given
        rcases List.mem_append.mp (awaited inside) with before | due
        · exact old (List.mem_append_right _ (List.mem_map_of_mem before))
        · -- the event just triggered, which has callbacks
          split at due
          · cases due
          · next bound =>
            obtain rfl := List.mem_singleton.mp due
            refine lives _ live fun same => ?_
            obtain ⟨event, removed⟩ := own same
            rw [event] at bound
            refine spares _ same (List.mem_append_right _ ?_)
            rw [announced, if_neg bound]
            exact removed

end Proceeding

theorem Sound.advance (sound : state.Sound view find) {event : EventLabel Notice}
    (enabled : (Machine.system Notice).Enabled state.machine event)
    (binds : ∀ request, event = .call request →
      ∃ event cb arg granted, request = .bind event cb arg granted) :
    ∃ machine later, (Machine.system Notice).step state.machine event = .ok machine ∧
      Sound { state with machine := machine } later find ∧
      state.machine.Moved view event machine later := by
  obtain ⟨machine, later, returned, steady, moved, awaited⟩ := sound.steady.step enabled binds
  refine ⟨machine, later, returned, ⟨steady, ?_, sound.holds, ?_, sound.resumes⟩, moved⟩
  · exact fun event => (moved.live _).mpr (sound.events event)
  · intro t member
    apply sound.awaited t
    rcases List.mem_append.mp member with kept | given
    · exact List.mem_append_left _ kept
    · obtain ⟨notice, inside, same⟩ := List.mem_map.mp given
      exact List.mem_append_right _ (List.mem_map.mpr ⟨notice, awaited inside, same⟩)

theorem Sound.step (sound : state.Sound view find)
    (enabled : ((system library).restrict Spares).Enabled state label) :
    ∃ next view find, (system library).step state label = .ok next ∧ next.Sound view find := by
  obtain ⟨enabled, spares⟩ := enabled
  cases label with
  | dispatch =>
    obtain ⟨machine, later, returned, soundAfter, _⟩ :=
      @Sound.advance _ _ _ sound .internal enabled (by simp)
    exact ⟨_, later, find, Exec.bind_eq_ok.mpr ⟨machine, returned, rfl⟩, soundAfter⟩
  | ret left =>
    obtain ⟨machine, later, returned, soundAfter, _⟩ :=
      @Sound.advance _ _ _ sound (.ret left) enabled (by simp)
    exact ⟨_, later, find, Exec.bind_eq_ok.mpr ⟨machine, returned, rfl⟩, soundAfter⟩
  | bind event cb granted =>
    have allowed : (Machine.system Notice).Enabled state.machine
        (.call (.bind event.address cb 0 granted)) :=
      ⟨enabled.1, sound.steady.invariant.orderly.alive, sound.events event⟩
    obtain ⟨machine, later, returned, soundAfter, _⟩ := sound.advance allowed (by
      rintro _ ⟨⟩
      exact ⟨_, _, _, _, rfl⟩)
    exact ⟨_, later, find, Exec.bind_eq_ok.mpr ⟨machine, returned, rfl⟩, soundAfter⟩
  | proceed =>
    obtain ⟨idle, pending⟩ := enabled
    obtain ⟨suspension, suspended⟩ := Option.isSome_iff_exists.mp pending
    have needed : ∀ t, suspension.request.keeps suspension.notice = some t →
        state.mgr.tubes.Live t := by
      intro t kept
      apply sound.awaited t
      rw [Reentrant.awaited, suspended]
      exact List.mem_append_left _ (Option.mem_toList.mpr kept)
    have endures := sound.resumes suspension suspended state.mgr ⟨⟨find, sound.holds⟩, needed⟩
    obtain ⟨next, later, found, returned, soundAfter⟩ :=
      proceed_sound sound.steady sound.events idle endures
    refine ⟨next, later, found, ?_, soundAfter⟩
    change perform library state .proceed = _
    rw [perform, suspended]
    exact returned
  | call request =>
    obtain ⟨⟨outside, free⟩, allowed⟩ := enabled
    by_cases idle : state.machine.control = .idle
    · have none := Option.isNone_iff_eq_none.mp (free idle)
      obtain ⟨next, later, found, returned, soundAfter⟩ :=
        proceed_sound sound.steady sound.events idle (Reentrant.endures sound.holds allowed)
      refine ⟨next, later, found, ?_, soundAfter⟩
      change perform library state (.call request) = _
      rw [perform, none]
      exact returned
    · have notLoop : ∀ env hasErr received, request ≠ .receive env hasErr received := by
        rintro env hasErr received rfl
        exact idle allowed.1
      exact sound.nested outside idle (Reentrant.brief sound.holds allowed notLoop) (spares idle)

theorem Sound.gives (sound : state.Sound view find)
    (enabled : (system library).Enabled state .dispatch)
    (returned : (system library).step state .dispatch = .ok next)
    (invokes : Invokes .dispatch next) : next.GivesLive := by
  obtain ⟨machine, later, advanced, _, moved⟩ :=
    @Sound.advance _ _ _ sound .internal enabled (by simp)
  cases returned.symm.trans (Exec.bind_eq_ok.mpr ⟨machine, advanced, rfl⟩)
  obtain ⟨_, moment, binding, handled, calling⟩ := invokes
  obtain ⟨notice, given, inside⟩ :=
    moved.gives sound.steady.invariant.orderly sound.steady.full calling
  refine ⟨notice, given, sound.awaited _ ?_⟩
  exact List.mem_append_right _ (List.mem_map_of_mem inside)

theorem Sound.usesLive (sound : state.Sound view find) :
    UsesLive ((system library).restrict Spares) state where
  safe label enabled := by
    obtain ⟨next, _, _, returned, _⟩ := sound.step enabled
    exact ⟨next, returned⟩
  given label next enabled returned invokes := by
    obtain ⟨rfl, _⟩ := id invokes
    exact sound.gives enabled.1 returned invokes

/-- As long as calls from callbacks destroy no tube that is awaited, callbacks are given
tubes that exist, and no call uses one that does not. -/
theorem run_usesLive (library : CborLibrary) (start last : Reentrant)
    (labels : List ReentrantLabel) (new : start.IsNew)
    (run : ((system library).restrict Spares).Run start labels last) :
    UsesLive ((system library).restrict Spares) last := by
  obtain ⟨view, find, sound⟩ : ∃ view find, last.Sound view find := by
    refine run.preserves (fun state => ∃ view find, state.Sound view find) ?_ ⟨_, _, new.sound⟩
    rintro state label next ⟨view, find, sound⟩ enabled stepped
    obtain ⟨after, later, found, returned, soundAfter⟩ := sound.step enabled
    cases stepped.symm.trans returned
    exact ⟨later, found, soundAfter⟩
  exact sound.usesLive

def unbound : Reentrant := ⟨newDispatcher, newResponder, none⟩

theorem unbound_isNew : unbound.IsNew := ⟨newResponder_isNew, rfl, rfl⟩

def addCreated : List ReentrantLabel :=
  [.bind .add 10 true, .call (.create obliging), .call (.add obliging 0), .dispatch, .dispatch]

theorem run_usesLive_removes : ∃ state next,
    ((system minimalCbor).restrict Spares).Run unbound addCreated state ∧
    state.machine.control = .calling 0 0 false ∧
    UsesLive ((system minimalCbor).restrict Spares) state ∧
    (system minimalCbor).step state (.call (.remove obliging 0)) = .ok next := by
  obtain ⟨state, run, control, enabled⟩ : ∃ state,
      ((system minimalCbor).restrict Spares).Run unbound addCreated state ∧
      state.machine.control = .calling 0 0 false ∧
      ((system minimalCbor).restrict Spares).Enabled state (.call (.remove obliging 0)) := by
    refine System.Run.exists_cons ⟨⟨trivial, fun _ => rfl⟩, trivial⟩ rfl ?_
    refine System.Run.exists_cons
      ⟨⟨⟨trivial, fun _ => rfl⟩, obliging_succeeds⟩, fun busy => absurd rfl busy⟩ rfl ?_
    refine System.Run.exists_cons ⟨⟨⟨trivial, fun _ => rfl⟩, obliging_succeeds, ⟨_, rfl⟩, ?_⟩,
      fun busy => absurd rfl busy⟩ rfl ?_
    · rintro ⟨id, stored⟩
      cases (newResponder_isNew.mirrors.holds.lookup id).symm.trans stored
    refine System.Run.exists_cons ⟨id, trivial⟩ rfl ?_
    refine System.Run.exists_cons ⟨id, trivial⟩ rfl ?_
    refine ⟨_, .nil _, rfl, ⟨⟨trivial, by simp⟩, obliging_succeeds, ⟨fun _ => 0⟩, rfl⟩, ?_⟩
    rintro _ _ ⟨⟩
    exact List.not_mem_nil
  have usesLive := run_usesLive minimalCbor unbound state addCreated unbound_isNew run
  obtain ⟨next, returned⟩ := usesLive.safe _ enabled
  exact ⟨state, next, run, control, usesLive, returned⟩

def goesOn (state : Reentrant) : ReentrantLabel → Bool
  | .dispatch => ¬ state.machine.control.Outside
  | .ret _ => state.machine.control.Outside ∧ state.machine.control ≠ .idle
  | _ => false

theorem goesOn_enabled (state : Reentrant) (label : ReentrantLabel)
    (goes : state.goesOn label = true) : (system library).Enabled state label := by
  cases label <;> simp_all [goesOn, system]

/-- A callback for the event add that removes the tube it is given. -/
def removeAdded : List ReentrantLabel :=
  [.bind .remove 20 true, .bind .add 10 true,
    .call (.receive obliging true (bareHeader ⟨fun _ => 7⟩ .spudOpen)), .dispatch, .dispatch,
    .call (.remove obliging 0), .ret false, .dispatch, .dispatch, .dispatch, .dispatch]

def announceRemoved : List ReentrantLabel :=
  [.dispatch, .ret false, .dispatch, .dispatch, .dispatch, .dispatch]

structure Glimpse where
  control : Control
  suspended : Bool
  live : Option Bool
  ahead : Option Fault
  deriving DecidableEq

def glimpse (library : CborLibrary) (state : Reentrant) : Glimpse where
  control := state.machine.control
  suspended := state.suspended.isSome
  live := state.machine.given.map fun notice => (state.mgr.tubes.cells notice.tube).isSome
  ahead := Exec.fault? (perform library state .proceed)

theorem not_givesLive (gone : (glimpse library state).live = some false) : ¬ state.GivesLive := by
  rintro ⟨notice, given, cell, found⟩
  change state.machine.given.map _ = _ at gone
  rw [given, Option.map_some, found] at gone
  cases gone

/-- The callback for the event remove is given a tube that is destroyed, and the loop that
made the tube goes on with it. -/
theorem removeAdded_dangles : unbound.IsNew ∧ ∃ last,
    (system minimalCbor).Run unbound removeAdded last ∧
    (∃ next, (system minimalCbor).Enabled last .dispatch ∧
      (system minimalCbor).step last .dispatch = .ok next ∧ Invokes .dispatch next ∧
      ¬ next.GivesLive) ∧
    ∃ later, (system minimalCbor).Run last announceRemoved later ∧
      (system minimalCbor).Enabled later .proceed ∧
      (system minimalCbor).step later .proceed = .error .useAfterFree := by
  refine ⟨unbound_isNew, ?_⟩
  refine System.Run.exists_cons ⟨trivial, fun _ => rfl⟩ rfl ?_
  refine System.Run.exists_cons ⟨trivial, fun _ => rfl⟩ rfl ?_
  refine System.Run.exists_cons
    ⟨⟨trivial, fun _ => rfl⟩, rfl, obliging_succeeds, by decide, .inl rfl⟩ rfl ?_
  refine System.Run.exists_cons id rfl ?_
  refine System.Run.exists_cons id rfl ?_
  refine System.Run.exists_cons_seen (fun removed =>
      ((system minimalCbor).execute goesOn removed
        [.ret false, .dispatch, .dispatch, .dispatch, .dispatch]).toOption.map fun last =>
          (glimpse minimalCbor last, (perform minimalCbor last .dispatch).toOption.map
            (glimpse minimalCbor), ((system minimalCbor).execute goesOn last
              announceRemoved).toOption.map (glimpse minimalCbor)))
    ⟨⟨trivial, by simp⟩, obliging_succeeds, ⟨fun _ => 7⟩, rfl⟩
    (show _ = some (some (⟨.visiting 1 (some 0), true, none, some .useAfterFree⟩,
      some ⟨.calling 1 0 false, true, some false, some .useAfterFree⟩,
      some ⟨.idle, true, none, some .useAfterFree⟩)) by decide +kernel) ?_
  intro removed known
  obtain ⟨last, executed, same⟩ := Exec.exists_of_map _ known
  refine ⟨last, .of_execute goesOn_enabled executed, ?_⟩
  obtain ⟨here, onward⟩ := Prod.mk.inj same
  obtain ⟨invoked, onward⟩ := Prod.mk.inj onward
  obtain ⟨next, returned, invoked⟩ := Exec.exists_of_map _ invoked
  obtain ⟨later, executedLater, onward⟩ := Exec.exists_of_map _ onward
  have control : last.machine.control = .visiting 1 (some 0) := congrArg Glimpse.control here
  refine ⟨⟨next, ?_, returned, ⟨rfl, _, _, _, congrArg Glimpse.control invoked⟩,
    not_givesLive (congrArg Glimpse.live invoked)⟩, later, .of_execute goesOn_enabled executedLater,
    ⟨congrArg Glimpse.control onward, congrArg Glimpse.suspended onward⟩,
    Exec.eq_error_of_fault? (congrArg Glimpse.ahead onward)⟩
  change ¬ last.machine.control.Outside
  rw [control]
  exact id

end Reentrant

end SpudLib
