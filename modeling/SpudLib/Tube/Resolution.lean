import SpudLib.Tube.Receiving
import SpudLib.Tube.Suspension

/-!
# What a datagram comes to

The body of the receive loop as it is suspended at events, whatever the system
answers.  It never touches `keep_going`, it faults only before any callback has
run, and once a callback has run it ends with the next iteration.
-/

namespace SpudLib

open TubeManager

section KeepGoing

def KeepsGoing {Alpha : Type} (procedure : Tubing Alpha) : Prop :=
  procedure.Preserves TubeManager.keepGoing

variable {env : Environment} {t : Nat}

theorem readTube_keepsGoing : KeepsGoing (readTube t) := .lift_bind fun _ _ => rfl

theorem modifyTube_keepsGoing (change : Tube → Tube) : KeepsGoing (modifyTube t change) :=
  .lift_bind fun _ _ => rfl

theorem record_keepsGoing (effect : Effect) : KeepsGoing (record effect) := fun _ => rfl

theorem tubeCreate_keepsGoing : KeepsGoing (tubeCreate env) :=
  .ite (.bind .get fun _ => .bind (.modify fun _ => rfl) fun _ => .pure _) (.pure _)

theorem tubeDestroy_keepsGoing : KeepsGoing (tubeDestroy t) :=
  .bind (.lift_bind fun _ _ => rfl) fun _ => record_keepsGoing _

theorem tubeSetLocal_keepsGoing (info : Option PktInfo) :
    KeepsGoing (tubeSetLocal env t info) := by
  cases info with
  | none => exact .bind (modifyTube_keepsGoing _) fun _ => .pure _
  | some info => exact .bind (modifyTube_keepsGoing _) fun _ => .pure _

theorem tubeSetInfo_keepsGoing (socket : Int) (peer : Option SockAddr) (id : Option SpudTubeId) :
    KeepsGoing (tubeSetInfo t socket peer id) := by
  refine .bind ?_ fun _ => modifyTube_keepsGoing _
  cases peer with
  | none => exact fun _ => rfl
  | some peer => exact .lift_bind fun _ _ => rfl

theorem tubeSend_keepsGoing (cmd : SpudCommand) (adec pdec : Bool) (data : List (List UInt8)) :
    KeepsGoing (tubeSend env t cmd adec pdec data) :=
  .ite (.bind readTube_keepsGoing fun _ => .bind (record_keepsGoing _) fun _ => .pure _) (.pure _)

theorem tubeSetState_keepsGoing (state : TubeState) : KeepsGoing (tubeSetState t state) :=
  modifyTube_keepsGoing _

theorem tubeClose_keepsGoing : KeepsGoing (tubeClose env t) :=
  .bind (tubeSetState_keepsGoing _) fun _ => tubeSend_keepsGoing _ _ _ _

theorem readKeys_keepsGoing (key : TubeKey) : KeepsGoing (readKeys key) :=
  .lift_bind fun _ _ => rfl

theorem lsEventTrigger_keepsGoing (notice : Notice) : KeepsGoing (lsEventTrigger env notice) :=
  .ite (.bind (record_keepsGoing _) fun _ => .bind (.callBack _) fun _ => .pure _) (.pure _)

theorem cleanTube_keepsGoing (data : Option Nat) : KeepsGoing (cleanTube env data) := by
  cases data with
  | none => exact .fail _
  | some t =>
    exact .bind readTube_keepsGoing fun cell =>
      .ite (.bind tubeClose_keepsGoing fun _ => tubeDestroy_keepsGoing)
        (.bind (.pure _) fun _ => tubeDestroy_keepsGoing)

theorem runCleaners_keepsGoing (calls : List (CleanerCall TubeKey Nat)) :
    KeepsGoing (runCleaners env calls) := by
  induction calls with
  | nil => exact .pure _
  | cons call calls inductionHypothesis =>
    exact .bind (cleanTube_keepsGoing _) fun _ => inductionHypothesis

theorem tubeManagerAdd_keepsGoing : KeepsGoing (tubeManagerAdd env t) :=
  .bind readTube_keepsGoing fun _ => .bind (readKeys_keepsGoing _) fun _ =>
    .bind (.lift_bind fun _ _ => rfl) fun _ => .bind (runCleaners_keepsGoing _) fun _ =>
      .ite (lsEventTrigger_keepsGoing _) (.pure _)

theorem tubeManagerRemove_keepsGoing : KeepsGoing (tubeManagerRemove env t) :=
  .bind (lsEventTrigger_keepsGoing _) fun _ => .bind readTube_keepsGoing fun _ =>
    .bind (readKeys_keepsGoing _) fun _ =>
      .bind (.lift_bind fun _ _ => rfl) fun _ => runCleaners_keepsGoing _

theorem getStarted_keepsGoing (received : Reception) (uid : SpudTubeId) :
    KeepsGoing (getStarted env received uid) := by
  refine .bind tubeCreate_keepsGoing ?_
  rintro (_ | t)
  · exact .pure _
  · refine .bind (tubeSetInfo_keepsGoing _ _ _) fun _ => .bind (tubeSetLocal_keepsGoing _) ?_
    refine fun copied => .ite (.bind tubeManagerAdd_keepsGoing fun added => .ite ?_ (.pure _))
      (.pure _)
    exact .bind (tubeSetState_keepsGoing _) fun _ => .bind (tubeSend_keepsGoing _ _ _ _) fun sent =>
      .ite (.pure _) (.pure _)

theorem obey_keepsGoing (d : TubeEventData) (cmd : SpudCommand) : KeepsGoing (obey env d cmd) := by
  refine .bind readTube_keepsGoing fun cell => ?_
  cases cmd with
  | spudData => exact .ite (.bind (lsEventTrigger_keepsGoing _) fun _ => .pure _) (.pure _)
  | spudClose =>
    refine .ite (.bind (tubeSetState_keepsGoing _) fun _ =>
      .bind (lsEventTrigger_keepsGoing _) fun triggered => .ite ?_ (.pure _)) (.pure _)
    exact .bind tubeManagerRemove_keepsGoing fun _ => .pure _
  | spudOpen => exact .pure _
  | spudAck =>
    exact .ite (.bind (tubeSetState_keepsGoing _) fun _ =>
      .bind (lsEventTrigger_keepsGoing _) fun _ => .pure _) (.pure _)

theorem handleMessage_keepsGoing (received : Reception) (msg : SpudMessage) :
    KeepsGoing (handleMessage env received msg) := by
  refine .bind (readKeys_keepsGoing _) fun _ => .bind (.lift_bind fun _ _ => rfl) ?_
  rintro (_ | t)
  · refine .bind .get fun mgr => .ite (.pure _) (.bind (getStarted_keepsGoing _ _) ?_)
    rintro (verdict | t)
    · exact .pure _
    · exact obey_keepsGoing _ _
  · exact obey_keepsGoing _ _

theorem tubeManagerLoopBody_keepsGoing (library : CborLibrary) (hasErr : Bool)
    (received : Reception) : KeepsGoing (tubeManagerLoopBody env library hasErr received) := by
  refine .ite (.fail _) (.bind (.modify fun _ => rfl) fun _ => ?_)
  split
  · exact .ite (.pure _) (.fail _)
  · exact handleMessage_keepsGoing _ _

end KeepGoing

/-- The call gets from each event to the next, and faults only before the first one.  What it
ends with may depend on whether a callback has run. -/
def Resolves {Alpha : Type} (keeps : Notice → Option Nat) (Faulty : Prop)
    (Post : Bool → Alpha → TubeManager → Prop) (called : Bool)
    (outcome : Outcome Notice TubeManager Alpha) : Prop :=
  outcome.Follows (fun _ _ => true) (fun called => called = false ∧ Faulty) (fun _ => Announced)
    (Respected keeps) Post called

def Resolved (Failing : Prop) (called : Bool) (verdict : Verdict) (after : TubeManager) : Prop :=
  after.WellFormed ∧ (verdict = .failed → called = false ∧ Failing)

section Resolving

variable {mgr : TubeManager} {env : Environment} {find : SpudTubeId → Option Nat} {t : Nat}
  {cell : Tube} {keeps : Notice → Option Nat} {called : Bool} {Faulty Failing : Prop}

theorem Resolved.next {after : TubeManager} (wellFormed : after.WellFormed) :
    Resolved Failing called .next after :=
  ⟨wellFormed, nofun⟩

theorem unregister_wellFormed (wellFormed : mgr.WellFormed) (live : mgr.tubes.Live t) :
    ∃ after, (unregister env t).run mgr = .done () after ∧ after.WellFormed := by
  obtain ⟨find, holds⟩ := wellFormed
  obtain ⟨cell, found⟩ := live
  obtain ⟨table, returned, registers⟩ := @unregister_ok mgr env find t cell holds found
  exact ⟨_, returned, _, holds.drop registers⟩

theorem tubeManagerRemove_resolves (wellFormed : mgr.WellFormed) (live : mgr.tubes.Live t)
    (attends : Attends keeps) :
    Resolves keeps Faulty (fun _ _ after => after.WellFormed) called
      ((tubeManagerRemove env t).run mgr) := by
  cases granted : env.granted (.moment .remove) with
  | false =>
    obtain ⟨after, returned, wellFormedAfter⟩ := @unregister_wellFormed mgr env t wellFormed live
    rw [tubeManagerRemove, Proc.run_bind_of_done (lsEventTrigger_refused granted), returned]
    exact wellFormedAfter
  | true =>
    rw [tubeManagerRemove, Proc.run_bind_of_calling (lsEventTrigger_granted granted)]
    obtain ⟨find, holds⟩ := wellFormed
    refine ⟨⟨⟨find, holds.noted _⟩, live⟩, ?_⟩
    intro middle respected
    obtain ⟨after, returned, wellFormedAfter⟩ :=
      @unregister_wellFormed middle env t respected.1 (respected.2 t (attends.2.1 t))
    change Resolves keeps Faulty (fun _ _ after => after.WellFormed) true
      ((unregister env t).run middle)
    rw [returned]
    exact wellFormedAfter

theorem trigger_resolves {notice : Notice} (announced : Announced notice mgr)
    (first : env.granted (.moment notice.event) = false → called = false ∧ Failing) :
    Resolves keeps Faulty (Resolved Failing) called
      ((lsEventTrigger env notice >>= fun triggered =>
        pure (if triggered then .next else .failed) : Tubing Verdict).run mgr) := by
  cases granted : env.granted (.moment notice.event) with
  | false =>
    rw [Proc.run_bind_of_done (lsEventTrigger_refused granted)]
    exact ⟨announced.1, fun _ => first granted⟩
  | true =>
    rw [Proc.run_bind_of_calling (lsEventTrigger_granted granted)]
    obtain ⟨⟨find, holds⟩, live⟩ := announced
    exact ⟨⟨⟨find, holds.noted _⟩, live⟩, fun after respected => .next respected.1⟩

/-- The switch, for a tube that exists; after the callbacks of an event it is reached with
`OPEN` only. -/
theorem obey_resolves (holds : mgr.Holds find) (attends : Attends keeps) {d : TubeEventData}
    (found : mgr.tubes.cells d.t = some cell) {cmd : SpudCommand}
    (started : called = true → cmd = .spudOpen) (fails : env.Fails cmd cell.state → Failing) :
    Resolves keeps Faulty (Resolved Failing) called
      ((obey env d cmd).run mgr) := by
  have changed : ∀ state, (mgr.setTube d.t { cell with state := state }).Holds find :=
    fun state => holds.setTube found (.inl rfl)
  have live : ∀ state, (mgr.setTube d.t { cell with state := state }).tubes.Live d.t :=
    fun state => ⟨_, Memory.set_cells_self _ found⟩
  have first : cmd ≠ .spudOpen → called = false :=
    fun other => Bool.eq_false_iff.mpr fun late => other (started late)
  have idle : Resolves keeps Faulty (Resolved Failing) called
      ((pure .next : Tubing Verdict).run mgr) := .next ⟨find, holds⟩
  rw [obey, Proc.run_bind_of_done (readTube_ok found)]
  cases cmd with
  | spudOpen => exact idle
  | spudData =>
    simp only []
    split_ifs with running
    · exact trigger_resolves ⟨⟨find, holds⟩, cell, found⟩
        fun refused => ⟨first (by decide), fails ⟨running, refused⟩⟩
    · exact idle
  | spudAck =>
    simp only []
    split_ifs with opening
    · rw [Proc.run_bind_of_done (tubeSetState_ok found _)]
      exact trigger_resolves ⟨⟨find, changed _⟩, live _⟩
        fun refused => ⟨first (by decide), fails ⟨opening, refused⟩⟩
    · exact idle
  | spudClose =>
    simp only []
    split_ifs with known
    · rw [Proc.run_bind_of_done (tubeSetState_ok found _)]
      cases granted : env.granted (.moment .close) with
      | false =>
        rw [Proc.run_bind_of_done (lsEventTrigger_refused granted)]
        exact ⟨⟨find, changed _⟩, fun _ => ⟨first (by decide), fails ⟨known, granted⟩⟩⟩
      | true =>
        rw [Proc.run_bind_of_calling (lsEventTrigger_granted granted)]
        refine ⟨⟨⟨find, (changed _).noted _⟩, live _⟩, ?_⟩
        intro after respected
        change Resolves keeps Faulty (Resolved Failing) true
          ((tubeManagerRemove env d.t >>= fun _ => pure .next : Tubing Verdict).run after)
        apply Outcome.Follows.bind (tubeManagerRemove_resolves respected.1
          (respected.2 _ (attends.2.2 d)) attends)
        exact fun _ _ _ wellFormed => .next wellFormed
    · exact idle

theorem getStarted_resolves (holds : mgr.Holds find) (attends : Attends keeps)
    (limited : ∀ size, 2 ^ 30 ≤ size → env.calloc size = false) (received : Reception)
    {uid : SpudTubeId} (missing : find uid = none) :
    Resolves keeps Faulty (fun called started after => after.WellFormed ∧
        (∀ t, started = .ok t → after.tubes.Live t) ∧
        (started = .error .failed → called = false ∧
          ¬ (env.granted .tube = true ∧ mgr.Admits env ∧ env.granted (.moment .add) = true)))
      false ((getStarted env received uid).run mgr) := by
  by_cases granted : env.granted .tube = true
  · rw [getStarted_run granted]
    let bare : Tube := received.bareTube env uid
    have holdsMade := holds.created bare
    split_ifs with copied
    · obtain ⟨answer, table, returned, registers, _, accepted, _⟩ :=
        @tubeManagerAdd_ok _ env find _ _ holdsMade (created_cells mgr bare) limited
      have replaced := @Holds.replace _ env find _ bare holdsMade table (created_cells mgr bare)
        holds.unused
      rw [show find bare.id = none from missing, evict_none] at returned replaced
      cases answer with
      | false =>
        rw [Proc.run_bind_of_done returned]
        refine ⟨⟨find, registers, holdsMade.live⟩, nofun, fun _ => ⟨rfl, ?_⟩⟩
        rintro ⟨_, ⟨_, accepts⟩, _⟩
        cases accepted accepts
      | true =>
        have holdsAdded := replaced registers
        cases told : env.granted (.moment .add) with
        | false =>
          rw [Proc.run_bind_of_done (returned.trans (lsEventTrigger_refused told))]
          exact ⟨⟨_, holdsAdded⟩, nofun, fun _ => ⟨rfl, fun all => nomatch all.2.2⟩⟩
        | true =>
          rw [Proc.run_bind_of_calling (returned.trans (lsEventTrigger_granted told))]
          refine ⟨⟨⟨_, holdsAdded.noted _⟩, bare, created_cells mgr bare⟩, ?_⟩
          rintro after ⟨⟨later, holdsLater⟩, needed⟩
          obtain ⟨cell, found⟩ := needed _ (attends.1 _)
          let running : Tube := { cell with state := .running }
          have foundRunning : (after.setTube mgr.tubes.fresh running).tubes.cells
              mgr.tubes.fresh = some running := Memory.set_cells_self _ found
          have holdsRunning : (after.setTube mgr.tubes.fresh running).Holds later :=
            holdsLater.setTube found (.inl rfl)
          change Outcome.Follows _ _ _ _ _ true ((tubeSetState mgr.tubes.fresh .running >>=
            fun _ => _ : Tubing (Except Verdict Nat)).run after)
          rw [Proc.run_bind_of_done (tubeSetState_ok found _),
            Proc.run_bind_of_done (tubeSend_ok foundRunning _ _ _ _)]
          cases env.answer (running.datagram .spudAck false false []) with
          | false => exact ⟨⟨later, holdsRunning.noted _⟩, nofun, nofun⟩
          | true =>
            refine ⟨⟨later, holdsRunning.noted _⟩, ?_, nofun⟩
            rintro t ⟨⟩
            exact ⟨_, foundRunning⟩
    · exact ⟨⟨find, holdsMade⟩, nofun, fun _ => ⟨rfl, fun all => copied all.2.1.1⟩⟩
  · rw [getStarted, tubeCreate, if_neg granted]
    exact ⟨⟨find, holds⟩, nofun, fun _ => ⟨rfl, fun all => granted all.1⟩⟩

theorem handleMessage_resolves (wellFormed : mgr.WellFormed) (attends : Attends keeps)
    (limited : ∀ size, 2 ^ 30 ≤ size → env.calloc size = false) (received : Reception)
    (msg : SpudMessage) (breaks : mgr.Breaks env msg → Failing) :
    Resolves keeps Faulty (Resolved Failing) false
      ((handleMessage env received msg).run mgr) := by
  obtain ⟨find, holds⟩ := wellFormed
  unfold Breaks at breaks
  rw [holds.lookup] at breaks
  rw [handleMessage, Proc.run_bind_of_done (readKeys_ok holds _),
    Proc.run_bind_of_done (lookup_ok holds _)]
  cases stored : find msg.header.tubeId with
  | some t =>
    obtain ⟨cell, found, _⟩ := holds.live _ t stored
    apply @obey_resolves mgr env find cell keeps _ _ _ holds attends ⟨t, _, _⟩ found _
    · exact fun late => absurd late Bool.false_ne_true
    · intro fails
      rw [stored] at breaks
      exact breaks ⟨cell, found, fails⟩
  | none =>
    simp only []
    rw [Proc.run_bind_of_done rfl]
    split_ifs with ignored
    · exact .next ⟨find, holds⟩
    · have responds : mgr.Responds msg := by simpa [Responds] using ignored
      apply Outcome.Follows.bind (getStarted_resolves holds attends limited received stored)
      rintro called (verdict | t) after ⟨⟨later, holdsLater⟩, serves, denied⟩
      · refine ⟨⟨later, holdsLater⟩, ?_⟩
        rintro rfl
        refine ⟨(denied rfl).1, breaks ?_⟩
        rw [stored]
        exact ⟨responds, (denied rfl).2⟩
      · obtain ⟨cell, found⟩ := serves t rfl
        rw [responds.2]
        exact @obey_resolves after env later cell keeps called _ _ holdsLater attends ⟨t, _, _⟩
          found _ (fun _ => rfl) False.elim

theorem tubeManagerLoopBody_resolves {library : CborLibrary} {hasErr : Bool}
    {received : Reception} (wellFormed : mgr.WellFormed) (attends : Attends keeps)
    (limited : ∀ size, 2 ^ 30 ≤ size → env.calloc size = false) :
    Resolves keeps
      (received.bytes = [] ∨ hasErr = false ∧ ∀ msg, spudParse library received.buf ≠ .ok msg)
      (Resolved (∃ msg, spudParse library received.buf = .ok msg ∧ mgr.Breaks env msg)) false
      ((tubeManagerLoopBody env library hasErr received).run mgr) := by
  obtain ⟨find, holds⟩ := wellFormed
  have wellFormedNow : (mgr.at env received).WellFormed := ⟨find, holds.at env received⟩
  unfold tubeManagerLoopBody
  by_cases empty : received.buf.length = 0
  · have nothing : received.bytes = [] := by
      by_contra some
      exact buf_ne_nil some (List.length_eq_zero_iff.mp empty)
    rw [if_pos empty]
    exact ⟨rfl, .inl nothing⟩
  · rw [if_neg empty, Proc.run_bind_of_done rfl]
    cases parsed : spudParse library received.buf with
    | error reason =>
      cases hasErr with
      | true => exact .next wellFormedNow
      | false => exact ⟨rfl, .inr ⟨rfl, nofun⟩⟩
    | ok msg =>
      exact handleMessage_resolves wellFormedNow attends limited received msg
        fun breaks => ⟨msg, rfl, breaks⟩

end Resolving

end SpudLib
