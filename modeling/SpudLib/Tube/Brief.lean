import SpudLib.Tube.Callbacks
import SpudLib.Tube.Calls

/-!
# Calls that trigger at most one event

Every function but the receive loop triggers at most one event and ends once the
callbacks for it have returned.  What a brief call leaves behind, before the
event and after it, is said here for any callbacks that keep the table in order
and the tube the call goes on with.
-/

namespace SpudLib

open TubeManager

def TubeManager.Loses (mgr after : TubeManager) (lost : Option Nat) : Prop :=
  ∀ t, mgr.tubes.Live t → lost ≠ some t → after.tubes.Live t

/-- The call ends, or triggers one event and then ends. -/
inductive Brief {Alpha : Type} (mgr : TubeManager) (keeps : Notice → Option Nat)
    (lost : Option Nat) (own : List Nat) : Outcome Notice TubeManager Alpha → Prop where
  | done {value after} : after.WellFormed → mgr.Loses after lost →
      Brief mgr keeps lost own (.done value after)
  | calling {notice middle resume} : middle.WellFormed → middle.tubes.Live notice.tube →
      mgr.Loses middle lost →
      (lost = some notice.tube → notice.event = .remove ∧ notice.tube ∈ own) →
      (∀ after, after.WellFormed → (∀ t, keeps notice = some t → after.tubes.Live t) →
        ∃ value last, resume after = .done value last ∧ last.WellFormed ∧
          (after = middle → middle.Loses last lost)) →
      Brief mgr keeps lost own (.calling notice middle resume)

section Losses

variable {mgr middle after : TubeManager} {lost : Option Nat}

theorem TubeManager.Loses.refl (mgr : TubeManager) (lost : Option Nat) : mgr.Loses mgr lost :=
  fun _ live _ => live

theorem TubeManager.Loses.trans (first : mgr.Loses middle lost) (second : middle.Loses after lost) :
    mgr.Loses after lost :=
  fun t live other => second t (first t live other) other

theorem TubeManager.loses_evict (mgr : TubeManager) (env : Environment) (old : Option Nat) :
    mgr.Loses (mgr.evict env old) old := by
  rintro t ⟨cell, found⟩ other
  exact ⟨cell, (evict_cells_of_ne other).trans found⟩

theorem TubeManager.Holds.unique {first second : SpudTubeId → Option Nat} (one : mgr.Holds first)
    (two : mgr.Holds second) : first = second := by
  funext id
  have same := (one.lookup id).symm.trans (two.lookup id)
  rwa [Except.ok.injEq] at same

theorem TubeManager.Holds.displaced {find : SpudTubeId → Option Nat} (holds : mgr.Holds find)
    (id : SpudTubeId) : mgr.displaced id = find id := by
  rw [TubeManager.displaced, holds.lookup]
  rfl

end Losses

section Procedures

variable {mgr : TubeManager} {env : Environment} {find : SpudTubeId → Option Nat} {t : Nat}
  {cell : Tube}

/-- `tube_manager_add` of a tube that is not in the table. -/
theorem tubeManagerAdd_run (holds : mgr.Holds find) (found : mgr.tubes.cells t = some cell)
    (new : ∀ id, find id ≠ some t) (succeeds : env.Succeeds) :
    (∃ table, (tubeManagerAdd env t).run mgr = .done false (mgr.withTable table) ∧
      (mgr.withTable table).Holds find) ∨
    ∃ middle : TubeManager,
      (tubeManagerAdd env t).run mgr = .calling (.add t) middle (fun after => .done true after) ∧
      middle.WellFormed ∧ middle.tubes.cells t = some cell ∧
      mgr.Loses middle (find cell.id) := by
  obtain ⟨answer, table, returned, registers, missing, _⟩ :=
    @tubeManagerAdd_ok mgr env find t cell holds found succeeds.refused
  rw [returned]
  cases answer with
  | false =>
    rw [missing rfl, evict_none]
    exact .inl ⟨table, rfl, registers, holds.live⟩
  | true =>
    refine .inr ⟨_, lsEventTrigger_granted (succeeds.granted _), ?_, ?_, ?_⟩
    · exact ⟨_, (holds.replace found new registers).noted _⟩
    · exact (evict_cells_of_ne (new _)).trans found
    · exact (mgr.withTable table).loses_evict env _

/-- `tube_manager_remove` of a tube that exists. -/
theorem tubeManagerRemove_run (holds : mgr.Holds find) (found : mgr.tubes.cells t = some cell)
    (succeeds : env.Succeeds) :
    ∃ resume, (tubeManagerRemove env t).run mgr =
        .calling (.remove t) (mgr.noted [.triggered (.remove t)]) resume ∧
      ∀ after, after.WellFormed → after.tubes.Live t →
        ∃ last, resume after = .done () last ∧ last.WellFormed ∧
          (after = mgr.noted [.triggered (.remove t)] → after.Loses last (find cell.id)) := by
  refine ⟨_, Proc.run_bind_of_calling (lsEventTrigger_granted (succeeds.granted _)), ?_⟩
  rintro after ⟨later, holdsLater⟩ ⟨changed, foundLater⟩
  obtain ⟨table, returned, registers⟩ := @unregister_ok after env later t changed holdsLater
    foundLater
  refine ⟨_, returned, ⟨_, holdsLater.drop registers⟩, ?_⟩
  rintro rfl
  cases foundLater.symm.trans found
  rw [holdsLater.unique (holds.noted _)]
  exact ((mgr.noted _).withTable table).loses_evict env _

theorem tubeManagerRemove_brief (holds : mgr.Holds find) (found : mgr.tubes.cells t = some cell)
    (succeeds : env.Succeeds) {keeps : Notice → Option Nat} (kept : keeps (.remove t) = some t) :
    Brief mgr keeps (find cell.id) [t] ((tubeManagerRemove env t).run mgr) := by
  obtain ⟨resume, returned, resumes⟩ := tubeManagerRemove_run holds found succeeds
  rw [returned]
  refine .calling ⟨find, holds.noted _⟩ ⟨cell, found⟩ (Loses.refl _ _) ?_ ?_
  · exact fun _ => ⟨rfl, List.mem_cons_self⟩
  · intro after wellFormed live
    obtain ⟨last, ended, wellFormedLast, loses⟩ := resumes after wellFormed (live t kept)
    refine ⟨(), last, ended, wellFormedLast, ?_⟩
    rintro rfl
    exact loses rfl

theorem TubeManager.Holds.abandon (holds : mgr.Holds find) (new : ∀ id, find id ≠ some t)
    (effects : List Effect) :
    TubeManager.Holds { mgr with tubes := mgr.tubes.erase t, trace := effects } find := by
  refine holds.keep rfl ?_
  intro id other old stored found
  refine ⟨old, (Memory.erase_cells_of_ne _ ?_).trans found, rfl⟩
  rintro rfl
  exact new id stored

theorem tubeDestroy_brief {keeps : Notice → Option Nat} {lost : Option Nat} {own : List Nat}
    (holds : mgr.Holds find) (cell : Tube) {changed : TubeManager}
    (tubes : changed.tubes = mgr.tubes.alloc cell) (holdsChanged : changed.Holds find) :
    Brief mgr keeps lost own ((tubeDestroy mgr.tubes.fresh >>= fun _ => pure none :
      Tubing (Option Nat)).run changed) := by
  have found : changed.tubes.cells mgr.tubes.fresh = some cell := by
    rw [tubes]
    exact Memory.alloc_cells_self _ _
  rw [Proc.run_bind_of_done (tubeDestroy_ok found)]
  refine .done ⟨find, holdsChanged.abandon holds.unused _⟩ ?_
  intro other live _
  have old : other ≠ mgr.tubes.fresh := by
    obtain ⟨_, known⟩ := live
    exact Nat.ne_of_lt (Memory.lt_fresh known)
  change (changed.tubes.erase mgr.tubes.fresh).Live other
  rw [tubes]
  exact (live.alloc cell).erase old

theorem openTubeWith_brief (holds : mgr.Holds find) (succeeds : env.Succeeds)
    {id : SpudTubeId} (same : cell.id = id) {keeps : Notice → Option Nat} {own : List Nat}
    (kept : keeps (.add mgr.tubes.fresh) = some mgr.tubes.fresh) :
    Brief mgr keeps (find id) own
      ((openTubeWith env mgr.tubes.fresh).run (mgr.created cell)) := by
  subst same
  let opening : Tube := { cell with state := .opening }
  have holdsOpening := holds.created opening
  have known : ∀ lost, mgr.Loses (mgr.created opening) lost := fun _ _ live _ => live.alloc _
  rw [openTubeWith, Proc.run_bind_of_done (tubeSetState_ok (created_cells mgr cell) _),
    created_setTube]
  rcases tubeManagerAdd_run holdsOpening (created_cells mgr opening) holds.unused succeeds with
    ⟨table, refused, holdsAfter⟩ | ⟨middle, added, wellFormed, found, loses⟩
  · rw [Proc.run_bind_of_done refused]
    exact tubeDestroy_brief holds opening rfl holdsAfter
  · rw [Proc.run_bind_of_calling added]
    refine .calling wellFormed ⟨opening, found⟩ ((known _).trans loses) ?_ ?_
    · exact fun stored => absurd stored (holds.unused _)
    · intro after wellFormedAfter live
      obtain ⟨changed, foundAfter⟩ := live _ kept
      obtain ⟨later, holdsLater⟩ := wellFormedAfter
      refine ⟨some mgr.tubes.fresh, after.noted (env.effects
        (changed.datagram .spudOpen false false [])), ?_, ⟨later, holdsLater.noted _⟩, ?_⟩
      · change ((tubeSend env mgr.tubes.fresh .spudOpen false false [] >>= fun sent =>
          if sent then pure (some mgr.tubes.fresh) else _ : Tubing (Option Nat)).run after) = _
        rw [Proc.run_bind_of_done (tubeSend_ok foundAfter _ _ _ _), succeeds.answer]
        rfl
      · rintro rfl
        exact Loses.refl _ _

theorem tubeManagerOpenTube_brief (holds : mgr.Holds find) (succeeds : env.Succeeds)
    (dest : SockAddr) {own : List Nat} :
    Brief mgr (Request.openTube env dest).keeps (mgr.destroys (.openTube env dest)) own
      ((tubeManagerOpenTube env dest).run mgr) := by
  rw [tubeManagerOpenTube, Proc.run_bind_of_done (tubeCreate_granted (succeeds.granted _))]
  cases drawn : env.randomId with
  | none => exact tubeDestroy_brief holds Tube.created rfl (holds.created Tube.created)
  | some id =>
    have opened : ∀ socket peer, peer.isInternet = true →
        Brief mgr (Request.openTube env dest).keeps (find id) own
          ((tubeSetInfo mgr.tubes.fresh socket (some peer) (some id) >>= fun _ =>
            openTubeWith env mgr.tubes.fresh).run (mgr.created Tube.created)) := by
      intro socket peer internet
      rw [Proc.run_bind_of_done (tubeSetInfo_created _ _ internet id)]
      apply openTubeWith_brief holds succeeds <;> rfl
    have found : ∀ dest : SockAddr, dest.isInternet = true →
        mgr.destroys (.openTube env dest) = find id := by
      intro dest internet
      rw [TubeManager.destroys, if_pos internet, drawn]
      exact holds.displaced id
    simp only []
    rw [Proc.run_bind_of_done rfl]
    cases dest with
    | inet port address =>
      rw [found _ rfl]
      exact opened mgr.sock4 _ rfl
    | inet6 port address =>
      rw [found _ rfl]
      exact opened mgr.sock6 _ rfl
    | other family =>
      exact tubeDestroy_brief holds Tube.created rfl (holds.created Tube.created)

theorem Brief.discard {Alpha : Type} {procedure : Tubing Alpha} {base : TubeManager}
    {keeps : Notice → Option Nat} {lost : Option Nat} {own : List Nat}
    (brief : Brief base keeps lost own (procedure.run mgr)) :
    Brief base keeps lost own ((procedure >>= fun _ => pure () : Tubing Unit).run mgr) := by
  change Brief base keeps lost own ((procedure.run mgr).bind fun _ state => .done () state)
  generalize procedure.run mgr = outcome at brief ⊢
  cases brief with
  | done wellFormed loses => exact .done wellFormed loses
  | calling wellFormed live loses mine resumes =>
    refine .calling wellFormed live loses mine ?_
    intro after wellFormedAfter kept
    obtain ⟨value, last, returned, ends⟩ := resumes after wellFormedAfter kept
    exact ⟨(), last, by rw [returned]; rfl, ends⟩

theorem Brief.of_done {Alpha : Type} {procedure : Tubing Alpha} {value : Alpha}
    {after : TubeManager} {keeps : Notice → Option Nat} {lost : Option Nat} {own : List Nat}
    (returned : procedure.run mgr = .done value after) (wellFormed : after.WellFormed)
    (loses : mgr.Loses after lost) : Brief mgr keeps lost own (procedure.run mgr) := by
  rw [returned]
  exact .done wellFormed loses

end Procedures

/-- Every call but those of the loop and of the manager's end is brief. -/
theorem Reentrant.brief {state : Reentrant} {library : CborLibrary} {request : Request}
    {find : SpudTubeId → Option Nat} (holds : state.mgr.Holds find)
    (allowed : state.Allowed library request)
    (notLoop : ∀ env hasErr received, request ≠ .receive env hasErr received) :
    Brief state.mgr request.keeps (state.mgr.destroys request) request.removed
      ((request.procedure library).run state.mgr) := by
  have unlisted : ∀ t, state.Unadded t → ∀ id, find id ≠ some t := by
    intro t unadded id stored
    exact unadded.2 ⟨id, by rw [holds.lookup, stored]⟩
  cases request with
  | openTube env dest => exact .discard (tubeManagerOpenTube_brief holds allowed dest)
  | create env =>
    exact .discard (.of_done (tubeCreate_granted (allowed.granted _)) ⟨find, holds.created _⟩
      fun _ live _ => live.alloc _)
  | setInfo t socket peer id =>
    obtain ⟨unadded, internet⟩ := allowed
    obtain ⟨cell, found⟩ := unadded.1
    obtain ⟨changed, returned⟩ := Host.tubeSetInfo_ok found socket id internet
    exact .of_done returned ⟨find, holds.setTube found (.inr (unlisted t unadded))⟩
      fun _ live _ => live.set _ _
  | setState t tubeState =>
    obtain ⟨cell, found⟩ := allowed
    exact .of_done (tubeSetState_ok found tubeState) ⟨find, holds.setTube found (.inl rfl)⟩
      fun _ live _ => live.set _ _
  | add env t =>
    obtain ⟨succeeds, unadded⟩ := allowed
    obtain ⟨cell, found⟩ := unadded.1
    have displaces : state.mgr.destroys (.add env t) = find cell.id := by
      rw [TubeManager.destroys, found]
      exact holds.displaced cell.id
    rw [displaces]
    apply Brief.discard
    rcases tubeManagerAdd_run holds found (unlisted t unadded) succeeds with
      ⟨table, refused, holdsAfter⟩ | ⟨middle, added, wellFormed, foundMiddle, loses⟩
    · exact .of_done refused ⟨find, holdsAfter⟩ (Loses.refl _ _)
    · rw [added]
      refine .calling wellFormed ⟨cell, foundMiddle⟩ loses ?_ ?_
      · exact fun stored => absurd stored (unlisted t unadded _)
      · intro after wellFormedAfter _
        exact ⟨true, after, rfl, wellFormedAfter, fun same => same ▸ Loses.refl _ _⟩
  | close env t =>
    obtain ⟨succeeds, cell, found⟩ := allowed
    have holdsClosed : (state.mgr.setTube t { cell with state := .unknown }).Holds find :=
      holds.setTube found (.inl rfl)
    exact .discard (.of_done (tubeClose_ok found) ⟨find, holdsClosed.noted _⟩
      fun _ live _ => live.set _ _)
  | data env t bytes =>
    obtain ⟨succeeds, cell, found⟩ := allowed
    obtain ⟨answer, effects, returned, _⟩ := @tubeData_ok _ env t cell library found bytes
    exact .discard (.of_done returned ⟨find, holds.noted _⟩ (Loses.refl _ _))
  | remove env t =>
    obtain ⟨succeeds, id, stored⟩ := allowed
    rw [holds.lookup, Except.ok.injEq] at stored
    obtain ⟨cell, found, rfl⟩ := holds.live id t stored
    have brief := @tubeManagerRemove_brief _ env find t cell holds found succeeds
      (Request.remove env t).keeps rfl
    rw [stored] at brief
    exact brief
  | setPolicy willRespond =>
    exact .of_done rfl ⟨find, holds.registers, holds.live⟩ (Loses.refl _ _)
  | receive env hasErr received => exact absurd rfl (notLoop env hasErr received)
  | destroy env => exact allowed.elim

end SpudLib
