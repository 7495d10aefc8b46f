import SpudLib.Tube.Changes

/-!
# The calls of an application

With allocations and sends that succeed, each call of the application on its own
tubes and on tubes in the table returns, and is one change of the host.
-/

namespace SpudLib

open TubeManager

section Succeeding

variable {mgr : TubeManager} {env : Environment} {find : SpudTubeId → Option Nat} {t : Nat}
  {cell : Tube}

namespace Environment.Succeeds

theorem refused (succeeds : env.Succeeds) : ∀ size, 2 ^ 30 ≤ size → env.calloc size = false := by
  intro size large
  rw [succeeds.calloc]
  exact decide_eq_false (Nat.not_lt.mpr large)

theorem called (succeeds : env.Succeeds) : ∀ size, size < 2 ^ 30 → env.calloc size = true := by
  intro size small
  rw [succeeds.calloc]
  exact decide_eq_true small

theorem accepts {tbl : HTable TubeKey Nat} (succeeds : env.Succeeds) (roomy : tbl.Roomy) :
    tbl.Accepts env.calloc (env.granted .node) := by
  rw [succeeds.granted]
  exact roomy.accepts succeeds.called

theorem triggers (succeeds : env.Succeeds) (notice : Notice) :
    env.triggers notice = [.triggered notice] := if_pos (succeeds.granted _)

theorem effects (succeeds : env.Succeeds) (datagram : Datagram) :
    env.effects datagram = [.sent datagram true] := by
  rw [Environment.effects, if_pos (succeeds.granted _), succeeds.sendmsg]

theorem answer (succeeds : env.Succeeds) (datagram : Datagram) :
    env.answer datagram = true := by
  rw [Environment.answer, succeeds.granted, succeeds.sendmsg]
  rfl

theorem verdict (succeeds : env.Succeeds) (event : TubeEvent) : env.verdict event = .next :=
  if_pos (succeeds.granted _)

end Environment.Succeeds

theorem tubeManagerAdd_succeeds (holds : mgr.Holds find) (found : mgr.tubes.cells t = some cell)
    (succeeds : env.Succeeds) (roomy : mgr.table.Roomy) :
    ∃ table, (tubeManagerAdd env t).straight mgr =
        .ok (true, ((mgr.withTable table).evict env (find cell.id)).noted
          [.triggered (.add t)]) ∧
      Registers table (Function.update find cell.id (some t)) := by
  obtain ⟨answer, table, returned, registers, _, accepted, _⟩ :=
    tubeManagerAdd_straight holds found succeeds.refused
  obtain rfl := accepted (succeeds.accepts roomy)
  refine ⟨table, ?_, registers⟩
  rw [returned, succeeds.granted, if_pos rfl, succeeds.triggers]
  rfl

theorem openTubeWith_succeeds (holds : mgr.Holds find) (found : mgr.tubes.cells t = some cell)
    (new : ∀ id, find id ≠ some t) (succeeds : env.Succeeds) (roomy : mgr.table.Roomy)
    {opening : Tube} (opened : opening = { cell with state := .opening }) :
    ∃ table, (openTubeWith env t).straight mgr =
        .ok (some t, (((mgr.setTube t opening).withTable table).evict env (find cell.id)).noted
          [.triggered (.add t), .sent (opening.datagram .spudOpen false false []) true]) ∧
      Registers table (Function.update find cell.id (some t)) := by
  have foundOpening : (mgr.setTube t opening).tubes.cells t = some opening :=
    Memory.set_cells_self _ found
  have holdsOpening : (mgr.setTube t opening).Holds find := holds.setTube found (.inr new)
  obtain ⟨table, added, registers⟩ :=
    tubeManagerAdd_succeeds holdsOpening foundOpening succeeds roomy
  have own : opening.id = cell.id := by rw [opened]
  rw [own] at added registers
  refine ⟨table, ?_, registers⟩
  have live : ((((mgr.setTube t opening).withTable table).evict env (find cell.id)).noted
      [.triggered (.add t)]).tubes.cells t = some opening :=
    (evict_cells_of_ne (new _)).trans foundOpening
  rw [openTubeWith, straight_bind_of_done (tubeSetState_ok found _), ← opened,
    straight_bind_of added]
  simp only [if_true]
  rw [straight_bind_of_done (tubeSend_ok live _ _ _ _), succeeds.answer, succeeds.effects,
    noted_noted]
  rfl

/-- An `OPEN` for an identifier not in the table makes a running tube and is answered. -/
theorem handleMessage_accepts (holds : mgr.Holds find) (succeeds : env.Succeeds)
    (roomy : mgr.table.Roomy) (received : Reception) {msg : SpudMessage}
    (missing : find msg.header.tubeId = none) (responds : mgr.Responds msg) :
    ∃ table, (handleMessage env received msg).straight mgr =
        .ok (.next, ((mgr.created (received.tube msg.header.tubeId)).withTable table).noted
          [.triggered (.add mgr.tubes.fresh), .sent (received.ack msg.header.tubeId) true]) ∧
      Registers table (Function.update find msg.header.tubeId (some mgr.tubes.fresh)) := by
  obtain ⟨answer, table, started, registers, accepted⟩ := getStarted_added holds received
    missing succeeds.refused (succeeds.granted _) (succeeds.granted _)
  obtain rfl := accepted.mpr (succeeds.accepts roomy)
  rw [succeeds.granted, succeeds.answer, succeeds.effects] at started
  simp only [Bool.and_self, if_true] at started registers
  refine ⟨table, ?_, registers⟩
  rw [handleMessage_started holds missing responds, straight_bind_of started]
  exact obey_idle (created_cells mgr _) rfl

theorem TubeManager.Holds.accepted (holds : mgr.Holds find) {received : Reception}
    {uid : SpudTubeId} {table : HTable TubeKey Nat} (missing : find uid = none)
    (registers : Registers table (Function.update find uid (some mgr.tubes.fresh)))
    (effects : List Effect) :
    (((mgr.created (received.tube uid)).withTable table).noted effects).Holds
      (Function.update find uid (some mgr.tubes.fresh)) := by
  -- nothing is evicted here, so any environment serves
  have replaced := @Holds.replace (mgr.created (received.tube uid)) obliging find mgr.tubes.fresh
    _ (holds.created _) table (created_cells mgr _) holds.unused registers
  rw [show find (received.tube uid).id = none from missing] at replaced
  exact replaced.noted _

/-- `tube_manager_open_tube` opens a tube, or destroys it when it finds no
identifier or has no socket for it. -/
theorem tubeManagerOpenTube_succeeds (holds : mgr.Holds find) (succeeds : env.Succeeds)
    (roomy : mgr.table.Roomy) (dest : SockAddr) :
    (tubeManagerOpenTube env dest).straight mgr =
        .ok (none, (mgr.created Tube.created).evict env (some mgr.tubes.fresh)) ∨
      ∃ cell table, cell.state = .opening ∧
        (env.randomId = some cell.id ∧ dest.isInternet = true) ∧
        (tubeManagerOpenTube env dest).straight mgr =
          .ok (some mgr.tubes.fresh, (((mgr.created cell).withTable table).evict env
            (find cell.id)).noted [.triggered (.add mgr.tubes.fresh),
              .sent (cell.datagram .spudOpen false false []) true]) ∧
        Registers table (Function.update find cell.id (some mgr.tubes.fresh)) := by
  have created := @tubeCreate_granted mgr env (succeeds.granted _)
  have dropped : (tubeDestroy mgr.tubes.fresh >>= fun _ => pure none : Tubing (Option Nat)).straight
      (mgr.created Tube.created) =
        .ok (none, (mgr.created Tube.created).evict env (some mgr.tubes.fresh)) := by
    rw [straight_bind_of_done (tubeDestroy_ok (created_cells mgr _)),
      evict_some (created_cells mgr _)]
    rfl
  have opened : ∀ (socket : Int) (peer : SockAddr) (id : SpudTubeId), peer.isInternet = true →
      ∃ cell table, cell.state = .opening ∧ cell.id = id ∧
        (tubeSetInfo mgr.tubes.fresh socket (some peer) (some id) >>= fun _ =>
            openTubeWith env mgr.tubes.fresh).straight (mgr.created Tube.created) =
          .ok (some mgr.tubes.fresh, (((mgr.created cell).withTable table).evict env
            (find cell.id)).noted [.triggered (.add mgr.tubes.fresh),
              .sent (cell.datagram .spudOpen false false []) true]) ∧
        Registers table (Function.update find cell.id (some mgr.tubes.fresh)) := by
    intro socket peer id internet
    let bare : Tube := { Tube.created with
      sock := if 0 ≤ socket then socket else Tube.created.sock
      peer := peer
      id := id }
    obtain ⟨table, returned, registers⟩ := openTubeWith_succeeds (holds.created bare)
      (created_cells mgr bare) holds.unused succeeds roomy rfl
    refine ⟨{ bare with state := .opening }, table, rfl, rfl, ?_, registers⟩
    rw [straight_bind_of_done (tubeSetInfo_created _ socket internet id)]
    exact returned.trans (by rw [created_setTube])
  rw [tubeManagerOpenTube, straight_bind_of_done created]
  cases env.randomId with
  | none => exact .inl dropped
  | some id =>
    cases dest with
    | inet port address =>
      obtain ⟨cell, table, state, own, returned, registers⟩ :=
        opened mgr.sock4 (.inet port address) id rfl
      exact .inr ⟨cell, table, state, ⟨congrArg some own.symm, rfl⟩, returned, registers⟩
    | inet6 port address =>
      obtain ⟨cell, table, state, own, returned, registers⟩ :=
        opened mgr.sock6 (.inet6 port address) id rfl
      exact .inr ⟨cell, table, state, ⟨congrArg some own.symm, rfl⟩, returned, registers⟩
    | other family => exact .inl dropped

end Succeeding

namespace Host

section Requests

variable {library : CborLibrary} {host after : Host} {find later : SpudTubeId → Option Nat}
  {t : Nat} {env : Environment} {request : Request}

theorem Keeps.unborn (keeps : host.Keeps find) :
    (host.glimpse find host.mgr.tubes.fresh).Good ∧
      (host.glimpse find host.mgr.tubes.fresh).born = false :=
  ⟨keeps.good _, decide_eq_false (Nat.lt_irrefl _)⟩

theorem lt_created {other : Nat} (mgr : TubeManager) (cell : Tube)
    (different : other ≠ mgr.tubes.fresh) :
    other < (mgr.created cell).tubes.fresh ↔ other < mgr.tubes.fresh := by
  change other < mgr.tubes.fresh + 1 ↔ _
  omega

theorem create_proceeds (keeps : host.Keeps find) (present : host.gone = false)
    (succeeds : env.Succeeds) :
    ∃ after later, host.perform library (.create env) = .ok after ∧
      Proceeds library host (.create env) after find later := by
  let fresh := host.mgr.tubes.fresh
  let after : Host := { host with
    mgr := host.mgr.created Tube.created
    created := host.created ++ [fresh]
    unadded := host.unadded ++ [fresh] }
  have returned : host.perform library (.create env) = .ok after := by
    have created := @tubeCreate_granted host.mgr env (succeeds.granted _)
    rw [perform, Proc.straight_of_done created]
    rfl
  obtain ⟨good, unborn⟩ := keeps.unborn
  have turn : (host.glimpse find fresh).Turn (after.glimpse find fresh) := by
    refine (good.made unborn Tube.created).of_eq (Glimpse.ext ?_ ?_ rfl ?_ ?_ rfl rfl rfl)
    · exact created_cells _ _
    · exact decide_eq_true (Nat.lt_succ_self _)
    · exact decide_eq_true (List.mem_append_right _ List.mem_cons_self)
    · exact decide_eq_true (List.mem_append_right _ List.mem_cons_self)
  have advances : host.Advances after find find := by
    refine keeps.of_touched ((keeps.holds present).created _) present turn ?_
    intro other different
    refine .inl ⟨⟨?_, ?_, Iff.rfl, Iff.rfl⟩, ?_, lt_created _ _ different, fun _ => Iff.rfl, rfl⟩
    · simp [after, fresh, different]
    · simp [after, fresh, different]
    · exact Memory.alloc_cells_of_ne _ _ different
  exact ⟨after, find, returned, advances.quietly (List.append_nil _).symm fun _ => nofun⟩

theorem Keeps.change (keeps : host.Keeps find) (present : host.gone = false)
    (held : t ∈ host.unadded) :
    ∃ cell, host.mgr.tubes.cells t = some cell ∧ ∀ changed,
      Proceeds library host request { host with mgr := host.mgr.setTube t changed } find find := by
  obtain ⟨live, _, _, _, missing⟩ := (keeps.good t).handed (decide_eq_true held)
  obtain ⟨cell, found⟩ := Option.isSome_iff_exists.mp live
  refine ⟨cell, found, ?_⟩
  intro changed
  have absent : ∀ id, find id ≠ some t := fun id => of_decide_eq_false (missing id)
  let after : Host := { host with mgr := host.mgr.setTube t changed }
  have turn : (host.glimpse find t).Turn (after.glimpse find t) := by
    refine ((keeps.good t).set (decide_eq_true held) changed).of_eq
      (Glimpse.ext ?_ rfl rfl rfl rfl rfl rfl rfl)
    exact Memory.set_cells_self _ found
  have advances : host.Advances after find find := by
    refine keeps.of_touched ((keeps.holds present).setTube found (.inr absent)) present turn ?_
    intro other different
    exact .inl ⟨⟨Iff.rfl, Iff.rfl, Iff.rfl, Iff.rfl⟩, Memory.set_cells_of_ne _ _ different, Iff.rfl,
      fun _ => Iff.rfl, rfl⟩
  exact advances.quietly (List.append_nil _).symm fun _ => nofun

theorem tubeSetInfo_ok {mgr : TubeManager} {cell : Tube} (found : mgr.tubes.cells t = some cell)
    (socket : Int) {peer : Option SockAddr} (id : Option SpudTubeId)
    (internet : ∀ addr, peer = some addr → addr.isInternet = true) :
    ∃ changed, (tubeSetInfo t socket peer id).run mgr = .done () (mgr.setTube t changed) := by
  refine ⟨{ cell with
    sock := if 0 ≤ socket then socket else cell.sock
    peer := peer.getD cell.peer
    id := id.getD cell.id }, ?_⟩
  refine (Proc.run_bind_of_done (?_ : _ = Outcome.done peer mgr)).trans (modifyTube_ok found _)
  refine Proc.run_lift_of_ok ?_
  cases peer with
  | none => rfl
  | some addr =>
    have copied : lsSockaddrCopy addr = .ok addr := if_pos (internet addr rfl)
    simp only [copied]
    rfl

theorem setInfo_proceeds (keeps : host.Keeps find) (present : host.gone = false)
    (held : t ∈ host.unadded) (socket : Int) {peer : Option SockAddr} (id : Option SpudTubeId)
    (internet : ∀ addr, peer = some addr → addr.isInternet = true) :
    ∃ after later, host.perform library (.setInfo t socket peer id) = .ok after ∧
      Proceeds library host (.setInfo t socket peer id) after find later := by
  obtain ⟨cell, found, proceeds⟩ := keeps.change present held
  obtain ⟨changed, returned⟩ := tubeSetInfo_ok found socket id internet
  refine ⟨_, find, ?_, proceeds changed⟩
  rw [perform, Proc.straight_of_done returned]
  rfl

theorem setState_proceeds (keeps : host.Keeps find) (present : host.gone = false)
    (held : t ∈ host.unadded) (state : TubeState) :
    ∃ after later, host.perform library (.setState t state) = .ok after ∧
      Proceeds library host (.setState t state) after find later := by
  obtain ⟨cell, found, proceeds⟩ := keeps.change present held
  refine ⟨_, find, ?_, proceeds { cell with state := state }⟩
  rw [perform, Proc.straight_of_done (tubeSetState_ok found state)]
  rfl

theorem add_proceeds (keeps : host.Keeps find) (present : host.gone = false)
    (held : t ∈ host.unadded) (succeeds : env.Succeeds) (roomy : host.mgr.table.Roomy) :
    ∃ after later, host.perform library (.add env t) = .ok after ∧
      Proceeds library host (.add env t) after find later := by
  obtain ⟨live, _, _, _, missing⟩ := (keeps.good t).handed (decide_eq_true held)
  obtain ⟨cell, found⟩ := Option.isSome_iff_exists.mp live
  have new : ∀ id, find id ≠ some t := fun id => of_decide_eq_false (missing id)
  have holds := keeps.holds present
  obtain ⟨table, added, registers⟩ := tubeManagerAdd_succeeds holds found succeeds roomy
  let after : Host := { host with
    mgr := ((host.mgr.withTable table).evict env (find cell.id)).noted [.triggered (.add t)]
    unadded := host.unadded.filter fun other => other ≠ t }
  have returned : host.perform library (.add env t) = .ok after := by
    rw [perform, added]
    rfl
  have fresh : after.mgr.tubes.fresh = host.mgr.tubes.fresh := evict_fresh ..
  have gone : t ∉ after.unadded := by simp [after]
  have turn : (host.glimpse find t).Turn { after.glimpse find t with
      cell := some cell
      found := fun id => decide (id = cell.id)
      story := deeds t host.mgr.trace ++ deeds t [.triggered (.add t)] } := by
    refine ((keeps.good t).added (decide_eq_true held) found).of_eq ?_
    refine Glimpse.ext found.symm ?_ rfl rfl (decide_eq_false gone) rfl rfl ?_
    · exact decide_eq_decide.mpr (by rw [fresh])
    · exact congrArg (_ ++ ·) (deeds_own (.add t))
  have advances : host.Advances after find (Function.update find cell.id (some t)) := by
    refine keeps.join present holds found new (fun _ _ => rfl) (fun _ _ => Iff.rfl) rfl registers
      rfl (fun other => @deeds_of_ne other (.add t)) ?_ turn
    intro other different
    refine ⟨Iff.rfl, ?_, Iff.rfl, Iff.rfl⟩
    simp [after, different]
  exact ⟨after, _, returned, advances.entering rfl rfl fun _ => by simp⟩

theorem Keeps.openTube_failed (keeps : host.Keeps find) (present : host.gone = false) :
    Proceeds library host request
      { host with
        mgr := (host.mgr.created Tube.created).evict env (some host.mgr.tubes.fresh)
        opened := host.opened ++ [] } find find := by
  obtain ⟨good, unborn⟩ := keeps.unborn
  have holds := keeps.holds present
  let fresh := host.mgr.tubes.fresh
  let base := host.mgr.created Tube.created
  have live : ∀ t, some fresh = some t → ∃ cell, base.tubes.cells t = some cell := by
    intro t same
    cases same
    exact ⟨_, created_cells host.mgr _⟩
  let after : Host := { host with
    mgr := base.evict env (some fresh)
    opened := host.opened ++ [] }
  have grown : after.mgr.tubes.fresh = fresh + 1 := evict_fresh ..
  have story : ∀ other, deeds other after.mgr.trace =
      deeds other host.mgr.trace ++ if some fresh = some other then [.destroyed] else [] :=
    deeds_evict live
  have opened : after.opened = host.opened := List.append_nil _
  have turn : (host.glimpse find fresh).Turn (after.glimpse find fresh) := by
    have absent := (good.unborn unborn).1
    refine (good.failed unborn).of_eq (Glimpse.ext ?_ ?_ rfl rfl rfl ?_ rfl ?_)
    · exact (evict_cells_self ..).trans absent.symm
    · exact decide_eq_true (grown ▸ Nat.lt_succ_self _)
    · exact decide_eq_decide.mpr (by rw [opened])
    · exact (story fresh).trans (by rw [if_pos rfl]; rfl)
  have kept : after.mgr.Holds find := by
    refine (holds.created Tube.created).keep (evict_table ..) ?_
    intro id other old stored foundOld
    refine ⟨old, (evict_cells_of_ne ?_).trans foundOld, rfl⟩
    intro same
    exact holds.unused id (stored.trans same.symm)
  have advances : host.Advances after find find := by
    refine keeps.of_touched kept present turn ?_
    intro other different
    have apart : some fresh ≠ some other := fun same => different (Option.some.inj same).symm
    refine .inl ⟨⟨Iff.rfl, Iff.rfl, by rw [opened], Iff.rfl⟩, ?_, ?_, fun _ => Iff.rfl, ?_⟩
    · exact (evict_cells_of_ne apart).trans (Memory.alloc_cells_of_ne _ _ different)
    · rw [grown]
      exact lt_created _ Tube.created different
    · rw [story, if_neg apart, List.append_nil]
  obtain ⟨effects, trace, silent⟩ := evict_trace base env (some fresh)
  exact advances.quietly trace fun d => silent _

theorem Keeps.openTube_opened (keeps : host.Keeps find) (present : host.gone = false) {cell : Tube}
    {table : HTable TubeKey Nat} (state : cell.state = .opening)
    (registers : Registers table (Function.update find cell.id (some host.mgr.tubes.fresh)))
    (datagram : Datagram) :
    Proceeds library host request
      { host with
        mgr := (((host.mgr.created cell).withTable table).evict env (find cell.id)).noted
          [.triggered (.add host.mgr.tubes.fresh), .sent datagram true]
        opened := host.opened ++ [host.mgr.tubes.fresh] } find
      (Function.update find cell.id (some host.mgr.tubes.fresh)) := by
  obtain ⟨good, unborn⟩ := keeps.unborn
  have holds := keeps.holds present
  let fresh := host.mgr.tubes.fresh
  let effects : List Effect := [.triggered (.add fresh), .sent datagram true]
  let after : Host := { host with
    mgr := (((host.mgr.created cell).withTable table).evict env (find cell.id)).noted effects
    opened := host.opened ++ [fresh] }
  have grown : after.mgr.tubes.fresh = fresh + 1 := evict_fresh ..
  have said : ∀ other, deeds other effects = deeds other [.triggered (.add fresh)] := by
    intro other
    rw [show effects = [.triggered (.add fresh)] ++ [.sent datagram true] from rfl, deeds_append]
    exact List.append_nil _
  have turn : (host.glimpse find fresh).Turn { after.glimpse find fresh with
      cell := some cell
      found := fun id => decide (id = cell.id)
      story := deeds fresh host.mgr.trace ++ deeds fresh effects } := by
    have entered := @Glimpse.Good.entered _ cell good unborn true state
    refine entered.of_eq (Glimpse.ext rfl ?_ rfl rfl rfl ?_ rfl ?_)
    · exact decide_eq_true (grown ▸ Nat.lt_succ_self _)
    · exact decide_eq_true (List.mem_append_right _ List.mem_cons_self)
    · exact congrArg (_ ++ ·) ((said fresh).trans (deeds_own (.add fresh)))
  have advances : host.Advances after find (Function.update find cell.id (some fresh)) := by
    refine keeps.join present (holds.created cell) (created_cells host.mgr cell) holds.unused
      (fun other different => Memory.alloc_cells_of_ne _ _ different)
      (fun other different => lt_created _ _ different) rfl registers rfl ?_ ?_ turn
    · intro other different
      rw [said]
      exact @deeds_of_ne other (.add fresh) different
    · intro other different
      refine ⟨Iff.rfl, Iff.rfl, ?_, Iff.rfl⟩
      simp [after, different]
  have quiet : ∀ d, .triggered (.running d) ∉ effects := by simp [effects]
  exact @Advances.entering _ _ after _ _ env request advances (host.mgr.created cell) table
    (find cell.id) effects rfl rfl quiet

theorem openTube_proceeds (keeps : host.Keeps find) (present : host.gone = false)
    (succeeds : env.Succeeds) (roomy : host.mgr.table.Roomy) (dest : SockAddr) :
    ∃ after later, host.perform library (.openTube env dest) = .ok after ∧
      Proceeds library host (.openTube env dest) after find later := by
  rcases tubeManagerOpenTube_succeeds (keeps.holds present) succeeds roomy dest with
    failed | ⟨cell, table, state, _, opened, registers⟩
  · have returned : host.perform library (.openTube env dest) = .ok { host with
        mgr := (host.mgr.created Tube.created).evict env (some host.mgr.tubes.fresh)
        opened := host.opened ++ [] } := by
      rw [perform, failed]
      rfl
    exact ⟨_, find, returned, keeps.openTube_failed present⟩
  · have returned : host.perform library (.openTube env dest) = .ok { host with
        mgr := (((host.mgr.created cell).withTable table).evict env (find cell.id)).noted
          [.triggered (.add host.mgr.tubes.fresh),
            .sent (cell.datagram .spudOpen false false []) true]
        opened := host.opened ++ [host.mgr.tubes.fresh] } := by
      rw [perform, opened]
      rfl
    exact ⟨_, _, returned, keeps.openTube_opened present state registers _⟩

theorem Keeps.inTable (keeps : host.Keeps find) (present : host.gone = false)
    (inTable : host.mgr.InTable t) :
    ∃ cell, host.mgr.tubes.cells t = some cell ∧ find cell.id = some t := by
  obtain ⟨id, stored⟩ := inTable
  rw [(keeps.holds present).lookup, Except.ok.injEq] at stored
  obtain ⟨cell, found, rfl⟩ := (keeps.holds present).live id t stored
  exact ⟨cell, found, stored⟩

theorem close_proceeds (keeps : host.Keeps find) (present : host.gone = false)
    (inTable : host.mgr.InTable t) :
    ∃ after later, host.perform library (.close env t) = .ok after ∧
      Proceeds library host (.close env t) after find later := by
  obtain ⟨cell, found, stored⟩ := keeps.inTable present inTable
  let closed : Tube := { cell with state := .unknown }
  let effects := env.effects (cell.datagram .spudClose false false [])
  let after : Host := { host with
    mgr := (host.mgr.setTube t closed).noted effects
    closed := host.closed ++ [t] }
  have returned : host.perform library (.close env t) = .ok after := by
    rw [perform, Proc.straight_of_done (tubeClose_ok found)]
    rfl
  have silent : ∀ other, deeds other effects = [] := fun other => deeds_effects ..
  have changes : after.mgr.tubes.cells t = some closed := Memory.set_cells_self _ found
  have advances : host.Advances after find find := by
    have same : closed.id = cell.id := rfl
    refine keeps.use present stored found same rfl (keeps.holds present) changes
      (fun other different => Memory.set_cells_of_ne _ _ different) rfl rfl
      (fun other _ => silent other) ?_ (fun _ => rfl) rfl rfl rfl ?_
    · rw [silent]
      exact .closed _ cell.state
    · intro other different
      simp [after, different]
  exact ⟨after, find, returned, advances.quietly rfl fun d => effects_quiet _ _ _⟩

theorem data_proceeds (keeps : host.Keeps find) (present : host.gone = false)
    (inTable : host.mgr.InTable t) (bytes : List UInt8) :
    ∃ after later, host.perform library (.data env t bytes) = .ok after ∧
      Proceeds library host (.data env t bytes) after find later := by
  obtain ⟨cell, found, stored⟩ := keeps.inTable present inTable
  obtain ⟨answer, effects, sent, few⟩ := @tubeData_ok _ env t _ library found bytes
  have returned : host.perform library (.data env t bytes) =
      .ok { host with mgr := host.mgr.noted effects } := by
    rw [perform, Proc.straight_of_done sent]
    rfl
  have said : ∀ other, deeds other effects = [] := by
    intro other
    rcases few with rfl | ⟨datagram, rfl⟩
    · rfl
    · exact deeds_effects ..
  have advances : host.Advances { host with mgr := host.mgr.noted effects } find find := by
    refine keeps.idle present ((keeps.holds present).noted effects) ?_
    intro other
    refine ⟨⟨Iff.rfl, Iff.rfl, Iff.rfl, Iff.rfl⟩, rfl, Iff.rfl, fun _ => Iff.rfl, ?_⟩
    rw [deeds_noted, said, List.append_nil]
  refine ⟨_, find, returned, advances.quietly rfl ?_⟩
  intro d
  rcases few with rfl | ⟨datagram, rfl⟩
  · exact List.not_mem_nil
  · exact effects_quiet _ _ _

theorem remove_proceeds (keeps : host.Keeps find) (present : host.gone = false)
    (inTable : host.mgr.InTable t) (succeeds : env.Succeeds) :
    ∃ after later, host.perform library (.remove env t) = .ok after ∧
      Proceeds library host (.remove env t) after find later := by
  obtain ⟨cell, found, stored⟩ := keeps.inTable present inTable
  have holds := keeps.holds present
  obtain ⟨table, removed, registers⟩ := @tubeManagerRemove_straight _ env _ _ _ holds found
  have holdsAfter := @Holds.drop _ env _ (holds.noted (env.triggers (.remove t))) _ _ registers
  rw [stored] at removed holdsAfter
  let middle := (host.mgr.noted (env.triggers (.remove t))).withTable table
  let after : Host := { host with mgr := middle.evict env (some t) }
  have returned : host.perform library (.remove env t) = .ok after := by
    rw [perform, removed]
    rfl
  let effects : List Effect := .triggered (.remove t) :: (env.closing cell ++ [.destroyed t])
  have trace : after.mgr.trace = host.mgr.trace ++ effects := by
    have evicted : after.mgr.trace = middle.trace ++ (env.closing cell ++ [.destroyed t]) := by
      rw [show after.mgr = _ from evict_some (show middle.tubes.cells t = some cell from found)]
    rw [evicted, show middle.trace = host.mgr.trace ++ [.triggered (.remove t)] from
      congrArg (_ ++ ·) (succeeds.triggers _), List.append_assoc]
    rfl
  have said : ∀ other, deeds other effects =
      deeds other [.triggered (.remove t)] ++ deeds other [.destroyed t] := by
    intro other
    rw [show effects = [.triggered (.remove t)] ++ (env.closing cell ++ [.destroyed t]) from rfl,
      deeds_append, deeds_append, deeds_closing, List.nil_append]
  have advances : host.Advances after find (Function.update find cell.id none) := by
    refine keeps.leave present stored found holdsAfter (evict_cells_self ..) ?_
      (evict_fresh ..) trace ?_ ?_ fun other => ⟨Iff.rfl, Iff.rfl, Iff.rfl, Iff.rfl⟩
    · intro other different
      exact evict_cells_of_ne fun same => different (Option.some.inj same).symm
    · intro other different
      rw [said, @deeds_of_ne other (.remove t) different, deeds_destroyed, if_neg different.symm]
      rfl
    · rw [said, show deeds t [.triggered (.remove t)] = _ from deeds_own (.remove t),
        deeds_destroyed, if_pos rfl]
      exact .removed _ _
  refine ⟨after, _, returned, advances.quietly trace ?_⟩
  intro d member
  rcases List.mem_cons.mp member with same | member
  · cases same
  · exact leaving_quiet _ _ _ _ member

theorem setPolicy_proceeds (keeps : host.Keeps find) (present : host.gone = false)
    (willRespond : Bool) :
    ∃ after later, host.perform library (.setPolicy willRespond) = .ok after ∧
      Proceeds library host (.setPolicy willRespond) after find later := by
  have holds := keeps.holds present
  let after : Host := { host with
    mgr := { host.mgr with
      policy := if willRespond then host.mgr.policy ||| tpWillRespond
        else host.mgr.policy &&& ~~~tpWillRespond } }
  have advances : host.Advances after find find :=
    keeps.idle present ⟨holds.registers, holds.live⟩ fun other =>
      ⟨⟨Iff.rfl, Iff.rfl, Iff.rfl, Iff.rfl⟩, rfl, Iff.rfl, fun _ => Iff.rfl, rfl⟩
  exact ⟨after, find, rfl, advances.quietly (List.append_nil _).symm fun _ => nofun⟩

end Requests

end Host

end SpudLib
