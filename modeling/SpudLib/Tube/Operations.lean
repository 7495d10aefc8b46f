import SpudLib.Tube.Registry

/-!
# What the functions on tubes do

For each function the outcome in every manager whose table finds live tubes
under their own identifiers: what it returns, what it changes, and where it
calls back.
-/

namespace SpudLib

def Tube.datagram (cell : Tube) (cmd : SpudCommand) (adec pdec : Bool)
    (data : List (List UInt8)) : Datagram where
  sock := cell.sock
  source := cell.pktinfo
  dest := cell.peer
  bytes := ((sentHeader cell.id cmd adec pdec).bytes ::
    data.filter fun part => 0 < part.length).flatten

namespace Environment

def effects (env : Environment) (datagram : Datagram) : List Effect :=
  if env.granted .iovec then [.sent datagram (env.sendmsg datagram)] else []

def answer (env : Environment) (datagram : Datagram) : Bool :=
  env.granted .iovec && env.sendmsg datagram

/-- What `clean_tube` sends for a tube before it is destroyed. -/
def closing (env : Environment) (cell : Tube) : List Effect :=
  if cell.state = .running then env.effects (cell.datagram .spudClose false false []) else []

end Environment

namespace TubeManager

def noted (mgr : TubeManager) (effects : List Effect) : TubeManager :=
  { mgr with trace := mgr.trace ++ effects }

def setTube (mgr : TubeManager) (t : Nat) (cell : Tube) : TubeManager :=
  { mgr with tubes := mgr.tubes.set t cell }

def withTable (mgr : TubeManager) (table : HTable TubeKey Nat) : TubeManager :=
  { mgr with table := table }

/-- What `clean_tube` does to a tube that leaves the table. -/
def evict (mgr : TubeManager) (env : Environment) (old : Option Nat) : TubeManager :=
  match old with
  | none => mgr
  | some t =>
      match mgr.tubes.cells t with
      | none => mgr
      | some cell =>
          { mgr with
            tubes := mgr.tubes.erase t
            trace := mgr.trace ++ (env.closing cell ++ [.destroyed t]) }

/-- The table registers the map, and each tube it finds is live and has its identifier. -/
structure Holds (mgr : TubeManager) (find : SpudTubeId → Option Nat) : Prop where
  registers : Registers mgr.table find
  live : ∀ id t, find id = some t → ∃ cell, mgr.tubes.cells t = some cell ∧ cell.id = id

section Effects

variable {mgr : TubeManager} {env : Environment} {find : SpudTubeId → Option Nat} {t : Nat}
  {cell : Tube}

@[simp] theorem noted_nil (mgr : TubeManager) : mgr.noted [] = mgr := by
  rw [noted, List.append_nil]

theorem noted_noted (mgr : TubeManager) (first second : List Effect) :
    (mgr.noted first).noted second = mgr.noted (first ++ second) := by
  rw [noted, noted, noted, List.append_assoc]

theorem evict_some (found : mgr.tubes.cells t = some cell) :
    mgr.evict env (some t) =
      { mgr with
        tubes := mgr.tubes.erase t
        trace := mgr.trace ++ (env.closing cell ++ [.destroyed t]) } := by
  rw [evict, found]

@[simp] theorem evict_none (mgr : TubeManager) (env : Environment) : mgr.evict env none = mgr := rfl

@[simp] theorem evict_table (mgr : TubeManager) (env : Environment) (old : Option Nat) :
    (mgr.evict env old).table = mgr.table := by
  unfold evict
  split
  · rfl
  · split <;> rfl

theorem evict_cells_of_ne {old : Option Nat} (different : old ≠ some t) :
    (mgr.evict env old).tubes.cells t = mgr.tubes.cells t := by
  unfold evict
  split
  next => rfl
  next other =>
    split
    next => rfl
    next =>
      refine Memory.erase_cells_of_ne _ ?_
      rintro rfl
      exact different rfl

@[simp] theorem evict_fresh (mgr : TubeManager) (env : Environment) (old : Option Nat) :
    (mgr.evict env old).tubes.fresh = mgr.tubes.fresh := by
  unfold evict
  split
  · rfl
  · split <;> rfl

theorem Holds.injective (holds : mgr.Holds find) {first second : SpudTubeId}
    (one : find first = some t) (two : find second = some t) : first = second := by
  obtain ⟨cell, found, own⟩ := holds.live first t one
  obtain ⟨again, foundAgain, ownAgain⟩ := holds.live second t two
  rw [found] at foundAgain
  cases foundAgain
  exact own.symm.trans ownAgain

theorem Holds.keep (holds : mgr.Holds find) {after : TubeManager} (table : after.table = mgr.table)
    (kept : ∀ id t cell, find id = some t → mgr.tubes.cells t = some cell →
      ∃ later, after.tubes.cells t = some later ∧ later.id = cell.id) : after.Holds find := by
  refine ⟨table ▸ holds.registers, ?_⟩
  intro id t stored
  obtain ⟨cell, found, own⟩ := holds.live id t stored
  obtain ⟨later, foundLater, same⟩ := kept id t cell stored found
  exact ⟨later, foundLater, same.trans own⟩

theorem Holds.noted (holds : mgr.Holds find) (effects : List Effect) :
    (mgr.noted effects).Holds find :=
  ⟨holds.registers, holds.live⟩

theorem Holds.setTube (holds : mgr.Holds find) (found : mgr.tubes.cells t = some cell)
    {changed : Tube} (same : changed.id = cell.id ∨ ∀ id, find id ≠ some t) :
    (mgr.setTube t changed).Holds find := by
  refine holds.keep rfl ?_
  intro id other old stored foundOld
  by_cases here : other = t
  · subst here
    rw [found] at foundOld
    cases foundOld
    refine ⟨changed, Memory.set_cells_self _ found, ?_⟩
    rcases same with same | missing
    · exact same
    · exact absurd stored (missing id)
  · exact ⟨old, (Memory.set_cells_of_ne _ _ here).trans foundOld, rfl⟩

/-- The tube found under an identifier makes room for another, which is live. -/
theorem Holds.replace (holds : mgr.Holds find) {table : HTable TubeKey Nat}
    (found : mgr.tubes.cells t = some cell) (new : ∀ id, find id ≠ some t)
    (registers : Registers table (Function.update find cell.id (some t))) :
    ((mgr.withTable table).evict env (find cell.id)).Holds
      (Function.update find cell.id (some t)) := by
  refine ⟨by rw [evict_table]; exact registers, ?_⟩
  intro id other stored
  by_cases here : id = cell.id
  · subst here
    rw [Function.update_self] at stored
    cases stored
    exact ⟨cell, (evict_cells_of_ne (new _)).trans found, rfl⟩
  · rw [Function.update_of_ne here] at stored
    obtain ⟨old, foundOld, own⟩ := holds.live id other stored
    refine ⟨old, (evict_cells_of_ne ?_).trans foundOld, own⟩
    intro same
    exact here (holds.injective stored same)

/-- The tube found under an identifier leaves the table. -/
theorem Holds.drop (holds : mgr.Holds find) {table : HTable TubeKey Nat} {id : SpudTubeId}
    (registers : Registers table (Function.update find id none)) :
    ((mgr.withTable table).evict env (find id)).Holds (Function.update find id none) := by
  refine ⟨by rw [evict_table]; exact registers, ?_⟩
  intro other tube stored
  by_cases here : other = id
  · rw [here, Function.update_self] at stored
    cases stored
  · rw [Function.update_of_ne here] at stored
    obtain ⟨old, foundOld, own⟩ := holds.live other tube stored
    refine ⟨old, (evict_cells_of_ne ?_).trans foundOld, own⟩
    intro same
    exact here (holds.injective stored same)

end Effects

end TubeManager

open TubeManager

section Functions

variable {mgr : TubeManager} {env : Environment} {find : SpudTubeId → Option Nat} {t : Nat}
  {cell : Tube}

theorem readTube_ok (found : mgr.tubes.cells t = some cell) :
    (readTube t).run mgr = .done cell mgr := by
  refine Proc.run_lift_of_ok ?_
  rw [Memory.read_of_some found]
  rfl

theorem modifyTube_ok (found : mgr.tubes.cells t = some cell) (change : Tube → Tube) :
    (modifyTube t change).run mgr = .done () (mgr.setTube t (change cell)) := by
  refine Proc.run_lift_of_ok ?_
  rw [Memory.modify_of_some found]
  rfl

theorem tubeSetState_ok (found : mgr.tubes.cells t = some cell) (state : TubeState) :
    (tubeSetState t state).run mgr = .done () (mgr.setTube t { cell with state := state }) :=
  modifyTube_ok found _

theorem tubeDestroy_ok (found : mgr.tubes.cells t = some cell) :
    (tubeDestroy t).run mgr = .done ()
      { mgr with tubes := mgr.tubes.erase t, trace := mgr.trace ++ [.destroyed t] } := by
  have freed := Memory.free_of_some found
  rw [tubeDestroy, Proc.run_bind_of_done (Proc.run_lift_of_ok (by rw [freed]; rfl))]
  rfl

theorem tubeSend_ok (found : mgr.tubes.cells t = some cell) (cmd : SpudCommand) (adec pdec : Bool)
    (data : List (List UInt8)) :
    (tubeSend env t cmd adec pdec data).run mgr =
      .done (env.answer (cell.datagram cmd adec pdec data))
        (mgr.noted (env.effects (cell.datagram cmd adec pdec data))) := by
  unfold tubeSend Environment.answer Environment.effects
  by_cases granted : env.granted .iovec = true
  · rw [if_pos granted, if_pos granted, granted, Proc.run_bind_of_done (readTube_ok found)]
    rfl
  · rw [if_neg granted, if_neg granted, noted_nil, Bool.eq_false_iff.mpr granted]
    rfl

/-- `tube_data` sends at most one datagram, for the tube. -/
theorem tubeData_ok {library : CborLibrary} (found : mgr.tubes.cells t = some cell)
    (bytes : List UInt8) :
    ∃ answer effects, (tubeData env library t bytes).run mgr = .done answer (mgr.noted effects) ∧
      (effects = [] ∨ ∃ data, effects =
        env.effects (cell.datagram .spudData false false data)) := by
  have nothing : (pure false : Tubing Bool).run mgr = .done false (mgr.noted []) := by
    rw [noted_nil]
    rfl
  unfold tubeData
  split_ifs
  · exact ⟨_, _, tubeSend_ok found _ _ _ _, .inr ⟨_, rfl⟩⟩
  · unfold tubeSendCbor
    cases library.encoderWrite maxBufLen
      (library.mapputInt library.mapCreate 0 (library.dataCreate bytes)) with
    | none => exact ⟨false, [], nothing, .inl rfl⟩
    | some buf => exact ⟨_, _, tubeSend_ok found _ _ _ _, .inr ⟨_, rfl⟩⟩
  · exact ⟨false, [], nothing, .inl rfl⟩

theorem tubeClose_ok (found : mgr.tubes.cells t = some cell) :
    (tubeClose env t).run mgr =
      .done (env.answer (cell.datagram .spudClose false false []))
        ((mgr.setTube t { cell with state := .unknown }).noted
          (env.effects (cell.datagram .spudClose false false []))) := by
  have closed : (mgr.setTube t { cell with state := .unknown }).tubes.cells t =
      some { cell with state := .unknown } := Memory.set_cells_self _ found
  rw [tubeClose, Proc.run_bind_of_done (tubeSetState_ok found _)]
  exact tubeSend_ok closed _ _ _ _

theorem cleanTube_ok (found : mgr.tubes.cells t = some cell) :
    (cleanTube env (some t)).run mgr = .done () (mgr.evict env (some t)) := by
  rw [evict_some found, cleanTube, Proc.run_bind_of_done (readTube_ok found), Environment.closing]
  by_cases running : cell.state = .running
  · rw [if_pos running, if_pos running, Proc.run_bind_of_done (tubeClose_ok found)]
    refine (tubeDestroy_ok (Memory.set_cells_self _ found)).trans ?_
    simp [TubeManager.noted, TubeManager.setTube, Memory.erase_set, List.append_assoc]
  · rw [if_neg running, if_neg running]
    exact tubeDestroy_ok found

theorem runCleaners_one {call : CleanerCall TubeKey Nat} (value : call.value = some t)
    (found : mgr.tubes.cells t = some cell) :
    (runCleaners env [call]).run mgr = .done () (mgr.evict env (some t)) := by
  rw [runCleaners, value, Proc.run_bind_of_done (cleanTube_ok found)]
  rfl

theorem derefKeys_ok (holds : mgr.Holds find) {nodes : List (HNode TubeKey Nat)}
    (inside : ∀ p ∈ nodes, p ∈ mgr.table.nodes) : derefKeys mgr.tubes nodes = .ok () := by
  induction nodes with
  | nil => rfl
  | cons p rest inductionHypothesis =>
    obtain ⟨t, stored, belongs⟩ := holds.registers.node (inside p List.mem_cons_self)
    obtain ⟨cell, found, _⟩ := holds.live _ t stored
    have owned : p.key.owner = some t := congrArg TubeKey.owner belongs.1
    rw [derefKeys, owned]
    simp only [Memory.read_of_some found, Exec.ok_bind]
    exact inductionHypothesis fun q member => inside q (List.mem_cons_of_mem _ member)

theorem readKeys_ok (holds : mgr.Holds find) (key : TubeKey) :
    (readKeys key).run mgr = .done () mgr := by
  let bucket := mgr.table.bucketFromKhash (mgr.table.hash key)
  have compared : ∀ p ∈ comparedNodes mgr.table key (mgr.table.buckets bucket),
      p ∈ mgr.table.nodes := by
    intro p member
    exact HTable.mem_nodes.mpr ⟨bucket, Registers.comparedNodes_subset key _ p member⟩
  refine Proc.run_lift_of_ok ?_
  simp only [derefKeys_ok holds compared, Exec.ok_bind, Exec.pure_eq_ok, bucket]

theorem lsEventTrigger_granted {notice : Notice}
    (granted : env.granted (.moment notice.event) = true) :
    (lsEventTrigger env notice).run mgr =
      .calling notice (mgr.noted [.triggered notice]) fun after => .done true after := by
  rw [lsEventTrigger, if_pos granted]
  rfl

theorem lsEventTrigger_refused {notice : Notice}
    (refused : env.granted (.moment notice.event) = false) :
    (lsEventTrigger env notice).run mgr = .done false mgr := by
  rw [lsEventTrigger, refused]
  rfl

/-- `tube_manager_add` puts the tube in the table, destroying the one it
displaces, and triggers the event; or finds no memory. -/
theorem tubeManagerAdd_ok (holds : mgr.Holds find) (found : mgr.tubes.cells t = some cell)
    (refused : ∀ size, 2 ^ 30 ≤ size → env.calloc size = false) :
    ∃ answer table, (tubeManagerAdd env t).run mgr =
        (if answer then lsEventTrigger env (.add t) else pure false : Tubing Bool).run
          ((mgr.withTable table).evict env (find cell.id)) ∧
      Registers table (if answer then Function.update find cell.id (some t) else find) ∧
      (answer = false → find cell.id = none) ∧
      (mgr.table.Accepts env.calloc (env.granted .node) → answer = true) ∧
      (find cell.id = none → answer = true →
        mgr.table.Accepts env.calloc (env.granted .node)) := by
  have started : (tubeManagerAdd env t).run mgr = (do
      let put ← Proc.lift fun mgr => do
        let put ← mgr.table.lsHtablePut ⟨some t, cell.id⟩ (some t)
          (some cleanTubeAddress) env.calloc (env.granted .node)
        pure ((put.1, put.2.1), mgr.withTable put.2.2)
      runCleaners env put.2
      if put.1 then lsEventTrigger env (.add t) else pure false : Tubing Bool).run mgr := by
    rw [tubeManagerAdd, Proc.run_bind_of_done (readTube_ok found)]
    exact Proc.run_bind_of_done (readKeys_ok holds _)
  cases taken : find cell.id with
  | none =>
    obtain ⟨answer, table, returned, registers, accepted⟩ :=
      holds.registers.put_absent taken t refused (env.granted .node)
    refine ⟨answer, table, ?_, registers, fun _ => rfl, accepted.mpr, fun _ => accepted.mp⟩
    rw [started, Proc.run_bind_of_done (Proc.run_lift_of_ok (by rw [returned]; rfl))]
    rfl
  | some old =>
    obtain ⟨call, table, returned, value, registers⟩ :=
      holds.registers.put_found taken t env.calloc (env.granted .node)
    obtain ⟨oldCell, foundOld, _⟩ := holds.live _ _ taken
    refine ⟨true, table, ?_, registers, by simp, fun _ => rfl, by simp⟩
    rw [started, Proc.run_bind_of_done (Proc.run_lift_of_ok (by rw [returned]; rfl))]
    have live : (mgr.withTable table).tubes.cells old = some oldCell := foundOld
    exact Proc.run_bind_of_done (runCleaners_one value live)

/-- The tube found under the identifier of the tube is destroyed, if there is one. -/
theorem unregister_ok (holds : mgr.Holds find) (found : mgr.tubes.cells t = some cell) :
    ∃ table, (unregister env t).run mgr =
        .done () ((mgr.withTable table).evict env (find cell.id)) ∧
      Registers table (Function.update find cell.id none) := by
  have started : (unregister env t).run mgr = (do
      let calls ← Proc.lift fun mgr => do
        let removed ← mgr.table.lsHtableRemove ⟨some t, cell.id⟩
        pure (removed.1, mgr.withTable removed.2)
      runCleaners env calls : Tubing Unit).run mgr := by
    rw [unregister, Proc.run_bind_of_done (readTube_ok found)]
    exact Proc.run_bind_of_done (readKeys_ok holds _)
  cases taken : find cell.id with
  | none =>
    refine ⟨mgr.table, ?_, ?_⟩
    · have returned := @Registers.remove_absent _ _ holds.registers ⟨some t, cell.id⟩ taken
      rw [started, Proc.run_bind_of_done (Proc.run_lift_of_ok (by rw [returned]; rfl))]
      rfl
    · rw [Function.update_eq_self_iff.mpr taken.symm]
      exact holds.registers
  | some old =>
    obtain ⟨call, table, returned, value, registers⟩ :=
      @Registers.remove_found _ _ holds.registers ⟨some t, cell.id⟩ old taken
    obtain ⟨oldCell, foundOld, _⟩ := holds.live _ _ taken
    refine ⟨table, ?_, registers⟩
    rw [started, Proc.run_bind_of_done (Proc.run_lift_of_ok (by rw [returned]; rfl))]
    have live : (mgr.withTable table).tubes.cells old = some oldCell := foundOld
    exact runCleaners_one value live

theorem tubeManagerCreate_ok {buckets : Int} {granted : Bool} {calloc : Nat → Bool}
    {clock : Timeval} (refused : ∀ size, 2 ^ 30 ≤ size → calloc size = false)
    (created : tubeManagerCreate buckets granted calloc clock = some mgr) :
    mgr.Holds (fun _ => none) ∧ mgr.tubes = Memory.empty ∧ mgr.trace = [] := by
  unfold tubeManagerCreate at created
  simp only [] at created
  split at created
  next => cases created
  next table returned =>
    cases created
    exact ⟨⟨Registers.created refused returned, nofun⟩, rfl, rfl⟩

end Functions

end SpudLib
