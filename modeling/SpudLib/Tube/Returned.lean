import SpudLib.Tube.Reaction

/-!
# Calls that have returned

A tube that `tube_manager_open_tube` destroys may stay in the table, and then a
later call may use it and fault.  What the functions of the manager have done is
known all the same once they have returned.
-/

namespace SpudLib

open TubeManager

section Sequences

variable {Alpha Beta : Type} {procedure : Tubing Alpha} {next : Alpha → Tubing Beta}
  {mgr after : TubeManager} {result : Beta}

theorem returned_bind (returned : (procedure >>= next).straight mgr = .ok (result, after)) :
    ∃ value middle, procedure.straight mgr = .ok (value, middle) ∧
      (next value).straight middle = .ok (result, after) := by
  rw [Proc.straight_bind] at returned
  obtain ⟨⟨value, middle⟩, first, second⟩ := Exec.bind_eq_ok.mp returned
  exact ⟨value, middle, first, second⟩

theorem straight_lift (computation : TubeManager → Exec (Alpha × TubeManager)) :
    (Proc.lift computation : Tubing Alpha).straight mgr = computation mgr := by
  unfold Proc.straight Proc.lift
  cases returned : computation mgr with
  | error fault => simp only [returned, Outcome.straight]
  | ok result => simp only [returned, Outcome.straight]

theorem returned_readTube {t : Nat} {cell : Tube}
    (returned : (readTube t).straight mgr = .ok (cell, after)) :
    mgr.tubes.cells t = some cell ∧ after = mgr := by
  rw [readTube, straight_lift] at returned
  obtain ⟨read, found, same⟩ := Exec.bind_eq_ok.mp returned
  cases same
  exact ⟨Memory.read_eq_ok_iff.mp found, rfl⟩

theorem returned_modifyTube {t : Nat} {change : Tube → Tube} {value : Unit}
    (returned : (modifyTube t change).straight mgr = .ok (value, after)) :
    ∃ cell, mgr.tubes.cells t = some cell := by
  rw [modifyTube, straight_lift] at returned
  obtain ⟨tubes, changed, _⟩ := Exec.bind_eq_ok.mp returned
  unfold Memory.modify at changed
  split at changed
  next cell found => exact ⟨cell, found⟩
  next => cases changed

theorem returned_tubeDestroy {t : Nat} {value : Unit}
    (returned : (tubeDestroy t).straight mgr = .ok (value, after)) :
    ∃ cell, mgr.tubes.cells t = some cell := by
  obtain ⟨_, _, freed, _⟩ := returned_bind returned
  rw [straight_lift] at freed
  obtain ⟨tubes, freed, _⟩ := Exec.bind_eq_ok.mp freed
  unfold Memory.free at freed
  split at freed
  next cell found => exact ⟨cell, found⟩
  next => cases freed

theorem returned_readKeys {key : TubeKey} {value : Unit}
    (returned : (readKeys key).straight mgr = .ok (value, after)) : after = mgr := by
  rw [readKeys, straight_lift] at returned
  obtain ⟨_, _, same⟩ := Exec.bind_eq_ok.mp returned
  cases same
  rfl

theorem returned_pure {value : Alpha} {answer : Alpha}
    (returned : (pure value : Tubing Alpha).straight mgr = .ok (answer, after)) :
    answer = value ∧ after = mgr := by
  cases returned
  exact ⟨rfl, rfl⟩

end Sequences

section Calls

variable {mgr after : TubeManager} {env : Environment} {find : SpudTubeId → Option Nat} {t : Nat}
  {cell : Tube}

theorem returned_runCleaners {call : CleanerCall TubeKey Nat} {old : Nat} {value : Unit}
    (owned : call.value = some old)
    (returned : (runCleaners env [call]).straight mgr = .ok (value, after)) :
    ∃ cell, mgr.tubes.cells old = some cell ∧ after = mgr.evict env (some old) := by
  obtain ⟨_, _, cleaned, _⟩ := returned_bind returned
  rw [owned] at cleaned
  obtain ⟨cell, _, read, _⟩ := returned_bind cleaned
  obtain ⟨found, _⟩ := returned_readTube read
  refine ⟨cell, found, ?_⟩
  rw [Proc.straight_of_done (runCleaners_one owned found)] at returned
  cases returned
  rfl

theorem returned_tubeManagerAdd (registers : Registers mgr.table find)
    (refused : ∀ size, 2 ^ 30 ≤ size → env.calloc size = false)
    (found : mgr.tubes.cells t = some cell) {answer : Bool}
    (returned : (tubeManagerAdd env t).straight mgr = .ok (answer, after)) :
    ∃ placed table, answer = (placed && env.granted (.moment .add)) ∧
      after = ((mgr.withTable table).evict env (find cell.id)).noted
        (if placed then env.triggers (.add t) else []) ∧
      Registers table (if placed then Function.update find cell.id (some t) else find) ∧
      (placed = false → find cell.id = none) ∧
      (∀ old, find cell.id = some old → ∃ oldCell, mgr.tubes.cells old = some oldCell) ∧
      (env.granted .node = true → (∀ size, size < 2 ^ 30 → env.calloc size = true) →
        mgr.table.Roomy → placed = true) := by
  rw [tubeManagerAdd, straight_bind_of_done (readTube_ok found)] at returned
  obtain ⟨_, same, read, onward⟩ := returned_bind returned
  rw [returned_readKeys read] at onward
  obtain ⟨put, middle, lifted, onward⟩ := returned_bind onward
  rw [straight_lift] at lifted
  obtain ⟨_, cleaned, cleaners, finished⟩ := returned_bind onward
  cases taken : find cell.id with
  | none =>
    obtain ⟨placed, table, stored, registersAfter, accepted⟩ :=
      registers.put_absent taken t refused (env.granted .node)
    rw [stored] at lifted
    cases lifted
    obtain ⟨_, rfl⟩ := returned_pure cleaners
    refine ⟨placed, table, ?_, ?_, registersAfter, fun _ => rfl, by simp, ?_⟩
    · cases placed with
      | false => exact (returned_pure finished).1
      | true =>
        rw [if_pos rfl, lsEventTrigger_straight] at finished
        cases finished
        exact (Bool.true_and _).symm
    · cases placed with
      | false =>
        rw [if_neg Bool.false_ne_true, noted_nil]
        exact (returned_pure finished).2
      | true =>
        rw [if_pos rfl, lsEventTrigger_straight] at finished
        cases finished
        rfl
    · intro granted called roomy
      refine accepted.mpr ?_
      rw [granted]
      exact roomy.accepts called
  | some old =>
    obtain ⟨call, table, stored, value, registersAfter⟩ :=
      registers.put_found taken t env.calloc (env.granted .node)
    rw [stored] at lifted
    cases lifted
    obtain ⟨oldCell, foundOld, rfl⟩ := returned_runCleaners value cleaners
    rw [if_pos rfl, lsEventTrigger_straight] at finished
    cases finished
    refine ⟨true, table, (Bool.true_and _).symm, rfl, registersAfter, by simp, ?_,
      fun _ _ _ => rfl⟩
    intro other same
    cases same
    exact ⟨oldCell, foundOld⟩

theorem returned_tubeManagerRemove (registers : Registers mgr.table find)
    (found : mgr.tubes.cells t = some cell) (stored : find cell.id = some t) {value : Unit}
    (returned : (tubeManagerRemove env t).straight mgr = .ok (value, after)) :
    ∃ table, after = ((mgr.noted (env.triggers (.remove t))).withTable table).evict env (some t) ∧
      Registers table (Function.update find cell.id none) := by
  have live : (mgr.noted (env.triggers (.remove t))).tubes.cells t = some cell := found
  rw [tubeManagerRemove, straight_bind_of (lsEventTrigger_straight (.remove t)), unregister,
    straight_bind_of_done (readTube_ok live)] at returned
  obtain ⟨_, same, read, onward⟩ := returned_bind returned
  rw [returned_readKeys read] at onward
  obtain ⟨calls, middle, lifted, cleaners⟩ := returned_bind onward
  rw [straight_lift] at lifted
  obtain ⟨call, table, removed, owned, registersAfter⟩ :=
    @Registers.remove_found _ _ registers ⟨some t, cell.id⟩ t stored
  have same : (mgr.noted (env.triggers (.remove t))).table = mgr.table := rfl
  rw [same, removed] at lifted
  cases lifted
  obtain ⟨_, _, rfl⟩ := returned_runCleaners owned cleaners
  exact ⟨table, rfl, registersAfter⟩

end Calls

end SpudLib
