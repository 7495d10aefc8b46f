import SpudLib.Tube.Upkeep

/-!
# Every tube is destroyed once

In every run of a manager, from its creation on, the table holds live tubes
under their own identifiers, and no tube is destroyed twice.  When the manager
is destroyed, so is every tube that was opened, added or accepted.
-/

namespace SpudLib

open TubeManager

def TubeManager.destructions (mgr : TubeManager) (t : Nat) : Nat :=
  mgr.trace.countP fun effect => match effect with
    | .destroyed other => other = t
    | _ => false

/-- The table only holds live tubes, each under its own identifier, and every tube is
destroyed at most once, and by the end if it is not the application's. -/
structure Host.Owns (host : Host) : Prop where
  live : host.gone = false → ∀ p ∈ host.mgr.table.nodes, ∃ t cell, p.value = some t ∧
    host.mgr.tubes.cells t = some cell ∧ p.key = ⟨some t, cell.id⟩ ∧ host.mgr.destructions t = 0
  distinct : host.gone = false → (host.mgr.table.nodes.map fun p => p.key.id).Nodup
  once : ∀ t, host.mgr.destructions t ≤ 1
  released : host.gone = true → ∀ t, t < host.mgr.tubes.fresh → t ∉ host.unadded →
    host.mgr.destructions t = 1

theorem destructions_eq (mgr : TubeManager) (t : Nat) :
    mgr.destructions t = (deeds t mgr.trace).count .destroyed := by
  rw [TubeManager.destructions, deeds]
  induction mgr.trace with
  | nil => rfl
  | cons effect trace inductionHypothesis =>
    rw [List.countP_cons, inductionHypothesis]
    cases effect with
    | triggered notice =>
      by_cases here : notice.tube = t
      · simp [Effect.deed, here]
      · simp [Effect.deed, here]
    | sent datagram answer =>
      rw [List.filterMap_cons_none rfl]
      rfl
    | destroyed other =>
      by_cases here : other = t
      · simp [Effect.deed, here]
      · simp [Effect.deed, here]

namespace Host

section Runs

variable {library : CborLibrary} {host last : Host} {find : SpudTubeId → Option Nat}
  {requests : List Request}

theorem Keeps.destructions (keeps : host.Keeps find) (t : Nat) :
    host.mgr.destructions t = (host.glimpse find t).phase.deaths := by
  rw [destructions_eq]
  exact (keeps.good t).told.deaths

theorem Keeps.owns (keeps : host.Keeps find) : host.Owns := by
  refine ⟨?_, ?_, ?_, ?_⟩
  · intro present p member
    obtain ⟨t, stored, belongs⟩ := (keeps.holds present).registers.node member
    obtain ⟨cell, found, own, free⟩ := keeps.stored stored
    refine ⟨t, cell, belongs.2.1, found, ?_, ?_⟩
    · rw [own]
      exact belongs.1
    · rw [keeps.destructions,
        Glimpse.phase_managed (show (host.glimpse find t).cell = some cell from found)
          (decide_eq_false free)]
      rfl
  · intro present
    exact (keeps.holds present).registers.ids_nodup
  · intro t
    rw [keeps.destructions]
    cases (host.glimpse find t).phase with
    | destroyed origin => exact Nat.le_refl 1
    | absent => exact Nat.zero_le 1
    | detached state => exact Nat.zero_le 1
    | managed origin state => exact Nat.zero_le 1
  · intro gone t born free
    have none : (host.glimpse find t).cell = none := by
      by_contra live
      obtain ⟨id, found⟩ := (keeps.good t).owned (Option.isSome_iff_ne_none.mpr live)
        (decide_eq_false free)
      rw [show (host.glimpse find t).found id = decide (find id = some t) from rfl,
        keeps.emptied gone] at found
      cases found
    rw [keeps.destructions, Glimpse.phase_destroyed none (decide_eq_true born)]
    rfl

theorem Created.keeps (created : host.Created) : host.Keeps fun _ => none := by
  obtain ⟨noneCreated, noneUnadded, noneOpened, noneClosed, present, _, _, _, _, _, _, _, mgr,
    refused, returned, same⟩ := created
  obtain ⟨holds, tubes, trace⟩ := tubeManagerCreate_ok refused returned
  have empty : host.mgr.tubes = Memory.empty := by
    rw [same]
    exact tubes
  have cells : ∀ t, host.mgr.tubes.cells t = none := by
    intro t
    rw [empty]
    rfl
  have glimpsed : ∀ t, host.glimpse (fun _ => none) t =
      ⟨none, false, fun _ => false, false, false, false, false, []⟩ := by
    intro t
    refine Glimpse.ext (cells t) ?_ rfl ?_ ?_ ?_ ?_ ?_
    · refine decide_eq_false ?_
      rw [empty]
      exact Nat.not_lt_zero t
    · exact decide_eq_false (by rw [noneCreated]; exact List.not_mem_nil)
    · exact decide_eq_false (by rw [noneUnadded]; exact List.not_mem_nil)
    · exact decide_eq_false (by rw [noneOpened]; exact List.not_mem_nil)
    · exact decide_eq_false (by rw [noneClosed]; exact List.not_mem_nil)
    · change deeds t host.mgr.trace = []
      rw [same]
      exact congrArg (deeds t) trace
  refine ⟨fun _ => ?_, fun _ => rfl, ?_⟩
  · rw [same]
    exact ⟨holds.registers, holds.live⟩
  · intro t
    rw [glimpsed]
    exact ⟨⟨nofun, nofun, nofun, by simp, nofun⟩, rfl⟩

theorem Keeps.run (keeps : host.Keeps find) (run : (system library).Run host requests last) :
    ∃ later, last.Keeps later := by
  refine run.preserves (fun host => ∃ find, host.Keeps find) ?_ ⟨find, keeps⟩
  rintro host request next ⟨find, keeps⟩ enabled returned
  obtain ⟨after, later, performed, proceeds⟩ := keeps.step enabled
  rw [returned] at performed
  cases performed
  exact ⟨later, proceeds.keeps⟩

theorem Keeps.safe (keeps : host.Keeps find) : (system library).Safe host := by
  intro request enabled
  obtain ⟨after, _, performed, _⟩ := keeps.step enabled
  exact ⟨after, performed⟩

/-- Whatever an application and its peers do, the manager owns its tubes, and no call
uses a tube that is destroyed. -/
theorem run_owns (created : host.Created) (run : (system library).Run host requests last) :
    last.Owns ∧ (system library).Safe last := by
  obtain ⟨later, keeps⟩ := created.keeps.run run
  exact ⟨keeps.owns, keeps.safe⟩

end Runs

def idleHost : Host := ⟨newResponder, [], [], [], [], false⟩

theorem idleHost_created : idleHost.Created := by
  refine ⟨rfl, rfl, rfl, rfl, rfl, 3, true, fun size => decide (size < 2 ^ 30), ⟨0, 0⟩, 4, 6,
    tpWillRespond, _, ?_, rfl, rfl⟩
  exact fun _ huge => decide_eq_false (Nat.not_lt.mpr huge)

inductive Deed where
  | opens
  | hears (cmd : SpudCommand)
  | removes (t : Nat)
  | destroys

def Deed.request : Deed → Request
  | .opens => .openTube obliging (.inet 1402 0x7f000001)
  | .hears cmd => .receive obliging true (bareHeader ⟨fun _ => 7⟩ cmd)
  | .removes t => .remove obliging t
  | .destroys => .destroy obliging

def Deed.isReady (host : Host) : Deed → Bool
  | .removes t => (host.mgr.lookup ⟨fun _ => 7⟩).toOption == some (some t)
  | _ => true

def play (host : Host) : List Deed → Option Host
  | [] => some host
  | deed :: deeds =>
      if host.gone = false ∧ host.mgr.table.Roomy ∧ host.mgr.keepGoing = true ∧
          deed.isReady host = true then do
        let next ← (host.perform minimalCbor deed.request).toOption
        play next deeds
      else none

theorem run_of_play {host last : Host} {deeds : List Deed} (played : host.play deeds = some last) :
    (system minimalCbor).Run host (deeds.map Deed.request) last := by
  induction deeds generalizing host with
  | nil =>
    cases played
    exact .nil _
  | cons deed deeds inductionHypothesis =>
    unfold play at played
    split_ifs at played with able
    obtain ⟨present, roomy, going, ready⟩ := able
    obtain ⟨next, performed, played⟩ := Option.bind_eq_some_iff.mp played
    refine .cons ⟨present, ?_⟩ (Exec.eq_ok_of_toOption performed) (inductionHypothesis played)
    cases deed with
    | opens => exact ⟨obliging_succeeds, roomy⟩
    | hears cmd => exact ⟨obliging_succeeds, roomy, going, by cases cmd <;> decide, .inl rfl⟩
    | removes t =>
      exact ⟨obliging_succeeds, ⟨fun _ => 7⟩, Exec.eq_ok_of_toOption (eq_of_beq ready)⟩
    | destroys => exact obliging_succeeds

/-- Four tubes are opened under one identifier: the second displaces the first, a `CLOSE` ends the
second and a removal the third, and the last is there when the manager is destroyed. -/
theorem run_owns_destroyed : ∃ last : Host, last.mgr.tubes.fresh = 4 ∧
    ∀ t < 4, last.mgr.destructions t = 1 := by
  let deeds : List Deed :=
    [.opens, .opens, .hears .spudClose, .opens, .removes 2, .opens, .destroys]
  obtain ⟨last, played, seen⟩ := Option.map_eq_some_iff.mp
    (show (idleHost.play deeds).map (fun last => (last.gone, last.mgr.tubes.fresh, last.unadded)) =
      some (true, 4, []) by decide +kernel)
  obtain ⟨gone, fresh, unadded⟩ : last.gone = true ∧ last.mgr.tubes.fresh = 4 ∧
      last.unadded = [] := by simpa using seen
  obtain ⟨owns, _⟩ := run_owns idleHost_created (run_of_play played)
  refine ⟨last, fresh, ?_⟩
  intro t small
  exact owns.released gone t (by rw [fresh]; exact small) (by rw [unadded]; exact List.not_mem_nil)

end Host

end SpudLib
