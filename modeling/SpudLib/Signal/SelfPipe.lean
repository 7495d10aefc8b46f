import SpudLib.Foundation.System
import Mathlib.Data.Int.DivMod
import Mathlib.Data.List.Nodup
import Mathlib.Logic.Function.Basic

/-!
# Signals through the self-pipe

The handler of a signal writes one byte for each registration of the signal to
the pipe of the manager of the registration, and a manager that reads a byte
calls every callback registered for that number, of whatever manager.  Each
callback is called once for each delivery, by its own manager, as long as a
signal is delivered only while one callback is registered for it.
-/

namespace SpudLib

structure SigContext where
  address : Nat
  sig : Int
  mgr : Nat
  cb : Nat
  deriving DecidableEq

/-- The registrations of the process, newest first, the bytes in the pipe of each manager,
the registrations a delivered signal was for, and the callbacks called, each with the manager
whose loop called it. -/
structure Signals where
  sigContexts : List SigContext
  pipes : Nat → List Int
  delivered : List Nat
  invoked : List (Nat × Nat)

/-- An `int` passed as a `char`. -/
def asChar (number : Int) : Int := number.bmod 256

namespace Signals

/-- `tube_manager_interrupt`: the byte goes into the pipe, as soon as there is room. -/
def tubeManagerInterrupt (signals : Signals) (mgr : Nat) (b : Int) : Signals :=
  { signals with
    pipes := Function.update signals.pipes mgr (signals.pipes mgr ++ [b]) }

/-- The loop of `_tm_signal`. -/
def tmSignal (sig : Int) : List SigContext → Signals → Signals
  | [], signals => signals
  | c :: next, signals =>
      if c.sig = sig then tmSignal sig next (signals.tubeManagerInterrupt c.mgr (asChar sig))
      else tmSignal sig next signals

/-- `tube_manager_signal`; the answers are those of `ls_data_malloc` and `signal`. -/
def tubeManagerSignal (signals : Signals) (mgr : Nat) (sig : Int) (cb : Nat)
    (granted accepted : Bool) : Bool × Signals :=
  if !granted then (false, signals)
  else if !accepted then (false, signals)
  else
    let ctx : SigContext := ⟨signals.sigContexts.length, sig, mgr, cb⟩
    (true, { signals with sigContexts := ctx :: signals.sigContexts })

/-- The loop over the registrations in `tube_manager_wait`, once a byte has been read. -/
def callBacks (mgr : Nat) (b : Int) : List SigContext → Signals → Signals
  | [], signals => signals
  | c :: next, signals =>
      if c.sig = b then
        callBacks mgr b next { signals with invoked := signals.invoked ++ [(c.address, mgr)] }
      else callBacks mgr b next signals

/-- What `tube_manager_wait` does when its pipe can be read. -/
def tubeManagerWait (signals : Signals) (mgr : Nat) : Signals :=
  match signals.pipes mgr with
  | [] => signals
  | b :: rest =>
      callBacks mgr b signals.sigContexts
        { signals with pipes := Function.update signals.pipes mgr rest }

end Signals

inductive SignalStep where
  | register (mgr : Nat) (sig : Int) (cb : Nat) (granted : Bool)
  | deliver (sig : Int)
  | wait (mgr : Nat)

namespace Signals

/-- `accepts` says for which numbers `signal` sets the handler. -/
def perform (accepts : Int → Bool) (signals : Signals) : SignalStep → Signals
  | .register mgr sig cb granted => (signals.tubeManagerSignal mgr sig cb granted (accepts sig)).2
  | .deliver sig =>
      let due := signals.sigContexts.filter fun c => c.sig = sig
      { tmSignal sig signals.sigContexts signals with
        delivered := signals.delivered ++ due.map SigContext.address }
  | .wait mgr => signals.tubeManagerWait mgr

def system (accepts : Int → Bool) : System Signals SignalStep where
  Enabled _ _ := True
  step signals step := .ok (signals.perform accepts step)

/-- A signal is delivered while at most one callback is registered for it, and no callback is
registered for a number that is waiting in a pipe. -/
def Alone (accepts : Int → Bool) (signals : Signals) : SignalStep → Prop
  | .deliver sig => ∀ c ∈ signals.sigContexts, ∀ d ∈ signals.sigContexts,
      c.sig = sig → d.sig = sig → c = d
  | .register _ sig _ granted => granted = true → accepts sig = true →
      ∀ mgr, asChar sig ∉ signals.pipes mgr
  | .wait _ => True

def calls (signals : Signals) (c : SigContext) : Nat :=
  (signals.invoked.map Prod.fst).count c.address

def due (signals : Signals) (c : SigContext) : Nat :=
  signals.delivered.count c.address

def IsNew (signals : Signals) : Prop :=
  signals.sigContexts = [] ∧ (∀ mgr, signals.pipes mgr = []) ∧ signals.delivered = [] ∧
    signals.invoked = []

section Loops

variable {signals : Signals} {sig : Int} {mgr : Nat} {contexts : List SigContext}

theorem interrupted_self (signals : Signals) (mgr : Nat) (b : Int) :
    (signals.tubeManagerInterrupt mgr b).pipes mgr = signals.pipes mgr ++ [b] :=
  Function.update_self ..

theorem interrupted_of_ne {other : Nat} (different : other ≠ mgr) (b : Int) :
    (signals.tubeManagerInterrupt mgr b).pipes other = signals.pipes other :=
  Function.update_of_ne different ..

/-- The handler writes to the pipes and nothing else. -/
theorem tmSignal_kept (sig : Int) (contexts : List SigContext) (signals : Signals) :
    (tmSignal sig contexts signals).sigContexts = signals.sigContexts ∧
      (tmSignal sig contexts signals).delivered = signals.delivered ∧
      (tmSignal sig contexts signals).invoked = signals.invoked := by
  induction contexts generalizing signals with
  | nil => exact ⟨rfl, rfl, rfl⟩
  | cons c next inductionHypothesis =>
    rw [tmSignal]
    split_ifs
    · exact inductionHypothesis _
    · exact inductionHypothesis signals

/-- Each pipe gets one byte for each registration of its manager. -/
theorem tmSignal_pipes (sig : Int) (contexts : List SigContext) (signals : Signals) (mgr : Nat) :
    (tmSignal sig contexts signals).pipes mgr = signals.pipes mgr ++
      ((contexts.filter fun c => c.sig = sig ∧ c.mgr = mgr).map fun _ => asChar sig) := by
  induction contexts generalizing signals with
  | nil => exact (List.append_nil _).symm
  | cons c next inductionHypothesis =>
    rw [tmSignal, List.filter_cons]
    by_cases mine : c.sig = sig
    · rw [if_pos mine, inductionHypothesis]
      by_cases here : c.mgr = mgr
      · rw [if_pos (decide_eq_true ⟨mine, here⟩), ← here, interrupted_self, List.map_cons,
          List.append_assoc]
        rfl
      · rw [if_neg fun both => here (of_decide_eq_true both).2,
          interrupted_of_ne fun same => here same.symm]
    · rw [if_neg mine, inductionHypothesis,
        if_neg fun both => mine (of_decide_eq_true both).1]

/-- Every callback registered for the byte is called, by the manager that has read it. -/
theorem callBacks_eq (mgr : Nat) (b : Int) (contexts : List SigContext) (signals : Signals) :
    callBacks mgr b contexts signals = { signals with
      invoked := signals.invoked ++
        ((contexts.filter fun c => c.sig = b).map fun c => (c.address, mgr)) } := by
  induction contexts generalizing signals with
  | nil =>
    rw [callBacks]
    exact congrArg (Signals.mk _ _ _) (List.append_nil _).symm
  | cons c next inductionHypothesis =>
    rw [callBacks, List.filter_cons]
    by_cases mine : c.sig = b
    · rw [if_pos mine, inductionHypothesis, if_pos (decide_eq_true mine), List.map_cons]
      simp only [List.append_assoc, List.singleton_append]
    · rw [if_neg mine, inductionHypothesis, if_neg fun same => mine (of_decide_eq_true same)]

end Loops

theorem asChar_of_small {sig : Int} (range : 0 < sig ∧ sig < 128) : asChar sig = sig := by
  rw [asChar, Int.bmod_eq_of_le] <;> omega

structure Sound (signals : Signals) : Prop where
  range : ∀ c ∈ signals.sigContexts, 0 < c.sig ∧ c.sig < 128
  addresses : (signals.sigContexts.map SigContext.address).Nodup
  bounded : ∀ c ∈ signals.sigContexts, c.address < signals.sigContexts.length
  known : ∀ address ∈ signals.delivered, ∃ c ∈ signals.sigContexts, c.address = address
  own : ∀ c ∈ signals.sigContexts, ∀ mgr, c.sig ∈ signals.pipes mgr → c.mgr = mgr
  balance : ∀ c ∈ signals.sigContexts,
    signals.calls c + (signals.pipes c.mgr).count c.sig = signals.due c
  mine : ∀ call ∈ signals.invoked, ∃ c ∈ signals.sigContexts, c.address = call.1 ∧ c.mgr = call.2

section Steps

variable {accepts : Int → Bool} {signals : Signals} {c : SigContext}

theorem Sound.count_filter (sound : signals.Sound) (member : c ∈ signals.sigContexts)
    (condition : SigContext → Bool) :
    ((signals.sigContexts.filter condition).map SigContext.address).count c.address =
      if condition c then 1 else 0 := by
  have nodup : ((signals.sigContexts.filter condition).map SigContext.address).Nodup :=
    sound.addresses.sublist (List.filter_sublist.map _)
  split_ifs with meets
  · exact List.count_eq_one_of_mem nodup
      (List.mem_map_of_mem (List.mem_filter.mpr ⟨member, meets⟩))
  · refine List.count_eq_zero_of_not_mem ?_
    intro inside
    obtain ⟨d, found, same⟩ := List.mem_map.mp inside
    obtain ⟨there, meetsToo⟩ := List.mem_filter.mp found
    rw [List.inj_on_of_nodup_map sound.addresses there member same] at meetsToo
    exact meets meetsToo

theorem Sound.change (sound : signals.Sound) {next : Signals}
    (contexts : next.sigContexts = signals.sigContexts)
    (known : ∀ address ∈ next.delivered, ∃ c ∈ signals.sigContexts, c.address = address)
    (own : ∀ c ∈ signals.sigContexts, ∀ mgr, c.sig ∈ next.pipes mgr → c.mgr = mgr)
    (balance : ∀ c ∈ signals.sigContexts,
      next.calls c + (next.pipes c.mgr).count c.sig = next.due c)
    (mine : ∀ call ∈ next.invoked,
      ∃ c ∈ signals.sigContexts, c.address = call.1 ∧ c.mgr = call.2) : next.Sound := by
  rw [← contexts] at known own balance mine
  refine ⟨?_, ?_, ?_, known, own, balance, mine⟩
  · rw [contexts]
    exact sound.range
  · rw [contexts]
    exact sound.addresses
  · rw [contexts]
    exact sound.bounded

theorem Sound.register (sound : signals.Sound)
    (range : ∀ sig, accepts sig = true → 0 < sig ∧ sig < 128) {mgr cb : Nat} {sig : Int}
    {granted : Bool} (alone : signals.Alone accepts (.register mgr sig cb granted)) :
    (signals.perform accepts (.register mgr sig cb granted)).Sound := by
  rw [perform, tubeManagerSignal]
  cases granted with
  | false => exact sound
  | true =>
    cases accepted : accepts sig with
    | false => exact sound
    | true =>
      have small := range sig accepted
      have absent := alone rfl accepted
      rw [asChar_of_small small] at absent
      constructor
      · rintro c (_ | ⟨_, member⟩)
        · exact small
        · exact sound.range c member
      · refine List.nodup_cons.mpr ⟨?_, sound.addresses⟩
        intro inside
        obtain ⟨d, there, same⟩ := List.mem_map.mp inside
        exact absurd (sound.bounded d there) (by rw [same]; exact Nat.lt_irrefl _)
      · rintro c (_ | ⟨_, member⟩)
        · exact Nat.lt_succ_self _
        · exact Nat.lt_succ_of_lt (sound.bounded c member)
      · intro address member
        obtain ⟨c, there, same⟩ := sound.known address member
        exact ⟨c, List.mem_cons_of_mem _ there, same⟩
      · rintro c (_ | ⟨_, member⟩) other waiting
        · exact absurd waiting (absent other)
        · exact sound.own c member other waiting
      · rintro c (_ | ⟨_, member⟩)
        · have uncalled : signals.sigContexts.length ∉ signals.invoked.map Prod.fst := by
            intro inside
            obtain ⟨call, made, same⟩ := List.mem_map.mp inside
            obtain ⟨d, there, address, _⟩ := sound.mine call made
            have early := sound.bounded d there
            omega
          have undue : signals.sigContexts.length ∉ signals.delivered := by
            intro inside
            obtain ⟨d, there, address⟩ := sound.known _ inside
            have early := sound.bounded d there
            omega
          have calls : (signals.invoked.map Prod.fst).count signals.sigContexts.length = 0 :=
            List.count_eq_zero_of_not_mem uncalled
          have due : signals.delivered.count signals.sigContexts.length = 0 :=
            List.count_eq_zero_of_not_mem undue
          have waiting : (signals.pipes mgr).count sig = 0 :=
            List.count_eq_zero_of_not_mem (absent mgr)
          exact (congrArg₂ (· + ·) calls waiting).trans due.symm
        · exact sound.balance c member
      · intro call made
        obtain ⟨d, there, same⟩ := sound.mine call made
        exact ⟨d, List.mem_cons_of_mem _ there, same⟩

theorem Sound.deliver (sound : signals.Sound) {sig : Int}
    (alone : signals.Alone accepts (.deliver sig)) :
    (signals.perform accepts (.deliver sig)).Sound := by
  let next := signals.perform accepts (.deliver sig)
  obtain ⟨contexts, _, invoked⟩ := tmSignal_kept sig signals.sigContexts signals
  have pipes : ∀ mgr, next.pipes mgr = _ := tmSignal_pipes sig signals.sigContexts signals
  -- a byte that is written is the number of a registration of the manager
  have written : ∀ mgr b, b ∈ (signals.sigContexts.filter fun c => c.sig = sig ∧ c.mgr = mgr).map
      (fun _ => asChar sig) → b = sig ∧ ∃ d ∈ signals.sigContexts, d.sig = sig ∧ d.mgr = mgr := by
    intro mgr b inside
    obtain ⟨d, found, same⟩ := List.mem_map.mp inside
    obtain ⟨there, both⟩ := List.mem_filter.mp found
    obtain ⟨number, manager⟩ := of_decide_eq_true both
    refine ⟨?_, d, there, number, manager⟩
    rw [← same, asChar_of_small (number ▸ sound.range d there)]
  refine @Sound.change signals sound next contexts ?_ ?_ ?_ ?_
  · intro address member
    rcases List.mem_append.mp member with old | new
    · exact sound.known address old
    · obtain ⟨d, found, same⟩ := List.mem_map.mp new
      exact ⟨d, (List.mem_filter.mp found).1, same⟩
  · intro c there mgr waiting
    rw [pipes] at waiting
    rcases List.mem_append.mp waiting with old | new
    · exact sound.own c there mgr old
    · obtain ⟨same, d, inside, number, manager⟩ := written mgr c.sig new
      rw [alone c there d inside same number]
      exact manager
  · intro c there
    have calls : next.calls c = signals.calls c := congrArg (fun invoked : List (Nat × Nat) =>
      (invoked.map Prod.fst).count c.address) invoked
    have due : next.due c = signals.due c + if c.sig = sig then 1 else 0 := by
      have once := sound.count_filter there fun c => c.sig = sig
      refine (List.count_append ..).trans (congrArg _ (once.trans ?_))
      simp only [decide_eq_true_eq]
    have arrived : ((signals.sigContexts.filter fun d => d.sig = sig ∧ d.mgr = c.mgr).map
        fun _ => asChar sig).count c.sig = if c.sig = sig then 1 else 0 := by
      split_ifs with same
      · let matching := signals.sigContexts.filter fun d => d.sig = sig ∧ d.mgr = c.mgr
        have only : ∀ d ∈ matching, d = c := by
          intro d found
          obtain ⟨inside, both⟩ := List.mem_filter.mp found
          exact alone d inside c there (of_decide_eq_true both).1 same
        have once : (matching.map SigContext.address).count c.address = 1 :=
          (sound.count_filter there _).trans (if_pos (decide_eq_true ⟨same, rfl⟩))
        have bytes : ∀ b ∈ matching.map fun _ => asChar sig, c.sig = b := by
          intro b inside
          rw [(written c.mgr b inside).1]
          exact same
        have addresses : ∀ address ∈ matching.map SigContext.address, c.address = address := by
          intro address inside
          obtain ⟨d, found, here⟩ := List.mem_map.mp inside
          rw [← here, only d found]
        rw [List.count_eq_length.mpr addresses, List.length_map] at once
        rw [List.count_eq_length.mpr bytes, List.length_map]
        exact once
      · refine List.count_eq_zero_of_not_mem ?_
        intro inside
        exact same (written c.mgr c.sig inside).1
    rw [calls, due, pipes, List.count_append, arrived, ← sound.balance c there]
    omega
  · rw [show next.invoked = _ from invoked]
    exact sound.mine

theorem Sound.wait (sound : signals.Sound) (mgr : Nat) : (signals.tubeManagerWait mgr).Sound := by
  unfold tubeManagerWait
  cases waiting : signals.pipes mgr with
  | nil => exact sound
  | cons b rest =>
    simp only []
    rw [callBacks_eq]
    have first : ∀ c ∈ signals.sigContexts, c.sig = b → c.mgr = mgr := by
      intro c there same
      refine sound.own c there mgr ?_
      rw [waiting, same]
      exact List.mem_cons_self
    have fewer : ∀ other, Function.update signals.pipes mgr rest other ⊆ signals.pipes other := by
      intro other
      by_cases here : other = mgr
      · rw [here, Function.update_self, waiting]
        exact List.subset_cons_self _ _
      · rw [Function.update_of_ne here]
        exact List.Subset.refl _
    refine sound.change rfl sound.known ?_ ?_ ?_
    · intro c there other inside
      exact sound.own c there other (fewer other inside)
    · intro c there
      let called := signals.sigContexts.filter fun d => d.sig = b
      have calls : ((signals.invoked ++ called.map fun d => (d.address, mgr)).map Prod.fst).count
          c.address = signals.calls c + if c.sig = b then 1 else 0 := by
        have once := sound.count_filter there fun d => d.sig = b
        rw [List.map_append, List.count_append, List.map_map]
        refine congrArg _ (once.trans ?_)
        simp only [decide_eq_true_eq]
      have read : (Function.update signals.pipes mgr rest c.mgr).count c.sig +
          (if c.sig = b then 1 else 0) = (signals.pipes c.mgr).count c.sig := by
        by_cases here : c.mgr = mgr
        · rw [here, Function.update_self, waiting, List.count_cons]
          simp only [beq_iff_eq]
          exact congrArg _ (if_congr eq_comm rfl rfl)
        · rw [Function.update_of_ne here, if_neg fun same => here (first c there same)]
          rfl
      have before := sound.balance c there
      rw [← read] at before
      refine (congrArg (· + _) calls).trans (Eq.trans ?_ before)
      rw [Nat.add_assoc, Nat.add_comm (ite _ _ _)]
    · intro call made
      rcases List.mem_append.mp made with old | new
      · exact sound.mine call old
      · obtain ⟨c, found, same⟩ := List.mem_map.mp new
        obtain ⟨there, number⟩ := List.mem_filter.mp found
        refine ⟨c, there, ?_⟩
        rw [← same]
        exact ⟨rfl, first c there (of_decide_eq_true number)⟩

theorem IsNew.sound (new : signals.IsNew) : signals.Sound := by
  obtain ⟨contexts, pipes, delivered, invoked⟩ := new
  have none : ∀ c, c ∉ signals.sigContexts := by
    rw [contexts]
    exact fun _ => List.not_mem_nil
  refine ⟨fun c there => absurd there (none c), ?_, fun c there => absurd there (none c), ?_,
    fun c there => absurd there (none c), fun c there => absurd there (none c), ?_⟩
  · rw [contexts]
    exact List.nodup_nil
  · rw [delivered]
    exact fun _ => (nomatch ·)
  · rw [invoked]
    exact fun _ => (nomatch ·)

end Steps

/-- When every pipe has been drained, each callback has been called once for each delivery
of its signal since it was registered, and always by its own manager. -/
theorem run_notifies (accepts : Int → Bool)
    (range : ∀ sig, accepts sig = true → 0 < sig ∧ sig < 128) (start last : Signals)
    (steps : List SignalStep) (new : start.IsNew)
    (run : ((system accepts).restrict (Alone accepts)).Run start steps last)
    (drained : ∀ mgr, last.pipes mgr = []) :
    (∀ c ∈ last.sigContexts, last.calls c = last.due c) ∧
      ∀ call ∈ last.invoked, ∃ c ∈ last.sigContexts, c.address = call.1 ∧ c.mgr = call.2 := by
  have sound : last.Sound := by
    refine run.preserves Sound ?_ new.sound
    rintro signals step next sound ⟨_, alone⟩ stepped
    cases stepped
    cases step with
    | register mgr sig cb granted => exact sound.register range alone
    | deliver sig => exact sound.deliver alone
    | wait mgr => exact sound.wait mgr
  refine ⟨?_, sound.mine⟩
  intro c there
  have balance := sound.balance c there
  rw [drained, List.count_nil, Nat.add_zero] at balance
  exact balance

def silent : Signals := ⟨[], fun _ => [], [], []⟩

theorem silent_isNew : silent.IsNew := ⟨rfl, fun _ => rfl, rfl, rfl⟩

def usual (sig : Int) : Bool := 0 < sig && sig < 65

theorem usual_range (sig : Int) (accepted : usual sig = true) : 0 < sig ∧ sig < 128 := by
  rw [usual, Bool.and_eq_true, decide_eq_true_eq, decide_eq_true_eq] at accepted
  omega

theorem run_notifies_apart : ∃ last : Signals, last.invoked = [(0, 0), (1, 1), (0, 0)] ∧
    (∀ mgr, last.pipes mgr = []) ∧ ∀ c ∈ last.sigContexts, last.calls c = last.due c := by
  have first : ∀ mgr, asChar 10 ∉ silent.pipes mgr := fun _ => List.not_mem_nil
  have second : ∀ mgr, asChar 12 ∉ silent.pipes mgr := fun _ => List.not_mem_nil
  let contexts : List SigContext := [⟨1, 12, 1, 101⟩, ⟨0, 10, 0, 100⟩]
  have alike : ∀ c ∈ contexts, ∀ d ∈ contexts, c.sig = d.sig → c = d := by decide
  have alone : ∀ sig, ∀ c ∈ contexts, ∀ d ∈ contexts, c.sig = sig → d.sig = sig → c = d :=
    fun sig c there d inside one two => alike c there d inside (one.trans two.symm)
  obtain ⟨last, run, invoked, drained⟩ : ∃ last, ((system usual).restrict (Alone usual)).Run silent
      [.register 0 10 100 true, .register 1 12 101 true, .deliver 10, .deliver 12, .deliver 10,
        .wait 0, .wait 1, .wait 0] last ∧
      last.invoked = [(0, 0), (1, 1), (0, 0)] ∧ ∀ mgr, last.pipes mgr = [] := by
    refine System.Run.exists_cons ⟨trivial, fun _ _ => first⟩ rfl ?_
    refine System.Run.exists_cons ⟨trivial, fun _ _ => second⟩ rfl ?_
    refine System.Run.exists_cons ⟨trivial, alone 10⟩ rfl ?_
    refine System.Run.exists_cons ⟨trivial, alone 12⟩ rfl ?_
    refine System.Run.exists_cons ⟨trivial, alone 10⟩ rfl ?_
    refine System.Run.exists_cons ⟨trivial, trivial⟩ rfl ?_
    refine System.Run.exists_cons ⟨trivial, trivial⟩ rfl ?_
    refine System.Run.exists_cons ⟨trivial, trivial⟩ rfl ⟨_, .nil _, rfl, ?_⟩
    rintro (_ | _ | mgr) <;> rfl
  exact ⟨last, invoked, drained,
    (run_notifies usual usual_range silent last _ silent_isNew run drained).1⟩

/-- Two managers wait for the same signal: each calls both callbacks. -/
theorem shared_signal_repeats : ∃ last : Signals,
    (system usual).Run silent [.register 0 10 100 true, .register 1 10 101 true, .deliver 10,
      .wait 0, .wait 1] last ∧ (∀ mgr, last.pipes mgr = []) ∧
    last.delivered = [1, 0] ∧ last.invoked = [(1, 0), (0, 0), (1, 1), (0, 1)] := by
  refine System.Run.exists_cons trivial rfl ?_
  refine System.Run.exists_cons trivial rfl ?_
  refine System.Run.exists_cons trivial rfl ?_
  refine System.Run.exists_cons trivial rfl ?_
  refine System.Run.exists_cons trivial rfl ⟨_, .nil _, ?_, rfl, rfl⟩
  rintro (_ | _ | mgr) <;> rfl

end Signals

end SpudLib
