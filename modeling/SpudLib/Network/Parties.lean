import SpudLib.Foundation.System
import SpudLib.Tube.Reacting

/-!
# Two parties

An initiator, which opens tubes, and a responder.  Each act of a party, a call
of its application or a datagram for its loop, is a reaction to one cue.
-/

namespace SpudLib

open TubeManager

/-- What a party does: its application calls, or its loop receives. -/
inductive Act where
  | openTube (env : Environment) (dest : SockAddr)
  | data (env : Environment) (t : Nat) (bytes : List UInt8)
  | close (env : Environment) (t : Nat)
  | remove (env : Environment) (t : Nat)
  | receive (env : Environment) (hasErr : Bool) (received : Reception)

def Act.env : Act → Environment
  | .openTube env _ | .data env _ _ | .close env _ | .remove env _ | .receive env _ _ => env

namespace TubeManager

def act (mgr : TubeManager) (library : CborLibrary) : Act → Exec TubeManager
  | .openTube env dest => do
      let (_, after) ← (tubeManagerOpenTube env dest).straight mgr
      pure after
  | .data env t bytes => do
      let (_, after) ← (tubeData env library t bytes).straight mgr
      pure after
  | .close env t => do
      let (_, after) ← (tubeClose env t).straight mgr
      pure after
  | .remove env t => do
      let (_, after) ← (tubeManagerRemove env t).straight mgr
      pure after
  | .receive env hasErr received => do
      let (_, after) ← (tubeManagerLoopBody env library hasErr received).straight mgr
      pure after

/-- Calls are about tubes in the table; an array of `2 ^ 30` buckets cannot be
allocated. -/
def MayAct (mgr : TubeManager) : Act → Prop
  | .data _ t _ | .close _ t | .remove _ t => mgr.InTable t
  | .openTube env _ | .receive env _ _ => ∀ size, 2 ^ 30 ≤ size → env.calloc size = false

def Cues (mgr : TubeManager) (library : CborLibrary) (id : SpudTubeId) : Act → Cue → Prop
  | .openTube env _, .opened => env.randomId = some id
  | .data _ t _, .said | .close _ t, .closed | .remove _ t, .removed =>
      mgr.lookup id = .ok (some t)
  | .receive _ _ received, .heard cmd => ∃ msg, spudParse library received.buf = .ok msg ∧
      msg.header.tubeId = id ∧ SpudCommand.ofFlags msg.header.flags = cmd
  | _, _ => False

inductive Cued (mgr : TubeManager) (library : CborLibrary) (id : SpudTubeId) :
    Act → Cue → Prop where
  | opened {env dest} (drawn : env.randomId = some id) :
      Cued mgr library id (.openTube env dest) .opened
  | said {env t bytes} (stored : mgr.lookup id = .ok (some t)) :
      Cued mgr library id (.data env t bytes) .said
  | closed {env t} (stored : mgr.lookup id = .ok (some t)) :
      Cued mgr library id (.close env t) .closed
  | removed {env t} (stored : mgr.lookup id = .ok (some t)) :
      Cued mgr library id (.remove env t) .removed
  | heard {env hasErr received msg cmd} (parsed : spudParse library received.buf = .ok msg)
      (own : msg.header.tubeId = id) (command : SpudCommand.ofFlags msg.header.flags = cmd) :
      Cued mgr library id (.receive env hasErr received) (.heard cmd)

def Rests (mgr after : TubeManager) : Prop :=
  after.Tracked ∧ ∀ id, mgr.Reacts after id ⟨mgr.held id, [], []⟩

variable {mgr after : TubeManager} {library : CborLibrary} {call : Act} {cue : Cue}
  {id : SpudTubeId}

theorem Cues.cued (cues : mgr.Cues library id call cue) : mgr.Cued library id call cue := by
  unfold Cues at cues
  split at cues
  · exact .opened cues
  · exact .said cues
  · exact .closed cues
  · exact .removed cues
  · obtain ⟨msg, parsed, own, command⟩ := cues
    exact .heard parsed own command
  · exact cues.elim

theorem IsNew.tracks (new : mgr.IsNew) : mgr.Tracks (fun _ => none) ∧ mgr.trace = [] := by
  obtain ⟨_, _, _, _, _, _, _, base, refused, created, rfl⟩ := new
  obtain ⟨holds, _, trace⟩ := tubeManagerCreate_ok refused created
  exact ⟨⟨holds.registers, holds.tracks.known⟩, trace⟩

theorem IsNew.held (new : mgr.IsNew) (id : SpudTubeId) : mgr.held id = none :=
  new.tracks.1.held_none rfl

theorem Tracks.inTable {find : SpudTubeId → Option Nat} (tracks : mgr.Tracks find) {t : Nat}
    (inTable : mgr.InTable t) : ∃ id, find id = some t ∧ mgr.lookup id = .ok (some t) := by
  obtain ⟨id, stored⟩ := inTable
  refine ⟨id, ?_, stored⟩
  rw [tracks.lookup, Except.ok.injEq] at stored
  exact stored

/-- An act that returns is a reaction to a cue, or nothing comes of it. -/
theorem Tracked.act (tracked : mgr.Tracked) (may : mgr.MayAct call)
    (acted : mgr.act library call = .ok after) :
    mgr.Rests after ∨ ∃ id cue, ∃ luck : Luck, mgr.Cues library id call cue ∧
      (cue ≠ .said → luck.Fits call.env mgr) ∧ after.Tracked ∧
      mgr.Reacts after id (luck.react mgr.tubeManagerIsResponder (mgr.held id) cue) := by
  obtain ⟨find, tracks⟩ := tracked
  cases call with
  | openTube env dest =>
    obtain ⟨⟨answer, last⟩, returned, same⟩ := Exec.bind_eq_ok.mp acted
    cases same
    rcases tubeManagerOpenTube_reacts tracks may returned mgr.tubeManagerIsResponder with
      rests | ⟨id, drawn, luck, fits, reacts⟩
    · exact .inl rests
    · exact .inr ⟨id, .opened, luck, drawn, fun _ => fits, reacts⟩
  | data env t bytes =>
    obtain ⟨⟨answer, last⟩, returned, same⟩ := Exec.bind_eq_ok.mp acted
    cases same
    obtain ⟨id, stored, inTable⟩ := tracks.inTable may
    obtain ⟨luck, reacts⟩ := tubeData_reacts tracks stored returned mgr.tubeManagerIsResponder
    exact .inr ⟨id, .said, luck, inTable, fun silent => absurd rfl silent, reacts⟩
  | close env t =>
    obtain ⟨⟨answer, last⟩, returned, same⟩ := Exec.bind_eq_ok.mp acted
    cases same
    obtain ⟨id, stored, inTable⟩ := tracks.inTable may
    obtain ⟨luck, fits, reacts⟩ :=
      tubeClose_reacts tracks stored returned mgr.tubeManagerIsResponder
    exact .inr ⟨id, .closed, luck, inTable, fun _ => fits, reacts⟩
  | remove env t =>
    obtain ⟨⟨answer, last⟩, returned, same⟩ := Exec.bind_eq_ok.mp acted
    cases same
    obtain ⟨id, stored, inTable⟩ := tracks.inTable may
    obtain ⟨luck, fits, reacts⟩ :=
      tubeManagerRemove_reacts tracks stored returned mgr.tubeManagerIsResponder
    exact .inr ⟨id, .removed, luck, inTable, fun _ => fits, reacts⟩
  | receive env hasErr received =>
    obtain ⟨⟨verdict, last⟩, returned, same⟩ := Exec.bind_eq_ok.mp acted
    cases same
    have reacts := tubeManagerLoopBody_reacts tracks may returned
    cases parsed : spudParse library received.buf with
    | error reason =>
      rw [parsed] at reacts
      exact .inl reacts.2
    | ok msg =>
      rw [parsed] at reacts
      obtain ⟨luck, fits, _, reacts⟩ := reacts
      exact .inr ⟨msg.header.tubeId, .heard (SpudCommand.ofFlags msg.header.flags), luck,
        ⟨msg, parsed, rfl, rfl⟩, fun _ => fits, reacts⟩

end TubeManager

inductive Party where
  | initiator
  | responder
  deriving DecidableEq

def Party.peer : Party → Party
  | .initiator => .responder
  | .responder => .initiator

structure Pair where
  mgr : Party → TubeManager

namespace Pair

def perform (library : CborLibrary) (pair : Pair) (move : Party × Act) : Exec Pair := do
  let after ← (pair.mgr move.1).act library move.2
  pure ⟨Function.update pair.mgr move.1 after⟩

/-- The responder opens no tubes. -/
def MayMove (pair : Pair) (move : Party × Act) : Prop :=
  (pair.mgr move.1).MayAct move.2 ∧ ∀ env dest, move.2 = .openTube env dest → move.1 = .initiator

def IsNew (pair : Pair) : Prop := ∀ party, (pair.mgr party).IsNew

def Tracked (pair : Pair) : Prop := ∀ party, (pair.mgr party).Tracked

variable {library : CborLibrary} {pair next : Pair} {party : Party} {call : Act}

theorem IsNew.tracked (new : pair.IsNew) : pair.Tracked := fun party => ⟨_, (new party).tracks.1⟩

theorem perform_eq (performed : pair.perform library (party, call) = .ok next) :
    (pair.mgr party).act library call = .ok (next.mgr party) ∧
      ∀ other, other ≠ party → next.mgr other = pair.mgr other := by
  obtain ⟨after, acted, same⟩ := Exec.bind_eq_ok.mp performed
  cases same
  refine ⟨?_, fun other different => Function.update_of_ne different ..⟩
  rw [acted]
  exact congrArg Except.ok (@Function.update_self _ _ _ party after pair.mgr).symm

end Pair

end SpudLib
