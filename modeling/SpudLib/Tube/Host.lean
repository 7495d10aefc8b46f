import SpudLib.Tube.Isolation

/-!
# An application and its manager

What an application with passive callbacks can do with a manager, between its
creation and its destruction, and the datagrams that arrive meanwhile.
-/

namespace SpudLib

open TubeManager

inductive Request where
  | openTube (env : Environment) (dest : SockAddr)
  | create (env : Environment)
  | setInfo (t : Nat) (socket : Int) (peer : Option SockAddr) (id : Option SpudTubeId)
  | setState (t : Nat) (state : TubeState)
  | add (env : Environment) (t : Nat)
  | close (env : Environment) (t : Nat)
  | data (env : Environment) (t : Nat) (bytes : List UInt8)
  | remove (env : Environment) (t : Nat)
  | setPolicy (willRespond : Bool)
  | receive (env : Environment) (hasErr : Bool) (received : Reception)
  | destroy (env : Environment)

/-- A manager, the tubes the application has created, those of them it has not added,
and those it has opened and closed. -/
structure Host where
  mgr : TubeManager
  created : List Nat
  unadded : List Nat
  opened : List Nat
  closed : List Nat
  gone : Bool

/-- Allocations and sends succeed; an array of `2 ^ 30` buckets cannot be allocated. -/
structure Environment.Succeeds (env : Environment) : Prop where
  granted : ∀ allocation, env.granted allocation = true
  calloc : ∀ size, env.calloc size = decide (size < 2 ^ 30)
  sendmsg : ∀ datagram, env.sendmsg datagram = true

theorem obliging_succeeds : obliging.Succeeds := ⟨fun _ => rfl, fun _ => rfl, fun _ => rfl⟩

def TubeManager.IsNew (mgr : TubeManager) : Prop :=
  ∃ buckets granted calloc clock sock4 sock6 policy base,
    (∀ size, 2 ^ 30 ≤ size → calloc size = false) ∧
    tubeManagerCreate buckets granted calloc clock = some base ∧
    mgr = { base with sock4 := sock4, sock6 := sock6, policy := policy }

def TubeManager.InTable (mgr : TubeManager) (t : Nat) : Prop := ∃ id, mgr.lookup id = .ok (some t)

namespace Host

variable (library : CborLibrary)

def perform (host : Host) : Request → Exec Host
  | .openTube env dest => do
      let (t, mgr) ← (tubeManagerOpenTube env dest).straight host.mgr
      pure { host with mgr := mgr, opened := host.opened ++ t.toList }
  | .create env => do
      let (t, mgr) ← (tubeCreate env).straight host.mgr
      pure { host with
        mgr := mgr
        created := host.created ++ t.toList
        unadded := host.unadded ++ t.toList }
  | .setInfo t socket peer id => do
      let (_, mgr) ← (tubeSetInfo t socket peer id).straight host.mgr
      pure { host with mgr := mgr }
  | .setState t state => do
      let (_, mgr) ← (tubeSetState t state).straight host.mgr
      pure { host with mgr := mgr }
  | .add env t => do
      let (_, mgr) ← (tubeManagerAdd env t).straight host.mgr
      pure { host with mgr := mgr, unadded := host.unadded.filter fun other => other ≠ t }
  | .close env t => do
      let (_, mgr) ← (tubeClose env t).straight host.mgr
      pure { host with mgr := mgr, closed := host.closed ++ [t] }
  | .data env t bytes => do
      let (_, mgr) ← (tubeData env library t bytes).straight host.mgr
      pure { host with mgr := mgr }
  | .remove env t => do
      let (_, mgr) ← (tubeManagerRemove env t).straight host.mgr
      pure { host with mgr := mgr }
  | .setPolicy willRespond => do
      let (_, mgr) ← (tubeManagerSetPolicyResponder willRespond).straight host.mgr
      pure { host with mgr := mgr }
  | .receive env hasErr received => do
      let (_, mgr) ← (tubeManagerLoopBody env library hasErr received).straight host.mgr
      pure { host with mgr := mgr }
  | .destroy env => do
      let (_, mgr) ← (tubeManagerDestroy env).straight host.mgr
      pure { host with mgr := mgr, gone := true }

/-- A manager that is not destroyed; tubes of the application's own are set up and
added once, other calls are about tubes in the table; allocations and sends
succeed; datagrams are not empty, and a rejected one needs an `err`. -/
def Allowed (host : Host) : Request → Prop
  | .openTube env _ => env.Succeeds ∧ host.mgr.table.Roomy
  | .create env => env.Succeeds
  | .setInfo t _ peer _ =>
      t ∈ host.unadded ∧ ∀ addr, peer = some addr → addr.isInternet = true
  | .setState t _ => t ∈ host.unadded
  | .add env t => t ∈ host.unadded ∧ env.Succeeds ∧ host.mgr.table.Roomy
  | .close env t | .data env t _ | .remove env t => env.Succeeds ∧ host.mgr.InTable t
  | .setPolicy _ => True
  | .receive env hasErr received =>
      env.Succeeds ∧ host.mgr.table.Roomy ∧ host.mgr.keepGoing = true ∧
        received.bytes ≠ [] ∧ (hasErr = true ∨ ∃ msg, spudParse library received.buf = .ok msg)
  | .destroy env => env.Succeeds

def system : System Host Request where
  Enabled host request := host.gone = false ∧ host.Allowed library request
  step := perform library

def Created (host : Host) : Prop :=
  host.created = [] ∧ host.unadded = [] ∧ host.opened = [] ∧ host.closed = [] ∧
    host.gone = false ∧
    ∃ buckets granted calloc clock sock4 sock6 policy mgr,
      (∀ size, 2 ^ 30 ≤ size → calloc size = false) ∧
      tubeManagerCreate buckets granted calloc clock = some mgr ∧
      host.mgr = { mgr with sock4 := sock4, sock6 := sock6, policy := policy }

end Host

end SpudLib
