import SpudLib.Foundation.Memory
import SpudLib.Foundation.Procedure
import SpudLib.Protocol.Spud
import SpudLib.Timer.Time

/-!
# Tubes

The data of `src/tube.c` and of the manager in `src/tube_manager_int.h`, and the
functions of `src/tube.c`.  A tube is known by its reference, which is never
used again for another tube.  The manager carries a record of what happened
outside its memory: the events triggered, the datagrams handed to `sendmsg` and
the tubes destroyed, in order.
-/

namespace SpudLib

/-- `struct sockaddr`, by family. -/
inductive SockAddr where
  | inet (port : UInt16) (address : BitVec 32)
  | inet6 (port : UInt16) (address : BitVec 128)
  | other (family : UInt16)
  deriving DecidableEq

def SockAddr.isInternet : SockAddr → Bool
  | .other _ => false
  | _ => true

/-- `ls_sockaddr_copy`; the length of an address of another family is `-1`. -/
def lsSockaddrCopy (source : SockAddr) : Exec SockAddr :=
  if source.isInternet then pure source else .error .outOfBounds

/-- `ls_pktinfo`. -/
inductive PktInfo where
  | clear
  | info4 (interface : Nat) (address : BitVec 32)
  | info6 (interface : Nat) (address : BitVec 128)
  deriving DecidableEq

/-- `tube_states_t`. -/
inductive TubeState where
  | start
  | unknown
  | opening
  | running
  | resuming
  deriving DecidableEq

structure Tube where
  state : TubeState
  peer : SockAddr
  id : SpudTubeId
  pktinfo : Option PktInfo
  sock : Int

/-- A message handed to `sendmsg`. -/
structure Datagram where
  sock : Int
  source : Option PktInfo
  dest : SockAddr
  bytes : List UInt8
  deriving DecidableEq

/-- The events of a manager that are about one tube. -/
inductive TubeEvent where
  | add
  | running
  | data
  | close
  | remove
  deriving DecidableEq

/-- `tube_event_data`, without the manager. -/
structure TubeEventData where
  t : Nat
  cbor : Option Cbor
  peer : SockAddr

inductive Notice where
  | add (t : Nat)
  | running (d : TubeEventData)
  | data (d : TubeEventData)
  | close (d : TubeEventData)
  | remove (t : Nat)

namespace Notice

def event : Notice → TubeEvent
  | .add _ => .add
  | .running _ => .running
  | .data _ => .data
  | .close _ => .close
  | .remove _ => .remove

def tube : Notice → Nat
  | .add t | .remove t => t
  | .running d | .data d | .close d => d.t

end Notice

inductive Effect where
  | triggered (notice : Notice)
  | sent (datagram : Datagram) (answer : Bool)
  | destroyed (t : Nat)

/-- A key of the table of tubes: a pointer to the identifier inside a tube, or to a
local variable. -/
structure TubeKey where
  owner : Option Nat
  id : SpudTubeId
  deriving DecidableEq

/-- The allocations of the manager; bucket arrays are asked for by their size. -/
inductive Allocation where
  | tube
  | pktinfo
  | iovec
  | node
  | moment (event : TubeEvent)
  | pool
  | cborMap
  | cborData
  | cborEntry

/-- What the system answers during one call. -/
structure Environment where
  granted : Allocation → Bool
  calloc : Nat → Bool
  randomId : Option SpudTubeId
  sendmsg : Datagram → Bool
  clock : Timeval

structure TubeManager where
  table : HTable TubeKey Nat
  tubes : Memory Tube
  sock4 : Int
  sock6 : Int
  policy : UInt32
  last : Timeval
  keepGoing : Bool
  trace : List Effect

/-- Procedures of the library, which call back with the events they trigger. -/
abbrev Tubing (Alpha : Type) : Type := Proc Notice TubeManager Alpha

/-- `MAXBUFLEN`, in both files. -/
def maxBufLen : Nat := 1500

def record (effect : Effect) : Tubing Unit :=
  Proc.modify fun mgr => { mgr with trace := mgr.trace ++ [effect] }

def readTube (t : Nat) : Tubing Tube :=
  Proc.lift fun mgr => do
    let cell ← mgr.tubes.read t
    pure (cell, mgr)

def modifyTube (t : Nat) (change : Tube → Tube) : Tubing Unit :=
  Proc.lift fun mgr => do
    let tubes ← mgr.tubes.modify t change
    pure ((), { mgr with tubes := tubes })

/-- The tube `tube_create` makes: cleared, without a socket, in state unknown. -/
def Tube.created : Tube where
  state := .unknown
  peer := .other 0
  id := ⟨fun _ => 0⟩
  pktinfo := none
  sock := -1

def tubeCreate (env : Environment) : Tubing (Option Nat) :=
  if env.granted .tube then do
    let mgr ← Proc.get
    Proc.modify fun mgr => { mgr with tubes := mgr.tubes.alloc Tube.created }
    pure (some mgr.tubes.fresh)
  else pure none

def tubeDestroy (t : Nat) : Tubing Unit := do
  Proc.lift fun mgr => do
    let tubes ← mgr.tubes.free t
    pure ((), { mgr with tubes := tubes })
  record (.destroyed t)

def tubeSetLocal (env : Environment) (t : Nat) (info : Option PktInfo) : Tubing Bool :=
  match info with
  | none => do
      modifyTube t fun cell => { cell with pktinfo := none }
      pure true
  | some info => do
      modifyTube t fun cell =>
        { cell with pktinfo := if env.granted .pktinfo then some info else none }
      pure (env.granted .pktinfo)

def tubeManagerSendmsg (env : Environment) (sock : Int) (source : Option PktInfo)
    (dest : SockAddr) (iov : List (List UInt8)) : Tubing Bool := do
  let datagram : Datagram := ⟨sock, source, dest, iov.flatten⟩
  record (.sent datagram (env.sendmsg datagram))
  pure (env.sendmsg datagram)

/-- The header `tube_send` puts in front. -/
def sentHeader (id : SpudTubeId) (cmd : SpudCommand) (adec pdec : Bool) : SpudHeader where
  tubeId := id
  flags := cmd.value ||| (if adec then spudAdec else 0) ||| (if pdec then spudPdec else 0)

def tubeSend (env : Environment) (t : Nat) (cmd : SpudCommand) (adec pdec : Bool)
    (data : List (List UInt8)) : Tubing Bool :=
  if env.granted .iovec then do
    let cell ← readTube t
    let header := (sentHeader cell.id cmd adec pdec).bytes
    tubeManagerSendmsg env cell.sock cell.pktinfo cell.peer
      (header :: data.filter fun part => 0 < part.length)
  else pure false

def tubeSendCbor (env : Environment) (library : CborLibrary) (t : Nat) (cmd : SpudCommand)
    (adec pdec : Bool) (cbor : Cbor) : Tubing Bool :=
  match library.encoderWrite maxBufLen cbor with
  | none => pure false
  | some buf => tubeSend env t cmd adec pdec [buf]

def tubeData (env : Environment) (library : CborLibrary) (t : Nat) (data : List UInt8) :
    Tubing Bool :=
  if data.length = 0 then tubeSend env t .spudData false false []
  else if env.granted .pool && env.granted .cborMap && env.granted .cborData
      && env.granted .cborEntry then
    tubeSendCbor env library t .spudData false false
      (library.mapputInt library.mapCreate 0 (library.dataCreate data))
  else pure false

def tubeSetState (t : Nat) (state : TubeState) : Tubing Unit :=
  modifyTube t fun cell => { cell with state := state }

def tubeClose (env : Environment) (t : Nat) : Tubing Bool := do
  tubeSetState t .unknown
  tubeSend env t .spudClose false false []

def tubeSetInfo (t : Nat) (socket : Int) (peer : Option SockAddr) (id : Option SpudTubeId) :
    Tubing Unit := do
  let copied ← Proc.lift fun mgr => do
    let copied ← match peer with
      | none => pure none
      | some peer => some <$> lsSockaddrCopy peer
    pure (copied, mgr)
  modifyTube t fun cell =>
    { cell with
      sock := if 0 ≤ socket then socket else cell.sock
      peer := copied.getD cell.peer
      id := id.getD cell.id }

end SpudLib
