import SpudLib.Foundation.LinkedList
import SpudLib.Foundation.System

/-!
# Queues

`src/ls_queue.c`: a queue is a list of nodes with its first and its last.
`ls_queue_destroy` gives every value left to the cleaner, which is code of the
user and may use any queue, also the one that is being destroyed.  The loop is
told turn by turn, so that whatever a cleaner does happens between two of them.
-/

namespace SpudLib

structure LsQueue where
  head : Option Nat
  tail : Option Nat
  cleaner : Option Nat
  deriving DecidableEq

/-- A call of `ls_queue_destroy`, and the node whose value the cleaner has. -/
structure QueueFrame where
  queue : Nat
  node : Option Nat
  deriving DecidableEq

inductive QueueEvent where
  | enqueued (queue value : Nat)
  | dequeued (queue value : Nat)
  | cleaned (queue cleaner value : Nat)
  | dropped (queue value : Nat)
  deriving DecidableEq

/-- The queues, their nodes and the calls of `ls_queue_destroy` that have not returned, the
innermost first. -/
structure QueueWorld where
  queues : Memory LsQueue
  nodes : Memory (Link Nat)
  frames : List QueueFrame
  trace : List QueueEvent

inductive QueueOp where
  | create (cleaner : Option Nat) (callocOk : Bool)
  | enq (queue : Nat) (value : Option Nat) (callocOk : Bool)
  | deq (queue : Nat)
  | destroy (queue : Nat)
  /-- A turn of the loop of the innermost `ls_queue_destroy`. -/
  | turn
  /-- The cleaner returns to the innermost `ls_queue_destroy`. -/
  | cleaned

namespace QueueWorld

def lsQueueCreate (cleaner : Option Nat) (callocOk : Bool) (world : QueueWorld) :
    Option Nat × QueueWorld :=
  if callocOk then
    (some world.queues.fresh, { world with queues := world.queues.alloc ⟨none, none, cleaner⟩ })
  else (none, world)

def lsQueueEnq (queue : Nat) (value : Option Nat) (callocOk : Bool) (world : QueueWorld) :
    Exec (Bool × QueueWorld) :=
  match value with
  | none => .error .assertFailed
  | some value =>
      if callocOk then do
        let node := world.nodes.fresh
        let nodes := world.nodes.alloc ⟨value, none⟩
        let record ← world.queues.read queue
        match record.tail with
        | some tail =>
            let nodes ← nodes.modify tail fun last => { last with next := some node }
            let queues ← world.queues.modify queue fun _ => { record with tail := some node }
            .ok (true, { world with
              queues, nodes, trace := world.trace ++ [.enqueued queue value] })
        | none =>
            let queues ← world.queues.modify queue fun _ =>
              { record with head := some node, tail := some node }
            .ok (true, { world with
              queues, nodes, trace := world.trace ++ [.enqueued queue value] })
      else .ok (false, world)

def deq (queue : Nat) (world : QueueWorld) : Exec (Option Nat × QueueWorld) := do
  let record ← world.queues.read queue
  match record.head with
  | none => .ok (none, world)
  | some node =>
      let first ← world.nodes.read node
      let queues ← world.queues.modify queue fun _ =>
        { record with
          head := first.next
          tail := if first.next.isNone then none else record.tail }
      .ok (some node, { world with queues })

def lsQueueDeq (queue : Nat) (world : QueueWorld) : Exec (Option Nat × QueueWorld) := do
  let (node, world) ← world.deq queue
  match node with
  | none => .ok (none, world)
  | some node =>
      let cell ← world.nodes.read node
      let nodes ← world.nodes.free node
      .ok (some cell.data, { world with
        nodes, trace := world.trace ++ [.dequeued queue cell.data] })

def lsQueueDestroy (queue : Nat) (world : QueueWorld) : QueueWorld :=
  { world with frames := ⟨queue, none⟩ :: world.frames }

/-- A turn of the loop of `ls_queue_destroy`, up to the call of the cleaner; after the last node
the queue is freed and the function returns. -/
def destroyTurn (queue : Nat) (callers : List QueueFrame) (world : QueueWorld) :
    Exec QueueWorld := do
  let (node, world) ← world.deq queue
  match node with
  | none =>
      let queues ← world.queues.free queue
      .ok { world with queues, frames := callers }
  | some node =>
      let record ← world.queues.read queue
      let cell ← world.nodes.read node
      match record.cleaner with
      | some cleaner =>
          .ok { world with
            frames := ⟨queue, some node⟩ :: callers
            trace := world.trace ++ [.cleaned queue cleaner cell.data] }
      | none =>
          let nodes ← world.nodes.free node
          .ok { world with nodes, trace := world.trace ++ [.dropped queue cell.data] }

/-- The end of a turn: the node is freed once its value was cleaned. -/
def cleanerReturns (queue node : Nat) (callers : List QueueFrame) (world : QueueWorld) :
    Exec QueueWorld := do
  let nodes ← world.nodes.free node
  .ok { world with nodes, frames := ⟨queue, none⟩ :: callers }

def step (world : QueueWorld) : QueueOp → Exec QueueWorld
  | .create cleaner callocOk => .ok (world.lsQueueCreate cleaner callocOk).2
  | .enq queue value callocOk => (world.lsQueueEnq queue value callocOk).map Prod.snd
  | .deq queue => (world.lsQueueDeq queue).map Prod.snd
  | .destroy queue => .ok (world.lsQueueDestroy queue)
  | .turn =>
      match world.frames with
      | ⟨queue, none⟩ :: callers => world.destroyTurn queue callers
      | _ => .ok world
  | .cleaned =>
      match world.frames with
      | ⟨queue, some node⟩ :: callers => world.cleanerReturns queue node callers
      | _ => .ok world

/-- The user runs, perhaps as a cleaner. -/
def Awake (world : QueueWorld) : Prop := ∀ frame ∈ world.frames.head?, frame.node.isSome = true

/-- A user calls no function on a queue that was destroyed, destroys none twice, enqueues values
only, and runs when no `ls_queue_destroy` does. -/
def Enabled (world : QueueWorld) : QueueOp → Prop
  | .create _ _ => world.Awake
  | .enq queue value _ => world.Awake ∧ world.queues.Live queue ∧ value.isSome = true
  | .deq queue => world.Awake ∧ world.queues.Live queue
  | .destroy queue =>
      world.Awake ∧ world.queues.Live queue ∧ ∀ frame ∈ world.frames, frame.queue ≠ queue
  | .turn => ¬ world.Awake
  | .cleaned => world.Awake ∧ world.frames ≠ []

instance (queues : Memory LsQueue) (queue : Nat) : Decidable (queues.Live queue) :=
  decidable_of_iff ((queues.cells queue).isSome = true) Option.isSome_iff_exists

instance (world : QueueWorld) : Decidable world.Awake :=
  inferInstanceAs (Decidable (∀ frame ∈ world.frames.head?, frame.node.isSome = true))

instance (world : QueueWorld) : (op : QueueOp) → Decidable (world.Enabled op)
  | .create _ _ => inferInstanceAs (Decidable world.Awake)
  | .enq queue value _ => inferInstanceAs
      (Decidable (world.Awake ∧ world.queues.Live queue ∧ value.isSome = true))
  | .deq queue => inferInstanceAs (Decidable (world.Awake ∧ world.queues.Live queue))
  | .destroy queue => inferInstanceAs (Decidable
      (world.Awake ∧ world.queues.Live queue ∧ ∀ frame ∈ world.frames, frame.queue ≠ queue))
  | .turn => inferInstanceAs (Decidable (¬ world.Awake))
  | .cleaned => inferInstanceAs (Decidable (world.Awake ∧ world.frames ≠ []))

def system : System QueueWorld QueueOp := ⟨Enabled, step⟩

def new : QueueWorld := ⟨.empty, .empty, [], []⟩

end QueueWorld

end SpudLib
