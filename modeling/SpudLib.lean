import SpudLib.Timer.Expiry
import SpudLib.Foundation.LinkedList
import SpudLib.Eventing.Bindings
import SpudLib.Foundation.System
import SpudLib.Eventing.Operations
import SpudLib.Eventing.Representation
import SpudLib.Eventing.Progress
import SpudLib.Eventing.Orderly
import SpudLib.Eventing.Steps
import SpudLib.Eventing.Invariant
import SpudLib.Eventing.Fifo
import SpudLib.Eventing.Moments
import SpudLib.HashTable.Table
import SpudLib.HashTable.WellFormed
import SpudLib.HashTable.FiniteMap
import SpudLib.HashTable.Runs
import SpudLib.Cbor.Codec
import SpudLib.Foundation.Procedure
import SpudLib.Protocol.Spud
import SpudLib.Tube.Calls
import SpudLib.Tube.Ownership
import SpudLib.Tube.Sequence
import SpudLib.Tube.Delivery
import SpudLib.Network.Handshake
import SpudLib.Network.Reopening
import SpudLib.Network.Settling
import SpudLib.Tube.Spoofing
import SpudLib.Network.Conversation
import SpudLib.Network.HalfOpen
import SpudLib.Signal.SelfPipe
import SpudLib.Tube.Mirroring
import SpudLib.HashTable.Accounts
import SpudLib.Pool.Pool
import SpudLib.HashTable.Traversal
import SpudLib.Pool.Allocation
import SpudLib.Pool.Teardown
import SpudLib.Tube.Headers
import SpudLib.Eventing.BindingLists
import SpudLib.Eventing.Destruction
import SpudLib.Timer.Cancellation
import SpudLib.Tube.Opening
import SpudLib.Tube.Receiving
import SpudLib.Tube.Repetition
import SpudLib.Eventing.Awaiting
import SpudLib.Tube.Brief
import SpudLib.Tube.Suspension
import SpudLib.Tube.Reentrancy
import SpudLib.HashTable.Load
import SpudLib.Network.Sockaddr
import SpudLib.Pool.Arrays
import SpudLib.Pool.CleanerOrder
import SpudLib.Eventing.EventNames
import SpudLib.Tube.Descriptors
import SpudLib.Signal.Lifetimes
import SpudLib.Timer.Timeouts
import SpudLib.Eventing.Contexts
import SpudLib.Tube.Stopping
import SpudLib.Network.Delivered
import SpudLib.Network.Integrity
import SpudLib.Timer.HeapOperations
import SpudLib.Timer.Blocks
import SpudLib.Queue.Runs
import SpudLib.Timer.Ownership
import SpudLib.Eventing.Leaks
import SpudLib.Eventing.Draining
import SpudLib.Tube.Routes
import SpudLib.Tube.Foreach
import SpudLib.Foundation.Frames
import SpudLib.Tube.Control
import SpudLib.Tube.PathDeclarations
