import SpudLib.Foundation.Fault
import Mathlib.Data.List.FinRange
import Mathlib.Logic.Function.Basic

/-!
# The hash table

The data and the functions of `src/ls_htable.c`.  A chain of nodes is a list,
and the bucket array is a function on its indices, so that the array always has
`bcount` entries.  Nodes are told apart by the number that stands for their
address.  An `unsigned int` is a natural number below `2 ^ 32`, reduced where
the code could wrap; `asInt` is its conversion to `int`.

A function returns the calls of cleaners it makes, in order.
-/

namespace SpudLib

/-- The conversion of an `unsigned int` to `int`. -/
def asInt (value : Nat) : Int := if value < 2 ^ 31 then value else value - 2 ^ 32

/-- `ls_hnode` without its link. -/
structure HNode (Key Value : Type) where
  node : Nat
  key : Key
  value : Option Value
  bucket : Int
  khash : UInt32
  cleaner : Option Nat

/-- A node without its place in the table. -/
structure Slot (Key Value : Type) where
  node : Nat
  key : Key
  value : Option Value
  cleaner : Option Nat

def HNode.slot {Key Value : Type} (p : HNode Key Value) : Slot Key Value :=
  ⟨p.node, p.key, p.value, p.cleaner⟩

/-- `cleaner(replace, destroy_key, key, data)`. -/
structure CleanerCall (Key Value : Type) where
  cleaner : Nat
  replace : Bool
  destroyKey : Bool
  key : Key
  value : Option Value
  deriving DecidableEq

/-- `ls_htable`; `fresh` is the address the next node gets. -/
structure HTable (Key Value : Type) where
  hash : Key → UInt32
  cmp : Key → Key → Int
  count : Nat
  bcount : Nat
  positive : 0 < bcount
  resizeCount : Nat
  buckets : Fin bcount → List (HNode Key Value)
  fresh : Nat

namespace HTable

variable {Key Value : Type}

def bucketFromKhash (tbl : HTable Key Value) (khash : UInt32) : Fin tbl.bcount :=
  ⟨khash.toNat % tbl.bcount, Nat.mod_lt _ tbl.positive⟩

def chainAt (tbl : HTable Key Value) (bucket : Int) : Exec (List (HNode Key Value)) :=
  if inside : 0 ≤ bucket ∧ bucket.toNat < tbl.bcount then .ok (tbl.buckets ⟨_, inside.2⟩)
  else .error .outOfBounds

def nodes (tbl : HTable Key Value) : List (HNode Key Value) :=
  (List.finRange tbl.bcount).flatMap tbl.buckets

def setNode (tbl : HTable Key Value) (node : Nat) (change : HNode Key Value → HNode Key Value) :
    HTable Key Value :=
  { tbl with
    buckets := fun bucket => (tbl.buckets bucket).map fun p =>
      if p.node = node then change p else p }

/-- `_find_node`; a negative bucket asks for the hash to be computed. -/
def findNode (tbl : HTable Key Value) (key : Key) (bucket : Int) (khash : UInt32) :
    Exec (Option (HNode Key Value)) := do
  let khash := if bucket < 0 then tbl.hash key else khash
  let bucket := if bucket < 0 then asInt (tbl.bucketFromKhash khash) else bucket
  let chain ← tbl.chainAt bucket
  pure (chain.find? fun p => khash = p.khash && tbl.cmp key p.key = 0)

/-- The body of the inner loop of `_resize_hashtable`: relink one node. -/
def relinkNode {bcount : Nat} (positive : 0 < bcount)
    (buckets : Fin bcount → List (HNode Key Value)) (node : HNode Key Value) :
    Fin bcount → List (HNode Key Value) :=
  let bucket : Fin bcount := ⟨node.khash.toNat % bcount, Nat.mod_lt _ positive⟩
  Function.update buckets bucket ({ node with bucket := asInt bucket } :: buckets bucket)

/-- `_resize_hashtable`; `calloc` answers the allocation of an array of that many buckets. -/
def resizeHashtable (tbl : HTable Key Value) (buckets : Nat) (positive : 0 < buckets)
    (calloc : Nat → Bool) : Bool × HTable Key Value :=
  if !calloc buckets then (false, tbl)
  else
    (true, { tbl with
      bcount := buckets
      positive := positive
      resizeCount := (tbl.resizeCount + 1) % 2 ^ 32
      buckets := tbl.nodes.foldl (relinkNode positive) fun _ => [] })

def clean (node : HNode Key Value) (replace destroyKey : Bool) : List (CleanerCall Key Value) :=
  match node.cleaner with
  | none => []
  | some cleaner => [⟨cleaner, replace, destroyKey, node.key, node.value⟩]

def lsHnodePutValue (tbl : HTable Key Value) (node : Nat) (value : Option Value)
    (cleaner : Option Nat) : Exec (List (CleanerCall Key Value) × HTable Key Value) :=
  match tbl.nodes.find? (fun p => p.node = node) with
  | none => .error .useAfterFree
  | some old =>
      pure (if old.value.isSome then clean old true false else [],
        tbl.setNode node fun p => { p with value := value, cleaner := cleaner })

def unchain (node : Nat) : List (HNode Key Value) → Exec (List (HNode Key Value))
  | [] => .error .nullDereference
  | p :: rest => if p.node = node then pure rest else do
      let rest ← unchain node rest
      pure (p :: rest)

def lsHtableRemoveNode (tbl : HTable Key Value) (node : Nat) :
    Exec (List (CleanerCall Key Value) × HTable Key Value) :=
  match tbl.nodes.find? (fun p => p.node = node) with
  | none => .error .useAfterFree
  | some found =>
      if inside : 0 ≤ found.bucket ∧ found.bucket.toNat < tbl.bcount then do
        let bucket : Fin tbl.bcount := ⟨_, inside.2⟩
        let chain ← unchain node (tbl.buckets bucket)
        pure (clean found false true,
          { tbl with
            buckets := Function.update tbl.buckets bucket chain
            count := (tbl.count + (2 ^ 32 - 1)) % 2 ^ 32 })
      else .error .outOfBounds

/-- The bucket count for a request: `HASH_NUM_BUCKETS` unless it is positive. -/
def requested (buckets : Int) : Nat := if buckets ≤ 0 then 509 else buckets.toNat

theorem requested_pos (buckets : Int) : 0 < requested buckets := by
  unfold requested
  split <;> omega

/-- `ls_htable_create`; `granted` answers the allocation of the table itself. -/
def lsHtableCreate (buckets : Int) (hash : Key → UInt32) (cmp : Key → Key → Int) (granted : Bool)
    (calloc : Nat → Bool) : Option (HTable Key Value) :=
  if granted && calloc (requested buckets) then
    some ⟨hash, cmp, 0, requested buckets, requested_pos buckets, 0, fun _ => [], 0⟩
  else none

def lsHtableDestroy (tbl : HTable Key Value) : List (CleanerCall Key Value) :=
  tbl.nodes.flatMap fun node => clean node false true

def lsHtableGetCount (tbl : HTable Key Value) : Nat := tbl.count

def lsHtableGetNode (tbl : HTable Key Value) (key : Key) : Exec (Option (HNode Key Value)) :=
  tbl.findNode key (-1) 0

def lsHtableGet (tbl : HTable Key Value) (key : Key) : Exec (Option Value) := do
  let node ← tbl.findNode key (-1) 0
  pure (node.bind HNode.value)

def grown (bcount : Nat) : Nat := (bcount * 2 % 2 ^ 32 + 1) % 2 ^ 32

theorem grown_pos (bcount : Nat) : 0 < grown bcount := by
  unfold grown
  omega

/-- The end of `ls_htable_put`: a new node, first in its chain. -/
def putNew (tbl : HTable Key Value) (key : Key) (value : Option Value) (cleaner : Option Nat)
    (khash : UInt32) (malloc : Bool) : Bool × HTable Key Value :=
  if !malloc then (false, tbl)
  else
    let bucket := tbl.bucketFromKhash khash
    let node : HNode Key Value := ⟨tbl.fresh, key, value, asInt bucket, khash, cleaner⟩
    (true, { tbl with
      buckets := Function.update tbl.buckets bucket (node :: tbl.buckets bucket)
      count := (tbl.count + 1) % 2 ^ 32
      fresh := tbl.fresh + 1 })

/-- `ls_htable_put`; keys are compared as pointers to tell the cleaner whether
the old one is still used. -/
def lsHtablePut [DecidableEq Key] (tbl : HTable Key Value) (key : Key) (value : Option Value)
    (cleaner : Option Nat) (calloc : Nat → Bool) (malloc : Bool) :
    Exec (Bool × List (CleanerCall Key Value) × HTable Key Value) := do
  let khash := tbl.hash key
  let found ← tbl.findNode key (asInt (tbl.bucketFromKhash khash)) khash
  match found with
  | some node =>
      pure (true, clean node true (decide (node.key ≠ key)),
        tbl.setNode node.node fun p => { p with value := value, key := key, cleaner := cleaner })
  | none =>
      if (tbl.count + 1) % 2 ^ 32 > tbl.bcount * 3 % 2 ^ 32 / 4 then
        match tbl.resizeHashtable (grown tbl.bcount) (grown_pos _) calloc with
        | (false, tbl) => pure (false, [], tbl)
        | (true, tbl) =>
            let put := tbl.putNew key value cleaner khash malloc
            pure (put.1, [], put.2)
      else
        let put := tbl.putNew key value cleaner khash malloc
        pure (put.1, [], put.2)

def lsHtableRemove (tbl : HTable Key Value) (key : Key) :
    Exec (List (CleanerCall Key Value) × HTable Key Value) := do
  let found ← tbl.findNode key (-1) 0
  match found with
  | none => pure ([], tbl)
  | some node => tbl.lsHtableRemoveNode node.node

def lsHtableClear (tbl : HTable Key Value) : List (CleanerCall Key Value) × HTable Key Value :=
  (tbl.nodes.flatMap fun node => clean node false true,
    { tbl with buckets := fun _ => [], count := 0 })

end HTable

end SpudLib
