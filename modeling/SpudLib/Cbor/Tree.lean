import Mathlib.Algebra.Group.Nat.Defs
import Mathlib.Data.List.Basic

/-!
# CBOR trees

The data items of CBOR that a library for it hands out, how long their shortest
encoding is, and what is relied on of a library that reads and writes them.  A
map is the list of its keys and values in turn.
-/

namespace SpudLib

/-- A data item; `negative n` stands for `-1 - n`. -/
inductive Cbor where
  | unsigned (value : Nat)
  | negative (value : Nat)
  | bytes (content : List UInt8)
  | text (content : List UInt8)
  | array (items : List Cbor)
  | map (children : List Cbor)
  | tag (number : Nat) (item : Cbor)

namespace Cbor

def headSize (argument : Nat) : Nat :=
  if argument < 24 then 1
  else if argument < 2 ^ 8 then 2
  else if argument < 2 ^ 16 then 3
  else if argument < 2 ^ 32 then 5
  else 9

mutual

def size : Cbor → Nat
  | .unsigned value | .negative value => headSize value
  | .bytes content | .text content => headSize content.length + content.length
  | .array items => headSize items.length + sizeAll items
  | .map children => headSize (children.length / 2) + sizeAll children
  | .tag number item => headSize number + item.size

def sizeAll : List Cbor → Nat
  | [] => 0
  | item :: rest => item.size + sizeAll rest

end

mutual

/-- Every number fits the eight bytes of a head, and every key of a map has a value. -/
def Representable : Cbor → Prop
  | .unsigned value | .negative value => value < 2 ^ 64
  | .bytes content | .text content => content.length < 2 ^ 64
  | .array items => items.length < 2 ^ 64 ∧ RepresentableAll items
  | .map children =>
      children.length % 2 = 0 ∧ children.length / 2 < 2 ^ 64 ∧ RepresentableAll children
  | .tag number item => number < 2 ^ 64 ∧ item.Representable

def RepresentableAll : List Cbor → Prop
  | [] => True
  | item :: rest => item.Representable ∧ RepresentableAll rest

end

theorem RepresentableAll.member {items : List Cbor} (all : RepresentableAll items) {item : Cbor}
    (member : item ∈ items) : item.Representable := by
  induction items with
  | nil => cases member
  | cons head rest inductionHypothesis =>
    rcases List.mem_cons.mp member with rfl | later
    · exact all.1
    · exact inductionHypothesis all.2 later

/-- The value that a list of keys and values binds to an unsigned key. -/
def bound (key : Nat) : List Cbor → Option Cbor
  | .unsigned number :: value :: rest => if number = key then some value else bound key rest
  | _ :: _ :: rest => bound key rest
  | _ => none

def lookup (tree : Cbor) (key : Nat) : Option Cbor :=
  match tree with
  | .map children => bound key children
  | _ => none

end Cbor

/-- A library for CBOR: the encoding of a tree, writing it into a buffer of some
size, decoding, where an error is a number, and what is made when a map is built
and no memory is refused. -/
structure CborLibrary where
  encoding : Cbor → List UInt8
  encoderWrite : Nat → Cbor → Option (List UInt8)
  decode : List UInt8 → Except Nat Cbor
  mapCreate : Cbor
  dataCreate : List UInt8 → Cbor
  stringCreate : List UInt8 → Cbor
  mapputInt : Cbor → Nat → Cbor → Cbor
  mapputString : Cbor → List UInt8 → Cbor → Cbor

/-- What is relied on: encodings have minimal length, writing fails exactly when
the encoding does not fit, decoding undoes encoding but never accepts a part, and
what is put into a map is its last entry. -/
structure CborLibrary.Lawful (library : CborLibrary) : Prop where
  minimal : ∀ tree : Cbor, tree.Representable → (library.encoding tree).length = tree.size
  write : ∀ room, ∀ tree : Cbor, tree.Representable → library.encoderWrite room tree =
    if (library.encoding tree).length ≤ room then some (library.encoding tree) else none
  complete : ∀ tree : Cbor, tree.Representable → library.decode (library.encoding tree) = .ok tree
  partly : ∀ tree : Cbor, tree.Representable → ∀ part rest, library.encoding tree = part ++ rest →
    rest ≠ [] → ∃ reason, library.decode part = .error reason
  mapCreate : library.mapCreate = .map []
  dataCreate : ∀ content, library.dataCreate content = .bytes content
  stringCreate : ∀ content, library.stringCreate content = .text content
  mapputInt : ∀ entries key value,
    library.mapputInt (.map entries) key value = .map (entries ++ [.unsigned key, value])
  mapputString : ∀ entries key value,
    library.mapputString (.map entries) key value = .map (entries ++ [.text key, value])

end SpudLib
