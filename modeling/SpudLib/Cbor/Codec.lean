import SpudLib.Cbor.Tree
import Mathlib.Data.Nat.ModEq
import Mathlib.Tactic.Ring

/-!
# A codec for CBOR trees

The encoding of RFC 7049 with shortest heads and definite lengths, a decoder,
and the proof that the two form a lawful library.
-/

namespace SpudLib

/-- The last `width` bytes of a number, the most significant first. -/
def bigEndian : Nat → Nat → List UInt8
  | 0, _ => []
  | width + 1, number => UInt8.ofNat (number / 256 ^ width) :: bigEndian width number

def ofBigEndian : List UInt8 → Nat
  | [] => 0
  | byte :: rest => byte.toNat * 256 ^ rest.length + ofBigEndian rest

@[simp] theorem length_bigEndian (width number : Nat) :
    (bigEndian width number).length = width := by
  induction width with
  | zero => rfl
  | succ width inductionHypothesis => simp [bigEndian, inductionHypothesis]

theorem ofBigEndian_bigEndian (width number : Nat) :
    ofBigEndian (bigEndian width number) = number % 256 ^ width := by
  induction width with
  | zero => simp [bigEndian, ofBigEndian, Nat.mod_one]
  | succ width inductionHypothesis =>
    have byte : (UInt8.ofNat (number / 256 ^ width)).toNat = number / 256 ^ width % 256 := by simp
    rw [bigEndian, ofBigEndian, inductionHypothesis, length_bigEndian, byte, Nat.mod_pow_succ]
    ring

abbrev Reader (Alpha : Type) : Type := List UInt8 → Option (Alpha × List UInt8)

namespace Reader

variable {Alpha : Type}

/-- What the first reader reads, the second reads too, with anything behind it. -/
def Extends (first second : Reader Alpha) : Prop :=
  ∀ input value rest, first input = some (value, rest) →
    ∀ extra, second (input ++ extra) = some (value, rest ++ extra)

def take (count : Nat) : Reader (List UInt8) := fun input =>
  if count ≤ input.length then some (input.take count, input.drop count) else none

theorem take_append {content : List UInt8} (rest : List UInt8) :
    take content.length (content ++ rest) = some (content, rest) := by
  simp [take]

theorem take_extends (count : Nat) : (take count).Extends (take count) := by
  intro input value rest read extra
  unfold take at read ⊢
  split at read
  next inside =>
    cases read
    rw [if_pos (by rw [List.length_append]; omega), List.take_append_of_le_length inside,
      List.drop_append_of_le_length inside]
  next => cases read

def many (read : Reader Alpha) : Nat → Reader (List Alpha)
  | 0, input => some ([], input)
  | count + 1, input => do
      let (value, rest) ← read input
      let (values, rest) ← many read count rest
      some (value :: values, rest)

theorem many_extends {first second : Reader Alpha} (extension : first.Extends second)
    (count : Nat) :
    (many first count).Extends (many second count) := by
  induction count with
  | zero =>
    intro input value rest read extra
    cases read
    rfl
  | succ count inductionHypothesis =>
    intro input values rest read extra
    simp only [many, Option.bind_eq_bind, Option.bind_eq_some_iff, Prod.exists,
      Option.some.injEq, Prod.mk.injEq] at read
    obtain ⟨value, middle, one, others, last, more, rfl, rfl⟩ := read
    simp [many, extension input value middle one extra, inductionHypothesis _ _ _ more extra]

end Reader

namespace Cbor

/-- The head of a data item: its major type and its argument. -/
def head (major argument : Nat) : List UInt8 :=
  if argument < 24 then [UInt8.ofNat (major * 32 + argument)]
  else if argument < 2 ^ 8 then UInt8.ofNat (major * 32 + 24) :: bigEndian 1 argument
  else if argument < 2 ^ 16 then UInt8.ofNat (major * 32 + 25) :: bigEndian 2 argument
  else if argument < 2 ^ 32 then UInt8.ofNat (major * 32 + 26) :: bigEndian 4 argument
  else UInt8.ofNat (major * 32 + 27) :: bigEndian 8 argument

mutual

def encode : Cbor → List UInt8
  | .unsigned value => head 0 value
  | .negative value => head 1 value
  | .bytes content => head 2 content.length ++ content
  | .text content => head 3 content.length ++ content
  | .array items => head 4 items.length ++ encodeAll items
  | .map children => head 5 (children.length / 2) ++ encodeAll children
  | .tag number item => head 6 number ++ item.encode

def encodeAll : List Cbor → List UInt8
  | [] => []
  | item :: rest => item.encode ++ encodeAll rest

end

def argumentWidth (info : Nat) : Option Nat :=
  if info = 24 then some 1
  else if info = 25 then some 2
  else if info = 26 then some 4
  else if info = 27 then some 8
  else none

def readHead : Reader (Nat × Nat)
  | [] => none
  | byte :: rest =>
      if byte.toNat % 32 < 24 then some ((byte.toNat / 32, byte.toNat % 32), rest)
      else do
        let width ← argumentWidth (byte.toNat % 32)
        let (argument, rest) ← Reader.take width rest
        some ((byte.toNat / 32, ofBigEndian argument), rest)

/-- Read one item, with items nested no deeper than the fuel. -/
def read : Nat → Reader Cbor
  | 0, _ => none
  | fuel + 1, input => do
      let ((major, argument), rest) ← readHead input
      match major with
      | 0 => some (.unsigned argument, rest)
      | 1 => some (.negative argument, rest)
      | 2 => (Reader.take argument rest).map fun (content, rest) => (.bytes content, rest)
      | 3 => (Reader.take argument rest).map fun (content, rest) => (.text content, rest)
      | 4 => (Reader.many (read fuel) argument rest).map fun (items, rest) => (.array items, rest)
      | 5 =>
          (Reader.many (read fuel) (2 * argument) rest).map fun (items, rest) => (.map items, rest)
      | 6 => (read fuel rest).map fun (item, rest) => (.tag argument item, rest)
      | _ => none

def decode (input : List UInt8) : Except Nat Cbor :=
  match read input.length input with
  | some (tree, []) => .ok tree
  | _ => .error 1

section Heads

variable {major argument : Nat}

theorem toNat_byte {value : Nat} (small : value < 256) : (UInt8.ofNat value).toNat = value := by
  rw [UInt8.toNat_ofNat', Nat.mod_eq_of_lt small]

theorem length_head (major argument : Nat) : (head major argument).length = headSize argument := by
  unfold head headSize
  split_ifs <;> simp

theorem readHead_wide {info width : Nat} (small : major < 8)
    (wide : argumentWidth info = some width) (infoSmall : info < 32) (large : 24 ≤ info)
    (fits : argument < 256 ^ width)
    (rest : List UInt8) :
    readHead (UInt8.ofNat (major * 32 + info) :: (bigEndian width argument ++ rest)) =
      some ((major, argument), rest) := by
  have byte : (UInt8.ofNat (major * 32 + info)).toNat = major * 32 + info := toNat_byte (by omega)
  have taken : Reader.take width (bigEndian width argument ++ rest) =
      some (bigEndian width argument, rest) := by
    conv_lhs => rw [← length_bigEndian width argument]
    simp only [length_bigEndian, Reader.take, List.length_append]
    simp
  have low : (major * 32 + info) % 32 = info := by omega
  have high : (major * 32 + info) / 32 = major := by omega
  rw [readHead, byte, low, high, if_neg (by omega), wide]
  simp [taken, ofBigEndian_bigEndian, Nat.mod_eq_of_lt fits]

theorem readHead_head (small : major < 8) (fits : argument < 2 ^ 64) (rest : List UInt8) :
    readHead (head major argument ++ rest) = some ((major, argument), rest) := by
  unfold head
  split_ifs with tiny one two four
  · have byte : (UInt8.ofNat (major * 32 + argument)).toNat = major * 32 + argument :=
      toNat_byte (by omega)
    rw [List.cons_append, readHead, byte, if_pos (by omega), List.nil_append]
    rw [show (major * 32 + argument) / 32 = major by omega,
      show (major * 32 + argument) % 32 = argument by omega]
  · exact readHead_wide small rfl (by omega) (by omega) (by omega) rest
  · exact readHead_wide small rfl (by omega) (by omega) (by omega) rest
  · exact readHead_wide small rfl (by omega) (by omega) (by omega) rest
  · exact readHead_wide small rfl (by omega) (by omega) (by omega) rest

theorem readHead_extends : readHead.Extends readHead := by
  intro input value rest read extra
  cases input with
  | nil => cases read
  | cons byte input =>
    rw [readHead] at read
    rw [List.cons_append, readHead]
    by_cases tiny : byte.toNat % 32 < 24
    · rw [if_pos tiny] at read
      cases read
      rw [if_pos tiny]
    · rw [if_neg tiny] at read
      simp only [Option.bind_eq_bind, Option.bind_eq_some_iff, Prod.exists, Option.some.injEq,
        Prod.mk.injEq] at read
      obtain ⟨width, known, content, last, taken, rfl, rfl⟩ := read
      simp [tiny, known, Reader.take_extends width _ _ _ taken extra]

end Heads

/-- More fuel and more input behind the item change nothing. -/
theorem read_extends {fuel more : Nat} (enough : fuel ≤ more) :
    (read fuel).Extends (read more) := by
  induction fuel generalizing more with
  | zero =>
    intro input tree rest parsed
    cases parsed
  | succ fuel inductionHypothesis =>
    intro input tree rest parsed extra
    obtain ⟨more, rfl⟩ : ∃ fewer, more = fewer + 1 := ⟨more - 1, by omega⟩
    have nested : (read fuel).Extends (read more) := inductionHypothesis (by omega)
    simp only [read, Option.bind_eq_bind, Option.bind_eq_some_iff, Prod.exists] at parsed
    obtain ⟨major, argument, behind, headed, body⟩ := parsed
    simp only [read, Option.bind_eq_bind, readHead_extends _ _ _ headed extra, Option.bind_some]
    split at body
    · cases body
      rfl
    · cases body
      rfl
    · obtain ⟨⟨content, last⟩, taken, same⟩ := Option.map_eq_some_iff.mp body
      cases same
      simp [Reader.take_extends _ _ _ _ taken extra]
    · obtain ⟨⟨content, last⟩, taken, same⟩ := Option.map_eq_some_iff.mp body
      cases same
      simp [Reader.take_extends _ _ _ _ taken extra]
    · obtain ⟨⟨items, last⟩, several, same⟩ := Option.map_eq_some_iff.mp body
      cases same
      simp [Reader.many_extends nested _ _ _ _ several extra]
    · obtain ⟨⟨items, last⟩, several, same⟩ := Option.map_eq_some_iff.mp body
      cases same
      simp [Reader.many_extends nested _ _ _ _ several extra]
    · obtain ⟨⟨item, last⟩, one, same⟩ := Option.map_eq_some_iff.mp body
      cases same
      simp [nested _ _ _ one extra]
    · cases body

theorem headSize_pos (argument : Nat) : 0 < headSize argument := by
  unfold headSize
  split_ifs <;> omega

theorem length_encodeAll_le {items : List Cbor} {item : Cbor} (member : item ∈ items) :
    item.encode.length ≤ (encodeAll items).length := by
  induction items with
  | nil => cases member
  | cons first others inductionHypothesis =>
    rw [encodeAll, List.length_append]
    rcases List.mem_cons.mp member with rfl | later
    · omega
    · have := inductionHypothesis later
      omega

theorem many_encodeAll {reader : Reader Cbor} {items : List Cbor}
    (each : ∀ item ∈ items, ∀ rest, reader (item.encode ++ rest) = some (item, rest))
    (rest : List UInt8) :
    Reader.many reader items.length (encodeAll items ++ rest) = some (items, rest) := by
  induction items with
  | nil => rfl
  | cons first others inductionHypothesis =>
    have one := each first List.mem_cons_self (encodeAll others ++ rest)
    have later := inductionHypothesis fun item member =>
      each item (List.mem_cons_of_mem _ member)
    simp [Reader.many, encodeAll, List.append_assoc, one, later]

/-- An encoded item is read back, with fuel for each of its bytes. -/
theorem read_encode (fuel : Nat) (tree : Cbor) (representable : tree.Representable)
    (enough : tree.encode.length ≤ fuel) (rest : List UInt8) :
    read fuel (tree.encode ++ rest) = some (tree, rest) := by
  induction fuel generalizing tree rest with
  | zero =>
    have positive : 0 < tree.encode.length := by
      cases tree <;> simp [encode, length_head, headSize_pos]
    omega
  | succ fuel inductionHypothesis =>
    have nested : ∀ items argument major, RepresentableAll items →
        (head major argument ++ encodeAll items).length ≤ fuel + 1 →
        ∀ item ∈ items, ∀ rest, read fuel (item.encode ++ rest) = some (item, rest) := by
      intro items argument major all bound item member rest
      refine inductionHypothesis item (all.member member) ?_ rest
      have inside := length_encodeAll_le member
      have positive := headSize_pos argument
      rw [List.length_append, length_head] at bound
      omega
    cases tree with
    | unsigned value => simp [read, encode, @readHead_head 0 _ (by omega) representable _]
    | negative value => simp [read, encode, @readHead_head 1 _ (by omega) representable _]
    | bytes content =>
      simp [read, encode, List.append_assoc, @readHead_head 2 _ (by omega) representable _,
        Reader.take_append]
    | text content =>
      simp [read, encode, List.append_assoc, @readHead_head 3 _ (by omega) representable _,
        Reader.take_append]
    | array items =>
      have each := nested items _ _ representable.2 enough
      simp [read, encode, List.append_assoc, @readHead_head 4 _ (by omega) representable.1 _,
        many_encodeAll each]
    | map children =>
      obtain ⟨even, small, all⟩ := representable
      have each := nested children _ _ all enough
      have count : 2 * (children.length / 2) = children.length := by omega
      simp [read, encode, List.append_assoc, @readHead_head 5 _ (by omega) small _, count,
        many_encodeAll each]
    | tag number item =>
      have shorter : item.encode.length ≤ fuel := by
        have positive := headSize_pos number
        rw [encode, List.length_append, length_head] at enough
        omega
      simp [read, encode, List.append_assoc, @readHead_head 6 _ (by omega) representable.1 _,
        inductionHypothesis item representable.2 shorter]

mutual

theorem length_encode (tree : Cbor) : tree.encode.length = tree.size := by
  cases tree with
  | unsigned value => rw [encode, length_head, size]
  | negative value => rw [encode, length_head, size]
  | bytes content => rw [encode, List.length_append, length_head, size]
  | text content => rw [encode, List.length_append, length_head, size]
  | array items => rw [encode, List.length_append, length_head, size, length_encodeAll items]
  | map children => rw [encode, List.length_append, length_head, size, length_encodeAll children]
  | tag number item => rw [encode, List.length_append, length_head, size, length_encode item]

theorem length_encodeAll (items : List Cbor) : (encodeAll items).length = sizeAll items := by
  cases items with
  | nil => rfl
  | cons item rest =>
    rw [encodeAll, List.length_append, sizeAll, length_encode item, length_encodeAll rest]

end

theorem decode_encode {tree : Cbor} (representable : tree.Representable) :
    decode tree.encode = .ok tree := by
  have parsed := read_encode tree.encode.length tree representable (Nat.le_refl _) []
  rw [List.append_nil] at parsed
  rw [decode, parsed]

theorem decode_part {tree : Cbor} (representable : tree.Representable) {part rest : List UInt8}
    (split : tree.encode = part ++ rest) (proper : rest ≠ []) : decode part = .error 1 := by
  unfold decode
  split
  next found parsed =>
    -- then the whole encoding would be read with something left over
    have whole := read_encode tree.encode.length tree representable (Nat.le_refl _) []
    have shorter : part.length ≤ tree.encode.length := by
      rw [split, List.length_append]
      omega
    have again := read_extends shorter _ _ _ parsed rest
    rw [← split] at again
    rw [List.append_nil, again, List.nil_append] at whole
    cases whole
    exact absurd rfl proper
  next => rfl

def put (tree key value : Cbor) : Cbor :=
  match tree with
  | .map entries => .map (entries ++ [key, value])
  | other => other

end Cbor

def minimalCbor : CborLibrary where
  encoding := Cbor.encode
  encoderWrite room tree := if tree.encode.length ≤ room then some tree.encode else none
  decode := Cbor.decode
  mapCreate := .map []
  dataCreate := .bytes
  stringCreate := .text
  mapputInt map key := map.put (.unsigned key)
  mapputString map key := map.put (.text key)

theorem minimalCbor_lawful : minimalCbor.Lawful where
  minimal tree _ := Cbor.length_encode tree
  write _ _ _ := rfl
  complete _ representable := Cbor.decode_encode representable
  partly _ representable _ _ split proper := ⟨1, Cbor.decode_part representable split proper⟩
  mapCreate := rfl
  dataCreate _ := rfl
  stringCreate _ := rfl
  mapputInt _ _ _ := rfl
  mapputString _ _ _ := rfl

end SpudLib
