import SpudLib.Cbor.Tree
import SpudLib.HashTable.WellFormed
import Mathlib.Data.Nat.Digits.Defs
import Mathlib.Data.Fintype.Pi
import Mathlib.Data.List.OfFn

/-!
# SPUD messages

The identifiers, commands and headers of `src/spud.c`, and the hash and the
comparison of identifiers in `src/tube_manager.c`.
-/

namespace SpudLib

structure SpudTubeId where
  octet : Fin 8 → UInt8
  deriving DecidableEq

namespace SpudTubeId

/-- `*(uint64_t*)id`, the least significant octet first. -/
def word (id : SpudTubeId) : UInt64 :=
  UInt64.ofNat (Nat.ofDigits 256 (List.ofFn fun index => (id.octet index).toNat))

theorem octets_small (id : SpudTubeId) :
    ∀ digit ∈ List.ofFn fun index => (id.octet index).toNat, digit < 256 := by
  intro digit member
  obtain ⟨index, rfl⟩ := List.mem_ofFn.mp member
  exact (id.octet index).toNat_lt

theorem word_toNat (id : SpudTubeId) :
    id.word.toNat = Nat.ofDigits 256 (List.ofFn fun index => (id.octet index).toNat) := by
  have bounded := Nat.ofDigits_lt_base_pow_length (by decide : 1 < 256) id.octets_small
  rw [List.length_ofFn] at bounded
  exact Nat.mod_eq_of_lt bounded

theorem word_injective {first second : SpudTubeId} (same : first.word = second.word) :
    first = second := by
  have digits := congrArg UInt64.toNat same
  rw [word_toNat, word_toNat] at digits
  have lists := Nat.ofDigits_inj_of_len_eq (by decide) (by simp) first.octets_small
    second.octets_small digits
  have octets : first.octet = second.octet := by
    funext index
    exact UInt8.toNat_inj.mp (congrFun (List.ofFn_injective lists) index)
  cases first
  cases second
  exact congrArg _ octets

end SpudTubeId

def hashId (id : SpudTubeId) : UInt32 :=
  let key := id.word
  let key := ~~~key + (key <<< 18)
  let key := key ^^^ (key >>> 31)
  let key := key * 21
  let key := key ^^^ (key >>> 11)
  let key := key + (key <<< 6)
  let key := key ^^^ (key >>> 22)
  key.toUInt32

def compareId (key1 key2 : SpudTubeId) : Int :=
  if key1.word < key2.word then -1
  else if key1.word = key2.word then 0 else 1

theorem compareId_eq_zero {first second : SpudTubeId} :
    compareId first second = 0 ↔ first = second := by
  constructor
  · intro zero
    unfold compareId at zero
    split_ifs at zero with below same
    · exact SpudTubeId.word_injective same
    · exact absurd zero (by decide)
  · rintro rfl
    unfold compareId
    rw [if_neg (UInt64.lt_irrefl _), if_pos rfl]

def spudMagicCookie : List UInt8 := [0xd8, 0x00, 0x00, 0xd8]

inductive SpudCommand where
  | spudData
  | spudOpen
  | spudClose
  | spudAck
  deriving DecidableEq

namespace SpudCommand

def value : SpudCommand → UInt8
  | .spudData => 0x00
  | .spudOpen => 0x40
  | .spudClose => 0x80
  | .spudAck => 0xc0

/-- `flags & SPUD_COMMAND`, which leaves one of the four commands. -/
def ofFlags (flags : UInt8) : SpudCommand :=
  let masked := flags &&& 0xc0
  if masked = 0x00 then .spudData
  else if masked = 0x40 then .spudOpen
  else if masked = 0x80 then .spudClose
  else .spudAck

end SpudCommand

/-- `SPUD_ADEC` and `SPUD_PDEC`. -/
def spudAdec : UInt8 := 0x20

def spudPdec : UInt8 := 0x10

theorem SpudCommand.ofFlags_value (cmd : SpudCommand) (adec pdec : Bool) :
    ofFlags (cmd.value ||| (if adec then spudAdec else 0) ||| (if pdec then spudPdec else 0)) =
      cmd := by
  cases cmd <;> cases adec <;> cases pdec <;> rfl

/-- `spud_header` behind its magic cookie. -/
structure SpudHeader where
  tubeId : SpudTubeId
  flags : UInt8
  deriving DecidableEq

/-- `sizeof(spud_header)`. -/
def spudHeaderSize : Nat := 13

namespace SpudHeader

/-- The header as `spud_init` and the sender leave it in memory. -/
def bytes (header : SpudHeader) : List UInt8 :=
  spudMagicCookie ++ List.ofFn header.tubeId.octet ++ [header.flags]

/-- A payload seen as a header. -/
def ofBytes (payload : List UInt8) : SpudHeader where
  tubeId := ⟨fun index => payload.getD (4 + index) 0⟩
  flags := payload.getD 12 0

@[simp] theorem length_bytes (header : SpudHeader) : header.bytes.length = spudHeaderSize := by
  simp [bytes, spudMagicCookie, spudHeaderSize]

theorem take_bytes (header : SpudHeader) (rest : List UInt8) :
    (header.bytes ++ rest).take 4 = spudMagicCookie := by
  simp [bytes, spudMagicCookie]

theorem ofBytes_bytes (header : SpudHeader) (rest : List UInt8) :
    ofBytes (header.bytes ++ rest) = header := by
  have octets : header.bytes ++ rest = spudMagicCookie ++
      (List.ofFn header.tubeId.octet ++ header.flags :: rest) := by
    simp [bytes]
  have cookie : spudMagicCookie.length = 4 := rfl
  have id : ∀ index : Fin 8, (header.bytes ++ rest).getD (4 + index) 0 =
      header.tubeId.octet index := by
    intro index
    rw [octets, List.getD_eq_getElem?_getD, List.getElem?_append_right (by rw [cookie]; omega),
      cookie, Nat.add_sub_cancel_left, List.getElem?_append_left (by simp), List.getElem?_ofFn,
      dif_pos index.isLt]
    rfl
  have flags : (header.bytes ++ rest).getD 12 0 = header.flags := by
    rw [octets, List.getD_eq_getElem?_getD, List.getElem?_append_right (by rw [cookie]; omega),
      cookie, List.getElem?_append_right (by simp), List.length_ofFn]
    rfl
  unfold ofBytes
  simp only [id, flags]

end SpudHeader

structure SpudMessage where
  header : SpudHeader
  cbor : Option Cbor

/-- What `spud_parse` leaves in `err`. -/
inductive SpudError where
  | invalidArg
  | user (reason : Nat)
  deriving DecidableEq

def spudIsSpud (payload : List UInt8) : Bool :=
  if payload.length < spudHeaderSize then false else payload.take 4 == spudMagicCookie

def spudParse (library : CborLibrary) (payload : List UInt8) : Except SpudError SpudMessage :=
  if !spudIsSpud payload then .error .invalidArg
  else if payload.length > spudHeaderSize then
    match library.decode (payload.drop spudHeaderSize) with
    | .ok cbor => .ok ⟨.ofBytes payload, some cbor⟩
    | .error reason => .error (.user reason)
  else .ok ⟨.ofBytes payload, none⟩

theorem spudParse_bytes (library : CborLibrary) (header : SpudHeader) {rest : List UInt8}
    (some : rest ≠ []) : spudParse library (header.bytes ++ rest) =
      match library.decode rest with
      | .ok cbor => .ok ⟨header, .some cbor⟩
      | .error reason => .error (.user reason) := by
  have positive : 0 < rest.length := List.length_pos_iff.mpr some
  have spud : spudIsSpud (header.bytes ++ rest) = true := by
    rw [spudIsSpud, if_neg (by simp), SpudHeader.take_bytes]
    rfl
  have dropped : (header.bytes ++ rest).drop spudHeaderSize = rest :=
    List.drop_left' header.length_bytes
  rw [spudParse, spud, if_neg (by decide), if_pos (by simp [positive]), dropped,
    SpudHeader.ofBytes_bytes]

end SpudLib
