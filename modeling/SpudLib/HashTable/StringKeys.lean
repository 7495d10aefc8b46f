import SpudLib.HashTable.WellFormed

/-!
# Strings as keys

The hash and the comparison that ignore the case of letters, from
`src/ls_htable.c`, for strings of ASCII characters.  `tolower` and `strcasecmp`
are those of the C locale.
-/

namespace SpudLib

/-- A string of ASCII characters, without the NUL that ends it. -/
def AsciiString : Type :=
  { text : List UInt8 // ∀ character ∈ text, 0 < character ∧ character < 128 }

instance : DecidableEq AsciiString := inferInstanceAs (DecidableEq (Subtype _))

def tolower (character : UInt8) : UInt8 :=
  if 65 ≤ character ∧ character ≤ 90 then character + 32 else character

/-- `strcasecmp`; a NUL ends the shorter string. -/
def strcasecmp : List UInt8 → List UInt8 → Int
  | [], [] => 0
  | a :: _, [] => (tolower a).toNat
  | [], b :: _ => -(tolower b).toNat
  | a :: as, b :: bs =>
      let diff := ((tolower a).toNat : Int) - (tolower b).toNat
      if diff ≠ 0 then diff else strcasecmp as bs

def lsStrcaseCompare (first second : AsciiString) : Int := strcasecmp first.val second.val

/-- The body of the loop of `ls_strcase_hashcode`, where `h` is an `unsigned long`. -/
def hashCharacter (h : UInt64) (p : UInt8) : UInt64 := (h <<< 5) - h + (tolower p).toUInt64

def lsStrcaseHashcode (key : AsciiString) : UInt32 := (key.val.foldl hashCharacter 0).toUInt32

namespace AsciiString

def lower (name : AsciiString) : List UInt8 := name.val.map tolower

/-- The strings differ in the case of their letters only. -/
def SameName (first second : AsciiString) : Prop := first.lower = second.lower

instance (first second : AsciiString) : Decidable (SameName first second) :=
  inferInstanceAs (Decidable (_ = _))

end AsciiString

theorem tolower_pos {character : UInt8} (positive : 0 < character) :
    0 < (tolower character).toNat := by
  unfold tolower
  split
  next upper =>
    have bounds : 65 ≤ character.toNat ∧ character.toNat ≤ 90 := upper
    rw [UInt8.toNat_add]
    change 0 < (character.toNat + 32) % 2 ^ 8
    omega
  next => exact positive

/-- Two strings compare equal when they are the same in lower case. -/
theorem strcasecmp_eq_zero {first second : List UInt8} (properFirst : ∀ a ∈ first, 0 < a)
    (properSecond : ∀ b ∈ second, 0 < b) :
    strcasecmp first second = 0 ↔ first.map tolower = second.map tolower := by
  induction first generalizing second with
  | nil =>
    cases second with
    | nil => exact iff_of_true rfl rfl
    | cons b bs =>
      have positive := tolower_pos (properSecond b List.mem_cons_self)
      refine iff_of_false ?_ nofun
      simp only [strcasecmp]
      omega
  | cons a as inductionHypothesis =>
    cases second with
    | nil =>
      have positive := tolower_pos (properFirst a List.mem_cons_self)
      refine iff_of_false ?_ nofun
      simp only [strcasecmp]
      omega
    | cons b bs =>
      have onward := @inductionHypothesis bs
        (fun a member => properFirst a (List.mem_cons_of_mem _ member))
        (fun b member => properSecond b (List.mem_cons_of_mem _ member))
      have heads : ((tolower a).toNat : Int) - (tolower b).toNat = 0 ↔ tolower a = tolower b := by
        rw [← UInt8.toNat_inj]
        omega
      rw [List.map_cons, List.map_cons, List.cons.injEq, ← onward, ← heads, strcasecmp]
      by_cases same : ((tolower a).toNat : Int) - (tolower b).toNat = 0
      · simp [same]
      · simp [same]

theorem lsStrcaseCompare_eq_zero {first second : AsciiString} :
    lsStrcaseCompare first second = 0 ↔ first.SameName second :=
  strcasecmp_eq_zero (fun a member => (first.property a member).1)
    (fun b member => (second.property b member).1)

theorem lsStrcaseHashcode_eq (key : AsciiString) :
    lsStrcaseHashcode key =
      (key.lower.foldl (fun (h : UInt64) (p : UInt8) => (h <<< 5) - h + p.toUInt64)
        0).toUInt32 := by
  rw [AsciiString.lower, List.foldl_map]
  rfl

/-- Strings that differ in case only are one key. -/
theorem strcase_lawful : LawfulKeys lsStrcaseHashcode lsStrcaseCompare where
  equivalence := by
    refine ⟨?_, ?_, ?_⟩
    · intro name
      exact lsStrcaseCompare_eq_zero.mpr rfl
    · intro first second same
      exact lsStrcaseCompare_eq_zero.mpr (lsStrcaseCompare_eq_zero.mp same).symm
    · intro first second third same again
      exact lsStrcaseCompare_eq_zero.mpr
        ((lsStrcaseCompare_eq_zero.mp same).trans (lsStrcaseCompare_eq_zero.mp again))
  sameHash first second same := by
    rw [lsStrcaseHashcode_eq, lsStrcaseHashcode_eq, lsStrcaseCompare_eq_zero.mp same]

end SpudLib
