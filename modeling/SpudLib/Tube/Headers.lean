import SpudLib.Tube.Isolation

/-!
# Headers on the wire

What `tube_send` hands to `sendmsg` is a header and the chunks of data;
`spud_parse` takes the header apart again, and accepts no other byte strings
than a cookie, an identifier, flags and, if anything follows, what can be decoded.
-/

namespace SpudLib

structure SpudFlags where
  cmd : SpudCommand
  adec : Bool
  pdec : Bool
  deriving DecidableEq

namespace SpudFlags

/-- `smh.flags` of `tube_send`. -/
def toByte (flags : SpudFlags) : UInt8 :=
  flags.cmd.value ||| (if flags.adec then spudAdec else 0) |||
    (if flags.pdec then spudPdec else 0)

def ofByte (byte : UInt8) : SpudFlags where
  cmd := .ofFlags byte
  adec := byte &&& spudAdec != 0
  pdec := byte &&& spudPdec != 0

theorem ofByte_toByte (flags : SpudFlags) : ofByte flags.toByte = flags := by
  obtain ⟨cmd, adec, pdec⟩ := flags
  cases cmd <;> cases adec <;> cases pdec <;> rfl

end SpudFlags

section Parse

variable {library : CborLibrary} {payload : List UInt8}

def CborLibrary.Accepts (library : CborLibrary) (rest : List UInt8) : Prop :=
  rest = [] ∨ ∃ cbor, library.decode rest = .ok cbor

theorem spudIsSpud_iff (payload : List UInt8) : spudIsSpud payload = true ↔
    spudHeaderSize ≤ payload.length ∧ payload.take 4 = spudMagicCookie := by
  unfold spudIsSpud
  by_cases short : payload.length < spudHeaderSize
  · rw [if_pos short]
    simp only [Bool.false_eq_true, false_iff, not_and]
    intro long
    exact absurd short (Nat.not_lt.mpr long)
  · rw [if_neg short, beq_iff_eq]
    exact (and_iff_right (Nat.le_of_not_lt short)).symm

theorem spudParse_eq_ok {msg : SpudMessage} : spudParse library payload = .ok msg ↔
    spudHeaderSize ≤ payload.length ∧ payload.take 4 = spudMagicCookie ∧
      msg.header = .ofBytes payload ∧
      ((payload.length = spudHeaderSize ∧ msg.cbor = none) ∨
        spudHeaderSize < payload.length ∧
          ∃ cbor, library.decode (payload.drop spudHeaderSize) = .ok cbor ∧
            msg.cbor = some cbor) := by
  obtain ⟨header, content⟩ := msg
  rw [← and_assoc, ← spudIsSpud_iff]
  cases spud : spudIsSpud payload with
  | false => simp [spudParse, spud]
  | true =>
    have long := ((spudIsSpud_iff payload).mp spud).1
    by_cases more : payload.length > spudHeaderSize
    · have notBare : payload.length ≠ spudHeaderSize := Nat.ne_of_gt more
      cases decoded : library.decode (payload.drop spudHeaderSize) with
      | error reason => simp [spudParse, spud, more, decoded, notBare]
      | ok cbor =>
        simp [spudParse, spud, more, decoded, notBare, eq_comm]
    · have bare : payload.length = spudHeaderSize := Nat.le_antisymm (Nat.le_of_not_lt more) long
      simp [spudParse, spud, bare, eq_comm]

/-- The byte strings that are accepted. -/
theorem spudParse_accepts_iff (library : CborLibrary) (payload : List UInt8) :
    (∃ msg, spudParse library payload = .ok msg) ↔
      13 ≤ payload.length ∧ payload.take 4 = [0xd8, 0x00, 0x00, 0xd8] ∧
        (payload.length = 13 ∨ ∃ cbor, library.decode (payload.drop 13) = .ok cbor) := by
  constructor
  · rintro ⟨msg, parsed⟩
    obtain ⟨long, cookie, _, content⟩ := spudParse_eq_ok.mp parsed
    refine ⟨long, cookie, ?_⟩
    rcases content with ⟨bare, _⟩ | ⟨_, cbor, decoded, _⟩
    · exact .inl bare
    · exact .inr ⟨cbor, decoded⟩
  · rintro ⟨long, cookie, content⟩
    by_cases bare : payload.length = 13
    · exact ⟨⟨.ofBytes payload, none⟩,
        spudParse_eq_ok.mpr ⟨long, cookie, rfl, .inl ⟨bare, rfl⟩⟩⟩
    · obtain ⟨cbor, decoded⟩ := content.resolve_left bare
      have more : spudHeaderSize < payload.length := Nat.lt_of_le_of_ne long (Ne.symm bare)
      exact ⟨⟨.ofBytes payload, some cbor⟩,
        spudParse_eq_ok.mpr ⟨long, cookie, rfl, .inr ⟨more, cbor, decoded, rfl⟩⟩⟩

theorem spudParse_header (library : CborLibrary) (header : SpudHeader) (rest : List UInt8)
    (msg : SpudMessage) : spudParse library (header.bytes ++ rest) = .ok msg ↔
      msg.header = header ∧ (rest = [] ∧ msg.cbor = none ∨
        rest ≠ [] ∧ ∃ cbor, library.decode rest = .ok cbor ∧ msg.cbor = some cbor) := by
  have length : (header.bytes ++ rest).length = spudHeaderSize + rest.length := by
    rw [List.length_append, SpudHeader.length_bytes]
  have behind : (header.bytes ++ rest).drop spudHeaderSize = rest :=
    List.drop_left' header.length_bytes
  have bare : (header.bytes ++ rest).length = spudHeaderSize ↔ rest = [] := by
    rw [length, ← List.length_eq_zero_iff]
    omega
  have more : spudHeaderSize < (header.bytes ++ rest).length ↔ rest ≠ [] := by
    rw [length, ← List.length_pos_iff]
    omega
  rw [spudParse_eq_ok, SpudHeader.take_bytes, SpudHeader.ofBytes_bytes, behind, bare, more]
  constructor
  · rintro ⟨_, _, found⟩
    exact found
  · intro found
    refine ⟨?_, rfl, found⟩
    rw [length]
    exact Nat.le_add_right _ _

end Parse

/-- What `tube_send` hands to `sendmsg` is the cookie, the identifier, the flags and the
chunks, and is parsed to them exactly when nothing follows or what follows can be
decoded; no other byte strings are accepted. -/
theorem tubeSend_roundTrips (library : CborLibrary) {mgr : TubeManager} {env : Environment}
    {t : Nat} {cell : Tube} (found : mgr.tubes.cells t = some cell)
    (granted : env.granted .iovec = true) (flags : SpudFlags) (chunks : List (List UInt8)) :
    (∃ answer after datagram,
      (tubeSend env t flags.cmd flags.adec flags.pdec chunks).straight mgr = .ok (answer, after) ∧
      after.trace = mgr.trace ++ [.sent datagram answer] ∧
      datagram.bytes = spudMagicCookie ++ List.ofFn cell.id.octet ++ [flags.toByte] ++
        chunks.flatten ∧
      ((∃ msg, spudParse library datagram.bytes = .ok msg) ↔ library.Accepts chunks.flatten) ∧
      ∀ msg, spudParse library datagram.bytes = .ok msg → msg.header.tubeId = cell.id ∧
        SpudFlags.ofByte msg.header.flags = flags ∧
        (chunks.flatten = [] ∧ msg.cbor = none ∨ chunks.flatten ≠ [] ∧
          ∃ cbor, library.decode chunks.flatten = .ok cbor ∧ msg.cbor = some cbor)) ∧
    ∀ payload, (∃ msg, spudParse library payload = .ok msg) ↔
      13 ≤ payload.length ∧ payload.take 4 = [0xd8, 0x00, 0x00, 0xd8] ∧
        (payload.length = 13 ∨ ∃ cbor, library.decode (payload.drop 13) = .ok cbor) := by
  refine ⟨?_, spudParse_accepts_iff library⟩
  let header : SpudHeader := ⟨cell.id, flags.toByte⟩
  let datagram := cell.datagram flags.cmd flags.adec flags.pdec chunks
  have bytes : datagram.bytes = header.bytes ++ chunks.flatten := by
    have nonempty : (chunks.filter fun part => 0 < part.length).flatten = chunks.flatten := by
      induction chunks with
      | nil => rfl
      | cons chunk rest inductionHypothesis =>
        cases chunk with
        | nil => exact inductionHypothesis
        | cons byte tail => exact congrArg ((byte :: tail) ++ ·) inductionHypothesis
    exact congrArg (header.bytes ++ ·) nonempty
  have sent := @tubeSend_ok mgr env t cell found flags.cmd flags.adec flags.pdec chunks
  have answered : env.answer datagram = env.sendmsg datagram := by
    simp [Environment.answer, granted]
  have noted : env.effects datagram = [.sent datagram (env.sendmsg datagram)] := by
    simp [Environment.effects, granted]
  refine ⟨env.sendmsg datagram, mgr.noted [.sent datagram (env.sendmsg datagram)], datagram,
    ?_, rfl, bytes, ?_, ?_⟩
  · have straight := Proc.straight_of_done sent
    rw [answered, noted] at straight
    exact straight
  · rw [bytes]
    constructor
    · rintro ⟨msg, parsed⟩
      rcases ((spudParse_header ..).mp parsed).2 with ⟨none, _⟩ | ⟨_, cbor, decoded, _⟩
      · exact .inl none
      · exact .inr ⟨cbor, decoded⟩
    · intro accepted
      by_cases none : chunks.flatten = []
      · exact ⟨⟨header, .none⟩, (spudParse_header ..).mpr ⟨rfl, .inl ⟨none, rfl⟩⟩⟩
      · obtain ⟨cbor, decoded⟩ := accepted.resolve_left none
        exact ⟨⟨header, some cbor⟩,
          (spudParse_header ..).mpr ⟨rfl, .inr ⟨none, cbor, decoded, rfl⟩⟩⟩
  · intro msg parsed
    rw [bytes] at parsed
    obtain ⟨same, content⟩ := (spudParse_header ..).mp parsed
    rw [same]
    exact ⟨rfl, flags.ofByte_toByte, content⟩

theorem tubeSend_roundTrips_chunks : ∃ mgr : TubeManager, ∃ answer after datagram,
    (tubeSend obliging 0 .spudAck true false [[], [0xa0]]).straight mgr = .ok (answer, after) ∧
      after.trace = mgr.trace ++ [.sent datagram answer] ∧
      datagram.bytes = [0xd8, 0, 0, 0xd8, 0, 0, 0, 0, 0, 0, 0, 0, 0xe0, 0xa0] ∧
      ((∃ msg, spudParse minimalCbor datagram.bytes = .ok msg) ↔ minimalCbor.Accepts [0xa0]) := by
  let mgr : TubeManager := { newResponder with tubes := Memory.empty.alloc Tube.created }
  have found : mgr.tubes.cells 0 = some Tube.created := Memory.alloc_cells_self _ _
  obtain ⟨⟨answer, after, datagram, returned, trace, bytes, accepted, _⟩, _⟩ :=
    @tubeSend_roundTrips minimalCbor _ obliging _ _ found rfl ⟨.spudAck, true, false⟩ [[], [0xa0]]
  exact ⟨mgr, answer, after, datagram, returned, trace, bytes, accepted⟩

end SpudLib
