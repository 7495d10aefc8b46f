import SpudLib.Cbor.Codec
import SpudLib.Foundation.Frames
import SpudLib.Tube.Passive

/-!
# Control messages

The packet information of `src/ls_pktinfo.c`, as `tube_manager_sendmsg` writes it into a
control message and as the loop of `tube_manager_loop` reads it, with the layout of a 64 bit
Linux.  The loop gives the system a fixed buffer, and trusts what it finds there to be whole.
-/

namespace SpudLib

def littleEndian (width number : Nat) : List UInt8 := (bigEndian width number).reverse

def ofLittleEndian (bytes : List UInt8) : Nat := ofBigEndian bytes.reverse

@[simp] theorem length_littleEndian (width number : Nat) :
    (littleEndian width number).length = width := by
  simp [littleEndian]

theorem ofLittleEndian_littleEndian (width number : Nat) :
    ofLittleEndian (littleEndian width number) = number % 256 ^ width := by
  rw [ofLittleEndian, littleEndian, List.reverse_reverse, ofBigEndian_bigEndian]

theorem ofNat_ofLittleEndian (value : BitVec 32) :
    BitVec.ofNat 32 (ofLittleEndian (littleEndian 4 value.toNat)) = value := by
  rw [ofLittleEndian_littleEndian]
  apply BitVec.eq_of_toNat_eq
  have small := value.isLt
  rw [BitVec.toNat_ofNat]
  omega

theorem ofNat_ofBigEndian {width : Nat} (value : BitVec (8 * width)) :
    BitVec.ofNat (8 * width) (ofBigEndian (bigEndian width value.toNat)) = value := by
  rw [ofBigEndian_bigEndian, show 256 ^ width = 2 ^ (8 * width) by rw [Nat.pow_mul]]
  apply BitVec.eq_of_toNat_eq
  simp

/-- `cmsg_level` and `cmsg_type`. -/
structure CmsgKind where
  cmsgLevel : BitVec 32
  cmsgType : BitVec 32
  deriving DecidableEq

/-- `IPPROTO_IPV6`, `IPV6_PKTINFO`. -/
def ipv6Pktinfo : CmsgKind := ⟨41, 50⟩

/-- `IPPROTO_IP`, `IP_PKTINFO`. -/
def ipPktinfo : CmsgKind := ⟨0, 8⟩

/-- `SOL_SOCKET`, `SCM_TIMESTAMP`. -/
def scmTimestamp : CmsgKind := ⟨1, 29⟩

/-- `struct cmsghdr`, `CMSG_LEN`, `CMSG_SPACE` and `CMSG_NXTHDR`. -/
def cmsghdr : Framing CmsgKind where
  unit := 8
  header := 16
  limit := 2 ^ 64
  write length kind := littleEndian 8 length ++
    (littleEndian 4 kind.cmsgLevel.toNat ++ littleEndian 4 kind.cmsgType.toNat)
  read bytes := (ofLittleEndian (bytes.take 8),
    ⟨BitVec.ofNat 32 (ofLittleEndian ((bytes.drop 8).take 4)),
      BitVec.ofNat 32 (ofLittleEndian (((bytes.drop 8).drop 4).take 4))⟩)
  unit_pos := by decide
  header_pos := by decide
  length_write length kind := by simp
  read_write length kind rest small := by
    have first : ∀ {width number : Nat} (behind : List UInt8),
        (littleEndian width number ++ behind).take width = littleEndian width number ∧
          (littleEndian width number ++ behind).drop width = behind := by
      intro width number behind
      exact ⟨List.take_left' (length_littleEndian _ _), List.drop_left' (length_littleEndian _ _)⟩
    simp only [List.append_assoc, first, ofNat_ofLittleEndian]
    rw [ofLittleEndian_littleEndian, Nat.mod_eq_of_lt (by simpa using small)]

structure InPktinfo where
  ipiIfindex : BitVec 32
  ipiSpecDst : BitVec 32
  ipiAddr : BitVec 32
  deriving DecidableEq

namespace InPktinfo

def bytes (info : InPktinfo) : List UInt8 :=
  littleEndian 4 info.ipiIfindex.toNat ++
    (bigEndian 4 info.ipiSpecDst.toNat ++ bigEndian 4 info.ipiAddr.toNat)

def ofBytes (bytes : List UInt8) : InPktinfo where
  ipiIfindex := BitVec.ofNat 32 (ofLittleEndian (bytes.take 4))
  ipiSpecDst := BitVec.ofNat 32 (ofBigEndian ((bytes.drop 4).take 4))
  ipiAddr := BitVec.ofNat 32 (ofBigEndian ((bytes.drop 4).drop 4))

@[simp] theorem length_bytes (info : InPktinfo) : info.bytes.length = 12 := by simp [bytes]

theorem ofBytes_bytes (info : InPktinfo) : ofBytes info.bytes = info := by
  have words : ∀ value : BitVec 32, BitVec.ofNat 32 (ofBigEndian (bigEndian 4 value.toNat)) =
      value := fun value => @ofNat_ofBigEndian 4 value
  simp only [ofBytes, bytes, List.take_left' (length_littleEndian 4 _),
    List.drop_left' (length_littleEndian 4 _), List.take_left' (length_bigEndian 4 _),
    List.drop_left' (length_bigEndian 4 _), ofNat_ofLittleEndian, words]

end InPktinfo

structure In6Pktinfo where
  ipi6Addr : BitVec 128
  ipi6Ifindex : BitVec 32
  deriving DecidableEq

namespace In6Pktinfo

def bytes (info : In6Pktinfo) : List UInt8 :=
  bigEndian 16 info.ipi6Addr.toNat ++ littleEndian 4 info.ipi6Ifindex.toNat

def ofBytes (bytes : List UInt8) : In6Pktinfo where
  ipi6Addr := BitVec.ofNat 128 (ofBigEndian (bytes.take 16))
  ipi6Ifindex := BitVec.ofNat 32 (ofLittleEndian (bytes.drop 16))

@[simp] theorem length_bytes (info : In6Pktinfo) : info.bytes.length = 20 := by simp [bytes]

theorem ofBytes_bytes (info : In6Pktinfo) : ofBytes info.bytes = info := by
  have address : BitVec.ofNat 128 (ofBigEndian (bigEndian 16 info.ipi6Addr.toNat)) =
      info.ipi6Addr := @ofNat_ofBigEndian 16 info.ipi6Addr
  simp only [ofBytes, bytes, List.take_left' (length_bigEndian 16 _),
    List.drop_left' (length_bigEndian 16 _), ofNat_ofLittleEndian, address]

end In6Pktinfo

/-- `struct timeval`, both fields 64 bits wide. -/
def Timeval.ofBytes (bytes : List UInt8) : Timeval where
  tvSec := (BitVec.ofNat 64 (ofLittleEndian (bytes.take 8))).toInt
  tvUsec := (BitVec.ofNat 64 (ofLittleEndian (bytes.drop 8))).toInt

/-- `struct _ls_pktinfo`, by `kind`. -/
inductive LsPktinfo where
  | clear
  | info4 (i4 : InPktinfo)
  | info6 (i6 : In6Pktinfo)
  deriving DecidableEq

def LsPktinfo.pktInfo : LsPktinfo → PktInfo
  | .clear => .clear
  | .info4 i4 => .info4 i4.ipiIfindex.toNat i4.ipiAddr
  | .info6 i6 => .info6 i6.ipi6Ifindex.toNat i6.ipi6Addr

def readStruct (buffer : List UInt8) (offset size : Nat) : Exec (List UInt8) :=
  if offset + size ≤ buffer.length then pure ((buffer.drop offset).take size)
  else .error .outOfBounds

/-- What the loop knows from control messages: `info`, and `mgr->last` once `got_time`. -/
abbrev Ancillary : Type := LsPktinfo × Option Timeval

/-- The body of the loop over control messages, with `ls_pktinfo_set6` and `ls_pktinfo_set4`.
Only of a timestamp the length is looked at. -/
def readMessage (mctl : List UInt8) (known : Ancillary) (offset cmsgLen : Nat)
    (kind : CmsgKind) : Exec Ancillary := do
  let known ← if kind = ipv6Pktinfo then do
      let bytes ← readStruct mctl (offset + 16) 20
      pure (.info6 (.ofBytes bytes), known.2)
    else pure known
  if kind = ipPktinfo then do
    let bytes ← readStruct mctl (offset + 16) 12
    pure (.info4 (.ofBytes bytes), known.2)
  else if kind = scmTimestamp ∧ cmsgLen = 32 then do
    let bytes ← readStruct mctl (offset + 16) 16
    pure (known.1, some (.ofBytes bytes))
  else pure known

def mctlSize : Nat := 16 + 20 + 12 + 16

/-- The loop over the control messages in `mctl`, of which the system has filled
`msg_controllen` bytes. -/
def readControl (mctl : List UInt8) (msgControllen : Nat) : Exec Ancillary :=
  if msgControllen < 16 then pure (.clear, none)
  else cmsghdr.walk (readMessage mctl) mctl msgControllen msgControllen 0 (.clear, none)

/-- `ls_pktinfo_cmsg`: what it says it has written, and the buffer.  Of an IPv6 address the
interface is left out. -/
def lsPktinfoCmsg (p : LsPktinfo) (cmsg : List UInt8) : Nat × List UInt8 :=
  match p with
  | .info4 i4 => (32, cmsghdr.write 28 ipPktinfo ++ i4.bytes ++ cmsg.drop 28)
  | .info6 i6 =>
      (40, cmsghdr.write 36 ipv6Pktinfo ++ bigEndian 16 i6.ipi6Addr.toNat ++ cmsg.drop 32)
  | .clear => (0, cmsg)

/-- The control message of `tube_manager_sendmsg`. -/
def sentControl (source : LsPktinfo) : Nat × List UInt8 :=
  lsPktinfoCmsg source (List.replicate 1024 0)

/-- A message of a kind that the loop knows has the size of its structure. -/
structure Frame.Proper (message : Frame CmsgKind) : Prop where
  v6 : message.tag = ipv6Pktinfo → message.content.length = 20
  v4 : message.tag = ipPktinfo → message.content.length = 12
  stamp : message.tag = scmTimestamp → message.content.length = 16

def Ancillary.heed (known : Ancillary) (message : Frame CmsgKind) : Ancillary :=
  if message.tag = ipv6Pktinfo then (.info6 (.ofBytes message.content), known.2)
  else if message.tag = ipPktinfo then (.info4 (.ofBytes message.content), known.2)
  else if message.tag = scmTimestamp ∧ message.content.length = 16 then
    (known.1, some (.ofBytes message.content))
  else known

/-- There is room for the header of an address but not for all of it. -/
def Overruns (messages : List (Frame CmsgKind)) : Prop :=
  ∃ before message after, messages = before ++ message :: after ∧
    (message.tag = ipv6Pktinfo ∨ message.tag = ipPktinfo) ∧
    cmsghdr.extent before + 16 ≤ mctlSize ∧
    mctlSize < cmsghdr.extent before + cmsghdr.size message

section Reading

variable {mctl : List UInt8} {messages : List (Frame CmsgKind)} {arrival : Arrival CmsgKind}

theorem readMessage_v6 (known : Ancillary) (offset cmsgLen : Nat) :
    readMessage mctl known offset cmsgLen ipv6Pktinfo =
      (fun bytes => (.info6 (.ofBytes bytes), known.2)) <$> readStruct mctl (offset + 16) 20 := by
  unfold readMessage
  cases readStruct mctl (offset + 16) 20 <;> rfl

theorem readMessage_v4 (known : Ancillary) (offset cmsgLen : Nat) :
    readMessage mctl known offset cmsgLen ipPktinfo =
      (fun bytes => (.info4 (.ofBytes bytes), known.2)) <$> readStruct mctl (offset + 16) 12 := by
  unfold readMessage
  cases readStruct mctl (offset + 16) 12 <;> rfl

theorem readMessage_other {kind : CmsgKind} (not6 : kind ≠ ipv6Pktinfo) (not4 : kind ≠ ipPktinfo)
    (known : Ancillary) (offset cmsgLen : Nat) :
    readMessage mctl known offset cmsgLen kind =
      if kind = scmTimestamp ∧ cmsgLen = 32 then
        (fun bytes => (known.1, some (.ofBytes bytes))) <$> readStruct mctl (offset + 16) 16
      else .ok known := by
  simp only [readMessage, if_neg not6, if_neg not4, Exec.pure_eq_ok, Exec.ok_bind]
  cases readStruct mctl (offset + 16) 16 <;> rfl

theorem readMessage_whole (proper : arrival.frame.Proper)
    (uncut : arrival.length = cmsghdr.size arrival.frame)
    (inside : arrival.offset + arrival.length ≤ mctl.length)
    (content : (mctl.drop (arrival.offset + 16)).take arrival.frame.content.length =
      arrival.frame.content) (known : Ancillary) :
    readMessage mctl known arrival.offset arrival.length arrival.frame.tag =
      .ok (known.heed arrival.frame) := by
  have sized : arrival.length = 16 + arrival.frame.content.length := uncut
  have copied : ∀ size, arrival.frame.content.length = size →
      readStruct mctl (arrival.offset + 16) size = .ok arrival.frame.content := by
    rintro size rfl
    rw [readStruct, if_pos (by omega), content]
    rfl
  unfold Ancillary.heed
  by_cases v6 : arrival.frame.tag = ipv6Pktinfo
  · rw [if_pos v6, v6, readMessage_v6, copied 20 (proper.v6 v6)]
    rfl
  by_cases v4 : arrival.frame.tag = ipPktinfo
  · rw [if_neg v6, if_pos v4, v4, readMessage_v4, copied 12 (proper.v4 v4)]
    rfl
  rw [if_neg v6, if_neg v4, readMessage_other v6 v4]
  by_cases stamp : arrival.frame.tag = scmTimestamp
  · have long := proper.stamp stamp
    rw [if_pos (⟨stamp, by omega⟩ : _ ∧ arrival.length = 32), if_pos ⟨stamp, long⟩, copied 16 long]
    rfl
  · rw [if_neg (fun both => stamp both.1), if_neg (fun both => stamp both.1)]

/-- A message that was cut is passed over, or what it should hold is read from behind the
buffer. -/
theorem readMessage_cut (proper : arrival.frame.Proper)
    (cut : arrival.length < cmsghdr.size arrival.frame)
    (last : arrival.offset + arrival.length = mctl.length) (known : Ancillary) :
    readMessage mctl known arrival.offset arrival.length arrival.frame.tag =
      if arrival.frame.tag = ipv6Pktinfo ∨ arrival.frame.tag = ipPktinfo
        then .error .outOfBounds else .ok known := by
  have short : arrival.length < 16 + arrival.frame.content.length := cut
  have beyond : ∀ size, arrival.frame.content.length = size →
      readStruct mctl (arrival.offset + 16) size = .error .outOfBounds := by
    rintro size rfl
    exact if_neg (by omega)
  by_cases v6 : arrival.frame.tag = ipv6Pktinfo
  · rw [if_pos (.inl v6), v6, readMessage_v6, beyond 20 (proper.v6 v6)]
    rfl
  by_cases v4 : arrival.frame.tag = ipPktinfo
  · rw [if_pos (.inr v4), v4, readMessage_v4, beyond 12 (proper.v4 v4)]
    rfl
  rw [if_neg (not_or.mpr ⟨v6, v4⟩), readMessage_other v6 v4, if_neg]
  rintro ⟨stamp, long⟩
  have content := proper.stamp stamp
  omega

theorem unit_dvd_mctl (sized : mctl.length = mctlSize) : cmsghdr.unit ∣ mctl.length := by
  rw [sized]
  decide

/-- The loop goes from message to message. -/
theorem readControl_eq (sized : mctl.length = mctlSize) :
    readControl (cmsghdr.fill mctl messages) (cmsghdr.used mctlSize messages) =
      (cmsghdr.arrivals 0 mctlSize messages).foldlM (fun known arrival =>
        readMessage (cmsghdr.fill mctl messages) known arrival.offset arrival.length
          arrival.frame.tag) (.clear, none) := by
  have whole := unit_dvd_mctl sized
  have small : mctl.length < cmsghdr.limit := by
    rw [sized]
    decide
  rw [← sized]
  by_cases nothing : cmsghdr.arrivals 0 mctl.length messages = []
  · rw [nothing, Framing.used_of_no_arrivals nothing]
    rfl
  · obtain ⟨length, _, _, _, _, long, inside⟩ := Framing.read_fill whole small nothing
    have padded := cmsghdr.le_align length
    have begun : ¬ cmsghdr.used mctl.length messages < 16 :=
      Nat.not_lt.mpr (long.trans (padded.trans inside))
    have walked := @Framing.walk_fill _ cmsghdr [] mctl messages _
      (readMessage (cmsghdr.fill mctl messages)) whole small nothing _ Framing.length_arrivals_le
      (.clear, none)
    rw [List.nil_append, List.length_nil, Nat.zero_add] at walked
    rw [readControl, if_neg begun]
    exact walked

/-- What the loop does with a message. -/
theorem readMessage_arrival (sized : mctl.length = mctlSize)
    (proper : ∀ message ∈ messages, message.Proper)
    (member : arrival ∈ cmsghdr.arrivals 0 mctlSize messages) (known : Ancillary) :
    readMessage (cmsghdr.fill mctl messages) known arrival.offset arrival.length
        arrival.frame.tag =
      if arrival.length = cmsghdr.size arrival.frame then .ok (known.heed arrival.frame)
      else if arrival.frame.tag = ipv6Pktinfo ∨ arrival.frame.tag = ipPktinfo
        then .error .outOfBounds else .ok known := by
  have whole := unit_dvd_mctl sized
  have filled := Framing.length_fill whole messages
  rw [← sized] at member
  have arrived := member
  rw [Framing.mem_arrivals whole] at arrived
  obtain ⟨before, message, after, same, room, rfl⟩ := arrived
  have properMessage := proper message (by simp [same])
  split
  next uncut =>
    obtain ⟨inside, content⟩ :=
      @Framing.content_of_arrival _ cmsghdr [] mctl messages whole _ member uncut
    exact readMessage_whole properMessage uncut inside content known
  next cut =>
    have placed : cmsghdr.extent before + 16 ≤ mctl.length := room
    refine @readMessage_cut _ ⟨_, _, message⟩ properMessage ?_ ?_ known
    · exact (Nat.min_le_left _ _).lt_of_ne cut
    · rw [filled]
      dsimp only at cut ⊢
      omega

theorem readControl_overruns (sized : mctl.length = mctlSize)
    (proper : ∀ message ∈ messages, message.Proper) (overruns : Overruns messages) :
    readControl (cmsghdr.fill mctl messages) (cmsghdr.used mctlSize messages) =
      .error .outOfBounds := by
  obtain ⟨before, message, after, same, address, room, long⟩ := overruns
  have whole : cmsghdr.unit ∣ mctlSize := by decide
  have arrives : ∃ arrival ∈ cmsghdr.arrivals 0 mctlSize messages, arrival.frame = message ∧
      arrival.length = min (cmsghdr.size message) (mctlSize - cmsghdr.extent before) :=
    ⟨_, (Framing.mem_arrivals whole).mpr ⟨before, message, after, same, room, rfl⟩, rfl, rfl⟩
  rw [readControl_eq sized]
  apply Exec.foldlM_eq_error
  · intro arrival member known
    rw [readMessage_arrival sized proper member]
    split
    · exact .inl ⟨_, rfl⟩
    · split
      · exact .inr rfl
      · exact .inl ⟨_, rfl⟩
  · obtain ⟨arrival, arrived, rfl, length⟩ := arrives
    refine ⟨arrival, arrived, ?_⟩
    intro known
    rw [readMessage_arrival sized proper arrived, if_neg, if_pos address]
    omega

theorem readControl_fits (sized : mctl.length = mctlSize)
    (proper : ∀ message ∈ messages, message.Proper) (inside : ¬ Overruns messages) :
    readControl (cmsghdr.fill mctl messages) (cmsghdr.used mctlSize messages) =
      .ok ((cmsghdr.fitting mctlSize messages).foldl Ancillary.heed (.clear, none)) := by
  rw [readControl_eq sized]
  apply Framing.foldlM_arrivals
  intro arrival member known
  rw [readMessage_arrival sized proper member]
  rw [Framing.mem_arrivals (by decide : cmsghdr.unit ∣ mctlSize)] at member
  obtain ⟨before, message, after, same, room, rfl⟩ := member
  dsimp only
  split
  · rfl
  next cut =>
    rw [if_neg]
    intro address
    refine inside ⟨before, message, after, same, address, room, ?_⟩
    omega

/-- What the loop makes of the control messages that the system has for a datagram.  If they
all fit `mctl`, or only a timestamp or a message of another kind is cut, it learns what the
messages that fit tell, the last of a kind winning; it reads behind the buffer exactly if there
is room for the header of an address but not for the address. -/
theorem readControl_fill (sized : mctl.length = mctlSize) (proper : ∀ message ∈ messages,
    message.Proper) :
    (Overruns messages →
      readControl (cmsghdr.fill mctl messages) (cmsghdr.used mctlSize messages) =
        .error .outOfBounds) ∧
    (¬ Overruns messages →
      readControl (cmsghdr.fill mctl messages) (cmsghdr.used mctlSize messages) =
        .ok ((cmsghdr.fitting mctlSize messages).foldl Ancillary.heed (.clear, none))) :=
  ⟨readControl_overruns sized proper, readControl_fits sized proper⟩

theorem not_overruns (room : cmsghdr.extent messages ≤ mctlSize) : ¬ Overruns messages := by
  rintro ⟨before, message, after, rfl, _, _, long⟩
  have padded := cmsghdr.le_align (cmsghdr.size message)
  rw [Framing.extent_split] at room
  omega

/-- What the manager asks for on its IPv6 socket does not fit together: with a timestamp before
it an IPv6 address is always cut, while an IPv4 address fits. -/
theorem stamped_overruns {stamp address : List UInt8} (first : stamp.length = 16) :
    (address.length = 20 → Overruns [⟨scmTimestamp, stamp⟩, ⟨ipv6Pktinfo, address⟩]) ∧
      (address.length = 12 → ¬ Overruns [⟨scmTimestamp, stamp⟩, ⟨ipPktinfo, address⟩]) := by
  constructor
  · intro second
    refine ⟨[⟨scmTimestamp, stamp⟩], ⟨ipv6Pktinfo, address⟩, [], rfl, .inl rfl, ?_, ?_⟩ <;>
      simp [Framing.extent, Framing.size, Framing.align, cmsghdr, mctlSize, first, second]
  · intro second
    apply not_overruns
    simp [Framing.extent, Framing.size, Framing.align, cmsghdr, mctlSize, first, second]

def stamped6 : List (Frame CmsgKind) :=
  [⟨scmTimestamp, List.replicate 16 1⟩, ⟨ipv6Pktinfo, List.replicate 20 2⟩]

def stamped4 : List (Frame CmsgKind) :=
  [⟨scmTimestamp, List.replicate 16 1⟩, ⟨ipPktinfo, InPktinfo.bytes ⟨3, 4, 5⟩⟩]

theorem readControl_fill_stamped :
    readControl (cmsghdr.fill (List.replicate 64 7) stamped6) 64 = .error .outOfBounds ∧
      readControl (cmsghdr.fill (List.replicate 64 7) stamped4) 64 =
        .ok (.info4 ⟨3, 4, 5⟩, some (.ofBytes (List.replicate 16 1))) := by
  have proper6 : ∀ message ∈ stamped6, message.Proper := by
    intro message member
    rcases List.mem_cons.mp member with rfl | member
    · exact ⟨by decide, by decide, by decide⟩
    · obtain rfl := List.mem_singleton.mp member
      exact ⟨by decide, by decide, by decide⟩
  have proper4 : ∀ message ∈ stamped4, message.Proper := by
    intro message member
    rcases List.mem_cons.mp member with rfl | member
    · exact ⟨by decide, by decide, by decide⟩
    · obtain rfl := List.mem_singleton.mp member
      exact ⟨by decide, by decide, by decide⟩
  constructor
  · exact (readControl_fill List.length_replicate proper6).1 ((stamped_overruns rfl).1 rfl)
  · exact (readControl_fill List.length_replicate proper4).2 ((stamped_overruns rfl).2 rfl)

/-- Whatever is in the buffer, the loop comes to an end. -/
theorem readControl_ends (mctl : List UInt8) (msgControllen : Nat) :
    readControl mctl msgControllen ≠ .error .diverges := by
  have copied : ∀ (tells : List UInt8 → Ancillary) offset size,
      tells <$> readStruct mctl offset size ≠ .error .diverges := by
    intro tells offset size
    unfold readStruct
    split <;> simp
  unfold readControl
  split
  · simp
  next begun =>
    apply cmsghdr.walk_ends ?_ mctl (by omega) (by omega)
    intro known offset cmsgLen kind
    by_cases v6 : kind = ipv6Pktinfo
    · rw [v6, readMessage_v6]
      exact copied _ _ _
    by_cases v4 : kind = ipPktinfo
    · rw [v4, readMessage_v4]
      exact copied _ _ _
    · rw [readMessage_other v6 v4]
      split
      · exact copied _ _ _
      · simp

end Reading

def LsPktinfo.sent : LsPktinfo → LsPktinfo
  | .info6 i6 => .info6 { i6 with ipi6Ifindex := 0 }
  | p => p

def LsPktinfo.messages : LsPktinfo → List (Frame CmsgKind)
  | .clear => []
  | .info4 i4 => [⟨ipPktinfo, i4.bytes⟩]
  | .info6 i6 => [⟨ipv6Pktinfo, In6Pktinfo.bytes { i6 with ipi6Ifindex := 0 }⟩]

theorem fill_zeros {message : Frame CmsgKind} (fits : cmsghdr.size message ≤ mctlSize) :
    cmsghdr.fill (List.replicate mctlSize 0) [message] =
      cmsghdr.write (cmsghdr.size message) message.tag ++ message.content ++
        List.replicate (mctlSize - cmsghdr.size message) 0 := by
  have padded := cmsghdr.le_align (cmsghdr.size message)
  have inside := cmsghdr.align_le (by decide : cmsghdr.unit ∣ mctlSize) fits
  have begun := (cmsghdr.header_le_size message).trans fits
  rw [Framing.fill, List.length_replicate, if_neg (by omega), if_neg (by omega), Framing.fill,
    List.drop_replicate, List.drop_replicate, List.take_replicate, List.append_assoc,
    List.replicate_append_replicate]
  congr 2
  omega

theorem take_written {written : List UInt8} {size skipped : Nat} (long : written.length = size)
    (fits : size ≤ mctlSize) (enough : mctlSize - size ≤ 1024 - skipped) :
    (written ++ (List.replicate 1024 0).drop skipped).take mctlSize =
      written ++ List.replicate (mctlSize - size) 0 := by
  rw [List.take_append, List.take_of_length_le (long.trans_le fits), long, List.drop_replicate,
    List.take_replicate, Nat.min_eq_left enough]

theorem sentControl_eq (p : LsPktinfo) :
    (sentControl p).1 = cmsghdr.used mctlSize p.messages ∧
      (sentControl p).2.take mctlSize =
        cmsghdr.fill (List.replicate mctlSize 0) p.messages := by
  cases p with
  | clear =>
    refine ⟨rfl, ?_⟩
    exact List.take_replicate.trans (congrArg (List.replicate · 0) (by decide))
  | info4 i4 =>
    have sized : cmsghdr.size ⟨ipPktinfo, i4.bytes⟩ = 28 :=
      congrArg (16 + ·) i4.length_bytes
    have written : (cmsghdr.write 28 ipPktinfo ++ i4.bytes).length = 28 := by
      rw [List.length_append, cmsghdr.length_write, i4.length_bytes]
      rfl
    constructor
    · rw [LsPktinfo.messages, Framing.used_whole (by rw [sized]; decide), sized]
      rfl
    · rw [LsPktinfo.messages, fill_zeros (by rw [sized]; decide), sized]
      exact take_written written (by decide) (by decide)
  | info6 i6 =>
    let content := In6Pktinfo.bytes { i6 with ipi6Ifindex := 0 }
    have sized : cmsghdr.size ⟨ipv6Pktinfo, content⟩ = 36 :=
      congrArg (16 + ·) (In6Pktinfo.length_bytes _)
    have written : (cmsghdr.write 36 ipv6Pktinfo ++ bigEndian 16 i6.ipi6Addr.toNat).length =
        32 := by
      rw [List.length_append, cmsghdr.length_write, length_bigEndian]
      rfl
    constructor
    · rw [LsPktinfo.messages, Framing.used_whole (by rw [sized]; decide), sized]
      rfl
    · rw [LsPktinfo.messages, fill_zeros (by rw [sized]; decide), sized]
      refine (take_written written (by decide) (by decide)).trans ?_
      -- the zeros behind the address are the interface and the padding
      have zeros : content = bigEndian 16 i6.ipi6Addr.toNat ++ List.replicate 4 0 :=
        congrArg (bigEndian 16 i6.ipi6Addr.toNat ++ ·)
          (by decide : littleEndian 4 (0 : BitVec 32).toNat = List.replicate 4 0)
      change _ = cmsghdr.write 36 ipv6Pktinfo ++ content ++ _
      rw [zeros, List.append_assoc, List.append_assoc, List.append_assoc,
        List.replicate_append_replicate]
      rfl

theorem LsPktinfo.messages_proper (p : LsPktinfo) :
    (∀ message ∈ p.messages, message.Proper) ∧ cmsghdr.extent p.messages ≤ mctlSize ∧
      p.messages.foldl Ancillary.heed (.clear, none) = (p.sent, none) := by
  cases p with
  | clear => exact ⟨fun _ member => absurd member List.not_mem_nil, Nat.zero_le _, rfl⟩
  | info4 i4 =>
    refine ⟨?_, ?_, ?_⟩
    · intro message member
      obtain rfl := List.mem_singleton.mp member
      exact ⟨fun same => absurd same (by decide : ipPktinfo ≠ ipv6Pktinfo),
        fun _ => i4.length_bytes,
        fun same => absurd same (by decide : ipPktinfo ≠ scmTimestamp)⟩
    · simp [LsPktinfo.messages, Framing.extent, Framing.size, Framing.align, cmsghdr, mctlSize]
    · change (LsPktinfo.info4 (.ofBytes i4.bytes), none) = _
      rw [InPktinfo.ofBytes_bytes]
      rfl
  | info6 i6 =>
    refine ⟨?_, ?_, ?_⟩
    · intro message member
      obtain rfl := List.mem_singleton.mp member
      exact ⟨fun _ => In6Pktinfo.length_bytes _,
        fun same => absurd same (by decide : ipv6Pktinfo ≠ ipPktinfo),
        fun same => absurd same (by decide : ipv6Pktinfo ≠ scmTimestamp)⟩
    · simp [LsPktinfo.messages, Framing.extent, Framing.size, Framing.align, cmsghdr, mctlSize]
    · change (LsPktinfo.info6 (.ofBytes (In6Pktinfo.bytes _)), none) = _
      rw [In6Pktinfo.ofBytes_bytes]
      rfl

theorem readControl_messages (p : LsPktinfo) (sized : mctl.length = mctlSize) :
    readControl (cmsghdr.fill mctl p.messages) (cmsghdr.used mctlSize p.messages) =
      .ok (p.sent, none) := by
  obtain ⟨proper, room, heeded⟩ := p.messages_proper
  rw [readControl_fits sized proper (not_overruns room), Framing.fitting_of_extent_le room, heeded]

/-- Reading a control message of a sender gives back what was put in, but for the interface of
an IPv6 address. -/
theorem sentControl_read (p : LsPktinfo) :
    readControl ((sentControl p).2.take mctlSize) (sentControl p).1 = .ok (p.sent, none) := by
  obtain ⟨used, filled⟩ := sentControl_eq p
  rw [used, filled, readControl_messages p List.length_replicate]

def Reception.Tells (received : Reception) (mctl : List UInt8) (msgControllen : Nat)
    (info : LsPktinfo) : Prop :=
  readControl mctl msgControllen = .ok (info, received.stamp) ∧ info.pktInfo = received.info

/-- The answer to an `OPEN` asks to be sent from the address that the `OPEN` was sent to. -/
theorem ack_control {received : Reception} {mctl : List UInt8} {msgControllen : Nat}
    {info : LsPktinfo} (tells : received.Tells mctl msgControllen info) (uid : SpudTubeId) :
    (received.ack uid).source = some info.pktInfo ∧
      readControl ((sentControl info).2.take mctlSize) (sentControl info).1 =
        .ok (info.sent, none) := by
  obtain ⟨used, filled⟩ := sentControl_eq info
  constructor
  · exact congrArg some tells.2.symm
  · rw [used, filled, readControl_messages info List.length_replicate]

end SpudLib
