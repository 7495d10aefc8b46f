import SpudLib.Tube.Survival

/-!
# Data from one manager to another

The sender limits the length of the CBOR, the receiver that of the whole datagram.
Data of some lengths is accepted by the one and cut off by the other.
-/

namespace SpudLib

open TubeManager

namespace Cbor

theorem size_pos (tree : Cbor) : 0 < tree.size := by
  cases tree with
  | unsigned value => exact headSize_pos value
  | negative value => exact headSize_pos value
  | bytes content => exact Nat.add_pos_left (headSize_pos _) _
  | text content => exact Nat.add_pos_left (headSize_pos _) _
  | array items => exact Nat.add_pos_left (headSize_pos _) _
  | map children => exact Nat.add_pos_left (headSize_pos _) _
  | tag number item => exact Nat.add_pos_left (headSize_pos _) _

def ofData (data : List UInt8) : Cbor := .map [.unsigned 0, .bytes data]

theorem ofData_representable {data : List UInt8} (fits : data.length < 2 ^ 64) :
    (ofData data).Representable := by
  simpa [ofData, Representable, RepresentableAll] using fits

theorem size_ofData (data : List UInt8) :
    (ofData data).size = 2 + headSize data.length + data.length := by
  have one : headSize ([Cbor.unsigned 0, .bytes data].length / 2) = 1 := by
    simp [headSize]
  have zero : headSize 0 = 1 := by decide
  simp only [ofData, size, sizeAll, one, zero]
  omega

/-- The map fits the receiver's buffer behind a header, or not even the sender's. -/
theorem size_ofData_iff (data : List UInt8) :
    spudHeaderSize + (ofData data).size ≤ maxBufLen ∨ maxBufLen < (ofData data).size ↔
      data.length ≤ 1482 ∨ 1496 ≤ data.length := by
  rw [size_ofData]
  unfold headSize spudHeaderSize maxBufLen
  split_ifs <;> omega

end Cbor

theorem CborLibrary.Lawful.ofData {library : CborLibrary} (lawful : library.Lawful)
    (data : List UInt8) :
    library.mapputInt library.mapCreate 0 (library.dataCreate data) = .ofData data := by
  rw [lawful.mapCreate, lawful.dataCreate, lawful.mapputInt]
  rfl

namespace TubeManager

/-- The procedure hands the datagram to `sendmsg` and reports it as sent. -/
def Sends (mgr : TubeManager) (procedure : Tubing Bool) (datagram : Datagram) : Prop :=
  ∃ after, procedure.straight mgr = .ok (true, after) ∧
    after.trace = mgr.trace ++ [.sent datagram true]

def Runs (mgr : TubeManager) (id : SpudTubeId) (t : Nat) : Prop :=
  mgr.WellFormed ∧ mgr.lookup id = .ok (some t) ∧
    ∃ cell, mgr.tubes.cells t = some cell ∧ cell.state = .running

/-- The loop parses a datagram and triggers the event data for the tube, with a map
that binds key 0 to the bytes. -/
def HandsOver (mgr : TubeManager) (library : CborLibrary) (env : Environment) (hasErr : Bool)
    (received : Reception) (t : Nat) (data : List UInt8) : Prop :=
  ∃ after cbor, (tubeManagerLoopBody env library hasErr received).straight mgr =
      .ok (.next, after) ∧
    after.trace = mgr.trace ++ [.triggered (.data ⟨t, some cbor, received.source⟩)] ∧
    cbor.lookup 0 = some (.bytes data)

end TubeManager

section Sending

variable {library : CborLibrary} {mgr : TubeManager} {env : Environment} {t : Nat} {cell : Tube}
  {tree : Cbor} {cmd : SpudCommand} {adec pdec : Bool}

def Tube.cborDatagram (library : CborLibrary) (cell : Tube) (cmd : SpudCommand) (adec pdec : Bool)
    (tree : Cbor) : Datagram :=
  cell.datagram cmd adec pdec [library.encoding tree]

theorem cborDatagram_bytes (library : CborLibrary) (cell : Tube) (cmd : SpudCommand)
    (adec pdec : Bool) (tree : Cbor) :
    (cell.cborDatagram library cmd adec pdec tree).bytes =
      (sentHeader cell.id cmd adec pdec).bytes ++ library.encoding tree := by
  unfold Tube.cborDatagram Tube.datagram
  cases library.encoding tree with
  | nil => simp
  | cons first rest => simp

theorem cborDatagram_length (lawful : library.Lawful) (representable : tree.Representable) :
    (cell.cborDatagram library cmd adec pdec tree).bytes.length = spudHeaderSize + tree.size := by
  rw [cborDatagram_bytes, List.length_append, SpudHeader.length_bytes,
    lawful.minimal tree representable]

/-- `tube_send_cbor` sends what fits its own buffer. -/
theorem tubeSendCbor_sends_iff (lawful : library.Lawful) (representable : tree.Representable)
    (found : mgr.tubes.cells t = some cell) (succeeds : env.Succeeds) (datagram : Datagram) :
    mgr.Sends (tubeSendCbor env library t cmd adec pdec tree) datagram ↔
      tree.size ≤ maxBufLen ∧ datagram = cell.cborDatagram library cmd adec pdec tree := by
  have written := lawful.write maxBufLen tree representable
  rw [lawful.minimal tree representable] at written
  have sent := @tubeSend_ok _ env _ _ found cmd adec pdec [library.encoding tree]
  by_cases fits : tree.size ≤ maxBufLen
  · rw [if_pos fits] at written
    have returned : (tubeSendCbor env library t cmd adec pdec tree).straight mgr =
        .ok (true, mgr.noted [.sent (cell.cborDatagram library cmd adec pdec tree) true]) := by
      rw [tubeSendCbor, written]
      refine (Proc.straight_of_done sent).trans ?_
      rw [succeeds.answer, succeeds.effects]
      rfl
    constructor
    · rintro ⟨after, same, trace⟩
      rw [returned] at same
      cases same
      have effect := List.append_cancel_left trace
      cases effect
      exact ⟨fits, rfl⟩
    · rintro ⟨_, rfl⟩
      exact ⟨_, returned, rfl⟩
  · rw [if_neg fits] at written
    have returned : (tubeSendCbor env library t cmd adec pdec tree).straight mgr =
        .ok (false, mgr) := by
      rw [tubeSendCbor, written]
      rfl
    constructor
    · rintro ⟨after, same, _⟩
      rw [returned] at same
      cases same
    · rintro ⟨small, _⟩
      exact absurd small fits

theorem tubeData_eq (lawful : library.Lawful) (succeeds : env.Succeeds) {data : List UInt8}
    (nonempty : data ≠ []) :
    tubeData env library t data =
      tubeSendCbor env library t .spudData false false (.ofData data) := by
  have long : data.length ≠ 0 := fun none => nonempty (List.length_eq_zero_iff.mp none)
  rw [tubeData, if_neg long, if_pos (by simp [succeeds.granted]), lawful.ofData]

end Sending

section Receiving

variable {library : CborLibrary} {peer : TubeManager} {env : Environment} {hasErr : Bool}
  {received : Reception} {t : Nat} {tree : Cbor} {id : SpudTubeId}

/-- The datagram with a tree fits the buffer of the receiver. -/
theorem parse_fitting (lawful : library.Lawful) (representable : tree.Representable)
    {header : SpudHeader} (bytes : received.bytes = header.bytes ++ library.encoding tree)
    (fits : spudHeaderSize + tree.size ≤ maxBufLen) :
    spudParse library received.buf = .ok ⟨header, some tree⟩ := by
  have whole : received.buf = header.bytes ++ library.encoding tree := by
    rw [Reception.buf, bytes]
    refine List.take_of_length_le ?_
    rw [List.length_append, SpudHeader.length_bytes, lawful.minimal tree representable]
    exact fits
  have some : library.encoding tree ≠ [] := by
    rw [← List.length_pos_iff, lawful.minimal tree representable]
    exact tree.size_pos
  rw [whole, spudParse_bytes library header some, lawful.complete tree representable]

/-- The datagram with a tree is cut off by the receiver. -/
theorem parse_cut (lawful : library.Lawful) (representable : tree.Representable)
    {header : SpudHeader} (bytes : received.bytes = header.bytes ++ library.encoding tree)
    (long : maxBufLen < spudHeaderSize + tree.size) :
    ∃ reason, spudParse library received.buf = .error reason := by
  let room := maxBufLen - spudHeaderSize
  have length := lawful.minimal tree representable
  have cut : received.buf = header.bytes ++ (library.encoding tree).take room := by
    rw [Reception.buf, bytes, List.take_append, SpudHeader.length_bytes,
      List.take_of_length_le (by rw [SpudHeader.length_bytes]; decide)]
  have some : (library.encoding tree).take room ≠ [] := by
    rw [← List.length_pos_iff, List.length_take, length]
    exact lt_min (by decide) tree.size_pos
  have left : (library.encoding tree).drop room ≠ [] := by
    rw [← List.length_pos_iff, List.length_drop, length]
    have : room + spudHeaderSize = maxBufLen := rfl
    omega
  obtain ⟨reason, failed⟩ := lawful.partly tree representable _ _
    (List.take_append_drop room _).symm left
  exact ⟨.user reason, by rw [cut, spudParse_bytes library header some, failed]⟩

theorem ofFlags_sentHeader (id : SpudTubeId) (cmd : SpudCommand) (adec pdec : Bool) :
    SpudCommand.ofFlags (sentHeader id cmd adec pdec).flags = cmd :=
  SpudCommand.ofFlags_value cmd adec pdec

/-- A running tube is handed the data of the datagrams that fit the buffer, and of no
others. -/
theorem handsOver_iff (lawful : library.Lawful) (runs : peer.Runs id t)
    (granted : env.granted (.moment .data) = true) {data : List UInt8}
    (small : data.length < 2 ^ 64)
    (bytes : received.bytes =
      (sentHeader id .spudData false false).bytes ++ library.encoding (.ofData data)) :
    peer.HandsOver library env hasErr received t data ↔
      spudHeaderSize + (Cbor.ofData data).size ≤ maxBufLen := by
  have representable := Cbor.ofData_representable small
  have filled : received.buf ≠ [] := by
    refine buf_ne_nil ?_
    rw [bytes]
    exact List.append_ne_nil_of_left_ne_nil (by simp [SpudHeader.bytes]) _
  by_cases fits : spudHeaderSize + (Cbor.ofData data).size ≤ maxBufLen
  · refine iff_of_true ?_ fits
    obtain ⟨⟨find, holds⟩, stored, cell, found, running⟩ := runs
    rw [holds.lookup, Except.ok.injEq] at stored
    have parsed := parse_fitting lawful representable bytes fits
    have obeyed := @obey_data (peer.at env received) env
      ⟨t, some (.ofData data), received.source⟩ cell found running
    rw [Environment.verdict, if_pos granted, Environment.triggers,
      if_pos (show env.granted (.moment (Notice.data _).event) = true from granted)] at obeyed
    have returned : (tubeManagerLoopBody env library hasErr received).straight peer =
        .ok (.next, (peer.at env received).noted
          [.triggered (.data ⟨t, some (.ofData data), received.source⟩)]) := by
      rw [tubeManagerLoopBody_parsed filled parsed,
        handleMessage_found (holds.at env received) stored, ofFlags_sentHeader]
      exact obeyed
    exact ⟨_, .ofData data, returned, rfl, rfl⟩
  · refine iff_of_false ?_ fits
    obtain ⟨reason, rejected⟩ :=
      parse_cut lawful representable bytes (Nat.lt_of_not_le fits)
    rintro ⟨after, cbor, returned, trace, _⟩
    rw [tubeManagerLoopBody_rejected filled rejected] at returned
    cases hasErr with
    | false => cases returned
    | true =>
      cases returned
      simp [TubeManager.at] at trace

end Receiving

/-- Data that `tube_data` sends reaches every peer where the tube is running exactly
when it is short, or so long that it is not sent; and what `tube_send_cbor` sends is at
most `MAXBUFLEN` long exactly when the tree leaves room for the header, or is not sent. -/
theorem deliverable_iff {library : CborLibrary} (lawful : library.Lawful) {mgr peer : TubeManager}
    {env peerEnv : Environment} {t u : Nat} {cell : Tube} (found : mgr.tubes.cells t = some cell)
    (succeeds : env.Succeeds) (runs : peer.Runs cell.id u) (peerSucceeds : peerEnv.Succeeds)
    (hasErr : Bool) :
    (∀ data : List UInt8, data ≠ [] → data.length < 2 ^ 64 →
      ((∀ datagram received, mgr.Sends (tubeData env library t data) datagram →
          received.bytes = datagram.bytes →
          peer.HandsOver library peerEnv hasErr received u data) ↔
        data.length ≤ 1482 ∨ 1496 ≤ data.length)) ∧
    ∀ cmd adec pdec, ∀ tree : Cbor, tree.Representable →
      ((∀ datagram, mgr.Sends (tubeSendCbor env library t cmd adec pdec tree) datagram →
          datagram.bytes.length ≤ maxBufLen) ↔
        spudHeaderSize + tree.size ≤ maxBufLen ∨ maxBufLen < tree.size) := by
  constructor
  · intro data nonempty small
    have representable := Cbor.ofData_representable small
    have sends := fun datagram => @tubeSendCbor_sends_iff _ _ env t _ (.ofData data) .spudData
      false false lawful representable found succeeds datagram
    rw [tubeData_eq lawful succeeds nonempty, ← Cbor.size_ofData_iff]
    constructor
    · intro delivers
      by_contra neither
      obtain ⟨long, short⟩ := not_or.mp neither
      let datagram := cell.cborDatagram library .spudData false false (.ofData data)
      let received : Reception := arrival datagram.bytes
      have handed := delivers datagram received ((sends _).mpr ⟨Nat.le_of_not_lt short, rfl⟩) rfl
      refine long ((handsOver_iff lawful runs (peerSucceeds.granted _) small ?_).mp handed)
      exact cborDatagram_bytes ..
    · intro fits datagram received sent bytes
      obtain ⟨short, rfl⟩ := (sends _).mp sent
      refine (handsOver_iff lawful runs (peerSucceeds.granted _) small ?_).mpr ?_
      · rw [bytes, cborDatagram_bytes]
      · exact fits.resolve_right (Nat.not_lt.mpr short)
  · intro cmd adec pdec tree representable
    have sends := fun datagram => @tubeSendCbor_sends_iff _ _ env t _ tree cmd adec pdec lawful
      representable found succeeds datagram
    have length := @cborDatagram_length library cell tree cmd adec pdec lawful representable
    constructor
    · intro bounded
      by_contra neither
      obtain ⟨long, short⟩ := not_or.mp neither
      refine long ?_
      rw [← length]
      exact bounded _ ((sends _).mpr ⟨Nat.le_of_not_lt short, rfl⟩)
    · intro fits datagram sent
      obtain ⟨short, rfl⟩ := (sends _).mp sent
      rw [length]
      exact fits.resolve_right (Nat.not_lt.mpr short)

theorem exists_running : ∃ (mgr : TubeManager) (cell : Tube),
    mgr.tubes.cells 0 = some cell ∧ mgr.Runs cell.id 0 := by
  obtain ⟨verdict, mgr, find, returned, holds, _⟩ := @tubeManagerLoopBody_confined minimalCbor
    newResponder obliging (bareHeader ⟨fun _ => 7⟩ .spudOpen) _ newResponder_holds (by decide)
    obliging_refused
  cases returned
  exact ⟨_, _, rfl, ⟨find, holds⟩, rfl, _, rfl, rfl⟩

theorem deliverable_iff_seventeen : ∃ (mgr : TubeManager) (cell : Tube), mgr.Runs cell.id 0 ∧
    ∀ datagram received,
      mgr.Sends (tubeData obliging minimalCbor 0 (List.replicate 17 1)) datagram →
      received.bytes = datagram.bytes →
      mgr.HandsOver minimalCbor obliging true received 0 (List.replicate 17 1) := by
  obtain ⟨mgr, cell, found, runs⟩ := exists_running
  obtain ⟨delivers, _⟩ := deliverable_iff minimalCbor_lawful found obliging_succeeds runs
    obliging_succeeds true
  exact ⟨mgr, cell, runs, (delivers _ (by decide) (by decide)).mpr (.inl (by decide))⟩

/-- Of 1490 bytes the peer never hears, though they are reported as sent, in a datagram
longer than `MAXBUFLEN`. -/
theorem sent_but_cut : ∃ (mgr : TubeManager) (cell : Tube), mgr.Runs cell.id 0 ∧
    ∃ datagram received,
      mgr.Sends (tubeData obliging minimalCbor 0 (List.replicate 1490 1)) datagram ∧
      mgr.Sends (tubeSendCbor obliging minimalCbor 0 .spudData false false
        (.ofData (List.replicate 1490 1))) datagram ∧
      maxBufLen < datagram.bytes.length ∧ received.bytes = datagram.bytes ∧
      ¬ mgr.HandsOver minimalCbor obliging true received 0 (List.replicate 1490 1) := by
  obtain ⟨mgr, cell, found, runs⟩ := exists_running
  let data : List UInt8 := List.replicate 1490 1
  have length : data.length = 1490 := List.length_replicate
  have some : data ≠ [] := by
    rw [← List.length_pos_iff, length]
    decide
  have small : data.length < 2 ^ 64 := by
    rw [length]
    decide
  have size : (Cbor.ofData data).size = 1495 := by
    rw [Cbor.size_ofData, length]
    decide
  have representable := Cbor.ofData_representable small
  let datagram := cell.cborDatagram minimalCbor .spudData false false (.ofData data)
  have sent : mgr.Sends (tubeSendCbor obliging minimalCbor 0 .spudData false false
      (.ofData data)) datagram :=
    (tubeSendCbor_sends_iff minimalCbor_lawful representable found obliging_succeeds _).mpr
      ⟨by rw [size]; decide, rfl⟩
  refine ⟨mgr, cell, runs, datagram, arrival datagram.bytes, ?_, sent, ?_, rfl, ?_⟩
  · rw [tubeData_eq minimalCbor_lawful obliging_succeeds some]
    exact sent
  · rw [cborDatagram_length minimalCbor_lawful representable, size]
    decide
  · have bytes : (arrival datagram.bytes).bytes = _ := cborDatagram_bytes ..
    rw [handsOver_iff minimalCbor_lawful runs rfl small bytes, size]
    decide

end SpudLib
