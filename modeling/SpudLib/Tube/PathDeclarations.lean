import SpudLib.Tube.Delivery
import SpudLib.Tube.Routes

/-!
# Path declarations

An element of the path declares itself with a map of three entries.  What
`tube_send_pdec` sends of it is data to the receiver, which reports the very map.
-/

namespace SpudLib

open TubeManager

/-- The bytes of a string of the source, without the one that ends it. -/
def ascii (text : String) : List UInt8 := text.toList.map fun letter => .ofNat letter.toNat

def spudIpaddr : List UInt8 := ascii "ipaddr"

def spudToken : List UInt8 := ascii "token"

def spudUrl : List UInt8 := ascii "url"

namespace Cbor

def ofPath (ipadress token url : List UInt8) : Cbor :=
  .map [.text spudIpaddr, .bytes ipadress, .text spudToken, .bytes token, .text spudUrl,
    .text url]

def boundText (key : List UInt8) : List Cbor → Option Cbor
  | .text name :: value :: rest => if name = key then some value else boundText key rest
  | _ :: _ :: rest => boundText key rest
  | _ => none

def lookupText (tree : Cbor) (key : List UInt8) : Option Cbor :=
  match tree with
  | .map children => boundText key children
  | _ => none

end Cbor

namespace CborLibrary

/-- `_mapput_string_data`, its allocations granted. -/
def mapputStringData (library : CborLibrary) (map : Cbor) (key data : List UInt8) : Cbor :=
  library.mapputString map key (library.dataCreate data)

/-- `_mapput_string_string`, its allocations granted. -/
def mapputStringString (library : CborLibrary) (map : Cbor) (key data : List UInt8) : Cbor :=
  library.mapputString map key (library.stringCreate data)

end CborLibrary

/-- `path_mandatory_keys_create`; the URL is without the byte that ends it. -/
def pathMandatoryKeysCreate (env : Environment) (library : CborLibrary)
    (ipadress token url : List UInt8) : Option Cbor :=
  if env.granted .pool && env.granted .cborMap && env.granted .cborData
      && env.granted .cborEntry then
    let map := library.mapputStringData library.mapCreate spudIpaddr ipadress
    let map := library.mapputStringData map spudToken token
    some (library.mapputStringString map spudUrl url)
  else none

namespace Cbor

def stringSize (content : List UInt8) : Nat := headSize content.length + content.length

theorem ofPath_representable {ipadress token url : List UInt8}
    (addressFits : ipadress.length < 2 ^ 31) (tokenFits : token.length < 2 ^ 31)
    (urlFits : url.length < 2 ^ 31) : (ofPath ipadress token url).Representable := by
  have addressKey : spudIpaddr.length = 6 := by decide
  have tokenKey : spudToken.length = 5 := by decide
  have urlKey : spudUrl.length = 3 := by decide
  simp only [ofPath, Representable, RepresentableAll, List.length_cons, List.length_nil,
    addressKey, tokenKey, urlKey, true_and, and_true]
  omega

theorem size_ofPath (ipadress token url : List UInt8) :
    (ofPath ipadress token url).size =
      18 + stringSize ipadress + stringSize token + stringSize url := by
  have entries : headSize ([text spudIpaddr, .bytes ipadress, text spudToken, .bytes token,
      text spudUrl, .text url].length / 2) = 1 := by simp [headSize]
  have addressKey : headSize spudIpaddr.length + spudIpaddr.length = 7 := by decide
  have tokenKey : headSize spudToken.length + spudToken.length = 6 := by decide
  have urlKey : headSize spudUrl.length + spudUrl.length = 4 := by decide
  simp only [ofPath, size, sizeAll, stringSize, entries]
  omega

theorem lookupText_ofPath (ipadress token url : List UInt8) :
    (ofPath ipadress token url).lookupText spudIpaddr = some (.bytes ipadress) ∧
    (ofPath ipadress token url).lookupText spudToken = some (.bytes token) ∧
    (ofPath ipadress token url).lookupText spudUrl = some (.text url) := by
  have token_ne : spudIpaddr ≠ spudToken := by decide
  have url_ne : spudIpaddr ≠ spudUrl := by decide
  have url_ne_token : spudToken ≠ spudUrl := by decide
  simp [ofPath, lookupText, boundText, token_ne, url_ne, url_ne_token]

end Cbor

theorem CborLibrary.Lawful.ofPath {library : CborLibrary} (lawful : library.Lawful)
    (ipadress token url : List UInt8) :
    library.mapputStringString (library.mapputStringData
      (library.mapputStringData library.mapCreate spudIpaddr ipadress) spudToken token)
      spudUrl url = .ofPath ipadress token url := by
  simp only [CborLibrary.mapputStringString, CborLibrary.mapputStringData, lawful.mapCreate,
    lawful.dataCreate, lawful.stringCreate, lawful.mapputString]
  rfl

/-- The loop reports the datagram as data for a tube, with the tree. -/
def TubeManager.Reports (mgr : TubeManager) (library : CborLibrary) (env : Environment)
    (hasErr : Bool) (received : Reception) (t : Nat) (tree : Cbor) : Prop :=
  ∃ after, (tubeManagerLoopBody env library hasErr received).straight mgr = .ok (.next, after) ∧
    after.trace = mgr.trace ++ [.triggered (.data ⟨t, some tree, received.source⟩)]

section Conveying

variable {library : CborLibrary} {mgr peer : TubeManager} {env peerEnv : Environment}
  {hasErr adec pdec : Bool} {received : Reception} {t u : Nat} {tree : Cbor} {id : SpudTubeId}

theorem reports_iff (lawful : library.Lawful) (representable : tree.Representable)
    (runs : peer.Runs id t) (granted : env.granted (.moment .data) = true)
    (bytes : received.bytes =
      (sentHeader id .spudData adec pdec).bytes ++ library.encoding tree) :
    peer.Reports library env hasErr received t tree ↔
      spudHeaderSize + tree.size ≤ maxBufLen := by
  have filled : received.buf ≠ [] := by
    refine buf_ne_nil ?_
    rw [bytes]
    exact List.append_ne_nil_of_left_ne_nil (by simp [SpudHeader.bytes]) _
  by_cases fits : spudHeaderSize + tree.size ≤ maxBufLen
  · refine iff_of_true ?_ fits
    obtain ⟨⟨find, holds⟩, stored, cell, found, running⟩ := runs
    rw [holds.lookup, Except.ok.injEq] at stored
    have parsed := parse_fitting lawful representable bytes fits
    have obeyed := @obey_data (peer.at env received) env ⟨t, some tree, received.source⟩ cell
      found running
    have heard : env.granted (.moment (Notice.data ⟨t, some tree, received.source⟩).event) =
      true := granted
    rw [Environment.verdict, if_pos granted, Environment.triggers, if_pos heard] at obeyed
    have returned : (tubeManagerLoopBody env library hasErr received).straight peer =
        .ok (.next, (peer.at env received).noted
          [.triggered (.data ⟨t, some tree, received.source⟩)]) := by
      rw [tubeManagerLoopBody_parsed filled parsed,
        handleMessage_found (holds.at env received) stored, ofFlags_sentHeader]
      exact obeyed
    exact ⟨_, returned, rfl⟩
  · refine iff_of_false ?_ fits
    obtain ⟨reason, rejected⟩ := parse_cut lawful representable bytes (Nat.lt_of_not_le fits)
    rintro ⟨after, returned, trace⟩
    rw [tubeManagerLoopBody_rejected filled rejected] at returned
    cases hasErr with
    | false => cases returned
    | true =>
      cases returned
      simp [TubeManager.at] at trace

/-- A tree sent as data is reported by every peer where the tube is running exactly when it
leaves room for the header, or is not sent. -/
theorem conveys_iff (lawful : library.Lawful) (representable : tree.Representable) {cell : Tube}
    (found : mgr.tubes.cells t = some cell) (succeeds : env.Succeeds) (runs : peer.Runs cell.id u)
    (peerSucceeds : peerEnv.Succeeds) :
    (∀ datagram received,
        mgr.Sends (tubeSendCbor env library t .spudData adec pdec tree) datagram →
        received.bytes = datagram.bytes →
        peer.Reports library peerEnv hasErr received u tree) ↔
      spudHeaderSize + tree.size ≤ maxBufLen ∨ maxBufLen < tree.size := by
  have sends := fun datagram => @tubeSendCbor_sends_iff _ _ env t _ tree .spudData adec pdec
    lawful representable found succeeds datagram
  constructor
  · intro conveys
    rcases Nat.lt_or_ge maxBufLen tree.size with long | short
    · exact .inr long
    · let datagram := cell.cborDatagram library .spudData adec pdec tree
      have bytes : (arrival datagram.bytes).bytes = _ :=
        cborDatagram_bytes library cell .spudData adec pdec tree
      have reported := conveys datagram (arrival datagram.bytes) ((sends _).mpr ⟨short, rfl⟩) rfl
      exact .inl ((reports_iff lawful representable runs (peerSucceeds.granted _) bytes).mp
        reported)
  · intro fits datagram received sent bytes
    obtain ⟨short, rfl⟩ := (sends _).mp sent
    rw [cborDatagram_bytes] at bytes
    refine (reports_iff lawful representable runs (peerSucceeds.granted _) bytes).mpr ?_
    exact fits.resolve_right (Nat.not_lt.mpr short)

end Conveying

/-- A declaration is built with its three entries, and what `tube_send_pdec` sends of it is
reported by every peer where the tube is running, entry for entry, exactly when its strings
leave room for the header, or are so long that nothing is sent.  The lengths are C integers. -/
theorem declares_iff {library : CborLibrary} (lawful : library.Lawful) {mgr peer : TubeManager}
    {env peerEnv : Environment} {t u : Nat} {cell : Tube} (found : mgr.tubes.cells t = some cell)
    (succeeds : env.Succeeds) (runs : peer.Runs cell.id u) (peerSucceeds : peerEnv.Succeeds)
    (hasErr : Bool) (ipadress token url : List UInt8) (addressFits : ipadress.length < 2 ^ 31)
    (tokenFits : token.length < 2 ^ 31) (urlFits : url.length < 2 ^ 31) :
    ∃ declaration, pathMandatoryKeysCreate env library ipadress token url = some declaration ∧
      declaration.lookupText spudIpaddr = some (.bytes ipadress) ∧
      declaration.lookupText spudToken = some (.bytes token) ∧
      declaration.lookupText spudUrl = some (.text url) ∧
      ∀ reflect,
        ((∀ datagram received,
            mgr.Sends (tubeSendPdec env library t declaration reflect) datagram →
            received.bytes = datagram.bytes →
            peer.Reports library peerEnv hasErr received u declaration) ↔
          31 + Cbor.stringSize ipadress + Cbor.stringSize token + Cbor.stringSize url ≤ maxBufLen ∨
          maxBufLen <
            18 + Cbor.stringSize ipadress + Cbor.stringSize token + Cbor.stringSize url) := by
  have created : pathMandatoryKeysCreate env library ipadress token url =
      some (.ofPath ipadress token url) := by
    have granted : (env.granted .pool && env.granted .cborMap && env.granted .cborData &&
        env.granted .cborEntry) = true := by
      simp only [succeeds.granted, Bool.and_self]
    rw [pathMandatoryKeysCreate, if_pos granted]
    exact congrArg some (lawful.ofPath ipadress token url)
  obtain ⟨address, identity, page⟩ := Cbor.lookupText_ofPath ipadress token url
  refine ⟨_, created, address, identity, page, ?_⟩
  intro reflect
  have representable := Cbor.ofPath_representable addressFits tokenFits urlFits
  rw [tubeSendPdec, conveys_iff lawful representable found succeeds runs peerSucceeds,
    Cbor.size_ofPath, ← Nat.add_assoc, ← Nat.add_assoc, ← Nat.add_assoc]
  rfl

theorem declares_iff_short : ∃ (mgr : TubeManager) (cell : Tube) (declaration : Cbor),
    mgr.Runs cell.id 0 ∧
    pathMandatoryKeysCreate obliging minimalCbor [192, 168, 0, 0] [42, 42, 42, 42, 42]
      (ascii "http://example.com") = some declaration ∧
    ∀ datagram received,
      mgr.Sends (tubeSendPdec obliging minimalCbor 0 declaration true) datagram →
      received.bytes = datagram.bytes →
      mgr.Reports minimalCbor obliging true received 0 declaration := by
  obtain ⟨mgr, cell, found, runs⟩ := exists_running
  obtain ⟨declaration, created, _, _, _, arrives⟩ := declares_iff minimalCbor_lawful found
    obliging_succeeds runs obliging_succeeds true [192, 168, 0, 0] [42, 42, 42, 42, 42]
    (ascii "http://example.com") (by decide) (by decide) (by decide)
  exact ⟨mgr, cell, declaration, runs, created, (arrives true).mpr (.inl (by decide))⟩

end SpudLib
