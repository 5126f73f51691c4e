import DoorAccess.Control.Extract
import DoorAccess.Httpx.Client
import DoorAccess.Video.Preview
import DoorAccess.Video.Session

/-!
# Addresses in requests

How the handlers of `control.rs` take the URI of a door station or of a monitor apart, what they say
about one that is wrong, and the identifiers of video sessions as `session.rs` makes and checks
them: the identifier of every session passes the check of the path it is used in
(`isValidUuid_uuidV4`).

The messages quote a string in its `Debug` form, for every choice `shown` of the characters beyond
ASCII that are shown as they are.
-/

set_option autoImplicit false
set_option relaxedAutoImplicit false

namespace DoorAccess.Control

open Codec Httpx
open Video (Outdoor)

/-! ### URIs -/

/-- The text of a string that is known by its bytes. -/
def textOfStr (s : Str) : Text :=
  Utf8.decodeLossy s

/-- `str::rsplit_once` at one character. -/
def rsplitOnce (c : Char) (s : Text) : Option (Text × Text) :=
  (s.reverse.idxOf? c).map fun i ↦ (s.take (s.length - 1 - i), s.drop (s.length - i))

section Messages

variable (shown : Char → Bool)

def formatUriErr (e : UriError) (uri : Text) : Text :=
  match e with
  | .format => "uri: malformed, want name@ip:port: ".toList ++ debugStr shown uri
  | .nameLen got =>
    let name := (uri.splitOn '@').head?.getD uri
    "uri: name must be exactly 8 characters: name=".toList ++ debugStr shown name ++
      " (len=".toList ++ natText got ++ ")".toList
  | .ipv4Only =>
    let ip := (((uri.splitOn '@')[1]?.bind (rsplitOnce ':')).map Prod.fst).getD uri
    "uri: only IPv4 addresses are supported: ip=".toList ++ debugStr shown ip
  | .port =>
    let port := ((rsplitOnce ':' uri).map Prod.snd).getD []
    "uri: port must be 1-65535: port=".toList ++ debugStr shown port

def formatBcdErr (e : BcdError) (uri : Text) : Text :=
  match e with
  | .length got =>
    "bcd: name must be 8 hex digits: ".toList ++ debugStr shown uri ++ " (len=".toList ++
      natText got ++ ")".toList
  | .format ch index =>
    "bcd: invalid hex digit ".toList ++ debugChar shown (Char.ofNat ch.toNat) ++
      " at index ".toList ++ natText index ++ ": ".toList ++ debugStr shown uri

/-- `parse_uri_parts`. -/
def parseUriParts (uri : Str) : Except Text (Str × Str × UInt16) :=
  match parseUri uri with
  | .ok parts => .ok parts
  | .error e => .error (formatUriErr shown e (textOfStr uri))

/-- `parse_uri_bcd`. -/
def parseUriBcd (uri : Str) : Except Text (Octets × Str × UInt16) :=
  match parseUriParts shown uri with
  | .error msg => .error msg
  | .ok (name, ip, port) =>
    match encodeBcd name with
    | .ok bcd => .ok (bcd, ip, port)
    | .error e => .error (formatBcdErr shown e (textOfStr uri))

/-- `ParseError` of `session.rs`. -/
inductive VideoParseError
  | uri (e : UriError)
  | bcd (e : BcdError)
  deriving DecidableEq

def parseOutdoor (uri : Str) : Except VideoParseError Outdoor :=
  match parseUri uri with
  | .error e => .error (.uri e)
  | .ok (name, ip, port) =>
    match encodeBcd name with
    | .error e => .error (.bcd e)
    | .ok bcd => .ok ⟨uri, name, ip, port, bcd⟩

def videoParseErrMsg (e : VideoParseError) (uri : Text) : Text :=
  match e with
  | .uri e => formatUriErr shown e uri
  | .bcd e => formatBcdErr shown e uri

end Messages

theorem parseUriBcd_ok_iff {shown : Char → Bool} {uri : Str} {bcd : Octets} {ip : Str}
    {port : UInt16} :
    parseUriBcd shown uri = .ok (bcd, ip, port) ↔
      ∃ name, parseUri uri = .ok (name, ip, port) ∧ encodeBcd name = .ok bcd := by
  unfold parseUriBcd parseUriParts
  cases hparse : parseUri uri with
  | error e =>
    refine iff_of_false (fun h ↦ by cases h) ?_
    rintro ⟨name, h, -⟩
    cases h
  | ok parts =>
    obtain ⟨name, ip', port'⟩ := parts
    simp only [Except.ok.injEq, Prod.mk.injEq]
    cases hbcd : encodeBcd name with
    | error e =>
      refine iff_of_false (fun h ↦ by cases h) ?_
      rintro ⟨name', ⟨rfl, -⟩, h⟩
      rw [hbcd] at h
      cases h
    | ok bcd' =>
      simp only [Except.ok.injEq, Prod.mk.injEq]
      constructor
      · rintro ⟨rfl, rfl, rfl⟩
        exact ⟨name, ⟨rfl, rfl, rfl⟩, hbcd⟩
      · rintro ⟨name', ⟨rfl, rfl, rfl⟩, h⟩
        exact ⟨Except.ok.inj (hbcd.symm.trans h), rfl, rfl⟩

/-- The check of the handlers of `/unlock` and the parser of the video sessions accept the same
URIs, with the same parts. -/
theorem parseOutdoor_ok_iff {shown : Char → Bool} {uri : Str} {o : Outdoor} :
    parseOutdoor uri = .ok o ↔ o.uri = uri ∧ parseUri uri = .ok (o.name, o.ip, o.port) ∧
      parseUriBcd shown uri = .ok (o.bcdName, o.ip, o.port) := by
  obtain ⟨uri', name, ip, port, bcd⟩ := o
  simp only [parseUriBcd_ok_iff]
  unfold parseOutdoor
  cases hparse : parseUri uri with
  | error e =>
    refine iff_of_false (fun h ↦ by cases h) ?_
    rintro ⟨-, h, -⟩
    cases h
  | ok parts =>
    obtain ⟨name', ip', port'⟩ := parts
    simp only [Except.ok.injEq, Prod.mk.injEq]
    cases hbcd : encodeBcd name' with
    | error e =>
      refine iff_of_false (fun h ↦ by cases h) ?_
      rintro ⟨-, -, name'', ⟨rfl, -⟩, h⟩
      rw [hbcd] at h
      cases h
    | ok bcd' =>
      simp only [Except.ok.injEq, Outdoor.mk.injEq]
      constructor
      · rintro ⟨rfl, rfl, rfl, rfl, rfl⟩
        exact ⟨rfl, ⟨rfl, rfl, rfl⟩, name', ⟨rfl, rfl, rfl⟩, hbcd⟩
      · rintro ⟨rfl, ⟨rfl, rfl, rfl⟩, name'', ⟨rfl, -, -⟩, h⟩
        exact ⟨rfl, rfl, rfl, rfl, Except.ok.inj (hbcd.symm.trans h)⟩

/-! ### Session identifiers -/

/-- `u8::is_ascii_hexdigit`. -/
def isAsciiHexdigit (c : UInt8) : Bool :=
  (hexNibble c).isSome

/-- The positions of the hyphens in a UUID. -/
def isHyphenPosition (i : ℕ) : Bool :=
  i == 8 || i == 13 || i == 18 || i == 23

def isValidUuid (s : Str) : Bool :=
  s.length == 36 &&
    s.zipIdx.all fun (c, i) ↦ if isHyphenPosition i then c == 45 else isAsciiHexdigit c

/-- The two digits that `uuid_v4_from` writes for a byte. -/
def hexPair (b : UInt8) : Str :=
  [HEX.getD (b >>> 4).toNat 0, HEX.getD (b &&& 0x0f).toNat 0]

/-- `uuid_v4_from`, of the sixteen bytes that the random source gives. -/
def uuidV4 (random : Vector UInt8 16) : Str :=
  let b := (random.set 6 ((random[6] &&& 0x0f) ||| 0x40)).set 8 ((random[8] &&& 0x3f) ||| 0x80)
  b.toList.zipIdx.flatMap fun (by_, i) ↦
    (if i = 4 ∨ i = 6 ∨ i = 8 ∨ i = 10 then [45] else []) ++ hexPair by_

theorem hexPair_isHex (b : UInt8) : ∃ hi lo, hexPair b = [hi, lo] ∧
    isAsciiHexdigit hi = true ∧ isAsciiHexdigit lo = true := by
  have hall : ∀ k < 256, isAsciiHexdigit (HEX.getD (UInt8.ofNat k >>> 4).toNat 0) = true ∧
      isAsciiHexdigit (HEX.getD (UInt8.ofNat k &&& 0x0f).toNat 0) = true := by
    decide +kernel
  have hb := hall b.toNat b.toNat_lt
  rw [UInt8.ofNat_toNat] at hb
  exact ⟨_, _, rfl, hb⟩

/-- Every identifier that is made passes the check. -/
theorem isValidUuid_uuidV4 (random : Vector UInt8 16) : isValidUuid (uuidV4 random) = true := by
  have hbytes (b : List UInt8) (hb : b.length = 16) : isValidUuid (b.zipIdx.flatMap
      fun (by_, i) ↦ (if i = 4 ∨ i = 6 ∨ i = 8 ∨ i = 10 then [45] else []) ++ hexPair by_) =
        true := by
    match b, hb with
    | [b0, b1, b2, b3, b4, b5, b6, b7, b8, b9, b10, b11, b12, b13, b14, b15], _ =>
      obtain ⟨_, _, h0, h0h, h0l⟩ := hexPair_isHex b0
      obtain ⟨_, _, h1, h1h, h1l⟩ := hexPair_isHex b1
      obtain ⟨_, _, h2, h2h, h2l⟩ := hexPair_isHex b2
      obtain ⟨_, _, h3, h3h, h3l⟩ := hexPair_isHex b3
      obtain ⟨_, _, h4, h4h, h4l⟩ := hexPair_isHex b4
      obtain ⟨_, _, h5, h5h, h5l⟩ := hexPair_isHex b5
      obtain ⟨_, _, h6, h6h, h6l⟩ := hexPair_isHex b6
      obtain ⟨_, _, h7, h7h, h7l⟩ := hexPair_isHex b7
      obtain ⟨_, _, h8, h8h, h8l⟩ := hexPair_isHex b8
      obtain ⟨_, _, h9, h9h, h9l⟩ := hexPair_isHex b9
      obtain ⟨_, _, h10, h10h, h10l⟩ := hexPair_isHex b10
      obtain ⟨_, _, h11, h11h, h11l⟩ := hexPair_isHex b11
      obtain ⟨_, _, h12, h12h, h12l⟩ := hexPair_isHex b12
      obtain ⟨_, _, h13, h13h, h13l⟩ := hexPair_isHex b13
      obtain ⟨_, _, h14, h14h, h14l⟩ := hexPair_isHex b14
      obtain ⟨_, _, h15, h15h, h15l⟩ := hexPair_isHex b15
      simp [isValidUuid, isHyphenPosition, *]
  exact hbytes _ Vector.length_toList

end DoorAccess.Control
