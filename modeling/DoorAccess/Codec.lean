import Mathlib.Algebra.Order.Ring.Int

/-!
# Field codecs of the door protocol

The pseudo-BCD number codec, the `name@ip:port` URI splitter, the IPv4 text form and the result
codes, as `codec.rs` and the two helpers at the end of `orchestration.rs` compute them. A Rust
string is its UTF-8 bytes (`Str`): every length, index and comparison of the source is in bytes.
-/

set_option autoImplicit false
set_option relaxedAutoImplicit false

namespace DoorAccess

/-- A Rust string, as its bytes. -/
abbrev Str := List UInt8

/-- A `[u8; 4]`: a pseudo-BCD number or an IPv4 address. -/
abbrev Octets := Vector UInt8 4

/-- The array of four bytes. -/
def octets (a b c d : UInt8) : Octets :=
  #v[a, b, c, d]

theorem octets_eta (v : Octets) : octets (v.get 0) (v.get 1) (v.get 2) (v.get 3) = v := by
  ext i hi
  match i, hi with
  | 0, _ | 1, _ | 2, _ | 3, _ => rfl

theorem octets_toList (v : Octets) : v.toList = [v.get 0, v.get 1, v.get 2, v.get 3] := by
  rw [← octets_eta v]
  rfl

namespace Codec

/-- The bytes of an ASCII text. -/
def ascii (text : String) : Str :=
  text.toList.map fun c ↦ UInt8.ofNat c.toNat

/-! ### Result codes -/

/-- `result::OK`. -/
def OK : ℤ := 0

/-- `result::ERR`. -/
def ERR : ℤ := -1

/-- `result::TIMEOUT`. -/
def TIMEOUT : ℤ := -5

/-- `result::NO_RING`. -/
def NO_RING : ℤ := -103

/-! ### Pseudo-BCD -/

inductive BcdError
  | length (got : ℕ)
  | format (ch : UInt8) (index : ℕ)
  deriving DecidableEq, Repr

def hexNibble (c : UInt8) : Option UInt8 :=
  if 48 ≤ c ∧ c ≤ 57 then some (c - 48)
  else if 97 ≤ c ∧ c ≤ 102 then some (c - 97 + 10)
  else if 65 ≤ c ∧ c ≤ 70 then some (c - 65 + 10)
  else none

/-- One iteration of the loop of `encode_bcd`: the pair of digits at `index` and `index + 1`. -/
def encodePair (hi lo : UInt8) (index : ℕ) : Except BcdError UInt8 :=
  match hexNibble hi, hexNibble lo with
  | none, _ => .error (.format hi index)
  | some _, none => .error (.format lo (index + 1))
  | some h, some l => .ok ((h <<< 4) ||| l)

def encodeBcd : Str → Except BcdError Octets
  | [c0, c1, c2, c3, c4, c5, c6, c7] => do
    let b0 ← encodePair c0 c1 0
    let b1 ← encodePair c2 c3 2
    let b2 ← encodePair c4 c5 4
    let b3 ← encodePair c6 c7 6
    return #v[b0, b1, b2, b3]
  | numStr => .error (.length numStr.length)

/-- The digits that `decode_bcd` writes. -/
def HEX : Str := ascii "0123456789abcdef"

/-- `decode_bcd`: two lower-case digits for each byte. -/
def decodeBcd (b : Octets) : Str :=
  b.toList.flatMap fun (v : UInt8) ↦ [HEX.getD (v >>> 4).toNat 0, HEX.getD (v &&& 0x0f).toNat 0]

/-! ### IPv4 text -/

/-- The decimal text of a byte. -/
def decimal (n : UInt8) : Str :=
  if n < 10 then [48 + n]
  else if n < 100 then [48 + n / 10, 48 + n % 10]
  else [48 + n / 100, 48 + n / 10 % 10, 48 + n % 10]

def ipv4Str (ip : Octets) : Str :=
  decimal ip[0] ++ 46 :: decimal ip[1] ++ 46 :: decimal ip[2] ++ 46 :: decimal ip[3]

def isDigit (c : UInt8) : Bool :=
  48 ≤ c && c ≤ 57

/-- The value of a string of decimal digits. -/
def digitsValue (s : Str) : ℕ :=
  s.foldl (fun n c ↦ n * 10 + (c.toNat - 48)) 0

/-- One octet of `Ipv4Addr::from_str`: one to three decimal digits, no leading zero, at most 255. -/
def parseOctet (s : Str) : Option UInt8 :=
  if s ≠ [] ∧ s.length ≤ 3 ∧ s.all isDigit ∧ (s.length = 1 ∨ s.head? ≠ some 48) ∧
      digitsValue s ≤ 255 then
    some (UInt8.ofNat (digitsValue s))
  else none

/-- `Ipv4Addr::from_str`: exactly four octets separated by dots. -/
def parseIpv4 (s : Str) : Option Octets :=
  match s.splitOn 46 with
  | [a, b, c, d] => do
    let a ← parseOctet a
    let b ← parseOctet b
    let c ← parseOctet c
    let d ← parseOctet d
    return #v[a, b, c, d]
  | _ => none

/-! ### URIs -/

inductive UriError
  | format
  | nameLen (got : ℕ)
  | ipv4Only
  | port
  deriving DecidableEq, Repr

/-- `str::rfind` of one ASCII byte. -/
def rfind (c : UInt8) (s : Str) : Option ℕ :=
  (s.reverse.idxOf? c).map fun i ↦ s.length - 1 - i

/-- `str::parse::<i64>`: an optional sign, then at least one decimal digit, in the range of
`i64`. -/
def parseI64 (s : Str) : Option ℤ :=
  let (negative, digits) := match s with
    | 43 :: rest => (false, rest)
    | 45 :: rest => (true, rest)
    | rest => (false, rest)
  if digits ≠ [] ∧ digits.all isDigit then
    let value : ℤ := if negative then -(digitsValue digits : ℤ) else digitsValue digits
    if -2 ^ 63 ≤ value ∧ value < 2 ^ 63 then some value else none
  else none

/-- `parse_uri`: split `name@ip:port` at the first `@` and the last colon after it. The checks run
in the order format, name length, IPv4, port. -/
def parseUri (uri : Str) : Except UriError (Str × Str × UInt16) :=
  match uri.idxOf? 64 with
  | none => .error .format
  | some at_ =>
    if 0 < at_ ∧ at_ ≠ uri.length - 1 then
      let name := uri.take at_
      let ipPort := uri.drop (at_ + 1)
      match rfind 58 ipPort with
      | none => .error .format
      | some colon =>
        if 0 < colon ∧ colon ≠ ipPort.length - 1 then
          let ip := ipPort.take colon
          let portStr := ipPort.drop (colon + 1)
          if name.length ≠ 8 then .error (.nameLen name.length)
          else if ip.contains 58 ∨ parseIpv4 ip = none then .error .ipv4Only
          else match parseI64 portStr with
            | some p =>
              if 1 ≤ p ∧ p ≤ 65535 then .ok (name, ip, UInt16.ofNat p.toNat) else .error .port
            | none => .error .port
        else .error .format
    else .error .format

end Codec

end DoorAccess
