import Mathlib.Data.Bool.AllAny
import Mathlib.Data.List.Basic

/-!
# UTF-8 text

A text is a list of Unicode scalar values and its encoding a list of bytes. `decodeLossy` reads any
bytes as a text: where no character starts it writes one replacement character for the longest
beginning of a character that stands there, and goes on behind it. `isUtf8` tells the bytes that
are the encoding of a text, and on these `decodeLossy` is the inverse of `encode`
(`decodeLossy_encode`, `isUtf8_iff`).
-/

set_option autoImplicit false
set_option relaxedAutoImplicit false

namespace DoorAccess.Utf8

/-- The bytes of a text. -/
def encode (text : List Char) : List UInt8 :=
  text.flatMap String.utf8EncodeChar

@[simp] theorem encode_nil : encode [] = [] := rfl

@[simp] theorem encode_cons (c : Char) (text : List Char) :
    encode (c :: text) = String.utf8EncodeChar c ++ encode text := rfl

@[simp] theorem encode_append (text more : List Char) :
    encode (text ++ more) = encode text ++ encode more := by
  simp only [encode, List.flatMap_append]

/-! ### One character -/

/-- The character whose encoding starts the bytes. -/
def decodeChar (s : List UInt8) : Option Char :=
  s.toByteArray.utf8DecodeChar? 0

@[simp] theorem decodeChar_encodeChar (c : Char) (rest : List UInt8) :
    decodeChar (String.utf8EncodeChar c ++ rest) = some c := by
  rw [decodeChar, List.toByteArray_append]
  exact ByteArray.utf8DecodeChar?_utf8EncodeChar_append

theorem encodeChar_ne_nil (c : Char) : String.utf8EncodeChar c ≠ [] := by
  intro h
  have hlen := congrArg List.length h
  have hpos := c.utf8Size_pos
  simp [String.length_utf8EncodeChar] at hlen
  omega

theorem encodeChar_ascii {c : Char} (hc : c.toNat < 128) :
    String.utf8EncodeChar c = [UInt8.ofNat c.toNat] := by
  have h : c.val.toNat ≤ 127 := Nat.le_of_lt_succ hc
  simp only [String.utf8EncodeChar, h, if_true]
  rfl

/-- Every byte of a character outside ASCII is a byte outside ASCII. -/
theorem le_of_mem_encodeChar {c : Char} (hc : 128 ≤ c.toNat) {b : UInt8}
    (hb : b ∈ String.utf8EncodeChar c) : 128 ≤ b.toNat := by
  have h : ¬c.val.toNat ≤ 127 := Nat.not_le.mpr hc
  simp only [String.utf8EncodeChar, h, if_false] at hb
  split at hb
  · rcases List.mem_pair.mp hb with rfl | rfl <;> rw [UInt8.toNat_ofNat'] <;> omega
  · split at hb
    all_goals
      simp only [List.mem_cons, List.not_mem_nil, or_false] at hb
      rcases hb with rfl | hb
      · rw [UInt8.toNat_ofNat']; omega
      rcases hb with rfl | hb
      · rw [UInt8.toNat_ofNat']; omega
    · subst hb
      rw [UInt8.toNat_ofNat']; omega
    · rcases hb with rfl | rfl <;> rw [UInt8.toNat_ofNat'] <;> omega

/-- The text of ASCII bytes. -/
def ofAscii (bytes : List UInt8) : List Char :=
  bytes.map fun b ↦ Char.ofNat b.toNat

theorem toNat_ofNat_of_lt {n : ℕ} (hn : n < 128) : (Char.ofNat n).toNat = n := by
  have hvalid : n.isValidChar := Or.inl (Nat.lt_trans hn (by decide))
  rw [Char.ofNat, dif_pos hvalid]
  rfl

theorem encode_ofAscii {bytes : List UInt8} (h : ∀ b ∈ bytes, b.toNat < 128) :
    encode (ofAscii bytes) = bytes := by
  induction bytes with
  | nil => rfl
  | cons b bytes ih =>
    rw [List.forall_mem_cons] at h
    have htail := ih h.2
    have hchar := toNat_ofNat_of_lt h.1
    rw [ofAscii, List.map_cons, encode_cons, encodeChar_ascii (by rw [hchar]; exact h.1), hchar,
      UInt8.ofNat_toNat]
    rw [ofAscii] at htail
    rw [htail]
    rfl

/-! ### Decoding any bytes -/

/-- The character written for bytes that are none. -/
def replacement : Char := Char.ofNat 0xFFFD

/-- Whether the second byte can follow the first in a character of at least two bytes. -/
def isSecond (first second : UInt8) : Bool :=
  if first < 0xC2 then false
  else if first < 0xE0 then 0x80 ≤ second && second ≤ 0xBF
  else if first = 0xE0 then 0xA0 ≤ second && second ≤ 0xBF
  else if first = 0xED then 0x80 ≤ second && second ≤ 0x9F
  else if first < 0xF0 then 0x80 ≤ second && second ≤ 0xBF
  else if first = 0xF0 then 0x90 ≤ second && second ≤ 0xBF
  else if first < 0xF4 then 0x80 ≤ second && second ≤ 0xBF
  else first = 0xF4 && 0x80 ≤ second && second ≤ 0x8F

/-- The length of the longest beginning of a character at the start of bytes that do not start
with a whole one; a single byte when there is none. -/
def brokenLength : List UInt8 → ℕ
  | first :: second :: third :: _ =>
    if !isSecond first second then 1
    else if 0xF0 ≤ first && 0x80 ≤ third && third ≤ 0xBF then 3
    else 2
  | [first, second] => if isSecond first second then 2 else 1
  | _ => 1

/-- `decodeLossy` within a bound on the number of characters. -/
def decodeWithin : ℕ → List UInt8 → List Char
  | 0, _ => []
  | _ + 1, [] => []
  | n + 1, b :: s =>
    match decodeChar (b :: s) with
    | some c => c :: decodeWithin n ((b :: s).drop c.utf8Size)
    | none => replacement :: decodeWithin n ((b :: s).drop (brokenLength (b :: s)))

/-- The text of any bytes, with replacement characters where they are not UTF-8. -/
def decodeLossy (s : List UInt8) : List Char :=
  decodeWithin s.length s

/-- Whether the bytes are the encoding of a text. -/
def isUtf8 (s : List UInt8) : Bool :=
  encode (decodeLossy s) == s

theorem decodeWithin_encode (text : List Char) (n : ℕ) (hn : text.length ≤ n) :
    decodeWithin n (encode text) = text := by
  induction text generalizing n with
  | nil => cases n <;> rfl
  | cons c text ih =>
    obtain ⟨m, rfl⟩ : ∃ m, n = m + 1 := ⟨n - 1, by simp at hn; omega⟩
    have hchar := decodeChar_encodeChar c (encode text)
    have hlen : (String.utf8EncodeChar c).length = c.utf8Size := String.length_utf8EncodeChar c
    have hdrop : (String.utf8EncodeChar c ++ encode text).drop c.utf8Size = encode text := by
      rw [← hlen, List.drop_left]
    rw [encode_cons]
    cases hs : String.utf8EncodeChar c ++ encode text with
    | nil => exact absurd (List.append_eq_nil_iff.mp hs).1 (encodeChar_ne_nil c)
    | cons b s =>
      rw [hs] at hchar hdrop
      simp only [decodeWithin, hchar, hdrop]
      rw [ih m (by simpa using hn)]

theorem length_le_encode (text : List Char) : text.length ≤ (encode text).length := by
  induction text with
  | nil => simp
  | cons c text ih =>
    have hpos := c.utf8Size_pos
    rw [encode_cons, List.length_append, String.length_utf8EncodeChar, List.length_cons]
    omega

@[simp] theorem decodeLossy_encode (text : List Char) : decodeLossy (encode text) = text :=
  decodeWithin_encode text _ (length_le_encode text)

theorem isUtf8_iff (s : List UInt8) : isUtf8 s = true ↔ ∃ text, encode text = s := by
  rw [isUtf8, beq_iff_eq]
  constructor
  · intro h
    exact ⟨_, h⟩
  · rintro ⟨text, rfl⟩
    rw [decodeLossy_encode]

theorem brokenLength_bounds (s : List UInt8) : 0 < brokenLength s ∧ brokenLength s ≤ 3 := by
  rw [brokenLength.eq_def]
  repeat' split
  all_goals omega

theorem length_le_encode_decodeWithin (n : ℕ) (s : List UInt8) (hn : s.length ≤ n) :
    s.length ≤ (encode (decodeWithin n s)).length := by
  induction n generalizing s with
  | zero => exact Nat.le_trans hn (Nat.zero_le _)
  | succ n ih =>
    cases s with
    | nil => exact Nat.zero_le _
    | cons b s =>
      rw [List.length_cons] at hn
      rw [decodeWithin]
      cases decodeChar (b :: s) with
      | some c =>
        have hpos := c.utf8Size_pos
        have hrest := ih ((b :: s).drop c.utf8Size)
          (by simp only [List.length_drop, List.length_cons]; omega)
        simp only [encode_cons, List.length_append, String.length_utf8EncodeChar,
          List.length_drop] at hrest ⊢
        omega
      | none =>
        obtain ⟨hpos, hle⟩ := brokenLength_bounds (b :: s)
        have hrest := ih ((b :: s).drop (brokenLength (b :: s)))
          (by simp only [List.length_drop, List.length_cons]; omega)
        have hsize : replacement.utf8Size = 3 := by decide
        simp only [encode_cons, List.length_append, String.length_utf8EncodeChar, hsize,
          List.length_drop] at hrest ⊢
        omega

/-- The text of any bytes takes no fewer bytes than these. -/
theorem length_le_encode_decodeLossy (s : List UInt8) :
    s.length ≤ (encode (decodeLossy s)).length :=
  length_le_encode_decodeWithin _ s (Nat.le_refl _)

example : decodeLossy [0x61, 0xE2, 0x80, 0x41, 0xF0, 0x9F, 0x98, 0x80]
    = ['a', replacement, 'A', Char.ofNat 0x1F600] := by decide

end DoorAccess.Utf8
