import DoorAccess.Control.Json

/-!
# The JSON encoder

`httpx/json.rs` writes every JSON body the daemon sends. A Rust string is here its list of
characters, since `write_string` escapes character by character; the two maps of the source are
their entries in the order of iteration.

The bytes of `writeValue` spell the tree `written`, whose tokens are those of RFC 8259, so that
both checkers of the control plane accept them, and the value of that tree is the value that was
encoded.
-/

set_option autoImplicit false
set_option relaxedAutoImplicit false

namespace DoorAccess.Httpx

open Json

/-- `JsonValue`. The number of the source is an `i64`; nothing here depends on its range. -/
inductive JsonValue
  | null
  | bool (b : Bool)
  | number (n : ℤ)
  | string (s : List Char)
  | array (items : List JsonValue)
  | struct (fields : List (List Char × JsonValue))
  | map (fields : List (List Char × JsonValue))

structure JsonOptions where
  escapeHtml : Bool
  trailingNewline : Bool
  deriving DecidableEq

def JsonOptions.MARSHAL : JsonOptions where
  escapeHtml := true
  trailingNewline := false

def JsonOptions.ENCODE : JsonOptions where
  escapeHtml := false
  trailingNewline := true

/-- `i64::to_string`. -/
def decimalText (n : ℤ) : List UInt8 :=
  (if n < 0 then [45] else []) ++ Radix.text 10 n.natAbs

/-- `write_unicode_escape`: the code in lower-case hexadecimal, padded to four digits. -/
def writeUnicodeEscape (code : ℕ) : List UInt8 :=
  [92, 117] ++ (Radix.text 16 code).leftpad 4 48

/-- What the loop of `write_string` writes for one character. -/
def writeChar (escapeHtml : Bool) (ch : Char) : List UInt8 :=
  if ch = '"' then [92, 34]
  else if ch = '\\' then [92, 92]
  else if ch = '\n' then [92, 110]
  else if ch = '\r' then [92, 114]
  else if ch = '\t' then [92, 116]
  else if ch = Char.ofNat 0x08 then [92, 98]
  else if ch = Char.ofNat 0x0c then [92, 102]
  else if ch.toNat < 0x20 then writeUnicodeEscape ch.toNat
  else if ch = '<' ∧ escapeHtml = true then [92, 117, 48, 48, 51, 99]
  else if ch = '>' ∧ escapeHtml = true then [92, 117, 48, 48, 51, 101]
  else if ch = '&' ∧ escapeHtml = true then [92, 117, 48, 48, 50, 54]
  else if ch = Char.ofNat 0x2028 then writeUnicodeEscape 0x2028
  else if ch = Char.ofNat 0x2029 then writeUnicodeEscape 0x2029
  else String.utf8EncodeChar ch

/-- What `write_string` writes between the quotes. -/
def stringContent (escapeHtml : Bool) (s : List Char) : List UInt8 :=
  s.flatMap (writeChar escapeHtml)

def writeString (s : List Char) (escapeHtml : Bool) : List UInt8 :=
  34 :: stringContent escapeHtml s ++ [34]

/-- The comma in front of every item but the first. -/
def comma (i : ℕ) : List UInt8 :=
  if 0 < i then [44] else []

mutual

def writeValue (opts : JsonOptions) : JsonValue → List UInt8
  | .null => [110, 117, 108, 108]
  | .bool true => [116, 114, 117, 101]
  | .bool false => [102, 97, 108, 115, 101]
  | .number n => decimalText n
  | .string s => writeString s opts.escapeHtml
  | .array items => 91 :: writeItems opts 0 items ++ [93]
  | .struct fields => 123 :: writeFields opts 0 fields ++ [125]
  | .map fields => 123 :: writeFields opts 0 fields ++ [125]

/-- The loop over an array, with the index of the next item. -/
def writeItems (opts : JsonOptions) (i : ℕ) : List JsonValue → List UInt8
  | [] => []
  | item :: items => comma i ++ writeValue opts item ++ writeItems opts (i + 1) items

/-- The loop over the fields of an object, with the index of the next one. -/
def writeFields (opts : JsonOptions) (i : ℕ) : List (List Char × JsonValue) → List UInt8
  | [] => []
  | (k, v) :: fields =>
    comma i ++ writeString k opts.escapeHtml ++ 58 :: writeValue opts v ++
      writeFields opts (i + 1) fields

end

/-- The end of every encoding. -/
def newline (opts : JsonOptions) : List UInt8 :=
  if opts.trailingNewline then [10] else []

def encodeStruct (fields : List (List Char × JsonValue)) (opts : JsonOptions) : List UInt8 :=
  123 :: writeFields opts 0 fields ++ [125] ++ newline opts

/-- `encode_map`, whose fields come in the order of their keys. -/
def encodeMap (fields : List (List Char × JsonValue)) (opts : JsonOptions) : List UInt8 :=
  123 :: writeFields opts 0 fields ++ [125] ++ newline opts

def encodeValue (value : JsonValue) (opts : JsonOptions) : List UInt8 :=
  writeValue opts value ++ newline opts

/-! ### The tree that is written -/

mutual

/-- The tokens of an encoded value. -/
def written (opts : JsonOptions) : JsonValue → Written
  | .null => .null
  | .bool b => .bool b
  | .number n => .number (decimalText n)
  | .string s => .string (stringContent opts.escapeHtml s)
  | .array items => .array (writtenItems opts items)
  | .struct fields => .object (writtenFields opts fields)
  | .map fields => .object (writtenFields opts fields)

def writtenItems (opts : JsonOptions) : List JsonValue → List Written
  | [] => []
  | item :: items => written opts item :: writtenItems opts items

def writtenFields (opts : JsonOptions) : List (List Char × JsonValue) → List (List UInt8 × Written)
  | [] => []
  | (k, v) :: fields =>
    (stringContent opts.escapeHtml k, written opts v) :: writtenFields opts fields

end

mutual

/-- The value that is encoded, as a JSON value: both kinds of objects are lists of members. -/
def JsonValue.denote : JsonValue → Value
  | .null => .null
  | .bool b => .bool b
  | .number n => .number n
  | .string s => .string s
  | .array items => .array (denoteItems items)
  | .struct fields => .object (denoteFields fields)
  | .map fields => .object (denoteFields fields)

def JsonValue.denoteItems : List JsonValue → List Value
  | [] => []
  | item :: items => item.denote :: denoteItems items

def JsonValue.denoteFields : List (List Char × JsonValue) → List (List Char × Value)
  | [] => []
  | (k, v) :: fields => (k, v.denote) :: denoteFields fields

end

/-! ### Strings -/

theorem hexDigit_spec {d : ℕ} (hd : d < 16) :
    isHexDigit (Radix.digit d) = true ∧ hexValue (Char.ofNat (Radix.digit d).toNat) = d := by
  revert d
  decide

/-- Four digits are enough for a code unit, and they stand for it. -/
theorem writeUnicodeEscape_spec {n : ℕ} (hn : n < 0x10000) :
    ∃ a b c d, writeUnicodeEscape n = [92, 117, a, b, c, d] ∧
      (∀ x ∈ [a, b, c, d], isHexDigit x = true) ∧
      unitValue (Char.ofNat a.toNat) (Char.ofNat b.toNat) (Char.ofNat c.toNat)
        (Char.ofNat d.toNat) = n := by
  have hlen : ((Radix.text 16 n).leftpad 4 48).length = 4 := by
    have htext : (Radix.text 16 n).length ≤ 4 := Radix.length_text_le (by decide) (by decide) hn
    rw [List.length_leftpad]
    omega
  have hdigits : ∀ x ∈ (Radix.text 16 n).leftpad 4 48, ∃ d, d < 16 ∧ x = Radix.digit d := by
    intro x hx
    rw [List.leftpad, List.mem_append] at hx
    rcases hx with hx | hx
    · exact ⟨0, by decide, List.eq_of_mem_replicate hx⟩
    · exact Radix.mem_text (by decide) hx
  have hvalue : Radix.value 16 ((Radix.text 16 n).leftpad 4 48) = n := by
    rw [Radix.value_leftpad, Radix.value_text (by decide) (by decide)]
  rw [writeUnicodeEscape]
  match hpad : (Radix.text 16 n).leftpad 4 48, hlen with
  | [a, b, c, d], _ =>
    rw [hpad] at hdigits hvalue
    simp only [List.forall_mem_cons, List.not_mem_nil, false_implies, implies_true, and_true]
      at hdigits
    obtain ⟨⟨i, hi, rfl⟩, ⟨j, hj, rfl⟩, ⟨k, hk, rfl⟩, l, hl, rfl⟩ := hdigits
    refine ⟨_, _, _, _, rfl, ?_, ?_⟩
    · simp only [List.forall_mem_cons, List.not_mem_nil, false_implies, implies_true, and_true]
      exact ⟨(hexDigit_spec hi).1, (hexDigit_spec hj).1, (hexDigit_spec hk).1, (hexDigit_spec hl).1⟩
    · simp only [Radix.value, List.foldl_cons, List.foldl_nil, Radix.digitValue_digit, hi, hj, hk,
        hl] at hvalue
      rw [unitValue, (hexDigit_spec hi).2, (hexDigit_spec hj).2, (hexDigit_spec hk).2,
        (hexDigit_spec hl).2]
      omega

/-- What a character is written as: an escape of two bytes, an escape with four hexadecimal digits,
or itself, and then it is none of the characters that have to be escaped. -/
inductive WrittenAs (escapeHtml : Bool) (ch : Char) : Prop
  | short (d : UInt8) : isShortEscape d = true → writeChar escapeHtml ch = [92, d] →
      shortEscape (Char.ofNat d.toNat) = ch → WrittenAs escapeHtml ch
  | unicode (n : ℕ) : n < 0xD800 →
      writeChar escapeHtml ch = writeUnicodeEscape n → Char.ofNat n = ch → WrittenAs escapeHtml ch
  | plain : writeChar escapeHtml ch = String.utf8EncodeChar ch → 32 ≤ ch.toNat → ch ≠ '"' →
      ch ≠ '\\' → ch ≠ Char.ofNat 0x2028 → ch ≠ Char.ofNat 0x2029 →
      (escapeHtml = true → ch ≠ '<' ∧ ch ≠ '>' ∧ ch ≠ '&') → WrittenAs escapeHtml ch

theorem writtenAs (escapeHtml : Bool) (ch : Char) : WrittenAs escapeHtml ch := by
  by_cases h₁ : ch = '"'
  · exact .short 34 (by decide) (by simp [writeChar, h₁]) (by rw [h₁]; decide)
  by_cases h₂ : ch = '\\'
  · exact .short 92 (by decide) (by simp [writeChar, h₂]) (by rw [h₂]; decide)
  by_cases h₃ : ch = '\n'
  · exact .short 110 (by decide) (by simp [writeChar, h₃]) (by rw [h₃]; decide)
  by_cases h₄ : ch = '\r'
  · exact .short 114 (by decide) (by simp [writeChar, h₄]) (by rw [h₄]; decide)
  by_cases h₅ : ch = '\t'
  · exact .short 116 (by decide) (by simp [writeChar, h₅]) (by rw [h₅]; decide)
  by_cases h₆ : ch = Char.ofNat 0x08
  · exact .short 98 (by decide) (by rw [h₆]; cases escapeHtml <;> decide) (by rw [h₆]; decide)
  by_cases h₇ : ch = Char.ofNat 0x0c
  · exact .short 102 (by decide) (by rw [h₇]; cases escapeHtml <;> decide) (by rw [h₇]; decide)
  by_cases h₈ : ch.toNat < 0x20
  · exact .unicode ch.toNat (by omega) (by simp only [writeChar, h₁, h₂, h₃, h₄, h₅, h₆, h₇, h₈,
      if_false, if_true]) (Char.ofNat_toNat ch)
  by_cases h₉ : ch = '<' ∧ escapeHtml = true
  · exact .unicode 60 (by decide) (by rw [h₉.1, h₉.2]; decide +kernel) h₉.1.symm
  by_cases h₁₀ : ch = '>' ∧ escapeHtml = true
  · exact .unicode 62 (by decide) (by rw [h₁₀.1, h₁₀.2]; decide +kernel) h₁₀.1.symm
  by_cases h₁₁ : ch = '&' ∧ escapeHtml = true
  · exact .unicode 38 (by decide) (by rw [h₁₁.1, h₁₁.2]; decide +kernel) h₁₁.1.symm
  have hrest : writeChar escapeHtml ch = if ch = Char.ofNat 0x2028 then writeUnicodeEscape 0x2028
      else if ch = Char.ofNat 0x2029 then writeUnicodeEscape 0x2029
      else String.utf8EncodeChar ch := by
    simp only [writeChar, h₁, h₂, h₃, h₄, h₅, h₆, h₇, h₈, h₉, h₁₀, h₁₁, if_false]
  by_cases h₁₂ : ch = Char.ofNat 0x2028
  · exact .unicode 0x2028 (by decide) (by rw [hrest, if_pos h₁₂]) h₁₂.symm
  by_cases h₁₃ : ch = Char.ofNat 0x2029
  · exact .unicode 0x2029 (by decide) (by rw [hrest, if_neg h₁₂, if_pos h₁₃]) h₁₃.symm
  refine .plain (by rw [hrest, if_neg h₁₂, if_neg h₁₃]) (by omega) h₁ h₂ h₁₂ h₁₃ fun hhtml ↦ ?_
  exact ⟨fun h ↦ h₉ ⟨h, hhtml⟩, fun h ↦ h₁₀ ⟨h, hhtml⟩, fun h ↦ h₁₁ ⟨h, hhtml⟩⟩

theorem plain_bytes {ch : Char} (hch : 32 ≤ ch.toNat) (hquote : ch ≠ '"')
    (hbackslash : ch ≠ '\\') :
    ∀ b ∈ String.utf8EncodeChar ch, 32 ≤ b ∧ b ≠ 34 ∧ b ≠ 92 := by
  have hne : ∀ d : Char, ch ≠ d → ch.toNat ≠ d.toNat :=
    fun d hd h ↦ hd (Char.toNat_inj.mp h)
  intro b hb
  simp only [UInt8.le_iff_toNat_le, ne_eq, ← UInt8.toNat_inj]
  by_cases hascii : ch.toNat < 128
  · rw [Utf8.encodeChar_ascii hascii, List.mem_singleton] at hb
    have htoNat : b.toNat = ch.toNat := by
      rw [hb, UInt8.toNat_ofNat']
      omega
    rw [htoNat]
    exact ⟨hch, hne '"' hquote, hne '\\' hbackslash⟩
  · have hhigh := Utf8.le_of_mem_encodeChar (by omega) hb
    refine ⟨?_, ?_, ?_⟩
    · exact le_trans (by decide) hhigh
    · intro h
      rw [h] at hhigh
      exact absurd hhigh (by decide)
    · intro h
      rw [h] at hhigh
      exact absurd hhigh (by decide)

theorem stringToken_writeChar (escapeHtml : Bool) (ch : Char) {raw : List UInt8}
    (hraw : StringToken raw) : StringToken (writeChar escapeHtml ch ++ raw) := by
  cases writtenAs escapeHtml ch with
  | short d hd hwrite _ =>
    rw [hwrite]
    exact .short hd hraw
  | unicode n hn hwrite _ =>
    obtain ⟨a, b, c, d, hescape, hhex, -⟩ := writeUnicodeEscape_spec (n := n) (by omega)
    rw [hwrite, hescape]
    simp only [List.forall_mem_cons] at hhex
    exact .unicode hhex.1 hhex.2.1 hhex.2.2.1 hhex.2.2.2.1 hraw
  | plain hwrite hch hquote hbackslash =>
    rw [hwrite]
    exact hraw.append_plain (plain_bytes hch hquote hbackslash)

theorem stringToken_content (escapeHtml : Bool) (s : List Char) :
    StringToken (stringContent escapeHtml s) := by
  induction s with
  | nil => exact .nil
  | cons ch s ih => exact stringToken_writeChar escapeHtml ch ih

/-- A character that may stand in the output as it is. -/
def Clean (escapeHtml : Bool) (c : Char) : Prop :=
  32 ≤ c.toNat ∧ c ≠ Char.ofNat 0x2028 ∧ c ≠ Char.ofNat 0x2029 ∧
    (escapeHtml = true → c ≠ '<' ∧ c ≠ '>' ∧ c ≠ '&')

/-- The bytes are the UTF-8 encoding of a text of clean characters. -/
def CleanBytes (escapeHtml : Bool) (bytes : List UInt8) : Prop :=
  ∃ text, bytes = Utf8.encode text ∧ ∀ c ∈ text, Clean escapeHtml c

theorem isHexDigit_bounds {d : UInt8} (hd : isHexDigit d = true) :
    (48 ≤ d.toNat ∧ d.toNat ≤ 57) ∨ (65 ≤ d.toNat ∧ d.toNat ≤ 102) := by
  simp only [isHexDigit, isDigit, Bool.or_eq_true, Bool.and_eq_true, decide_eq_true_eq,
    UInt8.le_iff_toNat_le] at hd
  rcases hd with (⟨hlo, hhi⟩ | ⟨hlo, hhi⟩) | ⟨hlo, hhi⟩
  · exact Or.inl ⟨hlo, hhi⟩
  · exact Or.inr ⟨le_trans (by decide) hlo, hhi⟩
  · exact Or.inr ⟨hlo, le_trans hhi (by decide)⟩

/-- A byte of ASCII that is neither a control byte nor one of the three HTML escapes. -/
theorem clean_of_ascii (escapeHtml : Bool) {d : UInt8} (hlo : 32 ≤ d.toNat) (hhi : d.toNat < 128)
    (hand : d.toNat ≠ 38) (hlt : d.toNat ≠ 60) (hgt : d.toNat ≠ 62) :
    Clean escapeHtml (Char.ofNat d.toNat) := by
  have htoNat := Utf8.toNat_ofNat_of_lt hhi
  have hne : ∀ c : Char, d.toNat ≠ c.toNat → Char.ofNat d.toNat ≠ c := by
    intro c hc h
    exact hc (by rw [← h, htoNat])
  have hline : (Char.ofNat 0x2028).toNat = 0x2028 := by decide
  have hparagraph : (Char.ofNat 0x2029).toNat = 0x2029 := by decide
  refine ⟨by rw [htoNat]; exact hlo, hne _ (by omega), hne _ (by omega), fun _ ↦ ?_⟩
  exact ⟨hne _ hlt, hne _ hgt, hne _ hand⟩

/-- The second byte of an escape of two bytes. -/
theorem clean_of_shortEscape (escapeHtml : Bool) {d : UInt8} (hd : isShortEscape d = true) :
    Clean escapeHtml (Char.ofNat d.toNat) ∧ d.toNat < 128 ∧ Char.ofNat d.toNat ≠ 'u' := by
  have hbounds : 32 ≤ d.toNat ∧ d.toNat < 128 ∧ d.toNat ≠ 38 ∧ d.toNat ≠ 60 ∧ d.toNat ≠ 62 ∧
      Char.ofNat d.toNat ≠ 'u' := by
    simp only [isShortEscape, Bool.or_eq_true, beq_iff_eq] at hd
    rcases hd with ((((((rfl | rfl) | rfl) | rfl) | rfl) | rfl) | rfl) | rfl <;> decide
  obtain ⟨hlo, hhi, hand, hlt, hgt, hu⟩ := hbounds
  exact ⟨clean_of_ascii escapeHtml hlo hhi hand hlt hgt, hhi, hu⟩

theorem clean_of_hex (escapeHtml : Bool) {d : UInt8} (hd : isHexDigit d = true) :
    Clean escapeHtml (Char.ofNat d.toNat) := by
  have hbounds := isHexDigit_bounds hd
  exact clean_of_ascii escapeHtml (by omega) (by omega) (by omega) (by omega) (by omega)

/-- A character is written as a clean text that is read back as this character, whatever follows. -/
theorem writeChar_text (escapeHtml : Bool) (ch : Char) :
    ∃ text, writeChar escapeHtml ch = Utf8.encode text ∧ (∀ c ∈ text, Clean escapeHtml c) ∧
      ∀ rest, unescapeText (text ++ rest) = ch :: unescapeText rest := by
  have hbackslash : Clean escapeHtml '\\' :=
    clean_of_ascii (d := 92) escapeHtml (by decide) (by decide) (by decide) (by decide) (by decide)
  have hu : Clean escapeHtml 'u' :=
    clean_of_ascii (d := 117) escapeHtml (by decide) (by decide) (by decide) (by decide) (by decide)
  cases writtenAs escapeHtml ch with
  | short d hd hwrite hmeans =>
    obtain ⟨hclean, hd128, hne⟩ := clean_of_shortEscape escapeHtml hd
    have hascii : ∀ b ∈ ([92, d] : List UInt8), b.toNat < 128 := by
      rw [List.forall_mem_cons, List.forall_mem_singleton]
      exact ⟨by decide, hd128⟩
    refine ⟨['\\', Char.ofNat d.toNat], ?_, ?_, fun rest ↦ ?_⟩
    · rw [hwrite]
      exact (Utf8.encode_ofAscii hascii).symm
    · rw [List.forall_mem_cons, List.forall_mem_singleton]
      exact ⟨hbackslash, hclean⟩
    · rw [List.cons_append, List.cons_append, unescapeText_short hne, hmeans]
      rfl
  | unicode n hn hwrite hmeans =>
    obtain ⟨a, b, c, d, hescape, hhex, hvalue⟩ := writeUnicodeEscape_spec (n := n) (by omega)
    simp only [List.forall_mem_cons, List.not_mem_nil, false_implies, implies_true, and_true]
      at hhex
    obtain ⟨ha, hb, hc, hd⟩ := hhex
    have hascii : ∀ x ∈ ([92, 117, a, b, c, d] : List UInt8), x.toNat < 128 := by
      have hbounds : ∀ {x : UInt8}, isHexDigit x = true → x.toNat < 128 := by
        intro x hx
        have := isHexDigit_bounds hx
        omega
      simp only [List.forall_mem_cons, List.not_mem_nil, false_implies, implies_true, and_true]
      exact ⟨by decide, by decide, hbounds ha, hbounds hb, hbounds hc, hbounds hd⟩
    refine ⟨['\\', 'u', Char.ofNat a.toNat, Char.ofNat b.toNat, Char.ofNat c.toNat,
      Char.ofNat d.toNat], ?_, ?_, fun rest ↦ ?_⟩
    · rw [hwrite, hescape]
      exact (Utf8.encode_ofAscii hascii).symm
    · simp only [List.forall_mem_cons, List.not_mem_nil, false_implies, implies_true, and_true]
      exact ⟨hbackslash, hu, clean_of_hex _ ha, clean_of_hex _ hb, clean_of_hex _ hc,
        clean_of_hex _ hd⟩
    · simp only [List.cons_append, List.nil_append]
      rw [unescapeText_unit (by omega), hvalue, unitChar, if_neg (by omega), hmeans]
  | plain hwrite hch hquote hbackslash hline hparagraph hhtml =>
    refine ⟨[ch], ?_, ?_, fun rest ↦ unescapeText_plain hbackslash rest⟩
    · rw [hwrite, Utf8.encode_cons, Utf8.encode_nil, List.append_nil]
    · simp only [List.forall_mem_cons, List.not_mem_nil, false_implies, implies_true, and_true]
      exact ⟨hch, hline, hparagraph, hhtml⟩

theorem content_text (escapeHtml : Bool) (s : List Char) :
    ∃ text, stringContent escapeHtml s = Utf8.encode text ∧ (∀ c ∈ text, Clean escapeHtml c) ∧
      unescapeText text = s := by
  induction s with
  | nil => exact ⟨[], rfl, fun _ hc ↦ absurd hc List.not_mem_nil, rfl⟩
  | cons ch s ih =>
    obtain ⟨text, hwrite, hclean, hmeans⟩ := writeChar_text escapeHtml ch
    obtain ⟨texts, hwrites, hcleans, hmeanss⟩ := ih
    refine ⟨text ++ texts, ?_, ?_, ?_⟩
    · rw [Utf8.encode_append, ← hwrite, ← hwrites]
      rfl
    · rw [List.forall_mem_append]
      exact ⟨hclean, hcleans⟩
    · rw [hmeans, hmeanss]

/-- The text of a written string is the string. -/
theorem unescape_content (escapeHtml : Bool) (s : List Char) :
    unescape (stringContent escapeHtml s) = s := by
  obtain ⟨text, hwrite, -, hmeans⟩ := content_text escapeHtml s
  rw [unescape, hwrite, Utf8.decodeLossy_encode, hmeans]

/-! ### Numbers -/

theorem digit_isDigit {d : ℕ} (hd : d < 10) : isDigit (Radix.digit d) = true := by
  revert d
  decide

theorem text_all_isDigit (n : ℕ) : (Radix.text 10 n).all isDigit = true := by
  rw [List.all_eq_true]
  intro c hc
  obtain ⟨d, hd, rfl⟩ := Radix.mem_text (by decide) hc
  exact digit_isDigit hd

theorem numberToken_decimalText (n : ℤ) : NumberToken (decimalText n) := by
  refine ⟨⟨if n < 0 then some 45 else none, Radix.text 10 n.natAbs, none, none⟩,
    ⟨?_, ?_, by simp, by simp⟩, ⟨Radix.text_ne_nil _ _, by simp, by simp⟩, ?_⟩
  · intro c hc
    dsimp only at hc
    split_ifs at hc
    · exact (Option.some.inj hc).symm
    · cases hc
  · by_cases hn : n.natAbs = 0
    · exact Or.inl (by simp only [hn, Radix.text, if_true])
    · exact Or.inr ⟨text_all_isDigit _, Radix.head_text (by decide) (by decide) hn⟩
  · simp only [NumberParts.text, NumberParts.fracText, NumberParts.expText, List.append_nil,
      decimalText]
    split_ifs <;> rfl

theorem takeWhile_eq_self {p : UInt8 → Bool} {s : List UInt8} (hs : s.all p = true) :
    s.takeWhile p = s ∧ s.dropWhile p = [] := by
  rw [List.all_eq_true] at hs
  exact ⟨List.takeWhile_eq_self_iff.mpr hs, List.dropWhile_eq_nil_iff.mpr hs⟩

/-- The value of digits alone. -/
theorem unsignedValue_digits {ds : List UInt8} (hds : ds.all isDigit = true) :
    unsignedValue ds = Radix.value 10 ds := by
  obtain ⟨htake, hdrop⟩ := takeWhile_eq_self hds
  simp only [unsignedValue, htake, hdrop, List.append_nil, List.length_nil, Nat.cast_zero, sub_zero,
    zpow_zero, mul_one]

theorem numberValue_decimalText (n : ℤ) : numberValue (decimalText n) = n := by
  have hvalue : unsignedValue (Radix.text 10 n.natAbs) = (n.natAbs : ℚ) := by
    rw [unsignedValue_digits (text_all_isDigit _), Radix.value_text (by decide) (by decide)]
  rw [decimalText]
  split_ifs with hn
  · have habs : (n.natAbs : ℤ) = -n := by omega
    have hcast : (n.natAbs : ℚ) = -n := by rw [← Int.cast_natCast, habs, Int.cast_neg]
    rw [List.singleton_append, numberValue, hvalue, hcast, neg_neg]
  · have habs : (n.natAbs : ℤ) = n := by omega
    have hcast : (n.natAbs : ℚ) = n := by rw [← Int.cast_natCast, habs]
    rw [List.nil_append, numberValue.eq_def]
    split
    · rename_i tail heq
      have hdigit := text_all_isDigit n.natAbs
      rw [heq] at hdigit
      exact absurd hdigit (by simp [isDigit])
    · rw [hvalue, hcast]

/-! ### Whole values -/

mutual

/-- Induction over a value, with the hypothesis for every item and every field. -/
theorem JsonValue.induction {P : JsonValue → Prop} (hnull : P .null) (hbool : ∀ b, P (.bool b))
    (hnumber : ∀ n, P (.number n)) (hstring : ∀ s, P (.string s))
    (harray : ∀ items, (∀ v ∈ items, P v) → P (.array items))
    (hstruct : ∀ fields, (∀ kv ∈ fields, P kv.2) → P (.struct fields))
    (hmap : ∀ fields, (∀ kv ∈ fields, P kv.2) → P (.map fields)) : ∀ v, P v
  | .null => hnull
  | .bool b => hbool b
  | .number n => hnumber n
  | .string s => hstring s
  | .array items => harray items
      (JsonValue.inductionItems hnull hbool hnumber hstring harray hstruct hmap items)
  | .struct fields => hstruct fields
      (JsonValue.inductionFields hnull hbool hnumber hstring harray hstruct hmap fields)
  | .map fields => hmap fields
      (JsonValue.inductionFields hnull hbool hnumber hstring harray hstruct hmap fields)

theorem JsonValue.inductionItems {P : JsonValue → Prop} (hnull : P .null)
    (hbool : ∀ b, P (.bool b)) (hnumber : ∀ n, P (.number n)) (hstring : ∀ s, P (.string s))
    (harray : ∀ items, (∀ v ∈ items, P v) → P (.array items))
    (hstruct : ∀ fields, (∀ kv ∈ fields, P kv.2) → P (.struct fields))
    (hmap : ∀ fields, (∀ kv ∈ fields, P kv.2) → P (.map fields)) :
    ∀ items : List JsonValue, ∀ v ∈ items, P v
  | [] => fun _ hv ↦ absurd hv List.not_mem_nil
  | item :: items => List.forall_mem_cons.mpr
      ⟨JsonValue.induction hnull hbool hnumber hstring harray hstruct hmap item,
        JsonValue.inductionItems hnull hbool hnumber hstring harray hstruct hmap items⟩

theorem JsonValue.inductionFields {P : JsonValue → Prop} (hnull : P .null)
    (hbool : ∀ b, P (.bool b)) (hnumber : ∀ n, P (.number n)) (hstring : ∀ s, P (.string s))
    (harray : ∀ items, (∀ v ∈ items, P v) → P (.array items))
    (hstruct : ∀ fields, (∀ kv ∈ fields, P kv.2) → P (.struct fields))
    (hmap : ∀ fields, (∀ kv ∈ fields, P kv.2) → P (.map fields)) :
    ∀ fields : List (List Char × JsonValue), ∀ kv ∈ fields, P kv.2
  | [] => fun _ hv ↦ absurd hv List.not_mem_nil
  | (_, v) :: fields => List.forall_mem_cons.mpr
      ⟨JsonValue.induction hnull hbool hnumber hstring harray hstruct hmap v,
        JsonValue.inductionFields hnull hbool hnumber hstring harray hstruct hmap fields⟩

end

variable (opts : JsonOptions)

/-- Behind the first item the index no longer matters. -/
theorem writeItems_succ (i : ℕ) (items : List JsonValue) :
    writeItems opts (i + 1) items = writeItems opts 1 items := by
  induction items generalizing i with
  | nil => rfl
  | cons item items ih => simp only [writeItems, comma, Nat.succ_pos, if_true, ih (i + 1), ih 1]

theorem writeFields_succ (i : ℕ) (fields : List (List Char × JsonValue)) :
    writeFields opts (i + 1) fields = writeFields opts 1 fields := by
  induction fields generalizing i with
  | nil => rfl
  | cons field fields ih => simp only [writeFields, comma, Nat.succ_pos, if_true, ih (i + 1), ih 1]

theorem writeItems_one_cons (item : JsonValue) (items : List JsonValue) :
    writeItems opts 1 (item :: items) = 44 :: writeItems opts 0 (item :: items) := by
  simp only [writeItems, comma, Nat.lt_irrefl, Nat.one_pos, if_true, if_false,
    writeItems_succ opts (1 : ℕ)]
  rfl

theorem writeFields_one_cons (field : List Char × JsonValue)
    (fields : List (List Char × JsonValue)) :
    writeFields opts 1 (field :: fields) = 44 :: writeFields opts 0 (field :: fields) := by
  simp only [writeFields, comma, Nat.lt_irrefl, Nat.one_pos, if_true, if_false,
    writeFields_succ opts (1 : ℕ)]
  rfl

theorem reads_items {items : List JsonValue} (hne : items ≠ [])
    (hitems : ∀ v ∈ items, Reads rfcTokens (writeValue opts v) (.value (written opts v))) :
    Reads rfcTokens (writeItems opts 0 items) (.items (writtenItems opts items)) := by
  induction items with
  | nil => exact absurd rfl hne
  | cons item items ih =>
    rw [List.forall_mem_cons] at hitems
    have hspaces := rfcTokens.spaces_nil
    cases items with
    | nil =>
      have h := Reads.lastItem hspaces hitems.1 hspaces
      simpa [writeItems, writtenItems, comma] using h
    | cons next items =>
      have h := Reads.item hspaces hitems.1 hspaces (ih (List.cons_ne_nil _ _) hitems.2)
      rw [writeItems, writeItems_one_cons]
      simpa [writtenItems, comma] using h

theorem reads_fields {fields : List (List Char × JsonValue)} (hne : fields ≠ [])
    (hfields : ∀ kv ∈ fields, Reads rfcTokens (writeValue opts kv.2) (.value (written opts kv.2))) :
    Reads rfcTokens (writeFields opts 0 fields) (.members (writtenFields opts fields)) := by
  induction fields with
  | nil => exact absurd rfl hne
  | cons field fields ih =>
    rw [List.forall_mem_cons] at hfields
    have hspaces := rfcTokens.spaces_nil
    have hkey : rfcTokens.string (stringContent opts.escapeHtml field.1) :=
      stringToken_content opts.escapeHtml field.1
    cases fields with
    | nil =>
      have h := Reads.lastMember hspaces hkey hspaces hspaces hfields.1 hspaces
      simpa [writeFields, writtenFields, writeString, comma] using h
    | cons next fields =>
      have h := Reads.member hspaces hkey hspaces hspaces hfields.1 hspaces
        (ih (List.cons_ne_nil _ _) hfields.2)
      rw [writeFields, writeFields_one_cons]
      simpa [writtenFields, writeString, comma] using h

theorem reads_object {fields : List (List Char × JsonValue)}
    (hfields : ∀ kv ∈ fields, Reads rfcTokens (writeValue opts kv.2) (.value (written opts kv.2))) :
    Reads rfcTokens (123 :: writeFields opts 0 fields ++ [125])
      (.value (.object (writtenFields opts fields))) := by
  cases fields with
  | nil => exact .emptyObject rfcTokens.spaces_nil
  | cons field fields => exact .object (reads_fields opts (List.cons_ne_nil _ _) hfields)

/-- The bytes of a value spell its tree. -/
theorem reads_value (v : JsonValue) :
    Reads rfcTokens (writeValue opts v) (.value (written opts v)) := by
  induction v using JsonValue.induction with
  | hnull => exact .nullLiteral
  | hbool b =>
    cases b with
    | true => exact .trueLiteral
    | false => exact .falseLiteral
  | hnumber n => exact .number (numberToken_decimalText n)
  | hstring s => exact .string (stringToken_content opts.escapeHtml s)
  | harray items hitems =>
    cases items with
    | nil => exact .emptyArray rfcTokens.spaces_nil
    | cons item items => exact .array (reads_items opts (List.cons_ne_nil _ _) hitems)
  | hstruct fields hfields => exact reads_object opts hfields
  | hmap fields hfields => exact reads_object opts hfields

theorem map_fields {fields : List (List Char × JsonValue)}
    (hfields : ∀ kv ∈ fields, valueOf (written opts kv.2) = kv.2.denote) :
    JsonTree.mapMembers numberValue unescape (writtenFields opts fields)
      = JsonValue.denoteFields fields := by
  induction fields with
  | nil => rfl
  | cons field fields ih =>
    rw [List.forall_mem_cons] at hfields
    rw [writtenFields, JsonTree.mapMembers, JsonValue.denoteFields, unescape_content,
      ← hfields.1, ih hfields.2]
    rfl

theorem map_items {items : List JsonValue}
    (hitems : ∀ v ∈ items, valueOf (written opts v) = v.denote) :
    JsonTree.mapItems numberValue unescape (writtenItems opts items)
      = JsonValue.denoteItems items := by
  induction items with
  | nil => rfl
  | cons item items ih =>
    rw [List.forall_mem_cons] at hitems
    rw [writtenItems, JsonTree.mapItems, JsonValue.denoteItems, ← hitems.1, ih hitems.2]
    rfl

/-- The tree of a value stands for this value. -/
theorem valueOf_written (v : JsonValue) : valueOf (written opts v) = v.denote := by
  induction v using JsonValue.induction with
  | hnull => rfl
  | hbool b => rfl
  | hnumber n => exact congrArg JsonTree.number (numberValue_decimalText n)
  | hstring s => exact congrArg JsonTree.string (unescape_content opts.escapeHtml s)
  | harray items hitems => exact congrArg JsonTree.array (map_items opts hitems)
  | hstruct fields hfields => exact congrArg JsonTree.object (map_fields opts hfields)
  | hmap fields hfields => exact congrArg JsonTree.object (map_fields opts hfields)

/-! ### The characters of the output -/

variable {opts}

theorem CleanBytes.append {escapeHtml : Bool} {bytes more : List UInt8}
    (h : CleanBytes escapeHtml bytes) (h' : CleanBytes escapeHtml more) :
    CleanBytes escapeHtml (bytes ++ more) := by
  obtain ⟨text, rfl, htext⟩ := h
  obtain ⟨text', rfl, htext'⟩ := h'
  refine ⟨text ++ text', (Utf8.encode_append text text').symm, ?_⟩
  rw [List.forall_mem_append]
  exact ⟨htext, htext'⟩

/-- Bytes of ASCII that need no escape, such as the punctuation and the digits of a value. -/
theorem cleanBytes_of_ascii (escapeHtml : Bool) {bytes : List UInt8}
    (h : bytes.all (fun b ↦ 32 ≤ b && b < 128 && b != 38 && b != 60 && b != 62) = true) :
    CleanBytes escapeHtml bytes := by
  simp only [List.all_eq_true, Bool.and_eq_true, decide_eq_true_eq, bne_iff_ne, ne_eq,
    ← UInt8.toNat_inj, UInt8.le_iff_toNat_le, UInt8.lt_iff_toNat_lt] at h
  refine ⟨Utf8.ofAscii bytes, (Utf8.encode_ofAscii fun b hb ↦ ?_).symm, fun c hc ↦ ?_⟩
  · obtain ⟨⟨⟨⟨-, hhi⟩, -⟩, -⟩, -⟩ := h b hb
    exact hhi
  · rw [Utf8.ofAscii, List.mem_map] at hc
    obtain ⟨b, hb, rfl⟩ := hc
    obtain ⟨⟨⟨⟨hlo, hhi⟩, hand⟩, hlt⟩, hgt⟩ := h b hb
    exact clean_of_ascii escapeHtml hlo hhi hand hlt hgt

theorem cleanBytes_writeString (s : List Char) (escapeHtml : Bool) :
    CleanBytes escapeHtml (writeString s escapeHtml) := by
  obtain ⟨text, hwrite, hclean, -⟩ := content_text escapeHtml s
  have hquote : CleanBytes escapeHtml [34] := cleanBytes_of_ascii escapeHtml (by decide)
  exact (hquote.append ⟨text, hwrite, hclean⟩).append hquote

theorem cleanBytes_decimalText (escapeHtml : Bool) (n : ℤ) :
    CleanBytes escapeHtml (decimalText n) := by
  refine CleanBytes.append ?_ (cleanBytes_of_ascii escapeHtml ?_)
  · split_ifs
    · exact cleanBytes_of_ascii escapeHtml (by decide)
    · exact cleanBytes_of_ascii escapeHtml (by decide)
  · rw [List.all_eq_true]
    intro c hc
    obtain ⟨d, hd, rfl⟩ := Radix.mem_text (by decide) hc
    clear hc
    revert d
    decide

theorem cleanBytes_comma (escapeHtml : Bool) (i : ℕ) : CleanBytes escapeHtml (comma i) := by
  rw [comma]
  split_ifs
  · exact cleanBytes_of_ascii escapeHtml (by decide)
  · exact cleanBytes_of_ascii escapeHtml (by decide)

theorem cleanBytes_items {items : List JsonValue}
    (hitems : ∀ v ∈ items, CleanBytes opts.escapeHtml (writeValue opts v)) (i : ℕ) :
    CleanBytes opts.escapeHtml (writeItems opts i items) := by
  induction items generalizing i with
  | nil => exact cleanBytes_of_ascii _ rfl
  | cons item items ih =>
    rw [List.forall_mem_cons] at hitems
    exact ((cleanBytes_comma _ i).append hitems.1).append (ih hitems.2 (i + 1))

theorem cleanBytes_fields {fields : List (List Char × JsonValue)}
    (hfields : ∀ kv ∈ fields, CleanBytes opts.escapeHtml (writeValue opts kv.2)) (i : ℕ) :
    CleanBytes opts.escapeHtml (writeFields opts i fields) := by
  induction fields generalizing i with
  | nil => exact cleanBytes_of_ascii _ rfl
  | cons field fields ih =>
    rw [List.forall_mem_cons] at hfields
    have hcolon : CleanBytes opts.escapeHtml [58] := cleanBytes_of_ascii _ (by decide)
    have hvalue := hcolon.append hfields.1
    exact (((cleanBytes_comma _ i).append (cleanBytes_writeString _ _)).append hvalue).append
      (ih hfields.2 (i + 1))

/-- Brackets around clean bytes. -/
theorem CleanBytes.enclose {escapeHtml : Bool} {bytes : List UInt8}
    (h : CleanBytes escapeHtml bytes) {first last : UInt8} (hfirst : CleanBytes escapeHtml [first])
    (hlast : CleanBytes escapeHtml [last]) : CleanBytes escapeHtml (first :: bytes ++ [last]) :=
  (hfirst.append h).append hlast

theorem cleanBytes_object {fields : List (List Char × JsonValue)}
    (hfields : ∀ kv ∈ fields, CleanBytes opts.escapeHtml (writeValue opts kv.2)) :
    CleanBytes opts.escapeHtml (123 :: writeFields opts 0 fields ++ [125]) :=
  (cleanBytes_fields hfields 0).enclose (cleanBytes_of_ascii _ (by decide))
    (cleanBytes_of_ascii _ (by decide))

theorem cleanBytes_writeValue (opts : JsonOptions) (v : JsonValue) :
    CleanBytes opts.escapeHtml (writeValue opts v) := by
  induction v using JsonValue.induction with
  | hnull => exact cleanBytes_of_ascii _ rfl
  | hbool b => cases b <;> exact cleanBytes_of_ascii _ rfl
  | hnumber n => exact cleanBytes_decimalText _ n
  | hstring s => exact cleanBytes_writeString s _
  | harray items hitems =>
    exact (cleanBytes_items hitems 0).enclose (cleanBytes_of_ascii _ (by decide))
      (cleanBytes_of_ascii _ (by decide))
  | hstruct fields hfields => exact cleanBytes_object hfields
  | hmap fields hfields => exact cleanBytes_object hfields

/-! ### The round trip -/

/-- What the bytes of an encoded value are good for: both checkers of the control plane accept them
in full, a decoder finds the value in them and nothing else, and apart from the newline at the end
they are the UTF-8 text of characters that need no escape. -/
structure Faithful (opts : JsonOptions) (v : JsonValue) (out : List UInt8) : Prop where
  goCheck : Control.goJsonSyntaxCheck out = .ok ()
  minimalCheck : Control.parseJsonValue (Control.trimAsciiWhitespace out) = .ok ()
  denotes : Denotes out v.denote
  unique : ∀ w, Denotes out w → w = v.denote
  clean : ∃ bytes, out = bytes ++ newline opts ∧ CleanBytes opts.escapeHtml bytes

theorem document_encodeValue (v : JsonValue) (opts : JsonOptions) :
    Document rfcTokens (encodeValue v opts) (written opts v) := by
  refine ⟨[], writeValue opts v, newline opts, rfl, rfcTokens.spaces_nil, reads_value opts v, ?_⟩
  intro b hb
  rw [newline] at hb
  split_ifs at hb
  · rw [List.mem_singleton.mp hb]
    decide
  · cases hb

theorem faithful_encodeValue (v : JsonValue) (opts : JsonOptions) :
    Faithful opts v (encodeValue v opts) := by
  have hdoc := document_encodeValue v opts
  refine ⟨?_, ?_, ⟨_, hdoc, valueOf_written opts v⟩, ?_, ?_⟩
  · exact (Control.goJsonSyntaxCheck_ok_iff _).mpr ⟨_, hdoc⟩
  · refine (Control.parseJsonValue_ok_iff _).mpr ⟨written opts v, ?_⟩
    exact (Control.minimalTokens_lawful.document_trim _ _).mpr (Control.minimal_of_rfc hdoc)
  · rintro w ⟨t, ht, rfl⟩
    rw [Control.GoJsonScan.recognises.document_unique ht hdoc, valueOf_written]
  · exact ⟨writeValue opts v, rfl, cleanBytes_writeValue opts v⟩

/-- The three entry points of the encoder, for every value and every choice of options. -/
theorem encode_faithful (opts : JsonOptions) :
    (∀ v, Faithful opts v (encodeValue v opts)) ∧
      (∀ fields, Faithful opts (.struct fields) (encodeStruct fields opts)) ∧
      ∀ fields, Faithful opts (.map fields) (encodeMap fields opts) := by
  refine ⟨fun v ↦ faithful_encodeValue v opts, fun fields ↦ ?_, fun fields ↦ ?_⟩
  · have h := faithful_encodeValue (.struct fields) opts
    rwa [encodeValue, writeValue] at h
  · have h := faithful_encodeValue (.map fields) opts
    rwa [encodeValue, writeValue] at h

example : encodeStruct [(['a'], .number (-12)), (['<'], .array [.null, .bool true])] .MARSHAL
    = Codec.ascii "\x7b\"a\":-12,\"\\u003c\":[null,true]\x7d" := by decide +kernel

end DoorAccess.Httpx
