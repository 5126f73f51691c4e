import DoorAccess.Codec
import DoorAccess.Lib.JsonScan

/-!
# The two JSON checkers of the control plane

`/unlock` and the automation endpoints check a request body with `validate_json_syntax`, the video
endpoints with `go_json_syntax_check`. Both are recursive descent over the same grammar; they
differ in their messages, in the white space they skip and in the numbers they let through.

`goJsonSyntaxCheck` accepts exactly the texts of RFC 8259 at the level of bytes.
`validateJsonSyntax` accepts a wider dialect (`minimalTokens`): a form feed is white space for it,
and every run of digits of a number may be empty. The two agree on a body exactly when it makes no
use of either.
-/

set_option autoImplicit false
set_option relaxedAutoImplicit false

namespace DoorAccess.Control

open Codec (ascii)
open Json Fallible

/-! ### The errors of the video checker -/

/-- Where `GoJsonScan` met a byte that does not belong there. -/
inductive GoContext
  | beginningOfValue
  | beginningOfKey
  | afterKey
  | afterPair
  | afterElement
  | hexEscape
  | escapeCode
  | stringLiteral
  | literal (lit : List UInt8) (want : UInt8)
  | numericLiteral
  | afterDecimalPoint
  | exponent
  | afterTopLevel
  deriving DecidableEq

/-- The errors of `go_json_syntax_check`. The last one is the bound on the recursion of the model,
which is never met (`goJsonSyntaxCheck_ne_exhausted`). -/
inductive GoError
  | eof
  | invalid (c : UInt8) (context : GoContext)
  | exhausted
  deriving DecidableEq

/-- `go_quote_char`. -/
def goQuoteChar (c : UInt8) : Str :=
  if c = 39 then ascii "'\\''"
  else if c = 34 then ascii "'\"'"
  else if c = 92 then ascii "'\\\\'"
  else if c = 0x07 then ascii "'\\a'"
  else if c = 0x08 then ascii "'\\b'"
  else if c = 0x0c then ascii "'\\f'"
  else if c = 0x0a then ascii "'\\n'"
  else if c = 0x0d then ascii "'\\r'"
  else if c = 0x09 then ascii "'\\t'"
  else if c = 0x0b then ascii "'\\v'"
  else if 0x20 ≤ c ∧ c ≤ 0x7e then [39, c, 39]
  else ascii "'\\x" ++ [Radix.digit (c.toNat / 16), Radix.digit (c.toNat % 16), 39]

def GoContext.text : GoContext → Str
  | beginningOfValue => ascii "looking for beginning of value"
  | beginningOfKey => ascii "looking for beginning of object key string"
  | afterKey => ascii "after object key"
  | afterPair => ascii "after object key:value pair"
  | afterElement => ascii "after array element"
  | hexEscape => ascii "in \\u hexadecimal character escape"
  | escapeCode => ascii "in string escape code"
  | stringLiteral => ascii "in string literal"
  | literal lit want =>
    ascii "in literal " ++ lit ++ ascii " (expecting " ++ goQuoteChar want ++ ascii ")"
  | numericLiteral => ascii "in numeric literal"
  | afterDecimalPoint => ascii "after decimal point in numeric literal"
  | exponent => ascii "in exponent of numeric literal"
  | afterTopLevel => ascii "after top-level value"

def GO_JSON_EOF : Str := ascii "unexpected end of JSON input"

def GoError.text : GoError → Str
  | eof => GO_JSON_EOF
  | invalid c context => ascii "invalid character " ++ goQuoteChar c ++ [32] ++ context.text
  | exhausted => []

/-- The error at a place where a byte was looked for. -/
def GoError.at (context : GoContext) : Option UInt8 → GoError
  | none => eof
  | some c => invalid c context

/-! ### The video checker -/

/-- The optional minus sign of a number. -/
def takeMinus : List UInt8 → Option UInt8 × List UInt8
  | 45 :: s => (some 45, s)
  | s => (none, s)

/-- The optional sign of an exponent. -/
def takeSign : List UInt8 → Option UInt8 × List UInt8
  | 43 :: s => (some 43, s)
  | 45 :: s => (some 45, s)
  | s => (none, s)

namespace GoJsonScan

def stringErrors : StringErrors GoError where
  unterminated := .eof
  noEscape := .eof
  noHex := .eof
  badHex := (.invalid · .hexEscape)
  badEscape := (.invalid · .escapeCode)
  control := (.invalid · .stringLiteral)

def string : List UInt8 → Except GoError (List UInt8 × List UInt8) :=
  scanString stringErrors 0

/-- The loop of `literal` over the bytes it still wants. -/
def literalTail (lit : List UInt8) : List UInt8 → List UInt8 → Except GoError (List UInt8)
  | [], s => .ok s
  | _ :: _, [] => .error .eof
  | want :: wants, c :: s =>
    if c = want then literalTail lit wants s else .error (.invalid c (.literal lit want))

/-- The first byte of the literal was matched by the caller and is taken unseen. -/
def literal (lit s : List UInt8) : Except GoError (List UInt8) :=
  literalTail lit (lit.drop 1) (s.drop 1)

/-- A run of at least one digit. -/
def digits (context : GoContext) (s : List UInt8) : Except GoError (List UInt8 × List UInt8) :=
  match s with
  | [] => .error .eof
  | c :: _ =>
    if isDigit c then .ok (s.takeWhile isDigit, s.dropWhile isDigit)
    else .error (.invalid c context)

def intPart (s : List UInt8) : Except GoError (List UInt8 × List UInt8) :=
  match s with
  | 48 :: s => .ok ([48], s)
  | s => digits .numericLiteral s

def fracPart (s : List UInt8) : Except GoError (Option (List UInt8) × List UInt8) :=
  match s with
  | 46 :: s => (digits .afterDecimalPoint s).map fun (ds, s) ↦ (some ds, s)
  | s => .ok (none, s)

def expPart (s : List UInt8) :
    Except GoError (Option (UInt8 × Option UInt8 × List UInt8) × List UInt8) :=
  match s with
  | [] => .ok (none, [])
  | c :: s =>
    if c = 101 ∨ c = 69 then
      (digits .exponent (takeSign s).2).map fun (ds, rest) ↦ (some (c, (takeSign s).1, ds), rest)
    else .ok (none, c :: s)

/-- The parts of the number that `number` reads. -/
def numberParts (s : List UInt8) : Except GoError (NumberParts × List UInt8) := do
  let (int, s₁) ← intPart (takeMinus s).2
  let (frac, s₂) ← fracPart s₁
  let (exp, s₃) ← expPart s₂
  return ({ sign := (takeMinus s).1, int, frac, exp }, s₃)

def number (s : List UInt8) : Except GoError (List UInt8 × List UInt8) := do
  let (parts, rest) ← numberParts s
  return (parts.text, rest)

/-- `GoJsonScan`: how it reads tokens and what it says where a byte is missing. -/
def scanner : Scanner GoError where
  space c := c == 32 || c == 9 || c == 10 || c == 13
  string := string
  literal := literal
  number := number
  noValue := .at .beginningOfValue
  noKey := .at .beginningOfKey
  noColon := .at .afterKey
  noMemberEnd := .at .afterPair
  noItemEnd := .at .afterElement
  trailing := (.invalid · .afterTopLevel)
  exhausted := .exhausted

end GoJsonScan

/-- `go_json_syntax_check`. -/
def goJsonSyntaxCheck (raw : List UInt8) : Except GoError Unit :=
  (GoJsonScan.scanner.document raw).map fun _ ↦ ()

/-! ### The checker of the other endpoints -/

/-- The messages of the hand-written JSON functions of the control plane. The last one is the bound
on the recursion of the model, which is never met. -/
inductive JsonError
  | invalidValue
  | expectedKey
  | expectedColon
  | expectedCommaOrBrace
  | expectedCommaOrBracket
  | truncatedEscape
  | truncatedUnicode
  | invalidUnicode
  | invalidEscape
  | controlChar
  | unterminated
  | invalidLiteral
  | trailingData
  | expectedObject
  | missingField
  | expectedStringKey
  | invalidUtf8
  | escapedKey
  | expectedBool
  | exhausted
  deriving DecidableEq

def JsonError.text : JsonError → Str
  | invalidValue => ascii "invalid JSON value"
  | expectedKey => ascii "expected object key"
  | expectedColon => ascii "expected colon"
  | expectedCommaOrBrace => ascii "expected comma or closing brace"
  | expectedCommaOrBracket => ascii "expected comma or closing bracket"
  | truncatedEscape => ascii "truncated escape"
  | truncatedUnicode => ascii "truncated unicode escape"
  | invalidUnicode => ascii "invalid unicode escape"
  | invalidEscape => ascii "invalid escape"
  | controlChar => ascii "control char in string"
  | unterminated => ascii "unterminated string"
  | invalidLiteral => ascii "invalid literal"
  | trailingData => ascii "trailing data"
  | expectedObject => ascii "expected object"
  | missingField => ascii "missing field"
  | expectedStringKey => ascii "expected string key"
  | invalidUtf8 => ascii "invalid UTF-8"
  | escapedKey => ascii "escaped key not supported"
  | expectedBool => ascii "expected bool"
  | exhausted => []

/-- `u8::is_ascii_whitespace`: the form feed counts. -/
def isAsciiWhitespace (c : UInt8) : Bool :=
  c == 32 || c == 9 || c == 10 || c == 12 || c == 13

/-- `trim_ascii_whitespace`. -/
def trimAsciiWhitespace (bytes : List UInt8) : List UInt8 :=
  (bytes.dropWhile isAsciiWhitespace).rdropWhile isAsciiWhitespace

/-- `expect_literal`, and `expect_json_literal` with the same body. -/
def expectLiteral : List UInt8 → List UInt8 → Except JsonError (List UInt8)
  | [], s => .ok s
  | _ :: _, [] => .error .invalidLiteral
  | want :: wants, c :: s => if c = want then expectLiteral wants s else .error .invalidLiteral

namespace JsonParser

def stringErrors : StringErrors JsonError where
  unterminated := .unterminated
  noEscape := .truncatedEscape
  noHex := .truncatedUnicode
  badHex _ := .invalidUnicode
  badEscape _ := .invalidEscape
  control _ := .controlChar

def parseString : List UInt8 → Except JsonError (List UInt8 × List UInt8) :=
  scanString stringErrors 0

def intPart (s : List UInt8) : List UInt8 × List UInt8 :=
  match s with
  | 48 :: s => ([48], s)
  | s => (s.takeWhile isDigit, s.dropWhile isDigit)

def fracPart (s : List UInt8) : Option (List UInt8) × List UInt8 :=
  match s with
  | 46 :: s => (some (s.takeWhile isDigit), s.dropWhile isDigit)
  | s => (none, s)

def expPart (s : List UInt8) : Option (UInt8 × Option UInt8 × List UInt8) × List UInt8 :=
  match s with
  | [] => (none, [])
  | c :: s =>
    if c = 101 ∨ c = 69 then
      (some (c, (takeSign s).1, (takeSign s).2.takeWhile isDigit), (takeSign s).2.dropWhile isDigit)
    else (none, c :: s)

/-- The parts of the number that `parse_number` reads. -/
def numberParts (s : List UInt8) : NumberParts × List UInt8 :=
  let (int, s₁) := intPart (takeMinus s).2
  let (frac, s₂) := fracPart s₁
  let (exp, s₃) := expPart s₂
  ({ sign := (takeMinus s).1, int, frac, exp }, s₃)

/-- `parse_number`, which never fails, and `skip_json_number` with the same body. -/
def parseNumber (s : List UInt8) : List UInt8 × List UInt8 :=
  ((numberParts s).1.text, (numberParts s).2)

/-- `JsonParser`: how it reads tokens and what it says where a byte is missing. -/
def scanner : Scanner JsonError where
  space := isAsciiWhitespace
  string := parseString
  literal := expectLiteral
  number s := .ok (parseNumber s)
  noValue _ := .invalidValue
  noKey _ := .expectedKey
  noColon _ := .expectedColon
  noMemberEnd _ := .expectedCommaOrBrace
  noItemEnd _ := .expectedCommaOrBracket
  trailing _ := .trailingData
  exhausted := .exhausted

end JsonParser

/-- `parse_json_value`. -/
def parseJsonValue (input : List UInt8) : Except JsonError Unit :=
  (JsonParser.scanner.document input).map fun _ ↦ ()

/-- `validate_json_syntax`. -/
def validateJsonSyntax (raw : List UInt8) : Except Str Unit :=
  let trimmed := trimAsciiWhitespace raw
  if trimmed.isEmpty then .ok ()
  else match parseJsonValue trimmed with
    | .ok _ => .ok ()
    | .error e => .error (ascii "parse JSON body: " ++ e.text)

/-! ### Numbers -/

/-- A number whose runs of digits may be empty, as long as it starts like one. -/
def MinimalNumber (s : List UInt8) : Prop :=
  ∃ p : NumberParts, p.Loose ∧ (p.sign = none → p.int ≠ []) ∧ p.text = s

/-- The tokens of `JsonParser`. -/
def minimalTokens : Tokens where
  space := isAsciiWhitespace
  number := MinimalNumber
  string := StringToken

theorem takeMinus_append (s : List UInt8) :
    (takeMinus s).1.toList ++ (takeMinus s).2 = s ∧ ∀ c ∈ (takeMinus s).1, c = 45 := by
  rw [takeMinus.eq_def]
  split
  · exact ⟨rfl, by simp⟩
  · exact ⟨rfl, by simp⟩

theorem takeSign_append (s : List UInt8) :
    (takeSign s).1.toList ++ (takeSign s).2 = s ∧ ∀ c ∈ (takeSign s).1, c = 43 ∨ c = 45 := by
  rw [takeSign.eq_def]
  split
  · exact ⟨rfl, by simp⟩
  · exact ⟨rfl, by simp⟩
  · exact ⟨rfl, by simp⟩

theorem all_takeWhile (s : List UInt8) : (s.takeWhile isDigit).all isDigit = true := by
  rw [List.all_eq_true]
  intro c hc
  exact List.mem_takeWhile_imp hc

namespace JsonParser

theorem intPart_sound (s : List UInt8) :
    (intPart s).1 ++ (intPart s).2 = s ∧ ((intPart s).1 = [48] ∨
      ((intPart s).1.all isDigit = true ∧ ∀ c ∈ (intPart s).1.head?, c ≠ 48)) := by
  rw [intPart.eq_def]
  split
  · exact ⟨rfl, Or.inl rfl⟩
  · rename_i hne
    refine ⟨List.takeWhile_append_dropWhile, Or.inr ⟨all_takeWhile _, ?_⟩⟩
    rintro c hc rfl
    cases s with
    | nil => cases hc
    | cons d s =>
      rw [List.takeWhile_cons] at hc
      split at hc
      · cases hc
        exact hne s rfl
      · cases hc

theorem fracPart_sound (s : List UInt8) :
    NumberParts.fracText (fracPart s).1 ++ (fracPart s).2 = s ∧
      ∀ ds ∈ (fracPart s).1, ds.all isDigit = true := by
  rw [fracPart.eq_def]
  split
  · refine ⟨?_, ?_⟩
    · simp [NumberParts.fracText]
    · rintro ds ⟨rfl⟩
      exact all_takeWhile _
  · exact ⟨rfl, by simp⟩

theorem expPart_sound (s : List UInt8) :
    NumberParts.expText (expPart s).1 ++ (expPart s).2 = s ∧
      ∀ e sign ds, (expPart s).1 = some (e, sign, ds) →
        (e = 101 ∨ e = 69) ∧ (∀ c ∈ sign, c = 43 ∨ c = 45) ∧ ds.all isDigit = true := by
  rw [expPart.eq_def]
  split
  · exact ⟨rfl, by simp⟩
  · rename_i c s
    obtain ⟨hsplit, hsign⟩ := takeSign_append s
    split_ifs with hc
    · refine ⟨?_, ?_⟩
      · simp only [NumberParts.expText, List.cons_append, List.append_assoc,
          List.takeWhile_append_dropWhile, hsplit]
      · rintro e sign ds ⟨⟩
        exact ⟨hc, hsign, all_takeWhile _⟩
    · exact ⟨rfl, by simp⟩

theorem numberParts_sound {c : UInt8} (hc : startsNumber c = true) (s : List UInt8) :
    (numberParts (c :: s)).1.text ++ (numberParts (c :: s)).2 = c :: s ∧
      (numberParts (c :: s)).1.Loose ∧
      ((numberParts (c :: s)).1.sign = none → (numberParts (c :: s)).1.int ≠ []) := by
  obtain ⟨hminus, hsign⟩ := takeMinus_append (c :: s)
  obtain ⟨hint, hintLoose⟩ := intPart_sound (takeMinus (c :: s)).2
  obtain ⟨hfrac, hfracLoose⟩ := fracPart_sound (intPart (takeMinus (c :: s)).2).2
  obtain ⟨hexp, hexpLoose⟩ := expPart_sound (fracPart (intPart (takeMinus (c :: s)).2).2).2
  refine ⟨?_, ⟨hsign, hintLoose, hfracLoose, hexpLoose⟩, ?_⟩
  · simp only [numberParts, NumberParts.text, List.append_assoc]
    rw [hexp, hfrac, hint, hminus]
  · intro hnone
    have hdigit : isDigit c = true ∧ (takeMinus (c :: s)).2 = c :: s := by
      simp only [numberParts] at hnone
      simp only [startsNumber, Bool.or_eq_true, beq_iff_eq] at hc
      rcases hc with hc | rfl
      · refine ⟨hc, ?_⟩
        rw [hnone] at hminus
        exact hminus
      · cases hnone
    simp only [numberParts, hdigit.2]
    rw [intPart.eq_def]
    split
    · exact List.cons_ne_nil _ _
    · rw [List.takeWhile_cons_of_pos hdigit.1]
      exact List.cons_ne_nil _ _

/-- A run of digits ends where the input goes on with another byte. -/
theorem span_digits {ds : List UInt8} (hds : ds.all isDigit = true) {s : List UInt8}
    (hs : ∀ c ∈ s.head?, isDigit c = false) :
    (ds ++ s).takeWhile isDigit = ds ∧ (ds ++ s).dropWhile isDigit = s := by
  rw [List.all_eq_true] at hds
  have htake : s.takeWhile isDigit = [] := by
    cases s with
    | nil => rfl
    | cons c s => rw [List.takeWhile_cons_of_neg (by simp [hs c rfl])]
  have hdrop : s.dropWhile isDigit = s := by
    cases s with
    | nil => rfl
    | cons c s => rw [List.dropWhile_cons_of_neg (by simp [hs c rfl])]
  constructor
  · rw [List.takeWhile_append_of_pos hds, htake, List.append_nil]
  · rw [List.dropWhile_append_of_pos hds, hdrop]

theorem takeMinus_complete {sign : Option UInt8} (hsign : ∀ c ∈ sign, c = 45) {s : List UInt8}
    (hs : sign = none → ∀ c ∈ s.head?, c ≠ 45) : takeMinus (sign.toList ++ s) = (sign, s) := by
  cases sign with
  | some c =>
    rw [hsign c rfl]
    rfl
  | none =>
    rw [Option.toList_none, List.nil_append, takeMinus.eq_def]
    split
    · exact absurd rfl (hs rfl _ rfl)
    · rfl

theorem takeSign_complete {sign : Option UInt8} (hsign : ∀ c ∈ sign, c = 43 ∨ c = 45)
    {s : List UInt8} (hs : ∀ c ∈ s.head?, c ≠ 43 ∧ c ≠ 45) :
    takeSign (sign.toList ++ s) = (sign, s) := by
  cases sign with
  | some c => rcases hsign c rfl with rfl | rfl <;> rfl
  | none =>
    rw [Option.toList_none, List.nil_append, takeSign.eq_def]
    split
    · exact absurd rfl (hs _ rfl).1
    · exact absurd rfl (hs _ rfl).2
    · rfl

theorem intPart_complete {int : List UInt8}
    (hint : int = [48] ∨ (int.all isDigit = true ∧ ∀ c ∈ int.head?, c ≠ 48)) {s : List UInt8}
    (hs : ∀ c ∈ s.head?, isDigit c = false) : intPart (int ++ s) = (int, s) := by
  rcases hint with rfl | ⟨hall, hhead⟩
  · rfl
  · obtain ⟨htake, hdrop⟩ := span_digits hall hs
    rw [intPart.eq_def]
    split
    · rename_i tail heq
      cases int with
      | nil =>
        rw [List.nil_append] at heq
        exact absurd (hs 48 (by rw [heq]; rfl)) (by decide)
      | cons c int =>
        cases heq
        exact absurd rfl (hhead 48 rfl)
    · rw [htake, hdrop]

theorem fracPart_complete {frac : Option (List UInt8)}
    (hfrac : ∀ ds ∈ frac, ds.all isDigit = true) {s : List UInt8}
    (hs : ∀ c ∈ s.head?, isDigit c = false ∧ c ≠ 46) :
    fracPart (NumberParts.fracText frac ++ s) = (frac, s) := by
  cases frac with
  | some ds =>
    obtain ⟨htake, hdrop⟩ := span_digits (hfrac ds rfl) fun c hc ↦ (hs c hc).1
    simp only [NumberParts.fracText, List.cons_append, fracPart, htake, hdrop]
  | none =>
    rw [NumberParts.fracText, List.nil_append, fracPart.eq_def]
    split
    · exact absurd rfl (hs _ rfl).2
    · rfl

theorem not_signed_of_digit {c : UInt8} (hc : isDigit c = true) : c ≠ 43 ∧ c ≠ 45 := by
  constructor <;> rintro rfl <;> exact absurd hc (by decide)

theorem expPart_complete {exp : Option (UInt8 × Option UInt8 × List UInt8)}
    (hexp : ∀ e sign ds, exp = some (e, sign, ds) →
      (e = 101 ∨ e = 69) ∧ (∀ c ∈ sign, c = 43 ∨ c = 45) ∧ ds.all isDigit = true)
    {rest : List UInt8} (hrest : Stops rest) :
    expPart (NumberParts.expText exp ++ rest) = (exp, rest) := by
  have hdigit : ∀ c ∈ rest.head?, isDigit c = false := by
    intro c hc
    cases rest with
    | nil => cases hc
    | cons d rest =>
      cases hc
      have hstart := hrest.1
      simp only [startsNumber, Bool.or_eq_false_iff] at hstart
      exact hstart.1
  cases exp with
  | none =>
    cases rest with
    | nil => rfl
    | cons c rest =>
      have hletter : ¬(c = 101 ∨ c = 69) := by
        rintro (h | h)
        · exact hrest.2.2.2.1 h
        · exact hrest.2.2.2.2 h
      simp only [NumberParts.expText, List.nil_append, expPart, hletter, if_false]
  | some exp =>
    obtain ⟨e, sign, ds⟩ := exp
    obtain ⟨hletter, hsign, hall⟩ := hexp e sign ds rfl
    have hhead : ∀ c ∈ (ds ++ rest).head?, c ≠ 43 ∧ c ≠ 45 := by
      intro c hc
      cases ds with
      | cons d ds =>
        cases hc
        rw [List.all_cons, Bool.and_eq_true] at hall
        exact not_signed_of_digit hall.1
      | nil =>
        cases rest with
        | nil => cases hc
        | cons d rest =>
          cases hc
          refine ⟨hrest.2.2.1, ?_⟩
          rintro rfl
          exact absurd hrest.1 (by decide)
    obtain ⟨htake, hdrop⟩ := span_digits hall hdigit
    have hsplit := takeSign_complete hsign hhead
    simp only [NumberParts.expText, List.cons_append, List.append_assoc, expPart, hletter, if_true,
      hsplit, htake, hdrop]

theorem exp_head {exp : Option (UInt8 × Option UInt8 × List UInt8)}
    (hexp : ∀ e sign ds, exp = some (e, sign, ds) → e = 101 ∨ e = 69)
    {rest : List UInt8} (hrest : Stops rest) :
    ∀ c ∈ (NumberParts.expText exp ++ rest).head?, isDigit c = false ∧ c ≠ 46 := by
  intro c hc
  cases exp with
  | some exp =>
    obtain ⟨e, sign, ds⟩ := exp
    cases hc
    rcases hexp _ _ _ rfl with rfl | rfl <;> decide
  | none =>
    cases rest with
    | nil => cases hc
    | cons d rest =>
      cases hc
      have hstart := hrest.1
      simp only [startsNumber, Bool.or_eq_false_iff] at hstart
      exact ⟨hstart.1, hrest.2.1⟩

theorem frac_head (frac : Option (List UInt8)) {s : List UInt8}
    (hs : ∀ c ∈ s.head?, isDigit c = false) :
    ∀ c ∈ (NumberParts.fracText frac ++ s).head?, isDigit c = false := by
  intro c hc
  cases frac with
  | some ds =>
    cases hc
    decide
  | none => exact hs c hc

theorem int_head {int : List UInt8}
    (hint : int = [48] ∨ (int.all isDigit = true ∧ ∀ c ∈ int.head?, c ≠ 48)) (hne : int ≠ [])
    (s : List UInt8) : ∀ c ∈ (int ++ s).head?, c ≠ 45 := by
  obtain ⟨d, int, rfl⟩ := List.exists_cons_of_ne_nil hne
  rintro c ⟨rfl⟩
  rcases hint with h | ⟨hall, -⟩
  · cases h
    decide
  · rw [List.all_cons, Bool.and_eq_true] at hall
    exact (not_signed_of_digit hall.1).2

theorem numberParts_complete {p : NumberParts} (hp : p.Loose) (hstart : p.sign = none → p.int ≠ [])
    {rest : List UInt8} (hrest : Stops rest) : numberParts (p.text ++ rest) = (p, rest) := by
  have hexpHead := exp_head (fun e sign ds h ↦ (hp.exp e sign ds h).1) hrest
  have hfracHead := frac_head p.frac fun c hc ↦ (hexpHead c hc).1
  have hminus := takeMinus_complete hp.sign fun h ↦ int_head hp.int (hstart h)
    (NumberParts.fracText p.frac ++ (NumberParts.expText p.exp ++ rest))
  simp only [numberParts, NumberParts.text, List.append_assoc, hminus,
    intPart_complete hp.int hfracHead, fracPart_complete hp.frac hexpHead,
    expPart_complete hp.exp hrest]

end JsonParser

namespace GoJsonScan

theorem digits_ok_iff (context : GoContext) (s : List UInt8) (x : List UInt8 × List UInt8) :
    digits context s = .ok x ↔ x = (s.takeWhile isDigit, s.dropWhile isDigit) ∧ x.1 ≠ [] := by
  cases s with
  | nil =>
    simp only [digits, reduceCtorEq, false_iff, not_and, not_not]
    rintro rfl
    rfl
  | cons c s =>
    by_cases hc : isDigit c = true
    · simp only [digits, hc, if_true, Except.ok.injEq]
      constructor
      · rintro rfl
        exact ⟨rfl, by rw [List.takeWhile_cons_of_pos hc]; exact List.cons_ne_nil _ _⟩
      · rintro ⟨rfl, -⟩
        rfl
    · simp only [digits, hc, Bool.false_eq_true, if_false, reduceCtorEq, false_iff, not_and,
        not_not]
      rintro rfl
      rw [List.takeWhile_cons_of_neg hc]

theorem intPart_ok_iff (s : List UInt8) (x : List UInt8 × List UInt8) :
    intPart s = .ok x ↔ x = JsonParser.intPart s ∧ x.1 ≠ [] := by
  rw [intPart.eq_def, JsonParser.intPart.eq_def]
  split
  · rw [Except.ok.injEq]
    constructor
    · rintro rfl
      exact ⟨rfl, List.cons_ne_nil _ _⟩
    · rintro ⟨rfl, -⟩
      rfl
  · exact digits_ok_iff _ _ _

theorem fracPart_ok_iff (s : List UInt8) (x : Option (List UInt8) × List UInt8) :
    fracPart s = .ok x ↔ x = JsonParser.fracPart s ∧ ∀ ds ∈ x.1, ds ≠ [] := by
  rw [fracPart.eq_def, JsonParser.fracPart.eq_def]
  split
  · simp only [map_eq_ok, digits_ok_iff]
    constructor
    · rintro ⟨_, ⟨rfl, hne⟩, rfl⟩
      exact ⟨rfl, by rintro ds ⟨rfl⟩; exact hne⟩
    · rintro ⟨rfl, hne⟩
      exact ⟨_, ⟨rfl, hne _ rfl⟩, rfl⟩
  · rw [Except.ok.injEq]
    constructor
    · rintro rfl
      exact ⟨rfl, by simp⟩
    · rintro ⟨rfl, -⟩
      rfl

theorem expPart_ok_iff (s : List UInt8)
    (x : Option (UInt8 × Option UInt8 × List UInt8) × List UInt8) :
    expPart s = .ok x ↔
      x = JsonParser.expPart s ∧ ∀ e sign ds, x.1 = some (e, sign, ds) → ds ≠ [] := by
  rw [expPart.eq_def, JsonParser.expPart.eq_def]
  split
  · rw [Except.ok.injEq]
    constructor
    · rintro rfl
      exact ⟨rfl, by simp⟩
    · rintro ⟨rfl, -⟩
      rfl
  · split_ifs
    · simp only [map_eq_ok, digits_ok_iff]
      constructor
      · rintro ⟨_, ⟨rfl, hne⟩, rfl⟩
        exact ⟨rfl, by rintro e sign ds ⟨⟩; exact hne⟩
      · rintro ⟨rfl, hne⟩
        exact ⟨_, ⟨rfl, hne _ _ _ rfl⟩, rfl⟩
    · rw [Except.ok.injEq]
      constructor
      · rintro rfl
        exact ⟨rfl, by simp⟩
      · rintro ⟨rfl, -⟩
        rfl

/-- `number` reads what `parse_number` reads, and refuses it where a run of digits is empty. -/
theorem numberParts_ok_iff (s rest : List UInt8) (p : NumberParts) :
    numberParts s = .ok (p, rest) ↔ JsonParser.numberParts s = (p, rest) ∧ p.Full := by
  simp only [numberParts, bind_eq_ok, intPart_ok_iff, fracPart_ok_iff, expPart_ok_iff]
  constructor
  · rintro ⟨_, ⟨rfl, hint⟩, _, ⟨rfl, hfrac⟩, _, ⟨rfl, hexp⟩, heq⟩
    cases heq
    exact ⟨rfl, hint, hfrac, hexp⟩
  · rintro ⟨heq, hfull⟩
    cases heq
    exact ⟨_, ⟨rfl, hfull.int⟩, _, ⟨rfl, hfull.frac⟩, _, ⟨rfl, hfull.exp⟩, rfl⟩

end GoJsonScan

theorem MinimalNumber.starts {s : List UInt8} (h : MinimalNumber s) :
    ∃ c tail, s = c :: tail ∧ startsNumber c = true := by
  obtain ⟨p, hp, hstart, rfl⟩ := h
  simp only [NumberParts.text, List.append_assoc]
  cases hsign : p.sign with
  | some c =>
    rw [hp.sign c hsign]
    exact ⟨45, _, rfl, by decide⟩
  | none =>
    obtain ⟨d, int, hint⟩ := List.exists_cons_of_ne_nil (hstart hsign)
    refine ⟨d, _, by rw [hint]; rfl, ?_⟩
    rcases hp.int with h | ⟨hall, -⟩
    · rw [hint] at h
      cases h
      decide
    · rw [hint, List.all_cons, Bool.and_eq_true] at hall
      rw [startsNumber, hall.1, Bool.true_or]

theorem visible_of_digit {c : UInt8} (hc : isDigit c = true) : 32 < c := by
  simp only [isDigit, Bool.and_eq_true, decide_eq_true_eq, UInt8.le_iff_toNat_le] at hc
  exact UInt8.lt_iff_toNat_lt.mpr (lt_of_lt_of_le (by decide) hc.1)

theorem visible_of_all {ds : List UInt8} (h : ds.all isDigit = true) : ∀ c ∈ ds, 32 < c := by
  intro c hc
  exact visible_of_digit (List.all_eq_true.mp h c hc)

theorem MinimalNumber.visible {s : List UInt8} (h : MinimalNumber s) : ∀ c ∈ s, 32 < c := by
  obtain ⟨p, hp, -, rfl⟩ := h
  intro c hc
  simp only [NumberParts.text, List.mem_append] at hc
  rcases hc with ((hc | hc) | hc) | hc
  · rw [hp.sign c (Option.mem_toList.mp hc)]
    decide
  · rcases hp.int with h | ⟨hall, -⟩
    · rw [h, List.mem_singleton] at hc
      rw [hc]
      decide
    · exact visible_of_all hall c hc
  · cases hfrac : p.frac with
    | none => simp [hfrac, NumberParts.fracText] at hc
    | some ds =>
      rw [hfrac, NumberParts.fracText, List.mem_cons] at hc
      rcases hc with rfl | hc
      · decide
      · exact visible_of_all (hp.frac ds hfrac) c hc
  · cases hexp : p.exp with
    | none => simp [hexp, NumberParts.expText] at hc
    | some exp =>
      obtain ⟨e, sign, ds⟩ := exp
      obtain ⟨he, hsign, hall⟩ := hp.exp e sign ds hexp
      rw [hexp, NumberParts.expText, List.cons_append, List.mem_cons, List.mem_append] at hc
      rcases hc with rfl | hc | hc
      · rcases he with rfl | rfl <;> decide
      · rcases hsign c (Option.mem_toList.mp hc) with rfl | rfl <;> decide
      · exact visible_of_all hall c hc

theorem minimalNumber_of_token {s : List UInt8} (h : NumberToken s) : MinimalNumber s := by
  obtain ⟨p, hp, hfull, hs⟩ := h
  exact ⟨p, hp, fun _ ↦ hfull.int, hs⟩

theorem isAsciiWhitespace_le {c : UInt8} (hc : isAsciiWhitespace c = true) : c ≤ 32 := by
  simp only [isAsciiWhitespace, Bool.or_eq_true, beq_iff_eq] at hc
  rcases hc with (((rfl | rfl) | rfl) | rfl) | rfl <;> decide

theorem isAsciiWhitespace_of_isSpace {c : UInt8} (hc : isSpace c = true) :
    isAsciiWhitespace c = true := by
  simp only [isSpace, Bool.or_eq_true, beq_iff_eq] at hc
  rcases hc with ((rfl | rfl) | rfl) | rfl <;> decide

theorem minimalTokens_lawful : minimalTokens.Lawful where
  space_le _ hc := isAsciiWhitespace_le hc
  number_starts _ h := h.starts
  number_visible _ h := h.visible

theorem rfcTokens_lawful : rfcTokens.Lawful where
  space_le _ hc := isAsciiWhitespace_le (isAsciiWhitespace_of_isSpace hc)
  number_starts _ h := (minimalNumber_of_token h).starts
  number_visible _ h := (minimalNumber_of_token h).visible

/-! ### The tokens of the two checkers -/

theorem GoJsonScan.literalTail_ok_iff (lit wants s rest : List UInt8) :
    GoJsonScan.literalTail lit wants s = .ok rest ↔ s = wants ++ rest := by
  induction wants generalizing s with
  | nil => simp [GoJsonScan.literalTail]
  | cons want wants ih =>
    cases s with
    | nil => simp [GoJsonScan.literalTail]
    | cons c s =>
      by_cases hc : c = want
      · simp [GoJsonScan.literalTail, hc, ih]
      · simp [GoJsonScan.literalTail, hc]

theorem expectLiteral_ok_iff (lit s rest : List UInt8) :
    expectLiteral lit s = .ok rest ↔ s = lit ++ rest := by
  induction lit generalizing s with
  | nil => simp [expectLiteral]
  | cons want lit ih =>
    cases s with
    | nil => simp [expectLiteral]
    | cons c s =>
      by_cases hc : c = want
      · simp [expectLiteral, hc, ih]
      · simp [expectLiteral, hc]

theorem GoJsonScan.recognises : GoJsonScan.scanner.Recognises rfcTokens where
  lawful := rfcTokens_lawful
  space := rfl
  string := scanString_ok_iff _
  literal _ lit s rest := GoJsonScan.literalTail_ok_iff _ lit s rest
  number_sound c s text rest hc h := by
    obtain ⟨⟨p, rest'⟩, hparts, heq⟩ := bind_eq_ok.mp h
    cases heq
    obtain ⟨hparse, hfull⟩ := (GoJsonScan.numberParts_ok_iff _ _ _).mp hparts
    obtain ⟨hsplit, hloose, -⟩ := JsonParser.numberParts_sound hc s
    rw [hparse] at hsplit hloose
    exact ⟨hsplit.symm, p, hloose, hfull, rfl⟩
  number_complete text rest h hrest := by
    obtain ⟨p, hp, hfull, rfl⟩ := h
    have hparse := JsonParser.numberParts_complete hp (fun _ ↦ hfull.int) hrest
    exact bind_eq_ok.mpr ⟨_, (GoJsonScan.numberParts_ok_iff _ _ _).mpr ⟨hparse, hfull⟩, rfl⟩

theorem JsonParser.recognises : JsonParser.scanner.Recognises minimalTokens where
  lawful := minimalTokens_lawful
  space := rfl
  string := scanString_ok_iff _
  literal c lit s rest := by
    refine (expectLiteral_ok_iff (c :: lit) (c :: s) rest).trans ?_
    simp
  number_sound c s text rest hc h := by
    cases h
    obtain ⟨hsplit, hloose, hstart⟩ := JsonParser.numberParts_sound hc s
    exact ⟨hsplit.symm, _, hloose, hstart, rfl⟩
  number_complete text rest h hrest := by
    obtain ⟨p, hp, hstart, rfl⟩ := h
    have hparse := JsonParser.numberParts_complete hp hstart hrest
    simp only [JsonParser.scanner, JsonParser.parseNumber, hparse]

/-! ### The bound of the model -/

theorem GoJsonScan.literalTail_ne (lit wants s : List UInt8) :
    GoJsonScan.literalTail lit wants s ≠ .error .exhausted := by
  fun_induction GoJsonScan.literalTail lit wants s with
  | case1 => exact ok_ne_error
  | case2 => exact fun h ↦ nomatch Except.error.inj h
  | case3 wants c s ih => exact ih
  | case4 => exact fun h ↦ nomatch Except.error.inj h

theorem expectLiteral_ne (lit s : List UInt8) : expectLiteral lit s ≠ .error .exhausted := by
  fun_induction expectLiteral lit s with
  | case1 => exact ok_ne_error
  | case2 => exact fun h ↦ nomatch Except.error.inj h
  | case3 wants c s ih => exact ih
  | case4 => exact fun h ↦ nomatch Except.error.inj h

theorem GoJsonScan.digits_ne (context : GoContext) (s : List UInt8) :
    GoJsonScan.digits context s ≠ .error .exhausted := by
  rw [GoJsonScan.digits.eq_def]
  split
  · exact fun h ↦ nomatch Except.error.inj h
  · split_ifs
    · exact ok_ne_error
    · exact fun h ↦ nomatch Except.error.inj h

theorem GoJsonScan.number_ne (s : List UInt8) : GoJsonScan.number s ≠ .error .exhausted := by
  refine bind_ne_error ?_ fun _ _ ↦ ok_ne_error
  refine bind_ne_error ?_ fun ⟨_, _⟩ _ ↦ bind_ne_error ?_ fun ⟨_, _⟩ _ ↦
    bind_ne_error ?_ fun _ _ ↦ ok_ne_error
  · rw [GoJsonScan.intPart.eq_def]
    split
    · exact ok_ne_error
    · exact GoJsonScan.digits_ne _ _
  · rw [GoJsonScan.fracPart.eq_def]
    split
    · exact map_ne_error (GoJsonScan.digits_ne _ _)
    · exact ok_ne_error
  · rw [GoJsonScan.expPart.eq_def]
    split
    · exact ok_ne_error
    · split_ifs
      · exact map_ne_error (GoJsonScan.digits_ne _ _)
      · exact ok_ne_error

theorem GoError.at_ne (context : GoContext) (c : Option UInt8) :
    GoError.at context c ≠ .exhausted := by
  cases c with
  | none => exact fun h ↦ nomatch h
  | some c => exact fun h ↦ nomatch h

theorem GoJsonScan.reports : GoJsonScan.scanner.Reports where
  string := scanString_ne (x := .exhausted) GoJsonScan.stringErrors
    nofun nofun nofun nofun nofun nofun 0
  literal lit _ := GoJsonScan.literalTail_ne lit _ _
  number := GoJsonScan.number_ne
  noValue := GoError.at_ne _
  noKey := GoError.at_ne _
  noColon := GoError.at_ne _
  noMemberEnd := GoError.at_ne _
  noItemEnd := GoError.at_ne _
  trailing _ h := nomatch h

theorem goJsonSyntaxCheck_ne_exhausted (raw : List UInt8) :
    goJsonSyntaxCheck raw ≠ .error .exhausted :=
  map_ne_error (GoJsonScan.reports.document_ne GoJsonScan.recognises raw)

theorem JsonParser.reports : JsonParser.scanner.Reports where
  string := scanString_ne (x := .exhausted) JsonParser.stringErrors
    nofun nofun nofun nofun nofun nofun 0
  literal := expectLiteral_ne
  number _ := ok_ne_error
  noValue _ h := nomatch h
  noKey _ h := nomatch h
  noColon _ h := nomatch h
  noMemberEnd _ h := nomatch h
  noItemEnd _ h := nomatch h
  trailing _ h := nomatch h

theorem parseJsonValue_ne_exhausted (input : List UInt8) :
    parseJsonValue input ≠ .error .exhausted :=
  map_ne_error (JsonParser.reports.document_ne JsonParser.recognises input)

/-! ### What the checkers accept -/

theorem goJsonSyntaxCheck_ok_iff (raw : List UInt8) :
    goJsonSyntaxCheck raw = .ok () ↔ ∃ t, Document rfcTokens raw t := by
  rw [goJsonSyntaxCheck, map_unit_eq_ok]
  exact exists_congr fun t ↦ GoJsonScan.recognises.document_ok_iff raw t

theorem parseJsonValue_ok_iff (input : List UInt8) :
    parseJsonValue input = .ok () ↔ ∃ t, Document minimalTokens input t := by
  rw [parseJsonValue, map_unit_eq_ok]
  exact exists_congr fun t ↦ JsonParser.recognises.document_ok_iff input t

/-- The other checker accepts white space and the documents of its own dialect. -/
theorem validateJsonSyntax_ok_iff (raw : List UInt8) :
    validateJsonSyntax raw = .ok () ↔
      trimAsciiWhitespace raw = [] ∨ ∃ t, Document minimalTokens raw t := by
  have htrim : (∃ t, Document minimalTokens (trimAsciiWhitespace raw) t) ↔
      ∃ t, Document minimalTokens raw t :=
    exists_congr fun t ↦ minimalTokens_lawful.document_trim raw t
  rw [← htrim, ← parseJsonValue_ok_iff, validateJsonSyntax]
  by_cases hempty : trimAsciiWhitespace raw = []
  · simp [hempty]
  · have hne : (trimAsciiWhitespace raw).isEmpty = false := by
      rw [List.isEmpty_eq_false_iff]
      exact hempty
    simp only [hne, Bool.false_eq_true, if_false, hempty, false_or]
    cases hparse : parseJsonValue (trimAsciiWhitespace raw) with
    | ok _ => simp
    | error e => simp

/-- The video checker accepts exactly the JSON texts of RFC 8259 at the level of bytes, and answers
every other body with one of the errors of the source. -/
theorem goJsonSyntaxCheck_decides (raw : List UInt8) :
    (goJsonSyntaxCheck raw = .ok () ↔ ∃ t, Document rfcTokens raw t) ∧
      goJsonSyntaxCheck raw ≠ .error .exhausted :=
  ⟨goJsonSyntaxCheck_ok_iff raw, goJsonSyntaxCheck_ne_exhausted raw⟩

/-! ### The two checkers compared -/

/-- A text of RFC 8259 is a document of the other dialect. -/
theorem minimal_of_rfc {body : List UInt8} {t : Written} (h : Document rfcTokens body t) :
    Document minimalTokens body t := by
  have hall : t.All NumberToken StringToken := by
    obtain ⟨_, _, _, _, _, hv, _⟩ := h
    exact hv.all
  refine h.transfer (fun b _ hb ↦ isAsciiWhitespace_of_isSpace hb) ?_
  exact hall.combine (fun n hn _ ↦ minimalNumber_of_token hn) (fun s hs _ ↦ hs) hall

/-- A text of RFC 8259 holds no form feed: between tokens it is no white space, and inside of one
no control byte is allowed. -/
theorem formFeed_not_mem {body : List UInt8} {t : Written} (h : Document rfcTokens body t) :
    12 ∉ body := by
  have hspace : ∀ w, rfcTokens.Spaces w → (12 : UInt8) ∉ w :=
    fun w hw hmem ↦ absurd (hw 12 hmem) (by decide)
  obtain ⟨w, v, w', rfl, hw, hv, hw'⟩ := h
  have hvisible := hv.visible
    (fun s hs b hb ↦ UInt8.le_of_lt ((minimalNumber_of_token hs).visible b hb))
    (fun s hs ↦ StringToken.visible hs)
  intro hmem
  simp only [List.mem_append] at hmem
  rcases hmem with (hmem | hmem) | hmem
  · exact hspace w hw hmem
  · rcases hvisible 12 hmem with h | h
    · exact absurd h (by decide)
    · exact absurd h (by decide)
  · exact hspace w' hw' hmem

theorem isSpace_of_isAsciiWhitespace {c : UInt8} (hc : isAsciiWhitespace c = true) (hne : c ≠ 12) :
    isSpace c = true := by
  simp only [isAsciiWhitespace, Bool.or_eq_true, beq_iff_eq] at hc
  rcases hc with (((rfl | rfl) | rfl) | rfl) | rfl
  · decide
  · decide
  · decide
  · exact absurd rfl hne
  · decide

/-- A document of the wider dialect is a text of RFC 8259 exactly when no form feed stands in it
and all its numbers are complete. -/
theorem rfc_iff_of_minimal {body : List UInt8} {t : Written} (h : Document minimalTokens body t) :
    (∃ t', Document rfcTokens body t') ↔ 12 ∉ body ∧ t.All NumberToken fun _ ↦ True := by
  constructor
  · rintro ⟨t', h'⟩
    obtain rfl := JsonParser.recognises.document_unique h (minimal_of_rfc h')
    refine ⟨formFeed_not_mem h', ?_⟩
    obtain ⟨_, _, _, _, _, hv, _⟩ := h'
    have hall : t.All NumberToken StringToken := hv.all
    exact hall.combine (fun n hn _ ↦ hn) (fun _ _ _ ↦ trivial) hall
  · rintro ⟨hfeed, hnumbers⟩
    have hstrings : t.All MinimalNumber StringToken := by
      obtain ⟨_, _, _, _, _, hv, _⟩ := h
      exact hv.all
    refine ⟨t, h.transfer (fun b hb hspace ↦ ?_) ?_⟩
    · exact isSpace_of_isAsciiWhitespace hspace fun heq ↦ hfeed (heq ▸ hb)
    · exact hnumbers.combine (fun n hn _ ↦ hn) (fun s _ hs ↦ hs) hstrings

/-- The two checkers agree on a body exactly when, read as a document of the wider dialect, it has
no form feed and no number with an empty run of digits. -/
theorem checkers_agree_iff (body : List UInt8) (hbody : trimAsciiWhitespace body ≠ []) :
    (validateJsonSyntax body = .ok () ↔ goJsonSyntaxCheck body = .ok ()) ↔
      ∀ t, Document minimalTokens body t → 12 ∉ body ∧ t.All NumberToken fun _ ↦ True := by
  rw [validateJsonSyntax_ok_iff, goJsonSyntaxCheck_ok_iff]
  simp only [hbody, false_or]
  constructor
  · intro hagree t ht
    exact (rfc_iff_of_minimal ht).mp (hagree.mp ⟨t, ht⟩)
  · intro hclean
    constructor
    · rintro ⟨t, ht⟩
      exact (rfc_iff_of_minimal ht).mpr (hclean t ht)
    · rintro ⟨t, ht⟩
      exact ⟨t, minimal_of_rfc ht⟩

/-- The body `-` is a number for one of the checkers only. -/
theorem checkers_disagree_on_minus :
    trimAsciiWhitespace [45] ≠ [] ∧
      ¬(validateJsonSyntax [45] = .ok () ↔ goJsonSyntaxCheck [45] = .ok ()) := by
  decide

/-- The bytes of ` {"on": [true, -1.5e3, {"x": null}]}`. -/
def nestedBody : List UInt8 :=
  [32, 123, 34, 111, 110, 34, 58, 32, 91, 116, 114, 117, 101, 44, 32, 45, 49, 46, 53, 101, 51, 44,
    32, 123, 34, 120, 34, 58, 32, 110, 117, 108, 108, 125, 93, 125]

theorem checkers_agree_on_nested :
    validateJsonSyntax nestedBody = .ok () ∧ trimAsciiWhitespace nestedBody ≠ [] ∧
      ((validateJsonSyntax nestedBody = .ok () ↔ goJsonSyntaxCheck nestedBody = .ok ()) ↔
        ∀ t, Document minimalTokens nestedBody t → 12 ∉ nestedBody ∧
          t.All NumberToken fun _ ↦ True) := by
  have hne : trimAsciiWhitespace nestedBody ≠ [] := by decide +kernel
  exact ⟨by decide +kernel, hne, checkers_agree_iff nestedBody hne⟩

end DoorAccess.Control
