import DoorAccess.Lib.Radix
import DoorAccess.Lib.Utf8
import Mathlib.Algebra.Field.Rat
import Mathlib.Algebra.Order.Ring.Int

/-!
# JSON texts and what they mean

The byte-level grammar of JSON, over the classes of tokens it is built from: which bytes are white
space, which texts are numbers, which bytes may stand between two quotes (`Tokens`). `Reads` relates
the bytes of a value, of the items between two brackets and of the members between two braces to
the tree they spell; numbers and strings stay in it as they were written. `rfcTokens` are the tokens
of RFC 8259.

A tree of written tokens becomes a value with `JsonTree.map`: `numberValue` is the rational number a
number token stands for and `unescape` the text of a string token. `Denotes` puts the two steps
together.

Bytes are written as numbers: 34 is the quotation mark, 44 the comma, 58 the colon, 91 and 93 the
brackets, 92 the backslash, 123 and 125 the braces.
-/

set_option autoImplicit false
set_option relaxedAutoImplicit false

namespace DoorAccess.Json

/-! ### Trees -/

/-- A JSON value over numbers `N` and strings `S`. The members of an object are a list in the order
of the text, and a key may occur more than once. -/
inductive JsonTree (N S : Type)
  | null
  | bool (b : Bool)
  | number (n : N)
  | string (s : S)
  | array (items : List (JsonTree N S))
  | object (members : List (S × JsonTree N S))

namespace JsonTree

variable {N S N' S' : Type}

mutual

/-- Rewrites every number and every string, keys included. -/
def map (f : N → N') (g : S → S') : JsonTree N S → JsonTree N' S'
  | null => null
  | bool b => bool b
  | number n => number (f n)
  | string s => string (g s)
  | array items => array (mapItems f g items)
  | object members => object (mapMembers f g members)

def mapItems (f : N → N') (g : S → S') : List (JsonTree N S) → List (JsonTree N' S')
  | [] => []
  | t :: ts => map f g t :: mapItems f g ts

def mapMembers (f : N → N') (g : S → S') : List (S × JsonTree N S) → List (S' × JsonTree N' S')
  | [] => []
  | (key, t) :: ms => (g key, map f g t) :: mapMembers f g ms

end

mutual

/-- Every number satisfies `P` and every string, keys included, satisfies `Q`. -/
def All (P : N → Prop) (Q : S → Prop) : JsonTree N S → Prop
  | null => True
  | bool _ => True
  | number n => P n
  | string s => Q s
  | array items => AllItems P Q items
  | object members => AllMembers P Q members

def AllItems (P : N → Prop) (Q : S → Prop) : List (JsonTree N S) → Prop
  | [] => True
  | t :: ts => All P Q t ∧ AllItems P Q ts

def AllMembers (P : N → Prop) (Q : S → Prop) : List (S × JsonTree N S) → Prop
  | [] => True
  | (key, t) :: ms => Q key ∧ All P Q t ∧ AllMembers P Q ms

end

mutual

/-- Two conditions on the tokens of a tree make a third one. -/
theorem All.combine {P P' P'' : N → Prop} {Q Q' Q'' : S → Prop}
    (hP : ∀ n, P n → P' n → P'' n) (hQ : ∀ s, Q s → Q' s → Q'' s) :
    ∀ {t : JsonTree N S}, t.All P Q → t.All P' Q' → t.All P'' Q''
  | null, _, _ => trivial
  | bool _, _, _ => trivial
  | number n, h, h' => hP n h h'
  | string s, h, h' => hQ s h h'
  | array _, h, h' => AllItems.combine hP hQ h h'
  | object _, h, h' => AllMembers.combine hP hQ h h'

theorem AllItems.combine {P P' P'' : N → Prop} {Q Q' Q'' : S → Prop}
    (hP : ∀ n, P n → P' n → P'' n) (hQ : ∀ s, Q s → Q' s → Q'' s) :
    ∀ {ts : List (JsonTree N S)}, AllItems P Q ts → AllItems P' Q' ts → AllItems P'' Q'' ts
  | [], _, _ => trivial
  | _ :: _, h, h' => ⟨All.combine hP hQ h.1 h'.1, AllItems.combine hP hQ h.2 h'.2⟩

theorem AllMembers.combine {P P' P'' : N → Prop} {Q Q' Q'' : S → Prop}
    (hP : ∀ n, P n → P' n → P'' n) (hQ : ∀ s, Q s → Q' s → Q'' s) :
    ∀ {ms : List (S × JsonTree N S)}, AllMembers P Q ms → AllMembers P' Q' ms →
      AllMembers P'' Q'' ms
  | [], _, _ => trivial
  | (key, _) :: _, h, h' => ⟨hQ key h.1 h'.1, All.combine hP hQ h.2.1 h'.2.1,
      AllMembers.combine hP hQ h.2.2 h'.2.2⟩

end

end JsonTree

/-- A tree of tokens as they are written. -/
abbrev Written := JsonTree (List UInt8) (List UInt8)

/-- What a stretch of a JSON text spells: a value, the items of an array or the members of an
object. -/
inductive Form
  | value (t : Written)
  | items (ts : List Written)
  | members (ms : List (List UInt8 × Written))

/-- `JsonTree.All` for each kind of stretch. -/
def Form.All (P Q : List UInt8 → Prop) : Form → Prop
  | value t => t.All P Q
  | items ts => JsonTree.AllItems P Q ts
  | members ms => JsonTree.AllMembers P Q ms

theorem Form.All.combine {P P' P'' Q Q' Q'' : List UInt8 → Prop}
    (hP : ∀ n, P n → P' n → P'' n) (hQ : ∀ s, Q s → Q' s → Q'' s) {f : Form} (h : f.All P Q)
    (h' : f.All P' Q') : f.All P'' Q'' := by
  cases f with
  | value t => exact JsonTree.All.combine hP hQ h h'
  | items ts => exact JsonTree.AllItems.combine hP hQ h h'
  | members ms => exact JsonTree.AllMembers.combine hP hQ h h'

/-! ### The grammar -/

/-- The token classes of a dialect of JSON: the bytes of white space, the number tokens, and what
may stand between the quotes of a string. -/
structure Tokens where
  space : UInt8 → Bool
  number : List UInt8 → Prop
  string : List UInt8 → Prop

/-- The bytes are all white space. -/
def Tokens.Spaces (T : Tokens) (w : List UInt8) : Prop :=
  ∀ b ∈ w, T.space b = true

theorem Tokens.spaces_nil (T : Tokens) : T.Spaces [] := by
  intro b hb
  exact absurd hb List.not_mem_nil

theorem Tokens.Spaces.append {T : Tokens} {w w' : List UInt8} (hw : T.Spaces w)
    (hw' : T.Spaces w') : T.Spaces (w ++ w') := by
  intro b hb
  rcases List.mem_append.mp hb with hb | hb
  · exact hw b hb
  · exact hw' b hb

/-- `true`, `false` and `null`. -/
def literalTrue : List UInt8 := [116, 114, 117, 101]

def literalFalse : List UInt8 := [102, 97, 108, 115, 101]

def literalNull : List UInt8 := [110, 117, 108, 108]

/-- The grammar: which bytes spell which form. A value is read without the white space around it,
items and members with it. -/
inductive Reads (T : Tokens) : List UInt8 → Form → Prop
  | nullLiteral : Reads T literalNull (.value .null)
  | trueLiteral : Reads T literalTrue (.value (.bool true))
  | falseLiteral : Reads T literalFalse (.value (.bool false))
  | number {s : List UInt8} : T.number s → Reads T s (.value (.number s))
  | string {raw : List UInt8} : T.string raw → Reads T (34 :: raw ++ [34]) (.value (.string raw))
  | emptyArray {w : List UInt8} : T.Spaces w → Reads T (91 :: w ++ [93]) (.value (.array []))
  | array {s : List UInt8} {ts : List Written} : Reads T s (.items ts) →
      Reads T (91 :: s ++ [93]) (.value (.array ts))
  | emptyObject {w : List UInt8} : T.Spaces w → Reads T (123 :: w ++ [125]) (.value (.object []))
  | object {s : List UInt8} {ms : List (List UInt8 × Written)} : Reads T s (.members ms) →
      Reads T (123 :: s ++ [125]) (.value (.object ms))
  | lastItem {w v w' : List UInt8} {t : Written} : T.Spaces w → Reads T v (.value t) →
      T.Spaces w' → Reads T (w ++ v ++ w') (.items [t])
  | item {w v w' s : List UInt8} {t : Written} {ts : List Written} : T.Spaces w →
      Reads T v (.value t) → T.Spaces w' → Reads T s (.items ts) →
      Reads T (w ++ v ++ w' ++ 44 :: s) (.items (t :: ts))
  | lastMember {w key w₁ w₂ v w' : List UInt8} {t : Written} : T.Spaces w → T.string key →
      T.Spaces w₁ → T.Spaces w₂ → Reads T v (.value t) → T.Spaces w' →
      Reads T (w ++ 34 :: key ++ 34 :: w₁ ++ 58 :: w₂ ++ v ++ w') (.members [(key, t)])
  | member {w key w₁ w₂ v w' s : List UInt8} {t : Written} {ms : List (List UInt8 × Written)} :
      T.Spaces w → T.string key → T.Spaces w₁ → T.Spaces w₂ → Reads T v (.value t) →
      T.Spaces w' → Reads T s (.members ms) →
      Reads T (w ++ 34 :: key ++ 34 :: w₁ ++ 58 :: w₂ ++ v ++ w' ++ 44 :: s)
        (.members ((key, t) :: ms))

/-- A whole text: one value with optional white space on both sides. -/
def Document (T : Tokens) (body : List UInt8) (t : Written) : Prop :=
  ∃ w v w', body = w ++ v ++ w' ∧ T.Spaces w ∧ Reads T v (.value t) ∧ T.Spaces w'

/-! ### Dialects compared -/

section Dialects

variable {T U : Tokens}

theorem Tokens.Spaces.mono {w : List UInt8} (hw : T.Spaces w)
    (h : ∀ b ∈ w, T.space b = true → U.space b = true) : U.Spaces w :=
  fun b hb ↦ h b hb (hw b hb)

/-- A text of one dialect is a text of another one that has the white space of the text and the
tokens of its tree. -/
theorem Reads.transfer {s : List UInt8} {f : Form} (hs : Reads T s f)
    (hspace : ∀ b ∈ s, T.space b = true → U.space b = true) (hf : f.All U.number U.string) :
    Reads U s f := by
  induction hs with
  | nullLiteral => exact .nullLiteral
  | trueLiteral => exact .trueLiteral
  | falseLiteral => exact .falseLiteral
  | number _ => exact .number hf
  | string _ => exact .string hf
  | emptyArray hw => exact .emptyArray (hw.mono fun b hb ↦ hspace b (by simp [hb]))
  | array _ ih => exact .array (ih (fun b hb ↦ hspace b (by simp [hb])) hf)
  | emptyObject hw => exact .emptyObject (hw.mono fun b hb ↦ hspace b (by simp [hb]))
  | object _ ih => exact .object (ih (fun b hb ↦ hspace b (by simp [hb])) hf)
  | lastItem hw _ hw' ih =>
    exact .lastItem (hw.mono fun b hb ↦ hspace b (by simp [hb]))
      (ih (fun b hb ↦ hspace b (by simp [hb])) hf.1)
      (hw'.mono fun b hb ↦ hspace b (by simp [hb]))
  | item hw _ hw' _ ih ihs =>
    exact .item (hw.mono fun b hb ↦ hspace b (by simp [hb]))
      (ih (fun b hb ↦ hspace b (by simp [hb])) hf.1)
      (hw'.mono fun b hb ↦ hspace b (by simp [hb]))
      (ihs (fun b hb ↦ hspace b (by simp [hb])) hf.2)
  | lastMember hw _ hw₁ hw₂ _ hw' ih =>
    exact .lastMember (hw.mono fun b hb ↦ hspace b (by simp [hb])) hf.1
      (hw₁.mono fun b hb ↦ hspace b (by simp [hb]))
      (hw₂.mono fun b hb ↦ hspace b (by simp [hb]))
      (ih (fun b hb ↦ hspace b (by simp [hb])) hf.2.1)
      (hw'.mono fun b hb ↦ hspace b (by simp [hb]))
  | member hw _ hw₁ hw₂ _ hw' _ ih ihs =>
    exact .member (hw.mono fun b hb ↦ hspace b (by simp [hb])) hf.1
      (hw₁.mono fun b hb ↦ hspace b (by simp [hb]))
      (hw₂.mono fun b hb ↦ hspace b (by simp [hb]))
      (ih (fun b hb ↦ hspace b (by simp [hb])) hf.2.1)
      (hw'.mono fun b hb ↦ hspace b (by simp [hb]))
      (ihs (fun b hb ↦ hspace b (by simp [hb])) hf.2.2)

/-- The tree of a text holds tokens of the dialect only. -/
theorem Reads.all {s : List UInt8} {f : Form} (hs : Reads T s f) :
    f.All T.number T.string := by
  induction hs with
  | nullLiteral | trueLiteral | falseLiteral | emptyArray _ | emptyObject _ => trivial
  | number h => exact h
  | string h => exact h
  | array _ ih => exact ih
  | object _ ih => exact ih
  | lastItem _ _ _ ih => exact ⟨ih, trivial⟩
  | item _ _ _ _ ih ihs => exact ⟨ih, ihs⟩
  | lastMember _ hkey _ _ _ _ ih => exact ⟨hkey, ih, trivial⟩
  | member _ hkey _ _ _ _ _ ih ihs => exact ⟨hkey, ih, ihs⟩

/-- Apart from white space a text holds no control bytes when its tokens hold none. -/
theorem Reads.visible (hnumber : ∀ s, T.number s → ∀ b ∈ s, 32 ≤ b)
    (hstring : ∀ s, T.string s → ∀ b ∈ s, 32 ≤ b) {s : List UInt8} {f : Form} (hs : Reads T s f) :
    ∀ b ∈ s, 32 ≤ b ∨ T.space b = true := by
  have hspaces : ∀ w, T.Spaces w → ∀ b ∈ w, 32 ≤ b ∨ T.space b = true :=
    fun w hw b hb ↦ Or.inr (hw b hb)
  have hkeys : ∀ key, T.string key → ∀ b ∈ key, 32 ≤ b ∨ T.space b = true :=
    fun key hkey b hb ↦ Or.inl (hstring key hkey b hb)
  have hpunct : ∀ b : UInt8, 32 ≤ b → 32 ≤ b ∨ T.space b = true := fun _ hb ↦ Or.inl hb
  induction hs with
  | nullLiteral | trueLiteral | falseLiteral =>
    intro b hb
    refine Or.inl ?_
    revert b
    exact List.all_iff_forall_prop.mp (by decide)
  | number h => exact fun b hb ↦ Or.inl (hnumber _ h b hb)
  | string h =>
    simp only [List.cons_append, List.forall_mem_cons, List.forall_mem_append]
    exact ⟨hpunct _ (by decide), hkeys _ h, hpunct _ (by decide), by simp⟩
  | emptyArray hw | emptyObject hw =>
    simp only [List.cons_append, List.forall_mem_cons, List.forall_mem_append]
    exact ⟨hpunct _ (by decide), hspaces _ hw, hpunct _ (by decide), by simp⟩
  | array _ ih | object _ ih =>
    simp only [List.cons_append, List.forall_mem_cons, List.forall_mem_append]
    exact ⟨hpunct _ (by decide), ih, hpunct _ (by decide), by simp⟩
  | lastItem hw _ hw' ih =>
    simp only [List.forall_mem_append]
    exact ⟨⟨hspaces _ hw, ih⟩, hspaces _ hw'⟩
  | item hw _ hw' _ ih ihs =>
    simp only [List.forall_mem_cons, List.forall_mem_append]
    exact ⟨⟨⟨hspaces _ hw, ih⟩, hspaces _ hw'⟩, hpunct _ (by decide), ihs⟩
  | lastMember hw hkey hw₁ hw₂ _ hw' ih =>
    simp only [List.forall_mem_cons, List.forall_mem_append]
    exact ⟨⟨⟨⟨⟨hspaces _ hw, hpunct _ (by decide), hkeys _ hkey⟩, hpunct _ (by decide),
      hspaces _ hw₁⟩, hpunct _ (by decide), hspaces _ hw₂⟩, ih⟩, hspaces _ hw'⟩
  | member hw hkey hw₁ hw₂ _ hw' _ ih ihs =>
    simp only [List.forall_mem_cons, List.forall_mem_append]
    exact ⟨⟨⟨⟨⟨⟨hspaces _ hw, hpunct _ (by decide), hkeys _ hkey⟩, hpunct _ (by decide),
      hspaces _ hw₁⟩, hpunct _ (by decide), hspaces _ hw₂⟩, ih⟩, hspaces _ hw'⟩,
      hpunct _ (by decide), ihs⟩

/-- A document of one dialect is a document of another one under the same condition. -/
theorem Document.transfer {body : List UInt8} {t : Written} (h : Document T body t)
    (hspace : ∀ b ∈ body, T.space b = true → U.space b = true)
    (ht : t.All U.number U.string) : Document U body t := by
  obtain ⟨w, v, w', rfl, hw, hv, hw'⟩ := h
  exact ⟨w, v, w', rfl, hw.mono fun b hb ↦ hspace b (by simp [hb]),
    hv.transfer (fun b hb ↦ hspace b (by simp [hb])) ht,
    hw'.mono fun b hb ↦ hspace b (by simp [hb])⟩

end Dialects

/-! ### The tokens of RFC 8259 -/

def isDigit (c : UInt8) : Bool :=
  48 ≤ c && c ≤ 57

def isHexDigit (c : UInt8) : Bool :=
  isDigit c || (97 ≤ c && c ≤ 102) || (65 ≤ c && c ≤ 70)

/-- Space, horizontal tab, line feed and carriage return. -/
def isSpace (c : UInt8) : Bool :=
  c == 32 || c == 9 || c == 10 || c == 13

/-- The bytes that follow a backslash in the escapes of two bytes. -/
def isShortEscape (c : UInt8) : Bool :=
  c == 34 || c == 92 || c == 47 || c == 98 || c == 102 || c == 110 || c == 114 || c == 116

/-- The content of a string token. -/
inductive StringToken : List UInt8 → Prop
  | nil : StringToken []
  | plain {c : UInt8} {raw : List UInt8} : 32 ≤ c → c ≠ 34 → c ≠ 92 → StringToken raw →
      StringToken (c :: raw)
  | short {c : UInt8} {raw : List UInt8} : isShortEscape c = true → StringToken raw →
      StringToken (92 :: c :: raw)
  | unicode {a b c d : UInt8} {raw : List UInt8} : isHexDigit a = true → isHexDigit b = true →
      isHexDigit c = true → isHexDigit d = true → StringToken raw →
      StringToken (92 :: 117 :: a :: b :: c :: d :: raw)

theorem StringToken.visible {raw : List UInt8} (h : StringToken raw) : ∀ b ∈ raw, 32 ≤ b := by
  have hhex : ∀ c : UInt8, isHexDigit c = true → 32 ≤ c := by
    intro c hc
    simp only [isHexDigit, isDigit, Bool.or_eq_true, Bool.and_eq_true, decide_eq_true_eq] at hc
    rcases hc with (⟨hc, -⟩ | ⟨hc, -⟩) | ⟨hc, -⟩
    · exact UInt8.le_trans (by decide) hc
    · exact UInt8.le_trans (by decide) hc
    · exact UInt8.le_trans (by decide) hc
  induction h with
  | nil => simp
  | plain hc _ _ _ ih =>
    rw [List.forall_mem_cons]
    exact ⟨hc, ih⟩
  | short hc _ ih =>
    simp only [isShortEscape, Bool.or_eq_true, beq_iff_eq] at hc
    simp only [List.forall_mem_cons]
    refine ⟨by decide, ?_, ih⟩
    rcases hc with ((((((rfl | rfl) | rfl) | rfl) | rfl) | rfl) | rfl) | rfl <;> decide
  | unicode ha hb hc hd _ ih =>
    simp only [List.forall_mem_cons]
    exact ⟨by decide, by decide, hhex _ ha, hhex _ hb, hhex _ hc, hhex _ hd, ih⟩

theorem StringToken.append_plain {bytes raw : List UInt8}
    (hbytes : ∀ b ∈ bytes, 32 ≤ b ∧ b ≠ 34 ∧ b ≠ 92) (hraw : StringToken raw) :
    StringToken (bytes ++ raw) := by
  induction bytes with
  | nil => exact hraw
  | cons b bytes ih =>
    rw [List.forall_mem_cons] at hbytes
    obtain ⟨⟨hb, hquote, hbackslash⟩, hrest⟩ := hbytes
    exact .plain hb hquote hbackslash (ih hrest)

/-- The parts of a number: its sign, the integer part, the digits behind a decimal point, and
behind the letter of the exponent its sign and its digits. -/
structure NumberParts where
  sign : Option UInt8
  int : List UInt8
  frac : Option (List UInt8)
  exp : Option (UInt8 × Option UInt8 × List UInt8)

namespace NumberParts

def fracText : Option (List UInt8) → List UInt8
  | none => []
  | some ds => 46 :: ds

def expText : Option (UInt8 × Option UInt8 × List UInt8) → List UInt8
  | none => []
  | some (e, sign, ds) => e :: sign.toList ++ ds

/-- The parts written out. -/
def text (p : NumberParts) : List UInt8 :=
  p.sign.toList ++ p.int ++ fracText p.frac ++ expText p.exp

/-- The parts are of the right bytes, and the integer part does not continue a leading zero; each of
its three runs of digits may be empty. -/
structure Loose (p : NumberParts) : Prop where
  sign : ∀ c ∈ p.sign, c = 45
  int : p.int = [48] ∨ (p.int.all isDigit = true ∧ ∀ c ∈ p.int.head?, c ≠ 48)
  frac : ∀ ds ∈ p.frac, ds.all isDigit = true
  exp : ∀ e sign ds, p.exp = some (e, sign, ds) →
    (e = 101 ∨ e = 69) ∧ (∀ c ∈ sign, c = 43 ∨ c = 45) ∧ ds.all isDigit = true

/-- No run of digits is empty. -/
structure Full (p : NumberParts) : Prop where
  int : p.int ≠ []
  frac : ∀ ds ∈ p.frac, ds ≠ []
  exp : ∀ e sign ds, p.exp = some (e, sign, ds) → ds ≠ []

end NumberParts

/-- A number token. -/
def NumberToken (s : List UInt8) : Prop :=
  ∃ p : NumberParts, p.Loose ∧ p.Full ∧ p.text = s

/-- The tokens of RFC 8259, at the level of bytes. -/
def rfcTokens : Tokens where
  space := isSpace
  number := NumberToken
  string := StringToken

/-! ### What tokens mean -/

/-- The absolute value of a number token without its sign: the digits, scaled by the exponent less
the number of digits behind the point. -/
def unsignedValue (s : List UInt8) : ℚ :=
  let int := s.takeWhile isDigit
  let tail := s.dropWhile isDigit
  let (frac, tail) := match tail with
    | 46 :: tail => (tail.takeWhile isDigit, tail.dropWhile isDigit)
    | tail => ([], tail)
  let exp : ℤ := match tail with
    | _ :: 45 :: ds => -Radix.value 10 ds
    | _ :: 43 :: ds => Radix.value 10 ds
    | _ :: ds => Radix.value 10 ds
    | [] => 0
  Radix.value 10 (int ++ frac) * (10 : ℚ) ^ (exp - frac.length)

/-- The rational number a number token stands for. -/
def numberValue : List UInt8 → ℚ
  | 45 :: s => -unsignedValue s
  | s => unsignedValue s

/-- The value of a hexadecimal digit. -/
def hexValue (c : Char) : ℕ :=
  if c.toNat < 65 then c.toNat - 48
  else if c.toNat < 97 then c.toNat - 65 + 10
  else c.toNat - 97 + 10

def unitValue (a b c d : Char) : ℕ :=
  ((hexValue a * 16 + hexValue b) * 16 + hexValue c) * 16 + hexValue d

/-- The character of an escape of two characters. -/
def shortEscape (c : Char) : Char :=
  if c = 'b' then Char.ofNat 8
  else if c = 'f' then Char.ofNat 12
  else if c = 'n' then Char.ofNat 10
  else if c = 'r' then Char.ofNat 13
  else if c = 't' then Char.ofNat 9
  else c

/-- The character of a code unit that is no half of a pair. -/
def unitChar (u : ℕ) : Char :=
  if 0xD800 ≤ u ∧ u < 0xE000 then Utf8.replacement else Char.ofNat u

/-- The escapes of a text replaced by what they stand for: two code units of a surrogate pair by one
character, a half of a pair alone by the replacement character. -/
def unescapeText : List Char → List Char
  | '\\' :: 'u' :: a :: b :: c :: d :: '\\' :: 'u' :: a' :: b' :: c' :: d' :: text =>
    let hi := unitValue a b c d
    let lo := unitValue a' b' c' d'
    if (0xD800 ≤ hi ∧ hi < 0xDC00) ∧ 0xDC00 ≤ lo ∧ lo < 0xE000 then
      Char.ofNat (0x10000 + (hi - 0xD800) * 0x400 + (lo - 0xDC00)) :: unescapeText text
    else
      unitChar hi :: unescapeText ('\\' :: 'u' :: a' :: b' :: c' :: d' :: text)
  | '\\' :: 'u' :: a :: b :: c :: d :: text => unitChar (unitValue a b c d) :: unescapeText text
  | '\\' :: c :: text => shortEscape c :: unescapeText text
  | c :: text => c :: unescapeText text
  | [] => []

/-- The text of a string token. -/
def unescape (raw : List UInt8) : List Char :=
  unescapeText (Utf8.decodeLossy raw)

theorem unescapeText_plain {c : Char} (hc : c ≠ '\\') (text : List Char) :
    unescapeText (c :: text) = c :: unescapeText text := by
  rw [unescapeText.eq_def]
  split
  · rename_i heq
    cases heq
    exact absurd rfl hc
  · rename_i heq
    cases heq
    exact absurd rfl hc
  · rename_i heq
    cases heq
    exact absurd rfl hc
  · rename_i heq
    cases heq
    rfl
  · rename_i heq
    cases heq

theorem unescapeText_short {c : Char} (hc : c ≠ 'u') (text : List Char) :
    unescapeText ('\\' :: c :: text) = shortEscape c :: unescapeText text := by
  rw [unescapeText.eq_def]
  split
  · rename_i heq
    cases heq
    exact absurd rfl hc
  · rename_i heq
    cases heq
    exact absurd rfl hc
  · rename_i heq
    cases heq
    rfl
  · rename_i hne heq
    cases heq
    exact (hne c text rfl rfl).elim
  · rename_i heq
    cases heq

/-- An escape that is not the first half of a surrogate pair stands for itself. -/
theorem unescapeText_unit {a b c d : Char} (hu : unitValue a b c d < 0xD800) (text : List Char) :
    unescapeText ('\\' :: 'u' :: a :: b :: c :: d :: text)
      = unitChar (unitValue a b c d) :: unescapeText text := by
  rw [unescapeText.eq_def]
  split
  · rename_i heq
    cases heq
    rw [if_neg (by omega)]
  · rename_i heq
    cases heq
    rfl
  · rename_i hne heq
    cases heq
    exact (hne a b c d text rfl rfl).elim
  · rename_i hne heq
    cases heq
    exact (hne 'u' (a :: b :: c :: d :: text) rfl rfl).elim
  · rename_i heq
    cases heq

/-- A JSON value: rational numbers and texts. -/
abbrev Value := JsonTree ℚ (List Char)

/-- The value of a tree of tokens. -/
def valueOf (t : Written) : Value :=
  t.map numberValue unescape

/-- The bytes are a JSON text with this value. -/
def Denotes (body : List UInt8) (v : Value) : Prop :=
  ∃ t, Document rfcTokens body t ∧ valueOf t = v

example : numberValue [45, 49, 50, 46, 53, 101, 45, 49] = -5 / 4 := by
  decide +kernel

example : unescape [97, 92, 110, 92, 117, 100, 56, 51, 100, 92, 117, 100, 101, 48, 48]
    = ['a', Char.ofNat 10, Char.ofNat 0x1F600] := by decide +kernel

end DoorAccess.Json
