import DoorAccess.Control.Json

/-!
# Fields of a request body

`extract_json_string_field` and `extract_json_bool_field` look a field up in a request body that
one of the two checkers has accepted. They scan the members of the top-level object a second time,
with string and value readers of their own: `read_json_string` knows no escapes and wants UTF-8,
`skip_json_value` uses it for every string it passes over.

So the extractors return the last occurrence of the field exactly when no string of the body, key
or value, wanted or not, at whatever depth, holds a backslash or bytes that are not UTF-8
(`extract_iff_plain`). On any other body they fail, and the handlers of `/unlock` and the video
endpoints then go on as if the field were missing.
-/

set_option autoImplicit false
set_option relaxedAutoImplicit false

namespace DoorAccess.Control

open Codec (ascii)
open Json Fallible

/-! ### The readers -/

/-- The bytes of a string up to its closing quote, for a reader that knows no escapes. -/
def plainString : List UInt8 → Except JsonError (List UInt8 × List UInt8)
  | [] => .error .unterminated
  | c :: s =>
    if c = 34 then .ok ([], s)
    else if c = 92 then .error .escapedKey
    else if c < 32 then .error .controlChar
    else push [c] (plainString s)

/-- `read_json_string` from behind the opening quote. -/
def readStringBody (s : List UInt8) : Except JsonError (List UInt8 × List UInt8) := do
  let (raw, s) ← plainString s
  if Utf8.isUtf8 raw then return (raw, s) else .error .invalidUtf8

/-- `read_json_string`. -/
def readJsonString : List UInt8 → Except JsonError (Str × List UInt8)
  | 34 :: s => readStringBody s
  | _ => .error .expectedStringKey

/-- `read_json_bool`: `null` leaves the field at its zero value. -/
def readJsonBool (s : List UInt8) : Except JsonError (Bool × List UInt8) :=
  if literalTrue.isPrefixOf s then .ok (true, s.drop 4)
  else if literalFalse.isPrefixOf s then .ok (false, s.drop 5)
  else if literalNull.isPrefixOf s then .ok (false, s.drop 4)
  else .error .expectedBool

/-- `skip_json_object`, `skip_json_array` and the other `skip_json_` functions: how they read tokens
and what they say where a byte is missing. -/
def skipper : Scanner JsonError where
  space := isAsciiWhitespace
  string := readStringBody
  literal := expectLiteral
  number s := .ok (JsonParser.parseNumber s)
  noValue _ := .invalidValue
  noKey _ := .expectedStringKey
  noColon _ := .expectedColon
  noMemberEnd _ := .expectedCommaOrBrace
  noItemEnd _ := .expectedCommaOrBracket
  trailing _ := .trailingData
  exhausted := .exhausted

/-- `skip_json_value`: the input behind the value. -/
def skipJsonValue (s : List UInt8) : Except JsonError (List UInt8) := do
  let (_, s) ← skipper.value (s.length + 1) s
  return s

/-! ### The extractors -/

def asciiLower (c : UInt8) : UInt8 :=
  if 65 ≤ c ∧ c ≤ 90 then c + 32 else c

/-- `str::eq_ignore_ascii_case`. -/
def eqIgnoreAsciiCase (a b : Str) : Bool :=
  a.map asciiLower == b.map asciiLower

section Extractor

variable {α : Type} (read : List UInt8 → Except JsonError (α × List UInt8)) (wantKey : Str)

/-- The value of one member: read if it is wanted, and otherwise skipped with the last one kept. -/
def extractValue (key : Str) (last : Option α) (s : List UInt8) :
    Except JsonError (Option α × List UInt8) :=
  if eqIgnoreAsciiCase key wantKey then do
    let (v, s) ← read s
    return (some v, s)
  else do
    let s ← skipJsonValue s
    return (last, s)

/-- `last.ok_or("missing field")`. -/
def orMissing : Option α → Except JsonError α
  | some v => .ok v
  | none => .error .missingField

/-- The loop over the members of the top-level object, which ends at its closing brace. -/
def extractLoop : ℕ → Option α → List UInt8 → Except JsonError α
  | 0, _, _ => .error .exhausted
  | k + 1, last, s => do
    let (key, s) ← readJsonString (skipper.skip s)
    let s ← skipper.colon s
    let (last, s) ← extractValue read wantKey key last (skipper.skip s)
    let (more, s) ← skipper.separator 125 (fun _ ↦ .expectedCommaOrBrace) s
    if more then extractLoop k last s else orMissing last

/-- The extractors, with the reader for the wanted value. -/
def extractField (input : List UInt8) : Except JsonError α :=
  match trimAsciiWhitespace input with
  | 123 :: s =>
    match skipper.skip s with
    | 125 :: _ => .error .missingField
    | r => extractLoop read wantKey (s.length + 1) none r
  | _ => .error .expectedObject

end Extractor

/-- `extract_json_string_field`. -/
def extractJsonStringField (input : List UInt8) (wantKey : Str) : Except JsonError Str :=
  extractField readJsonString wantKey input

/-- `extract_json_bool_field`. -/
def extractJsonBoolField (input : List UInt8) (wantKey : Str) : Except JsonError Bool :=
  extractField readJsonBool wantKey input

/-! ### The request bodies -/

/-- `Result::unwrap_or_default` on a string. -/
def orEmpty : Except JsonError Str → Str
  | .ok s => s
  | .error _ => []

/-- `parse_unlock_body`: the fields `from` and `to`. -/
def parseUnlockBody (raw : List UInt8) : Str × Str :=
  if raw.isEmpty then ([], [])
  else
    let trimmed := trimAsciiWhitespace raw
    (orEmpty (extractJsonStringField trimmed (ascii "from")),
      orEmpty (extractJsonStringField trimmed (ascii "to")))

/-- `parse_auto_toggle_body`. -/
def parseAutoToggleBody (raw : List UInt8) : Except Str Bool :=
  if raw.isEmpty then .ok false
  else
    let trimmed := trimAsciiWhitespace raw
    if trimmed = literalNull then .ok false
    else match extractJsonBoolField trimmed (ascii "on") with
      | .ok v => .ok v
      | .error .missingField => .ok false
      | .error e => .error (ascii "parse JSON body: " ++ e.text)

/-- `parse_video_body`. -/
def parseVideoBody (raw : List UInt8) : Except Str Str :=
  if raw.isEmpty then .ok []
  else match goJsonSyntaxCheck raw with
    | .error e => .error (ascii "parse JSON body: " ++ e.text)
    | .ok _ => .ok (orEmpty (extractJsonStringField (trimAsciiWhitespace raw) (ascii "outdoor")))

/-! ### What the readers read -/

/-- A string as it is written that `read_json_string` can read: no escape, and valid UTF-8. -/
def Plain (raw : List UInt8) : Prop :=
  92 ∉ raw ∧ Utf8.isUtf8 raw = true

theorem stringToken_plain_iff (raw : List UInt8) :
    StringToken raw ∧ 92 ∉ raw ↔ ∀ c ∈ raw, 32 ≤ c ∧ c ≠ 34 ∧ c ≠ 92 := by
  constructor
  · rintro ⟨htoken, hbackslash⟩
    induction htoken with
    | nil => simp
    | plain hc hquote hne _ ih =>
      rw [List.mem_cons, not_or] at hbackslash
      rw [List.forall_mem_cons]
      exact ⟨⟨hc, hquote, hne⟩, ih hbackslash.2⟩
    | short _ _ _ => exact absurd List.mem_cons_self hbackslash
    | unicode _ _ _ _ _ _ => exact absurd List.mem_cons_self hbackslash
  · intro h
    refine ⟨?_, fun hmem ↦ (h 92 hmem).2.2 rfl⟩
    have htoken := StringToken.nil.append_plain h
    rwa [List.append_nil] at htoken

theorem plainString_ok_iff (s raw rest : List UInt8) :
    plainString s = .ok (raw, rest) ↔
      s = raw ++ 34 :: rest ∧ ∀ c ∈ raw, 32 ≤ c ∧ c ≠ 34 ∧ c ≠ 92 := by
  induction s generalizing raw with
  | nil => simp [plainString]
  | cons c s ih =>
    rw [plainString]
    split_ifs with hquote hbackslash hcontrol
    · subst hquote
      constructor
      · intro h
        cases h
        exact ⟨rfl, by simp⟩
      · rintro ⟨h, hraw⟩
        cases raw with
        | nil =>
          cases h
          rfl
        | cons d raw =>
          cases h
          exact absurd rfl (hraw 34 List.mem_cons_self).2.1
    · constructor
      · rintro ⟨⟩
      · rintro ⟨h, hraw⟩
        cases raw with
        | nil =>
          cases h
          exact absurd rfl hquote
        | cons d raw =>
          cases h
          exact absurd hbackslash (hraw c List.mem_cons_self).2.2
    · constructor
      · rintro ⟨⟩
      · rintro ⟨h, hraw⟩
        cases raw with
        | nil =>
          cases h
          exact absurd rfl hquote
        | cons d raw =>
          cases h
          exact absurd (hraw c List.mem_cons_self).1 (UInt8.not_le.mpr hcontrol)
    · rw [push_eq_ok]
      constructor
      · rintro ⟨raw', h, rfl⟩
        obtain ⟨rfl, hraw⟩ := (ih raw').mp h
        refine ⟨rfl, ?_⟩
        rw [List.singleton_append, List.forall_mem_cons]
        exact ⟨⟨UInt8.not_lt.mp hcontrol, hquote, hbackslash⟩, hraw⟩
      · rintro ⟨h, hraw⟩
        cases raw with
        | nil =>
          cases h
          exact absurd rfl hquote
        | cons d raw =>
          cases h
          rw [List.forall_mem_cons] at hraw
          exact ⟨raw, (ih raw).mpr ⟨rfl, hraw.2⟩, rfl⟩

theorem readStringBody_ok_iff (s raw rest : List UInt8) :
    readStringBody s = .ok (raw, rest) ↔ s = raw ++ 34 :: rest ∧ StringToken raw ∧ Plain raw := by
  have hiff := stringToken_plain_iff raw
  rw [readStringBody, bind_eq_ok]
  constructor
  · rintro ⟨⟨raw', rest'⟩, hread, h⟩
    dsimp only at h
    split_ifs at h with hutf8
    cases h
    obtain ⟨hs, hraw⟩ := (plainString_ok_iff _ _ _).mp hread
    obtain ⟨htoken, hbackslash⟩ := hiff.mpr hraw
    exact ⟨hs, htoken, hbackslash, hutf8⟩
  · rintro ⟨hs, htoken, hbackslash, hutf8⟩
    refine ⟨(raw, rest), (plainString_ok_iff _ _ _).mpr ⟨hs, hiff.mp ⟨htoken, hbackslash⟩⟩, ?_⟩
    dsimp only
    rw [if_pos hutf8]
    rfl

/-- The tokens of the `skip_json_` functions. -/
def plainTokens : Tokens where
  space := isAsciiWhitespace
  number := MinimalNumber
  string raw := StringToken raw ∧ Plain raw

theorem plainTokens_lawful : plainTokens.Lawful where
  space_le _ hc := isAsciiWhitespace_le hc
  number_starts _ h := h.starts
  number_visible _ h := h.visible

theorem skipper_recognises : skipper.Recognises plainTokens where
  lawful := plainTokens_lawful
  space := rfl
  string := readStringBody_ok_iff
  literal := JsonParser.recognises.literal
  number_sound := JsonParser.recognises.number_sound
  number_complete := JsonParser.recognises.number_complete

theorem readJsonString_ok_iff (s raw rest : List UInt8) :
    readJsonString s = .ok (raw, rest) ↔
      s = 34 :: raw ++ 34 :: rest ∧ StringToken raw ∧ Plain raw := by
  rw [readJsonString.eq_def]
  split
  · rw [readStringBody_ok_iff, List.cons_append, List.cons.injEq]
    simp
  · rename_i hne
    constructor
    · rintro ⟨⟩
    · rintro ⟨rfl, -⟩
      exact (hne _ rfl).elim

/-- A reader of the wanted value reads one value, and its answer depends on the tree only. -/
structure ReadsValue {α : Type} (read : List UInt8 → Except JsonError (α × List UInt8))
    (val : Written → Option α) : Prop where
  sound : ∀ s a rest, read s = .ok (a, rest) →
    ∃ v t, s = v ++ rest ∧ Reads plainTokens v (.value t) ∧ val t = some a
  complete : ∀ v t a rest, Reads plainTokens v (.value t) → val t = some a →
    read (v ++ rest) = .ok (a, rest)

/-- The string a value token holds. -/
def stringOf : Written → Option Str
  | .string raw => some raw
  | _ => none

/-- The truth value of a value token: `null` counts as `false`. -/
def boolOf {N S : Type} : JsonTree N S → Option Bool
  | .bool b => some b
  | .null => some false
  | _ => none

theorem readJsonString_reads : ReadsValue readJsonString stringOf where
  sound s raw rest h := by
    obtain ⟨rfl, hraw⟩ := (readJsonString_ok_iff _ _ _).mp h
    exact ⟨34 :: raw ++ [34], .string raw, by simp, .string hraw, rfl⟩
  complete v t raw rest hv ht := by
    cases t with
    | string raw' =>
      cases ht
      cases hv with
      | string hraw => exact (readJsonString_ok_iff _ _ _).mpr ⟨by simp, hraw⟩
    | null | bool _ | number _ | array _ | object _ => cases ht

theorem readJsonBool_reads : ReadsValue readJsonBool boolOf where
  sound s b rest h := by
    rw [readJsonBool] at h
    split_ifs at h with htrue hfalse hnull
    · obtain ⟨tail, rfl⟩ := List.isPrefixOf_iff_prefix.mp htrue
      cases h
      exact ⟨literalTrue, .bool true, rfl, .trueLiteral, rfl⟩
    · obtain ⟨tail, rfl⟩ := List.isPrefixOf_iff_prefix.mp hfalse
      cases h
      exact ⟨literalFalse, .bool false, rfl, .falseLiteral, rfl⟩
    · obtain ⟨tail, rfl⟩ := List.isPrefixOf_iff_prefix.mp hnull
      cases h
      exact ⟨literalNull, .null, rfl, .nullLiteral, rfl⟩
  complete v t b rest hv ht := by
    cases t with
    | null =>
      cases ht
      cases hv
      rfl
    | bool b' =>
      cases ht
      cases hv with
      | trueLiteral => rfl
      | falseLiteral => rfl
    | number _ | string _ | array _ | object _ => cases ht

/-! ### The loop over the members -/

section Loop

variable {α : Type} {read : List UInt8 → Except JsonError (α × List UInt8)}
  {val : Written → Option α} {wantKey : Str}

/-- What the loop holds behind the members: the value of the last wanted one, or what it held
before. -/
def lastValue (val : Written → Option α) (wantKey : Str) :
    Option α → List (List UInt8 × Written) → Option α
  | last, [] => last
  | last, (key, t) :: ms =>
    lastValue val wantKey (if eqIgnoreAsciiCase key wantKey then val t else last) ms

theorem skipJsonValue_sound {s rest : List UInt8} (h : skipJsonValue s = .ok rest) :
    ∃ w v t, s = w ++ v ++ rest ∧ plainTokens.Spaces w ∧ Reads plainTokens v (.value t) := by
  obtain ⟨⟨t, rest'⟩, hvalue, h⟩ := bind_eq_ok.mp h
  cases h
  obtain ⟨w, v, hs, hw, hv⟩ := skipper_recognises.value_sound _ _ _ _ hvalue
  exact ⟨w, v, t, hs, hw, hv⟩

theorem skipJsonValue_complete {v rest : List UInt8} {t : Written}
    (hv : Reads plainTokens v (.value t)) (hrest : Stops rest) :
    skipJsonValue (v ++ rest) = .ok rest := by
  have h := skipper_recognises.complete hv ((v ++ rest).length + 1) [] rest (by simp; omega)
    plainTokens.spaces_nil hrest
  exact bind_eq_ok.mpr ⟨_, h, rfl⟩

theorem extractValue_sound (hread : ReadsValue read val) {key : Str} {last last' : Option α}
    {s rest : List UInt8}
    (h : extractValue read wantKey key last (skipper.skip s) = .ok (last', rest)) :
    ∃ w v t, s = w ++ v ++ rest ∧ plainTokens.Spaces w ∧ Reads plainTokens v (.value t) ∧
      last' = if eqIgnoreAsciiCase key wantKey then val t else last := by
  obtain ⟨w, hskip, hw⟩ := skipper_recognises.skip_eq s
  rw [extractValue] at h
  split_ifs at h with hkey
  · obtain ⟨⟨a, rest'⟩, hvalue, h⟩ := bind_eq_ok.mp h
    cases h
    obtain ⟨v, t, hs, hv, ht⟩ := hread.sound _ _ _ hvalue
    refine ⟨w, v, t, ?_, hw, hv, by rw [if_pos hkey, ht]⟩
    rw [List.append_assoc, ← hs]
    exact hskip
  · obtain ⟨rest', hvalue, h⟩ := bind_eq_ok.mp h
    cases h
    obtain ⟨w', v, t, hs, hw', hv⟩ := skipJsonValue_sound hvalue
    refine ⟨w ++ w', v, t, ?_, hw.append hw', hv, by rw [if_neg hkey]⟩
    rw [hs] at hskip
    simpa using hskip

theorem extractValue_complete (hread : ReadsValue read val) {key : Str} (last : Option α)
    {w v rest : List UInt8} {t : Written} (hw : plainTokens.Spaces w)
    (hv : Reads plainTokens v (.value t)) (hrest : Stops rest)
    (ht : eqIgnoreAsciiCase key wantKey = true → ∃ a, val t = some a) :
    extractValue read wantKey key last (skipper.skip (w ++ v ++ rest))
      = .ok (if eqIgnoreAsciiCase key wantKey then val t else last, rest) := by
  have hskip : skipper.skip (w ++ v ++ rest) = v ++ rest := by
    obtain ⟨c, s, rfl, hc, -⟩ := plainTokens_lawful.value_head hv
    rw [List.append_assoc, List.cons_append, skipper_recognises.skip_spaces_cons hw hc]
  rw [hskip, extractValue]
  split_ifs with hkey
  · obtain ⟨a, ha⟩ := ht hkey
    rw [ha]
    exact bind_eq_ok.mpr ⟨_, hread.complete v t a rest hv ha, rfl⟩
  · exact bind_eq_ok.mpr ⟨_, skipJsonValue_complete hv hrest, rfl⟩

/-- A loop that ends well has read members of plain strings and returns the last wanted one. -/
theorem extractLoop_sound (hread : ReadsValue read val) (k : ℕ) {last : Option α} {s : List UInt8}
    {a : α} (h : extractLoop read wantKey k last s = .ok a) :
    ∃ v ms rest, s = v ++ 125 :: rest ∧ Reads plainTokens v (.members ms) ∧
      lastValue val wantKey last ms = some a := by
  induction k generalizing last s with
  | zero => cases h
  | succ k ih =>
    simp only [extractLoop, bind_eq_ok, Prod.exists] at h
    obtain ⟨key, s₁, hkey, s₂, hcolon, last', s₃, hvalue, more, s₄, hmore, h⟩ := h
    obtain ⟨w, hskip, hw⟩ := skipper_recognises.skip_eq s
    obtain ⟨hs, hplain⟩ := (readJsonString_ok_iff _ _ _).mp hkey
    obtain ⟨w₁, rfl, hw₁⟩ := skipper_recognises.colon_sound hcolon
    obtain ⟨w₂, v, t, rfl, hw₂, hv, hlast⟩ := extractValue_sound hread hvalue
    obtain ⟨w', rfl, hw'⟩ := skipper_recognises.separator_sound hmore
    rw [hs] at hskip
    cases more with
    | false =>
      refine ⟨_, [(key, t)], s₄, ?_, .lastMember hw hplain hw₁ hw₂ hv hw', ?_⟩
      · rw [hskip]
        simp
      · rw [lastValue, lastValue, ← hlast]
        cases last' with
        | none => cases h
        | some b =>
          cases h
          rfl
    | true =>
      obtain ⟨v', ms, rest, rfl, hv', hms⟩ := ih h
      refine ⟨_, (key, t) :: ms, rest, ?_, .member hw hplain hw₁ hw₂ hv hw' hv', ?_⟩
      · rw [hskip]
        simp
      · rw [lastValue, ← hlast]
        exact hms

theorem extractLoop_complete (hread : ReadsValue read val) {v : List UInt8}
    {ms : List (List UInt8 × Written)} (hv : Reads plainTokens v (.members ms))
    (hms : ∀ m ∈ ms, eqIgnoreAsciiCase m.1 wantKey = true → ∃ a, val m.2 = some a) (k : ℕ)
    (hk : v.length ≤ k) (last : Option α) (rest : List UInt8) :
    extractLoop read wantKey k last (v ++ 125 :: rest)
      = orMissing (lastValue val wantKey last ms) := by
  have hkey : ∀ {raw s : List UInt8}, plainTokens.string raw →
      readJsonString (34 :: (raw ++ 34 :: s)) = .ok (raw, s) :=
    fun hraw ↦ (readJsonString_ok_iff _ _ _).mpr ⟨by simp, hraw⟩
  induction ms generalizing v k last with
  | nil => cases hv
  | cons m ms ih =>
    rw [List.forall_mem_cons] at hms
    cases hv with
    | lastMember hw hplain hw₁ hw₂ hv hw' =>
      rename_i w key w₁ w₂ v w' t
      obtain ⟨k, rfl⟩ : ∃ j, k = j + 1 := ⟨k - 1, by simp at hk; omega⟩
      have hvalue := extractValue_complete hread last hw₂ hv
        (plainTokens_lawful.stops_append hw' (stops_cons (c := 125) (by decide) rest)) hms.1
      have hsplit : w ++ 34 :: key ++ 34 :: w₁ ++ 58 :: w₂ ++ v ++ w' ++ 125 :: rest
          = w ++ 34 :: (key ++ 34 :: (w₁ ++ 58 :: (w₂ ++ v ++ (w' ++ 125 :: rest)))) := by simp
      rw [hsplit, extractLoop, skipper_recognises.skip_spaces_cons hw (by decide), hkey hplain]
      simp only [bind, Except.bind, skipper_recognises.colon_complete hw₁, hvalue,
        skipper_recognises.separator_close hw' (show (44 : UInt8) < 125 by decide)]
      rfl
    | member hw hplain hw₁ hw₂ hv hw' hs =>
      rename_i w key w₁ w₂ v w' s t
      obtain ⟨k, rfl⟩ : ∃ j, k = j + 1 := ⟨k - 1, by simp at hk; omega⟩
      have hvalue := extractValue_complete hread last hw₂ hv
        (plainTokens_lawful.stops_append hw'
          (stops_cons (c := 44) (by decide) (s ++ 125 :: rest))) hms.1
      have hloop := ih hs hms.2 k (by simp at hk; omega)
        (if eqIgnoreAsciiCase key wantKey then val t else last)
      have hsplit : w ++ 34 :: key ++ 34 :: w₁ ++ 58 :: w₂ ++ v ++ w' ++ 44 :: s ++ 125 :: rest
          = w ++ 34 :: (key ++ 34 ::
            (w₁ ++ 58 :: (w₂ ++ v ++ (w' ++ 44 :: (s ++ 125 :: rest))))) := by simp
      rw [hsplit, extractLoop, skipper_recognises.skip_spaces_cons hw (by decide), hkey hplain]
      simp only [bind, Except.bind, skipper_recognises.colon_complete hw₁, hvalue,
        skipper_recognises.separator_more hw', if_true]
      exact hloop

end Loop

/-! ### Whole bodies -/

section Bodies

variable {α : Type} {read : List UInt8 → Except JsonError (α × List UInt8)}
  {val : Written → Option α} {wantKey : Str} {body : List UInt8}
  {ms : List (List UInt8 × Written)}

theorem minimal_of_plain {v : List UInt8} {f : Form} (hv : Reads plainTokens v f) :
    Reads minimalTokens v f :=
  hv.transfer (fun _ _ h ↦ h) (hv.all.combine (fun _ h _ ↦ h) (fun _ h _ ↦ h.1) hv.all)

/-- The members of a body that an extractor has read are all its members: the object it stopped at
the end of is the whole body. -/
theorem extractField_sound (hread : ReadsValue read val)
    (hdoc : Document minimalTokens body (.object ms)) {a : α}
    (h : extractField read wantKey body = .ok a) :
    Document plainTokens body (.object ms) ∧ lastValue val wantKey none ms = some a := by
  rw [← plainTokens_lawful.document_trim]
  have htrim : Document minimalTokens (trimAsciiWhitespace body) (.object ms) :=
    (minimalTokens_lawful.document_trim body _).mpr hdoc
  rw [extractField] at h
  split at h
  · rename_i s htrimmed
    obtain ⟨w, hskip, hw⟩ := skipper_recognises.skip_eq s
    split at h
    · cases h
    · obtain ⟨v, ms', rest, hs, hv, hlast⟩ := extractLoop_sound hread _ h
      rw [hs] at hskip
      have hmembers : Reads plainTokens (w ++ v) (.members ms') := Reads.members_space hw hv
      have hminimal := minimal_of_plain hmembers
      have hbody : trimAsciiWhitespace body = 123 :: ((w ++ v) ++ 125 :: rest) := by
        rw [htrimmed, hskip, List.append_assoc]
      have hparse := (JsonParser.recognises.document_ok_iff _ _).mpr htrim
      obtain ⟨⟨t, rest'⟩, hvalue, hend⟩ := bind_eq_ok.mp hparse
      rw [hbody, JsonParser.recognises.value_object,
        JsonParser.recognises.object_complete hminimal (JsonParser.recognises.complete hminimal)
          (by simp; omega)] at hvalue
      cases hvalue
      dsimp only at hend
      split at hend
      · rename_i hrest
        cases hend
        obtain ⟨w', hw', hspaces⟩ := JsonParser.recognises.skip_eq rest
        rw [hrest, List.append_nil] at hw'
        refine ⟨⟨[], 123 :: (w ++ v) ++ [125], rest, ?_, plainTokens.spaces_nil, .object hmembers,
          ?_⟩, hlast⟩
        · change trimAsciiWhitespace body = _
          rw [hbody]
          simp
        · rw [hw']
          exact hspaces
      · cases hend
  · cases h

theorem extractField_complete (hread : ReadsValue read val)
    (hdoc : Document plainTokens body (.object ms))
    (hms : ∀ m ∈ ms, eqIgnoreAsciiCase m.1 wantKey = true → ∃ a, val m.2 = some a) :
    extractField read wantKey body = orMissing (lastValue val wantKey none ms) := by
  obtain ⟨w, v, w', rfl, hw, hv, hw'⟩ := hdoc
  have htrim : trimAsciiWhitespace (w ++ v ++ w') = v := plainTokens_lawful.trim_eq hw hv hw'
  rw [extractField, htrim]
  cases hv with
  | emptyObject hspaces =>
    rename_i u
    rw [List.cons_append]
    simp only [skipper_recognises.skip_spaces_cons hspaces (show (32 : UInt8) < 125 by decide)]
    rfl
  | object hmembers =>
    rename_i u
    obtain ⟨u', tail, htail, hspaces⟩ := Reads.members_head hmembers
    have hloop := extractLoop_complete hread hmembers hms ((u ++ [125]).length + 1)
      (by simp; omega) none []
    have hskip : skipper.skip (u ++ [125]) = 34 :: (tail ++ [125]) := by
      rw [htail, List.append_assoc, List.cons_append,
        skipper_recognises.skip_spaces_cons hspaces (by decide)]
    have hsame : extractLoop read wantKey ((u ++ [125]).length + 1) none (34 :: (tail ++ [125]))
        = extractLoop read wantKey ((u ++ [125]).length + 1) none (u ++ [125]) := by
      rw [← hskip, extractLoop, extractLoop, Scanner.Recognises.skip_skip]
    rw [List.cons_append]
    simp only [hskip]
    exact hsame.trans hloop

/-- Every string of the body, key or value, at any depth, can be read. -/
def PlainBody (body : List UInt8) : Prop :=
  ∀ t, Document minimalTokens body t → t.All (fun _ ↦ True) Plain

/-- In a document of the wider dialect the strings can be read exactly when `skip_json_value` reads
it as well. -/
theorem plainBody_iff (hdoc : Document minimalTokens body (.object ms)) :
    PlainBody body ↔ Document plainTokens body (.object ms) := by
  constructor
  · intro hplain
    have hall : (JsonTree.object ms).All MinimalNumber StringToken := by
      obtain ⟨_, _, _, _, _, hv, _⟩ := hdoc
      exact hv.all
    refine hdoc.transfer (fun _ _ h ↦ h) ?_
    exact hall.combine (fun _ h _ ↦ h) (fun _ h h' ↦ ⟨h, h'⟩) (hplain _ hdoc)
  · intro hdoc' t ht
    obtain rfl := JsonParser.recognises.document_unique ht hdoc
    obtain ⟨_, _, _, _, _, hv, _⟩ := hdoc'
    have hall : (JsonTree.object ms).All MinimalNumber plainTokens.string := hv.all
    exact hall.combine (fun _ _ _ ↦ trivial) (fun _ h _ ↦ h.2) hall

end Bodies

/-! ### The value of a field -/

/-- The field is the wanted one, in any case. -/
def Wanted (wantKey : Str) (key : List Char) : Prop :=
  eqIgnoreAsciiCase (Utf8.encode key) wantKey = true

instance (wantKey : Str) (key : List Char) : Decidable (Wanted wantKey key) :=
  inferInstanceAs (Decidable (_ = true))

/-- The value of the last member whose key is the wanted one. -/
def lastField (wantKey : Str) (members : List (List Char × Value)) : Option Value :=
  (members.reverse.find? fun m ↦ Wanted wantKey m.1).map Prod.snd

/-- The body passes one of the two checks and has this value, read in the wider of the two
dialects. -/
def HasValue (body : List UInt8) (v : Value) : Prop :=
  (validateJsonSyntax body = .ok () ∨ goJsonSyntaxCheck body = .ok ()) ∧
    ∃ t, Document minimalTokens body t ∧ valueOf t = v

/-- The text of a string value, as the bytes of a Rust string. -/
def textOf : Value → Option Str
  | .string text => some (Utf8.encode text)
  | _ => none

/-- Without escapes a string token is the text it stands for. -/
theorem unescapeText_eq_self {text : List Char} (h : '\\' ∉ text) : unescapeText text = text := by
  induction text with
  | nil => rfl
  | cons c text ih =>
    rw [List.mem_cons, not_or] at h
    rw [unescapeText_plain (fun heq ↦ h.1 heq.symm), ih h.2]

theorem encode_unescape {raw : List UInt8} (h : Plain raw) :
    Utf8.encode (unescape raw) = raw := by
  obtain ⟨hbackslash, hutf8⟩ := h
  obtain ⟨text, rfl⟩ := (Utf8.isUtf8_iff raw).mp hutf8
  have htext : '\\' ∉ text := by
    intro hmem
    refine hbackslash (List.mem_flatMap.mpr ⟨'\\', hmem, ?_⟩)
    decide
  rw [unescape, Utf8.decodeLossy_encode, unescapeText_eq_self htext]

theorem mapMembers_eq (ms : List (List UInt8 × Written)) :
    JsonTree.mapMembers numberValue unescape ms = ms.map fun m ↦ (unescape m.1, valueOf m.2) := by
  induction ms with
  | nil => rfl
  | cons m ms ih =>
    rw [JsonTree.mapMembers, ih]
    rfl

theorem allMembers_iff {N S : Type} {P : N → Prop} {Q : S → Prop} (ms : List (S × JsonTree N S)) :
    JsonTree.AllMembers P Q ms ↔ ∀ m ∈ ms, Q m.1 ∧ m.2.All P Q := by
  induction ms with
  | nil => simp [JsonTree.AllMembers]
  | cons m ms ih =>
    rw [List.forall_mem_cons, ← ih, and_assoc]
    rfl

theorem lastValue_eq_find {α : Type} (val : Written → Option α) (wantKey : Str) (last : Option α)
    (ms : List (List UInt8 × Written)) :
    lastValue val wantKey last ms
      = ((ms.reverse.find? fun m ↦ eqIgnoreAsciiCase m.1 wantKey).map
          fun m ↦ val m.2).getD last := by
  induction ms generalizing last with
  | nil => rfl
  | cons m ms ih =>
    obtain ⟨key, t⟩ := m
    rw [lastValue, ih, List.reverse_cons, List.find?_append]
    cases ms.reverse.find? fun m ↦ eqIgnoreAsciiCase m.1 wantKey with
    | some m => rfl
    | none =>
      rw [List.find?_singleton]
      split_ifs <;> rfl

theorem find?_congr {α : Type} {p q : α → Bool} {l : List α} (h : ∀ a ∈ l, p a = q a) :
    l.find? p = l.find? q := by
  induction l with
  | nil => rfl
  | cons a l ih =>
    rw [List.forall_mem_cons] at h
    rw [List.find?_cons, List.find?_cons, h.1, ih h.2]

/-- In plain members the last wanted value is found by the keys as they are written. -/
theorem lastField_of_plain {wantKey : Str} {ms : List (List UInt8 × Written)}
    (hms : ∀ m ∈ ms, Plain m.1) {v : Value}
    (hlast : lastField wantKey (ms.map fun m ↦ (unescape m.1, valueOf m.2)) = some v) :
    ∃ m ∈ ms, ms.reverse.find? (fun m ↦ eqIgnoreAsciiCase m.1 wantKey) = some m ∧
      valueOf m.2 = v := by
  have hcongr : ms.reverse.find? ((fun m ↦ decide (Wanted wantKey m.1)) ∘
      fun m : List UInt8 × Written ↦ (unescape m.1, valueOf m.2))
      = ms.reverse.find? fun m ↦ eqIgnoreAsciiCase m.1 wantKey := by
    refine find?_congr fun m hm ↦ ?_
    simp only [Function.comp_apply, Wanted, Bool.decide_eq_true,
      encode_unescape (hms m (List.mem_reverse.mp hm))]
  rw [lastField, ← List.map_reverse, List.find?_map, hcongr] at hlast
  cases hfind : ms.reverse.find? fun m ↦ eqIgnoreAsciiCase m.1 wantKey with
  | none =>
    rw [hfind] at hlast
    cases hlast
  | some m =>
    rw [hfind] at hlast
    cases hlast
    exact ⟨m, List.mem_reverse.mp (List.mem_of_find?_eq_some hfind), rfl, rfl⟩

/-- The extractors with any reader: they return the value of the last wanted member exactly when
every string of the body can be read. -/
theorem extractField_iff {α : Type} {read : List UInt8 → Except JsonError (α × List UInt8)}
    {val : Written → Option α} {valOf : Value → Option α} (hread : ReadsValue read val)
    (hval : ∀ t, t.All (fun _ ↦ True) Plain → val t = valOf (valueOf t)) {body : List UInt8}
    {wantKey : Str} {members : List (List Char × Value)} (hbody : HasValue body (.object members))
    (hall : ∀ m ∈ members, Wanted wantKey m.1 → ∃ a, valOf m.2 = some a) {v : Value} {a : α}
    (hlast : lastField wantKey members = some v) (ha : valOf v = some a) :
    extractField read wantKey body = .ok a ↔ PlainBody body := by
  obtain ⟨-, t, hdoc, ht⟩ := hbody
  cases t with
  | object ms =>
    have hmembers : members = ms.map fun m ↦ (unescape m.1, valueOf m.2) := by
      rw [← mapMembers_eq]
      cases ht
      rfl
    subst hmembers
    constructor
    · intro h
      exact (plainBody_iff hdoc).mpr (extractField_sound hread hdoc h).1
    · intro hplain
      have hms := (allMembers_iff ms).mp (hplain _ hdoc)
      have hread' : ∀ m ∈ ms, eqIgnoreAsciiCase m.1 wantKey = true → ∃ a, val m.2 = some a := by
        intro m hm hkey
        obtain ⟨a, ha⟩ := hall _ (List.mem_map_of_mem hm)
          (by rw [Wanted, encode_unescape (hms m hm).1]; exact hkey)
        exact ⟨a, (hval _ (hms m hm).2).trans ha⟩
      obtain ⟨m, hm, hfind, rfl⟩ := lastField_of_plain (fun m hm ↦ (hms m hm).1) hlast
      rw [extractField_complete hread ((plainBody_iff hdoc).mp hplain) hread', lastValue_eq_find,
        hfind, Option.map_some, Option.getD_some, hval _ (hms m hm).2, ha]
      rfl
  | null | bool _ | number _ | string _ | array _ => cases ht

theorem stringOf_eq_textOf {t : Written} (ht : t.All (fun _ ↦ True) Plain) :
    stringOf t = textOf (valueOf t) := by
  cases t with
  | string raw => exact congrArg some (encode_unescape ht).symm
  | null | bool _ | number _ | array _ | object _ => rfl

theorem boolOf_eq {t : Written} : boolOf t = boolOf (valueOf t) := by
  cases t <;> rfl

/-- On a body that a checker accepts, with a wanted field that is a string (true, false or null) at
every occurrence, the extractor returns the value of the last one exactly when no string of the
body holds a backslash or bytes that are not UTF-8. -/
theorem extract_iff_plain {body : List UInt8} {wantKey : Str} {members : List (List Char × Value)}
    (hbody : HasValue body (.object members)) :
    (∀ text, (∀ m ∈ members, Wanted wantKey m.1 → ∃ s, m.2 = .string s) →
      lastField wantKey members = some (.string text) →
      (extractJsonStringField body wantKey = .ok (Utf8.encode text) ↔ PlainBody body)) ∧
    ∀ v b, (∀ m ∈ members, Wanted wantKey m.1 → ∃ b, boolOf m.2 = some b) →
      lastField wantKey members = some v → boolOf v = some b →
      (extractJsonBoolField body wantKey = .ok b ↔ PlainBody body) := by
  refine ⟨fun text hall hlast ↦ ?_, fun v b hall hlast hb ↦ ?_⟩
  · refine extractField_iff readJsonString_reads (fun t ht ↦ stringOf_eq_textOf ht) hbody
      (fun m hm hkey ↦ ?_) hlast rfl
    obtain ⟨s, hs⟩ := hall m hm hkey
    exact ⟨Utf8.encode s, by rw [hs]; rfl⟩
  · exact extractField_iff readJsonBool_reads (fun t _ ↦ boolOf_eq) hbody hall hlast hb

example : extractJsonStringField
    (ascii "\x7b \"TO\" : \"a\", \"x\": [1, \x7b\x7d], \"to\":\"b\"\x7d") (ascii "to")
    = .ok (ascii "b") := by decide +kernel

/-- A request to unlock with one more field, whose value holds an escape. -/
def escapedBody : List UInt8 :=
  ascii "\x7b\"to\":\"a\",\"x\":\"\\n\"\x7d"

def escapedMembers : List (List Char × Value) :=
  [(['t', 'o'], .string ['a']), (['x'], .string ['\n'])]

theorem escapedBody_hasValue : HasValue escapedBody (.object escapedMembers) := by
  have hspaces := minimalTokens.spaces_nil
  have hplain : ∀ {raw : List UInt8}, raw.all (fun b ↦ 32 ≤ b ∧ b ≠ 34 ∧ b ≠ 92) = true →
      StringToken raw :=
    fun h ↦ ((stringToken_plain_iff _).mpr (List.all_iff_forall_prop.mp h)).1
  have hx : Reads minimalTokens ([] ++ 34 :: [120] ++ 34 :: [] ++ 58 :: []
      ++ (34 :: [92, 110] ++ [34]) ++ []) (.members [([120], .string [92, 110])]) :=
    .lastMember hspaces (hplain (by decide)) hspaces hspaces
      (.string (.short (by decide) .nil)) hspaces
  have hto : Reads minimalTokens ([] ++ 34 :: [116, 111] ++ 34 :: [] ++ 58 :: []
      ++ (34 :: [97] ++ [34]) ++ [] ++ 44 :: ([] ++ 34 :: [120] ++ 34 :: [] ++ 58 :: []
      ++ (34 :: [92, 110] ++ [34]) ++ []))
      (.members [([116, 111], .string [97]), ([120], .string [92, 110])]) :=
    .member hspaces (hplain (by decide)) hspaces hspaces (.string (hplain (by decide))) hspaces hx
  refine ⟨Or.inl (by decide +kernel), _, ⟨[], _, [], ?_, hspaces, .object hto, hspaces⟩, ?_⟩
  · decide +kernel
  · rfl

theorem escapedBody_iff_plain :
    HasValue escapedBody (.object escapedMembers) ∧
      (extractJsonStringField escapedBody (ascii "to") = .ok (Utf8.encode ['a']) ↔
        PlainBody escapedBody) :=
  ⟨escapedBody_hasValue, (extract_iff_plain escapedBody_hasValue).1 ['a']
    (by simp [escapedMembers]) rfl⟩

/-- The field `to` is there once, as a string, and the handler sees an empty one. -/
theorem escapedBody_fails :
    HasValue escapedBody (.object escapedMembers) ∧
      (∀ m ∈ escapedMembers, Wanted (ascii "to") m.1 → ∃ s, m.2 = .string s) ∧
      lastField (ascii "to") escapedMembers = some (.string ['a']) ∧
      extractJsonStringField escapedBody (ascii "to") ≠ .ok (Utf8.encode ['a']) ∧
      (parseUnlockBody escapedBody).2 = [] := by
  refine ⟨escapedBody_hasValue, ?_, rfl, by decide +kernel, by decide +kernel⟩
  simp [escapedMembers]

end DoorAccess.Control
