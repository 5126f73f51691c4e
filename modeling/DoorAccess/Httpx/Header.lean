import Mathlib.Data.List.AList

/-!
# HTTP headers

The header map that requests and responses share, as `httpx/mod.rs` has it. A key is stored in its
canonical form: every part between hyphens starts with a capital and goes on in small letters.

The case of a letter is a matter of the Unicode tables, of which the model knows the ASCII part:
it works for every `CaseTable`.
-/

set_option autoImplicit false
set_option relaxedAutoImplicit false

namespace DoorAccess.Httpx

/-- A Rust string, as its characters. -/
abbrev Text := List Char

/-- `char::to_uppercase` and `char::to_lowercase`. -/
structure CaseTable where
  toUppercase : Char → Text
  toLowercase : Char → Text
  upper_ascii : ∀ c : Char, c.toNat < 128 → toUppercase c = [c.toUpper]
  lower_ascii : ∀ c : Char, c.toNat < 128 → toLowercase c = [c.toLower]

/-- The table that leaves every other character as it is. -/
def CaseTable.ascii : CaseTable where
  toUppercase c := [c.toUpper]
  toLowercase c := [c.toLower]
  upper_ascii _ _ := rfl
  lower_ascii _ _ := rfl

/-! ### Status codes -/

/-- `status_text`: the empty string for an unknown code. -/
def statusText (code : ℕ) : Text :=
  match code with
  | 200 => "OK".toList
  | 400 => "Bad Request".toList
  | 401 => "Unauthorized".toList
  | 403 => "Forbidden".toList
  | 404 => "Not Found".toList
  | 405 => "Method Not Allowed".toList
  | 408 => "Request Timeout".toList
  | 413 => "Payload Too Large".toList
  | 414 => "URI Too Long".toList
  | 415 => "Unsupported Media Type".toList
  | 417 => "Expectation Failed".toList
  | 426 => "Upgrade Required".toList
  | 431 => "Request Header Fields Too Large".toList
  | 500 => "Internal Server Error".toList
  | 501 => "Not Implemented".toList
  | 502 => "Bad Gateway".toList
  | 503 => "Service Unavailable".toList
  | 504 => "Gateway Timeout".toList
  | _ => []

/-- `HttpProtocolError`. -/
structure HttpProtocolError where
  status : ℕ
  msg : Text
  deriving DecidableEq

/-! ### Keys -/

section Canonical

variable (cases : CaseTable)

/-- One part of a key between hyphens. -/
def canonicalPart : Text → Text
  | [] => []
  | first :: chars => cases.toUppercase first ++ chars.flatMap cases.toLowercase

def canonicalMimeHeaderKey (key : Text) : Text :=
  ['-'].intercalate ((key.splitOn '-').map (canonicalPart cases))

end Canonical

/-! ### The header map -/

/-- `Header`, whose map has its entries in some order that nothing below depends on. -/
structure Header where
  inner : AList fun _ : Text ↦ List Text

namespace Header

def new : Header where
  inner := ∅

variable (cases : CaseTable)

/-- All the values of a key, whichever case it is written in. -/
def values (header : Header) (key : Text) : Option (List Text) :=
  header.inner.lookup (canonicalMimeHeaderKey cases key)

def get (header : Header) (key : Text) : Option Text :=
  (header.values cases key).bind List.head?

def set (header : Header) (key value : Text) : Header where
  inner := header.inner.insert (canonicalMimeHeaderKey cases key) [value]

def add (header : Header) (key value : Text) : Header where
  inner :=
    let ck := canonicalMimeHeaderKey cases key
    header.inner.insert ck ((header.inner.lookup ck).getD [] ++ [value])

def iter (header : Header) : List (Text × List Text) :=
  header.inner.entries.map fun entry ↦ (entry.1, entry.2)

/-! ### What the map holds behind an operation -/

theorem lookup_set (header : Header) (key value ck : Text) :
    (header.set cases key value).inner.lookup ck =
      if ck = canonicalMimeHeaderKey cases key then some [value] else header.inner.lookup ck := by
  rw [set]
  split_ifs with h
  · rw [h]
    exact AList.lookup_insert _
  · exact AList.lookup_insert_ne h

theorem lookup_add (header : Header) (key value ck : Text) :
    (header.add cases key value).inner.lookup ck =
      if ck = canonicalMimeHeaderKey cases key then
        some ((header.inner.lookup ck).getD [] ++ [value])
      else header.inner.lookup ck := by
  rw [add]
  split_ifs with h
  · rw [h]
    exact AList.lookup_insert _
  · exact AList.lookup_insert_ne h

end Header

/-! ### Keys in ASCII -/

theorem mem_intercalate {sep part : Text} {parts : List Text} {c : Char} (hpart : part ∈ parts)
    (hc : c ∈ part) : c ∈ sep.intercalate parts := by
  induction parts with
  | nil => exact absurd hpart List.not_mem_nil
  | cons first parts ih =>
    cases parts with
    | nil => rwa [List.intercalate_singleton, ← List.mem_singleton.mp hpart]
    | cons second parts =>
      rw [List.intercalate_cons_cons, List.mem_append, List.mem_append]
      rcases List.mem_cons.mp hpart with rfl | hpart
      · exact Or.inl (Or.inl hc)
      · exact Or.inr (ih hpart)

/-- What holds of a key holds of its parts. -/
theorem forall_mem_part {P : Char → Prop} {key part : Text} (h : ∀ c ∈ key, P c)
    (hpart : part ∈ key.splitOn '-') : ∀ c ∈ part, P c := by
  intro c hc
  refine h c ?_
  have hjoin : ['-'].intercalate (key.splitOn '-') = key := List.intercalate_splitOn '-'
  rw [← hjoin]
  exact mem_intercalate hpart hc

theorem canonicalPart_ascii (cases : CaseTable) {part : Text} (h : ∀ c ∈ part, c.toNat < 128) :
    canonicalPart cases part = canonicalPart .ascii part := by
  cases part with
  | nil => rfl
  | cons first chars =>
    rw [List.forall_mem_cons] at h
    have hchars : chars.flatMap cases.toLowercase = chars.flatMap CaseTable.ascii.toLowercase :=
      List.flatMap_congr fun c hc ↦ cases.lower_ascii c (h.2 c hc)
    rw [canonicalPart, canonicalPart, cases.upper_ascii first h.1, hchars]
    rfl

/-- The canonical form of an ASCII key does not depend on the table. -/
theorem canonical_ascii (cases : CaseTable) {key : Text} (h : ∀ c ∈ key, c.toNat < 128) :
    canonicalMimeHeaderKey cases key = canonicalMimeHeaderKey .ascii key := by
  rw [canonicalMimeHeaderKey, canonicalMimeHeaderKey, List.map_congr_left fun part hpart ↦
    canonicalPart_ascii cases (forall_mem_part h hpart)]

end DoorAccess.Httpx
