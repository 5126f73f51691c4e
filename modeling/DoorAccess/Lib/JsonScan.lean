import DoorAccess.Lib.Fallible
import DoorAccess.Lib.Json
import Mathlib.Data.List.DropRight

/-!
# Recursive descent over JSON

A recogniser of JSON as programs write it: a function for a value that dispatches on the next byte,
a loop over the members of an object and a loop over the items of an array, which call it again.
What differs between two of them is how they read tokens and what they say when they fail, and this
is what a `Scanner` holds. Here the functions also return the tree that was read.

`document_ok_iff`: a scanner whose tokens are those of a dialect (`Recognises`) accepts exactly the
documents of the dialect and returns their trees. Hence a dialect that has a scanner is unambiguous.
-/

set_option autoImplicit false
set_option relaxedAutoImplicit false

namespace DoorAccess.Json

open Fallible

/-! ### Facts of the grammar -/

/-- The bytes a number can start with. -/
def startsNumber (c : UInt8) : Bool :=
  isDigit c || c == 45

theorem startsNumber_bounds {c : UInt8} (hc : startsNumber c = true) :
    45 ≤ c.toNat ∧ c.toNat ≤ 57 := by
  simp only [startsNumber, isDigit, Bool.or_eq_true, Bool.and_eq_true, decide_eq_true_eq,
    beq_iff_eq, UInt8.le_iff_toNat_le] at hc
  rcases hc with ⟨hlo, hhi⟩ | rfl
  · exact ⟨le_trans (by decide) hlo, hhi⟩
  · decide

/-- The input does not go on with a byte that could continue a number. -/
def Stops : List UInt8 → Prop
  | [] => True
  | c :: _ => startsNumber c = false ∧ c ≠ 46 ∧ c ≠ 43 ∧ c ≠ 101 ∧ c ≠ 69

theorem stops_cons {c : UInt8} (hc : c = 44 ∨ c = 93 ∨ c = 125) (s : List UInt8) :
    Stops (c :: s) := by
  rcases hc with rfl | rfl | rfl <;> exact ⟨by decide, by decide, by decide, by decide, by decide⟩

/-- White space is invisible and a number is not: it starts with a digit or a minus sign. -/
structure Tokens.Lawful (T : Tokens) : Prop where
  space_le : ∀ c, T.space c = true → c ≤ 32
  number_starts : ∀ text, T.number text → ∃ c s, text = c :: s ∧ startsNumber c = true
  number_visible : ∀ text, T.number text → ∀ c ∈ text, 32 < c

section Facts

variable {T : Tokens}

theorem Tokens.Lawful.stops_append (h : T.Lawful) {w s : List UInt8} (hw : T.Spaces w)
    (hs : Stops s) : Stops (w ++ s) := by
  cases w with
  | nil => exact hs
  | cons b w =>
    have hb : b ≤ 32 := h.space_le b (hw b List.mem_cons_self)
    have hb' : b.toNat ≤ 32 := hb
    simp only [Stops, List.cons_append, startsNumber, isDigit, Bool.or_eq_false_iff,
      Bool.and_eq_false_iff, decide_eq_false_iff_not, beq_eq_false_iff_ne, ne_eq, ← UInt8.toNat_inj,
      UInt8.le_iff_toNat_le]
    refine ⟨⟨Or.inl ?_, ?_⟩, ?_, ?_, ?_, ?_⟩ <;> simp <;> omega

/-- The first byte of a value is visible and closes nothing. -/
theorem Tokens.Lawful.value_head (h : T.Lawful) {v : List UInt8} {t : Written}
    (hv : Reads T v (.value t)) : ∃ c s, v = c :: s ∧ 32 < c ∧ c ≠ 93 := by
  cases hv with
  | nullLiteral | trueLiteral | falseLiteral => exact ⟨_, _, rfl, by decide, by decide⟩
  | string _ | emptyArray _ | array _ | emptyObject _ | object _ =>
    exact ⟨_, _, rfl, by decide, by decide⟩
  | number hnum =>
    obtain ⟨c, s, rfl, hc⟩ := h.number_starts _ hnum
    obtain ⟨hlo, hhi⟩ := startsNumber_bounds hc
    refine ⟨c, s, rfl, ?_, ?_⟩
    · exact UInt8.lt_iff_toNat_lt.mpr (lt_of_lt_of_le (by decide) hlo)
    · rintro rfl
      exact absurd hhi (by decide)

theorem Tokens.Lawful.items_head (h : T.Lawful) {v : List UInt8} {ts : List Written}
    (hv : Reads T v (.items ts)) :
    ∃ w c s, v = w ++ c :: s ∧ T.Spaces w ∧ 32 < c ∧ c ≠ 93 := by
  cases hv with
  | lastItem hw hv hw' =>
    obtain ⟨c, s, rfl, hc, hne⟩ := h.value_head hv
    exact ⟨_, c, _, by simp; rfl, hw, hc, hne⟩
  | item hw hv hw' hs =>
    obtain ⟨c, s, rfl, hc, hne⟩ := h.value_head hv
    exact ⟨_, c, _, by simp; rfl, hw, hc, hne⟩

theorem Reads.members_head {v : List UInt8} {ms : List (List UInt8 × Written)}
    (hv : Reads T v (.members ms)) : ∃ w s, v = w ++ 34 :: s ∧ T.Spaces w := by
  cases hv with
  | lastMember hw _ _ _ _ _ => exact ⟨_, _, by simp; rfl, hw⟩
  | member hw _ _ _ _ _ _ => exact ⟨_, _, by simp; rfl, hw⟩

/-- The last byte of a value is visible. -/
theorem Tokens.Lawful.value_last (h : T.Lawful) {v : List UInt8} {t : Written}
    (hv : Reads T v (.value t)) : ∃ s c, v = s ++ [c] ∧ 32 < c := by
  cases hv with
  | nullLiteral => exact ⟨[110, 117, 108], 108, rfl, by decide⟩
  | trueLiteral => exact ⟨[116, 114, 117], 101, rfl, by decide⟩
  | falseLiteral => exact ⟨[102, 97, 108, 115], 101, rfl, by decide⟩
  | string _ | emptyArray _ | array _ | emptyObject _ | object _ => exact ⟨_, _, rfl, by decide⟩
  | number hnum =>
    obtain ⟨c, s, hs, -⟩ := h.number_starts _ hnum
    have hne : v ≠ [] := by
      rw [hs]
      exact List.cons_ne_nil c s
    exact ⟨v.dropLast, v.getLast hne, (List.dropLast_append_getLast hne).symm,
      h.number_visible _ hnum _ (List.getLast_mem hne)⟩

/-- White space in front of items is part of them. -/
theorem Reads.items_space {w v : List UInt8} {ts : List Written} (hw : T.Spaces w)
    (hv : Reads T v (.items ts)) : Reads T (w ++ v) (.items ts) := by
  cases hv with
  | lastItem hw₁ hv hw' =>
    have h := Reads.lastItem (hw.append hw₁) hv hw'
    simpa using h
  | item hw₁ hv hw' hs =>
    have h := Reads.item (hw.append hw₁) hv hw' hs
    simpa using h

/-- White space in front of members is part of them. -/
theorem Reads.members_space {w v : List UInt8} {ms : List (List UInt8 × Written)}
    (hw : T.Spaces w) (hv : Reads T v (.members ms)) : Reads T (w ++ v) (.members ms) := by
  cases hv with
  | lastMember hw₀ hkey hw₁ hw₂ hv hw' =>
    have h := Reads.lastMember (hw.append hw₀) hkey hw₁ hw₂ hv hw'
    simpa using h
  | member hw₀ hkey hw₁ hw₂ hv hw' hs =>
    have h := Reads.member (hw.append hw₀) hkey hw₁ hw₂ hv hw' hs
    simpa using h

theorem Tokens.Lawful.space_eq_false (h : T.Lawful) {c : UInt8} (hc : 32 < c) :
    T.space c = false := by
  rw [← Bool.not_eq_true]
  intro hspace
  exact absurd (h.space_le c hspace) (UInt8.not_le.mpr hc)

theorem dropWhile_spaces {w : List UInt8} (hw : T.Spaces w) (s : List UInt8) :
    (w ++ s).dropWhile T.space = s.dropWhile T.space := by
  rw [List.dropWhile_append, List.dropWhile_eq_nil_iff.mpr hw]
  rfl

theorem trim_split (p : UInt8 → Bool) (s : List UInt8) :
    ∃ w w', s = w ++ (s.dropWhile p).rdropWhile p ++ w' ∧ (∀ b ∈ w, p b = true) ∧
      ∀ b ∈ w', p b = true := by
  refine ⟨s.takeWhile p, (s.dropWhile p).rtakeWhile p, ?_, ?_, ?_⟩
  · rw [List.append_assoc, List.rdropWhile_append_rtakeWhile, List.takeWhile_append_dropWhile]
  · intro b hb
    exact List.mem_takeWhile_imp hb
  · intro b hb
    exact List.mem_rtakeWhile_imp hb

/-- What is left of a document without the white space at both ends. -/
theorem Tokens.Lawful.trim_eq (h : T.Lawful) {w v w' : List UInt8} {t : Written}
    (hw : T.Spaces w) (hv : Reads T v (.value t)) (hw' : T.Spaces w') :
    ((w ++ v ++ w').dropWhile T.space).rdropWhile T.space = v := by
  obtain ⟨c, s, hhead, hc, -⟩ := h.value_head hv
  obtain ⟨s', d, hlast, hd⟩ := h.value_last hv
  have hback : T.Spaces w'.reverse := fun b hb ↦ hw' b (List.mem_reverse.mp hb)
  have hfront : (w ++ v ++ w').dropWhile T.space = v ++ w' := by
    rw [List.append_assoc, dropWhile_spaces hw, hhead, List.cons_append,
      List.dropWhile_cons_of_neg (by simp [h.space_eq_false hc])]
  rw [hfront, List.rdropWhile, List.reverse_append, dropWhile_spaces hback, hlast,
    List.reverse_append, List.reverse_singleton, List.singleton_append,
    List.dropWhile_cons_of_neg (by simp [h.space_eq_false hd])]
  simp

/-- White space at both ends does not count. -/
theorem Tokens.Lawful.document_trim (h : T.Lawful) (s : List UInt8) (t : Written) :
    Document T ((s.dropWhile T.space).rdropWhile T.space) t ↔ Document T s t := by
  constructor
  · rintro ⟨w, v, w', hsplit, hw, hv, hw'⟩
    obtain ⟨u, u', hs, hu, hu'⟩ := trim_split T.space s
    refine ⟨u ++ w, v, w' ++ u', ?_, Tokens.Spaces.append hu hw, hv, ?_⟩
    · rw [hsplit] at hs
      simpa using hs
    · exact Tokens.Spaces.append hw' hu'
  · rintro ⟨w, v, w', rfl, hw, hv, hw'⟩
    rw [h.trim_eq hw hv hw']
    exact ⟨[], v, [], by simp, T.spaces_nil, hv, T.spaces_nil⟩

end Facts

/-! ### The scanner -/

/-- How tokens are read, each from its first byte on except for a string, which is read from behind
its opening quote, and the errors at each place where a byte is looked for: with that byte, or with
`none` at the end of the input. `exhausted` is what the bound on the recursion gives. -/
structure Scanner (E : Type) where
  space : UInt8 → Bool
  string : List UInt8 → Except E (List UInt8 × List UInt8)
  literal : List UInt8 → List UInt8 → Except E (List UInt8)
  number : List UInt8 → Except E (List UInt8 × List UInt8)
  noValue : Option UInt8 → E
  noKey : Option UInt8 → E
  noColon : Option UInt8 → E
  noMemberEnd : Option UInt8 → E
  noItemEnd : Option UInt8 → E
  trailing : UInt8 → E
  exhausted : E

namespace Scanner

variable {E : Type} (sc : Scanner E)

/-- The input behind the white space at its start. -/
def skip (s : List UInt8) : List UInt8 :=
  s.dropWhile sc.space

/-- The colon behind a key. -/
def colon (s : List UInt8) : Except E (List UInt8) :=
  match sc.skip s with
  | [] => .error (sc.noColon none)
  | c :: s => if c = 58 then .ok s else .error (sc.noColon (some c))

/-- What follows an item or a member: a comma (`true`) or the closing byte (`false`). -/
def separator (close : UInt8) (err : Option UInt8 → E) (s : List UInt8) :
    Except E (Bool × List UInt8) :=
  match sc.skip s with
  | [] => .error (err none)
  | c :: s =>
    if c = 44 then .ok (true, s)
    else if c = close then .ok (false, s)
    else .error (err (some c))

/-- The loop over the items of an array, with the function for a value. -/
def items (value : List UInt8 → Except E (Written × List UInt8)) :
    ℕ → List UInt8 → Except E (List Written × List UInt8)
  | 0, _ => .error sc.exhausted
  | k + 1, s => do
    let (t, s) ← value s
    let (more, s) ← sc.separator 93 sc.noItemEnd s
    if more then do
      let (ts, s) ← items value k s
      return (t :: ts, s)
    else return ([t], s)

/-- An array, from behind its opening bracket. -/
def array (value : List UInt8 → Except E (Written × List UInt8)) (s : List UInt8) :
    Except E (Written × List UInt8) :=
  match sc.skip s with
  | 93 :: r => .ok (.array [], r)
  | r => do
    let (ts, r) ← sc.items value (s.length + 1) r
    return (.array ts, r)

/-- The loop over the members of an object. -/
def members (value : List UInt8 → Except E (Written × List UInt8)) :
    ℕ → List UInt8 → Except E (List (List UInt8 × Written) × List UInt8)
  | 0, _ => .error sc.exhausted
  | k + 1, s =>
    match sc.skip s with
    | [] => .error (sc.noKey none)
    | c :: s =>
      if c = 34 then do
        let (key, s) ← sc.string s
        let s ← sc.colon s
        let (t, s) ← value s
        let (more, s) ← sc.separator 125 sc.noMemberEnd s
        if more then do
          let (ms, s) ← members value k s
          return ((key, t) :: ms, s)
        else return ([(key, t)], s)
      else .error (sc.noKey (some c))

/-- An object, from behind its opening brace. -/
def object (value : List UInt8 → Except E (Written × List UInt8)) (s : List UInt8) :
    Except E (Written × List UInt8) :=
  match sc.skip s with
  | 125 :: r => .ok (.object [], r)
  | r => do
    let (ms, r) ← sc.members value (s.length + 1) r
    return (.object ms, r)

/-- A value, within a bound on the depth of nesting. -/
def value : ℕ → List UInt8 → Except E (Written × List UInt8)
  | 0, _ => .error sc.exhausted
  | n + 1, s =>
    match sc.skip s with
    | [] => .error (sc.noValue none)
    | c :: s =>
      if c = 123 then sc.object (value n) s
      else if c = 91 then sc.array (value n) s
      else if c = 34 then do
        let (raw, s) ← sc.string s
        return (.string raw, s)
      else if c = 116 then do
        let s ← sc.literal literalTrue (c :: s)
        return (.bool true, s)
      else if c = 102 then do
        let s ← sc.literal literalFalse (c :: s)
        return (.bool false, s)
      else if c = 110 then do
        let s ← sc.literal literalNull (c :: s)
        return (.null, s)
      else if startsNumber c then do
        let (text, s) ← sc.number (c :: s)
        return (.number text, s)
      else .error (sc.noValue (some c))

/-- A whole text. The bound is never met: every bracket takes a byte. -/
def document (s : List UInt8) : Except E Written := do
  let (t, rest) ← sc.value (s.length + 1) s
  match sc.skip rest with
  | [] => return t
  | c :: _ => .error (sc.trailing c)

end Scanner

/-! ### Scanners and dialects -/

/-- The scanner reads the tokens of the dialect. A number is read to its last byte only if what
follows cannot continue it, which holds for every byte that can follow a number in a document. -/
structure Scanner.Recognises {E : Type} (sc : Scanner E) (T : Tokens) : Prop where
  lawful : T.Lawful
  space : sc.space = T.space
  string : ∀ s raw rest, sc.string s = .ok (raw, rest) ↔ s = raw ++ 34 :: rest ∧ T.string raw
  literal : ∀ c lit s rest, sc.literal (c :: lit) (c :: s) = .ok rest ↔ s = lit ++ rest
  number_sound : ∀ c s text rest, startsNumber c = true →
    sc.number (c :: s) = .ok (text, rest) → c :: s = text ++ rest ∧ T.number text
  number_complete : ∀ text rest, T.number text → Stops rest →
    sc.number (text ++ rest) = .ok (text, rest)

namespace Scanner.Recognises

variable {E : Type} {sc : Scanner E} {T : Tokens}

/-! ### Soundness -/

theorem skip_eq (h : sc.Recognises T) (s : List UInt8) : ∃ w, s = w ++ sc.skip s ∧ T.Spaces w := by
  refine ⟨s.takeWhile sc.space, ?_, ?_⟩
  · rw [skip, List.takeWhile_append_dropWhile]
  · intro b hb
    rw [← h.space]
    exact List.mem_takeWhile_imp hb

theorem colon_sound (h : sc.Recognises T) {s rest : List UInt8} (hs : sc.colon s = .ok rest) :
    ∃ w, s = w ++ 58 :: rest ∧ T.Spaces w := by
  obtain ⟨w, hw, hspaces⟩ := h.skip_eq s
  simp only [colon] at hs
  split at hs
  · cases hs
  · rename_i c tail hskip
    split at hs
    · rename_i hc
      cases hs
      exact ⟨w, by rw [← hc, ← hskip]; exact hw, hspaces⟩
    · cases hs

theorem separator_sound (h : sc.Recognises T) {close : UInt8} {err : Option UInt8 → E}
    {s rest : List UInt8} {more : Bool} (hs : sc.separator close err s = .ok (more, rest)) :
    ∃ w, s = w ++ (if more then 44 else close) :: rest ∧ T.Spaces w := by
  obtain ⟨w, hw, hspaces⟩ := h.skip_eq s
  simp only [separator] at hs
  split at hs
  · cases hs
  · rename_i c tail hskip
    split at hs
    · rename_i hc
      cases hs
      exact ⟨w, by rw [if_pos rfl, ← hc, ← hskip]; exact hw, hspaces⟩
    · split at hs
      · rename_i hc
        cases hs
        exact ⟨w, by rw [if_neg Bool.false_ne_true, ← hc, ← hskip]; exact hw, hspaces⟩
      · cases hs

/-- What `value` returns was read from the start of its input. -/
def Sound (T : Tokens) (value : List UInt8 → Except E (Written × List UInt8)) : Prop :=
  ∀ s t rest, value s = .ok (t, rest) →
    ∃ w v, s = w ++ v ++ rest ∧ T.Spaces w ∧ Reads T v (.value t)

theorem items_sound (h : sc.Recognises T) {value : List UInt8 → Except E (Written × List UInt8)}
    (hvalue : Sound T value) (k : ℕ) {s rest : List UInt8} {ts : List Written}
    (hs : sc.items value k s = .ok (ts, rest)) :
    ∃ v, s = v ++ 93 :: rest ∧ Reads T v (.items ts) := by
  induction k generalizing s ts with
  | zero => cases hs
  | succ k ih =>
    simp only [items, bind_eq_ok, Prod.exists] at hs
    obtain ⟨t, s₁, ht, more, s₂, hmore, hs⟩ := hs
    obtain ⟨w, v, rfl, hw, hv⟩ := hvalue _ _ _ ht
    obtain ⟨w', rfl, hw'⟩ := h.separator_sound hmore
    cases more with
    | false =>
      cases hs
      exact ⟨w ++ v ++ w', by simp, .lastItem hw hv hw'⟩
    | true =>
      simp only [if_true, bind_eq_ok, Prod.exists] at hs
      obtain ⟨ts', s₃, hts, hs⟩ := hs
      cases hs
      obtain ⟨v', rfl, hv'⟩ := ih hts
      exact ⟨w ++ v ++ w' ++ 44 :: v', by simp, .item hw hv hw' hv'⟩

theorem members_sound (h : sc.Recognises T) {value : List UInt8 → Except E (Written × List UInt8)}
    (hvalue : Sound T value) (k : ℕ) {s rest : List UInt8} {ms : List (List UInt8 × Written)}
    (hs : sc.members value k s = .ok (ms, rest)) :
    ∃ v, s = v ++ 125 :: rest ∧ Reads T v (.members ms) := by
  induction k generalizing s ms with
  | zero => cases hs
  | succ k ih =>
    obtain ⟨w, hskip, hw⟩ := h.skip_eq s
    simp only [members] at hs
    split at hs
    · cases hs
    · rename_i c tail hc
      split at hs
      · rename_i hquote
        simp only [bind_eq_ok, Prod.exists] at hs
        obtain ⟨key, s₁, hstring, s₂, hcolon, t, s₃, ht, more, s₄, hmore, hs⟩ := hs
        obtain ⟨rfl, hkey⟩ := (h.string _ _ _).mp hstring
        obtain ⟨w₁, rfl, hw₁⟩ := h.colon_sound hcolon
        obtain ⟨w₂, v, rfl, hw₂, hv⟩ := hvalue _ _ _ ht
        obtain ⟨w', rfl, hw'⟩ := h.separator_sound hmore
        rw [hc, hquote] at hskip
        cases more with
        | false =>
          cases hs
          exact ⟨w ++ 34 :: key ++ 34 :: w₁ ++ 58 :: w₂ ++ v ++ w', by rw [hskip]; simp,
            .lastMember hw hkey hw₁ hw₂ hv hw'⟩
        | true =>
          simp only [if_true, bind_eq_ok, Prod.exists] at hs
          obtain ⟨ms', s₅, hms, hs⟩ := hs
          cases hs
          obtain ⟨v', rfl, hv'⟩ := ih hms
          exact ⟨w ++ 34 :: key ++ 34 :: w₁ ++ 58 :: w₂ ++ v ++ w' ++ 44 :: v', by rw [hskip]; simp,
            .member hw hkey hw₁ hw₂ hv hw' hv'⟩
      · cases hs

theorem array_sound (h : sc.Recognises T) {value : List UInt8 → Except E (Written × List UInt8)}
    (hvalue : Sound T value) {s rest : List UInt8} {t : Written}
    (hs : sc.array value s = .ok (t, rest)) :
    ∃ v, s = v ++ 93 :: rest ∧ Reads T (91 :: v ++ [93]) (.value t) := by
  obtain ⟨w, hskip, hw⟩ := h.skip_eq s
  simp only [array] at hs
  split at hs
  · rename_i tail hc
    cases hs
    exact ⟨w, by rw [← hc]; exact hskip, .emptyArray hw⟩
  · simp only [bind_eq_ok, Prod.exists] at hs
    obtain ⟨ts, s₁, hts, hs⟩ := hs
    cases hs
    obtain ⟨v, hv, hreads⟩ := h.items_sound hvalue _ hts
    exact ⟨w ++ v, by rw [List.append_assoc, ← hv]; exact hskip,
      .array (Reads.items_space hw hreads)⟩

theorem object_sound (h : sc.Recognises T) {value : List UInt8 → Except E (Written × List UInt8)}
    (hvalue : Sound T value) {s rest : List UInt8} {t : Written}
    (hs : sc.object value s = .ok (t, rest)) :
    ∃ v, s = v ++ 125 :: rest ∧ Reads T (123 :: v ++ [125]) (.value t) := by
  obtain ⟨w, hskip, hw⟩ := h.skip_eq s
  simp only [object] at hs
  split at hs
  · rename_i tail hc
    cases hs
    exact ⟨w, by rw [← hc]; exact hskip, .emptyObject hw⟩
  · simp only [bind_eq_ok, Prod.exists] at hs
    obtain ⟨ms, s₁, hms, hs⟩ := hs
    cases hs
    obtain ⟨v, hv, hreads⟩ := h.members_sound hvalue _ hms
    exact ⟨w ++ v, by rw [List.append_assoc, ← hv]; exact hskip,
      .object (Reads.members_space hw hreads)⟩

theorem literal_sound (h : sc.Recognises T) {c : UInt8} {lit s rest : List UInt8} {t t' : Written}
    (hs : (do let s ← sc.literal (c :: lit) (c :: s); return (t, s)) = Except.ok (t', rest)) :
    c :: s = (c :: lit) ++ rest ∧ t = t' := by
  obtain ⟨s₁, hlit, hs⟩ := bind_eq_ok.mp hs
  cases hs
  rw [(h.literal c lit s rest).mp hlit]
  exact ⟨rfl, rfl⟩

theorem value_sound (h : sc.Recognises T) (n : ℕ) : Sound T (sc.value n) := by
  induction n with
  | zero =>
    intro s t rest hs
    cases hs
  | succ n ih =>
    intro s t rest hs
    obtain ⟨w, hskip, hw⟩ := h.skip_eq s
    suffices hv : ∃ v, sc.skip s = v ++ rest ∧ Reads T v (.value t) by
      obtain ⟨v, hv, hreads⟩ := hv
      exact ⟨w, v, by rw [List.append_assoc, ← hv]; exact hskip, hw, hreads⟩
    simp only [value] at hs
    split at hs
    · cases hs
    · rename_i c tail hc
      rw [hc]
      split_ifs at hs with hobject harray hstring htrue hfalse hnull hnumber
      · obtain ⟨v, rfl, hreads⟩ := h.object_sound ih hs
        exact ⟨_, by rw [hobject]; simp, hreads⟩
      · obtain ⟨v, rfl, hreads⟩ := h.array_sound ih hs
        exact ⟨_, by rw [harray]; simp, hreads⟩
      · simp only [bind_eq_ok, Prod.exists] at hs
        obtain ⟨raw, s₁, hread, hs⟩ := hs
        cases hs
        obtain ⟨rfl, hraw⟩ := (h.string _ _ _).mp hread
        exact ⟨_, by rw [hstring]; simp, .string hraw⟩
      · subst htrue
        obtain ⟨heq, rfl⟩ := h.literal_sound hs
        exact ⟨literalTrue, heq, .trueLiteral⟩
      · subst hfalse
        obtain ⟨heq, rfl⟩ := h.literal_sound hs
        exact ⟨literalFalse, heq, .falseLiteral⟩
      · subst hnull
        obtain ⟨heq, rfl⟩ := h.literal_sound hs
        exact ⟨literalNull, heq, .nullLiteral⟩
      · simp only [bind_eq_ok, Prod.exists] at hs
        obtain ⟨text, s₁, htext, hs⟩ := hs
        cases hs
        obtain ⟨heq, hnum⟩ := h.number_sound _ _ _ _ hnumber htext
        exact ⟨text, heq, .number hnum⟩

/-! ### Completeness -/

theorem skip_spaces (h : sc.Recognises T) {w : List UInt8} (hw : T.Spaces w) (s : List UInt8) :
    sc.skip (w ++ s) = sc.skip s := by
  induction w with
  | nil => rfl
  | cons b w ih =>
    have hb : sc.space b = true := by
      rw [h.space]
      exact hw b List.mem_cons_self
    rw [List.cons_append, skip, List.dropWhile_cons_of_pos hb]
    exact ih fun c hc ↦ hw c (List.mem_cons_of_mem b hc)

theorem skip_cons (h : sc.Recognises T) {c : UInt8} (hc : 32 < c) (s : List UInt8) :
    sc.skip (c :: s) = c :: s := by
  have hspace : ¬sc.space c = true := by
    intro hspace
    rw [h.space] at hspace
    exact absurd (h.lawful.space_le c hspace) (UInt8.not_le.mpr hc)
  rw [skip, List.dropWhile_cons_of_neg hspace]

theorem skip_spaces_cons (h : sc.Recognises T) {w : List UInt8} (hw : T.Spaces w) {c : UInt8}
    (hc : 32 < c) (s : List UInt8) : sc.skip (w ++ c :: s) = c :: s := by
  rw [h.skip_spaces hw, h.skip_cons hc]

theorem skip_skip (s : List UInt8) : sc.skip (sc.skip s) = sc.skip s := by
  simp only [skip]
  exact List.dropWhile_idempotent _ _

theorem value_skip (n : ℕ) (s : List UInt8) : sc.value n (sc.skip s) = sc.value n s := by
  cases n with
  | zero => rfl
  | succ n => rw [value, value, skip_skip]

theorem items_skip (n k : ℕ) (s : List UInt8) :
    sc.items (sc.value n) k (sc.skip s) = sc.items (sc.value n) k s := by
  cases k with
  | zero => rfl
  | succ k => rw [items, items, value_skip]

theorem members_skip (n k : ℕ) (s : List UInt8) :
    sc.members (sc.value n) k (sc.skip s) = sc.members (sc.value n) k s := by
  cases k with
  | zero => rfl
  | succ k => rw [members, members, skip_skip]

theorem colon_complete (h : sc.Recognises T) {w : List UInt8} (hw : T.Spaces w) (s : List UInt8) :
    sc.colon (w ++ 58 :: s) = .ok s := by
  rw [colon, h.skip_spaces_cons hw (by decide)]
  rfl

theorem separator_more (h : sc.Recognises T) {w : List UInt8} (hw : T.Spaces w) (close : UInt8)
    (err : Option UInt8 → E) (s : List UInt8) :
    sc.separator close err (w ++ 44 :: s) = .ok (true, s) := by
  rw [separator, h.skip_spaces_cons hw (by decide)]
  rfl

theorem separator_close (h : sc.Recognises T) {w : List UInt8} (hw : T.Spaces w) {close : UInt8}
    (hclose : 44 < close) (err : Option UInt8 → E) (s : List UInt8) :
    sc.separator close err (w ++ close :: s) = .ok (false, s) := by
  have hspace : (32 : UInt8) < close := UInt8.lt_trans (by decide) hclose
  have hcomma : close ≠ 44 := (UInt8.ne_of_lt hclose).symm
  rw [separator, h.skip_spaces_cons hw hspace]
  simp only [hcomma, if_false, if_true]

/-- What completeness says of each kind of stretch: with enough room for its bytes, the function
for it reads exactly these bytes off any input that goes on behind them. -/
def Complete (sc : Scanner E) (T : Tokens) (v : List UInt8) : Form → Prop
  | .value t => ∀ n w rest, v.length ≤ n → T.Spaces w → Stops rest →
      sc.value n (w ++ v ++ rest) = .ok (t, rest)
  | .items ts => ∀ n k rest, v.length ≤ n → v.length ≤ k →
      sc.items (sc.value n) k (v ++ 93 :: rest) = .ok (ts, rest)
  | .members ms => ∀ n k rest, v.length ≤ n → v.length ≤ k →
      sc.members (sc.value n) k (v ++ 125 :: rest) = .ok (ms, rest)

theorem value_array (h : sc.Recognises T) (n : ℕ) (s : List UInt8) :
    sc.value (n + 1) (91 :: s) = sc.array (sc.value n) s := by
  rw [value, h.skip_cons (by decide)]
  rfl

theorem value_object (h : sc.Recognises T) (n : ℕ) (s : List UInt8) :
    sc.value (n + 1) (123 :: s) = sc.object (sc.value n) s := by
  rw [value, h.skip_cons (by decide)]
  rfl

theorem array_complete (h : sc.Recognises T) {n : ℕ} {s : List UInt8} {ts : List Written}
    (hs : Reads T s (.items ts)) (ih : Complete sc T s (.items ts)) (hn : s.length ≤ n)
    (rest : List UInt8) : sc.array (sc.value n) (s ++ 93 :: rest) = .ok (.array ts, rest) := by
  obtain ⟨w, c, tail, hsplit, hw, hc, hne⟩ := h.lawful.items_head hs
  have hskip : sc.skip (s ++ 93 :: rest) = c :: (tail ++ 93 :: rest) := by
    rw [hsplit, List.append_assoc, List.cons_append, h.skip_spaces_cons hw hc]
  have hitems := ih n ((s ++ 93 :: rest).length + 1) rest hn (by simp; omega)
  rw [← items_skip, hskip] at hitems
  rw [array, hskip]
  split
  · rename_i heq
    cases heq
    exact absurd rfl hne
  · rw [hitems]
    rfl

theorem object_complete (h : sc.Recognises T) {n : ℕ} {s : List UInt8}
    {ms : List (List UInt8 × Written)} (hs : Reads T s (.members ms))
    (ih : Complete sc T s (.members ms)) (hn : s.length ≤ n) (rest : List UInt8) :
    sc.object (sc.value n) (s ++ 125 :: rest) = .ok (.object ms, rest) := by
  obtain ⟨w, tail, hsplit, hw⟩ := Reads.members_head hs
  have hskip : sc.skip (s ++ 125 :: rest) = 34 :: (tail ++ 125 :: rest) := by
    rw [hsplit, List.append_assoc, List.cons_append, h.skip_spaces_cons hw (by decide)]
  have hmembers := ih n ((s ++ 125 :: rest).length + 1) rest hn (by simp; omega)
  rw [← members_skip, hskip] at hmembers
  rw [object, hskip]
  split
  · rename_i heq
    cases heq
  · rw [hmembers]
    rfl

theorem number_value (h : sc.Recognises T) {v rest : List UInt8} (hv : T.number v)
    (hrest : Stops rest) (n : ℕ) : sc.value (n + 1) (v ++ rest) = .ok (.number v, rest) := by
  have hnumber := h.number_complete v rest hv hrest
  obtain ⟨c, s, rfl, hc⟩ := h.lawful.number_starts v hv
  obtain ⟨hlo, hhi⟩ := startsNumber_bounds hc
  have hne : ∀ d : UInt8, 57 < d.toNat ∨ d.toNat < 45 → c ≠ d := by
    rintro d hd rfl
    omega
  have hvisible : 32 < c := UInt8.lt_iff_toNat_lt.mpr (lt_of_lt_of_le (by decide) hlo)
  rw [List.cons_append] at hnumber ⊢
  rw [value, h.skip_cons hvisible]
  simp only [hne 123 (by decide), hne 91 (by decide), hne 34 (by decide), hne 116 (by decide),
    hne 102 (by decide), hne 110 (by decide), if_false, hc, if_true, hnumber]
  rfl

/-- A value may be read without the white space in front of it. -/
theorem complete_of_cons (h : sc.Recognises T) {c : UInt8} {s : List UInt8} {t : Written}
    (hc : 32 < c)
    (hval : ∀ n rest, s.length ≤ n → Stops rest →
      sc.value (n + 1) (c :: (s ++ rest)) = .ok (t, rest)) :
    Complete sc T (c :: s) (.value t) := by
  intro n w rest hn hw hrest
  obtain ⟨m, rfl⟩ : ∃ m, n = m + 1 := ⟨n - 1, by simp at hn; omega⟩
  rw [List.append_assoc, List.cons_append, ← value_skip, h.skip_spaces_cons hw hc]
  exact hval m rest (by simpa using hn) hrest

/-- Everything the grammar derives is read. -/
theorem complete (h : sc.Recognises T) {v : List UInt8} {f : Form} (hv : Reads T v f) :
    Complete sc T v f := by
  -- A value of length `n` is read with room `n`: its own bracket pays for one more level.
  induction hv with
  | nullLiteral =>
    refine h.complete_of_cons (by decide) fun n rest _ _ ↦ ?_
    rw [value, h.skip_cons (by decide)]
    exact bind_eq_ok.mpr ⟨rest, (h.literal _ _ _ _).mpr rfl, rfl⟩
  | trueLiteral =>
    refine h.complete_of_cons (by decide) fun n rest _ _ ↦ ?_
    rw [value, h.skip_cons (by decide)]
    exact bind_eq_ok.mpr ⟨rest, (h.literal _ _ _ _).mpr rfl, rfl⟩
  | falseLiteral =>
    refine h.complete_of_cons (by decide) fun n rest _ _ ↦ ?_
    rw [value, h.skip_cons (by decide)]
    exact bind_eq_ok.mpr ⟨rest, (h.literal _ _ _ _).mpr rfl, rfl⟩
  | number hnum =>
    obtain ⟨c, s, rfl, hc⟩ := h.lawful.number_starts _ hnum
    have hvisible : 32 < c :=
      UInt8.lt_iff_toNat_lt.mpr (lt_of_lt_of_le (by decide) (startsNumber_bounds hc).1)
    exact h.complete_of_cons hvisible fun n rest _ hrest ↦ h.number_value hnum hrest n
  | string hraw =>
    rw [List.cons_append]
    refine h.complete_of_cons (by decide) fun n rest _ _ ↦ ?_
    rw [value, h.skip_cons (by decide)]
    exact bind_eq_ok.mpr ⟨(_, rest), (h.string _ _ _).mpr ⟨by simp, hraw⟩, rfl⟩
  | emptyArray hw =>
    rw [List.cons_append]
    refine h.complete_of_cons (by decide) fun n rest _ _ ↦ ?_
    rw [h.value_array, array, List.append_assoc, List.singleton_append,
      h.skip_spaces_cons hw (by decide)]
    rfl
  | array hs ih =>
    rw [List.cons_append]
    refine h.complete_of_cons (by decide) fun n rest hn _ ↦ ?_
    rw [h.value_array, List.append_assoc]
    exact h.array_complete hs ih (by simp at hn; omega) rest
  | emptyObject hw =>
    rw [List.cons_append]
    refine h.complete_of_cons (by decide) fun n rest _ _ ↦ ?_
    rw [h.value_object, object, List.append_assoc, List.singleton_append,
      h.skip_spaces_cons hw (by decide)]
    rfl
  | object hs ih =>
    rw [List.cons_append]
    refine h.complete_of_cons (by decide) fun n rest hn _ ↦ ?_
    rw [h.value_object, List.append_assoc]
    exact h.object_complete hs ih (by simp at hn; omega) rest
  | lastItem hw hv hw' ih =>
    rename_i w v w' t
    intro n k rest hn hk
    obtain ⟨c, s, rfl, -, -⟩ := h.lawful.value_head hv
    obtain ⟨k, rfl⟩ : ∃ m, k = m + 1 := ⟨k - 1, by simp at hk; omega⟩
    have hvalue := ih n w (w' ++ 93 :: rest) (by simp at hn ⊢; omega) hw
      (h.lawful.stops_append hw' (stops_cons (by decide) _))
    rw [List.append_assoc _ w']
    exact bind_eq_ok.mpr ⟨_, hvalue,
      bind_eq_ok.mpr ⟨_, h.separator_close hw' (by decide) _ rest, rfl⟩⟩
  | item hw hv hw' hs ih ihs =>
    rename_i w v w' s' t ts
    intro n k rest hn hk
    obtain ⟨c, s, rfl, -, -⟩ := h.lawful.value_head hv
    obtain ⟨k, rfl⟩ : ∃ m, k = m + 1 := ⟨k - 1, by simp at hk; omega⟩
    have hvalue := ih n w (w' ++ 44 :: (s' ++ 93 :: rest)) (by simp at hn ⊢; omega) hw
      (h.lawful.stops_append hw' (stops_cons (by decide) _))
    have hitems := ihs n k rest (by simp at hn; omega) (by simp at hk; omega)
    rw [List.append_assoc, List.cons_append, List.append_assoc _ w']
    exact bind_eq_ok.mpr ⟨_, hvalue, bind_eq_ok.mpr ⟨_, h.separator_more hw' _ _ _,
      bind_eq_ok.mpr ⟨_, hitems, rfl⟩⟩⟩
  | lastMember hw hkey hw₁ hw₂ hv hw' ih =>
    rename_i w key w₁ w₂ v w' t
    intro n k rest hn hk
    obtain ⟨k, rfl⟩ : ∃ m, k = m + 1 := ⟨k - 1, by simp at hk; omega⟩
    have hvalue := ih n w₂ (w' ++ 125 :: rest) (by simp at hn ⊢; omega) hw₂
      (h.lawful.stops_append hw' (stops_cons (by decide) _))
    have hsplit : w ++ 34 :: key ++ 34 :: w₁ ++ 58 :: w₂ ++ v ++ w' ++ 125 :: rest
        = w ++ 34 :: (key ++ 34 :: (w₁ ++ 58 :: (w₂ ++ v ++ (w' ++ 125 :: rest)))) := by simp
    rw [hsplit, members, h.skip_spaces_cons hw (by decide)]
    exact bind_eq_ok.mpr ⟨_, (h.string _ _ _).mpr ⟨rfl, hkey⟩,
      bind_eq_ok.mpr ⟨_, h.colon_complete hw₁ _, bind_eq_ok.mpr ⟨_, hvalue,
        bind_eq_ok.mpr ⟨_, h.separator_close hw' (by decide) _ rest, rfl⟩⟩⟩⟩
  | member hw hkey hw₁ hw₂ hv hw' hs ih ihs =>
    rename_i w key w₁ w₂ v w' s' t ms
    intro n k rest hn hk
    obtain ⟨k, rfl⟩ : ∃ m, k = m + 1 := ⟨k - 1, by simp at hk; omega⟩
    have hvalue := ih n w₂ (w' ++ 44 :: (s' ++ 125 :: rest)) (by simp at hn ⊢; omega) hw₂
      (h.lawful.stops_append hw' (stops_cons (by decide) _))
    have hmembers := ihs n k rest (by simp at hn; omega) (by simp at hk; omega)
    have hsplit : w ++ 34 :: key ++ 34 :: w₁ ++ 58 :: w₂ ++ v ++ w' ++ 44 :: s' ++ 125 :: rest
        = w ++ 34 :: (key ++ 34 ::
          (w₁ ++ 58 :: (w₂ ++ v ++ (w' ++ 44 :: (s' ++ 125 :: rest))))) := by
      simp
    rw [hsplit, members, h.skip_spaces_cons hw (by decide)]
    exact bind_eq_ok.mpr ⟨_, (h.string _ _ _).mpr ⟨rfl, hkey⟩,
      bind_eq_ok.mpr ⟨_, h.colon_complete hw₁ _, bind_eq_ok.mpr ⟨_, hvalue,
        bind_eq_ok.mpr ⟨_, h.separator_more hw' _ _ _, bind_eq_ok.mpr ⟨_, hmembers, rfl⟩⟩⟩⟩⟩

/-! ### Whole texts -/

theorem skip_of_spaces (h : sc.Recognises T) {w : List UInt8} (hw : T.Spaces w) :
    sc.skip w = [] := by
  have hskip := h.skip_spaces hw []
  rwa [List.append_nil] at hskip

theorem document_ok_iff (h : sc.Recognises T) (s : List UInt8) (t : Written) :
    sc.document s = .ok t ↔ Document T s t := by
  constructor
  · intro hs
    simp only [document, bind_eq_ok, Prod.exists] at hs
    obtain ⟨t', rest, hvalue, hs⟩ := hs
    obtain ⟨w, v, hsplit, hw, hv⟩ := h.value_sound _ _ _ _ hvalue
    obtain ⟨w', hrest, hw'⟩ := h.skip_eq rest
    split at hs
    · rename_i hskip
      cases hs
      rw [hskip, List.append_nil] at hrest
      exact ⟨w, v, w', by rw [hsplit, hrest], hw, hv, hw'⟩
    · cases hs
  · rintro ⟨w, v, w', rfl, hw, hv, hw'⟩
    have hvalue := h.complete hv ((w ++ v ++ w').length + 1) w w' (by simp; omega) hw
      (by simpa using h.lawful.stops_append (s := []) hw' trivial)
    refine bind_eq_ok.mpr ⟨_, hvalue, ?_⟩
    simp only [h.skip_of_spaces hw']
    rfl

/-- A text of a dialect has one tree. -/
theorem document_unique (h : sc.Recognises T) {s : List UInt8} {t t' : Written}
    (ht : Document T s t) (ht' : Document T s t') : t = t' := by
  rw [← h.document_ok_iff] at ht ht'
  exact Except.ok.inj (ht.symm.trans ht')

end Scanner.Recognises

/-! ### The bound on the recursion -/

/-- No token and no missing byte is reported the way the bound is. -/
structure Scanner.Reports {E : Type} (sc : Scanner E) : Prop where
  string : ∀ s, sc.string s ≠ .error sc.exhausted
  literal : ∀ lit s, sc.literal lit s ≠ .error sc.exhausted
  number : ∀ s, sc.number s ≠ .error sc.exhausted
  noValue : ∀ c, sc.noValue c ≠ sc.exhausted
  noKey : ∀ c, sc.noKey c ≠ sc.exhausted
  noColon : ∀ c, sc.noColon c ≠ sc.exhausted
  noMemberEnd : ∀ c, sc.noMemberEnd c ≠ sc.exhausted
  noItemEnd : ∀ c, sc.noItemEnd c ≠ sc.exhausted
  trailing : ∀ c, sc.trailing c ≠ sc.exhausted

section Lengths

variable {E : Type} {sc : Scanner E} {T : Tokens} {s rest : List UInt8}

theorem Scanner.Recognises.length_lt_of_skip (h : sc.Recognises T) {c : UInt8}
    (hskip : sc.skip s = c :: rest) : rest.length < s.length := by
  obtain ⟨w, hs, -⟩ := h.skip_eq s
  have hlen := congrArg List.length hs
  rw [hskip, List.length_append, List.length_cons] at hlen
  omega

theorem Scanner.Recognises.length_lt_of_colon (h : sc.Recognises T)
    (hs : sc.colon s = .ok rest) : rest.length < s.length := by
  obtain ⟨w, rfl, -⟩ := h.colon_sound hs
  rw [List.length_append, List.length_cons]
  omega

theorem Scanner.Recognises.length_lt_of_separator (h : sc.Recognises T) {close : UInt8}
    {err : Option UInt8 → E} {more : Bool} (hs : sc.separator close err s = .ok (more, rest)) :
    rest.length < s.length := by
  obtain ⟨w, rfl, -⟩ := h.separator_sound hs
  rw [List.length_append, List.length_cons]
  omega

end Lengths

namespace Scanner.Reports

variable {E : Type} {sc : Scanner E} {T : Tokens}

theorem colon_ne (hr : sc.Reports) (s : List UInt8) : sc.colon s ≠ .error sc.exhausted := by
  simp only [colon]
  split
  · exact fun h ↦ hr.noColon _ (Except.error.inj h)
  · split_ifs
    · exact ok_ne_error
    · exact fun h ↦ hr.noColon _ (Except.error.inj h)

theorem separator_ne {close : UInt8} {err : Option UInt8 → E} (herr : ∀ c, err c ≠ sc.exhausted)
    (s : List UInt8) : sc.separator close err s ≠ .error sc.exhausted := by
  simp only [separator]
  split
  · exact fun h ↦ herr _ (Except.error.inj h)
  · split_ifs
    · exact ok_ne_error
    · exact ok_ne_error
    · exact fun h ↦ herr _ (Except.error.inj h)

theorem items_ne (hr : sc.Reports) (h : sc.Recognises T)
    {value : List UInt8 → Except E (Written × List UInt8)} (hvalue : Recognises.Sound T value)
    (k : ℕ) (s : List UInt8) (hk : s.length < k)
    (hne : ∀ s', s'.length ≤ s.length → value s' ≠ .error sc.exhausted) :
    sc.items value k s ≠ .error sc.exhausted := by
  induction k generalizing s with
  | zero => omega
  | succ k ih =>
    refine bind_ne_error (hne s le_rfl) fun a ha ↦ ?_
    obtain ⟨t, s₁⟩ := a
    obtain ⟨w, v, hs, -, -⟩ := hvalue _ _ _ ha
    have hlen : s₁.length ≤ s.length := by rw [hs]; simp; omega
    refine bind_ne_error (separator_ne hr.noItemEnd s₁) fun b hb ↦ ?_
    obtain ⟨more, s₂⟩ := b
    have hlen' : s₂.length < s₁.length := h.length_lt_of_separator hb
    cases more with
    | false => exact ok_ne_error
    | true =>
      refine bind_ne_error (ih s₂ (by omega) fun s' hs' ↦ hne s' (by omega)) fun ⟨_, _⟩ _ ↦ ?_
      exact ok_ne_error

theorem members_ne (hr : sc.Reports) (h : sc.Recognises T)
    {value : List UInt8 → Except E (Written × List UInt8)} (hvalue : Recognises.Sound T value)
    (k : ℕ) (s : List UInt8) (hk : s.length < k)
    (hne : ∀ s', s'.length ≤ s.length → value s' ≠ .error sc.exhausted) :
    sc.members value k s ≠ .error sc.exhausted := by
  induction k generalizing s with
  | zero => omega
  | succ k ih =>
    simp only [members]
    split
    · exact fun h ↦ hr.noKey _ (Except.error.inj h)
    · rename_i c tail hc
      have hlen : tail.length < s.length := h.length_lt_of_skip hc
      split_ifs
      · refine bind_ne_error (hr.string tail) fun a ha ↦ ?_
        obtain ⟨key, s₁⟩ := a
        obtain ⟨hs₁, -⟩ := (h.string _ _ _).mp ha
        have hlen₁ : s₁.length < tail.length := by rw [hs₁]; simp; omega
        refine bind_ne_error (hr.colon_ne s₁) fun s₂ hb ↦ ?_
        have hlen₂ : s₂.length < s₁.length := h.length_lt_of_colon hb
        refine bind_ne_error (hne s₂ (by omega)) fun b hb ↦ ?_
        obtain ⟨t, s₃⟩ := b
        obtain ⟨w₂, v, hs₃, -, -⟩ := hvalue _ _ _ hb
        have hlen₃ : s₃.length ≤ s₂.length := by rw [hs₃]; simp; omega
        refine bind_ne_error (separator_ne hr.noMemberEnd s₃) fun b hb ↦ ?_
        obtain ⟨more, s₄⟩ := b
        have hlen₄ : s₄.length < s₃.length := h.length_lt_of_separator hb
        cases more with
        | false => exact ok_ne_error
        | true =>
          refine bind_ne_error (ih s₄ (by omega) fun s' hs' ↦ hne s' (by omega)) fun ⟨_, _⟩ _ ↦ ?_
          exact ok_ne_error
      · exact fun h ↦ hr.noKey _ (Except.error.inj h)

theorem value_ne (hr : sc.Reports) (h : sc.Recognises T) (n : ℕ) (s : List UInt8)
    (hn : s.length < n) : sc.value n s ≠ .error sc.exhausted := by
  induction n generalizing s with
  | zero => omega
  | succ n ih =>
    have hread := h.value_sound n
    simp only [value]
    split
    · exact fun h ↦ hr.noValue _ (Except.error.inj h)
    · rename_i c tail hc
      have hlen : tail.length < s.length := h.length_lt_of_skip hc
      have hskip_le : (sc.skip tail).length ≤ tail.length := List.length_dropWhile_le _ _
      split_ifs
      · simp only [object]
        split
        · exact ok_ne_error
        · refine bind_ne_error ?_ fun ⟨_, _⟩ _ ↦ ok_ne_error
          exact hr.members_ne h hread _ _ (by omega) fun s' hs' ↦ ih s' (by omega)
      · simp only [array]
        split
        · exact ok_ne_error
        · refine bind_ne_error ?_ fun ⟨_, _⟩ _ ↦ ok_ne_error
          exact hr.items_ne h hread _ _ (by omega) fun s' hs' ↦ ih s' (by omega)
      · exact bind_ne_error (hr.string _) fun ⟨_, _⟩ _ ↦ ok_ne_error
      · exact bind_ne_error (hr.literal _ _) fun _ _ ↦ ok_ne_error
      · exact bind_ne_error (hr.literal _ _) fun _ _ ↦ ok_ne_error
      · exact bind_ne_error (hr.literal _ _) fun _ _ ↦ ok_ne_error
      · exact bind_ne_error (hr.number _) fun ⟨_, _⟩ _ ↦ ok_ne_error
      · exact fun h ↦ hr.noValue _ (Except.error.inj h)

/-- The bound is never met. -/
theorem document_ne (hr : sc.Reports) (h : sc.Recognises T) (s : List UInt8) :
    sc.document s ≠ .error sc.exhausted := by
  refine bind_ne_error (hr.value_ne h _ s (by omega)) fun ⟨_, _⟩ _ ↦ ?_
  dsimp only
  split
  · exact ok_ne_error
  · exact fun h ↦ hr.trailing _ (Except.error.inj h)

end Scanner.Reports

/-! ### String tokens -/

/-- The errors of a scan over a string: at the end of the input, inside an escape at the end of the
input, and at a byte that does not belong. -/
structure StringErrors (E : Type) where
  unterminated : E
  noEscape : E
  noHex : E
  badHex : UInt8 → E
  badEscape : UInt8 → E
  control : UInt8 → E

/-- Puts bytes that were read in front of what a scan reads. -/
def push {E : Type} (read : List UInt8) (r : Except E (List UInt8 × List UInt8)) :
    Except E (List UInt8 × List UInt8) :=
  r.map fun (raw, rest) ↦ (read ++ raw, rest)

theorem push_eq_ok {E : Type} {read raw rest : List UInt8}
    {r : Except E (List UInt8 × List UInt8)} :
    push read r = .ok (raw, rest) ↔ ∃ raw', r = .ok (raw', rest) ∧ raw = read ++ raw' := by
  cases r with
  | error e => simp [push, Except.map]
  | ok x =>
    obtain ⟨raw', rest'⟩ := x
    simp only [push, Except.map, Except.ok.injEq, Prod.mk.injEq]
    constructor
    · rintro ⟨h, rfl⟩
      exact ⟨raw', ⟨rfl, rfl⟩, h.symm⟩
    · rintro ⟨raw'', ⟨rfl, rfl⟩, h⟩
      exact ⟨h.symm, rfl⟩

/-- The scan of a string from behind its opening quote. The number counts the hexadecimal digits
that an escape still has to have. -/
def scanString {E : Type} (e : StringErrors E) (k : ℕ) (s : List UInt8) :
    Except E (List UInt8 × List UInt8) :=
  match s, k with
  | [], 0 => .error e.unterminated
  | [], _ + 1 => .error e.noHex
  | c :: s, k + 1 =>
    if isHexDigit c then push [c] (scanString e k s) else .error (e.badHex c)
  | c :: s, 0 =>
    if c = 34 then .ok ([], s)
    else if c = 92 then
      match s with
      | [] => .error e.noEscape
      | d :: s =>
        if isShortEscape d then push [92, d] (scanString e 0 s)
        else if d = 117 then push [92, 117] (scanString e 4 s)
        else .error (e.badEscape d)
    else if c < 32 then .error (e.control c)
    else push [c] (scanString e 0 s)
termination_by structural s

/-- The rest of a string token inside an escape that needs `k` more digits. -/
def StringRest (k : ℕ) (raw : List UInt8) : Prop :=
  ∃ hex raw', raw = hex ++ raw' ∧ hex.length = k ∧ hex.all isHexDigit = true ∧ StringToken raw'

theorem stringRest_zero {raw : List UInt8} : StringRest 0 raw ↔ StringToken raw := by
  constructor
  · rintro ⟨hex, raw', rfl, hlen, -, hraw⟩
    rw [List.length_eq_zero_iff.mp hlen]
    exact hraw
  · intro hraw
    exact ⟨[], raw, rfl, rfl, rfl, hraw⟩

theorem stringRest_succ {k : ℕ} {raw : List UInt8} :
    StringRest (k + 1) raw ↔
      ∃ c raw', raw = c :: raw' ∧ isHexDigit c = true ∧ StringRest k raw' := by
  constructor
  · rintro ⟨hex, raw', rfl, hlen, hhex, hraw⟩
    obtain ⟨c, hex, rfl⟩ := List.exists_of_length_succ hex hlen
    simp only [List.all_cons, Bool.and_eq_true] at hhex
    exact ⟨c, hex ++ raw', rfl, hhex.1, hex, raw', rfl, by simpa using hlen, hhex.2, hraw⟩
  · rintro ⟨c, -, rfl, hc, hex, raw', rfl, hlen, hhex, hraw⟩
    exact ⟨c :: hex, raw', rfl, by simp [hlen], by simp [hc, hhex], hraw⟩

theorem stringToken_unicode {raw : List UInt8} (h : StringRest 4 raw) :
    StringToken (92 :: 117 :: raw) := by
  simp only [stringRest_succ, stringRest_zero] at h
  obtain ⟨a, -, rfl, ha, b, -, rfl, hb, c, -, rfl, hc, d, raw', rfl, hd, hraw⟩ := h
  exact .unicode ha hb hc hd hraw

/-- The scan reads a string token up to the quote behind it. -/
theorem scanString_sound {E : Type} (e : StringErrors E) (k : ℕ) (s : List UInt8)
    {raw rest : List UInt8} (h : scanString e k s = .ok (raw, rest)) :
    s = raw ++ 34 :: rest ∧ StringRest k raw := by
  fun_induction scanString e k s generalizing raw with
  | case1 | case2 | case4 | case6 | case9 | case10 => cases h
  | case3 c s k hc ih =>
    obtain ⟨raw', hraw, rfl⟩ := push_eq_ok.mp h
    obtain ⟨rfl, hrest⟩ := ih hraw
    exact ⟨rfl, stringRest_succ.mpr ⟨c, raw', rfl, hc, hrest⟩⟩
  | case5 s =>
    cases h
    exact ⟨rfl, stringRest_zero.mpr .nil⟩
  | case7 d s hd _ ih =>
    obtain ⟨raw', hraw, rfl⟩ := push_eq_ok.mp h
    obtain ⟨rfl, hrest⟩ := ih hraw
    exact ⟨rfl, stringRest_zero.mpr (.short hd (stringRest_zero.mp hrest))⟩
  | case8 s _ _ ih =>
    obtain ⟨raw', hraw, rfl⟩ := push_eq_ok.mp h
    obtain ⟨rfl, hrest⟩ := ih hraw
    exact ⟨rfl, stringRest_zero.mpr (stringToken_unicode hrest)⟩
  | case11 c s hquote hbackslash hcontrol ih =>
    obtain ⟨raw', hraw, rfl⟩ := push_eq_ok.mp h
    obtain ⟨rfl, hrest⟩ := ih hraw
    exact ⟨rfl, stringRest_zero.mpr
      (.plain (UInt8.not_lt.mp hcontrol) hquote hbackslash (stringRest_zero.mp hrest))⟩

/-- The scan reports its own errors only. -/
theorem scanString_ne {E : Type} (e : StringErrors E) {x : E} (hunterminated : e.unterminated ≠ x)
    (hnoEscape : e.noEscape ≠ x) (hnoHex : e.noHex ≠ x) (hbadHex : ∀ c, e.badHex c ≠ x)
    (hbadEscape : ∀ c, e.badEscape c ≠ x) (hcontrol : ∀ c, e.control c ≠ x) (k : ℕ)
    (s : List UInt8) : scanString e k s ≠ .error x := by
  have hpush : ∀ (read : List UInt8) (r : Except E (List UInt8 × List UInt8)), r ≠ .error x →
      push read r ≠ .error x := by
    intro read r hr
    cases r with
    | error y => exact hr
    | ok y => exact ok_ne_error
  fun_induction scanString e k s with
  | case1 => exact fun h ↦ hunterminated (Except.error.inj h)
  | case2 => exact fun h ↦ hnoHex (Except.error.inj h)
  | case3 c s k hc ih => exact hpush _ _ ih
  | case4 c => exact fun h ↦ hbadHex c (Except.error.inj h)
  | case5 => exact ok_ne_error
  | case6 => exact fun h ↦ hnoEscape (Except.error.inj h)
  | case7 d s hd _ ih => exact hpush _ _ ih
  | case8 s _ _ ih => exact hpush _ _ ih
  | case9 d => exact fun h ↦ hbadEscape d (Except.error.inj h)
  | case10 c => exact fun h ↦ hcontrol c (Except.error.inj h)
  | case11 c s _ _ _ ih => exact hpush _ _ ih

theorem scanString_plain {E : Type} (e : StringErrors E) {c : UInt8} (hc : 32 ≤ c)
    (hquote : c ≠ 34) (hbackslash : c ≠ 92) (s : List UInt8) :
    scanString e 0 (c :: s) = push [c] (scanString e 0 s) := by
  rw [scanString.eq_def]
  simp only [hquote, hbackslash, UInt8.not_lt.mpr hc, if_false]

theorem scanString_short {E : Type} (e : StringErrors E) {c : UInt8}
    (hc : isShortEscape c = true) (s : List UInt8) :
    scanString e 0 (92 :: c :: s) = push [92, c] (scanString e 0 s) := by
  rw [scanString.eq_def]
  simp [hc]

theorem scanString_unicode {E : Type} (e : StringErrors E) (s : List UInt8) :
    scanString e 0 (92 :: 117 :: s) = push [92, 117] (scanString e 4 s) := by
  have hu : isShortEscape 117 = false := by decide
  rw [scanString.eq_def]
  simp [hu]

theorem scanString_hex {E : Type} (e : StringErrors E) {c : UInt8} (hc : isHexDigit c = true)
    (k : ℕ) (s : List UInt8) : scanString e (k + 1) (c :: s) = push [c] (scanString e k s) := by
  rw [scanString.eq_def]
  simp only [hc, if_true]

theorem scanString_complete {E : Type} (e : StringErrors E) {raw : List UInt8}
    (hraw : StringToken raw) (rest : List UInt8) :
    scanString e 0 (raw ++ 34 :: rest) = .ok (raw, rest) := by
  induction hraw with
  | nil =>
    rw [List.nil_append, scanString.eq_def]
    rfl
  | plain hc hquote hbackslash _ ih =>
    rw [List.cons_append, scanString_plain e hc hquote hbackslash, ih]
    rfl
  | short hc _ ih =>
    rw [List.cons_append, List.cons_append, scanString_short e hc, ih]
    rfl
  | unicode ha hb hc hd _ ih =>
    simp only [List.cons_append]
    rw [scanString_unicode, scanString_hex e ha, scanString_hex e hb, scanString_hex e hc,
      scanString_hex e hd, ih]
    rfl

theorem scanString_ok_iff {E : Type} (e : StringErrors E) (s raw rest : List UInt8) :
    scanString e 0 s = .ok (raw, rest) ↔ s = raw ++ 34 :: rest ∧ StringToken raw := by
  constructor
  · intro h
    obtain ⟨hs, hraw⟩ := scanString_sound e 0 s h
    exact ⟨hs, stringRest_zero.mp hraw⟩
  · rintro ⟨rfl, hraw⟩
    exact scanString_complete e hraw rest

end DoorAccess.Json
