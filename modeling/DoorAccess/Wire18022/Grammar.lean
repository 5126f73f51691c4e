import DoorAccess.Decimal
import DoorAccess.Wire18022

/-!
# The grammar of the response parser

`parseResponseFrame` searches a body of arbitrary bytes for the first of two separators. What it
accepts is nevertheless a plain grammar (`Frame`): the bytes before the separator have to be digits,
and a separator does not begin with a digit, so the first separator is the one that ends the number.
A payload may hold any bytes, those of a separator among them. Every frame of the builders is of
this form.
-/

set_option autoImplicit false
set_option relaxedAutoImplicit false

namespace DoorAccess.Wire18022

open Codec

/-! ### The forms -/

/-- The last byte of a separator, `=` or `*`. -/
def IsSep (sep : UInt8) : Prop :=
  sep = 0x3d ∨ sep = 0x2a

/-- The number of a request: one to ten digits, and a value that fits into 31 bits. -/
structure ReqNumber (digits : List UInt8) : Prop where
  nonempty : 1 ≤ digits.length
  short : digits.length ≤ 10
  digit : ∀ c ∈ digits, isDigit c = true
  bounded : digitsValue digits ≤ 2 ^ 31 - 1

-- With `List.all`: the quantifier over the bytes of a list may be decided by trying all bytes.
instance (digits : List UInt8) : Decidable (ReqNumber digits) :=
  decidable_of_iff (1 ≤ digits.length ∧ digits.length ≤ 10 ∧ digits.all isDigit = true ∧
      digitsValue digits ≤ 2 ^ 31 - 1)
    ⟨fun ⟨hnonempty, hshort, hdigit, hbounded⟩ ↦
        ⟨hnonempty, hshort, List.all_eq_true.mp hdigit, hbounded⟩,
      fun ⟨hnonempty, hshort, hdigit, hbounded⟩ ↦
        ⟨hnonempty, hshort, List.all_eq_true.mpr hdigit, hbounded⟩⟩

/-- `req=`, the number, the separator and the payload. -/
def bodyOf (digits : List UInt8) (sep : UInt8) (payload : List UInt8) : List UInt8 :=
  REQ_PREFIX ++ (digits ++ (QUERY ++ sep :: payload))

/-- The bytes of a frame with the given number and payload: the header, whose length field is that
of the body, the body, and whatever follows. -/
def Frame (b : List UInt8) (req : ℤ) (payload : List UInt8) : Prop :=
  ∃ l0 l1 digits sep extra,
    b = [0x07, 0xb8, l0, l1, 0, 0] ++ (bodyOf digits sep payload ++ extra) ∧
    l0.toNat + 256 * l1.toNat = (bodyOf digits sep payload).length ∧ IsSep sep ∧
    ReqNumber digits ∧ (∀ sep', ¬ QUERY ++ [sep'] <:+: digits) ∧ req = digitsValue digits

/-! ### The separator -/

section Separator

variable {digits payload before after s : List UInt8} {sep : UInt8}

/-- No separator begins with a digit. -/
theorem not_mem_of_digits (h : ∀ c ∈ digits, isDigit c = true) : 0x26 ∉ digits := by
  intro hmem
  exact absurd (h 0x26 hmem) (by decide)

theorem not_infix_of_digits (h : ∀ c ∈ digits, isDigit c = true) (sep' : UInt8) :
    ¬ QUERY ++ [sep'] <:+: digits := by
  intro hinside
  have hmem : (0x26 : UInt8) ∈ QUERY ++ [sep'] := by simp [QUERY]
  exact not_mem_of_digits h (hinside.subset hmem)

/-- The search ends at a separator. -/
theorem findQuerySep_sound (h : findQuerySep s = some (before, after)) :
    ∃ sep, IsSep sep ∧ s = before ++ (QUERY ++ sep :: after) := by
  induction s generalizing before with
  | nil => exact absurd h (by simp [findQuerySep])
  | cons c rest ih =>
    simp only [findQuerySep] at h
    split_ifs at h with hwindow
    · obtain ⟨rfl, rfl⟩ : [] = before ∧ List.drop QUERY_SEP_LEN (c :: rest) = after := by
        simpa using h
      have hsplit := List.take_append_drop QUERY_SEP_LEN (c :: rest)
      rcases hwindow with heq | heq
      · refine ⟨0x3d, Or.inl rfl, ?_⟩
        rw [heq] at hsplit
        simpa using hsplit.symm
      · refine ⟨0x2a, Or.inr rfl, ?_⟩
        rw [heq] at hsplit
        simpa using hsplit.symm
    · obtain ⟨⟨before', after'⟩, hrest, hpair⟩ := Option.map_eq_some_iff.mp h
      obtain ⟨rfl, rfl⟩ : c :: before' = before ∧ after' = after := by simpa using hpair
      obtain ⟨sep, hsep, rfl⟩ := ih hrest
      exact ⟨sep, hsep, rfl⟩

/-- A separator behind digits is the first one. -/
theorem findQuerySep_digits (hdigits : ∀ c ∈ digits, isDigit c = true) (hsep : IsSep sep) :
    findQuerySep (digits ++ (QUERY ++ sep :: payload)) = some (digits, payload) := by
  induction digits with
  | nil =>
    rcases hsep with rfl | rfl
    · simp [QUERY, findQuerySep, QUERY_SEP_LEN]
    · simp [QUERY, findQuerySep, QUERY_SEP_LEN]
  | cons c rest ih =>
    have hc : c ≠ 0x26 := by
      rintro rfl
      exact absurd (hdigits 0x26 List.mem_cons_self) (by decide)
    have hrest := ih fun d hd ↦ hdigits d (List.mem_cons_of_mem c hd)
    rw [List.cons_append, findQuerySep, hrest, if_neg]
    · rfl
    · simp [QUERY, QUERY_SEP_LEN, hc]

end Separator

/-! ### What is accepted -/

section Accepted

variable {digits payload b : List UInt8} {sep : UInt8} {req : ℤ}

theorem parseReqNum_eq_ok_iff :
    parseReqNum digits = .ok req ↔ ReqNumber digits ∧ req = digitsValue digits := by
  unfold parseReqNum
  constructor
  · intro h
    split_ifs at h with hempty hlong hdigit hrange
    refine ⟨⟨?_, by omega, ?_, by omega⟩, ?_⟩
    · rw [List.isEmpty_iff] at hempty
      exact List.length_pos_iff.mpr hempty
    · simpa using hdigit
    · exact (Except.ok.inj h).symm
  · rintro ⟨hnumber, rfl⟩
    have hnonempty := hnumber.nonempty
    have hshort := hnumber.short
    have hbounded := hnumber.bounded
    have hempty : ¬ digits.isEmpty = true := by
      rw [List.isEmpty_iff]
      exact List.length_pos_iff.mp hnonempty
    have hdigit : ¬ ¬ digits.all isDigit = true := by
      simpa using hnumber.digit
    rw [if_neg hempty, if_neg (by omega), if_neg hdigit, if_neg (by omega)]

theorem bodyOf_length : (bodyOf digits sep payload).length =
    4 + digits.length + 7 + payload.length := by
  simp only [bodyOf, REQ_PREFIX, QUERY, List.length_append, List.length_cons, List.length_nil]
  omega

/-- The body of a frame is read back. -/
theorem parseBody_bodyOf (hnumber : ReqNumber digits) (hsep : IsSep sep) :
    parseBody (bodyOf digits sep payload) = .ok (↑(digitsValue digits), payload) := by
  have hlong : ¬ (bodyOf digits sep payload).length < REQ_PREFIX.length + 1 + QUERY_SEP_LEN := by
    have hnonempty := hnumber.nonempty
    simp only [bodyOf_length, REQ_PREFIX, QUERY_SEP_LEN, List.length_cons, List.length_nil]
    omega
  have hleft : (bodyOf digits sep payload).take REQ_PREFIX.length = REQ_PREFIX :=
    List.take_left
  have hrest : (bodyOf digits sep payload).drop REQ_PREFIX.length =
      digits ++ (QUERY ++ sep :: payload) := List.drop_left
  have hnum : parseReqNum digits = .ok ↑(digitsValue digits) :=
    parseReqNum_eq_ok_iff.mpr ⟨hnumber, rfl⟩
  rw [parseBody, if_neg hlong, if_neg (not_not.mpr hleft), hrest,
    findQuerySep_digits hnumber.digit hsep]
  simp only [hnum]
  rfl

theorem parseBody_sound {frameBody : List UInt8} (h : parseBody frameBody = .ok (req, payload)) :
    ∃ digits sep, frameBody = bodyOf digits sep payload ∧ IsSep sep ∧ ReqNumber digits ∧
      req = digitsValue digits := by
  unfold parseBody at h
  split_ifs at h with hshort hreq
  rw [not_not] at hreq
  split at h
  · exact absurd h (by simp)
  · rename_i reqBytes body hfind
    obtain ⟨sep, hsep, hrest⟩ := findQuerySep_sound hfind
    cases hnum : parseReqNum reqBytes with
    | error e =>
      rw [hnum] at h
      exact absurd h (by simp [bind, Except.bind])
    | ok n =>
      rw [hnum] at h
      obtain ⟨rfl, rfl⟩ : n = req ∧ body = payload := by
        simpa [bind, Except.bind, pure, Except.pure] using h
      obtain ⟨hnumber, hvalue⟩ := parseReqNum_eq_ok_iff.mp hnum
      refine ⟨reqBytes, sep, ?_, hsep, hnumber, hvalue⟩
      rw [← List.take_append_drop REQ_PREFIX.length frameBody, hreq, hrest, bodyOf]

/-- The parser accepts exactly the frames of the grammar. -/
theorem parseResponseFrame_eq_ok_iff (b : List UInt8) (req : ℤ) (payload : List UInt8) :
    parseResponseFrame b = .ok (req, payload) ↔ Frame b req payload := by
  constructor
  · intro h
    match b, h with
    | m0 :: m1 :: l0 :: l1 :: r0 :: r1 :: rest, h =>
      simp only [parseResponseFrame] at h
      split_ifs at h with hmagic hreserved hlength
      rw [not_or, not_not, not_not] at hmagic hreserved
      obtain ⟨rfl, rfl⟩ := hmagic
      obtain ⟨rfl, rfl⟩ := hreserved
      obtain ⟨digits, sep, hbody, hsep, hnumber, hreq⟩ := parseBody_sound h
      refine ⟨l0, l1, digits, sep, rest.drop (l0.toNat + 256 * l1.toNat), ?_, ?_, hsep, hnumber,
        not_infix_of_digits hnumber.digit, hreq⟩
      · rw [← hbody, List.take_append_drop]
        rfl
      · rw [← hbody, List.length_take]
        omega
  · rintro ⟨l0, l1, digits, sep, extra, rfl, hlength, hsep, hnumber, -, rfl⟩
    have hreach : ¬ (bodyOf digits sep payload ++ extra).length < l0.toNat + 256 * l1.toNat := by
      rw [List.length_append]
      omega
    simp only [List.cons_append, List.nil_append, parseResponseFrame]
    rw [if_neg (by simp [MAGIC_HI, MAGIC_LO]), if_neg (by simp), if_neg hreach,
      List.take_append_of_le_length (by omega), hlength, List.take_length]
    exact parseBody_bodyOf hnumber hsep

end Accepted

/-! ### Decimal numbers -/

/-- The decimal text of a number. -/
def decimalText (n : ℕ) : List UInt8 :=
  if n < 10 then [UInt8.ofNat (48 + n)] else decimalText (n / 10) ++ [UInt8.ofNat (48 + n % 10)]

section Decimal

variable {n k : ℕ}

theorem decimalText_of_lt (h : n < 10) : decimalText n = [UInt8.ofNat (48 + n)] := by
  rw [decimalText, if_pos h]

theorem decimalText_of_ge (h : 10 ≤ n) :
    decimalText n = decimalText (n / 10) ++ [UInt8.ofNat (48 + n % 10)] := by
  rw [decimalText, if_neg (Nat.not_lt.mpr h)]

theorem digitsValue_decimalText (n : ℕ) : digitsValue (decimalText n) = n := by
  induction n using decimalText.induct with
  | case1 n hlt =>
    rw [decimalText_of_lt hlt, ← List.nil_append [UInt8.ofNat (48 + n)],
      digitsValue_concat, toNat_ofNat_digit hlt]
    simp [digitsValue]
  | case2 n hge ih =>
    have hlast : n % 10 < 10 := Nat.mod_lt n (by decide)
    rw [decimalText_of_ge (Nat.not_lt.mp hge), digitsValue_concat, ih,
      toNat_ofNat_digit hlast]
    omega

theorem isDigit_of_mem_decimalText (n : ℕ) : ∀ c ∈ decimalText n, isDigit c = true := by
  induction n using decimalText.induct with
  | case1 n hlt =>
    intro c hc
    rw [decimalText_of_lt hlt, List.mem_singleton] at hc
    rw [hc]
    exact isDigit_ofNat_digit hlt
  | case2 n hge ih =>
    intro c hc
    rw [decimalText_of_ge (Nat.not_lt.mp hge), List.mem_append, List.mem_singleton] at hc
    rcases hc with hold | rfl
    · exact ih c hold
    · exact isDigit_ofNat_digit (Nat.mod_lt n (by decide))

theorem decimalText_length_le (h : n < 10 ^ (k + 1)) : (decimalText n).length ≤ k + 1 := by
  induction k generalizing n with
  | zero =>
    rw [decimalText_of_lt (by omega)]
    simp
  | succ k ih =>
    by_cases hlt : n < 10
    · rw [decimalText_of_lt hlt]
      simp
    · rw [Nat.not_lt] at hlt
      have hdiv : n / 10 < 10 ^ (k + 1) := by
        rw [Nat.div_lt_iff_lt_mul (by decide), ← Nat.pow_succ]
        exact h
      rw [decimalText_of_ge hlt, List.length_append, List.length_singleton]
      exact Nat.succ_le_succ (ih hdiv)

theorem decimalText_ne_nil (n : ℕ) : decimalText n ≠ [] := by
  rw [decimalText]
  split_ifs
  · simp
  · simp

/-- Every number up to `2 ^ 31 - 1` can be written as the number of a request. -/
theorem reqNumber_decimalText (h : n ≤ 2 ^ 31 - 1) : ReqNumber (decimalText n) where
  nonempty := List.length_pos_iff.mpr (decimalText_ne_nil n)
  short := decimalText_length_le (by omega)
  digit := isDigit_of_mem_decimalText n
  bounded := by
    rw [digitsValue_decimalText]
    exact h

end Decimal

/-! ### Built frames -/

section Built

variable {digits payload : List UInt8} {sep : UInt8}

/-- The length field of a body that is not too long. -/
theorem frame_assembleFrame (hnumber : ReqNumber digits) (hsep : IsSep sep)
    (hlength : (bodyOf digits sep payload).length ≤ 65535) (extra : List UInt8) :
    Frame (assembleFrame (bodyOf digits sep payload) ++ extra) (digitsValue digits) payload := by
  refine ⟨UInt8.ofNat (bodyOf digits sep payload).length,
    UInt8.ofNat ((bodyOf digits sep payload).length / 256), digits, sep, extra, ?_, ?_, hsep,
    hnumber, not_infix_of_digits hnumber.digit, rfl⟩
  · rw [assembleFrame, List.append_assoc]
    rfl
  · rw [UInt8.toNat_ofNat', UInt8.toNat_ofNat']
    omega

/-- A built frame is read back, whatever follows it. -/
theorem parse_assembleFrame (hnumber : ReqNumber digits) (hsep : IsSep sep)
    (hlength : (bodyOf digits sep payload).length ≤ 65535) (extra : List UInt8) :
    parseResponseFrame (assembleFrame (bodyOf digits sep payload) ++ extra) =
      .ok (↑(digitsValue digits), payload) :=
  (parseResponseFrame_eq_ok_iff _ _ _).mpr (frame_assembleFrame hnumber hsep hlength extra)

/-- A frame with one of the short payloads that the builders have. -/
theorem parse_short (digits : List UInt8) (sep : UInt8) (req : ℕ) {frame : List UInt8}
    (hframe : frame = assembleFrame (bodyOf digits sep payload)) (hshort : payload.length ≤ 16)
    (hnumber : ReqNumber digits) (hreq : digitsValue digits = req) (hsep : IsSep sep)
    (extra : List UInt8) : parseResponseFrame (frame ++ extra) = .ok (↑req, payload) := by
  have hlength : (bodyOf digits sep payload).length ≤ 65535 := by
    have hdigits := hnumber.short
    rw [bodyOf_length]
    omega
  rw [hframe, parse_assembleFrame hnumber hsep hlength extra, hreq]

variable (a b : Octets) (extra : List UInt8)

theorem parse_buildPreviewFrame : parseResponseFrame (buildPreviewFrame ++ extra) =
    .ok (705, [0x00, 0x00, 0x01, 0x00, 0x00, 0x00, 0x03, 0x00, 0x00, 0x01]) :=
  parse_short [0x37, 0x30, 0x35] 0x3d 705 rfl (by decide) (by decide) (by decide) (Or.inl rfl) extra

theorem parse_buildUnlockAFrame : parseResponseFrame (buildUnlockAFrame a b ++ extra) =
    .ok (710, a.toList ++ (b.toList ++ [0x01, 0x00, 0x00, 0x00, 0x03, 0x00, 0x00, 0x00])) :=
  parse_short [0x37, 0x31, 0x30] 0x3d 710 (by simp [buildUnlockAFrame, bodyOf]) (by simp)
    (by decide) (by decide) (Or.inl rfl) extra

theorem parse_buildByeFrame : parseResponseFrame (buildByeFrame a b ++ extra) =
    .ok (708, a.toList ++ (b.toList ++ [0x01, 0x00, 0x00, 0x00, 0x03, 0x00, 0x00, 0x00])) :=
  parse_short [0x37, 0x30, 0x38] 0x3d 708 (by simp [buildByeFrame, bodyOf]) (by simp)
    (by decide) (by decide) (Or.inl rfl) extra

theorem parse_buildStartFrame : parseResponseFrame (buildStartFrame a b ++ extra) =
    .ok (704, a.toList ++ (b.toList ++ [0x80, 0x00, 0x00, 0x00, 0x02, 0x00, 0x00, 0x01])) :=
  parse_short [0x37, 0x30, 0x34] 0x2a 704 (by simp [buildStartFrame, bodyOf]) (by simp)
    (by decide) (by decide) (Or.inr rfl) extra

theorem parse_buildStopFrame : parseResponseFrame (buildStopFrame a b ++ extra) =
    .ok (708, a.toList ++ (b.toList ++ [0x80, 0x00, 0x00, 0x00, 0x02, 0x00, 0x00, 0x01])) :=
  parse_short [0x37, 0x30, 0x38] 0x3d 708 (by simp [buildStopFrame, bodyOf]) (by simp)
    (by decide) (by decide) (Or.inl rfl) extra

theorem parse_buildAppointFrame : parseResponseFrame (buildAppointFrame a ++ extra) =
    .ok (518, [0xed, 0x00, 0x01, 0x00, 0x00] ++ (a.toList.drop 2 ++ [0x00, 0x07])) :=
  parse_short [0x35, 0x31, 0x38] 0x3d 518 (by simp [buildAppointFrame, bodyOf]) (by simp)
    (by decide) (by decide) (Or.inl rfl) extra

/-- The header of unlock-B is written out, with the length that `assemble_frame` would give. -/
theorem buildUnlockBFrame_eq : buildUnlockBFrame a b =
    assembleFrame (bodyOf [0x35, 0x31, 0x38] 0x3d
      (0x22 :: (a.toList ++ (b.toList ++ [unlockBChecksum a b])))) := by
  have hlast : ∀ frame : List UInt8, frame.length = 29 → ∀ c : UInt8,
      (frame ++ [c]).getD 29 0 = c := by
    intro frame hlength c
    rw [← hlength]
    simp
  have hchecksum : buildUnlockBFrame a b = [MAGIC_HI, MAGIC_LO, 24, 0, 0, 0] ++ REQ_PREFIX ++
      [0x35, 0x31, 0x38] ++ QUERY ++ [0x3d] ++ [0x22] ++ a.toList ++ b.toList ++
        [unlockBChecksum a b] := by
    rw [unlockBChecksum, buildUnlockBFrame, hlast _ (by simp [REQ_PREFIX, QUERY])]
  rw [hchecksum]
  simp [assembleFrame, bodyOf, REQ_PREFIX, QUERY]

theorem parse_buildUnlockBFrame : parseResponseFrame (buildUnlockBFrame a b ++ extra) =
    .ok (518, 0x22 :: (a.toList ++ (b.toList ++ [unlockBChecksum a b]))) :=
  parse_short [0x35, 0x31, 0x38] 0x3d 518 (buildUnlockBFrame_eq a b) (by simp)
    (by decide) (by decide) (Or.inl rfl) extra

/-- **The response parser, exactly.** It accepts the frames of the grammar and no others; what
follows the declared body has no influence; every number up to `2 ^ 31 - 1` with either separator
and every payload that fits into a frame are read back; and so is what each builder sends. -/
theorem parseResponseFrame_exact :
    (∀ b req payload, parseResponseFrame b = .ok (req, payload) ↔ Frame b req payload) ∧
    (∀ b extra, frameSize b ≤ b.length →
      parseResponseFrame (b ++ extra) = parseResponseFrame b) ∧
    (∀ (req : ℕ) sep payload extra, req ≤ 2 ^ 31 - 1 → IsSep sep →
      (bodyOf (decimalText req) sep payload).length ≤ 65535 →
        parseResponseFrame (assembleFrame (bodyOf (decimalText req) sep payload) ++ extra) =
          .ok (↑req, payload)) ∧
    ∀ (a b : Octets) extra,
      parseResponseFrame (buildPreviewFrame ++ extra) =
        .ok (705, [0x00, 0x00, 0x01, 0x00, 0x00, 0x00, 0x03, 0x00, 0x00, 0x01]) ∧
      parseResponseFrame (buildUnlockAFrame a b ++ extra) =
        .ok (710, a.toList ++ (b.toList ++ [0x01, 0x00, 0x00, 0x00, 0x03, 0x00, 0x00, 0x00])) ∧
      parseResponseFrame (buildUnlockBFrame a b ++ extra) =
        .ok (518, 0x22 :: (a.toList ++ (b.toList ++ [unlockBChecksum a b]))) ∧
      parseResponseFrame (buildByeFrame a b ++ extra) =
        .ok (708, a.toList ++ (b.toList ++ [0x01, 0x00, 0x00, 0x00, 0x03, 0x00, 0x00, 0x00])) ∧
      parseResponseFrame (buildStartFrame a b ++ extra) =
        .ok (704, a.toList ++ (b.toList ++ [0x80, 0x00, 0x00, 0x00, 0x02, 0x00, 0x00, 0x01])) ∧
      parseResponseFrame (buildStopFrame a b ++ extra) =
        .ok (708, a.toList ++ (b.toList ++ [0x80, 0x00, 0x00, 0x00, 0x02, 0x00, 0x00, 0x01])) ∧
      parseResponseFrame (buildAppointFrame a ++ extra) =
        .ok (518, [0xed, 0x00, 0x01, 0x00, 0x00] ++ (a.toList.drop 2 ++ [0x00, 0x07])) := by
  refine ⟨parseResponseFrame_eq_ok_iff, fun b extra h ↦ parseResponseFrame_append extra h, ?_, ?_⟩
  · intro req sep payload extra hreq hsep hlength
    have hparse := parse_assembleFrame (reqNumber_decimalText hreq) hsep hlength extra
    rw [digitsValue_decimalText] at hparse
    exact hparse
  · intro a b extra
    exact ⟨parse_buildPreviewFrame extra, parse_buildUnlockAFrame a b extra,
      parse_buildUnlockBFrame a b extra, parse_buildByeFrame a b extra,
      parse_buildStartFrame a b extra, parse_buildStopFrame a b extra,
      parse_buildAppointFrame a extra⟩

/-- A payload that looks like a body of its own. -/
theorem parseResponseFrame_exact_nested :
    parseResponseFrame (assembleFrame (bodyOf (decimalText 711) 0x2a (ascii "req=1&query=x")) ++
      [0xff]) = .ok (711, ascii "req=1&query=x") := by
  refine parseResponseFrame_exact.2.2.1 711 0x2a (ascii "req=1&query=x") [0xff] (by decide)
    (Or.inr rfl) ?_
  have hdigits : (decimalText 711).length ≤ 10 := (reqNumber_decimalText (by decide)).short
  have hpayload : (ascii "req=1&query=x").length = 13 := by decide
  rw [bodyOf_length, hpayload]
  omega

end Built

end DoorAccess.Wire18022
