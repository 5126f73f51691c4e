import DoorAccess.Decimal
import DoorAccess.Httpx.CutOff
import DoorAccess.Httpx.Response
import Mathlib.Data.List.TakeWhile

/-!
# What is written is what is read

`read_response` on the response of a handler: the status, the headers and the data come back, and
nothing is left of the stream. It takes a status of three digits and headers that the parser can
read: names that are not empty, hold no colon and stay what they are when they are trimmed or
brought to canonical form, values that stay what they are when they are trimmed, no line feed, and
sizes within the limits. The two headers the writer sets itself are not the handler's.
-/

set_option autoImplicit false
set_option relaxedAutoImplicit false

namespace DoorAccess.Httpx

open AutomationState (trim isWhiteSpace)
open ByteStream ByteStream.Reader
open ResponseWriter

/-! ### Lines of text -/

theorem lineText_textLine (line : Text) :
    lineText ((Utf8.encode line ++ [13]) ++ [10]) = line := by
  have hlen : ((Utf8.encode line ++ [13]) ++ [10]).length = (Utf8.encode line).length + 2 := by
    rw [List.length_append, List.length_append]
    rfl
  rw [lineText, if_pos]
  · rw [hlen, Nat.add_sub_cancel, List.append_assoc, List.take_left, Utf8.decodeLossy_encode]
  · rw [hlen]
    refine ⟨by omega, ?_, ?_⟩
    · simp
    · simp

theorem newline_not_mem_encode {line : Text} (h : '\n' ∉ line) : 10 ∉ Utf8.encode line := by
  rw [Utf8.encode, List.mem_flatMap]
  rintro ⟨c, hc, hbyte⟩
  by_cases hascii : c.toNat < 128
  · rw [Utf8.encodeChar_ascii hascii, List.mem_singleton] at hbyte
    have hval : c.toNat = 10 := by
      have h := congrArg UInt8.toNat hbyte
      rw [UInt8.toNat_ofNat', Nat.mod_eq_of_lt (by omega)] at h
      exact h.symm
    refine h ?_
    rwa [show ('\n' : Char) = c from Char.toNat_inj.mp hval.symm]
  · exact absurd (Utf8.le_of_mem_encodeChar (Nat.not_lt.mp hascii) hbyte) (by decide)

/-- A line that is written is a line of the stream. -/
theorem line_textLine {limit : ℕ} {line : Text} (hline : '\n' ∉ line)
    (hlimit : (textLine line).length ≤ limit) (rest : List UInt8) :
    Line limit (textLine line ++ rest) line rest := by
  refine ⟨Utf8.encode line ++ [13], ?_, ?_, ?_, (lineText_textLine line).symm⟩
  · rw [List.mem_append, not_or]
    exact ⟨newline_not_mem_encode hline, by decide⟩
  · rw [textLine, List.length_append] at hlimit
    rw [List.length_append]
    exact hlimit
  · rw [textLine, List.append_assoc, List.append_assoc]
    rfl

/-- The line that ends the headers. -/
theorem line_empty {limit : ℕ} (hlimit : 2 ≤ limit) (rest : List UInt8) :
    Line limit (13 :: 10 :: rest) [] rest := by
  have hline : Line limit (textLine [] ++ rest) [] rest :=
    line_textLine List.not_mem_nil hlimit rest
  exact hline

theorem length_textLine (line : Text) : (textLine line).length = byteLength line + 2 := by
  rw [textLine, List.length_append, byteLength]
  rfl

/-! ### Numbers -/

theorem encode_natText (n : ℕ) : Utf8.encode (natText n) = Radix.text 10 n :=
  Codec.encode_decimal n

theorem parseU16_natText {n : ℕ} (hn : n ≤ 65535) :
    parseU16 (Utf8.encode (natText n)) = some n := by
  have hvalue := Codec.digitsValue_text n
  rw [encode_natText, parseU16_of_digits (Radix.text_ne_nil 10 n) (Codec.forall_isDigit_text n)
    (by omega), hvalue]

theorem natText_digits (n : ℕ) : ∀ c ∈ natText n, 48 ≤ c.toNat ∧ c.toNat ≤ 57 := by
  intro c hc
  obtain ⟨b, hb, rfl⟩ := List.mem_map.mp hc
  obtain ⟨hlo, hhi⟩ := Codec.toNat_of_mem_text hb
  rw [Utf8.toNat_ofNat_of_lt (by omega)]
  exact ⟨hlo, hhi⟩

theorem length_natText {n : ℕ} (hn : n < 1000) : (natText n).length ≤ 3 := by
  rw [natText, Utf8.ofAscii, List.length_map]
  exact Radix.length_text_le (by decide) (by decide) hn

/-! ### The status line -/

theorem statusText_plain (code : ℕ) :
    (statusText code).all (fun c ↦ 32 ≤ c.toNat && c.toNat < 128) ∧
      (statusText code).length ≤ 31 := by
  unfold statusText
  split <;> decide

theorem reason_plain (code : ℕ) :
    (∀ c ∈ reason code, 32 ≤ c.toNat ∧ c.toNat < 128) ∧ (reason code).length ≤ 31 := by
  have h := statusText_plain code
  rw [List.all_eq_true] at h
  rw [reason]
  split_ifs
  · exact ⟨List.all_iff_forall_prop.mp (by decide), by decide⟩
  · refine ⟨fun c hc ↦ ?_, h.2⟩
    have hplain := h.1 c hc
    rwa [Bool.and_eq_true, decide_eq_true_iff, decide_eq_true_iff] at hplain

theorem splitn_cons {n : ℕ} {c : Char} {part : Text} (h : c ∉ part) (rest : Text) :
    splitn (n + 2) c (part ++ c :: rest) = part :: splitn (n + 1) c rest := by
  rw [splitn, idxOf?_of_not_mem h]
  simp only
  rw [List.take_left, List.drop_length_add_append]
  rfl

theorem statusLine_eq (code : ℕ) :
    statusLine code = "HTTP/1.1".toList ++ ' ' :: (natText code ++ ' ' :: reason code) := rfl

theorem parseStatusLine_statusLine {code : ℕ} (hlo : 100 ≤ code) (hhi : code ≤ 999) :
    parseStatusLine (statusLine code) = .ok code := by
  have hblank : ' ' ∉ natText code := fun h ↦ absurd (natText_digits code ' ' h).1 (by decide)
  have hproto : "HTTP/".toList.isPrefixOf "HTTP/1.1".toList = true := by decide
  rw [parseStatusLine, statusLine_eq, splitn_cons (by decide), splitn_cons hblank]
  simp only [hproto, not_true_eq_false, if_false, parseU16_natText (show code ≤ 65535 by omega),
    hlo, hhi, and_self, if_true]

theorem encode_length_ascii {text : Text} (h : ∀ c ∈ text, c.toNat < 128) :
    (Utf8.encode text).length = text.length := by
  induction text with
  | nil => rfl
  | cons c text ih =>
    rw [List.forall_mem_cons] at h
    rw [Utf8.encode_cons, Utf8.encodeChar_ascii h.1, List.length_append, ih h.2, Nat.add_comm]
    rfl

theorem statusLine_plain (code : ℕ) : ∀ c ∈ statusLine code, 32 ≤ c.toNat ∧ c.toNat < 128 := by
  have hproto : ∀ c ∈ "HTTP/1.1".toList, 32 ≤ c.toNat ∧ c.toNat < 128 :=
    List.all_iff_forall_prop.mp (by decide)
  intro c hc
  rw [statusLine_eq, List.mem_append] at hc
  rcases hc with hc | hc
  · exact hproto c hc
  rcases List.mem_cons.mp hc with rfl | hc
  · decide
  rw [List.mem_append] at hc
  rcases hc with hc | hc
  · have hdigit := natText_digits code c hc
    exact ⟨by omega, by omega⟩
  rcases List.mem_cons.mp hc with rfl | hc
  · decide
  · exact (reason_plain code).1 c hc

theorem newline_not_mem_statusLine (code : ℕ) : '\n' ∉ statusLine code := fun h ↦
  absurd (statusLine_plain code '\n' h).1 (by decide)

theorem length_statusLine_le {code : ℕ} (hhi : code ≤ 999) :
    (textLine (statusLine code)).length ≤ MAX_REQUEST_LINE_BYTES := by
  have hnumber := length_natText (show code < 1000 by omega)
  have hreason := (reason_plain code).2
  have hproto : "HTTP/1.1".toList.length = 8 := by decide
  rw [length_textLine, byteLength,
    encode_length_ascii fun c hc ↦ (statusLine_plain code c hc).2, statusLine_eq,
    List.length_append, hproto, List.length_cons, List.length_append, List.length_cons,
    MAX_REQUEST_LINE_BYTES]
  omega

/-! ### Headers -/

variable (cases : CaseTable)

/-- A header line that the parser reads back as it was written. -/
structure Readable (header : Text × Text) : Prop where
  name_ne : header.1 ≠ []
  name_colon : ':' ∉ header.1
  name_newline : '\n' ∉ header.1
  name_trim : trim header.1 = header.1
  name_canonical : canonicalMimeHeaderKey cases header.1 = header.1
  value_newline : '\n' ∉ header.2
  value_trim : trim header.2 = header.2
  length : (textLine (headerLine header)).length ≤ MAX_REQUEST_LINE_BYTES

instance (header : Text × Text) : Decidable (Readable cases header) :=
  decidable_of_iff
    (header.1 ≠ [] ∧ ':' ∉ header.1 ∧ '\n' ∉ header.1 ∧ trim header.1 = header.1 ∧
      canonicalMimeHeaderKey cases header.1 = header.1 ∧ '\n' ∉ header.2 ∧
      trim header.2 = header.2 ∧ (textLine (headerLine header)).length ≤ MAX_REQUEST_LINE_BYTES)
    ⟨fun ⟨h₁, h₂, h₃, h₄, h₅, h₆, h₇, h₈⟩ ↦ ⟨h₁, h₂, h₃, h₄, h₅, h₆, h₇, h₈⟩,
      fun ⟨h₁, h₂, h₃, h₄, h₅, h₆, h₇, h₈⟩ ↦ ⟨h₁, h₂, h₃, h₄, h₅, h₆, h₇, h₈⟩⟩

/-- The bytes of header lines. -/
def lineBytes (headers : List (Text × Text)) : List UInt8 :=
  headers.flatMap fun h ↦ textLine (headerLine h)

/-- The header map that the parser builds from header lines. -/
def addAll (headers : Header) (lines : List (Text × Text)) : Header :=
  lines.foldl (fun headers h ↦ headers.add cases h.1 h.2) headers

theorem trim_blank (value : Text) : trim (' ' :: value) = trim value := by
  have hblank : isWhiteSpace ' ' = true := by decide
  rw [trim, trim, List.dropWhile_cons_of_pos hblank]

variable {cases}

/-- The line of a readable header adds it, as long as the limits are kept. -/
theorem Readable.scan {header : Text × Text} (h : Readable cases header) {i : ℕ}
    (hi : i < MAX_HEADER_COUNT) (scan : HeaderScan)
    (htotal : scan.totalBytes + (textLine (headerLine header)).length ≤ MAX_HEADER_BYTES) :
    ∃ host, scan.line cases i (headerLine header) =
      .ok ⟨scan.headers.add cases header.1 header.2,
        scan.totalBytes + (textLine (headerLine header)).length, host⟩ := by
  obtain ⟨name, value⟩ := header
  have hcolon : (headerLine (name, value)).idxOf? ':' = some name.length :=
    idxOf?_of_not_mem h.name_colon _
  obtain ⟨n, hn⟩ : ∃ n, name.length = n + 1 :=
    Nat.exists_eq_succ_of_ne_zero fun hzero ↦ h.name_ne (List.length_eq_zero_iff.mp hzero)
  have hname : trim ((headerLine (name, value)).take (n + 1)) = name := by
    rw [← hn, headerLine, List.take_left]
    exact h.name_trim
  have hvalue : trim ((headerLine (name, value)).drop (n + 1 + 1)) = value := by
    rw [← hn, headerLine, List.drop_length_add_append]
    exact (trim_blank value).trans h.value_trim
  rw [length_textLine] at htotal ⊢
  rw [hn] at hcolon
  simp only [HeaderScan.line, hcolon, hname, hvalue, h.name_canonical,
    if_neg (Nat.not_lt.mpr htotal), if_neg (Nat.not_le.mpr hi)]
  exact ⟨_, rfl⟩

theorem Readable.headerLine {header : Text × Text} (h : Readable cases header) :
    headerLine header ≠ [] ∧ '\n' ∉ headerLine header := by
  refine ⟨fun hnil ↦ h.name_ne (List.append_eq_nil_iff.mp hnil).1, ?_⟩
  simp only [ResponseWriter.headerLine, List.mem_append, List.mem_cons, not_or]
  exact ⟨h.name_newline, by decide, by decide, h.value_newline⟩

/-- Readable header lines are read to the empty line behind them. -/
theorem headersEnd_lineBytes {lines : List (Text × Text)} (h : ∀ l ∈ lines, Readable cases l)
    {i : ℕ} (hcount : i + lines.length ≤ MAX_HEADER_COUNT) (scan : HeaderScan)
    (htotal : scan.totalBytes + (lineBytes lines).length ≤ MAX_HEADER_BYTES) (rest : List UInt8) :
    ∃ final : HeaderScan, final.headers = addAll cases scan.headers lines ∧
      HeadersEnd cases i scan (lineBytes lines ++ 13 :: 10 :: rest) final rest := by
  induction lines generalizing i scan with
  | nil =>
    refine ⟨scan, rfl, .here ?_⟩
    exact line_empty (by decide) rest
  | cons line lines ih =>
    rw [List.forall_mem_cons] at h
    rw [List.length_cons] at hcount
    rw [lineBytes, List.flatMap_cons, List.length_append] at htotal
    obtain ⟨host, hscan⟩ := h.1.scan (i := i) (by omega) scan (by omega)
    obtain ⟨final, hfinal, hend⟩ := ih h.2 (i := i + 1) (by omega)
      ⟨scan.headers.add cases line.1 line.2,
        scan.totalBytes + (textLine (headerLine line)).length, host⟩
      (by rw [lineBytes]; simp only; omega)
    refine ⟨final, hfinal, ?_⟩
    rw [lineBytes, List.flatMap_cons, List.append_assoc]
    exact .next (line_textLine h.1.headerLine.2 h.1.length _) h.1.headerLine.1 hscan hend

/-! ### The header map -/

/-- The values that header lines give a name, in their order. -/
def valuesOf (ck : Text) (lines : List (Text × Text)) : List Text :=
  (lines.filter fun l ↦ l.1 = ck).map Prod.snd

theorem valuesOf_cons (ck : Text) (line : Text × Text) (lines : List (Text × Text)) :
    valuesOf ck (line :: lines) =
      (if line.1 = ck then [line.2] else []) ++ valuesOf ck lines := by
  rw [valuesOf, List.filter_cons]
  split_ifs with h h'
  · rfl
  · exact absurd (of_decide_eq_true h) h'
  · exact absurd (decide_eq_true ‹_›) h
  · rfl

theorem lookup_addAll {lines : List (Text × Text)}
    (h : ∀ l ∈ lines, canonicalMimeHeaderKey cases l.1 = l.1) (headers : Header) (ck : Text) :
    (addAll cases headers lines).inner.lookup ck =
      if valuesOf ck lines = [] then headers.inner.lookup ck
      else some ((headers.inner.lookup ck).getD [] ++ valuesOf ck lines) := by
  induction lines generalizing headers with
  | nil => rfl
  | cons line lines ih =>
    rw [List.forall_mem_cons] at h
    rw [addAll, List.foldl_cons]
    refine (ih h.2 (headers.add cases line.1 line.2)).trans ?_
    rw [Header.lookup_add, h.1, valuesOf_cons]
    by_cases hck : line.1 = ck
    · subst hck
      simp only [if_true, List.singleton_append, reduceCtorEq, if_false, Option.getD_some,
        List.append_assoc]
      split_ifs with hnil
      · rw [hnil]
      · rfl
    · simp only [if_neg hck, if_neg (Ne.symm hck), List.nil_append]

theorem valuesOf_expand (ck : Text) (entries : List (Text × List Text)) :
    valuesOf ck (entries.flatMap fun e ↦ e.2.map fun v ↦ (e.1, v)) =
      (entries.filter fun e ↦ e.1 = ck).flatMap Prod.snd := by
  have hentry (e : Text × List Text) :
      valuesOf ck (e.2.map fun v ↦ (e.1, v)) = if e.1 = ck then e.2 else [] := by
    rw [valuesOf, List.filter_map, List.map_map]
    by_cases h : e.1 = ck
    · simp [Function.comp_def, h]
    · simp [Function.comp_def, h]
  induction entries with
  | nil => rfl
  | cons e entries ih =>
    rw [List.flatMap_cons, valuesOf, List.filter_append, List.map_append]
    change valuesOf ck _ ++ valuesOf ck _ = _
    rw [hentry, ih, List.filter_cons]
    by_cases h : e.1 = ck
    · rw [if_pos h, if_pos (decide_eq_true h), List.flatMap_cons]
    · rw [if_neg h, if_neg (by simpa using h), List.nil_append]

theorem filter_entries {entries : List (Sigma fun _ : Text ↦ List Text)}
    (hnodup : entries.NodupKeys) (ck : Text) :
    ((entries.map fun e ↦ (e.1, e.2)).filter fun e ↦ e.1 = ck) =
      ((entries.dlookup ck).map fun vals ↦ (ck, vals)).toList := by
  induction entries with
  | nil => rfl
  | cons e entries ih =>
    obtain ⟨key, vals⟩ := e
    rw [List.nodupKeys_cons] at hnodup
    rw [List.map_cons, List.filter_cons, ih hnodup.2]
    by_cases h : key = ck
    · subst h
      rw [if_pos (by simp), List.dlookup_cons_eq, List.dlookup_eq_none.mpr hnodup.1]
      rfl
    · rw [if_neg (by simpa using h), List.dlookup_cons_ne _ _ (Ne.symm h)]

/-- Every value of every key comes in the lines of the head, in order. -/
theorem valuesOf_headerLines (headers : Header) (ck : Text) :
    valuesOf ck (headerLines headers) = (headers.inner.lookup ck).getD [] := by
  have hperm : ((sortedEntries headers).filter fun e ↦ e.1 = ck).Perm
      ((headers.inner.lookup ck).map fun vals ↦ (ck, vals)).toList := by
    rw [AList.lookup, ← filter_entries headers.inner.nodupKeys]
    exact (List.perm_insertionSort _ _).filter _
  rw [headerLines, valuesOf_expand]
  cases hlookup : headers.inner.lookup ck with
  | none =>
    rw [hlookup] at hperm
    rw [List.perm_nil.mp hperm]
    rfl
  | some vals =>
    rw [hlookup] at hperm
    rw [List.perm_singleton.mp hperm]
    exact List.append_nil vals

/-- What was set last, of the headers set under a name. -/
def lastSet (cases : CaseTable) (sets : List (Text × Text)) (ck : Text) : Option Text :=
  (valuesOf ck (sets.map fun h ↦ (canonicalMimeHeaderKey cases h.1, h.2))).getLast?

theorem lookup_setHeaders (sets : List (Text × Text)) (headers : Header) (ck : Text) :
    (setHeaders cases headers sets).inner.lookup ck =
      ((lastSet cases sets ck).map fun v ↦ [v]).or (headers.inner.lookup ck) := by
  induction sets generalizing headers with
  | nil => rfl
  | cons h sets ih =>
    rw [setHeaders, List.foldl_cons]
    refine (ih (headers.set cases h.1 h.2)).trans ?_
    rw [Header.lookup_set, lastSet, lastSet, List.map_cons, valuesOf_cons, List.getLast?_append]
    by_cases hck : canonicalMimeHeaderKey cases h.1 = ck
    · rw [if_pos hck.symm, if_pos hck]
      cases (valuesOf ck (sets.map fun h ↦ (canonicalMimeHeaderKey cases h.1, h.2))).getLast?
      · rfl
      · rfl
    · rw [if_neg (Ne.symm hck), if_neg hck]
      simp

/-- The values of a name in the head: the two that the writer sets itself, and otherwise what was
set last. -/
def sentValues (cases : CaseTable) (calls : List Call) (ck : Text) : Option (List Text) :=
  if ck = "Transfer-Encoding".toList then some ["chunked".toList]
  else if ck = "Connection".toList then some ["close".toList]
  else (lastSet cases (setBefore calls) ck).map fun v ↦ [v]

theorem lookup_sentHeaders (calls : List Call) (ck : Text) :
    (sentHeaders cases calls).inner.lookup ck = sentValues cases calls ck := by
  rw [sentHeaders, ownHeaders, Header.lookup_set, Header.lookup_set, canonical_transferEncoding,
    canonical_connection, sentValues, lookup_setHeaders]
  have hnew : Header.new.inner.lookup ck = none := AList.lookup_empty ck
  rw [hnew, Option.or_none]

theorem sentValues_ne_nil {calls : List Call} {ck : Text} {vals : List Text}
    (h : sentValues cases calls ck = some vals) : vals ≠ [] := by
  rw [sentValues] at h
  split_ifs at h
  · exact Option.some.inj h ▸ List.cons_ne_nil _ _
  · exact Option.some.inj h ▸ List.cons_ne_nil _ _
  · obtain ⟨v, _, rfl⟩ := Option.map_eq_some_iff.mp h
    exact List.cons_ne_nil _ _

/-- The map that the parser builds from the lines of the head holds what the head was made from. -/
theorem lookup_addAll_headerLines {calls : List Call}
    (h : ∀ l ∈ headerLines (sentHeaders cases calls), canonicalMimeHeaderKey cases l.1 = l.1)
    (ck : Text) :
    (addAll cases .new (headerLines (sentHeaders cases calls))).inner.lookup ck =
      sentValues cases calls ck := by
  rw [lookup_addAll h, valuesOf_headerLines, lookup_sentHeaders]
  cases hvals : sentValues cases calls ck with
  | none => rfl
  | some vals =>
    rw [Option.getD_some, if_neg (sentValues_ne_nil hvals)]
    rfl

/-! ### Chunks -/

theorem hexText_plain (n : ℕ) : ∀ b ∈ Radix.text 16 n,
    (Codec.hexNibble b).isSome = true ∧ 48 ≤ b.toNat ∧ b.toNat < 128 ∧ b.toNat ≠ 59 := by
  have hdigit : ∀ d < 16, (Codec.hexNibble (Radix.digit d)).isSome = true ∧
      48 ≤ (Radix.digit d).toNat ∧ (Radix.digit d).toNat < 128 ∧ (Radix.digit d).toNat ≠ 59 := by
    decide
  intro b hb
  obtain ⟨d, hd, rfl⟩ := Radix.mem_text (by decide) hb
  exact hdigit d hd

theorem encode_hexText (n : ℕ) : Utf8.encode (Utf8.ofAscii (Radix.text 16 n)) = Radix.text 16 n :=
  Utf8.encode_ofAscii fun b hb ↦ (hexText_plain n b hb).2.2.1

theorem hexText_chars (n : ℕ) : ∀ c ∈ Utf8.ofAscii (Radix.text 16 n),
    48 ≤ c.toNat ∧ c.toNat ≠ 59 := by
  intro c hc
  obtain ⟨b, hb, rfl⟩ := List.mem_map.mp hc
  obtain ⟨_, hlo, hhi, hne⟩ := hexText_plain n b hb
  rw [Utf8.toNat_ofNat_of_lt hhi]
  exact ⟨hlo, hne⟩

theorem chunkSize_text {n : ℕ} (hn : n ≤ 1048576) :
    chunkSize (Utf8.ofAscii (Radix.text 16 n)) = some (n : ℤ) := by
  have hall : (Utf8.ofAscii (Radix.text 16 n)).takeWhile
      (fun c ↦ c ≠ ';' ∧ c ≠ ' ' ∧ c ≠ '\t') = Utf8.ofAscii (Radix.text 16 n) := by
    refine List.takeWhile_eq_self_iff.mpr fun c hc ↦ decide_eq_true ?_
    obtain ⟨hlo, hne⟩ := hexText_chars n c hc
    refine ⟨?_, ?_, ?_⟩
    · rintro rfl
      exact hne rfl
    · rintro rfl
      exact absurd hlo (by decide)
    · rintro rfl
      exact absurd hlo (by decide)
  have hvalue : Radix.value 16 (Radix.text 16 n) = n := Radix.value_text (by decide) (by decide) n
  rw [chunkSize, hall, encode_hexText, parseI64Hex_of_digits (Radix.text_ne_nil 16 n)
    (fun b hb ↦ (hexText_plain n b hb).1) (by rw [hvalue]; omega), hvalue]

theorem line_size {n : ℕ} (hn : n ≤ 1048576) (rest : List UInt8) :
    Line CHUNK_LINE_BYTES (Radix.text 16 n ++ [13, 10] ++ rest)
      (Utf8.ofAscii (Radix.text 16 n)) rest := by
  have hlen : (Radix.text 16 n).length ≤ 6 :=
    Radix.length_text_le (by decide) (by decide) (by norm_num; omega)
  have hline : textLine (Utf8.ofAscii (Radix.text 16 n)) = Radix.text 16 n ++ [13, 10] := by
    rw [textLine, encode_hexText]
  rw [← hline]
  refine line_textLine (fun h ↦ absurd (hexText_chars n _ h).1 (by decide)) ?_ rest
  rw [hline, List.length_append, CHUNK_LINE_BYTES]
  exact Nat.add_le_add_right (hlen.trans (by decide)) 2

theorem chunkTurn_last (buf : List UInt8) :
    (chunkTurn buf).Yields lastChunk (.ok (.inr buf) []) := by
  have hsize : Line CHUNK_LINE_BYTES lastChunk (Utf8.ofAscii (Radix.text 16 0)) [13, 10] :=
    line_size (n := 0) (by decide) [13, 10]
  have hzero : chunkSize (Utf8.ofAscii (Radix.text 16 0)) = some 0 := chunkSize_text (by decide)
  have htrailer : Line MAX_REQUEST_LINE_BYTES [13, 10] [] [] :=
    line_empty (by decide) []
  have hend : (loop trailerTurn ()).Yields [13, 10] (.ok () []) := by
    have hturn := trailerTurn_of_line htrailer
    rw [if_pos rfl] at hturn
    exact yields_loop_of_done hturn
  rw [chunkTurn,
    yields_bind_of_ok ((yields_mapError_ok_iff _ _ _ _ _).mpr (readLine_of_line hsize))]
  simp only [hzero]
  rw [if_neg (by decide), if_pos trivial, yields_bind_of_ok hend]
  exact (yields_pure _ _ _).mpr rfl

/-- Chunks within the limit and the last chunk are read as one body. -/
theorem readChunkedBody_frames {chunks : List (List UInt8)} (hne : ∀ c ∈ chunks, c ≠ [])
    {buf : List UInt8} (hfit : (buf.length + chunks.flatten.length : ℤ) ≤ MAX_BODY_BYTES) :
    (loop chunkTurn buf).Yields (chunks.flatMap chunkFrame ++ lastChunk)
      (.ok (buf ++ chunks.flatten) []) := by
  induction chunks generalizing buf with
  | nil =>
    rw [List.flatten_nil, List.append_nil]
    exact yields_loop_of_done (chunkTurn_last buf)
  | cons chunk chunks ih =>
    rw [List.forall_mem_cons] at hne
    rw [List.flatten_cons, List.length_append, Nat.cast_add] at hfit
    have hmax : MAX_BODY_BYTES = 1048576 := rfl
    have hturn : (chunkTurn buf).Yields ((chunk :: chunks).flatMap chunkFrame ++ lastChunk)
        (.ok (.inl (buf ++ chunk)) (chunks.flatMap chunkFrame ++ lastChunk)) := by
      have hcrlf : ([13, 10] : List UInt8).length = 2 := rfl
      refine chunkTurn_next ?_ (chunkSize_text (by omega)) hne.1 (by omega) hcrlf
      have hline := line_size (n := chunk.length) (by omega)
        (chunk ++ [13, 10] ++ (chunks.flatMap chunkFrame ++ lastChunk))
      rw [List.flatMap_cons, chunkFrame]
      simp only [List.append_assoc] at hline ⊢
      exact hline
    rw [yields_loop_of_next hturn, List.flatten_cons, ← List.append_assoc]
    exact ih hne.2 (by rw [List.length_append, Nat.cast_add]; omega)

/-! ### Responses -/

/-- A response that the parser can read back. -/
structure Sendable (cases : CaseTable) (calls : List Call) : Prop where
  noLength : (setHeaders cases .new (setBefore calls)).get cases "Content-Length".toList = none
  status_ge : 100 ≤ firstStatus calls
  status_le : firstStatus calls ≤ 999
  readable : ∀ h ∈ headerLines (sentHeaders cases calls), Readable cases h
  count : (headerLines (sentHeaders cases calls)).length ≤ MAX_HEADER_COUNT
  total : (lineBytes (headerLines (sentHeaders cases calls))).length ≤ MAX_HEADER_BYTES
  body : ((pieces calls).flatten.length : ℤ) ≤ MAX_BODY_BYTES

instance (cases : CaseTable) (calls : List Call) : Decidable (Sendable cases calls) :=
  decidable_of_iff
    ((setHeaders cases .new (setBefore calls)).get cases "Content-Length".toList = none ∧
      100 ≤ firstStatus calls ∧ firstStatus calls ≤ 999 ∧
      (∀ h ∈ headerLines (sentHeaders cases calls), Readable cases h) ∧
      (headerLines (sentHeaders cases calls)).length ≤ MAX_HEADER_COUNT ∧
      (lineBytes (headerLines (sentHeaders cases calls))).length ≤ MAX_HEADER_BYTES ∧
      ((pieces calls).flatten.length : ℤ) ≤ MAX_BODY_BYTES)
    ⟨fun ⟨h₁, h₂, h₃, h₄, h₅, h₆, h₇⟩ ↦ ⟨h₁, h₂, h₃, h₄, h₅, h₆, h₇⟩,
      fun ⟨h₁, h₂, h₃, h₄, h₅, h₆, h₇⟩ ↦ ⟨h₁, h₂, h₃, h₄, h₅, h₆, h₇⟩⟩

theorem pieces_ne_nil (calls : List Call) : ∀ data ∈ pieces calls, data ≠ [] := by
  intro data hdata
  exact of_decide_eq_true (List.mem_filter.mp hdata).2

theorem flatten_pieces (calls : List Call) :
    (pieces calls).flatten = calls.flatMap Call.data := by
  induction calls with
  | nil => rfl
  | cons call calls ih =>
    rw [pieces_cons, List.flatten_append, ih, List.flatMap_cons]
    by_cases hdata : call.data = []
    · simp [pieces, hdata]
    · simp [pieces, hdata]

/-- The response that `read_response` makes of the bytes. -/
def readBack (cases : CaseTable) (calls : List Call) : ClientResponse where
  statusCode := firstStatus calls
  header := addAll cases .new (headerLines (sentHeaders cases calls))
  body := (pieces calls).flatten

theorem readResponse_respond {calls : List Call} (h : Sendable cases calls) :
    (readResponse cases).Yields (respond cases calls) (.ok (readBack cases calls) []) := by
  have hbytes : respond cases calls = textLine (statusLine (firstStatus calls)) ++
      (lineBytes (headerLines (sentHeaders cases calls)) ++
        13 :: 10 :: ((pieces calls).flatMap chunkFrame ++ lastChunk)) := by
    rw [respond_eq cases h.noLength, head]
    simp only [List.append_assoc, lineBytes]
    rfl
  have hline := line_textLine (newline_not_mem_statusLine (firstStatus calls))
    (length_statusLine_le h.status_le)
    (lineBytes (headerLines (sentHeaders cases calls)) ++
      13 :: 10 :: ((pieces calls).flatMap chunkFrame ++ lastChunk))
  obtain ⟨final, hfinal, hend⟩ := headersEnd_lineBytes h.readable
    (by rw [Nat.zero_add]; exact h.count) .start
    (by rw [HeaderScan.start, Nat.zero_add]; exact h.total)
    ((pieces calls).flatMap chunkFrame ++ lastChunk)
  have hheaders := (readHeaders_ok_iff cases _ _ final.headers final.host).mpr ⟨final, hend, rfl⟩
  have hchunked : final.headers.get cases "Transfer-Encoding".toList = some "chunked".toList := by
    have hlookup := lookup_addAll_headerLines (fun l hl ↦ (h.readable l hl).name_canonical)
      "Transfer-Encoding".toList
    rw [Header.get, Header.values, canonical_transferEncoding, hfinal]
    exact congrArg (Option.bind · List.head?) hlookup
  have hbody : (readResponseBody cases final.headers).Yields
      ((pieces calls).flatMap chunkFrame ++ lastChunk) (.ok (pieces calls).flatten []) := by
    have hsame : eqIgnoreAsciiCase "chunked".toList "chunked".toList = true := by decide
    rw [readResponseBody, hchunked]
    simp only [hsame, if_true]
    have hfit : (([] : List UInt8).length + (pieces calls).flatten.length : ℤ) ≤ MAX_BODY_BYTES :=
      (zero_add _).le.trans h.body
    exact readChunkedBody_frames (pieces_ne_nil calls) hfit
  rw [hbytes, readResponse,
    yields_bind_of_ok ((yields_mapError_ok_iff _ _ _ _ _).mpr (readLine_of_line hline)),
    yields_bind_of_ok ((liftExcept_ok_iff _ _ _ _ _).mpr
      ⟨parseStatusLine_statusLine h.status_ge h.status_le, rfl⟩),
    yields_bind_of_ok ((yields_mapError_ok_iff _ _ _ _ _).mpr hheaders),
    yields_bind_of_ok hbody, yields_pure, readBack, hfinal]
  rfl

/-- `read_response` reads the whole response of a handler back: the status of the call that writes
the head, what was set last before it under every name but the two of the writer, and the data in
order, of which every piece that is not empty makes a chunk and nothing but the end makes the last
one. -/
theorem respond_round_trip (cases : CaseTable) (calls : List Call) (h : Sendable cases calls) :
    ∃ response, (readResponse cases).Yields (respond cases calls) (.ok response []) ∧
      response.statusCode = firstStatus calls ∧
      (∀ key, response.header.values cases key =
        sentValues cases calls (canonicalMimeHeaderKey cases key)) ∧
      response.body = calls.flatMap Call.data ∧
      ∃ chunks : List (List UInt8), (∀ c ∈ chunks, c ≠ []) ∧
        respond cases calls = head (firstStatus calls) (sentHeaders cases calls) ++
          chunks.flatMap chunkFrame ++ lastChunk := by
  refine ⟨readBack cases calls, readResponse_respond h, rfl, fun key ↦ ?_, flatten_pieces calls,
    pieces calls, pieces_ne_nil calls, respond_eq cases h.noLength⟩
  exact lookup_addAll_headerLines (fun l hl ↦ (h.readable l hl).name_canonical) _

/-- A text in two pieces, one of them empty, and a status that comes too late. -/
def textCalls : List Call :=
  [.set "content-type".toList "text/plain".toList, .write [], .write (Codec.ascii "hi"),
    .writeHeader 500, .flush]

theorem respond_round_trip_text :
    Sendable .ascii textCalls ∧ ∃ response,
      (readResponse .ascii).Yields (respond .ascii textCalls) (.ok response []) ∧
      response.statusCode = 200 ∧
      response.header.values .ascii "Content-Type".toList = some ["text/plain".toList] ∧
      response.body = Codec.ascii "hi" := by
  have hsendable : Sendable .ascii textCalls := by decide
  obtain ⟨response, hyields, hstatus, hvalues, hbody, _⟩ :=
    respond_round_trip .ascii textCalls hsendable
  refine ⟨hsendable, response, hyields, ?_, ?_, ?_⟩
  · rw [hstatus]
    decide
  · rw [hvalues]
    decide
  · rw [hbody]
    decide

/-- A handler that sets the header the writer sets itself. -/
def keepAliveCalls : List Call :=
  [.set "Connection".toList "keep-alive".toList, .flush]

/-- The header that was set before the head does not come back. -/
theorem respond_own_connection :
    ¬∃ response, (readResponse .ascii).Yields (respond .ascii keepAliveCalls) (.ok response []) ∧
      response.header.values .ascii "Connection".toList = some ["keep-alive".toList] := by
  rintro ⟨response, hyields, hvalues⟩
  have hsendable : Sendable .ascii keepAliveCalls := by decide
  have hback := readResponse_respond hsendable
  obtain ⟨rfl, _⟩ := Outcome.ok.inj (hyields.unique hback)
  revert hvalues
  decide

end DoorAccess.Httpx
