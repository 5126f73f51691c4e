import DoorAccess.Config.Uri
import DoorAccess.Httpx.RoundTrip

/-!
# Messages whose length is announced

A header map goes out as one line for each of its values, and `read_headers` makes the same map of
these lines (`readHeaders_headerLines`). A handler that sets `Content-Length` gets its data onto the
connection as they are, without chunks, and `read_response` reads them back when the length it
announced is the length of its data (`readResponse_sized`).
-/

set_option autoImplicit false
set_option relaxedAutoImplicit false

namespace DoorAccess.Httpx

open AutomationState (trim)
open ByteStream ByteStream.Reader
open ResponseWriter

theorem parseI64_natText {n : ℕ} (hn : n < 9223372036854775808) :
    Codec.parseI64 (Utf8.encode (natText n)) = some (n : ℤ) := by
  have hvalue := Codec.digitsValue_text n
  rw [encode_natText, Config.parseI64_of_digits (Radix.text_ne_nil 10 n)
    (Codec.forall_isDigit_text n) (by rw [hvalue]; exact hn), hvalue]

/-! ### A block of headers -/

/-- The first value of the name `Host` that is not empty, behind what was found before. -/
def hostOf (host : Text) (lines : List (Text × Text)) : Text :=
  lines.foldl (fun host l ↦ if l.1 = "Host".toList ∧ host = [] then l.2 else host) host

variable {cases : CaseTable}

theorem scanLine_of_readable {header : Text × Text} (h : Readable cases header) {i : ℕ}
    (hi : i < MAX_HEADER_COUNT) (scan : HeaderScan)
    (htotal : scan.totalBytes + (textLine (headerLine header)).length ≤ MAX_HEADER_BYTES) :
    scan.line cases i (headerLine header) =
      .ok ⟨scan.headers.add cases header.1 header.2,
        scan.totalBytes + (textLine (headerLine header)).length,
        if header.1 = "Host".toList ∧ scan.host = [] then header.2 else scan.host⟩ := by
  obtain ⟨name, value⟩ := header
  have hcolon : (headerLine (name, value)).idxOf? ':' = some name.length :=
    idxOf?_of_not_mem h.name_colon _
  obtain ⟨n, hn⟩ : ∃ n, name.length = n + 1 :=
    Nat.exists_eq_succ_of_ne_zero fun hzero ↦ h.name_ne (List.length_eq_zero_iff.mp hzero)
  have hname : trim ((headerLine (name, value)).take (n + 1)) = name := by
    rw [← hn, headerLine, List.take_left]
    exact h.name_trim
  have hvalue : trim ((headerLine (name, value)).drop (n + 1 + 1)) = value := by
    rw [← hn, headerLine, List.drop_length_add_append]
    exact (trim_blank value).trans h.value_trim
  rw [length_textLine] at htotal ⊢
  rw [hn] at hcolon
  simp only [HeaderScan.line, hcolon, hname, hvalue, h.name_canonical,
    if_neg (Nat.not_lt.mpr htotal), if_neg (Nat.not_le.mpr hi)]

theorem headersEnd_lines {lines : List (Text × Text)} (h : ∀ l ∈ lines, Readable cases l)
    {i : ℕ} (hcount : i + lines.length ≤ MAX_HEADER_COUNT) (scan : HeaderScan)
    (htotal : scan.totalBytes + (lineBytes lines).length ≤ MAX_HEADER_BYTES) (rest : List UInt8) :
    ∃ final : HeaderScan, final.headers = addAll cases scan.headers lines ∧
      final.host = hostOf scan.host lines ∧
      HeadersEnd cases i scan (lineBytes lines ++ 13 :: 10 :: rest) final rest := by
  induction lines generalizing i scan with
  | nil =>
    refine ⟨scan, rfl, rfl, .here ?_⟩
    exact line_empty (by decide) rest
  | cons line lines ih =>
    rw [List.forall_mem_cons] at h
    rw [List.length_cons] at hcount
    rw [lineBytes, List.flatMap_cons, List.length_append] at htotal
    have hscan := scanLine_of_readable h.1 (i := i) (by omega) scan (by omega)
    obtain ⟨final, hheaders, hhost, hend⟩ := ih h.2 (i := i + 1) (by omega)
      ⟨scan.headers.add cases line.1 line.2,
        scan.totalBytes + (textLine (headerLine line)).length,
        if line.1 = "Host".toList ∧ scan.host = [] then line.2 else scan.host⟩
      (by rw [lineBytes]; simp only; omega)
    refine ⟨final, hheaders, hhost, ?_⟩
    rw [lineBytes, List.flatMap_cons, List.append_assoc]
    exact .next (line_textLine h.1.headerLine.2 h.1.length _) h.1.headerLine.1 hscan hend

/-- A header map whose lines the parser reads back. No name is without a value, as `set` and `add`
leave it. -/
structure Legible (cases : CaseTable) (headers : Header) : Prop where
  readable : ∀ h ∈ headerLines headers, Readable cases h
  count : (headerLines headers).length ≤ MAX_HEADER_COUNT
  total : (lineBytes (headerLines headers)).length ≤ MAX_HEADER_BYTES
  valued : ∀ entry ∈ headers.iter, entry.2 ≠ []

instance (cases : CaseTable) (headers : Header) : Decidable (Legible cases headers) :=
  decidable_of_iff
    ((∀ h ∈ headerLines headers, Readable cases h) ∧
      (headerLines headers).length ≤ MAX_HEADER_COUNT ∧
      (lineBytes (headerLines headers)).length ≤ MAX_HEADER_BYTES ∧
      ∀ entry ∈ headers.iter, entry.2 ≠ [])
    ⟨fun ⟨h₁, h₂, h₃, h₄⟩ ↦ ⟨h₁, h₂, h₃, h₄⟩, fun ⟨h₁, h₂, h₃, h₄⟩ ↦ ⟨h₁, h₂, h₃, h₄⟩⟩

/-- The map that the parser makes of the lines of a map. -/
def reread (cases : CaseTable) (headers : Header) : Header :=
  addAll cases .new (headerLines headers)

theorem mem_iter_of_lookup {headers : Header} {ck : Text} {vals : List Text}
    (h : headers.inner.lookup ck = some vals) : (ck, vals) ∈ headers.iter := by
  rw [Header.iter, List.mem_map]
  exact ⟨⟨ck, vals⟩, List.of_mem_dlookup h, rfl⟩

theorem Legible.lookup_reread {headers : Header} (h : Legible cases headers) (ck : Text) :
    (reread cases headers).inner.lookup ck = headers.inner.lookup ck := by
  rw [reread, lookup_addAll fun l hl ↦ (h.readable l hl).name_canonical, valuesOf_headerLines]
  have hnew : Header.new.inner.lookup ck = none := AList.lookup_empty ck
  cases hlookup : headers.inner.lookup ck with
  | none => rw [hnew]; rfl
  | some vals =>
    have hne : vals ≠ [] := h.valued _ (mem_iter_of_lookup hlookup)
    rw [Option.getD_some, if_neg hne, hnew]
    rfl

/-- Every name has the values behind the wire that it had before. -/
theorem Legible.values_reread {headers : Header} (h : Legible cases headers) (key : Text) :
    (reread cases headers).values cases key = headers.values cases key :=
  h.lookup_reread _

theorem Legible.get_reread {headers : Header} (h : Legible cases headers) (key : Text) :
    (reread cases headers).get cases key = headers.get cases key := by
  rw [Header.get, Header.get, h.values_reread]

/-- The lines of a map are read as this map. -/
theorem readHeaders_headerLines {headers : Header} (h : Legible cases headers)
    (rest : List UInt8) :
    (readHeaders cases).Yields (lineBytes (headerLines headers) ++ 13 :: 10 :: rest)
      (.ok (reread cases headers, hostOf [] (headerLines headers)) rest) := by
  obtain ⟨final, hheaders, hhost, hend⟩ := headersEnd_lines h.readable
    (by rw [Nat.zero_add]; exact h.count) .start
    (by rw [HeaderScan.start, Nat.zero_add]; exact h.total) rest
  refine (readHeaders_ok_iff cases _ _ _ _).mpr ⟨final, hend, ?_⟩
  rw [hheaders, hhost]
  rfl

/-- The first line and the headers of a message, and what is behind them. -/
theorem head_append (code : ℕ) (headers : Header) (rest : List UInt8) :
    head code headers ++ rest =
      textLine (statusLine code) ++ (lineBytes (headerLines headers) ++ 13 :: 10 :: rest) := by
  rw [head, lineBytes]
  simp only [List.append_assoc]
  rfl

/-! ### Headers that are set -/

/-- A header that is set adds one line at most. -/
theorem headerLines_set (headers : Header) (key value : Text) :
    (headerLines (headers.set cases key value)).Subperm
      ((canonicalMimeHeaderKey cases key, value) :: headerLines headers) := by
  have hlines (headers : Header) : (headerLines headers).Perm
      (headers.iter.flatMap fun entry ↦ entry.2.map fun v ↦ (entry.1, v)) :=
    (List.perm_insertionSort _ _).flatMap_right _
  have hset : (headers.set cases key value).iter =
      (canonicalMimeHeaderKey cases key, [value]) ::
        (headers.inner.entries.kerase (canonicalMimeHeaderKey cases key)).map
          fun entry ↦ (entry.1, entry.2) := by
    rw [Header.iter, Header.set, AList.entries_insert, List.map_cons]
  refine (hlines _).subperm.trans ?_
  rw [hset, List.flatMap_cons]
  refine (List.subperm_cons _).mpr (List.Subperm.trans ?_ (hlines headers).symm.subperm)
  exact (((List.kerase_sublist _ _).map _).flatMap _).subperm

/-- The lines of headers that are set, one for each call at most. -/
theorem headerLines_setHeaders (sets : List (Text × Text)) (headers : Header) :
    (headerLines (setHeaders cases headers sets)).Subperm
      ((sets.map fun l ↦ (canonicalMimeHeaderKey cases l.1, l.2)) ++ headerLines headers) := by
  induction sets generalizing headers with
  | nil => exact List.Subperm.refl _
  | cons l sets ih =>
    refine (ih (headers.set cases l.1 l.2)).trans ?_
    rw [List.map_cons, List.cons_append]
    exact (List.Subperm.append (List.Subperm.refl _) (headerLines_set headers l.1 l.2)).trans
      List.perm_middle.subperm

theorem headerLines_new : headerLines .new = [] := rfl

/-- Calls that set headers which the parser can read back. -/
structure Settable (cases : CaseTable) (sets : List (Text × Text)) : Prop where
  readable : ∀ l ∈ sets, Readable cases (canonicalMimeHeaderKey cases l.1, l.2)
  count : sets.length ≤ MAX_HEADER_COUNT
  total : (sets.map fun l ↦
    (textLine (headerLine (canonicalMimeHeaderKey cases l.1, l.2))).length).sum ≤ MAX_HEADER_BYTES

theorem length_lineBytes (lines : List (Text × Text)) :
    (lineBytes lines).length = (lines.map fun l ↦ (textLine (headerLine l)).length).sum := by
  rw [lineBytes, List.length_flatMap]

theorem length_lineBytes_le {lines lines' : List (Text × Text)} (h : lines.Subperm lines') :
    (lineBytes lines).length ≤ (lineBytes lines').length := by
  obtain ⟨l, hperm, hsub⟩ := h
  rw [lineBytes, ← (hperm.flatMap_right _).length_eq]
  exact (hsub.flatMap _).length_le

theorem Settable.legible {sets : List (Text × Text)} (h : Settable cases sets) :
    Legible cases (setHeaders cases .new sets) := by
  have hsub : (headerLines (setHeaders cases .new sets)).Subperm
      (sets.map fun l ↦ (canonicalMimeHeaderKey cases l.1, l.2)) := by
    have hall := @headerLines_setHeaders cases sets .new
    rwa [headerLines_new, List.append_nil] at hall
  refine ⟨fun l hl ↦ ?_, ?_, ?_, fun entry hentry ↦ ?_⟩
  · obtain ⟨set, hset, rfl⟩ := List.mem_map.mp (hsub.subset hl)
    exact h.readable set hset
  · refine Nat.le_trans hsub.length_le ?_
    rw [List.length_map]
    exact h.count
  · refine Nat.le_trans (length_lineBytes_le hsub) ?_
    rw [length_lineBytes, List.map_map]
    exact h.total
  · have hlookup : (setHeaders cases .new sets).inner.lookup entry.1 = some entry.2 := by
      rw [Header.iter, List.mem_map] at hentry
      obtain ⟨e, he, rfl⟩ := hentry
      exact List.mem_dlookup (setHeaders cases .new sets).inner.nodupKeys he
    have hnew : Header.new.inner.lookup entry.1 = none := AList.lookup_empty entry.1
    rw [lookup_setHeaders, hnew, Option.or_none] at hlookup
    obtain ⟨v, -, hv⟩ := Option.map_eq_some_iff.mp hlookup
    rw [← hv]
    exact List.cons_ne_nil _ _

/-! ### The writer without chunks -/

namespace ResponseWriter

/-- The writer behind a head that announces a length. -/
def sized (out : List UInt8) (headers : Header) (status : ℕ) : ResponseWriter where
  out := out
  headers := headers
  wroteHeader := true
  status := status
  chunked := false

/-- The one header that the writer sets itself when there is a `Content-Length`. -/
def closing (cases : CaseTable) (headers : Header) : Header :=
  headers.set cases "Connection".toList "close".toList

theorem get_closing (headers : Header) :
    (closing cases headers).get cases "Content-Length".toList =
      headers.get cases "Content-Length".toList := by
  rw [closing, Header.get, Header.values, Header.lookup_set, if_neg]
  · rfl
  · rw [canonical_contentLength, canonical_connection]
    decide

theorem writeHeader_sized {headers : Header}
    (h : headers.get cases "Content-Length".toList ≠ none) (code : ℕ) :
    (before headers).writeHeader cases code =
      sized (head code (closing cases headers)) (closing cases headers) code := by
  have hlength : (closing cases headers).get cases "Content-Length".toList ≠ none := by
    rw [get_closing]
    exact h
  rw [closing] at hlength
  simp only [writeHeader, before, new, Bool.false_eq_true, if_false, List.nil_append]
  exact if_neg hlength

theorem call_sized (out : List UInt8) (headers : Header) (status : ℕ) (call : Call) :
    ∃ headers', (sized out headers status).call cases call =
      sized (out ++ call.data) headers' status := by
  cases call with
  | set key value =>
    exact ⟨headers.set cases key value, by simp [ResponseWriter.call, setHeader, sized, Call.data]⟩
  | writeHeader code =>
    exact ⟨headers, by simp [ResponseWriter.call, writeHeader, sized, Call.data]⟩
  | write data =>
    refine ⟨headers, ?_⟩
    by_cases hdata : data = []
    · simp [ResponseWriter.call, write, implicitHeader, sized, Call.data, hdata]
    · simp [ResponseWriter.call, write, implicitHeader, sized, Call.data, hdata]
  | flush =>
    exact ⟨headers, by simp [ResponseWriter.call, flush, implicitHeader, sized, Call.data]⟩

theorem out_sized (calls : List Call) (out : List UInt8) (headers : Header) (status : ℕ) :
    ((calls.foldl (ResponseWriter.call cases) (sized out headers status)).finish cases).out =
      out ++ calls.flatMap Call.data := by
  induction calls generalizing out headers with
  | nil => simp [finish, sized, implicitHeader]
  | cons call calls ih =>
    obtain ⟨headers', hcall⟩ := @call_sized cases out headers status call
    rw [List.foldl_cons, hcall, ih, List.flatMap_cons, List.append_assoc]

theorem call_before_sized {headers : Header}
    (h : headers.get cases "Content-Length".toList ≠ none) {call : Call}
    (hset : call.isSet = false) :
    (before headers).call cases call =
      (sized (head call.status (closing cases headers)) (closing cases headers)
        call.status).call cases call := by
  cases call with
  | set key value => cases hset
  | writeHeader code => exact writeHeader_sized h code
  | write data =>
    have himplicit : (before headers).implicitHeader cases =
        sized (head 200 (closing cases headers)) (closing cases headers) 200 :=
      writeHeader_sized h 200
    rw [ResponseWriter.call, write, himplicit]
    rfl
  | flush => exact writeHeader_sized h 200

theorem out_before_sized (calls : List Call) (headers : Header)
    (h : (setHeaders cases headers (setBefore calls)).get cases "Content-Length".toList ≠ none) :
    ((calls.foldl (ResponseWriter.call cases) (before headers)).finish cases).out =
      head (firstStatus calls) (closing cases (setHeaders cases headers (setBefore calls))) ++
        calls.flatMap Call.data := by
  induction calls generalizing headers with
  | nil =>
    change headers.get cases "Content-Length".toList ≠ none at h
    have himplicit : (before headers).implicitHeader cases =
        sized (head 200 (closing cases headers)) (closing cases headers) 200 :=
      writeHeader_sized h 200
    rw [List.foldl_nil, finish, himplicit, List.flatMap_nil, List.append_nil]
    rfl
  | cons call calls ih =>
    cases hset : call.isSet with
    | true =>
      obtain ⟨key, value, rfl⟩ : ∃ key value, call = .set key value := by
        cases call with
        | set key value => exact ⟨key, value, rfl⟩
        | _ => cases hset
      exact ih (headers.set cases key value) h
    | false =>
      have hbefore : setBefore (call :: calls) = [] := by simp [setBefore, hset]
      have hstatus : firstStatus (call :: calls) = call.status := by simp [firstStatus, hset]
      rw [hbefore] at h ⊢
      change headers.get cases "Content-Length".toList ≠ none at h
      rw [hstatus, List.foldl_cons, call_before_sized h hset]
      exact out_sized (call :: calls) _ _ _

end ResponseWriter

/-! ### Responses -/

/-- The headers of a head that announces a length. -/
def sizedHeaders (cases : CaseTable) (calls : List Call) : Header :=
  closing cases (setHeaders cases .new (setBefore calls))

/-- A response of announced length that the parser can read back. -/
structure SizedSendable (cases : CaseTable) (calls : List Call) : Prop where
  announced : (setHeaders cases .new (setBefore calls)).get cases "Content-Length".toList =
    some (natText (calls.flatMap Call.data).length)
  unencoded : (sizedHeaders cases calls).get cases "Transfer-Encoding".toList = none
  status_ge : 100 ≤ firstStatus calls
  status_le : firstStatus calls ≤ 999
  legible : Legible cases (sizedHeaders cases calls)
  body : ((calls.flatMap Call.data).length : ℤ) ≤ MAX_BODY_BYTES

theorem respond_sized {calls : List Call} (h : SizedSendable cases calls) :
    respond cases calls =
      head (firstStatus calls) (sizedHeaders cases calls) ++ calls.flatMap Call.data := by
  refine out_before_sized calls .new ?_
  rw [h.announced]
  exact Option.some_ne_none _

/-- A body of announced length is read as it is. -/
theorem readResponseBody_sized {headers : Header} {data : List UInt8}
    (hte : headers.get cases "Transfer-Encoding".toList = none)
    (hlength : headers.get cases "Content-Length".toList = some (natText data.length))
    (hbody : (data.length : ℤ) ≤ MAX_BODY_BYTES) (rest : List UInt8) :
    (readResponseBody cases headers).Yields (data ++ rest) (.ok data rest) := by
  have hmax : MAX_BODY_BYTES = 1048576 := rfl
  rw [readResponseBody, hte]
  simp only [hlength, parseI64_natText (show data.length < 9223372036854775808 by omega)]
  rw [if_neg (by omega), if_neg (by omega), Int.toNat_natCast]
  exact yields_readExact_append _ data rest

theorem readResponse_sized {calls : List Call} (h : SizedSendable cases calls) :
    (readResponse cases).Yields (respond cases calls)
      (.ok ⟨firstStatus calls, reread cases (sizedHeaders cases calls),
        calls.flatMap Call.data⟩ []) := by
  have hline := line_textLine (newline_not_mem_statusLine (firstStatus calls))
    (length_statusLine_le h.status_le)
    (lineBytes (headerLines (sizedHeaders cases calls)) ++
      13 :: 10 :: calls.flatMap Call.data)
  have hheaders := readHeaders_headerLines h.legible (calls.flatMap Call.data)
  have hbody := @readResponseBody_sized cases _ (calls.flatMap Call.data)
    ((h.legible.get_reread _).trans h.unencoded)
    ((h.legible.get_reread _).trans ((get_closing _).trans h.announced)) h.body []
  rw [List.append_nil] at hbody
  rw [respond_sized h, head_append, readResponse,
    yields_bind_of_ok ((yields_mapError_ok_iff _ _ _ _ _).mpr (readLine_of_line hline)),
    yields_bind_of_ok ((liftExcept_ok_iff _ _ _ _ _).mpr
      ⟨parseStatusLine_statusLine h.status_ge h.status_le, rfl⟩),
    yields_bind_of_ok ((yields_mapError_ok_iff _ _ _ _ _).mpr hheaders),
    yields_bind_of_ok hbody, yields_pure]

/-! ### Responses by what their handler sets -/

theorem setHeaders_append (headers : Header) (sets more : List (Text × Text)) :
    setHeaders cases headers (sets ++ more) =
      setHeaders cases (setHeaders cases headers sets) more :=
  List.foldl_append

theorem get_setHeaders_new (sets : List (Text × Text)) (key : Text) :
    (setHeaders cases .new sets).get cases key =
      lastSet cases sets (canonicalMimeHeaderKey cases key) := by
  have hnew : Header.new.inner.lookup (canonicalMimeHeaderKey cases key) = none :=
    AList.lookup_empty _
  rw [Header.get, Header.values, lookup_setHeaders, hnew, Option.or_none]
  cases lastSet cases sets (canonicalMimeHeaderKey cases key) with
  | none => rfl
  | some v => rfl

/-- A header with a name that is written in its canonical form, as all those are that the daemon
sets itself. -/
structure Fixed (l : Text × Text) : Prop where
  ascii : ∀ c ∈ l.1, c.toNat < 128
  readable : Readable .ascii l

instance (l : Text × Text) : Decidable (Fixed l) :=
  decidable_of_iff (l.1.all (fun c ↦ c.toNat < 128) = true ∧ Readable .ascii l)
    ⟨fun ⟨h₁, h₂⟩ ↦ ⟨List.all_iff_forall_prop.mp h₁, h₂⟩,
      fun ⟨h₁, h₂⟩ ↦ ⟨List.all_iff_forall_prop.mpr h₁, h₂⟩⟩

theorem Fixed.canonical {l : Text × Text} (h : Fixed l) :
    canonicalMimeHeaderKey cases l.1 = l.1 :=
  (canonical_ascii cases h.ascii).trans h.readable.name_canonical

theorem Fixed.readable_canonical {l : Text × Text} (h : Fixed l) :
    Readable cases (canonicalMimeHeaderKey cases l.1, l.2) := by
  rw [h.canonical]
  exact { h.readable with name_canonical := h.canonical }

theorem settable_of_fixed {sets : List (Text × Text)} (h : ∀ l ∈ sets, Fixed l)
    (hcount : sets.length ≤ MAX_HEADER_COUNT)
    (htotal : (sets.map fun l ↦ (textLine (headerLine l)).length).sum ≤ MAX_HEADER_BYTES) :
    Settable cases sets where
  readable l hl := (h l hl).readable_canonical
  count := hcount
  total := by
    have hmap : (sets.map fun l ↦
        (textLine (headerLine (canonicalMimeHeaderKey cases l.1, l.2))).length) =
          sets.map fun l ↦ (textLine (headerLine l)).length :=
      List.map_congr_left fun l hl ↦ by rw [(h l hl).canonical]
    rw [hmap]
    exact htotal

/-- The values of fixed names do not depend on the table of cases. -/
theorem lastSet_fixed {sets : List (Text × Text)} (h : ∀ l ∈ sets, Fixed l) (ck : Text) :
    lastSet cases sets ck = (valuesOf ck sets).getLast? := by
  have hmap : (sets.map fun l ↦ (canonicalMimeHeaderKey cases l.1, l.2)) = sets := by
    conv_rhs => rw [← List.map_id sets]
    exact List.map_congr_left fun l hl ↦ by rw [(h l hl).canonical]; rfl
  rw [lastSet, hmap]

theorem setBefore_connection (calls : List Call) :
    sizedHeaders cases calls = setHeaders cases .new
      (setBefore calls ++ [("Connection".toList, "close".toList)]) := by
  rw [setHeaders_append]
  rfl

theorem sentHeaders_eq (calls : List Call) :
    sentHeaders cases calls = setHeaders cases .new (setBefore calls ++
      [("Connection".toList, "close".toList), ("Transfer-Encoding".toList, "chunked".toList)]) := by
  rw [setHeaders_append]
  rfl

theorem trim_of_forall {s : Text} (h : ∀ c ∈ s, AutomationState.isWhiteSpace c = false) :
    trim s = s := by
  have hdrop (s : Text) (h : ∀ c ∈ s, AutomationState.isWhiteSpace c = false) :
      s.dropWhile AutomationState.isWhiteSpace = s := by
    cases s with
    | nil => rfl
    | cons c s => exact List.dropWhile_cons_of_neg (by simp [h c List.mem_cons_self])
  rw [trim, hdrop s h, hdrop s.reverse fun c hc ↦ h c (List.mem_reverse.mp hc),
    List.reverse_reverse]

theorem length_natText_le {n : ℕ} (hn : n ≤ 1048576) : (natText n).length ≤ 7 := by
  rw [natText, Utf8.ofAscii, List.length_map]
  exact Radix.length_text_le (by decide) (by decide) (by omega)

/-- The line that announces a length. -/
theorem length_contentLength_line {n : ℕ} (hn : n ≤ 1048576) :
    (textLine (headerLine ("Content-Length".toList, natText n))).length ≤ 25 := by
  have hname : Utf8.encode ("Content-Length".toList ++ [':', ' ']) =
      Codec.ascii "Content-Length: " := by decide
  have hline : headerLine ("Content-Length".toList, natText n) =
      ("Content-Length".toList ++ [':', ' ']) ++ natText n := by
    simp [headerLine]
  have hlen := length_natText_le hn
  rw [hline, length_textLine, byteLength, Utf8.encode_append, hname, List.length_append,
    encode_length_ascii fun c hc ↦ Nat.lt_of_le_of_lt (natText_digits n c hc).2 (by decide)]
  have hascii : (Codec.ascii "Content-Length: ").length = 16 := by decide
  omega

theorem fixed_contentLength {n : ℕ} (hn : n ≤ 1048576) :
    Fixed ("Content-Length".toList, natText n) := by
  have hname : ∀ c ∈ "Content-Length".toList, c.toNat < 128 :=
    List.all_iff_forall_prop.mp (by decide)
  refine ⟨hname, ?_, ?_, ?_, ?_, ?_, fun h ↦ ?_, trim_of_forall fun c hc ↦ ?_, ?_⟩
  · show "Content-Length".toList ≠ []
    decide
  · show ':' ∉ "Content-Length".toList
    decide
  · show '\n' ∉ "Content-Length".toList
    decide
  · show trim "Content-Length".toList = "Content-Length".toList
    decide
  · exact canonical_contentLength .ascii
  · exact absurd (natText_digits n _ h).1 (by decide)
  · have hdigit := natText_digits n c hc
    simp only [AutomationState.isWhiteSpace, Bool.or_eq_false_iff, Bool.and_eq_false_iff,
      beq_eq_false_iff_ne, decide_eq_false_iff_not]
    omega
  · exact Nat.le_trans (length_contentLength_line hn) (by decide)

/-- A response with fixed headers and the length of its data among them. -/
theorem sizedSendable_of_fixed {calls : List Call}
    (hfixed : ∀ l ∈ setBefore calls ++ [("Connection".toList, "close".toList)], Fixed l)
    (hcount : (setBefore calls).length < MAX_HEADER_COUNT)
    (htotal : ((setBefore calls ++ [("Connection".toList, "close".toList)]).map
      fun l ↦ (textLine (headerLine l)).length).sum ≤ MAX_HEADER_BYTES)
    (hlength : (valuesOf "Content-Length".toList (setBefore calls)).getLast? =
      some (natText (calls.flatMap Call.data).length))
    (hchunked : valuesOf "Transfer-Encoding".toList (setBefore calls) = [])
    (hge : 100 ≤ firstStatus calls) (hle : firstStatus calls ≤ 999)
    (hbody : ((calls.flatMap Call.data).length : ℤ) ≤ MAX_BODY_BYTES) :
    SizedSendable cases calls where
  announced := by
    rw [get_setHeaders_new, canonical_contentLength,
      lastSet_fixed fun l hl ↦ hfixed l (List.mem_append_left _ hl)]
    exact hlength
  unencoded := by
    rw [setBefore_connection, get_setHeaders_new, canonical_transferEncoding, lastSet_fixed hfixed,
      valuesOf, List.filter_append, List.map_append]
    change (valuesOf "Transfer-Encoding".toList (setBefore calls) ++ []).getLast? = none
    rw [hchunked]
    rfl
  status_ge := hge
  status_le := hle
  legible := by
    rw [setBefore_connection]
    refine (settable_of_fixed hfixed ?_ htotal).legible
    rw [List.length_append]
    exact hcount
  body := hbody

/-- A response with fixed headers and no length among them. -/
theorem sendable_of_fixed {calls : List Call}
    (hfixed : ∀ l ∈ setBefore calls ++
      [("Connection".toList, "close".toList),
        ("Transfer-Encoding".toList, "chunked".toList)], Fixed l)
    (hcount : (setBefore calls).length + 1 < MAX_HEADER_COUNT)
    (htotal : ((setBefore calls ++
      [("Connection".toList, "close".toList), ("Transfer-Encoding".toList, "chunked".toList)]).map
        fun l ↦ (textLine (headerLine l)).length).sum ≤ MAX_HEADER_BYTES)
    (hlength : valuesOf "Content-Length".toList (setBefore calls) = [])
    (hge : 100 ≤ firstStatus calls) (hle : firstStatus calls ≤ 999)
    (hbody : ((calls.flatMap Call.data).length : ℤ) ≤ MAX_BODY_BYTES) :
    Sendable cases calls := by
  have hlegible : Legible cases (sentHeaders cases calls) := by
    rw [sentHeaders_eq]
    refine (settable_of_fixed hfixed ?_ htotal).legible
    rw [List.length_append]
    exact hcount
  refine ⟨?_, hge, hle, hlegible.readable, hlegible.count, hlegible.total, ?_⟩
  · rw [get_setHeaders_new, canonical_contentLength,
      lastSet_fixed fun l hl ↦ hfixed l (List.mem_append_left _ hl), hlength]
    rfl
  · rw [flatten_pieces]
    exact hbody

/-- What `read_response` makes of a response: the status, the data in order, and under every name
but the two of the writer what was set last. -/
structure ReadAs (cases : CaseTable) (calls : List Call) (response : ClientResponse) : Prop where
  reads : (readResponse cases).Yields (respond cases calls) (.ok response [])
  status : response.statusCode = firstStatus calls
  body : response.body = calls.flatMap Call.data
  header : ∀ key, canonicalMimeHeaderKey cases key ≠ "Connection".toList →
    canonicalMimeHeaderKey cases key ≠ "Transfer-Encoding".toList →
      response.header.get cases key =
        lastSet cases (setBefore calls) (canonicalMimeHeaderKey cases key)

theorem SizedSendable.readAs {calls : List Call} (h : SizedSendable cases calls) :
    ∃ response, ReadAs cases calls response := by
  refine ⟨_, readResponse_sized h, rfl, rfl, fun key hconnection _ ↦ ?_⟩
  rw [h.legible.get_reread, sizedHeaders, closing, Header.get, Header.values, Header.lookup_set,
    canonical_connection, if_neg hconnection]
  exact get_setHeaders_new _ _

theorem Sendable.readAs {calls : List Call} (h : Sendable cases calls) :
    ∃ response, ReadAs cases calls response := by
  refine ⟨_, readResponse_respond h, rfl, flatten_pieces calls,
    fun key hconnection hencoding ↦ ?_⟩
  have hlookup := lookup_addAll_headerLines (fun l hl ↦ (h.readable l hl).name_canonical)
    (canonicalMimeHeaderKey cases key)
  rw [sentValues, if_neg hencoding, if_neg hconnection] at hlookup
  refine (congrArg (Option.bind · List.head?) hlookup).trans ?_
  cases lastSet cases (setBefore calls) (canonicalMimeHeaderKey cases key) with
  | none => rfl
  | some v => rfl

end DoorAccess.Httpx
