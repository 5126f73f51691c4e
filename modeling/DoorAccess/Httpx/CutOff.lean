import DoorAccess.Httpx.Parse

/-!
# Streams that end within a line

`read_line` returns on every finite stream except the ones it never leaves: those that end within a
line shorter than the limit. What is built on it returns unless it comes to ask for such a line, and
the predicates below say of a stream, without running anything, that this is so for a request, for a
response and for a chunked body. A chunked body has one more way not to return, the size whose sum
with the bytes before it does not fit an `i64`.
-/

set_option autoImplicit false
set_option relaxedAutoImplicit false

namespace DoorAccess.Httpx

open ByteStream ByteStream.Reader

variable (cases : CaseTable)

/-! ### Headers -/

/-- The header lines from number `i` on, the first of which are in order, are cut off. -/
inductive HeadersCut : ℕ → HeaderScan → List UInt8 → Prop
  | here {i : ℕ} {scan : HeaderScan} {s : List UInt8} (h : CutOff MAX_REQUEST_LINE_BYTES s) :
      HeadersCut i scan s
  | next {i : ℕ} {scan scan' : HeaderScan} {s rest : List UInt8} {line : Text}
      (hline : Line MAX_REQUEST_LINE_BYTES s line rest) (hne : line ≠ [])
      (hscan : scan.line cases i line = .ok scan') (h : HeadersCut (i + 1) scan' rest) :
      HeadersCut i scan s

/-- The header lines from number `i` on are in order up to the empty line that ends them. -/
inductive HeadersEnd : ℕ → HeaderScan → List UInt8 → HeaderScan → List UInt8 → Prop
  | here {i : ℕ} {scan : HeaderScan} {s rest : List UInt8}
      (hline : Line MAX_REQUEST_LINE_BYTES s [] rest) : HeadersEnd i scan s scan rest
  | next {i : ℕ} {scan scan' final : HeaderScan} {s mid rest : List UInt8} {line : Text}
      (hline : Line MAX_REQUEST_LINE_BYTES s line mid) (hne : line ≠ [])
      (hscan : scan.line cases i line = .ok scan') (h : HeadersEnd (i + 1) scan' mid final rest) :
      HeadersEnd i scan s final rest

theorem HeaderScan.line_count {i : ℕ} {scan scan' : HeaderScan} {line : Text}
    (h : scan.line cases i line = .ok scan') : i < MAX_HEADER_COUNT := by
  simp only [HeaderScan.line] at h
  split_ifs at h with _ hi
  exact Nat.lt_of_not_le hi

theorem headerTurn_done {i : ℕ} (hi : i ≤ MAX_HEADER_COUNT) (scan : HeaderScan)
    {s rest : List UInt8} (hline : Line MAX_REQUEST_LINE_BYTES s [] rest) :
    (headerTurn cases (i, scan)).Yields s (.ok (.inr (scan.headers, scan.host)) rest) := by
  rw [headerTurn, if_neg (by omega), yields_bind_of_ok (readLine_of_line hline), if_pos rfl]
  exact (yields_pure _ _ _).mpr rfl

theorem headerTurn_next {i : ℕ} (hi : i ≤ MAX_HEADER_COUNT) {scan scan' : HeaderScan}
    {s rest : List UInt8} {line : Text} (hline : Line MAX_REQUEST_LINE_BYTES s line rest)
    (hne : line ≠ []) (hscan : scan.line cases i line = .ok scan') :
    (headerTurn cases (i, scan)).Yields s (.ok (.inl (i + 1, scan')) rest) := by
  rw [headerTurn, if_neg (by omega), yields_bind_of_ok (readLine_of_line hline), if_neg hne, hscan]
  exact (yields_bind_of_ok ((yields_pure _ _ _).mpr rfl) _ _).mpr ((yields_pure _ _ _).mpr rfl)

theorem headerTurn_ok {i : ℕ} {scan : HeaderScan} {s rest : List UInt8}
    {next : (ℕ × HeaderScan) ⊕ (Header × Text)}
    (h : (headerTurn cases (i, scan)).Yields s (.ok next rest)) :
    i ≤ MAX_HEADER_COUNT ∧ ∃ line, Line MAX_REQUEST_LINE_BYTES s line rest ∧
      ((line = [] ∧ next = .inr (scan.headers, scan.host)) ∨
        line ≠ [] ∧ ∃ scan', scan.line cases i line = .ok scan' ∧ next = .inl (i + 1, scan')) := by
  rw [headerTurn] at h
  split_ifs at h with hi
  · exact nomatch (yields_fail _ _ _).mp h
  · obtain ⟨line, mid, hline, h⟩ := (yields_bind_ok_iff _ _ _ _ _).mp h
    rw [readLine_ok_iff] at hline
    split_ifs at h with hnil
    · obtain ⟨rfl, rfl⟩ := Outcome.ok.inj ((yields_pure _ _ _).mp h)
      exact ⟨by omega, line, hline, Or.inl ⟨hnil, rfl⟩⟩
    · obtain ⟨scan', mid', hlift, h⟩ := (yields_bind_ok_iff _ _ _ _ _).mp h
      obtain ⟨rfl, rfl⟩ := Outcome.ok.inj ((yields_pure _ _ _).mp h)
      obtain ⟨hscan, rfl⟩ := (liftExcept_ok_iff _ _ _ _ _).mp hlift
      exact ⟨by omega, line, hline, Or.inr ⟨hnil, _, hscan, rfl⟩⟩

theorem returns_headerTurn_iff {i : ℕ} (hi : i ≤ MAX_HEADER_COUNT) (scan : HeaderScan)
    (s : List UInt8) :
    (headerTurn cases (i, scan)).Returns s ↔ ¬CutOff MAX_REQUEST_LINE_BYTES s := by
  rw [headerTurn, if_neg (by omega), returns_bind_iff, returns_readLine_iff]
  refine and_iff_left fun line rest _ ↦ ?_
  split_ifs
  · exact returns_pure _ _
  · rw [returns_bind_iff]
    exact ⟨returns_liftExcept _ _ _, fun _ _ _ ↦ returns_pure _ _⟩

theorem headerTurn_consumes (b b' : ℕ × HeaderScan) (s rest : List UInt8)
    (h : (headerTurn cases b).Yields s (.ok (.inl b') rest)) : rest.length < s.length := by
  obtain ⟨_, line, hline, _⟩ := headerTurn_ok cases h
  exact hline.length_lt

theorem stuck_headerTurn_iff {i : ℕ} (hi : i ≤ MAX_HEADER_COUNT) (scan : HeaderScan)
    (s : List UInt8) : Stuck (headerTurn cases) (i, scan) s ↔ HeadersCut cases i scan s := by
  constructor
  · intro h
    generalize hb : (i, scan) = b at h
    induction h generalizing i scan with
    | here hturn =>
      subst hb
      rw [returns_headerTurn_iff cases hi, not_not] at hturn
      exact .here hturn
    | next hturn _ ih =>
      subst hb
      obtain ⟨_, line, hline, ⟨_, h⟩ | ⟨hne, scan', hscan, h⟩⟩ := headerTurn_ok cases hturn
      · exact nomatch h
      · exact .next hline hne hscan
          (ih (HeaderScan.line_count cases hscan) scan' (Sum.inl.inj h).symm)
  · intro h
    induction h with
    | here hcut => exact .here fun h ↦ (returns_headerTurn_iff cases hi _ _).mp h hcut
    | next hline hne hscan _ ih =>
      exact .next (headerTurn_next cases hi hline hne hscan)
        (ih (HeaderScan.line_count cases hscan))

theorem returns_readHeaders_iff (s : List UInt8) :
    (readHeaders cases).Returns s ↔ ¬HeadersCut cases 0 .start s := by
  rw [readHeaders, returns_loop_iff _ (headerTurn_consumes cases),
    stuck_headerTurn_iff cases (Nat.zero_le _)]

theorem readHeaders_of_end {i : ℕ} {scan final : HeaderScan} {s rest : List UInt8}
    (h : HeadersEnd cases i scan s final rest) (hi : i ≤ MAX_HEADER_COUNT) :
    (loop (headerTurn cases) (i, scan)).Yields s (.ok (final.headers, final.host) rest) := by
  induction h with
  | here hline => exact yields_loop_of_done (headerTurn_done cases hi _ hline)
  | next hline hne hscan _ ih =>
    exact (yields_loop_of_next (headerTurn_next cases hi hline hne hscan) _).mpr
      (ih (HeaderScan.line_count cases hscan))

theorem readHeaders_ok_iff (s rest : List UInt8) (headers : Header) (host : Text) :
    (readHeaders cases).Yields s (.ok (headers, host) rest) ↔
      ∃ final : HeaderScan, HeadersEnd cases 0 .start s final rest ∧
        (headers, host) = (final.headers, final.host) := by
  constructor
  · intro h
    refine loop_induction (P := fun b s ↦ ∃ final : HeaderScan,
      HeadersEnd cases b.1 b.2 s final rest ∧ (headers, host) = (final.headers, final.host))
      ?_ ?_ h
    · rintro ⟨i, scan⟩ s hturn
      obtain ⟨_, line, hline, ⟨rfl, h⟩ | ⟨_, _, _, h⟩⟩ := headerTurn_ok cases hturn
      · exact ⟨scan, .here hline, Sum.inr.inj h⟩
      · exact nomatch h
    · rintro ⟨i, scan⟩ b' s mid hturn ⟨final, hend, heq⟩
      obtain ⟨_, line, hline, ⟨_, h⟩ | ⟨hne, scan', hscan, h⟩⟩ := headerTurn_ok cases hturn
      · exact nomatch h
      · obtain rfl := Sum.inl.inj h
        exact ⟨final, .next hline hne hscan hend, heq⟩
  · rintro ⟨final, hend, h⟩
    rw [h]
    exact readHeaders_of_end cases hend (Nat.zero_le _)

/-! ### Chunked bodies -/

/-- The trailer lines behind the last chunk are cut off. -/
inductive TrailerCut : List UInt8 → Prop
  | here {s : List UInt8} (h : CutOff MAX_REQUEST_LINE_BYTES s) : TrailerCut s
  | next {s rest : List UInt8} {line : Text} (hline : Line MAX_REQUEST_LINE_BYTES s line rest)
      (hne : line ≠ []) (h : TrailerCut rest) : TrailerCut s

/-- The chunks that come behind the first `total` bytes of a body, and are in order so far, are cut
off in the line of a size or in the trailer, or come to a size whose sum with the bytes before it is
no `i64`. -/
inductive ChunksCut : ℕ → List UInt8 → Prop
  | size {total : ℕ} {s : List UInt8} (h : CutOff CHUNK_LINE_BYTES s) : ChunksCut total s
  | trailer {total : ℕ} {s rest : List UInt8} {line : Text}
      (hline : Line CHUNK_LINE_BYTES s line rest) (hsize : chunkSize line = some 0)
      (h : TrailerCut rest) : ChunksCut total s
  | overflow {total : ℕ} {s rest : List UInt8} {line : Text} {size : ℤ}
      (hline : Line CHUNK_LINE_BYTES s line rest) (hsize : chunkSize line = some size)
      (hpos : 0 < size) (h : 9223372036854775807 < total + size) : ChunksCut total s
  | chunk {total : ℕ} {s data crlf rest : List UInt8} {line : Text}
      (hline : Line CHUNK_LINE_BYTES s line (data ++ crlf ++ rest))
      (hsize : chunkSize line = some (data.length : ℤ)) (hne : data ≠ [])
      (hfit : (total + data.length : ℤ) ≤ MAX_BODY_BYTES) (hcrlf : crlf.length = 2)
      (h : ChunksCut (total + data.length) rest) : ChunksCut total s

theorem trailerTurn_ok {s rest : List UInt8} {next : Unit ⊕ Unit}
    (h : (trailerTurn ()).Yields s (.ok next rest)) :
    ∃ line, Line MAX_REQUEST_LINE_BYTES s line rest ∧
      ((line = [] ∧ next = .inr ()) ∨ (line ≠ [] ∧ next = .inl ())) := by
  obtain ⟨line, mid, hline, h⟩ := (yields_bind_ok_iff _ _ _ _ _).mp h
  rw [yields_mapError_ok_iff, readLine_ok_iff] at hline
  split_ifs at h with hnil
  · obtain ⟨rfl, rfl⟩ := Outcome.ok.inj ((yields_pure _ _ _).mp h)
    exact ⟨line, hline, Or.inl ⟨hnil, rfl⟩⟩
  · obtain ⟨rfl, rfl⟩ := Outcome.ok.inj ((yields_pure _ _ _).mp h)
    exact ⟨line, hline, Or.inr ⟨hnil, rfl⟩⟩

theorem trailerTurn_of_line {s rest : List UInt8} {line : Text}
    (hline : Line MAX_REQUEST_LINE_BYTES s line rest) :
    (trailerTurn ()).Yields s (.ok (if line = [] then .inr () else .inl ()) rest) := by
  rw [trailerTurn,
    yields_bind_of_ok ((yields_mapError_ok_iff _ _ _ _ _).mpr (readLine_of_line hline))]
  split_ifs
  · exact (yields_pure _ _ _).mpr rfl
  · exact (yields_pure _ _ _).mpr rfl

theorem returns_trailerTurn_iff (u : Unit) (s : List UInt8) :
    (trailerTurn u).Returns s ↔ ¬CutOff MAX_REQUEST_LINE_BYTES s := by
  rw [trailerTurn, returns_bind_iff, returns_mapError_iff, returns_readLine_iff]
  refine and_iff_left fun line rest _ ↦ ?_
  split_ifs
  · exact returns_pure _ _
  · exact returns_pure _ _

theorem returns_trailer_iff (s : List UInt8) :
    (loop trailerTurn ()).Returns s ↔ ¬TrailerCut s := by
  have hconsumes (b b' : Unit) (s rest : List UInt8)
      (h : (trailerTurn b).Yields s (.ok (.inl b') rest)) : rest.length < s.length := by
    obtain ⟨line, hline, _⟩ := trailerTurn_ok h
    exact hline.length_lt
  rw [returns_loop_iff _ hconsumes, not_iff_not]
  constructor
  · intro h
    generalize hu : () = u at h
    induction h with
    | here hturn =>
      rw [returns_trailerTurn_iff, not_not] at hturn
      exact .here hturn
    | next hturn _ ih =>
      obtain ⟨line, hline, ⟨_, h⟩ | ⟨hne, _⟩⟩ := trailerTurn_ok hturn
      · exact nomatch h
      · exact .next hline hne (ih rfl)
  · intro h
    induction h with
    | here hcut => exact .here fun h ↦ (returns_trailerTurn_iff _ _).mp h hcut
    | next hline hne _ ih =>
      refine .next ?_ ih
      have hturn := trailerTurn_of_line hline
      rwa [if_neg hne] at hturn

theorem i64OfLength_of_le {n : ℕ} (hn : (n : ℤ) ≤ MAX_BODY_BYTES) : i64OfLength n = n := by
  rw [i64OfLength, if_pos]
  exact hn.trans (by decide)

/-- A size that neither ends the body nor is refused, and the chunk it announces. -/
theorem chunkTurn_next {buf s data crlf rest : List UInt8} {line : Text}
    (hline : Line CHUNK_LINE_BYTES s line (data ++ crlf ++ rest))
    (hsize : chunkSize line = some (data.length : ℤ)) (hne : data ≠ [])
    (hfit : (buf.length + data.length : ℤ) ≤ MAX_BODY_BYTES) (hcrlf : crlf.length = 2) :
    (chunkTurn buf).Yields s (.ok (.inl (buf ++ data)) rest) := by
  have hpos : 0 < data.length := List.length_pos_iff.mpr hne
  have hmax : MAX_BODY_BYTES = 1048576 := rfl
  have hlen := i64OfLength_of_le (n := buf.length) (by omega)
  rw [chunkTurn,
    yields_bind_of_ok ((yields_mapError_ok_iff _ _ _ _ _).mpr (readLine_of_line hline))]
  simp only [hsize, hlen]
  rw [if_neg (by omega), if_neg (by omega), if_neg (by omega), if_neg (by omega)]
  rw [Int.toNat_natCast, List.append_assoc,
    yields_bind_of_ok (yields_readExact_append _ data (crlf ++ rest)), ← hcrlf,
    yields_bind_of_ok (yields_readExact_append _ crlf rest), yields_pure]

theorem chunkTurn_ok {buf buf' s rest : List UInt8}
    (h : (chunkTurn buf).Yields s (.ok (.inl buf') rest)) :
    ∃ line data crlf, Line CHUNK_LINE_BYTES s line (data ++ crlf ++ rest) ∧
      chunkSize line = some (data.length : ℤ) ∧ data ≠ [] ∧
      i64OfLength buf.length + data.length ≤ MAX_BODY_BYTES ∧ crlf.length = 2 ∧
      buf' = buf ++ data := by
  obtain ⟨line, mid, hline, h⟩ := (yields_bind_ok_iff _ _ _ _ _).mp h
  rw [yields_mapError_ok_iff, readLine_ok_iff] at hline
  cases hsize : chunkSize line with
  | none =>
    simp only [hsize] at h
    exact nomatch (yields_fail _ _ _).mp h
  | some size =>
    simp only [hsize] at h
    split_ifs at h with hneg hzero hover hlong
    · exact nomatch (yields_fail _ _ _).mp h
    · obtain ⟨_, _, _, h⟩ := (yields_bind_ok_iff _ _ _ _ _).mp h
      exact nomatch (yields_pure _ _ _).mp h
    · exact nomatch (yields_abort _ _).mp h
    · exact nomatch (yields_fail _ _ _).mp h
    · obtain ⟨data, mid', hdata, hbreak⟩ := (yields_bind_ok_iff _ _ _ _ _).mp h
      obtain ⟨crlf, mid'', hcrlf, hlast⟩ := (yields_bind_ok_iff _ _ _ _ _).mp hbreak
      obtain ⟨hbuf', rfl⟩ := Outcome.ok.inj ((yields_pure _ _ _).mp hlast)
      obtain ⟨rfl, hlen⟩ := readExact_ok hdata
      obtain ⟨rfl, hlen'⟩ := readExact_ok hcrlf
      have hcast : (data.length : ℤ) = size := by omega
      refine ⟨line, data, crlf, by rwa [List.append_assoc], by rw [hcast, hsize], ?_, by omega,
        hlen', Sum.inl.inj hbuf'⟩
      rintro rfl
      exact hzero hcast.symm

theorem returns_chunkTurn_iff {buf : List UInt8} (hbuf : (buf.length : ℤ) ≤ MAX_BODY_BYTES)
    (s : List UInt8) :
    (chunkTurn buf).Returns s ↔ ¬CutOff CHUNK_LINE_BYTES s ∧
      ∀ line rest, Line CHUNK_LINE_BYTES s line rest → ∀ size, chunkSize line = some size →
        (size = 0 → ¬TrailerCut rest) ∧
        (0 < size → buf.length + size ≤ 9223372036854775807) := by
  rw [chunkTurn, returns_bind_iff, returns_mapError_iff, returns_readLine_iff]
  simp only [yields_mapError_ok_iff, readLine_ok_iff]
  refine and_congr_right fun _ ↦ forall_congr' fun line ↦ forall_congr' fun rest ↦
    imp_congr_right fun _ ↦ ?_
  cases hsize : chunkSize line with
  | none => simp
  | some size =>
    simp only [i64OfLength_of_le hbuf, Option.some.injEq, forall_eq']
    split_ifs with hneg hzero hover hlong
    · simp only [returns_fail, true_iff]
      exact ⟨fun h ↦ by omega, fun h ↦ by omega⟩
    · rw [returns_bind_iff, returns_trailer_iff]
      simp [hzero]
    · simp only [not_returns_abort, false_iff]
      intro h
      have := h.2 (by omega)
      omega
    · simp only [returns_fail, true_iff]
      exact ⟨fun h ↦ absurd h hzero, fun _ ↦ by omega⟩
    · simp only [returns_bind_iff, returns_readExact, returns_pure, implies_true, and_self,
        true_iff]
      exact ⟨fun h ↦ absurd h hzero, fun _ ↦ by omega⟩

theorem stuck_chunkTurn_iff {buf : List UInt8} (hbuf : (buf.length : ℤ) ≤ MAX_BODY_BYTES)
    (s : List UInt8) : Stuck chunkTurn buf s ↔ ChunksCut buf.length s := by
  constructor
  · intro h
    induction h with
    | here hturn =>
      rename_i buf s
      rw [returns_chunkTurn_iff hbuf] at hturn
      by_cases hcut : CutOff CHUNK_LINE_BYTES s
      · exact .size hcut
      · simp only [hcut, not_false_eq_true, true_and, not_forall] at hturn
        obtain ⟨line, rest, hline, size, hsize, hturn⟩ := hturn
        rw [not_and_or, Classical.not_imp, not_not, Classical.not_imp, not_le] at hturn
        rcases hturn with ⟨rfl, htrailer⟩ | ⟨hpos, hover⟩
        · exact .trailer hline hsize htrailer
        · exact .overflow hline hsize hpos hover
    | next hturn _ ih =>
      obtain ⟨line, data, crlf, hline, hsize, hne, hfit, hcrlf, rfl⟩ := chunkTurn_ok hturn
      rw [i64OfLength_of_le hbuf] at hfit
      rw [List.length_append] at ih
      exact .chunk hline hsize hne hfit hcrlf (ih (by rw [Nat.cast_add]; exact hfit))
  · intro h
    generalize htotal : buf.length = total at h
    induction h generalizing buf with
    | size hcut =>
      exact .here fun h ↦ ((returns_chunkTurn_iff hbuf _).mp h).1 hcut
    | trailer hline hsize htrailer =>
      refine .here fun h ↦ ?_
      exact (((returns_chunkTurn_iff hbuf _).mp h).2 _ _ hline _ hsize).1 rfl htrailer
    | overflow hline hsize hpos hover =>
      refine .here fun h ↦ ?_
      have := (((returns_chunkTurn_iff hbuf _).mp h).2 _ _ hline _ hsize).2 hpos
      omega
    | chunk hline hsize hne hfit hcrlf _ ih =>
      subst htotal
      refine .next (chunkTurn_next hline hsize hne hfit hcrlf) (ih ?_ List.length_append)
      rw [List.length_append, Nat.cast_add]
      exact hfit

theorem returns_readChunkedBody_iff (s : List UInt8) :
    readChunkedBody.Returns s ↔ ¬ChunksCut 0 s := by
  have hconsumes (b b' : List UInt8) (s rest : List UInt8)
      (h : (chunkTurn b).Yields s (.ok (.inl b') rest)) : rest.length < s.length := by
    obtain ⟨line, data, crlf, hline, _⟩ := chunkTurn_ok h
    have hlt := hline.length_lt
    simp only [List.length_append] at hlt
    omega
  rw [readChunkedBody, returns_loop_iff _ hconsumes, stuck_chunkTurn_iff (by decide)]
  rfl

/-! ### Requests and responses -/

/-- A request is cut off in its first line, or behind one in order in the headers. -/
def RequestCut (s : List UInt8) : Prop :=
  CutOff MAX_REQUEST_LINE_BYTES s ∨
    ∃ line rest accepted, Line MAX_REQUEST_LINE_BYTES s line rest ∧
      acceptRequestLine line = .ok accepted ∧ HeadersCut cases 0 .start rest

/-- A response is cut off in its first line, behind one in order in the headers, or behind these in
a chunked body. -/
def ResponseCut (s : List UInt8) : Prop :=
  CutOff MAX_REQUEST_LINE_BYTES s ∨
    ∃ line rest code, Line MAX_REQUEST_LINE_BYTES s line rest ∧ parseStatusLine line = .ok code ∧
      (HeadersCut cases 0 .start rest ∨
        ∃ final body te, HeadersEnd cases 0 .start rest final body ∧
          final.headers.get cases "Transfer-Encoding".toList = some te ∧
          eqIgnoreAsciiCase te "chunked".toList ∧ ChunksCut 0 body)

theorem returns_readBody (headers : Header) (s : List UInt8) :
    (readBody cases headers).Returns s := by
  rw [readBody]
  split
  · exact returns_pure _ _
  · simp only [returns_bind_iff, returns_liftExcept, true_and]
    intro n rest _
    split_ifs
    · exact returns_fail _ _
    · rw [returns_bind_iff]
      exact ⟨returns_readExact _ _ _, fun _ _ _ ↦ returns_pure _ _⟩
    · exact returns_pure _ _

theorem returns_readResponseBody_iff (headers : Header) (s : List UInt8) :
    (readResponseBody cases headers).Returns s ↔
      ¬∃ te, headers.get cases "Transfer-Encoding".toList = some te ∧
        eqIgnoreAsciiCase te "chunked".toList ∧ ChunksCut 0 s := by
  rw [readResponseBody]
  cases hte : headers.get cases "Transfer-Encoding".toList with
  | some te =>
    simp only
    split_ifs with hchunked
    · rw [returns_readChunkedBody_iff, not_iff_not]
      exact ⟨fun h ↦ ⟨te, rfl, hchunked, h⟩, fun ⟨_, _, _, h⟩ ↦ h⟩
    · exact iff_of_true (returns_pure _ _) fun ⟨_, hsome, h, _⟩ ↦
        hchunked (Option.some.inj hsome ▸ h)
  | none =>
    simp only [reduceCtorEq, false_and, exists_false, not_false_eq_true, iff_true]
    split
    · exact returns_pure _ _
    · split
      · exact returns_fail _ _
      · split_ifs
        · exact returns_fail _ _
        · exact returns_fail _ _
        · exact returns_readExact _ _ _

theorem returns_readRequest_iff (s : List UInt8) :
    (readRequest cases).Returns s ↔ ¬RequestCut cases s := by
  rw [readRequest, returns_bind_iff, returns_readLine_iff, RequestCut, not_or]
  refine and_congr_right fun _ ↦ ?_
  simp only [returns_bind_iff, returns_liftExcept, true_and, returns_readHeaders_iff,
    readLine_ok_iff, liftExcept_ok_iff]
  constructor
  · rintro h ⟨line, rest, accepted, hline, haccept, hcut⟩
    exact (h line rest hline accepted rest ⟨haccept, rfl⟩).1 hcut
  · rintro h line rest hline accepted _ ⟨haccept, rfl⟩
    refine ⟨fun hcut ↦ h ⟨line, rest, accepted, hline, haccept, hcut⟩, ?_⟩
    -- Behind the headers nothing is left that could fail to return.
    intro headers mid _ _ _ _
    refine ⟨returns_readBody cases headers.1 _, fun body last _ ↦ ?_⟩
    split_ifs
    · exact returns_fail _ _
    · exact returns_pure _ _

theorem returns_readResponse_iff (s : List UInt8) :
    (readResponse cases).Returns s ↔ ¬ResponseCut cases s := by
  rw [readResponse, returns_bind_iff, returns_mapError_iff, returns_readLine_iff, ResponseCut,
    not_or]
  refine and_congr_right fun _ ↦ ?_
  simp only [returns_bind_iff, returns_liftExcept, true_and, returns_mapError_iff,
    yields_mapError_ok_iff, returns_readHeaders_iff, readLine_ok_iff, liftExcept_ok_iff,
    returns_readResponseBody_iff, returns_pure, implies_true, and_true]
  constructor
  · rintro h ⟨line, rest, code, hline, hstatus, hcut | ⟨final, body, te, hend, hte, hcut⟩⟩
    · exact (h line rest hline code rest ⟨hstatus, rfl⟩).1 hcut
    · have hheaders := (readHeaders_ok_iff cases rest body final.headers final.host).mpr
        ⟨final, hend, rfl⟩
      exact (h line rest hline code rest ⟨hstatus, rfl⟩).2 _ body hheaders ⟨te, hte, hcut⟩
  · rintro h line rest hline code _ ⟨hstatus, rfl⟩
    refine ⟨fun hcut ↦ h ⟨line, rest, code, hline, hstatus, Or.inl hcut⟩, ?_⟩
    rintro ⟨headers, host⟩ body hheaders ⟨te, hte, hcut⟩
    obtain ⟨final, hend, heq⟩ := (readHeaders_ok_iff cases rest body headers host).mp hheaders
    obtain ⟨rfl, rfl⟩ := Prod.mk.inj heq
    exact h ⟨line, rest, code, hline, hstatus, Or.inr ⟨final, body, te, hend, hte, hcut⟩⟩

/-- The functions of the parser return on every stream but those that are cut off where they read a
line, and `read_chunked_body` also on no stream whose size lines come to a sum that is no `i64`. -/
theorem returns_iff_not_cut :
    (∀ limit s, (readLine limit).Returns s ↔ s = [] ∨ 10 ∈ s ∨ limit ≤ s.length) ∧
    (∀ s, (readRequest cases).Returns s ↔ ¬RequestCut cases s) ∧
    (∀ s, (readResponse cases).Returns s ↔ ¬ResponseCut cases s) ∧
    ∀ s, readChunkedBody.Returns s ↔ ¬ChunksCut 0 s := by
  refine ⟨fun limit s ↦ ?_, returns_readRequest_iff cases, returns_readResponse_iff cases,
    returns_readChunkedBody_iff⟩
  rw [returns_readLine_iff, CutOff, not_and_or, not_and_or, not_not, not_not, Nat.not_lt]

/-- A request of which only a part came before the peer closed its side. -/
theorem read_cut_request :
    (∀ n, (readLine MAX_REQUEST_LINE_BYTES).run n (Codec.ascii "GET / HTTP") = .running) ∧
    ¬(readLine MAX_REQUEST_LINE_BYTES).Returns (Codec.ascii "GET / HTTP") ∧
    ¬(readRequest .ascii).Returns (Codec.ascii "GET / HTTP") ∧
    ¬(readResponse .ascii).Returns (Codec.ascii "HTTP/1.1 2") ∧
    ¬readChunkedBody.Returns (Codec.ascii "4") := by
  have hrequest : CutOff MAX_REQUEST_LINE_BYTES (Codec.ascii "GET / HTTP") := by decide
  have hresponse : CutOff MAX_REQUEST_LINE_BYTES (Codec.ascii "HTTP/1.1 2") := by decide
  have hchunk : CutOff CHUNK_LINE_BYTES (Codec.ascii "4") := by decide
  refine ⟨readLine_of_cutOff hrequest, not_returns_of_cutOff hrequest, fun h ↦ ?_, fun h ↦ ?_,
    fun h ↦ ?_⟩
  · exact (returns_readRequest_iff _ _).mp h (Or.inl hrequest)
  · exact (returns_readResponse_iff _ _).mp h (Or.inl hresponse)
  · exact (returns_readChunkedBody_iff _).mp h (.size hchunk)

end DoorAccess.Httpx
