import DoorAccess.Httpx.CutOff

/-!
# What a peer can make the daemon hold

`read_line` compares the bytes it holds with its limit when `read_until` has come back, which has by
then appended everything up to the next line feed. `lineHolds_iff` says how much that is, and
`lineBounded_iff` on which streams the limit and the buffer of the reader bound it. The head of
a request is read line by line; where each of its lines is bounded, so is what has been taken of
the stream at any time, by the limits for the lines, their number and their total size.
-/

set_option autoImplicit false
set_option relaxedAutoImplicit false

namespace DoorAccess.Httpx

open ByteStream ByteStream.Reader

variable (cases : CaseTable) (cap : ℕ)

/-! ### One line -/

/-- A call of `read_until` by `read_line` leaves this number of bytes in its buffer. -/
def LineHolds (limit : ℕ) (s : List UInt8) (n : ℕ) : Prop :=
  ∃ buf s' got rest, Visits (lineTurn limit) ([], s) (buf, s') ∧
    (readUntil 10 : Reader ReadRequestError _).Yields s' (.ok got rest) ∧
    n = (buf ++ got).length

/-- The number of bytes up to the first line feed, which is one of them, or of all bytes. -/
def firstLineBytes (s : List UInt8) : ℕ :=
  match s.idxOf? 10 with
  | some i => i + 1
  | none => s.length

theorem firstLineBytes_line {raw : List UInt8} (hraw : 10 ∉ raw) (rest : List UInt8) :
    firstLineBytes (raw ++ 10 :: rest) = raw.length + 1 := by
  simp only [firstLineBytes, idxOf?_of_not_mem hraw rest]

theorem firstLineBytes_end {s : List UInt8} (hs : 10 ∉ s) : firstLineBytes s = s.length := by
  have hidx : s.idxOf? 10 = none := List.idxOf?_eq_none_iff.mpr hs
  simp only [firstLineBytes, hidx]

/-- A turn of the loop goes on only where the stream has ended without a line feed. -/
theorem lineTurn_next {limit : ℕ} {buf buf' s rest : List UInt8}
    (h : (lineTurn limit buf).Yields s (.ok (.inl buf') rest)) :
    10 ∉ s ∧ buf' = buf ++ s ∧ rest = [] := by
  rw [lineTurn] at h
  obtain ⟨got, mid, hgot, h⟩ := (yields_bind_ok_iff _ _ _ _ _).mp h
  simp only at h
  split_ifs at h with hempty hlong hlast hshort
  · cases (yields_fail _ _ _).mp h
  · cases (yields_fail _ _ _).mp h
  · cases (yields_pure _ _ _).mp h
  · cases (yields_fail _ _ _).mp h
  · obtain ⟨hbuf', rfl⟩ := Outcome.ok.inj ((yields_pure _ _ _).mp h)
    rcases exists_line_or s with ⟨raw, tail, hraw, rfl⟩ | hs
    · -- A whole line would have ended the loop.
      obtain ⟨rfl, -⟩ := Outcome.ok.inj (hgot.unique (yields_readUntil_stop hraw tail))
      rw [← List.append_assoc, List.getLast?_concat] at hlast
      exact absurd rfl hlast
    · obtain ⟨rfl, rfl⟩ := Outcome.ok.inj (hgot.unique (yields_readUntil_end hs))
      exact ⟨hs, Sum.inl.inj hbuf', rfl⟩

/-- The loop of `read_line` is at its first turn, or at one behind the end of the stream. -/
theorem visits_lineTurn {limit : ℕ} {s : List UInt8} {turn : List UInt8 × List UInt8}
    (h : Visits (lineTurn limit) ([], s) turn) : turn = ([], s) ∨ 10 ∉ s ∧ turn = (s, []) := by
  induction h with
  | refl => exact Or.inl rfl
  | @tail turn next _ hturn ih =>
    obtain ⟨hs, hbuf, hrest⟩ := lineTurn_next hturn
    have hnext : next = (turn.1 ++ turn.2, []) := Prod.ext hbuf hrest
    rcases ih with rfl | ⟨hs', rfl⟩
    · exact Or.inr ⟨hs, hnext⟩
    · rw [hnext, List.append_nil]
      exact Or.inr ⟨hs', rfl⟩

theorem lineHolds_iff (limit : ℕ) (s : List UInt8) (n : ℕ) :
    LineHolds limit s n ↔ n = firstLineBytes s := by
  constructor
  · rintro ⟨buf, s', got, rest, hvisit, hgot, rfl⟩
    rcases visits_lineTurn hvisit with hturn | ⟨hs, hturn⟩
    · obtain ⟨rfl, rfl⟩ := Prod.mk.inj hturn
      rcases exists_line_or s' with ⟨raw, tail, hraw, rfl⟩ | hs
      · obtain ⟨rfl, -⟩ := Outcome.ok.inj (hgot.unique (yields_readUntil_stop hraw tail))
        rw [firstLineBytes_line hraw, List.nil_append, List.length_append, List.length_singleton]
      · obtain ⟨rfl, -⟩ := Outcome.ok.inj (hgot.unique (yields_readUntil_end hs))
        rw [firstLineBytes_end hs, List.nil_append]
    · obtain ⟨rfl, rfl⟩ := Prod.mk.inj hturn
      obtain ⟨rfl, -⟩ :=
        Outcome.ok.inj (hgot.unique (yields_readUntil_end List.not_mem_nil))
      rw [firstLineBytes_end hs, List.append_nil]
  · rintro rfl
    rcases exists_line_or s with ⟨raw, tail, hraw, rfl⟩ | hs
    · refine ⟨[], _, _, _, .refl, yields_readUntil_stop hraw tail, ?_⟩
      rw [firstLineBytes_line hraw, List.nil_append, List.length_append, List.length_singleton]
    · refine ⟨[], _, _, _, .refl, yields_readUntil_end hs, ?_⟩
      rw [firstLineBytes_end hs, List.nil_append]

/-- `read_line` never holds more than its limit and one buffer of the reader. -/
def LineBounded (limit : ℕ) (s : List UInt8) : Prop :=
  ∀ n, LineHolds limit s n → n ≤ limit + cap

theorem lineBounded_iff (limit : ℕ) (s : List UInt8) :
    LineBounded cap limit s ↔ firstLineBytes s ≤ limit + cap := by
  simp only [LineBounded, lineHolds_iff, forall_eq]

/-! ### The head of a request -/

/-- The calls of `read_line` by which `read_request` reads a head, each by the number of lines and
of bytes that were taken before it and by the stream it starts from. -/
inductive HeadCall (s : List UInt8) : ℕ → ℕ → List UInt8 → Prop
  | requestLine : HeadCall s 0 0 s
  | header {rest s' : List UInt8} {line : Text} {accepted : Text × Text × Text} {i : ℕ}
      {scan : HeaderScan} (hline : Line MAX_REQUEST_LINE_BYTES s line rest)
      (haccept : acceptRequestLine line = .ok accepted)
      (hvisit : Visits (headerTurn cases) ((0, .start), rest) ((i, scan), s')) :
      HeadCall s (i + 1) (s.length - s'.length) s'

/-- The limits of `read_request` bound what it takes of a stream before it has the head or refuses
it: each line, all of them together, and their number. -/
structure HeadBounded (s : List UInt8) : Prop where
  line : ∀ {lines before s'}, HeadCall cases s lines before s' →
    LineBounded cap MAX_REQUEST_LINE_BYTES s'
  head : ∀ {lines before s' n}, HeadCall cases s lines before s' →
    LineHolds MAX_REQUEST_LINE_BYTES s' n →
    before + n ≤ MAX_REQUEST_LINE_BYTES + MAX_HEADER_BYTES + (MAX_REQUEST_LINE_BYTES + cap)
  count : ∀ {lines before s'}, HeadCall cases s lines before s' → lines ≤ MAX_HEADER_COUNT + 1

/-- Behind header lines in order there is one that is too long for the buffers. -/
inductive HeadersLong : ℕ → HeaderScan → List UInt8 → Prop
  | here {i : ℕ} {scan : HeaderScan} {s : List UInt8}
      (h : MAX_REQUEST_LINE_BYTES + cap < firstLineBytes s) : HeadersLong i scan s
  | next {i : ℕ} {scan scan' : HeaderScan} {s rest : List UInt8} {line : Text}
      (hline : Line MAX_REQUEST_LINE_BYTES s line rest) (hne : line ≠ [])
      (hscan : scan.line cases i line = .ok scan') (h : HeadersLong (i + 1) scan' rest) :
      HeadersLong i scan s

/-- The first line is too long for the buffers, or, behind one in order, a header line. -/
def HeadLong (s : List UInt8) : Prop :=
  MAX_REQUEST_LINE_BYTES + cap < firstLineBytes s ∨
    ∃ line rest accepted, Line MAX_REQUEST_LINE_BYTES s line rest ∧
      acceptRequestLine line = .ok accepted ∧ HeadersLong cases cap 0 .start rest

/-- The text of a line is no shorter than the line, but for the line break. -/
theorem length_le_lineText (raw : List UInt8) :
    (raw ++ [10]).length ≤ byteLength (lineText (raw ++ [10])) + 2 := by
  rw [lineText, byteLength]
  split_ifs with hcrlf hlf
  · have hle := Utf8.length_le_encode_decodeLossy
      ((raw ++ [10]).take ((raw ++ [10]).length - 2))
    rw [List.length_take] at hle
    omega
  · have hle := Utf8.length_le_encode_decodeLossy
      ((raw ++ [10]).take ((raw ++ [10]).length - 1))
    rw [List.length_take] at hle
    omega
  · exact absurd (List.getLast?_concat) hlf

theorem Line.length_le {limit : ℕ} {s rest : List UInt8} {line : Text}
    (h : Line limit s line rest) :
    s.length ≤ rest.length + (byteLength line + 2) ∧ s.length ≤ rest.length + limit := by
  obtain ⟨raw, _, hlimit, rfl, rfl⟩ := h
  have hle := length_le_lineText raw
  simp only [List.length_append, List.length_cons, List.length_nil] at hle ⊢
  omega

theorem HeaderScan.line_totalBytes {i : ℕ} {scan scan' : HeaderScan} {line : Text}
    (h : scan.line cases i line = .ok scan') :
    scan'.totalBytes = scan.totalBytes + (byteLength line + 2) ∧
      scan'.totalBytes ≤ MAX_HEADER_BYTES := by
  simp only [HeaderScan.line] at h
  split_ifs at h with hlong hcount
  split at h
  · cases h
  · cases h
  · obtain rfl := Except.ok.inj h
    exact ⟨rfl, not_lt.mp hlong⟩

/-- What the header lines that the loop has read so far come to. -/
structure HeadersRead (rest : List UInt8) (i : ℕ) (scan : HeaderScan) (s' : List UInt8) :
    Prop where
  count : i ≤ MAX_HEADER_COUNT
  total : scan.totalBytes ≤ MAX_HEADER_BYTES
  taken : rest.length ≤ s'.length + scan.totalBytes
  back : HeadersLong cases cap i scan s' → HeadersLong cases cap 0 .start rest

theorem visits_headerTurn {rest : List UInt8} {turn : (ℕ × HeaderScan) × List UInt8}
    (h : Visits (headerTurn cases) ((0, .start), rest) turn) :
    HeadersRead cases cap rest turn.1.1 turn.1.2 turn.2 := by
  induction h with
  | refl => exact ⟨Nat.zero_le _, Nat.zero_le _, Nat.le_refl _, id⟩
  | @tail turn next _ hturn ih =>
    obtain ⟨⟨i, scan⟩, s⟩ := turn
    obtain ⟨⟨i', scan''⟩, s'⟩ := next
    obtain ⟨_, line, hline, ⟨_, hnext⟩ | ⟨hne, scan', hscan, hnext⟩⟩ := headerTurn_ok cases hturn
    · exact nomatch hnext
    · obtain ⟨rfl, rfl⟩ := Prod.mk.inj (Sum.inl.inj hnext)
      obtain ⟨htotal, hmax⟩ := HeaderScan.line_totalBytes cases hscan
      have hcount := HeaderScan.line_count cases hscan
      have htaken := ih.taken
      have hlength := hline.length_le.1
      simp only at htaken hlength
      exact ⟨hcount, hmax, by simp only; omega,
        fun hlong ↦ ih.back (.next hline hne hscan hlong)⟩

/-- The line of every call is bounded in a head that is not too long. -/
theorem firstLineBytes_le_of_call {s s' : List UInt8} {lines before : ℕ}
    (h : HeadCall cases s lines before s') (hlong : ¬HeadLong cases cap s) :
    firstLineBytes s' ≤ MAX_REQUEST_LINE_BYTES + cap := by
  by_contra hover
  rw [not_le] at hover
  cases h with
  | requestLine => exact hlong (Or.inl hover)
  | header hline haccept hvisit =>
    have hback := (visits_headerTurn cases cap hvisit).back (.here hover)
    exact hlong (Or.inr ⟨_, _, _, hline, haccept, hback⟩)

/-- What was taken before a call, whatever the stream. -/
theorem before_le_of_call {s s' : List UInt8} {lines before : ℕ}
    (h : HeadCall cases s lines before s') :
    before ≤ MAX_REQUEST_LINE_BYTES + MAX_HEADER_BYTES ∧ lines ≤ MAX_HEADER_COUNT + 1 := by
  cases h with
  | requestLine => exact ⟨Nat.zero_le _, Nat.zero_le _⟩
  | header hline haccept hvisit =>
    have hread := visits_headerTurn cases 0 hvisit
    have hcount := hread.count
    have htotal := hread.total
    have htaken := hread.taken
    have hlength := hline.length_le.2
    simp only at hcount htotal htaken
    omega

/-- A header line that is too long is one that the loop comes to. -/
theorem exists_visit_of_long {i : ℕ} {scan : HeaderScan} {s : List UInt8}
    (h : HeadersLong cases cap i scan s) (hi : i ≤ MAX_HEADER_COUNT) :
    ∃ i' scan' s', Visits (headerTurn cases) ((i, scan), s) ((i', scan'), s') ∧
      MAX_REQUEST_LINE_BYTES + cap < firstLineBytes s' := by
  induction h with
  | here hover => exact ⟨_, _, _, .refl, hover⟩
  | next hline hne hscan _ ih =>
    obtain ⟨i', scan', s', hvisit, hover⟩ := ih (HeaderScan.line_count cases hscan)
    exact ⟨i', scan', s', .head (headerTurn_next cases hi hline hne hscan) hvisit, hover⟩

theorem headBounded_iff (s : List UInt8) : HeadBounded cases cap s ↔ ¬HeadLong cases cap s := by
  constructor
  · rintro h (hover | ⟨line, rest, accepted, hline, haccept, hlong⟩)
    · exact absurd ((lineBounded_iff _ _ _).mp (h.line .requestLine)) (not_le.mpr hover)
    · obtain ⟨i, scan, s', hvisit, hover⟩ :=
        exists_visit_of_long cases cap hlong (Nat.zero_le _)
      have hbounded := h.line (.header hline haccept hvisit)
      exact absurd ((lineBounded_iff _ _ _).mp hbounded) (not_le.mpr hover)
  · intro hlong
    refine ⟨fun hcall ↦ ?_, fun hcall hholds ↦ ?_, fun hcall ↦ (before_le_of_call cases hcall).2⟩
    · rw [lineBounded_iff]
      exact firstLineBytes_le_of_call cases cap hcall hlong
    · rw [(lineHolds_iff _ _ _).mp hholds]
      have hbefore := (before_le_of_call cases hcall).1
      have hbytes := firstLineBytes_le_of_call cases cap hcall hlong
      omega

/-- The limits bound what is held of exactly the streams whose lines end, with a line feed or with
the stream, within the limit and one buffer. -/
theorem held_bounded_iff :
    (∀ limit s, LineBounded cap limit s ↔ firstLineBytes s ≤ limit + cap) ∧
    ∀ s, HeadBounded cases cap s ↔ ¬HeadLong cases cap s :=
  ⟨lineBounded_iff cap, headBounded_iff cases cap⟩

/-- A stream without a line feed is held as a whole. -/
theorem lineHolds_replicate (limit n : ℕ) : LineHolds limit (List.replicate n 97) n := by
  have hs : (10 : UInt8) ∉ List.replicate n 97 := fun h ↦ nomatch List.eq_of_mem_replicate h
  rw [lineHolds_iff, firstLineBytes_end hs, List.length_replicate]

/-- A line of one byte more than the limit and the buffer, for the request line. -/
theorem endless_line_held :
    LineHolds MAX_REQUEST_LINE_BYTES (List.replicate 16385 97) 16385 ∧
    ¬LineBounded 8192 MAX_REQUEST_LINE_BYTES (List.replicate 16385 97) ∧
    ¬HeadBounded .ascii 8192 (List.replicate 16385 97) := by
  have hholds := lineHolds_replicate MAX_REQUEST_LINE_BYTES 16385
  have hline : ¬LineBounded 8192 MAX_REQUEST_LINE_BYTES (List.replicate 16385 97) :=
    fun h ↦ absurd (h _ hholds) (by decide)
  exact ⟨hholds, hline, fun h ↦ hline (h.line .requestLine)⟩

end DoorAccess.Httpx
