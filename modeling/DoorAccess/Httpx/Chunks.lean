import DoorAccess.Httpx.CutOff

/-!
# The arithmetic of a chunked body

`read_chunked_body` adds the size of each chunk, which is any `i64` the peer writes, to the bytes
read so far, and allocates a buffer of that size if the sum is small enough. The sum is evaluated
before it is compared, so that its own overflow escapes the comparison: without overflow checks it
wraps to a negative number. `readChunkedBody_sound_iff` is the exact condition on the stream under
which no sum overflows, no buffer is larger than `MAX_BODY_BYTES`, and the body that is returned is
the chunks of the stream one behind the other.
-/

set_option autoImplicit false
set_option relaxedAutoImplicit false

namespace DoorAccess.Httpx

open ByteStream ByteStream.Reader

/-! ### What a turn adds and allocates -/

/-- The value of `a + b` on `i64` in a build without overflow checks. -/
def wrappingAdd (a b : ℤ) : ℤ :=
  (a + b).bmod 18446744073709551616

/-- The two numbers that a turn of `read_chunked_body` adds behind the line of a size. -/
def chunkSum (buf : List UInt8) (line : Text) : Option (ℤ × ℤ) :=
  match chunkSize line with
  | none => none
  | some size => if 0 < size then some (i64OfLength buf.length, size) else none

/-- The size of the buffer that the turn allocates, in a build without overflow checks. -/
def chunkBuffer (buf : List UInt8) (line : Text) : Option ℤ :=
  match chunkSum buf line with
  | none => none
  | some (total, size) => if MAX_BODY_BYTES < wrappingAdd total size then none else some size

theorem chunkSum_eq_some_iff {buf : List UInt8} {line : Text} {total size : ℤ} :
    chunkSum buf line = some (total, size) ↔
      chunkSize line = some size ∧ 0 < size ∧ i64OfLength buf.length = total := by
  rw [chunkSum]
  cases chunkSize line with
  | none => simp
  | some size' =>
    simp only
    split_ifs with hpos
    · simp only [Option.some.injEq, Prod.mk.injEq]
      constructor
      · rintro ⟨rfl, rfl⟩
        exact ⟨rfl, hpos, rfl⟩
      · rintro ⟨rfl, -, rfl⟩
        exact ⟨rfl, rfl⟩
    · simp only [Option.some.injEq, false_iff, not_and]
      rintro rfl h
      exact absurd h hpos

theorem chunkBuffer_eq_some_iff {buf : List UInt8} {line : Text} {size : ℤ} :
    chunkBuffer buf line = some size ↔
      ∃ total, chunkSum buf line = some (total, size) ∧
        wrappingAdd total size ≤ MAX_BODY_BYTES := by
  rw [chunkBuffer]
  cases chunkSum buf line with
  | none => simp
  | some sum =>
    obtain ⟨total, size'⟩ := sum
    simp only [Option.some.injEq, Prod.mk.injEq]
    split_ifs with hlong
    · simp only [false_iff, not_exists, not_and]
      rintro _ ⟨rfl, rfl⟩
      exact not_le.mpr hlong
    · rw [Option.some.injEq]
      constructor
      · rintro rfl
        exact ⟨total, ⟨rfl, rfl⟩, not_lt.mp hlong⟩
      · rintro ⟨_, ⟨_, rfl⟩, _⟩
        rfl

/-- The sum is exact where it is an `i64`. -/
theorem wrappingAdd_of_le {a b : ℤ} (ha : 0 ≤ a) (hb : 0 ≤ b) (h : a + b ≤ 9223372036854775807) :
    wrappingAdd a b = a + b := by
  rw [wrappingAdd]
  exact Int.bmod_eq_of_le (by omega) (by omega)

/-! ### Chunk streams -/

/-- The lines of a trailer up to the empty one that ends it. -/
inductive TrailerEnd : List UInt8 → List UInt8 → Prop
  | here {s rest : List UInt8} (hline : Line MAX_REQUEST_LINE_BYTES s [] rest) : TrailerEnd s rest
  | next {s mid rest : List UInt8} {line : Text} (hline : Line MAX_REQUEST_LINE_BYTES s line mid)
      (hne : line ≠ []) (h : TrailerEnd mid rest) : TrailerEnd s rest

/-- The stream is made of chunks with these contents, the last chunk and a trailer. -/
inductive ChunkStream : List UInt8 → List (List UInt8) → List UInt8 → Prop
  | last {s mid rest : List UInt8} {line : Text} (hline : Line CHUNK_LINE_BYTES s line mid)
      (hsize : chunkSize line = some 0) (htrailer : TrailerEnd mid rest) : ChunkStream s [] rest
  | chunk {s data crlf mid rest : List UInt8} {line : Text} {chunks : List (List UInt8)}
      (hline : Line CHUNK_LINE_BYTES s line (data ++ crlf ++ mid))
      (hsize : chunkSize line = some (data.length : ℤ)) (hne : data ≠ []) (hcrlf : crlf.length = 2)
      (h : ChunkStream mid chunks rest) : ChunkStream s (data :: chunks) rest

theorem trailerEnd_of_ok {s rest : List UInt8}
    (h : (loop trailerTurn ()).Yields s (.ok () rest)) : TrailerEnd s rest := by
  refine loop_induction (P := fun _ s ↦ TrailerEnd s rest) ?_ ?_ h
  · intro _ s hturn
    obtain ⟨line, hline, ⟨rfl, _⟩ | ⟨_, hnext⟩⟩ := trailerTurn_ok hturn
    · exact .here hline
    · exact nomatch hnext
  · intro _ _ s mid hturn htrailer
    obtain ⟨line, hline, ⟨_, hnext⟩ | ⟨hne, _⟩⟩ := trailerTurn_ok hturn
    · exact nomatch hnext
    · exact .next hline hne htrailer

/-- The turn that ends the body returns what was read before it. -/
theorem chunkTurn_done {buf body s rest : List UInt8}
    (h : (chunkTurn buf).Yields s (.ok (.inr body) rest)) :
    body = buf ∧ ChunkStream s [] rest := by
  obtain ⟨line, mid, hline, h⟩ := (yields_bind_ok_iff _ _ _ _ _).mp h
  rw [yields_mapError_ok_iff, readLine_ok_iff] at hline
  cases hsize : chunkSize line with
  | none =>
    simp only [hsize] at h
    exact nomatch (yields_fail _ _ _).mp h
  | some size =>
    simp only [hsize] at h
    split_ifs at h with hneg hzero hover hlong
    · exact nomatch (yields_fail _ _ _).mp h
    · obtain ⟨_, mid', htrailer, h⟩ := (yields_bind_ok_iff _ _ _ _ _).mp h
      obtain ⟨hbody, rfl⟩ := Outcome.ok.inj ((yields_pure _ _ _).mp h)
      exact ⟨Sum.inr.inj hbody, .last hline (hzero ▸ hsize) (trailerEnd_of_ok htrailer)⟩
    · exact nomatch (yields_abort _ _).mp h
    · exact nomatch (yields_fail _ _ _).mp h
    · obtain ⟨_, _, _, hbreak⟩ := (yields_bind_ok_iff _ _ _ _ _).mp h
      obtain ⟨_, _, _, hlast⟩ := (yields_bind_ok_iff _ _ _ _ _).mp hbreak
      exact nomatch (yields_pure _ _ _).mp hlast

/-! ### The turns of the loop -/

/-- At every turn the loop comes to, the body read so far is within the limit, and a stream that is
cut from there on is cut from the start. -/
theorem visits_chunkTurn {s : List UInt8} {turn : List UInt8 × List UInt8}
    (h : Visits chunkTurn ([], s) turn) :
    (turn.1.length : ℤ) ≤ MAX_BODY_BYTES ∧ (ChunksCut turn.1.length turn.2 → ChunksCut 0 s) := by
  induction h with
  | refl =>
    have hnil : (([] : List UInt8).length : ℤ) ≤ MAX_BODY_BYTES := by decide
    exact ⟨hnil, id⟩
  | tail _ hturn ih =>
    obtain ⟨hbuf, hback⟩ := ih
    obtain ⟨line, data, crlf, hline, hsize, hne, hfit, hcrlf, heq⟩ := chunkTurn_ok hturn
    rw [i64OfLength_of_le hbuf] at hfit
    rw [heq, List.length_append, Nat.cast_add]
    exact ⟨hfit, fun hcut ↦ hback (.chunk hline hsize hne hfit hcrlf hcut)⟩

/-- What a run from a turn returns is the body read so far and the chunks from there on. -/
theorem chunks_of_ok {buf body s rest : List UInt8}
    (h : (loop chunkTurn buf).Yields s (.ok body rest)) (hbuf : (buf.length : ℤ) ≤ MAX_BODY_BYTES) :
    (body.length : ℤ) ≤ MAX_BODY_BYTES ∧
      ∃ chunks, ChunkStream s chunks rest ∧ body = buf ++ chunks.flatten := by
  refine loop_induction (P := fun buf s ↦ (buf.length : ℤ) ≤ MAX_BODY_BYTES →
    (body.length : ℤ) ≤ MAX_BODY_BYTES ∧
      ∃ chunks, ChunkStream s chunks rest ∧ body = buf ++ chunks.flatten) ?_ ?_ h hbuf
  · intro buf s hturn hbuf
    obtain ⟨rfl, hstream⟩ := chunkTurn_done hturn
    exact ⟨hbuf, [], hstream, (List.append_nil _).symm⟩
  · intro buf buf' s mid hturn ih hbuf
    obtain ⟨line, data, crlf, hline, hsize, hne, hfit, hcrlf, rfl⟩ := chunkTurn_ok hturn
    rw [i64OfLength_of_le hbuf, ← Nat.cast_add, ← List.length_append] at hfit
    obtain ⟨hbody, chunks, hstream, heq⟩ := ih hfit
    refine ⟨hbody, data :: chunks, .chunk hline hsize hne hcrlf hstream, ?_⟩
    rw [heq, List.flatten_cons, List.append_assoc]

/-! ### The whole body -/

/-- What is asked of `read_chunked_body` on a stream. -/
structure ChunksSound (s : List UInt8) : Prop where
  /-- No sum that it evaluates overflows. -/
  sums : ∀ {buf s' rest line total size}, Visits chunkTurn ([], s) (buf, s') →
    Line CHUNK_LINE_BYTES s' line rest → chunkSum buf line = some (total, size) →
    -9223372036854775808 ≤ total + size ∧ total + size ≤ 9223372036854775807
  /-- No buffer that it allocates is larger than a body may be. -/
  buffers : ∀ {buf s' rest line size}, Visits chunkTurn ([], s) (buf, s') →
    Line CHUNK_LINE_BYTES s' line rest → chunkBuffer buf line = some size → size ≤ MAX_BODY_BYTES
  /-- It returns an error, or the contents of the chunks within the limit. -/
  result : (∃ e, readChunkedBody.Yields s (.error e)) ∨
    ∃ body rest, readChunkedBody.Yields s (.ok body rest) ∧
      (body.length : ℤ) ≤ MAX_BODY_BYTES ∧
      ∃ chunks, ChunkStream s chunks rest ∧ body = chunks.flatten

theorem sum_le_of_not_cut {s buf s' rest : List UInt8} {line : Text} {total size : ℤ}
    (hcut : ¬ChunksCut 0 s) (hvisit : Visits chunkTurn ([], s) (buf, s'))
    (hline : Line CHUNK_LINE_BYTES s' line rest) (hsum : chunkSum buf line = some (total, size)) :
    0 ≤ total ∧ 0 < size ∧ total + size ≤ 9223372036854775807 := by
  obtain ⟨hsize, hpos, rfl⟩ := chunkSum_eq_some_iff.mp hsum
  obtain ⟨hbuf, hback⟩ := visits_chunkTurn hvisit
  rw [i64OfLength_of_le hbuf]
  refine ⟨Int.natCast_nonneg _, hpos, ?_⟩
  by_contra hover
  exact hcut (hback (.overflow hline hsize hpos (not_le.mp hover)))

/-- `read_chunked_body` is sound on exactly the streams that neither come to a size whose sum with
the bytes before it is no `i64` nor end within one of the lines it reads. -/
theorem readChunkedBody_sound_iff (s : List UInt8) : ChunksSound s ↔ ¬ChunksCut 0 s := by
  constructor
  · intro h
    rw [← returns_readChunkedBody_iff]
    obtain ⟨e, he⟩ | ⟨body, rest, hbody, -⟩ := h.result
    · exact .of_error he
    · exact .of_ok hbody
  · intro hcut
    refine ⟨fun hvisit hline hsum ↦ ?_, fun hvisit hline hbuffer ↦ ?_, ?_⟩
    · have := sum_le_of_not_cut hcut hvisit hline hsum
      omega
    · obtain ⟨total, hsum, hle⟩ := chunkBuffer_eq_some_iff.mp hbuffer
      obtain ⟨htotal, hpos, hfit⟩ := sum_le_of_not_cut hcut hvisit hline hsum
      rw [wrappingAdd_of_le htotal hpos.le hfit] at hle
      omega
    · obtain ⟨body, rest, hbody⟩ | ⟨e, he⟩ := (returns_readChunkedBody_iff s).mpr hcut
      · obtain ⟨hle, chunks, hstream, heq⟩ := chunks_of_ok hbody (by decide)
        exact Or.inr ⟨body, rest, hbody, hle, chunks, hstream, heq⟩
      · exact Or.inl ⟨e, he⟩

/-- A chunk of one byte, and the largest size that a line can give. -/
def overflowingChunks : List UInt8 :=
  Codec.ascii "1\r\na\r\n7fffffffffffffff\r\n"

/-- The sum of the two sizes overflows, and a buffer of the second size is allocated where it
wraps. -/
theorem overflowingChunks_not_sound :
    (∃ buf s' line rest, Visits chunkTurn ([], overflowingChunks) (buf, s') ∧
      Line CHUNK_LINE_BYTES s' line rest ∧ chunkSum buf line = some (1, 9223372036854775807) ∧
      chunkBuffer buf line = some 9223372036854775807) ∧
    ¬ChunksSound overflowingChunks := by
  have hfirst : Line CHUNK_LINE_BYTES overflowingChunks ['1']
      ([97] ++ [13, 10] ++ Codec.ascii "7fffffffffffffff\r\n") :=
    ⟨[49, 13], by decide, by decide, by decide, by decide⟩
  have hturn : (chunkTurn []).Yields overflowingChunks
      (.ok (.inl [97]) (Codec.ascii "7fffffffffffffff\r\n")) :=
    chunkTurn_next hfirst (by decide) (by decide) (by decide) rfl
  have hvisit : Visits chunkTurn ([], overflowingChunks)
      ([97], Codec.ascii "7fffffffffffffff\r\n") :=
    .single hturn
  have hsecond : Line CHUNK_LINE_BYTES (Codec.ascii "7fffffffffffffff\r\n")
      "7fffffffffffffff".toList [] :=
    ⟨Codec.ascii "7fffffffffffffff\r", by decide, by decide, by decide, by decide⟩
  have hsum : chunkSum [97] "7fffffffffffffff".toList = some (1, 9223372036854775807) := by decide
  refine ⟨⟨_, _, _, _, hvisit, hsecond, hsum, by decide⟩, fun h ↦ ?_⟩
  exact absurd (h.sums hvisit hsecond hsum).2 (by decide)

end DoorAccess.Httpx
