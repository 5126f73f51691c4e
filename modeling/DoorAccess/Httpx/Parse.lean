import DoorAccess.Automation.State
import DoorAccess.Codec
import DoorAccess.Httpx.Header
import DoorAccess.Lib.ByteStream
import DoorAccess.Lib.Radix
import DoorAccess.Lib.Utf8

/-!
# The HTTP/1.1 parser

`read_request` and `read_response` read a message from a connection line by line. The connection is
here a finite stream at whose end every further read returns no bytes, as that of a peer which has
closed its side is for a server without read deadlines.

A line that the end of the stream cuts off is no line to `read_line`, and as long as it is shorter
than the limit no error either: the loop reads on and gets nothing, forever.
-/

set_option autoImplicit false
set_option relaxedAutoImplicit false

namespace DoorAccess.Httpx

open AutomationState (trim)
open Codec (isDigit digitsValue hexNibble parseI64)
open ByteStream ByteStream.Reader

def MAX_REQUEST_LINE_BYTES : ℕ := 8 * 1024
def MAX_HEADER_BYTES : ℕ := 16 * 1024
def MAX_HEADER_COUNT : ℕ := 64
def MAX_BODY_BYTES : ℤ := 1048576

/-- The limit that `read_chunked_body` puts on the line of a chunk size. -/
def CHUNK_LINE_BYTES : ℕ := 256

/-- `ReadRequestError`, without the errors of the connection itself. -/
inductive ReadRequestError
  | protocol (e : HttpProtocolError)
  | eof
  deriving DecidableEq

/-! ### Text -/

/-- `str::len`. -/
def byteLength (s : Text) : ℕ :=
  (Utf8.encode s).length

def natText (n : ℕ) : Text :=
  Utf8.ofAscii (Radix.text 10 n)

def intText (n : ℤ) : Text :=
  (if n < 0 then ['-'] else []) ++ natText n.natAbs

/-- `str::eq_ignore_ascii_case`. -/
def eqIgnoreAsciiCase (a b : Text) : Bool :=
  a.map Char.toLower == b.map Char.toLower

/-- `str::splitn`. -/
def splitn : ℕ → Char → Text → List Text
  | 0, _, _ => []
  | 1, _, s => [s]
  | n + 2, c, s =>
    match s.idxOf? c with
    | some i => s.take i :: splitn (n + 1) c (s.drop (i + 1))
    | none => [s]

/-- `str::parse::<u16>`: an optional plus, then at least one decimal digit, in the range of
`u16`. -/
def parseU16 (s : Str) : Option ℕ :=
  let digits := match s with
    | 43 :: rest => rest
    | rest => rest
  if digits ≠ [] ∧ digits.all isDigit ∧ digitsValue digits ≤ 65535 then some (digitsValue digits)
  else none

theorem parseU16_of_digits {s : Str} (hne : s ≠ []) (h : ∀ c ∈ s, isDigit c = true)
    (hmax : digitsValue s ≤ 65535) : parseU16 s = some (digitsValue s) := by
  cases s with
  | nil => exact absurd rfl hne
  | cons c s =>
    have hc : c ≠ 43 := by
      rintro rfl
      exact absurd (h 43 List.mem_cons_self) (by decide)
    have hall : (c :: s).all isDigit = true := List.all_eq_true.mpr h
    simp [parseU16, hc, hall, hmax]

/-- `i64::from_str_radix` in base 16: an optional sign, then at least one digit, in the range of
`i64`. -/
def parseI64Hex (s : Str) : Option ℤ :=
  let (negative, digits) := match s with
    | 43 :: rest => (false, rest)
    | 45 :: rest => (true, rest)
    | rest => (false, rest)
  if digits ≠ [] ∧ digits.all fun c ↦ (hexNibble c).isSome then
    let value : ℤ := if negative then -(Radix.value 16 digits : ℤ) else Radix.value 16 digits
    if -9223372036854775808 ≤ value ∧ value ≤ 9223372036854775807 then some value else none
  else none

theorem parseI64Hex_of_digits {s : Str} (hne : s ≠ [])
    (h : ∀ c ∈ s, (hexNibble c).isSome = true) (hmax : Radix.value 16 s ≤ 9223372036854775807) :
    parseI64Hex s = some (Radix.value 16 s : ℤ) := by
  cases s with
  | nil => exact absurd rfl hne
  | cons c s =>
    have hplus : c ≠ 43 := by
      rintro rfl
      exact absurd (h 43 List.mem_cons_self) (by decide)
    have hminus : c ≠ 45 := by
      rintro rfl
      exact absurd (h 45 List.mem_cons_self) (by decide)
    have hall : ((c :: s).all fun c ↦ (hexNibble c).isSome) = true := List.all_eq_true.mpr h
    have hlo : -9223372036854775808 ≤ (Radix.value 16 (c :: s) : ℤ) := by omega
    have hhi : (Radix.value 16 (c :: s) : ℤ) ≤ 9223372036854775807 := by omega
    simp [parseI64Hex, hplus, hminus, hall, hlo, hhi]

/-! ### Lines -/

/-- One turn of the loop of `read_line`, which goes on with the bytes read so far. -/
def lineTurn (limit : ℕ) (buf : List UInt8) :
    Reader ReadRequestError (List UInt8 ⊕ List UInt8) := do
  let got ← readUntil 10
  let buf := buf ++ got
  if got.length = 0 ∧ buf = [] then fail .eof
  else if limit < buf.length then
    fail (.protocol ⟨414, "line ".toList ++ natText buf.length ++ " bytes exceeds ".toList ++
      natText limit ++ " max".toList⟩)
  else if buf.getLast? = some 10 then return .inr buf
  else if limit ≤ buf.length then fail (.protocol ⟨414, "line exceeds bufio buffer".toList⟩)
  else return .inl buf

/-- The text of a line without the line break. -/
def lineText (buf : List UInt8) : Text :=
  if 2 ≤ buf.length ∧ buf[buf.length - 2]? = some 13 ∧ buf[buf.length - 1]? = some 10 then
    Utf8.decodeLossy (buf.take (buf.length - 2))
  else if buf.getLast? = some 10 then Utf8.decodeLossy (buf.take (buf.length - 1))
  else Utf8.decodeLossy buf

def readLine (limit : ℕ) : Reader ReadRequestError Text := do
  let buf ← loop (lineTurn limit) []
  return lineText buf

/-- The stream starts with a line that the limit lets pass. -/
def Line (limit : ℕ) (s : List UInt8) (line : Text) (rest : List UInt8) : Prop :=
  ∃ raw, 10 ∉ raw ∧ raw.length < limit ∧ s = raw ++ 10 :: rest ∧ line = lineText (raw ++ [10])

/-- The stream ends within a line that is shorter than the limit. -/
def CutOff (limit : ℕ) (s : List UInt8) : Prop :=
  s ≠ [] ∧ 10 ∉ s ∧ s.length < limit

instance (limit : ℕ) (s : List UInt8) : Decidable (CutOff limit s) :=
  inferInstanceAs (Decidable (_ ∧ _))

theorem Line.length_lt {limit : ℕ} {s rest : List UInt8} {line : Text}
    (h : Line limit s line rest) : rest.length < s.length := by
  obtain ⟨raw, _, _, rfl, _⟩ := h
  rw [List.length_append, List.length_cons]
  omega

/-- A stream starts with a whole line or is one without its end. -/
theorem exists_line_or (s : List UInt8) :
    (∃ raw rest, 10 ∉ raw ∧ s = raw ++ 10 :: rest) ∨ 10 ∉ s := by
  induction s with
  | nil => exact Or.inr List.not_mem_nil
  | cons c s ih =>
    by_cases hc : c = 10
    · exact Or.inl ⟨[], s, List.not_mem_nil, by rw [hc, List.nil_append]⟩
    · rcases ih with ⟨raw, rest, hraw, rfl⟩ | hs
      · refine Or.inl ⟨c :: raw, rest, ?_, rfl⟩
        rw [List.mem_cons, not_or]
        exact ⟨Ne.symm hc, hraw⟩
      · rw [List.mem_cons, not_or]
        exact Or.inr ⟨Ne.symm hc, hs⟩

/-- The first turn takes a whole line. -/
theorem lineTurn_line (limit : ℕ) {raw : List UInt8} (hraw : 10 ∉ raw) (rest : List UInt8)
    (o : Outcome ReadRequestError (List UInt8 ⊕ List UInt8)) :
    (lineTurn limit []).Yields (raw ++ 10 :: rest) o ↔
      (if limit < raw.length + 1 then
        fail (.protocol ⟨414, "line ".toList ++ natText (raw.length + 1) ++
          " bytes exceeds ".toList ++ natText limit ++ " max".toList⟩)
      else pure (.inr (raw ++ [10]))).Yields rest o := by
  rw [lineTurn, yields_bind_of_ok (yields_readUntil_stop hraw rest)]
  simp

/-- A turn on a stream without a line break takes what is left of it. -/
theorem lineTurn_end (limit : ℕ) (buf : List UInt8) {s : List UInt8} (hs : 10 ∉ s)
    (hbuf : 10 ∉ buf) (hlimit : (buf ++ s).length < limit) (hne : buf ++ s ≠ []) :
    (lineTurn limit buf).Yields s (.ok (.inl (buf ++ s)) []) := by
  rw [lineTurn, yields_bind_of_ok (yields_readUntil_end hs)]
  have hlast : (buf ++ s).getLast? ≠ some 10 := by
    intro h
    rcases List.mem_append.mp (List.mem_of_getLast? h) with h | h
    · exact hbuf h
    · exact hs h
  rw [if_neg (fun h ↦ hne h.2), if_neg (by omega), if_neg hlast, if_neg (by omega)]
  exact (yields_pure _ _ _).mpr rfl

theorem readLine_of_line {limit : ℕ} {s rest : List UInt8} {line : Text}
    (h : Line limit s line rest) : (readLine limit).Yields s (.ok line rest) := by
  obtain ⟨raw, hraw, hlimit, rfl, rfl⟩ := h
  have hturn : (lineTurn limit []).Yields (raw ++ 10 :: rest) (.ok (.inr (raw ++ [10])) rest) := by
    rw [lineTurn_line limit hraw, if_neg (by omega), yields_pure]
  rw [readLine, yields_bind_of_ok (yields_loop_of_done hturn), yields_pure]

theorem readLine_of_long {limit : ℕ} {raw : List UInt8} (hraw : 10 ∉ raw) (rest : List UInt8)
    (hlimit : limit < raw.length + 1) :
    ∃ e, (readLine limit).Yields (raw ++ 10 :: rest) (.error e) := by
  have hturn : ∃ e, (lineTurn limit []).Yields (raw ++ 10 :: rest) (.error e) := by
    simp only [lineTurn_line limit hraw, if_pos hlimit]
    exact ⟨_, (yields_fail _ _ _).mpr rfl⟩
  obtain ⟨e, he⟩ := hturn
  exact ⟨e, yields_bind_of_error (yields_loop_of_error he) _⟩

theorem readLine_of_end {limit : ℕ} {s : List UInt8} (hs : 10 ∉ s)
    (h : s = [] ∨ limit ≤ s.length) : ∃ e, (readLine limit).Yields s (.error e) := by
  have hturn : ∃ e, (lineTurn limit []).Yields s (.error e) := by
    have hlast : s.getLast? ≠ some 10 := fun h ↦ hs (List.mem_of_getLast? h)
    simp only [lineTurn, yields_bind_of_ok (yields_readUntil_end hs), List.nil_append]
    by_cases hnil : s = []
    · have hempty : s.length = 0 ∧ s = [] := ⟨by rw [hnil]; rfl, hnil⟩
      simp only [if_pos hempty]
      exact ⟨_, (yields_fail _ _ _).mpr rfl⟩
    · have hempty : ¬(s.length = 0 ∧ s = []) := fun h ↦ hnil h.2
      by_cases hlong : limit < s.length
      · simp only [if_neg hempty, if_pos hlong]
        exact ⟨_, (yields_fail _ _ _).mpr rfl⟩
      · simp only [if_neg hempty, if_neg hlong, if_neg hlast, if_pos (h.resolve_left hnil)]
        exact ⟨_, (yields_fail _ _ _).mpr rfl⟩
  obtain ⟨e, he⟩ := hturn
  exact ⟨e, yields_bind_of_error (yields_loop_of_error he) _⟩

/-- The loop never leaves a line that is cut off. -/
theorem readLine_of_cutOff {limit : ℕ} {s : List UInt8} (h : CutOff limit s) (n : ℕ) :
    (readLine limit).run n s = .running := by
  obtain ⟨hne, hs, hlimit⟩ := h
  have hloop : (loop (lineTurn limit) []).run n s = .running := by
    refine run_loop_of_invariant _
      (fun buf s ↦ 10 ∉ buf ∧ 10 ∉ s ∧ (buf ++ s).length < limit ∧ buf ++ s ≠ []) ?_
      ⟨List.not_mem_nil, hs, hlimit, hne⟩ n
    rintro buf t ⟨hbuf, ht, hlt, hnil⟩
    refine ⟨buf ++ t, [], lineTurn_end limit buf ht hbuf hlt hnil, ?_, List.not_mem_nil, ?_, ?_⟩
    · rw [List.mem_append, not_or]
      exact ⟨hbuf, ht⟩
    · rwa [List.append_nil]
    · rwa [List.append_nil]
  change (andThen (loop (lineTurn limit) []) _).run n s = .running
  simp only [andThen, hloop]

theorem not_returns_of_cutOff {limit : ℕ} {s : List UInt8} (h : CutOff limit s) :
    ¬(readLine limit).Returns s := by
  rintro (⟨line, rest, _, n, hrun⟩ | ⟨e, _, n, hrun⟩)
  · exact nomatch (readLine_of_cutOff h n).symm.trans hrun
  · exact nomatch (readLine_of_cutOff h n).symm.trans hrun

theorem returns_readLine_iff (limit : ℕ) (s : List UInt8) :
    (readLine limit).Returns s ↔ ¬CutOff limit s := by
  refine ⟨fun h hcut ↦ not_returns_of_cutOff hcut h, fun h ↦ ?_⟩
  rcases exists_line_or s with ⟨raw, rest, hraw, rfl⟩ | hs
  · by_cases hlimit : raw.length < limit
    · exact .of_ok (readLine_of_line ⟨raw, hraw, hlimit, rfl, rfl⟩)
    · obtain ⟨e, he⟩ := readLine_of_long hraw rest (by omega : limit < raw.length + 1)
      exact .of_error he
  · have hend : s = [] ∨ limit ≤ s.length := by
      by_contra hno
      rw [not_or, Nat.not_le] at hno
      exact h ⟨hno.1, hs, hno.2⟩
    obtain ⟨e, he⟩ := readLine_of_end hs hend
    exact .of_error he

theorem readLine_ok_iff (limit : ℕ) (s rest : List UInt8) (line : Text) :
    (readLine limit).Yields s (.ok line rest) ↔ Line limit s line rest := by
  refine ⟨fun h ↦ ?_, readLine_of_line⟩
  rcases exists_line_or s with ⟨raw, rest', hraw, rfl⟩ | hs
  · by_cases hlimit : raw.length < limit
    · have hline : Line limit (raw ++ 10 :: rest') (lineText (raw ++ [10])) rest' :=
        ⟨raw, hraw, hlimit, rfl, rfl⟩
      obtain ⟨rfl, rfl⟩ := Outcome.ok.inj (h.unique (readLine_of_line hline))
      exact hline
    · obtain ⟨e, he⟩ := readLine_of_long hraw rest' (by omega : limit < raw.length + 1)
      exact nomatch h.unique he
  · have hcut := (returns_readLine_iff limit s).mp (.of_ok h)
    have hend : s = [] ∨ limit ≤ s.length := by
      by_contra hno
      rw [not_or, Nat.not_le] at hno
      exact hcut ⟨hno.1, hs, hno.2⟩
    obtain ⟨e, he⟩ := readLine_of_end hs hend
    exact nomatch h.unique he

/-! ### Requests -/

def parseRequestLine (line : Text) : Except HttpProtocolError (Text × Text × Text) :=
  match line.idxOf? ' ' with
  | none => .error ⟨400, "malformed request line: ".toList ++ line⟩
  | some sp1 =>
    let rest := line.drop (sp1 + 1)
    match rest.idxOf? ' ' with
    | none => .error ⟨400, "malformed request line: ".toList ++ line⟩
    | some sp2 =>
      let method := line.take sp1
      let target := rest.take sp2
      let version := rest.drop (sp2 + 1)
      if method = [] ∨ target = [] ∨ version = [] then
        .error ⟨400, "empty field in request line: ".toList ++ line⟩
      else .ok (method, target, version)

/-- What `read_request` checks of the request line. -/
def acceptRequestLine (line : Text) : Except HttpProtocolError (Text × Text × Text) := do
  let (method, target, version) ← parseRequestLine line
  if version ≠ "HTTP/1.1".toList ∧ version ≠ "HTTP/1.0".toList then
    .error ⟨426, "unsupported HTTP version: ".toList ++ version⟩
  else if method ≠ "GET".toList ∧ method ≠ "POST".toList then
    .error ⟨405, "unsupported method: ".toList ++ method⟩
  else return (method, target, version)

/-- The locals of `read_headers`. -/
structure HeaderScan where
  headers : Header
  totalBytes : ℕ
  host : Text

def HeaderScan.start : HeaderScan where
  headers := .new
  totalBytes := 0
  host := []

section CaseTable

variable (cases : CaseTable)

/-- What the loop of `read_headers` does with the line number `i`, which is not empty. -/
def HeaderScan.line (i : ℕ) (scan : HeaderScan) (line : Text) :
    Except HttpProtocolError HeaderScan :=
  let totalBytes := scan.totalBytes + (byteLength line + 2)
  if MAX_HEADER_BYTES < totalBytes then .error ⟨431, "header section exceeds limit".toList⟩
  else if MAX_HEADER_COUNT ≤ i then .error ⟨431, "too many headers".toList⟩
  else match line.idxOf? ':' with
    | none | some 0 => .error ⟨400, "malformed header: ".toList ++ line⟩
    | some colon =>
      let key := trim (line.take colon)
      let value := trim (line.drop (colon + 1))
      let ck := canonicalMimeHeaderKey cases key
      .ok {
        headers := scan.headers.add cases ck value
        totalBytes
        host := if ck = "Host".toList ∧ scan.host = [] then value else scan.host }

/-- One turn of the loop of `read_headers`. -/
def headerTurn : ℕ × HeaderScan → Reader ReadRequestError ((ℕ × HeaderScan) ⊕ (Header × Text))
  | (i, scan) =>
    if MAX_HEADER_COUNT < i then fail (.protocol ⟨431, "exceeded maxHeaderCount loop".toList⟩)
    else do
      let line ← readLine MAX_REQUEST_LINE_BYTES
      if line = [] then return .inr (scan.headers, scan.host)
      else
        let scan ← liftExcept .protocol (scan.line cases i line)
        return .inl (i + 1, scan)

def readHeaders : Reader ReadRequestError (Header × Text) :=
  loop (headerTurn cases) (0, .start)

structure Url where
  path : Text
  rawQuery : Text

structure Request where
  method : Text
  url : Url
  header : Header
  body : List UInt8
  host : Text
  remoteAddr : Text
  contentLength : ℤ

def parseContentLength (cl : Text) : Except HttpProtocolError ℤ :=
  match parseI64 (Utf8.encode cl) with
  | none => .error ⟨400, "invalid Content-Length: ".toList ++ cl⟩
  | some n => if n < 0 then .error ⟨400, "invalid Content-Length: ".toList ++ cl⟩ else .ok n

def splitPathQuery (target : Text) : Text × Text :=
  match target.idxOf? '?' with
  | some i => (target.take i, target.drop (i + 1))
  | none => (target, [])

/-- What `read_request` checks of the headers before the body. -/
def acceptHeaders (version : Text) (headers : Header) (host : Text) :
    Except HttpProtocolError Unit :=
  if version = "HTTP/1.1".toList ∧ host = [] then
    .error ⟨400, "HTTP/1.1 requires Host header".toList⟩
  else
    match headers.get cases "Transfer-Encoding".toList with
    | some te =>
      if (te.splitOn ',').any fun part ↦ eqIgnoreAsciiCase (trim part) "chunked".toList then
        .error ⟨400, "chunked request body not supported".toList⟩
      else .ok ()
    | none => .ok ()

/-- The value of `Content-Length` and the body. -/
def readBody (headers : Header) : Reader ReadRequestError (ℤ × List UInt8) :=
  match headers.get cases "Content-Length".toList with
  | none => pure (0, [])
  | some cl => do
    let n ← liftExcept .protocol (parseContentLength cl)
    if MAX_BODY_BYTES < n then
      fail (.protocol ⟨413, "body ".toList ++ intText n ++ " bytes exceeds ".toList ++
        intText MAX_BODY_BYTES ++ " max".toList⟩)
    else if 0 < n then
      let buf ← readExact n.toNat .eof
      return (n, buf)
    else return (n, [])

def readRequest : Reader ReadRequestError Request := do
  let line ← readLine MAX_REQUEST_LINE_BYTES
  let (method, target, version) ← liftExcept .protocol (acceptRequestLine line)
  let (headers, host) ← readHeaders cases
  liftExcept .protocol (acceptHeaders cases version headers host)
  let (contentLength, body) ← readBody cases headers
  if (headers.get cases "Upgrade".toList).any fun up ↦ eqIgnoreAsciiCase up "h2c".toList then
    fail (.protocol ⟨426, "HTTP/2 cleartext upgrade not supported".toList⟩)
  else
    let (path, rawQuery) := splitPathQuery target
    return ⟨method, ⟨path, rawQuery⟩, headers, body, host, [], contentLength⟩

/-! ### Responses -/

def parseStatusLine (line : Text) : Except HttpProtocolError ℕ :=
  match splitn 3 ' ' line with
  | proto :: status :: _ =>
    if ¬"HTTP/".toList.isPrefixOf proto then
      .error ⟨502, "missing HTTP/ prefix: ".toList ++ line⟩
    else
      match parseU16 (Utf8.encode status) with
      | none => .error ⟨502, "invalid status code: ".toList ++ status⟩
      | some code =>
        if 100 ≤ code ∧ code ≤ 999 then .ok code
        else .error ⟨502, "invalid status code: ".toList ++ status⟩
  | _ => .error ⟨502, "malformed status line: ".toList ++ line⟩

structure ClientResponse where
  statusCode : ℕ
  header : Header
  body : List UInt8

/-- The errors of `read_response`, which the source makes into an `io::Error` each. -/
inductive ResponseError
  /-- `io_err_from_read_request` of the error of a line. -/
  | request (e : ReadRequestError)
  /-- The text of the error of `parse_status_line`. -/
  | status (e : HttpProtocolError)
  /-- `httpx: invalid response Content-Length: {cl}` -/
  | contentLength (cl : Text)
  /-- `httpx: response body {n} exceeds {MAX_BODY_BYTES} max` -/
  | bodyTooLong (n : ℤ)
  /-- `httpx: read response body: {e}` -/
  | readBody
  /-- `read chunk size: {e}` -/
  | readChunkSize (e : ReadRequestError)
  /-- `invalid chunk size: {line:?}` -/
  | invalidChunkSize (line : Text)
  /-- `read chunk trailer: {e}` -/
  | readChunkTrailer (e : ReadRequestError)
  /-- `chunked body cumulative {n} exceeds {MAX_BODY_BYTES} max` -/
  | chunksTooLong (n : ℤ)
  /-- `read chunk body: {e}` -/
  | readChunkBody
  /-- `skip chunk CRLF: {e}` -/
  | skipChunkCrlf
  deriving DecidableEq

/-- One turn of the loop over the trailer lines. -/
def trailerTurn (_ : Unit) : Reader ResponseError (Unit ⊕ Unit) := do
  let trailer ← mapError .readChunkTrailer (readLine MAX_REQUEST_LINE_BYTES)
  if trailer = [] then return .inr ()
  else return .inl ()

/-- `i64::try_from` of a length, with the fallback of `read_chunked_body`. -/
def i64OfLength (n : ℕ) : ℤ :=
  if (n : ℤ) ≤ 9223372036854775807 then n else MAX_BODY_BYTES + 1

/-- The size of a chunk, from the text in front of its extensions. -/
def chunkSize (line : Text) : Option ℤ :=
  parseI64Hex (Utf8.encode (line.takeWhile fun c ↦ c ≠ ';' ∧ c ≠ ' ' ∧ c ≠ '\t'))

/-- One turn of the loop of `read_chunked_body`, which goes on with the body read so far. -/
def chunkTurn (buf : List UInt8) : Reader ResponseError (List UInt8 ⊕ List UInt8) := do
  let line ← mapError .readChunkSize (readLine CHUNK_LINE_BYTES)
  match chunkSize line with
  | none => fail (.invalidChunkSize line)
  | some size =>
    if size < 0 then fail (.invalidChunkSize line)
    else if size = 0 then
      loop trailerTurn ()
      return .inr buf
    -- The sum overflows: with overflow checks that is a panic, and without them the negative sum
    -- passes the check and no buffer of `size` bytes can be allocated.
    else if 9223372036854775807 < i64OfLength buf.length + size then abort
    else if MAX_BODY_BYTES < i64OfLength buf.length + size then
      fail (.chunksTooLong (i64OfLength buf.length + size))
    else
      let chunk ← readExact size.toNat .readChunkBody
      let _ ← readExact 2 .skipChunkCrlf
      return .inl (buf ++ chunk)

def readChunkedBody : Reader ResponseError (List UInt8) :=
  loop chunkTurn []

/-- The body of a response, by its headers. -/
def readResponseBody (headers : Header) : Reader ResponseError (List UInt8) :=
  match headers.get cases "Transfer-Encoding".toList with
  | some te =>
    if eqIgnoreAsciiCase te "chunked".toList then readChunkedBody
    else pure []
  | none =>
    match headers.get cases "Content-Length".toList with
    | none => pure []
    | some cl =>
      match parseI64 (Utf8.encode cl) with
      | none => fail (.contentLength cl)
      | some n =>
        if n < 0 then fail (.contentLength cl)
        else if MAX_BODY_BYTES < n then fail (.bodyTooLong n)
        else readExact n.toNat .readBody

def readResponse : Reader ResponseError ClientResponse := do
  let line ← mapError .request (readLine MAX_REQUEST_LINE_BYTES)
  let code ← liftExcept .status (parseStatusLine line)
  let (headers, _) ← mapError .request (readHeaders cases)
  let body ← readResponseBody cases headers
  return ⟨code, headers, body⟩

end CaseTable

end DoorAccess.Httpx
