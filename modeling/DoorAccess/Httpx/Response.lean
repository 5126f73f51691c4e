import DoorAccess.Httpx.Parse
import Mathlib.Data.List.Sort
import Mathlib.Data.String.Basic

/-!
# The response writer

`ResponseWriterImpl` writes a response as its handler produces it: the head with the first thing
that needs one, and then every non-empty piece of data as a chunk of its own. `respond` is the whole
response to a sequence of calls.
-/

set_option autoImplicit false
set_option relaxedAutoImplicit false

namespace DoorAccess.Httpx

/-- `ResponseWriterImpl`, with what it has handed to its buffered writer so far. -/
structure ResponseWriter where
  out : List UInt8
  headers : Header
  wroteHeader : Bool
  status : ℕ
  chunked : Bool

namespace ResponseWriter

def new : ResponseWriter where
  out := []
  headers := .new
  wroteHeader := false
  status := 0
  chunked := false

/-- A line of text and its line break. -/
def textLine (line : Text) : List UInt8 :=
  Utf8.encode line ++ [13, 10]

/-- The entries of a header map in the order of their keys. -/
def sortedEntries (headers : Header) : List (Text × List Text) :=
  headers.iter.insertionSort fun a b ↦ a.1 ≤ b.1

/-- The header lines, one for each value of each key. -/
def headerLines (headers : Header) : List (Text × Text) :=
  (sortedEntries headers).flatMap fun entry ↦ entry.2.map fun v ↦ (entry.1, v)

/-- The reason phrase, with a word for the codes that have none. -/
def reason (code : ℕ) : Text :=
  if statusText code = [] then "Status".toList else statusText code

def statusLine (code : ℕ) : Text :=
  "HTTP/1.1 ".toList ++ natText code ++ ' ' :: reason code

/-- The text of one header line. -/
def headerLine (header : Text × Text) : Text :=
  header.1 ++ ':' :: ' ' :: header.2

def head (code : ℕ) (headers : Header) : List UInt8 :=
  textLine (statusLine code) ++ (headerLines headers).flatMap (fun h ↦ textLine (headerLine h)) ++
    [13, 10]

/-- `write_chunk`. -/
def chunkFrame (data : List UInt8) : List UInt8 :=
  Radix.text 16 data.length ++ [13, 10] ++ data ++ [13, 10]

/-- The chunk of length zero with an empty trailer. -/
def lastChunk : List UInt8 :=
  [48, 13, 10, 13, 10]

variable (cases : CaseTable)

/-- `header().set`. -/
def setHeader (w : ResponseWriter) (key value : Text) : ResponseWriter :=
  { w with headers := w.headers.set cases key value }

def writeHeader (w : ResponseWriter) (code : ℕ) : ResponseWriter :=
  if w.wroteHeader then w
  else
    let headers := w.headers.set cases "Connection".toList "close".toList
    if headers.get cases "Content-Length".toList = none then
      let headers := headers.set cases "Transfer-Encoding".toList "chunked".toList
      { out := w.out ++ head code headers
        headers
        wroteHeader := true
        status := code
        chunked := true }
    else
      { w with
        out := w.out ++ head code headers
        headers
        wroteHeader := true
        status := code }

/-- The header that a call writes when there is none yet. -/
def implicitHeader (w : ResponseWriter) : ResponseWriter :=
  if w.wroteHeader then w else w.writeHeader cases 200

/-- `write`, with the number of bytes it reports. -/
def write (w : ResponseWriter) (data : List UInt8) : ResponseWriter × ℕ :=
  let w := w.implicitHeader cases
  if data = [] then (w, 0)
  else if w.chunked then ({ w with out := w.out ++ chunkFrame data }, data.length)
  else ({ w with out := w.out ++ data }, data.length)

/-- `flush`, which hands on what is buffered and leaves `out` as it is. -/
def flush (w : ResponseWriter) : ResponseWriter :=
  w.implicitHeader cases

def finish (w : ResponseWriter) : ResponseWriter :=
  let w := w.implicitHeader cases
  if w.chunked then { w with out := w.out ++ lastChunk } else w

end ResponseWriter

/-- A call of a handler. -/
inductive Call
  | set (key value : Text)
  | writeHeader (code : ℕ)
  | write (data : List UInt8)
  | flush
  deriving DecidableEq

/-- What one call does to the writer. -/
def ResponseWriter.call (cases : CaseTable) (w : ResponseWriter) : Call → ResponseWriter
  | .set key value => w.setHeader cases key value
  | .writeHeader code => w.writeHeader cases code
  | .write data => (w.write cases data).1
  | .flush => w.flush cases

/-- The bytes of the response of a handler that makes these calls. -/
def respond (cases : CaseTable) (calls : List Call) : List UInt8 :=
  ((calls.foldl (ResponseWriter.call cases) .new).finish cases).out

/-! ### What the calls ask for -/

namespace Call

/-- Whether the call only sets a header. -/
def isSet : Call → Bool
  | .set _ _ => true
  | _ => false

/-- The status a call puts into a head that is not written yet. -/
def status : Call → ℕ
  | .writeHeader code => code
  | _ => 200

/-- The data a call writes. -/
def data : Call → List UInt8
  | .write data => data
  | _ => []

end Call

/-- The status of the first call that writes the head. -/
def firstStatus (calls : List Call) : ℕ :=
  ((calls.dropWhile Call.isSet).head?.map Call.status).getD 200

/-- The headers that are set before the head is written. -/
def setBefore (calls : List Call) : List (Text × Text) :=
  (calls.takeWhile Call.isSet).filterMap fun
    | .set key value => some (key, value)
    | _ => none

/-- The pieces of data written, without the empty ones. -/
def pieces (calls : List Call) : List (List UInt8) :=
  (calls.map Call.data).filter (· ≠ [])

variable (cases : CaseTable)

/-- The header map once the headers are set. -/
def setHeaders (headers : Header) (sets : List (Text × Text)) : Header :=
  sets.foldl (fun headers h ↦ headers.set cases h.1 h.2) headers

/-- The two headers that the writer sets itself, when no `Content-Length` is set before. -/
def ownHeaders (headers : Header) : Header :=
  (headers.set cases "Connection".toList "close".toList).set cases "Transfer-Encoding".toList
    "chunked".toList

/-- The header map of the head. -/
def sentHeaders (calls : List Call) : Header :=
  ownHeaders cases (setHeaders cases .new (setBefore calls))

/-! ### What is written -/

/-- The canonical forms of the keys the source names. -/
theorem canonical_connection :
    canonicalMimeHeaderKey cases "Connection".toList = "Connection".toList := by
  have hascii : ∀ c ∈ "Connection".toList, c.toNat < 128 :=
    List.all_iff_forall_prop.mp (by decide)
  rw [canonical_ascii cases hascii]
  decide

theorem canonical_contentLength :
    canonicalMimeHeaderKey cases "Content-Length".toList = "Content-Length".toList := by
  have hascii : ∀ c ∈ "Content-Length".toList, c.toNat < 128 :=
    List.all_iff_forall_prop.mp (by decide)
  rw [canonical_ascii cases hascii]
  decide

theorem canonical_transferEncoding :
    canonicalMimeHeaderKey cases "Transfer-Encoding".toList = "Transfer-Encoding".toList := by
  have hascii : ∀ c ∈ "Transfer-Encoding".toList, c.toNat < 128 :=
    List.all_iff_forall_prop.mp (by decide)
  rw [canonical_ascii cases hascii]
  decide

namespace ResponseWriter

/-- The writer before its head. -/
def before (headers : Header) : ResponseWriter :=
  { new with headers }

/-- The writer behind its head. -/
def behind (out : List UInt8) (headers : Header) (status : ℕ) : ResponseWriter where
  out := out
  headers := headers
  wroteHeader := true
  status := status
  chunked := true

variable {cases}

theorem writeHeader_before {headers : Header}
    (h : headers.get cases "Content-Length".toList = none) (code : ℕ) :
    (before headers).writeHeader cases code =
      behind (head code (ownHeaders cases headers)) (ownHeaders cases headers) code := by
  have hlength : (headers.set cases "Connection".toList "close".toList).get cases
      "Content-Length".toList = none := by
    rw [Header.get, Header.values, Header.lookup_set, if_neg]
    · exact h
    · rw [canonical_contentLength, canonical_connection]
      decide
  simp only [writeHeader, before, new, Bool.false_eq_true, if_false, hlength, if_true,
    List.nil_append]
  rfl

theorem implicitHeader_before {headers : Header}
    (h : headers.get cases "Content-Length".toList = none) :
    (before headers).implicitHeader cases =
      behind (head 200 (ownHeaders cases headers)) (ownHeaders cases headers) 200 :=
  writeHeader_before h 200

@[simp] theorem implicitHeader_behind (out : List UInt8) (headers : Header) (status : ℕ) :
    (behind out headers status).implicitHeader cases = behind out headers status := rfl

/-- Behind the head a call only appends the data it writes. -/
theorem call_behind (out : List UInt8) (headers : Header) (status : ℕ) (call : Call) :
    ∃ headers', (behind out headers status).call cases call =
      behind (out ++ (pieces [call]).flatMap chunkFrame) headers' status := by
  cases call with
  | set key value =>
    exact ⟨headers.set cases key value, by simp [ResponseWriter.call, setHeader, behind, pieces,
      Call.data]⟩
  | writeHeader code =>
    exact ⟨headers, by simp [ResponseWriter.call, writeHeader, behind, pieces, Call.data]⟩
  | write data =>
    refine ⟨headers, ?_⟩
    rw [ResponseWriter.call, write, implicitHeader_behind]
    by_cases hdata : data = []
    · simp [behind, pieces, Call.data, hdata]
    · simp [behind, pieces, Call.data, hdata]
  | flush =>
    exact ⟨headers, by simp [ResponseWriter.call, flush, pieces, Call.data]⟩

theorem pieces_cons (call : Call) (calls : List Call) :
    pieces (call :: calls) = pieces [call] ++ pieces calls := by
  rw [pieces, pieces, pieces, ← List.filter_append, ← List.map_append, List.singleton_append]

theorem out_behind (calls : List Call) (out : List UInt8) (headers : Header) (status : ℕ) :
    ((calls.foldl (ResponseWriter.call cases) (behind out headers status)).finish cases).out =
      out ++ (pieces calls).flatMap chunkFrame ++ lastChunk := by
  induction calls generalizing out headers with
  | nil => simp [finish, behind, implicitHeader, pieces]
  | cons call calls ih =>
    obtain ⟨headers', hcall⟩ := @call_behind cases out headers status call
    rw [List.foldl_cons, hcall, ih, pieces_cons call calls, List.flatMap_append]
    simp only [List.append_assoc]

/-- The first call that is no setting of a header writes the head before it does its part. -/
theorem call_before {headers : Header} (h : headers.get cases "Content-Length".toList = none)
    {call : Call} (hset : call.isSet = false) :
    (before headers).call cases call =
      (behind (head call.status (ownHeaders cases headers)) (ownHeaders cases headers)
        call.status).call cases call := by
  cases call with
  | set key value => exact nomatch hset
  | writeHeader code => exact writeHeader_before h code
  | write data =>
    rw [ResponseWriter.call, write, implicitHeader_before h]
    rfl
  | flush => exact implicitHeader_before h

theorem out_before (calls : List Call) (headers : Header)
    (h : (setHeaders cases headers (setBefore calls)).get cases "Content-Length".toList = none) :
    ((calls.foldl (ResponseWriter.call cases) (before headers)).finish cases).out =
      head (firstStatus calls) (ownHeaders cases (setHeaders cases headers (setBefore calls))) ++
        (pieces calls).flatMap chunkFrame ++ lastChunk := by
  induction calls generalizing headers with
  | nil =>
    change headers.get cases "Content-Length".toList = none at h
    rw [List.foldl_nil, finish, implicitHeader_before h]
    change head 200 (ownHeaders cases headers) ++ lastChunk = _
    rw [show pieces [] = [] from rfl, List.flatMap_nil, List.append_nil]
    rfl
  | cons call calls ih =>
    cases hset : call.isSet with
    | true =>
      obtain ⟨key, value, rfl⟩ : ∃ key value, call = .set key value := by
        cases call with
        | set key value => exact ⟨key, value, rfl⟩
        | _ => exact nomatch hset
      exact ih (headers.set cases key value) h
    | false =>
      have hbefore : setBefore (call :: calls) = [] := by simp [setBefore, hset]
      have hstatus : firstStatus (call :: calls) = call.status := by simp [firstStatus, hset]
      rw [hbefore] at h ⊢
      change headers.get cases "Content-Length".toList = none at h
      rw [hstatus, List.foldl_cons, call_before h hset]
      exact out_behind (call :: calls) _ _ _

end ResponseWriter

open ResponseWriter

/-- The response is the head, a chunk for every piece of data that is not empty, and one last
chunk. -/
theorem respond_eq {calls : List Call}
    (h : (setHeaders cases .new (setBefore calls)).get cases "Content-Length".toList = none) :
    respond cases calls =
      head (firstStatus calls) (sentHeaders cases calls) ++
        (pieces calls).flatMap chunkFrame ++ lastChunk :=
  out_before calls .new h

end DoorAccess.Httpx
