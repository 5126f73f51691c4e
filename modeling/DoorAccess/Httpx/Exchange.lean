import DoorAccess.Httpx.Client

/-!
# One connection

`serve_conn` reads one request, lets the handler answer it, and closes. A stream that is no request
is answered with the status of what is wrong with it, and one that ends too early with nothing.

`connection_answered` goes through all streams: only a stream that is cut off within a line keeps
the server reading, every other one comes to an answer, what is answered without the handler can be
read by the client, and nothing but a whole request ever comes to the handler. `loopback` closes the
circle: a request that the client sends to a server comes back as what the handler answers to it.

The deadlines of the reads and the writes are left out.
-/

set_option autoImplicit false
set_option relaxedAutoImplicit false

namespace DoorAccess.Httpx

open ByteStream ByteStream.Reader
open ResponseWriter

variable {cases : CaseTable}

/-! ### The errors of the parser -/

/-- The statuses of the protocol errors of `read_request`. -/
def refusals : List ℕ := [400, 405, 413, 414, 426, 431]

/-- An error of `read_request`. -/
def Refusal : ReadRequestError → Prop
  | .protocol e => e.status ∈ refusals
  | .eof => True

theorem failsIn_check {α : Type} {x : Except HttpProtocolError α}
    (h : ∀ e, x = .error e → e.status ∈ refusals) :
    (Reader.liftExcept ReadRequestError.protocol x).FailsIn Refusal :=
  failsIn_liftExcept h

theorem failsIn_lineTurn (limit : ℕ) (buf : List UInt8) : (lineTurn limit buf).FailsIn Refusal := by
  refine (failsIn_readUntil 10).bind fun got ↦ ?_
  dsimp only
  split_ifs
  · exact failsIn_fail trivial
  · exact failsIn_fail (by show 414 ∈ refusals; decide)
  · exact failsIn_pure _
  · exact failsIn_fail (by show 414 ∈ refusals; decide)
  · exact failsIn_pure _

theorem failsIn_readLine (limit : ℕ) : (readLine limit).FailsIn Refusal :=
  (failsIn_loop (failsIn_lineTurn limit) []).bind fun _ ↦ failsIn_pure _

theorem parseRequestLine_error {line : Text} {e : HttpProtocolError}
    (h : parseRequestLine line = .error e) : e.status = 400 := by
  unfold parseRequestLine at h
  split at h
  · cases h
    rfl
  · dsimp only at h
    split at h
    · cases h
      rfl
    · split_ifs at h
      cases h
      rfl

theorem acceptRequestLine_error {line : Text} {e : HttpProtocolError}
    (h : acceptRequestLine line = .error e) : e.status ∈ refusals := by
  unfold acceptRequestLine at h
  cases hline : parseRequestLine line with
  | error e' =>
    rw [hline] at h
    cases h
    rw [parseRequestLine_error hline]
    decide
  | ok parts =>
    obtain ⟨method, target, version⟩ := parts
    rw [hline] at h
    change (if _ then _ else if _ then _ else _) = _ at h
    split_ifs at h
    · cases h
      show 426 ∈ refusals
      decide
    · cases h
      show 405 ∈ refusals
      decide
    · cases h

theorem scanLine_error {i : ℕ} {scan : HeaderScan} {line : Text} {e : HttpProtocolError}
    (h : scan.line cases i line = .error e) : e.status ∈ refusals := by
  simp only [HeaderScan.line] at h
  split_ifs at h
  · cases h
    show 431 ∈ refusals
    decide
  · cases h
    show 431 ∈ refusals
    decide
  · split at h
    · cases h
      show 400 ∈ refusals
      decide
    · cases h
      show 400 ∈ refusals
      decide
    · cases h

theorem failsIn_readHeaders : (readHeaders cases).FailsIn Refusal := by
  refine failsIn_loop (fun ⟨i, scan⟩ ↦ ?_) _
  rw [headerTurn]
  split_ifs
  · exact failsIn_fail (by show 431 ∈ refusals; decide)
  · refine (failsIn_readLine _).bind fun line ↦ ?_
    split_ifs
    · exact failsIn_pure _
    · exact (failsIn_check fun e he ↦ scanLine_error he).bind fun _ ↦ failsIn_pure _

theorem acceptHeaders_error {version host : Text} {headers : Header} {e : HttpProtocolError}
    (h : acceptHeaders cases version headers host = .error e) : e.status ∈ refusals := by
  unfold acceptHeaders at h
  split_ifs at h
  · cases h
    show 400 ∈ refusals
    decide
  · split at h
    · split_ifs at h
      cases h
      show 400 ∈ refusals
      decide
    · cases h

theorem parseContentLength_error {cl : Text} {e : HttpProtocolError}
    (h : parseContentLength cl = .error e) : e.status = 400 := by
  unfold parseContentLength at h
  split at h
  · cases h
    rfl
  · split_ifs at h
    cases h
    rfl

theorem failsIn_readBody (headers : Header) : (readBody cases headers).FailsIn Refusal := by
  unfold readBody
  split
  · exact failsIn_pure _
  · refine (failsIn_check fun e he ↦ ?_).bind fun n ↦ ?_
    · rw [parseContentLength_error he]
      decide
    · split_ifs
      · exact failsIn_fail (by show 413 ∈ refusals; decide)
      · exact (failsIn_readExact _ trivial).bind fun _ ↦ failsIn_pure _
      · exact failsIn_pure _

/-- `read_request` fails with one of six statuses or at the end of the stream, and never panics. -/
theorem failsIn_readRequest : (readRequest cases).FailsIn Refusal := by
  refine (failsIn_readLine _).bind fun line ↦ ?_
  refine (failsIn_check fun e he ↦ acceptRequestLine_error he).bind fun accepted ↦ ?_
  refine failsIn_readHeaders.bind fun headers ↦ ?_
  refine (failsIn_check fun e he ↦ acceptHeaders_error he).bind fun _ ↦ ?_
  refine (failsIn_readBody _).bind fun body ↦ ?_
  split_ifs
  · exact failsIn_fail (by show 426 ∈ refusals; decide)
  · exact failsIn_pure _

/-! ### The answer to what is no request -/

/-- `write_protocol_error`. -/
def writeProtocolError (err : HttpProtocolError) : List UInt8 :=
  let status := if err.status = 0 then 400 else err.status
  let msg := if statusText status = [] then "Error".toList else statusText status
  textLine ("HTTP/1.1 ".toList ++ natText status ++ ' ' :: msg) ++
    textLine "Connection: close".toList ++ textLine "Content-Length: 0".toList ++ [13, 10]

/-- What a handler calls that answers with a status and nothing else. -/
def bareAnswer (status : ℕ) : List Call :=
  [.set "Content-Length".toList "0".toList, .writeHeader status]

theorem setHeaders_fixed {sets : List (Text × Text)} (h : ∀ l ∈ sets, Fixed l)
    (headers : Header) : setHeaders cases headers sets = setHeaders .ascii headers sets := by
  induction sets generalizing headers with
  | nil => rfl
  | cons l sets ih =>
    rw [List.forall_mem_cons] at h
    have hset : headers.set cases l.1 l.2 = headers.set .ascii l.1 l.2 := by
      rw [Header.set, Header.set, h.1.canonical, h.1.canonical]
    rw [setHeaders, List.foldl_cons, hset]
    exact ih h.2 _

theorem fixed_bareAnswer (status : ℕ) :
    ∀ l ∈ setBefore (bareAnswer status) ++ [("Connection".toList, "close".toList)], Fixed l := by
  show ∀ l ∈ [("Content-Length".toList, "0".toList), ("Connection".toList, "close".toList)],
    Fixed l
  decide +kernel

theorem sizedSendable_bareAnswer {status : ℕ} (hge : 100 ≤ status) (hle : status ≤ 999) :
    SizedSendable cases (bareAnswer status) :=
  sizedSendable_of_fixed (fixed_bareAnswer status) (by show 1 < 64; decide)
    (by show List.sum (List.map _ [_, _]) ≤ 16384; decide +kernel) rfl rfl hge hle
    (by show (0 : ℤ) ≤ 1048576; decide)

/-- What is no request is answered as a handler would with the same status and no data. -/
theorem writeProtocolError_eq {err : HttpProtocolError} (h : err.status ∈ refusals) :
    writeProtocolError err = respond cases (bareAnswer err.status) := by
  have hrange : ∀ status ∈ refusals, 100 ≤ status ∧ status ≤ 999 := by decide
  have hhead : ∀ status ∈ refusals, writeProtocolError ⟨status, []⟩ =
      head status (setHeaders .ascii .new
        [("Content-Length".toList, "0".toList), ("Connection".toList, "close".toList)]) := by
    decide +kernel
  rw [respond_sized (sizedSendable_bareAnswer (hrange _ h).1 (hrange _ h).2), setBefore_connection,
    setHeaders_fixed (fixed_bareAnswer _)]
  exact (hhead _ h).trans (List.append_nil _).symm

theorem readResponse_writeProtocolError {err : HttpProtocolError} (h : err.status ∈ refusals) :
    ∃ response, (readResponse cases).Yields (writeProtocolError err) (.ok response []) ∧
      response.statusCode = err.status ∧ response.body = [] := by
  have hrange : ∀ status ∈ refusals, 100 ≤ status ∧ status ≤ 999 := by decide
  have hsendable : SizedSendable cases (bareAnswer err.status) :=
    sizedSendable_bareAnswer (hrange _ h).1 (hrange _ h).2
  obtain ⟨response, hread⟩ := hsendable.readAs
  rw [writeProtocolError_eq h]
  exact ⟨response, hread.reads, hread.status, hread.body⟩

/-! ### One connection -/

variable {σ : Type*} {serve : Request → σ → List Call × σ} {remoteAddr : Text} {s s' : σ}
  {stream out : List UInt8}

/-- What `serve_conn` writes when a panic ends the connection. -/
def INTERNAL_SERVER_ERROR : List UInt8 :=
  textLine "HTTP/1.1 500 Internal Server Error".toList ++ textLine "Connection: close".toList ++
    textLine "Content-Length: 0".toList ++ [13, 10]

/-- `serve_conn`: what goes back on the connection and what the handler leaves behind, once the
loops of the parser may make `n` turns; nothing as long as the request is still being read. -/
def serveConn (cases : CaseTable) (serve : Request → σ → List Call × σ) (remoteAddr : Text) (n : ℕ)
    (stream : List UInt8) (s : σ) : Option (List UInt8 × σ) :=
  match (readRequest cases).run n stream with
  | .ok r _ =>
    let (calls, s) := serve { r with remoteAddr } s
    some (respond cases calls, s)
  | .error (.protocol e) => some (writeProtocolError e, s)
  | .error .eof => some ([], s)
  | .aborted => some (INTERNAL_SERVER_ERROR, s)
  | .running => none

/-- The ways in which a connection comes to an answer. -/
inductive Answered (cases : CaseTable) (serve : Request → σ → List Call × σ) (remoteAddr : Text)
    (stream : List UInt8) (s : σ) : List UInt8 → σ → Prop
  | served {r : Request} {rest : List UInt8} (h : (readRequest cases).Yields stream (.ok r rest)) :
      Answered cases serve remoteAddr stream s
        (respond cases (serve { r with remoteAddr } s).1) (serve { r with remoteAddr } s).2
  | refused {e : HttpProtocolError}
      (h : (readRequest cases).Yields stream (.error (.protocol e)))
      (hstatus : e.status ∈ refusals) :
      Answered cases serve remoteAddr stream s (writeProtocolError e) s
  | silent (h : (readRequest cases).Yields stream (.error .eof)) :
      Answered cases serve remoteAddr stream s [] s

/-- Once the parser is done, more turns change nothing. -/
theorem Answered.serveConn (h : Answered cases serve remoteAddr stream s out s') :
    ∃ N, ∀ n, N ≤ n → serveConn cases serve remoteAddr n stream s = some (out, s') := by
  have hstable {o : Outcome ReadRequestError Request} (ho : (readRequest cases).Yields stream o) :
      ∃ N, ∀ n, N ≤ n → (readRequest cases).run n stream = o := by
    obtain ⟨hne, N, hrun⟩ := ho
    refine ⟨N, fun n hn ↦ ?_⟩
    rw [(readRequest cases).stable hn (by rw [hrun]; exact hne), hrun]
  cases h with
  | served ho =>
    obtain ⟨N, hN⟩ := hstable ho
    exact ⟨N, fun n hn ↦ by rw [Httpx.serveConn, hN n hn]⟩
  | refused ho =>
    obtain ⟨N, hN⟩ := hstable ho
    exact ⟨N, fun n hn ↦ by rw [Httpx.serveConn, hN n hn]⟩
  | silent ho =>
    obtain ⟨N, hN⟩ := hstable ho
    exact ⟨N, fun n hn ↦ by rw [Httpx.serveConn, hN n hn]⟩

theorem exists_answered (h : ¬RequestCut cases stream) (s : σ) :
    ∃ out s', Answered cases serve remoteAddr stream s out s' := by
  rcases (returns_readRequest_iff cases stream).mpr h with ⟨r, rest, hok⟩ | ⟨e, herror⟩
  · exact ⟨_, _, .served hok⟩
  · cases e with
    | protocol e =>
      rcases failsIn_readRequest stream _ herror with ⟨_, _, hok⟩ | ⟨e', heq, hP⟩
      · cases hok
      · cases heq
        exact ⟨_, _, .refused herror hP⟩
    | eof => exact ⟨_, _, .silent herror⟩

theorem serveConn_of_cut (h : RequestCut cases stream) (n : ℕ) :
    serveConn cases serve remoteAddr n stream s = none := by
  have hrun := failsIn_readRequest.run_of_not_returns
    (fun hreturns ↦ (returns_readRequest_iff cases stream).mp hreturns h) n
  rw [serveConn, hrun]

/-- Every stream that is not cut off within a line comes to one answer: that of the handler to the
request at its front, nothing at all if the parser comes to its end, or, for any other error of the
parser, a response without data that the client can read, with the status of this error. Unless
there is a whole request the handler is not asked. A stream that is cut off keeps the server
reading. -/
theorem connection_answered (cases : CaseTable) (serve : Request → σ → List Call × σ)
    (remoteAddr : Text) (stream : List UInt8) (s : σ) :
    (RequestCut cases stream ∧ ∀ n, serveConn cases serve remoteAddr n stream s = none) ∨
    ∃ out s', (∃ N, ∀ n, N ≤ n →
        serveConn cases serve remoteAddr n stream s = some (out, s')) ∧
      ((∃ r rest, (readRequest cases).Yields stream (.ok r rest) ∧
          out = respond cases (serve { r with remoteAddr } s).1 ∧
          s' = (serve { r with remoteAddr } s).2) ∨
        (readRequest cases).Yields stream (.error .eof) ∧ out = [] ∧ s' = s ∨
        ∃ e, (readRequest cases).Yields stream (.error (.protocol e)) ∧ s' = s ∧
          ∃ response, (readResponse cases).Yields out (.ok response []) ∧
            response.statusCode = e.status ∧ e.status ∈ refusals ∧ response.body = []) := by
  by_cases hcut : RequestCut cases stream
  · exact Or.inl ⟨hcut, serveConn_of_cut hcut⟩
  · obtain ⟨out, s', hanswered⟩ : ∃ out s', Answered cases serve remoteAddr stream s out s' :=
      exists_answered hcut s
    refine Or.inr ⟨out, s', hanswered.serveConn, ?_⟩
    cases hanswered with
    | served h => exact Or.inl ⟨_, _, h, rfl, rfl⟩
    | refused h hstatus =>
      obtain ⟨response, hread, hcode, hbody⟩ := @readResponse_writeProtocolError cases _ hstatus
      exact Or.inr (Or.inr ⟨_, h, rfl, response, hread, hcode, hstatus, hbody⟩)
    | silent h => exact Or.inr (Or.inl ⟨h, rfl, rfl⟩)

/-! ### The client and the server -/

theorem Answered.unique {out' : List UInt8} {s'' : σ}
    (h : Answered cases serve remoteAddr stream s out s')
    (h' : Answered cases serve remoteAddr stream s out' s'') : out = out' ∧ s' = s'' := by
  obtain ⟨N, hN⟩ := h.serveConn
  obtain ⟨N', hN'⟩ := h'.serveConn
  have heq := (hN _ (Nat.le_max_left N N')).symm.trans (hN' _ (Nat.le_max_right N N'))
  exact Prod.mk.inj (Option.some.inj heq)

/-- The request as it comes to the handler. -/
def ClientRequest.arrived (cases : CaseTable) (req : ClientRequest)
    (hostport target remoteAddr : Text) : Request :=
  { req.received cases hostport target with remoteAddr }

variable {req : ClientRequest} {hostport target : Text}

theorem answered_of_conveyable (h : Conveyable cases req hostport target) :
    Answered cases serve remoteAddr (req.sent cases hostport target) s
      (respond cases (serve (req.arrived cases hostport target remoteAddr) s).1)
      (serve (req.arrived cases hostport target remoteAddr) s).2 := by
  have hread := h.readRequest []
  rw [List.append_nil] at hread
  exact .served hread

/-- The other side of a connection is a server in the state `s`, as far as the request goes that is
sent. -/
def Serves (cases : CaseTable) (serve : Request → σ → List Call × σ) (remoteAddr : Text) (s : σ)
    (peer : Peer) (sent : List UInt8) : Prop :=
  ∀ out s', Answered cases serve remoteAddr sent s out s' → peer sent = .ok out

/-- A request that the client sends to a server comes back as what the handler answers to it. -/
theorem loopback {shown : Char → Bool} {dial : Text → Except Text Peer} {peer : Peer}
    (hurl : splitUrl shown req.url = .ok (hostport, target)) (hdial : dial hostport = .ok peer)
    (hpeer : Serves cases serve remoteAddr s peer (req.sent cases hostport target))
    (h : Conveyable cases req hostport target) {response : ClientResponse}
    (hresponse : ReadAs cases (serve (req.arrived cases hostport target remoteAddr) s).1
      response) : Client.Yields cases shown dial req (.ok response []) := by
  rw [Client.yields_of_peer hurl hdial (hpeer _ _ (answered_of_conveyable h)),
    yields_mapError_ok_iff]
  exact hresponse.reads

end DoorAccess.Httpx
