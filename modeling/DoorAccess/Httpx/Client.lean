import DoorAccess.Httpx.Sized

/-!
# The HTTP/1.1 client

`new_request` and `do_request` of `client.rs`: the URL is taken apart, the headers of the transport
are set over those of the caller, and the request goes out as one request line, the headers in the
order of their names, and the body. `read_request` reads back what goes out
(`request_round_trip`): the method, the path and the query of the URL, every header and the body.

The peer is what `dial` makes of a host and port: it takes the bytes of the request and sends bytes
until it closes. The timeouts and the token that cancels a request are left out.
-/

set_option autoImplicit false
set_option relaxedAutoImplicit false

namespace DoorAccess.Httpx

open ByteStream ByteStream.Reader
open ResponseWriter

def METHOD_GET : Text := "GET".toList
def METHOD_POST : Text := "POST".toList

/-! ### The Debug form of a string -/

/-- `char::escape_unicode`. -/
def escapeUnicode (c : Char) : Text :=
  "\\u\x7b".toList ++ Utf8.ofAscii (Radix.text 16 c.toNat) ++ "\x7d".toList

/-- `char::escape_debug` within the given quotes. Which characters beyond ASCII are shown as they
are is a matter of the Unicode tables, so the model works for every such choice `shown`. -/
def escapeDebug (shown : Char → Bool) (quote c : Char) : Text :=
  if c = Char.ofNat 0 then "\\0".toList
  else if c = '\t' then "\\t".toList
  else if c = '\r' then "\\r".toList
  else if c = '\n' then "\\n".toList
  else if c = '\\' then "\\\\".toList
  else if c = quote then ['\\', quote]
  else if c.toNat < 128 then
    if 32 ≤ c.toNat ∧ c.toNat < 127 then [c] else escapeUnicode c
  else if shown c then [c]
  else escapeUnicode c

/-- A string as `{:?}` shows it. -/
def debugStr (shown : Char → Bool) (s : Text) : Text :=
  '"' :: s.flatMap (escapeDebug shown '"') ++ ['"']

/-- A character as `{:?}` shows it. -/
def debugChar (shown : Char → Bool) (c : Char) : Text :=
  Char.ofNat 39 :: escapeDebug shown (Char.ofNat 39) c ++ [Char.ofNat 39]

/-! ### Requests -/

/-- `ClientRequest`, without the token that cancels it. -/
structure ClientRequest where
  method : Text
  url : Text
  header : Header
  body : List UInt8

section Messages

variable (shown : Char → Bool)

def newRequest (method url : Text) (body : Option (List UInt8)) : Except Text ClientRequest :=
  if method ≠ METHOD_GET ∧ method ≠ METHOD_POST then
    .error ("httpx: unsupported method ".toList ++ debugStr shown method)
  else if ¬"http://".toList.isPrefixOf url then
    .error ("httpx: only http:// URLs supported, got ".toList ++ debugStr shown url)
  else .ok ⟨method, url, .new, body.getD []⟩

/-- `http://host[:port]/path[?query]` as `host:port` and `/path?query`. -/
def splitUrl (rawUrl : Text) : Except Text (Text × Text) :=
  if ¬"http://".toList.isPrefixOf rawUrl then
    .error ("httpx: only http:// URLs supported, got ".toList ++ debugStr shown rawUrl)
  else
    let rest := rawUrl.drop 7
    if rest = [] then .error "httpx: empty host in URL".toList
    else
      let (hostport, target) := match rest.idxOf? '/' with
        | some slash => (rest.take slash, rest.drop slash)
        | none => (rest, ['/'])
      if hostport = [] then .error "httpx: empty host in URL".toList
      else if hostport.contains ':' then .ok (hostport, target)
      else .ok (hostport ++ ":80".toList, target)

end Messages

section CaseTable

variable (cases : CaseTable)

def ClientRequest.setHeader (req : ClientRequest) (key value : Text) : ClientRequest :=
  { req with header := req.header.set cases key value }

/-- The headers of a request as `do_request` sends them. -/
def ClientRequest.sentHeader (req : ClientRequest) (hostport : Text) : Header :=
  let header := req.header.set cases "Host".toList hostport
  let header := header.set cases "Connection".toList "close".toList
  if req.body = [] then header.set cases "Content-Length".toList "0".toList
  else header.set cases "Content-Length".toList (natText req.body.length)

def requestLine (method target : Text) : Text :=
  method ++ ' ' :: (target ++ ' ' :: "HTTP/1.1".toList)

def writeRequest (method target : Text) (header : Header) (body : List UInt8) : List UInt8 :=
  textLine (requestLine method target) ++ lineBytes (headerLines header) ++ [13, 10] ++ body

/-- The bytes that `do_request` sends to the host and port of the URL. -/
def ClientRequest.sent (req : ClientRequest) (hostport target : Text) : List UInt8 :=
  writeRequest req.method target (req.sentHeader cases hostport) req.body

/-! ### The exchange -/

/-- `Display` of `HttpProtocolError`. -/
def HttpProtocolError.text (e : HttpProtocolError) : Text :=
  "httpx: ".toList ++ e.msg ++ " (status=".toList ++ natText e.status ++ ")".toList

/-- `Display` of `ReadRequestError`, and of the `io::Error` that `io_err_from_read_request` makes of
it. -/
def ReadRequestError.text : ReadRequestError → Text
  | protocol e => e.text
  | eof => "unexpected EOF".toList

/-- `Display` of the error of `read_exact` at the end of the stream. -/
def READ_EXACT_EOF : Text := "failed to fill whole buffer".toList

/-- `Display` of the `io::Error` of `read_response`. -/
def ResponseError.text (shown : Char → Bool) : ResponseError → Text
  | request e => e.text
  | status e => e.text
  | contentLength cl => "httpx: invalid response Content-Length: ".toList ++ cl
  | bodyTooLong n => "httpx: response body ".toList ++ intText n ++ " exceeds ".toList ++
      intText MAX_BODY_BYTES ++ " max".toList
  | readBody => "httpx: read response body: ".toList ++ READ_EXACT_EOF
  | readChunkSize e => "read chunk size: ".toList ++ e.text
  | invalidChunkSize line => "invalid chunk size: ".toList ++ debugStr shown line
  | readChunkTrailer e => "read chunk trailer: ".toList ++ e.text
  | chunksTooLong n => "chunked body cumulative ".toList ++ intText n ++ " exceeds ".toList ++
      intText MAX_BODY_BYTES ++ " max".toList
  | readChunkBody => "read chunk body: ".toList ++ READ_EXACT_EOF
  | skipChunkCrlf => "skip chunk CRLF: ".toList ++ READ_EXACT_EOF

/-- Whether the kind of the `io::Error` is `UnexpectedEof`. -/
def ResponseError.unexpectedEof : ResponseError → Bool
  | request .eof => true
  | readBody => true
  | _ => false

/-- What `do_request` says when the response cannot be read. -/
def ResponseError.doRequest (shown : Char → Bool) (e : ResponseError) : Text :=
  if e.unexpectedEof then "httpx: server closed connection before sending response".toList
  else "httpx: read response: ".toList ++ e.text shown

/-- What a connection is to the client: the text of the error that ends the writing of the request,
or all the bytes that come back. -/
abbrev Peer := List UInt8 → Except Text (List UInt8)

/-- `do_request`, with as many turns as its loops may make. -/
def Client.doRequest (shown : Char → Bool) (dial : Text → Except Text Peer) (req : ClientRequest)
    (n : ℕ) : Outcome Text ClientResponse :=
  match splitUrl shown req.url with
  | .error e => .error e
  | .ok (hostport, target) =>
    match dial hostport with
    | .error e => .error e
    | .ok peer =>
      match peer (req.sent cases hostport target) with
      | .error e => .error e
      | .ok back => (mapError (ResponseError.doRequest shown) (readResponse cases)).run n back

/-- With enough turns `do_request` comes to `o`. -/
def Client.Yields (shown : Char → Bool) (dial : Text → Except Text Peer) (req : ClientRequest)
    (o : Outcome Text ClientResponse) : Prop :=
  o ≠ .running ∧ ∃ n, Client.doRequest cases shown dial req n = o

end CaseTable

variable {cases : CaseTable} {shown : Char → Bool} {req : ClientRequest} {hostport target : Text}

theorem Client.doRequest_of_peer {dial : Text → Except Text Peer} {peer : Peer}
    {back : List UInt8} (hsplit : splitUrl shown req.url = .ok (hostport, target))
    (hdial : dial hostport = .ok peer) (hpeer : peer (req.sent cases hostport target) = .ok back)
    (n : ℕ) : Client.doRequest cases shown dial req n =
      (mapError (ResponseError.doRequest shown) (readResponse cases)).run n back := by
  simp only [Client.doRequest, hsplit, hdial, hpeer]

theorem Client.yields_of_peer {dial : Text → Except Text Peer} {peer : Peer} {back : List UInt8}
    (hsplit : splitUrl shown req.url = .ok (hostport, target)) (hdial : dial hostport = .ok peer)
    (hpeer : peer (req.sent cases hostport target) = .ok back)
    (o : Outcome Text ClientResponse) :
    Client.Yields cases shown dial req o ↔
      (mapError (ResponseError.doRequest shown) (readResponse cases)).Yields back o := by
  unfold Client.Yields Reader.Yields
  simp only [Client.doRequest_of_peer hsplit hdial hpeer]

/-- A URL with a path, put together from its parts. -/
theorem splitUrl_path {host : Text} (hne : host ≠ []) (hslash : '/' ∉ host) (path : Text) :
    splitUrl shown ("http://".toList ++ host ++ '/' :: path) =
      .ok (if host.contains ':' then host else host ++ ":80".toList, '/' :: path) := by
  have hfront : "http://".toList.isPrefixOf ("http://".toList ++ host ++ '/' :: path) = true := by
    rw [List.isPrefixOf_iff_prefix, List.append_assoc]
    exact List.prefix_append _ _
  have hdrop : ("http://".toList ++ host ++ '/' :: path).drop 7 = host ++ '/' :: path := by
    rw [List.append_assoc]
    rfl
  have hrest : host ++ '/' :: path ≠ [] := fun h ↦ hne (List.append_eq_nil_iff.mp h).1
  have hsplit : (host ++ '/' :: path).idxOf? '/' = some host.length :=
    idxOf?_of_not_mem hslash path
  rw [splitUrl, if_neg (not_not.mpr hfront), hdrop]
  simp only [if_neg hrest, hsplit, List.take_left, List.drop_left, if_neg hne]
  split_ifs <;> rfl

/-! ### What the server reads -/

theorem parseRequestLine_requestLine {method target : Text} (hmethod : method ≠ [])
    (htarget : target ≠ []) (hmethod' : ' ' ∉ method) (htarget' : ' ' ∉ target) :
    parseRequestLine (requestLine method target) = .ok (method, target, "HTTP/1.1".toList) := by
  have hsp1 : (requestLine method target).idxOf? ' ' = some method.length :=
    idxOf?_of_not_mem hmethod' _
  have hrest : (requestLine method target).drop (method.length + 1) =
      target ++ ' ' :: "HTTP/1.1".toList := by
    rw [requestLine, List.drop_length_add_append]
    rfl
  have hsp2 : (target ++ ' ' :: "HTTP/1.1".toList).idxOf? ' ' = some target.length :=
    idxOf?_of_not_mem htarget' _
  have hmethodTake : (requestLine method target).take method.length = method := by
    rw [requestLine, List.take_left]
  have hversion : (target ++ ' ' :: "HTTP/1.1".toList).drop (target.length + 1) =
      "HTTP/1.1".toList := by
    rw [List.drop_length_add_append]
    rfl
  simp only [parseRequestLine, hsp1, hrest, hsp2, hmethodTake, List.take_left, hversion]
  rw [if_neg]
  rintro (h | h | h)
  · exact hmethod h
  · exact htarget h
  · exact absurd h (by decide)

/-- A line of the request that the server can read. -/
structure Askable (method target : Text) : Prop where
  known : method ∈ [METHOD_GET, METHOD_POST]
  target_ne : target ≠ []
  target_space : ' ' ∉ target
  target_newline : '\n' ∉ target
  length : (textLine (requestLine method target)).length ≤ MAX_REQUEST_LINE_BYTES

theorem askable_iff {method target : Text} : Askable method target ↔
    (method = METHOD_GET ∨ method = METHOD_POST) ∧ target ≠ [] ∧ ' ' ∉ target ∧ '\n' ∉ target ∧
      (textLine (requestLine method target)).length ≤ MAX_REQUEST_LINE_BYTES := by
  have hknown : method ∈ [METHOD_GET, METHOD_POST] ↔ method = METHOD_GET ∨ method = METHOD_POST := by
    rw [List.mem_cons, List.mem_singleton]
  constructor
  · intro h
    exact ⟨hknown.mp h.known, h.target_ne, h.target_space, h.target_newline, h.length⟩
  · rintro ⟨hmethod, hne, hspace, hnewline, hlength⟩
    exact ⟨hknown.mpr hmethod, hne, hspace, hnewline, hlength⟩

instance (method target : Text) : Decidable (Askable method target) :=
  decidable_of_iff _ askable_iff.symm

theorem method_plain {method : Text} (h : method ∈ [METHOD_GET, METHOD_POST]) :
    method ≠ [] ∧ ' ' ∉ method ∧ '\n' ∉ method ∧ (textLine method).length ≤ 6 := by
  have hall : ∀ method ∈ [METHOD_GET, METHOD_POST],
      method ≠ [] ∧ ' ' ∉ method ∧ '\n' ∉ method ∧ (textLine method).length ≤ 6 := by decide
  exact hall method h

theorem Askable.line {method target : Text} (h : Askable method target) (rest : List UInt8) :
    Line MAX_REQUEST_LINE_BYTES (textLine (requestLine method target) ++ rest)
      (requestLine method target) rest := by
  refine line_textLine ?_ h.length rest
  simp only [requestLine, List.mem_append, List.mem_cons, not_or]
  exact ⟨(method_plain h.known).2.2.1, by decide, h.target_newline, by decide, by decide⟩

theorem Askable.accept {method target : Text} (h : Askable method target) :
    acceptRequestLine (requestLine method target) =
      .ok (method, target, "HTTP/1.1".toList) := by
  obtain ⟨hne, hspace, -, -⟩ := method_plain h.known
  have hknown : ¬(method ≠ "GET".toList ∧ method ≠ "POST".toList) := by
    rintro ⟨hget, hpost⟩
    rcases List.mem_cons.mp h.known with hmethod | hmethod
    · exact hget hmethod
    · exact hpost (List.mem_singleton.mp hmethod)
  rw [acceptRequestLine, parseRequestLine_requestLine hne h.target_ne hspace h.target_space]
  -- The version is the one that the check of the versions lets pass.
  exact if_neg hknown

/-- The host that the parser finds is the first value of the name `Host` that is not empty. -/
theorem hostOf_eq (lines : List (Text × Text)) (host : Text) :
    hostOf host lines = if host = [] then
      ((valuesOf "Host".toList lines).find? fun v ↦ v ≠ []).getD [] else host := by
  induction lines generalizing host with
  | nil =>
    by_cases hhost : host = []
    · rw [if_pos hhost, hhost]
      rfl
    · rw [if_neg hhost]
      rfl
  | cons line lines ih =>
    rw [hostOf, List.foldl_cons]
    change hostOf _ lines = _
    rw [ih, valuesOf_cons]
    generalize "Host".toList = name
    by_cases hhost : host = []
    · by_cases hname : line.1 = name
      · by_cases hvalue : line.2 = []
        · simp [hhost, hname, hvalue]
        · simp [hhost, hname, hvalue]
      · simp [hhost, hname]
    · simp [hhost]

theorem canonical_host : canonicalMimeHeaderKey cases "Host".toList = "Host".toList := by
  have hfixed : Fixed ("Host".toList, []) := by decide
  exact hfixed.canonical

/-- What is under a name when a request goes out. -/
theorem lookup_sentHeader (req : ClientRequest) (hostport ck : Text) :
    (req.sentHeader cases hostport).inner.lookup ck =
      if ck = "Content-Length".toList then some [natText req.body.length]
      else if ck = "Connection".toList then some ["close".toList]
      else if ck = "Host".toList then some [hostport]
      else req.header.inner.lookup ck := by
  have hlength : req.sentHeader cases hostport =
      ((req.header.set cases "Host".toList hostport).set cases "Connection".toList
        "close".toList).set cases "Content-Length".toList (natText req.body.length) := by
    unfold ClientRequest.sentHeader
    by_cases hbody : req.body = []
    · rw [if_pos hbody, hbody]
      rfl
    · rw [if_neg hbody]
  rw [hlength, Header.lookup_set, Header.lookup_set, Header.lookup_set, canonical_contentLength,
    canonical_connection, canonical_host]

theorem get_sentHeader (req : ClientRequest) (hostport : Text) {key : Text}
    (hlength : canonicalMimeHeaderKey cases key ≠ "Content-Length".toList)
    (hconnection : canonicalMimeHeaderKey cases key ≠ "Connection".toList)
    (hhost : canonicalMimeHeaderKey cases key ≠ "Host".toList) :
    (req.sentHeader cases hostport).get cases key = req.header.get cases key := by
  rw [Header.get, Header.get, Header.values, Header.values, lookup_sentHeader, if_neg hlength,
    if_neg hconnection, if_neg hhost]

/-- A request that the server can read, with the two parts of its URL. -/
structure Conveyable (cases : CaseTable) (req : ClientRequest) (hostport target : Text) :
    Prop where
  line : Askable req.method target
  host : hostport ≠ []
  legible : Legible cases (req.sentHeader cases hostport)
  /-- No `Transfer-Encoding` that names `chunked`. -/
  unencoded : ∀ te ∈ req.header.get cases "Transfer-Encoding".toList,
    ¬((te.splitOn ',').any fun part ↦
      eqIgnoreAsciiCase (AutomationState.trim part) "chunked".toList) = true
  /-- No `Upgrade` to HTTP/2. -/
  upgrade : ∀ up ∈ req.header.get cases "Upgrade".toList, ¬eqIgnoreAsciiCase up "h2c".toList = true
  body : (req.body.length : ℤ) ≤ MAX_BODY_BYTES

theorem canonical_upgrade : canonicalMimeHeaderKey cases "Upgrade".toList = "Upgrade".toList := by
  have hfixed : Fixed ("Upgrade".toList, []) := by decide
  exact hfixed.canonical

namespace Conveyable

theorem host_read (h : Conveyable cases req hostport target) :
    hostOf [] (headerLines (req.sentHeader cases hostport)) = hostport := by
  rw [hostOf_eq, if_pos rfl, valuesOf_headerLines, lookup_sentHeader, if_neg (by decide),
    if_neg (by decide), if_pos rfl, Option.getD_some, List.find?_cons_of_pos]
  · rfl
  · simpa using h.host

theorem accept (h : Conveyable cases req hostport target) :
    acceptHeaders cases "HTTP/1.1".toList (reread cases (req.sentHeader cases hostport))
      hostport = .ok () := by
  rw [acceptHeaders, if_neg fun hempty ↦ h.host hempty.2, h.legible.get_reread,
    get_sentHeader _ _ (by rw [canonical_transferEncoding]; decide)
      (by rw [canonical_transferEncoding]; decide) (by rw [canonical_transferEncoding]; decide)]
  cases hte : req.header.get cases "Transfer-Encoding".toList with
  | none => rfl
  | some te => exact if_neg (h.unencoded te hte)

theorem readBody (h : Conveyable cases req hostport target) (rest : List UInt8) :
    (Httpx.readBody cases (reread cases (req.sentHeader cases hostport))).Yields
      (req.body ++ rest) (.ok ((req.body.length : ℤ), req.body) rest) := by
  have hmax : MAX_BODY_BYTES = 1048576 := rfl
  have hbody := h.body
  have hlength : (reread cases (req.sentHeader cases hostport)).get cases
      "Content-Length".toList = some (natText req.body.length) := by
    rw [h.legible.get_reread, Header.get, Header.values, lookup_sentHeader,
      canonical_contentLength, if_pos rfl]
    rfl
  have hparse : parseContentLength (natText req.body.length) = .ok (req.body.length : ℤ) := by
    rw [parseContentLength, parseI64_natText (by omega)]
    exact if_neg (by omega)
  rw [Httpx.readBody, hlength]
  change (_ >>= _ : Reader ReadRequestError (ℤ × List UInt8)).Yields _ _
  rw [yields_bind_of_ok ((liftExcept_ok_iff _ _ _ _ _).mpr ⟨hparse, rfl⟩), if_neg (by omega)]
  by_cases hempty : req.body = []
  · rw [hempty]
    exact (yields_pure _ _ _).mpr rfl
  · have hpos : 0 < req.body.length := List.length_pos_of_ne_nil hempty
    rw [if_pos (by omega), Int.toNat_natCast,
      yields_bind_of_ok (yields_readExact_append _ req.body rest)]
    exact (yields_pure _ _ _).mpr rfl

end Conveyable

/-- The request that the server makes of what goes out. -/
def ClientRequest.received (cases : CaseTable) (req : ClientRequest) (hostport target : Text) :
    Request where
  method := req.method
  url := ⟨(splitPathQuery target).1, (splitPathQuery target).2⟩
  header := reread cases (req.sentHeader cases hostport)
  body := req.body
  host := hostport
  remoteAddr := []
  contentLength := req.body.length

theorem Conveyable.readRequest (h : Conveyable cases req hostport target) (rest : List UInt8) :
    (Httpx.readRequest cases).Yields (req.sent cases hostport target ++ rest)
      (.ok (req.received cases hostport target) rest) := by
  have hsent : req.sent cases hostport target ++ rest =
      textLine (requestLine req.method target) ++
        (lineBytes (headerLines (req.sentHeader cases hostport)) ++
          13 :: 10 :: (req.body ++ rest)) := by
    simp [ClientRequest.sent, writeRequest]
  have hupgrade : ¬((reread cases (req.sentHeader cases hostport)).get cases
      "Upgrade".toList).any (fun up ↦ eqIgnoreAsciiCase up "h2c".toList) = true := by
    rw [h.legible.get_reread, get_sentHeader _ _ (by rw [canonical_upgrade]; decide)
      (by rw [canonical_upgrade]; decide) (by rw [canonical_upgrade]; decide)]
    intro hany
    obtain ⟨up, hup, heq⟩ := Option.any_eq_true _ _ |>.mp hany
    exact h.upgrade up hup heq
  rw [hsent, Httpx.readRequest, yields_bind_of_ok (readLine_of_line (h.line.line _)),
    yields_bind_of_ok ((liftExcept_ok_iff _ _ _ _ _).mpr ⟨h.line.accept, rfl⟩),
    yields_bind_of_ok (readHeaders_headerLines h.legible _), h.host_read,
    yields_bind_of_ok ((liftExcept_ok_iff _ _ _ _ _).mpr ⟨h.accept, rfl⟩),
    yields_bind_of_ok (h.readBody rest)]
  simp only [if_neg hupgrade]
  exact (yields_pure _ _ _).mpr rfl

/-- The headers of the caller are read under their names with all their values, except for the three
that the transport sets. -/
theorem Conveyable.values (h : Conveyable cases req hostport target) (key : Text) :
    (req.received cases hostport target).header.values cases key =
      if canonicalMimeHeaderKey cases key = "Content-Length".toList then
        some [natText req.body.length]
      else if canonicalMimeHeaderKey cases key = "Connection".toList then some ["close".toList]
      else if canonicalMimeHeaderKey cases key = "Host".toList then some [hostport]
      else req.header.values cases key :=
  (h.legible.values_reread key).trans (lookup_sentHeader req hostport _)

/-- What the client sends is read by the server as the request it was made from, for every request
whose line, headers and body are within what the server takes: the method, the path and the query of
the URL, the host and port, the body, and under every name the values of the caller or the one of
the transport. Nothing of what follows on the connection is touched. -/
theorem request_round_trip (cases : CaseTable) (req : ClientRequest) {hostport target : Text}
    (h : Conveyable cases req hostport target) (rest : List UInt8) :
    ∃ r, (readRequest cases).Yields (req.sent cases hostport target ++ rest) (.ok r rest) ∧
      r.method = req.method ∧ splitPathQuery target = (r.url.path, r.url.rawQuery) ∧
      r.host = hostport ∧ r.body = req.body ∧ r.contentLength = req.body.length ∧
      ∀ key, r.header.values cases key =
        if canonicalMimeHeaderKey cases key = "Content-Length".toList then
          some [natText req.body.length]
        else if canonicalMimeHeaderKey cases key = "Connection".toList then some ["close".toList]
        else if canonicalMimeHeaderKey cases key = "Host".toList then some [hostport]
        else req.header.values cases key :=
  ⟨req.received cases hostport target, h.readRequest rest, rfl, rfl, rfl, rfl, rfl, h.values⟩

/-- A request with a query and a header of its own. -/
def hookRequest : ClientRequest where
  method := METHOD_POST
  url := "http://127.0.0.1:8123/api/hook?key=1".toList
  header := Header.new.set .ascii "Content-Type".toList "application/json".toList
  body := Codec.ascii "\x7b\x7d"

theorem conveyable_hookRequest :
    Conveyable .ascii hookRequest "127.0.0.1:8123".toList "/api/hook?key=1".toList where
  line := by decide +kernel
  host := by decide
  legible := by decide +kernel
  unencoded := by decide +kernel
  upgrade := by decide +kernel
  body := by decide +kernel

theorem request_round_trip_hookRequest :
    ∃ r, (readRequest .ascii).Yields (hookRequest.sent .ascii "127.0.0.1:8123".toList
        "/api/hook?key=1".toList ++ [71]) (.ok r [71]) ∧
      r.url.path = "/api/hook".toList ∧ r.url.rawQuery = "key=1".toList := by
  obtain ⟨r, hread, -, hurl, -⟩ :=
    request_round_trip .ascii hookRequest conveyable_hookRequest [71]
  obtain ⟨hpath, hquery⟩ := Prod.mk.inj hurl
  exact ⟨r, hread, hpath.symm, hquery.symm⟩

end DoorAccess.Httpx
