import DoorAccess.Control.Run
import DoorAccess.Httpx.Sized

/-!
# What the daemon answers

Whatever the control plane answers can be read: the bytes of the response are read back in full by
`read_response`, with the status and the data that the handler gave, whether the handler announced
the length of its data or left them to be sent in chunks, and data of the type `application/json`
are a JSON document (`serve_readable`). `GET /automation` behind any sequence of requests reports
the flags that the toggles among them leave (`automation_reported`).
-/

set_option autoImplicit false
set_option relaxedAutoImplicit false

namespace DoorAccess.Control

open Codec Httpx Unlock Json
open Httpx.ResponseWriter (textLine headerLine)

variable {σ : Type*} {cases : CaseTable} {sv : Server σ} {r : Request}

/-! ### A server at rest -/

/-- A server without door stations and without video. -/
def idleServer : Server Unit where
  cfg := .default
  version := "1.0".toList
  pid := 1
  probeDial := fun _ _ ↦ false
  persist := true
  pusher := true
  dispatch := fun _ _ _ _ _ ↦ (⟨OK, 0, false, none⟩, ())
  video := none
  shown := fun _ ↦ true

def idlePlane : Plane Unit := ⟨some ⟨true, false⟩, (), []⟩

/-- A request without headers and without a body. -/
def bareRequest (method path : Text) : Request :=
  ⟨method, ⟨path, []⟩, .new, [], [], [], 0⟩

/-! ### The kinds of answers -/

/-- An answer in JSON. -/
structure JsonAnswer where
  status : ℕ
  allow : Option Text
  fields : List (Text × JsonValue)

namespace JsonAnswer

def body (a : JsonAnswer) : List UInt8 :=
  encodeStruct a.fields .MARSHAL

def calls (a : JsonAnswer) : List Call :=
  (a.allow.map fun allowed ↦ Call.set "Allow".toList allowed).toList ++
    writeJson a.status (some a.fields)

structure Sound (a : JsonAnswer) : Prop where
  status_ge : 100 ≤ a.status
  status_le : a.status ≤ 999
  allow : ∀ allowed ∈ a.allow, allowed ∈ [METHOD_GET, METHOD_POST]

end JsonAnswer

/-- The answers of the control plane. -/
inductive Answer : List Call → Prop
  | json (a : JsonAnswer) (h : a.Sound) : Answer a.calls
  | notFound : Answer http404
  | playback : Answer [.set "Content-Length".toList "0".toList, .writeHeader STATUS_OK]
  | info (text : List UInt8) (h : goJsonSyntaxCheck text = .ok ()) :
      Answer [.set "Content-Type".toList "application/json".toList, .writeHeader STATUS_OK,
        .write text]
  | stream (tags : List Video.Call) :
      Answer ([.set "Content-Type".toList "video/x-flv".toList,
        .set "Cache-Control".toList "no-store".toList, .writeHeader STATUS_OK] ++
          tags.map bodyCall)

theorem Answer.error {status : ℕ} (hge : 100 ≤ status) (hle : status ≤ 999) (msg : Text) :
    Answer (errorJson status msg) :=
  .json ⟨status, none, [("error".toList, .string msg)]⟩ ⟨hge, hle, fun _ h ↦ by cases h⟩

theorem Answer.fields {status : ℕ} (hge : 100 ≤ status) (hle : status ≤ 999)
    (fields : List (Text × JsonValue)) : Answer (writeJson status (some fields)) :=
  .json ⟨status, none, fields⟩ ⟨hge, hle, fun _ h ↦ by cases h⟩

theorem Report.answer {s : Plane σ} {calls : List Call} (h : Report sv s calls) :
    Answer calls := by
  cases h with
  | notFound => exact .notFound
  | error msg hstatus =>
    have hrange : ∀ status ∈ [400, 404, 415, 503], 100 ≤ status ∧ status ≤ 999 := by decide
    exact .error (hrange _ hstatus).1 (hrange _ hstatus).2 msg
  | notAllowed method hallowed =>
    refine .json ⟨STATUS_METHOD_NOT_ALLOWED, some _, [("error".toList, .string _)]⟩
      ⟨by show 100 ≤ 405; decide, by show 405 ≤ 999; decide, fun allowed h ↦ ?_⟩
    rwa [← Option.some.inj h]
  | notConfigured => exact .fields (by decide) (by decide) _
  | automation => exact .fields (by decide) (by decide) _
  | info => exact .info _ (Info.faithful_renderJson _).goCheck
  | playback => exact .playback

/-- The status of the answer to an unlock. -/
theorem respondUnlockOutcome_status (pusher : Bool) (event : String) (outcome : UnlockOutcome)
    (from_ to_ : Str) : (respondUnlockOutcome pusher event outcome from_ to_).status = STATUS_OK ∨
      (respondUnlockOutcome pusher event outcome from_ to_).status =
        STATUS_SERVICE_UNAVAILABLE := by
  have hwire (kind : Option WireKind) :
      (respondWireFailure pusher event kind from_ to_).status = STATUS_OK ∨
        (respondWireFailure pusher event kind from_ to_).status =
          STATUS_SERVICE_UNAVAILABLE := by
    unfold respondWireFailure
    dsimp only
    split_ifs
    · exact Or.inl rfl
    · exact Or.inr rfl
  unfold respondUnlockOutcome
  split_ifs
  · exact Or.inl rfl
  · exact Or.inl rfl
  · exact hwire _
  · exact hwire _

/-- The statuses that only come of an order, and 200 and 503, which also come of none. -/
def orderStatuses : List ℕ :=
  [STATUS_OK, STATUS_NOT_FOUND, STATUS_CONFLICT, STATUS_SERVICE_UNAVAILABLE,
    STATUS_GATEWAY_TIMEOUT]

/-- The answer to an order. -/
structure OrderAnswer (calls : List Call) : Prop where
  answer : Answer calls
  status : firstStatus calls ∈ orderStatuses

theorem OrderAnswer.error {status : ℕ} (h : status ∈ orderStatuses) (msg : Text) :
    OrderAnswer (errorJson status msg) := by
  have hrange : ∀ status ∈ orderStatuses, 100 ≤ status ∧ status ≤ 999 := by decide
  exact ⟨.error (hrange status h).1 (hrange status h).2 msg, h⟩

theorem OrderAnswer.fields {status : ℕ} (h : status ∈ orderStatuses)
    (fields : List (Text × JsonValue)) : OrderAnswer (writeJson status (some fields)) := by
  have hrange : ∀ status ∈ orderStatuses, 100 ≤ status ∧ status ≤ 999 := by decide
  exact ⟨.fields (hrange status h).1 (hrange status h).2 fields, h⟩

theorem serveVideoStream_answer (mgr : Manager σ) (id : Str) (r : Request) (s : Plane σ) :
    OrderAnswer (serveVideoStream mgr id r s).1 := by
  unfold serveVideoStream
  rcases hwait : mgr.waitIdr id s.world with ⟨_ | _, world⟩
  · rename_i e
    cases e <;> exact .error (by decide) _
  · simp only
    by_cases hclosed : (mgr.closed id world).1 = true
    · simp only [hclosed, if_true]
      exact .error (by decide) _
    · by_cases hready : (mgr.latestIdr id (mgr.closed id world).2).1 = true
      · simp only [hclosed, hready, not_true, if_false, Bool.false_eq_true]
        exact ⟨.stream _, by show STATUS_OK ∈ orderStatuses; decide⟩
      · simp only [hclosed, hready, not_false_eq_true, if_true, if_false, Bool.false_eq_true]
        exact .error (by decide) _

theorem Orders.answer {o : Order} (h : Orders cases sv r o) (s : Plane σ) :
    OrderAnswer (o.perform sv r s).1 := by
  cases h with
  | autoUnlock => exact .fields (by decide) _
  | autoHangup => exact .fields (by decide) _
  | @unlock _ from_ to_ callerBcd calleeBcd targetIp targetPort =>
    simp only [Order.perform, unlocked]
    rcases respondUnlockOutcome_status sv.pusher "unlock"
      (sv.dispatch callerBcd calleeBcd targetIp targetPort s.world).1 from_ to_ with h | h
    · rw [h]
      exact .fields (by decide) _
    · rw [h]
      exact .fields (by decide) _
  | @videoStart outdoor _ _ henabled _ =>
    obtain ⟨mgr, hmgr⟩ := Option.isSome_iff_exists.mp henabled
    simp only [Order.perform, hmgr, Option.elim]
    cases (mgr.start outdoor s.world).1 with
    | ok info => exact .fields (by decide) _
    | error e =>
      unfold started
      dsimp only
      split_ifs
      · exact .error (by decide) _
      · exact .error (by decide) _
  | videoStop _ _ henabled _ =>
    obtain ⟨mgr, hmgr⟩ := Option.isSome_iff_exists.mp henabled
    simp only [Order.perform, hmgr, Option.elim]
    exact .fields (by decide) _
  | @video sessionId resource _ _ _ _ henabled =>
    obtain ⟨mgr, hmgr⟩ := Option.isSome_iff_exists.mp henabled
    simp only [Order.perform, hmgr, Option.elim]
    by_cases hcurrent : (mgr.currentById (Utf8.encode sessionId) s.world).1 = true
    · by_cases hstream : resource = "stream.flv".toList
      · simp only [hcurrent, hstream, not_true, if_false, if_true]
        exact serveVideoStream_answer mgr _ r _
      · simp only [hcurrent, hstream, not_true, if_false]
        split_ifs
        · exact .error (by decide) _
        · exact .error (by decide) _
    · simp only [hcurrent, Bool.false_eq_true, not_false_eq_true, if_true]
      exact .error (by decide) _

/-- A request that is answered with 400, 405 or 415 orders nothing and leaves everything as it was,
for every server, every plane and every request. -/
theorem refused_unchanged (s : Plane σ)
    (h : firstStatus (sv.serveHttp cases r s).1 ∈ [400, 405, 415]) :
    (∀ o, ¬Orders cases sv r o) ∧ (sv.serveHttp cases r s).2 = s := by
  rcases settles cases sv r with ⟨o, ho, hperform⟩ | ⟨hnone, hreport⟩
  · have hstatus := (ho.answer s).status
    rw [← hperform s] at hstatus
    have hdisjoint : ∀ status ∈ orderStatuses, status ∉ [400, 405, 415] := by decide
    exact absurd h (hdisjoint _ hstatus)
  · obtain ⟨calls, -, hserve⟩ := hreport s
    rw [hserve]
    exact ⟨hnone, rfl⟩

/-- A toggle by `GET`, on a server whose flags are set. -/
theorem refused_unchanged_autoUnlock :
    let r := bareRequest METHOD_GET "/auto_unlock".toList
    firstStatus (idleServer.serveHttp .ascii r idlePlane).1 ∈ [400, 405, 415] ∧
      (∀ o, ¬Orders .ascii idleServer r o) ∧
      (idleServer.serveHttp .ascii r idlePlane).2 = idlePlane := by
  have hstatus : firstStatus (idleServer.serveHttp .ascii
      (bareRequest METHOD_GET "/auto_unlock".toList) idlePlane).1 ∈ [400, 405, 415] := by
    decide +kernel
  exact ⟨hstatus, refused_unchanged idlePlane hstatus⟩

theorem serve_answer (cases : CaseTable) (sv : Server σ) (r : Request) (s : Plane σ) :
    Answer (sv.serveHttp cases r s).1 := by
  rcases settles cases sv r with ⟨o, ho, hperform⟩ | ⟨-, hreport⟩
  · rw [hperform]
    exact (ho.answer s).answer
  · obtain ⟨calls, hcalls, hserve⟩ := hreport s
    rw [hserve]
    exact hcalls.answer

/-! ### Reading the answers -/

theorem JsonAnswer.setBefore_calls (a : JsonAnswer) : setBefore a.calls =
    (a.allow.map fun allowed ↦ ("Allow".toList, allowed)).toList ++
      [("Content-Type".toList, "application/json".toList),
        ("Content-Length".toList, natText a.body.length)] := by
  unfold JsonAnswer.calls
  cases a.allow <;> rfl

theorem JsonAnswer.data_calls (a : JsonAnswer) : a.calls.flatMap Call.data = a.body := by
  unfold JsonAnswer.calls
  cases a.allow <;> exact List.append_nil _

theorem JsonAnswer.status_calls (a : JsonAnswer) : firstStatus a.calls = a.status := by
  unfold JsonAnswer.calls
  cases a.allow <;> rfl

theorem fixed_allow {allowed : Text} (h : allowed ∈ [METHOD_GET, METHOD_POST]) :
    Fixed ("Allow".toList, allowed) ∧
      (textLine (headerLine ("Allow".toList, allowed))).length ≤ 13 := by
  have hall : ∀ allowed ∈ [METHOD_GET, METHOD_POST], Fixed ("Allow".toList, allowed) ∧
      (textLine (headerLine ("Allow".toList, allowed))).length ≤ 13 := by decide
  exact hall allowed h

theorem JsonAnswer.sendable {a : JsonAnswer} (h : a.Sound)
    (hbody : (a.body.length : ℤ) ≤ MAX_BODY_BYTES) : SizedSendable cases a.calls := by
  have hmax : MAX_BODY_BYTES = 1048576 := rfl
  have hlen : a.body.length ≤ 1048576 := by omega
  have hfixed : ∀ l ∈ setBefore a.calls ++ [("Connection".toList, "close".toList)], Fixed l := by
    rw [a.setBefore_calls]
    intro l hl
    simp only [List.mem_append, List.mem_cons, List.not_mem_nil, or_false] at hl
    rcases hl with (hl | rfl | rfl) | rfl
    · obtain ⟨allowed, hallowed, rfl⟩ := Option.map_eq_some_iff.mp (Option.mem_toList.mp hl)
      exact (fixed_allow (h.allow allowed hallowed)).1
    · decide
    · exact fixed_contentLength hlen
    · decide
  have hline := length_contentLength_line hlen
  refine sizedSendable_of_fixed hfixed ?_ ?_ ?_ ?_ ?_ ?_ ?_
  · rw [a.setBefore_calls]
    cases a.allow with
    | none => exact (by decide : 2 < 64)
    | some _ => exact (by decide : 3 < 64)
  · rw [a.setBefore_calls]
    have hplain : (textLine (headerLine ("Content-Type".toList,
        "application/json".toList))).length = 32 := by decide
    have hclose : (textLine (headerLine ("Connection".toList, "close".toList))).length = 19 := by
      decide
    cases hallow : a.allow with
    | none =>
      simp only [Option.map_none, Option.toList_none, List.nil_append, List.cons_append,
        List.map_cons, List.map_nil, List.sum_cons, List.sum_nil, hplain, hclose, MAX_HEADER_BYTES]
      omega
    | some allowed =>
      have hallowed := (fixed_allow (h.allow allowed hallow)).2
      simp only [Option.map_some, Option.toList_some, List.nil_append, List.cons_append,
        List.map_cons, List.map_nil, List.sum_cons, List.sum_nil, hplain, hclose, MAX_HEADER_BYTES]
      omega
  · rw [a.setBefore_calls, a.data_calls]
    cases a.allow <;> rfl
  · rw [a.setBefore_calls]
    cases a.allow <;> rfl
  · rw [a.status_calls]
    exact h.status_ge
  · rw [a.status_calls]
    exact h.status_le
  · rwa [a.data_calls]

/-- Whatever the control plane answers can be read back, as long as it is no longer than the client
takes, and data of the type `application/json` are a JSON document. -/
structure Legible (cases : CaseTable) (calls : List Call) (response : ClientResponse) : Prop
    extends ReadAs cases calls response where
  json : response.header.get cases "Content-Type".toList = some "application/json".toList →
    goJsonSyntaxCheck response.body = .ok ()

theorem canonical_contentType :
    canonicalMimeHeaderKey cases "Content-Type".toList = "Content-Type".toList := by
  have hfixed : Fixed ("Content-Type".toList, []) := by decide
  exact hfixed.canonical

theorem contentType_of_readAs {calls : List Call} {response : ClientResponse}
    (h : ReadAs cases calls response) (hfixed : ∀ l ∈ setBefore calls, Fixed l) :
    response.header.get cases "Content-Type".toList =
      (valuesOf "Content-Type".toList (setBefore calls)).getLast? := by
  rw [h.header _ (by rw [canonical_contentType]; decide)
    (by rw [canonical_contentType]; decide), canonical_contentType, lastSet_fixed hfixed]

theorem legible_of_readAs {calls : List Call} {response : ClientResponse}
    (h : ReadAs cases calls response) (hfixed : ∀ l ∈ setBefore calls, Fixed l)
    (hjson : (valuesOf "Content-Type".toList (setBefore calls)).getLast? =
      some "application/json".toList → goJsonSyntaxCheck (calls.flatMap Call.data) = .ok ()) :
    Legible cases calls response where
  toReadAs := h
  json htype := by
    rw [contentType_of_readAs h hfixed] at htype
    rw [h.body]
    exact hjson htype

theorem setBefore_stream (tags : List Video.Call) :
    setBefore ([.set "Content-Type".toList "video/x-flv".toList,
      .set "Cache-Control".toList "no-store".toList, .writeHeader STATUS_OK] ++
        tags.map bodyCall) = [("Content-Type".toList, "video/x-flv".toList),
          ("Cache-Control".toList, "no-store".toList)] := rfl

theorem Answer.legible {calls : List Call} (h : Answer calls)
    (hbody : ((calls.flatMap Call.data).length : ℤ) ≤ MAX_BODY_BYTES) :
    ∃ response, Legible cases calls response := by
  cases h with
  | json a ha =>
    rw [a.data_calls] at hbody
    have hsendable : SizedSendable cases a.calls := JsonAnswer.sendable ha hbody
    obtain ⟨response, hread⟩ := hsendable.readAs
    have hmax : MAX_BODY_BYTES = 1048576 := rfl
    refine ⟨response, legible_of_readAs hread (fun l hl ↦ ?_) fun _ ↦ ?_⟩
    · rw [a.setBefore_calls] at hl
      simp only [List.mem_append, List.mem_cons, List.not_mem_nil, or_false] at hl
      rcases hl with hl | rfl | rfl
      · obtain ⟨allowed, hallowed, rfl⟩ := Option.map_eq_some_iff.mp (Option.mem_toList.mp hl)
        exact (fixed_allow (ha.allow allowed hallowed)).1
      · decide
      · exact fixed_contentLength (by omega)
    · rw [a.data_calls, JsonAnswer.body, Info.encodeStruct_eq]
      exact (faithful_encodeValue _ _).goCheck
  | notFound =>
    have hsendable : SizedSendable cases http404 := sizedSendable_of_fixed (by decide +kernel)
      (by decide) (by decide +kernel) (by decide) (by decide) (by decide) (by decide) hbody
    obtain ⟨response, hread⟩ := hsendable.readAs
    exact ⟨response, legible_of_readAs hread (by decide +kernel) fun htype ↦
      absurd htype (by decide)⟩
  | playback =>
    have hsendable : SizedSendable cases [.set "Content-Length".toList "0".toList,
        .writeHeader STATUS_OK] := sizedSendable_of_fixed (by decide +kernel)
      (by decide) (by decide +kernel) (by decide) (by decide) (by decide) (by decide) hbody
    obtain ⟨response, hread⟩ := hsendable.readAs
    exact ⟨response, legible_of_readAs hread (by decide +kernel) fun htype ↦
      absurd htype (by decide)⟩
  | info text htext =>
    have hsendable : Sendable cases [.set "Content-Type".toList "application/json".toList,
        .writeHeader STATUS_OK, .write text] := sendable_of_fixed
      (by show ∀ l ∈ [_, _, _], Fixed l; decide +kernel) (by show 1 + 1 < 64; decide)
      (by show List.sum (List.map _ [_, _, _]) ≤ 16384; decide +kernel) rfl
      (by show 100 ≤ 200; decide) (by show 200 ≤ 999; decide) hbody
    obtain ⟨response, hread⟩ := hsendable.readAs
    refine ⟨response, legible_of_readAs hread (by show ∀ l ∈ [_], Fixed l; decide +kernel)
      fun _ ↦ ?_⟩
    rw [show ([.set "Content-Type".toList "application/json".toList, .writeHeader STATUS_OK,
      .write text] : List Call).flatMap Call.data = text from List.append_nil text]
    exact htext
  | stream tags =>
    have hsendable : Sendable cases ([.set "Content-Type".toList "video/x-flv".toList,
        .set "Cache-Control".toList "no-store".toList, .writeHeader STATUS_OK] ++
          tags.map bodyCall) := sendable_of_fixed
      (by rw [setBefore_stream]; decide +kernel) (by rw [setBefore_stream]; decide)
      (by rw [setBefore_stream]; decide +kernel) (by rw [setBefore_stream]; decide)
      (by show 100 ≤ 200; decide) (by show 200 ≤ 999; decide) hbody
    obtain ⟨response, hread⟩ := hsendable.readAs
    refine ⟨response, legible_of_readAs hread (by rw [setBefore_stream]; decide +kernel)
      fun htype ↦ ?_⟩
    rw [setBefore_stream] at htype
    exact absurd htype (by decide)

/-- For every server, plane and request: what the daemon answers is read back in full, with its
status, its data in order and its content type, and JSON is JSON, as long as the data are no longer
than a client of its own kind takes. -/
theorem serve_readable (cases : CaseTable) (sv : Server σ) (r : Request) (s : Plane σ)
    (hbody : (((sv.serveHttp cases r s).1.flatMap Call.data).length : ℤ) ≤ MAX_BODY_BYTES) :
    ∃ response, (readResponse cases).Yields (respond cases (sv.serveHttp cases r s).1)
        (.ok response []) ∧
      response.statusCode = firstStatus (sv.serveHttp cases r s).1 ∧
      response.body = (sv.serveHttp cases r s).1.flatMap Call.data ∧
      response.header.get cases "Content-Type".toList =
        lastSet cases (setBefore (sv.serveHttp cases r s).1) "Content-Type".toList ∧
      (response.header.get cases "Content-Type".toList = some "application/json".toList →
        goJsonSyntaxCheck response.body = .ok ()) := by
  obtain ⟨response, h⟩ : ∃ response, Legible cases (sv.serveHttp cases r s).1 response :=
    (serve_answer cases sv r s).legible hbody
  have htype := h.header "Content-Type".toList (by rw [canonical_contentType]; decide)
    (by rw [canonical_contentType]; decide)
  rw [canonical_contentType] at htype
  exact ⟨response, h.reads, h.status, h.body, htype, h.json⟩

theorem serve_readable_automation :
    let r := bareRequest METHOD_GET "/automation".toList
    let calls := (idleServer.serveHttp .ascii r idlePlane).1
    ((calls.flatMap Call.data).length : ℤ) ≤ MAX_BODY_BYTES ∧
      ∃ response, (readResponse .ascii).Yields (respond .ascii calls) (.ok response []) ∧
        response.statusCode = firstStatus calls ∧ response.body = calls.flatMap Call.data ∧
        response.header.get .ascii "Content-Type".toList =
          lastSet .ascii (setBefore calls) "Content-Type".toList ∧
        (response.header.get .ascii "Content-Type".toList = some "application/json".toList →
          goJsonSyntaxCheck response.body = .ok ()) := by
  have hbody : (((idleServer.serveHttp .ascii (bareRequest METHOD_GET "/automation".toList)
      idlePlane).1.flatMap Call.data).length : ℤ) ≤ MAX_BODY_BYTES := by decide +kernel
  exact ⟨hbody, serve_readable .ascii idleServer _ idlePlane hbody⟩

/-! ### The flags -/

/-- The value that the flags are reported as. -/
def flagsValue (flags : AutomationState.State) : Value :=
  .object [("result".toList, .number 0), ("auto_unlock".toList, .bool flags.autoUnlock),
    ("auto_hangup".toList, .bool flags.autoHangup)]

/-- The answer to `GET /automation`. -/
def flagsAnswer (flags : AutomationState.State) : JsonAnswer where
  status := STATUS_OK
  allow := none
  fields := [("result".toList, .number 0), ("auto_unlock".toList, .bool flags.autoUnlock),
    ("auto_hangup".toList, .bool flags.autoHangup)]

theorem flagsAnswer_sound (flags : AutomationState.State) :
    (flagsAnswer flags).Sound ∧ ((flagsAnswer flags).body.length : ℤ) ≤ MAX_BODY_BYTES := by
  refine ⟨⟨by show 100 ≤ 200; decide, by show 200 ≤ 999; decide, fun _ h ↦ by cases h⟩, ?_⟩
  obtain ⟨autoUnlock, autoHangup⟩ := flags
  cases autoUnlock <;> cases autoHangup <;> decide +kernel

theorem denotes_body_iff {a : JsonAnswer} {v : Value} :
    Denotes a.body v ↔ v = (JsonValue.struct a.fields).denote := by
  have hfaithful := faithful_encodeValue (.struct a.fields) .MARSHAL
  rw [JsonAnswer.body, Info.encodeStruct_eq]
  refine ⟨hfaithful.unique v, ?_⟩
  rintro rfl
  exact hfaithful.denotes

theorem denotes_flagsAnswer {flags : AutomationState.State} {v : Value} :
    Denotes (flagsAnswer flags).body v ↔ v = flagsValue flags := by
  rw [denotes_body_iff]
  simp [flagsAnswer, flagsValue, JsonValue.denote, JsonValue.denoteFields]

/-- Behind any sequence of requests, `GET /automation` answers with the flags that the toggles among
them leave, in a response whose body can be read as these flags and nothing else, and changes
nothing. -/
theorem automation_reported (cases : CaseTable) (sv : Server σ) (rs : List Request) (s : Plane σ)
    {flags : AutomationState.State} (hflags : s.automation = some flags) {r : Request}
    (hpath : r.url.path = "/automation".toList) (hget : r.method = METHOD_GET) :
    ∃ orders, OrdersAll cases sv rs orders ∧
      (sv.serveHttp cases r (sv.run cases rs s)).2 = sv.run cases rs s ∧
      ∃ response, (readResponse cases).Yields
          (respond cases (sv.serveHttp cases r (sv.run cases rs s)).1) (.ok response []) ∧
        response.statusCode = 200 ∧
        ∀ v, Denotes response.body v ↔ v = flagsValue (flagsAfter orders.reduceOption flags) := by
  obtain ⟨orders, hall, hdoes⟩ := run_does cases sv rs s
  have hafter := hdoes.automation
  rw [hflags] at hafter
  generalize sv.run cases rs s = t at hafter ⊢
  have hserves : endpointOf r.url.path = some .automation := endpointOf_eq_some_iff.mpr hpath
  have hserve : sv.serveHttp cases r t =
      ((flagsAnswer (flagsAfter orders.reduceOption flags)).calls, t) := by
    rw [serveHttp_eq, hserves]
    show methodGuard METHOD_GET handleAutomationGet r t = _
    rw [methodGuard, if_neg (not_not.mpr hget), handleAutomationGet, hafter]
    rfl
  obtain ⟨hsound, hlength⟩ := flagsAnswer_sound (flagsAfter orders.reduceOption flags)
  have hsendable : SizedSendable cases (flagsAnswer (flagsAfter orders.reduceOption flags)).calls :=
    JsonAnswer.sendable hsound hlength
  obtain ⟨response, hread⟩ := hsendable.readAs
  refine ⟨orders, hall, ?_, response, ?_, ?_, fun v ↦ ?_⟩
  · rw [hserve]
  · rw [hserve]
    exact hread.reads
  · rw [hread.status, JsonAnswer.status_calls]
    rfl
  · rw [hread.body, JsonAnswer.data_calls]
    exact denotes_flagsAnswer

/-- One toggle, and what is reported behind it. -/
theorem automation_reported_toggled :
    let toggle (path : Text) : Request :=
      { bareRequest METHOD_POST path with
        header := Header.new.set .ascii "Content-Type".toList "application/json".toList
        body := ascii "\x7b\"on\":true\x7d" }
    let s := idleServer.run .ascii [toggle "/auto_hangup".toList] idlePlane
    ∃ response, (readResponse .ascii).Yields (respond .ascii (idleServer.serveHttp .ascii
        (bareRequest METHOD_GET "/automation".toList) s).1) (.ok response []) ∧
      response.statusCode = 200 := by
  intro toggle s
  obtain ⟨_, -, -, response, hreads, hstatus, -⟩ :=
    automation_reported .ascii idleServer [toggle "/auto_hangup".toList] idlePlane
      (rfl : idlePlane.automation = some ⟨true, false⟩)
      (rfl : (bareRequest METHOD_GET "/automation".toList).url.path = _) rfl
  exact ⟨response, hreads, hstatus⟩

end DoorAccess.Control
