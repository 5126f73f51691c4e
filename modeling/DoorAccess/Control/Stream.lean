import DoorAccess.Control.Answers

/-!
# From a start to its stream

The answer to `POST /video/start` carries the address of the stream. A `GET` of exactly this address
goes past the pattern of the sessions to the handler of the streams with the identifier of the
session that was started (`stream_url_leads`). What makes this work is that identifiers have no
slash, so that the path falls into the same two parts that it was put together from.
-/

set_option autoImplicit false
set_option relaxedAutoImplicit false

namespace DoorAccess.Control

open Codec Httpx Json
open Video (Outdoor Session)

variable {σ : Type*} {cases : CaseTable} {sv : Server σ} {r : Request}

/-! ### How long an answer gets -/

theorem length_writeChar_le (escapeHtml : Bool) (ch : Char) :
    (writeChar escapeHtml ch).length ≤ 6 := by
  cases writtenAs escapeHtml ch with
  | short d _ h =>
    rw [h]
    exact (by decide : 2 ≤ 6)
  | unicode n hn h =>
    have hlen : (Radix.text 16 n).length ≤ 4 :=
      Radix.length_text_le (by decide) (by decide) (Nat.lt_of_lt_of_le hn (by decide))
    rw [h, writeUnicodeEscape, List.length_append, List.length_leftpad]
    show 2 + max 4 _ ≤ 6
    omega
  | plain h =>
    rw [h, String.length_utf8EncodeChar]
    exact Nat.le_trans ch.utf8Size_le_four (by decide)

theorem length_stringContent_le (escapeHtml : Bool) (s : Text) :
    (stringContent escapeHtml s).length ≤ 6 * s.length := by
  induction s with
  | nil => exact Nat.le_refl 0
  | cons ch s ih =>
    have hch := length_writeChar_le escapeHtml ch
    rw [stringContent, List.flatMap_cons, List.length_append, List.length_cons]
    rw [stringContent] at ih
    omega

theorem length_writeString_le (s : Text) (escapeHtml : Bool) :
    (writeString s escapeHtml).length ≤ 6 * s.length + 2 := by
  have hcontent := length_stringContent_le escapeHtml s
  rw [writeString, List.length_append, List.length_cons, List.length_singleton]
  omega

theorem length_decimalText_le {n : ℤ} (hn : n.natAbs < 10 ^ 19) :
    (decimalText n).length ≤ 20 := by
  have hlen : (Radix.text 10 n.natAbs).length ≤ 19 :=
    Radix.length_text_le (by decide) (by decide) hn
  rw [decimalText, List.length_append]
  split_ifs
  · show 1 + _ ≤ 20
    omega
  · show 0 + _ ≤ 20
    omega

theorem i64OfU64_natAbs_lt (n : ℕ) : (i64OfU64 n).natAbs < 10 ^ 19 := by
  have hlt : Int.bmod n (2 ^ 64) < (2 ^ 64 + 1) / 2 := Int.bmod_lt (by decide)
  have hle : -(2 ^ 64 / 2 : ℤ) ≤ Int.bmod n (2 ^ 64) := Int.le_bmod (by decide)
  unfold i64OfU64
  omega

/-! ### Identifiers -/

theorem ascii_of_isValidUuid {id : Str} (h : isValidUuid id = true) :
    id.length = 36 ∧ ∀ b ∈ id, b.toNat < 128 := by
  obtain ⟨hlen, hall⟩ := Bool.and_eq_true _ _ ▸ h
  refine ⟨eq_of_beq hlen, fun b hb ↦ ?_⟩
  obtain ⟨i, hi, rfl⟩ := List.mem_iff_getElem.mp hb
  have hbyte := List.all_eq_true.mp hall (id[i], i)
    (List.mem_zipIdx_iff_getElem?.mpr (List.getElem?_eq_getElem hi))
  have hhex : ∀ k < 256, isAsciiHexdigit (UInt8.ofNat k) = true → k < 128 := by decide +kernel
  change (if isHyphenPosition i = true then id[i] == 45 else isAsciiHexdigit id[i]) = true at hbyte
  split_ifs at hbyte
  · rw [eq_of_beq hbyte]
    decide
  · exact hhex _ id[i].toNat_lt (by rwa [UInt8.ofNat_toNat])

/-- The address of the stream of a session. -/
def streamUrl (id : Text) : Text :=
  "/video/".toList ++ id ++ "/stream.flv".toList

theorem textOfStr_streamUrl {sess : Session} (ttl : ℕ)
    (h : ∀ b ∈ sess.id, b.toNat < 128) :
    textOfStr (sess.info ttl).streamUrl = streamUrl (Utf8.ofAscii sess.id) := by
  have hfront : Utf8.encode "/video/".toList = ascii "/video/" := by decide
  have hback : Utf8.encode "/stream.flv".toList = ascii "/stream.flv" := by decide
  have hencode : Utf8.encode (streamUrl (Utf8.ofAscii sess.id)) = (sess.info ttl).streamUrl := by
    unfold streamUrl
    rw [Utf8.encode_append, Utf8.encode_append, Utf8.encode_ofAscii h, hfront, hback]
    rfl
  rw [← hencode, textOfStr, Utf8.decodeLossy_encode]

theorem Endpoint.video_pattern : Endpoint.video.pattern = "/video/".toList := rfl

/-- The address of a stream belongs to the endpoint of the sessions. -/
theorem serves_streamUrl (id : Text) : Endpoint.video.Serves (streamUrl id) := by
  have hlen : 18 ≤ (streamUrl id).length := by
    have hfront : "/video/".toList.length = 7 := by decide
    have hback : "/stream.flv".toList.length = 11 := by decide
    unfold streamUrl
    rw [List.length_append, List.length_append]
    omega
  refine ⟨?_, ?_, ?_⟩
  · unfold streamUrl
    rw [Endpoint.video_pattern, List.append_assoc]
    exact List.prefix_append _ _
  · intro heq
    rw [heq] at hlen
    exact absurd hlen (by decide)
  · intro heq
    rw [heq] at hlen
    exact absurd hlen (by decide)

theorem orders_stream (henabled : sv.video.isSome = true) {id : Text}
    (hid : isValidUuid (Utf8.encode id) = true) (hget : r.method = METHOD_GET)
    (hpath : r.url.path = streamUrl id) : Orders cases sv r (.video id "stream.flv".toList) := by
  have hback : "/stream.flv".toList = '/' :: "stream.flv".toList := by decide
  refine .video ?_ ?_ hid hget henabled
  · rw [hpath]
    exact serves_streamUrl id
  · rw [hpath, ← hback]
    rfl

/-! ### The answer to a start -/

/-- The answer to a start that succeeds. -/
def startedAnswer (id url : Text) (ttl : ℕ) : JsonAnswer where
  status := STATUS_OK
  allow := none
  fields := [("session_id".toList, .string id), ("stream_url".toList, .string url),
    ("ttl".toList, .number (i64OfU64 ttl))]

theorem length_startedBody (id url : Text) (seconds : ℤ) :
    (JsonAnswer.body ⟨STATUS_OK, none, [("session_id".toList, .string id),
      ("stream_url".toList, .string url), ("ttl".toList, .number seconds)]⟩).length =
      (writeString id true).length + (writeString url true).length +
        (decimalText seconds).length + 36 := by
  have hsession : writeString "session_id".toList true = ascii "\"session_id\"" := by
    decide +kernel
  have hstream : writeString "stream_url".toList true = ascii "\"stream_url\"" := by
    decide +kernel
  have httl : writeString "ttl".toList true = ascii "\"ttl\"" := by decide +kernel
  have hnewline : newline JsonOptions.MARSHAL = [] := rfl
  have hsession' : (ascii "\"session_id\"").length = 12 := by decide
  have hstream' : (ascii "\"stream_url\"").length = 12 := by decide
  have httl' : (ascii "\"ttl\"").length = 5 := by decide
  simp only [JsonAnswer.body, encodeStruct, writeFields, writeValue, comma,
    JsonOptions.MARSHAL, hsession, hstream, httl, newline, List.length_append, List.length_cons,
    List.length_nil, lt_self_iff_false, if_false, Bool.false_eq_true, Nat.zero_add,
    Nat.zero_lt_succ, if_true]
  omega

theorem length_startedAnswer_le {id url : Text} (ttl : ℕ) (hid : id.length ≤ 36)
    (hurl : url.length ≤ 54) : ((startedAnswer id url ttl).body.length : ℤ) ≤ MAX_BODY_BYTES := by
  have hlength : (startedAnswer id url ttl).body.length =
      (writeString id true).length + (writeString url true).length +
        (decimalText (i64OfU64 ttl)).length + 36 := length_startedBody id url _
  have h₁ := length_writeString_le id true
  have h₂ := length_writeString_le url true
  have h₃ := length_decimalText_le (i64OfU64_natAbs_lt ttl)
  have hle : (startedAnswer id url ttl).body.length ≤ 1048576 := by omega
  exact Int.ofNat_le.mpr hle

/-- The address in the answer to a start leads to its session: a client that reads the response and
asks for the stream there orders the stream of the session that was started, whose identifier is the
one in the answer. -/
theorem stream_url_leads (s : Plane σ) {mgr : Manager σ} (hmgr : sv.video = some mgr)
    {outdoor : Outdoor} (ho : Orders cases sv r (.videoStart outdoor)) {sess : Session} {ttl : ℕ}
    (hstart : (mgr.start outdoor s.world).1 = .ok (sess.info ttl)) {random : Vector UInt8 16}
    (hid : sess.id = uuidV4 random) :
    ∃ response sessionId url, (readResponse cases).Yields
        (respond cases (sv.serveHttp cases r s).1) (.ok response []) ∧
      response.statusCode = 200 ∧ Utf8.encode sessionId = sess.id ∧
      (∀ v, Denotes response.body v ↔ v = .object [("session_id".toList, .string sessionId),
        ("stream_url".toList, .string url),
        ("ttl".toList, .number (i64OfU64 (sess.info ttl).ttlSecs : ℤ))]) ∧
      ∀ r' : Request, r'.method = METHOD_GET → r'.url.path = url →
        Orders cases sv r' (.video sessionId "stream.flv".toList) := by
  have hvalid : isValidUuid sess.id = true := hid ▸ isValidUuid_uuidV4 random
  obtain ⟨hlen, hascii⟩ := ascii_of_isValidUuid hvalid
  have hencode := Utf8.encode_ofAscii hascii
  have hsessionId : textOfStr sess.id = Utf8.ofAscii sess.id := by
    rw [textOfStr, ← hencode, Utf8.decodeLossy_encode, hencode]
  have hanswer : (sv.serveHttp cases r s).1 = (startedAnswer (Utf8.ofAscii sess.id)
      (streamUrl (Utf8.ofAscii sess.id)) (sess.info ttl).ttlSecs).calls := by
    rcases settles cases sv r with ⟨o, ho', hperform⟩ | ⟨hnone, -⟩
    · obtain rfl := ho'.eq ho
      rw [hperform]
      simp only [Order.perform, hmgr, Option.elim, hstart, started,
        textOfStr_streamUrl ttl hascii]
      rw [← hsessionId]
      rfl
    · exact absurd ho (hnone _)
  have hidLen : (Utf8.ofAscii sess.id).length ≤ 36 := by
    rw [Utf8.ofAscii, List.length_map, hlen]
  have hurlLen : (streamUrl (Utf8.ofAscii sess.id)).length ≤ 54 := by
    have hfront : "/video/".toList.length = 7 := by decide
    have hback : "/stream.flv".toList.length = 11 := by decide
    unfold streamUrl
    rw [List.length_append, List.length_append]
    omega
  have hsendable : SizedSendable cases (startedAnswer (Utf8.ofAscii sess.id)
      (streamUrl (Utf8.ofAscii sess.id)) (sess.info ttl).ttlSecs).calls := JsonAnswer.sendable
    ⟨by show 100 ≤ 200; decide, by show 200 ≤ 999; decide, fun _ h ↦ by cases h⟩
    (length_startedAnswer_le (sess.info ttl).ttlSecs hidLen hurlLen)
  obtain ⟨response, hread⟩ := hsendable.readAs
  refine ⟨response, Utf8.ofAscii sess.id, streamUrl (Utf8.ofAscii sess.id), ?_, ?_, hencode,
    fun v ↦ ?_, fun r' hget hpath ↦ ?_⟩
  · rw [hanswer]
    exact hread.reads
  · rw [hread.status, JsonAnswer.status_calls]
    rfl
  · rw [hread.body, JsonAnswer.data_calls, denotes_body_iff]
    simp [startedAnswer, JsonValue.denote, JsonValue.denoteFields]
  · refine orders_stream (by rw [hmgr]; rfl) ?_ hget hpath
    rw [hencode]
    exact hvalid

/-! ### One door station -/

def gateUri : Text := "06020000@172.16.106.152:18022".toList

def gateSession : Session where
  id := uuidV4 (Vector.replicate 16 7)
  outdoor := ⟨[], [], [], 0, Vector.replicate 4 0⟩
  ttlDeadline := 0
  reporterSsrc := 0
  lastRtpAt := 0
  rtpPackets := 0
  frameBuf := .new
  stop := false
  monitor := ⟨false, 0, .default, .watching⟩

/-- A manager that has one session at hand. -/
def gateManager : Manager Unit where
  start := fun _ _ ↦ (.ok (gateSession.info 60000), ())
  stop := fun _ _ ↦ ()
  currentById := fun id _ ↦ (id == gateSession.id, ())
  waitIdr := fun _ _ ↦ (.error .timeout, ())
  closed := fun _ _ ↦ (false, ())
  latestIdr := fun _ _ ↦ (false, ())
  refreshTtl := fun _ _ ↦ ()
  run := fun _ _ _ ↦ ([], ())
  stopById := fun _ _ ↦ ()

def gateServer : Server Unit :=
  { idleServer with
    cfg := { Config.default with stations := [⟨gateUri, []⟩] }
    video := some gateManager }

/-- The start of the video of the station. -/
def gateRequest : Request :=
  { bareRequest METHOD_POST "/video/start".toList with
    header := Header.new.set .ascii "Content-Type".toList "application/json".toList
    body := ascii "\x7b\"outdoor\":\"06020000@172.16.106.152:18022\"\x7d" }

theorem gateRequest_orders :
    ∃ outdoor, Orders .ascii gateServer gateRequest (.videoStart outdoor) := by
  obtain ⟨outdoor, houtdoor⟩ : ∃ outdoor, parseOutdoor (Utf8.encode gateUri) = .ok outdoor :=
    ⟨⟨Utf8.encode gateUri, ascii "06020000", ascii "172.16.106.152", 18022,
      #v[0x06, 0x02, 0x00, 0x00]⟩, by decide +kernel⟩
  have huri := parseOutdoor_uri houtdoor
  refine ⟨outdoor, .videoStart rfl (by decide +kernel) rfl ⟨?_, ?_, ?_⟩⟩
  · rw [huri]
    decide +kernel
  · rw [huri]
    exact houtdoor
  · exact ⟨⟨gateUri, []⟩, List.mem_singleton_self _, huri.symm⟩

theorem stream_url_leads_gate :
    ∃ response sessionId url, (readResponse .ascii).Yields
        (respond .ascii (gateServer.serveHttp .ascii gateRequest idlePlane).1) (.ok response []) ∧
      response.statusCode = 200 ∧ Utf8.encode sessionId = gateSession.id ∧
      ∀ r' : Request, r'.method = METHOD_GET → r'.url.path = url →
        Orders .ascii gateServer r' (.video sessionId "stream.flv".toList) := by
  obtain ⟨outdoor, ho⟩ := gateRequest_orders
  obtain ⟨response, sessionId, url, hreads, hstatus, hid, -, hleads⟩ :=
    @stream_url_leads _ .ascii gateServer gateRequest idlePlane gateManager rfl outdoor ho
      gateSession 60000 rfl (Vector.replicate 16 7) rfl
  exact ⟨response, sessionId, url, hreads, hstatus, hid, hleads⟩

end DoorAccess.Control
