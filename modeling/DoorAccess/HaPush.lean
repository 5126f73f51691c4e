import DoorAccess.Config.Load
import DoorAccess.Control.Respond
import DoorAccess.Httpx.Client
import DoorAccess.Httpx.Json
import DoorAccess.Lib.SortedMap

/-!
# Pushes to Home Assistant

`ha_push.rs` tells Home Assistant what happened: the event and its fields as one JSON object, with a
token, to the address of the configuration. `push_delivered` follows a push from the fields of its
caller to what an HTTP server reads: the object that is read has the event and the last value of
each field and nothing else, whatever the order of the fields was.

What the operating system answers about its addresses is a parameter.
-/

set_option autoImplicit false
set_option relaxedAutoImplicit false

namespace DoorAccess.HaPush

open ByteStream Codec Httpx Json
open Httpx.ResponseWriter (textLine headerLine)

/-! ### The request -/

/-- `build_url`, with brackets around an address of IPv6. -/
def buildUrl (host : Text) (port : ℤ) (api : Text) : Text :=
  if host.contains ':' then "http://[".toList ++ host ++ "]:".toList ++ intText port ++ api
  else "http://".toList ++ host ++ ":".toList ++ intText port ++ api

/-- The members of the body. The order of the keys is that of their characters, which is the order
of their bytes in UTF-8. -/
def pushBody (event : Text) (fields : SortedMap Text Text) : SortedMap Text JsonValue :=
  (SortedMap.empty.insert "event".toList (.string event)).insertAll
    (fields.map JsonValue.string).entries

def pushBytes (event : Text) (fields : SortedMap Text Text) : List UInt8 :=
  encodeMap (pushBody event fields).entries .MARSHAL

section Push

variable (cases : CaseTable) (shown : Char → Bool)

def pushRequest (cfg : Config) (event : Text) (fields : SortedMap Text Text) :
    Except Text ClientRequest :=
  (newRequest shown METHOD_POST (buildUrl cfg.hass.ipaddr cfg.hass.port cfg.hass.api)
    (some (pushBytes event fields))).map fun req ↦
      (req.setHeader cases "Content-Type".toList "application/json".toList).setHeader cases
        "Authorization".toList ("Bearer ".toList ++ cfg.hass.token)

inductive PushError
  | notConfigured
  | request (e : Text)
  | exchange (e : Text)
  | status (code : ℕ)

def PushError.text : PushError → Text
  | notConfigured => "hapush: HA api not configured (handshake pending)".toList
  | request e => "hapush: build request: ".toList ++ e
  | exchange e => "hapush: do: ".toList ++ e
  | status code => "hapush: status ".toList ++ natText code

/-- `push`, with as many turns as the loops of the client may make: the lines of the log, and what
it comes to. -/
def push (dial : Text → Except Text Peer) (cfg : Config) (event : Text)
    (fields : SortedMap Text Text) (n : ℕ) : List Text × Outcome PushError Unit :=
  if cfg.hass.api = [] then
    (["HA Push skipped: api not configured".toList], .error .notConfigured)
  else
    let line := "HA Push: ".toList ++ Utf8.decodeLossy (pushBytes event fields)
    match pushRequest cases shown cfg event fields with
    | .error e => ([line], .error (.request e))
    | .ok req =>
      match Client.doRequest cases shown dial req n with
      | .error e => ([line, "HA Push failed: ".toList ++ e], .error (.exchange e))
      | .ok resp _ =>
        if resp.statusCode ≠ Control.STATUS_OK then
          ([line, "HA Push got status ".toList ++ natText resp.statusCode ++ " (event=".toList ++
            event ++ ")".toList], .error (.status resp.statusCode))
        else ([line], .ok () [])
      | .aborted => ([line], .aborted)
      | .running => ([line], .running)

end Push

/-! ### The diagnosis -/

/-- `pick_non_loopback_ipv4`. -/
def pickNonLoopbackIpv4 (addrs : List Octets) : Text :=
  match addrs.find? fun ip ↦ !(ip.get 0 == 127) with
  | some ip => Utf8.ofAscii (ipv4Str ip)
  | none => []

/-- `lookup_wwan`, given the addresses of an interface. -/
def lookupWwan (addrs : Text → List Octets) (iface : Text) : Text :=
  if iface = [] then [] else pickNonLoopbackIpv4 (addrs iface)

/-- `discover_ha_facing_ip`, given the source address towards a target, if there is one of IPv4. -/
def discoverHaFacingIp (source : Text → Option Octets) (haIp : Text) (haPort : ℤ) : Text :=
  if haIp = [] then []
  else match source (haIp ++ ':' :: intText haPort) with
    | some ip => Utf8.ofAscii (ipv4Str ip)
    | none => []

/-- The fields of `push_diagnosis`. -/
def diagnosisFields (source : Text → Option Octets) (addrs : Text → List Octets) (cfg : Config) :
    SortedMap Text Text :=
  let videoForward := if cfg.video.forward then "1".toList else "0".toList
  let facing := discoverHaFacingIp source cfg.hass.ipaddr cfg.hass.port
  let wwan := if facing = [] then lookupWwan addrs cfg.iface else facing
  ((SortedMap.empty.insert "video_forward".toList videoForward).insert "video_format".toList
    cfg.video.format).insert "wwan".toList wwan

/-! ### What arrives -/

/-- The host and port of the URL. -/
def hassHost (cfg : Config) : Text :=
  (if cfg.hass.ipaddr.contains ':' then "[".toList ++ cfg.hass.ipaddr ++ "]".toList
    else cfg.hass.ipaddr) ++ ':' :: intText cfg.hass.port

/-- The fields of a caller as `spawn_push` hands them on. -/
def collect (fields : List (Text × Text)) : SortedMap Text Text :=
  SortedMap.empty.insertAll fields

/-- The headers of a push in the order in which they are set. -/
def pushHeaders (cfg : Config) (event : Text) (fields : List (Text × Text)) :
    List (Text × Text) :=
  [("Content-Type".toList, "application/json".toList),
    ("Authorization".toList, "Bearer ".toList ++ cfg.hass.token),
    ("Host".toList, hassHost cfg), ("Connection".toList, "close".toList),
    ("Content-Length".toList, natText (pushBytes event (collect fields)).length)]

/-- A push that an HTTP server of this kind can read. -/
structure Pushable (cfg : Config) (event : Text) (fields : List (Text × Text)) : Prop where
  api : cfg.hass.api.head? = some '/'
  host : '/' ∉ cfg.hass.ipaddr
  line : Askable METHOD_POST cfg.hass.api
  hostLine : Readable .ascii ("Host".toList, hassHost cfg)
  tokenLine : Readable .ascii ("Authorization".toList, "Bearer ".toList ++ cfg.hass.token)
  total : ((pushHeaders cfg event fields).map fun l ↦ (textLine (headerLine l)).length).sum ≤
    MAX_HEADER_BYTES
  body : ((pushBytes event (collect fields)).length : ℤ) ≤ MAX_BODY_BYTES

variable {cases : CaseTable} {shown : Char → Bool} {cfg : Config} {event : Text}
  {fields : List (Text × Text)}

/-- The event and the fields, of which the last one under each key stays. -/
def pushed (event : Text) (fields : List (Text × Text)) : SortedMap Text Text :=
  (SortedMap.empty.insert "event".toList event).insertAll (collect fields).entries

theorem lookup_empty {α : Type} (k : Text) : (SortedMap.empty : SortedMap Text α).lookup k = none :=
  rfl

theorem lookup_pushed (event : Text) (fields : List (Text × Text)) (k : Text) :
    (pushed event fields).lookup k = (SortedMap.lastValue fields k).or
      (if k = "event".toList then some event else none) := by
  rw [pushed, SortedMap.lookup_insertAll_entries, SortedMap.lookup_insert, collect,
    SortedMap.lookup_insertAll, lookup_empty, Option.or_none]
  split_ifs <;> rfl

theorem pushBody_eq (event : Text) (fields : List (Text × Text)) :
    pushBody event (collect fields) = (pushed event fields).map JsonValue.string := by
  refine SortedMap.ext_lookup fun k ↦ ?_
  rw [pushBody, SortedMap.lookup_insertAll_entries, SortedMap.lookup_insert, SortedMap.lookup_map,
    SortedMap.lookup_map, pushed, SortedMap.lookup_insertAll_entries, SortedMap.lookup_insert,
    lookup_empty, lookup_empty, Option.map_or]
  split_ifs <;> rfl

theorem denoteFields_string (entries : List (Text × Text)) :
    JsonValue.denoteFields (entries.map fun e ↦ (e.1, JsonValue.string e.2)) =
      entries.map fun e ↦ (e.1, (.string e.2 : Value)) := by
  induction entries with
  | nil => rfl
  | cons e entries ih =>
    rw [List.map_cons, List.map_cons, JsonValue.denoteFields, ih]
    rfl

/-- The body is the JSON object of what is pushed. -/
theorem denotes_pushBytes {event : Text} {fields : List (Text × Text)} {v : Value} :
    Denotes (pushBytes event (collect fields)) v ↔
      v = .object ((pushed event fields).entries.map fun e ↦ (e.1, .string e.2)) := by
  have hbytes : pushBytes event (collect fields) =
      encodeValue (.map ((pushed event fields).entries.map fun e ↦ (e.1, .string e.2)))
        .MARSHAL := by
    rw [pushBytes, pushBody_eq, encodeMap, encodeValue, writeValue]
    rfl
  have hfaithful := faithful_encodeValue
    (.map ((pushed event fields).entries.map fun e ↦ (e.1, .string e.2))) .MARSHAL
  rw [← hbytes] at hfaithful
  rw [← denoteFields_string]
  refine ⟨hfaithful.unique v, ?_⟩
  rintro rfl
  exact hfaithful.denotes

/-- The request of a push. -/
def pushedRequest (cases : CaseTable) (cfg : Config) (event : Text) (fields : List (Text × Text)) :
    ClientRequest where
  method := METHOD_POST
  url := buildUrl cfg.hass.ipaddr cfg.hass.port cfg.hass.api
  header := setHeaders cases .new [("Content-Type".toList, "application/json".toList),
    ("Authorization".toList, "Bearer ".toList ++ cfg.hass.token)]
  body := pushBytes event (collect fields)

theorem pushRequest_eq (cases : CaseTable) (shown : Char → Bool) (cfg : Config) (event : Text)
    (fields : List (Text × Text)) :
    pushRequest cases shown cfg event (collect fields) =
      .ok (pushedRequest cases cfg event fields) := by
  have hurl : "http://".toList.isPrefixOf
      (buildUrl cfg.hass.ipaddr cfg.hass.port cfg.hass.api) = true := by
    have hbracket : "http://[".toList = "http://".toList ++ "[".toList := by decide
    rw [List.isPrefixOf_iff_prefix, buildUrl]
    split_ifs
    · simp only [hbracket, List.append_assoc]
      exact List.prefix_append _ _
    · simp only [List.append_assoc]
      exact List.prefix_append _ _
  have hmethod : ¬(METHOD_POST ≠ METHOD_GET ∧ METHOD_POST ≠ METHOD_POST) := fun h ↦ h.2 rfl
  rw [pushRequest, newRequest, if_neg hmethod, if_neg (not_not.mpr hurl)]
  rfl

theorem slash_not_mem_hassHost (h : '/' ∉ cfg.hass.ipaddr) : '/' ∉ hassHost cfg := by
  have hdigits : '/' ∉ natText cfg.hass.port.natAbs := fun hmem ↦
    absurd (natText_digits _ _ hmem).1 (by decide)
  have hport : '/' ∉ intText cfg.hass.port := by
    rw [intText, List.mem_append, not_or]
    refine ⟨?_, hdigits⟩
    split_ifs
    · decide
    · exact List.not_mem_nil
  rw [hassHost, List.mem_append, List.mem_cons, not_or, not_or]
  refine ⟨?_, by decide, hport⟩
  split_ifs
  · rw [List.mem_append, List.mem_append, not_or, not_or]
    exact ⟨⟨by decide, h⟩, by decide⟩
  · exact h

namespace Pushable

theorem splitUrl (h : Pushable cfg event fields) :
    Httpx.splitUrl shown (buildUrl cfg.hass.ipaddr cfg.hass.port cfg.hass.api) =
      .ok (hassHost cfg, cfg.hass.api) := by
  obtain ⟨path, hpath⟩ := List.head?_eq_some_iff.mp h.api
  have hcolon : (hassHost cfg).contains ':' = true := by simp [hassHost]
  have hne : hassHost cfg ≠ [] := by simp [hassHost]
  have hurl : buildUrl cfg.hass.ipaddr cfg.hass.port cfg.hass.api =
      "http://".toList ++ hassHost cfg ++ '/' :: path := by
    rw [buildUrl, hassHost, ← hpath]
    split_ifs <;> simp
  rw [hurl, splitUrl_path hne (slash_not_mem_hassHost h.host), if_pos hcolon, ← hpath]

theorem fixed (h : Pushable cfg event fields) : ∀ l ∈ pushHeaders cfg event fields, Fixed l := by
  have hmax : MAX_BODY_BYTES = 1048576 := rfl
  have hbody := h.body
  have hauthorization : ∀ c ∈ "Authorization".toList, c.toNat < 128 :=
    List.all_iff_forall_prop.mp (by decide)
  have hhost : ∀ c ∈ "Host".toList, c.toNat < 128 := List.all_iff_forall_prop.mp (by decide)
  intro l hl
  simp only [pushHeaders, List.mem_cons, List.not_mem_nil, or_false] at hl
  rcases hl with rfl | rfl | rfl | rfl | rfl
  · decide +kernel
  · exact ⟨hauthorization, h.tokenLine⟩
  · exact ⟨hhost, h.hostLine⟩
  · decide +kernel
  · exact fixed_contentLength (by omega)

theorem sentHeader_request :
    (pushedRequest cases cfg event fields).sentHeader cases (hassHost cfg) =
      setHeaders cases .new (pushHeaders cfg event fields) := by
  unfold ClientRequest.sentHeader
  by_cases hbody : (pushedRequest cases cfg event fields).body = []
  · have hlength : natText (pushBytes event (collect fields)).length = "0".toList := by
      rw [show pushBytes event (collect fields) = [] from hbody]
      rfl
    rw [if_pos hbody, pushHeaders, hlength]
    rfl
  · rw [if_neg hbody]
    rfl

theorem get_request (h : Pushable cfg event fields) {key : Text}
    (hkey : canonicalMimeHeaderKey cases key = key) :
    (pushedRequest cases cfg event fields).header.get cases key =
      (valuesOf key [("Content-Type".toList, "application/json".toList),
        ("Authorization".toList, "Bearer ".toList ++ cfg.hass.token)]).getLast? := by
  rw [pushedRequest, get_setHeaders_new, hkey]
  exact lastSet_fixed (fun l hl ↦ h.fixed l (List.mem_append_left _ hl)) key

theorem conveyable (h : Pushable cfg event fields) :
    Conveyable cases (pushedRequest cases cfg event fields) (hassHost cfg) cfg.hass.api where
  line := h.line
  host := by simp [hassHost]
  legible := by
    rw [sentHeader_request]
    exact (settable_of_fixed h.fixed (by show 5 ≤ 64; decide) h.total).legible
  unencoded te hte := by
    rw [h.get_request (canonical_transferEncoding cases)] at hte
    cases hte
  upgrade up hup := by
    rw [h.get_request canonical_upgrade] at hup
    cases hup
  body := h.body

theorem configured (h : Pushable cfg event fields) : cfg.hass.api ≠ [] := by
  intro hnil
  have hslash := h.api
  rw [hnil] at hslash
  cases hslash

/-- What a push comes to when its exchange fails. -/
theorem push_error (h : Pushable cfg event fields) {dial : Text → Except Text Peer} {n : ℕ}
    {e : Text} (hexchange : Client.doRequest cases shown dial
      (pushedRequest cases cfg event fields) n = .error e) :
    (push cases shown dial cfg event (collect fields) n).2 = .error (.exchange e) := by
  simp only [push, if_neg h.configured, pushRequest_eq cases shown cfg event fields, hexchange]

/-- What a push comes to when its exchange brings a response. -/
theorem push_ok (h : Pushable cfg event fields) {dial : Text → Except Text Peer} {n : ℕ}
    {response : ClientResponse} {rest : List UInt8}
    (hexchange : Client.doRequest cases shown dial (pushedRequest cases cfg event fields) n =
      .ok response rest) :
    (push cases shown dial cfg event (collect fields) n).2 =
      if response.statusCode = 200 then .ok () [] else .error (.status response.statusCode) := by
  have hok : response.statusCode = Control.STATUS_OK ↔ response.statusCode = 200 := Iff.rfl
  simp only [push, if_neg h.configured, pushRequest_eq cases shown cfg event fields, hexchange]
  by_cases hstatus : response.statusCode = 200
  · rw [if_neg (not_not.mpr (hok.mpr hstatus)), if_pos hstatus]
  · rw [if_pos (mt hok.mp hstatus), if_neg hstatus]

/-- Once the bytes of the response are there, the exchange comes to what its reader yields on
them. -/
theorem doRequest_of_yields (h : Pushable cfg event fields) {dial : Text → Except Text Peer}
    {peer : Peer} {back : List UInt8} {o : Outcome Text ClientResponse}
    (hdial : dial (hassHost cfg) = .ok peer)
    (hpeer : peer ((pushedRequest cases cfg event fields).sent cases (hassHost cfg)
      cfg.hass.api) = .ok back)
    (ho : (Reader.mapError (ResponseError.doRequest shown) (readResponse cases)).Yields back o) :
    ∃ N, ∀ n, N ≤ n → Client.doRequest cases shown dial (pushedRequest cases cfg event fields) n =
      o := by
  obtain ⟨hne, N, hN⟩ := ho
  refine ⟨N, fun n hn ↦ ?_⟩
  have hstable := Reader.stable (Reader.mapError (ResponseError.doRequest shown) (readResponse cases)) hn
    (by rw [hN]; exact hne)
  rw [Client.doRequest_of_peer h.splitUrl hdial hpeer, hstable, hN]

end Pushable

/-- A push arrives, for every configuration, event and list of fields that fit into a request: the
URL leads to the host, the port and the path of the configuration, and whoever serves HTTP there
reads a `POST` with the token and with one JSON object, which has the last value of each field and
the event, unless a field of this name replaces it, and nothing else. The push succeeds exactly if
the answer has the status 200, and when the dial, the writing or the reading of the answer fails, it
fails with the error of this step. -/
theorem push_delivered (cases : CaseTable) (shown : Char → Bool) {cfg : Config} {event : Text}
    {fields : List (Text × Text)} (h : Pushable cfg event fields) :
    ∃ (req : ClientRequest) (object : SortedMap Text Text),
      pushRequest cases shown cfg event (collect fields) = .ok req ∧
      Httpx.splitUrl shown req.url = .ok (hassHost cfg, cfg.hass.api) ∧
      (∀ k, object.lookup k =
        (SortedMap.lastValue fields k).or
          (if k = "event".toList then some event else none)) ∧
      (∃ r, (readRequest cases).Yields (req.sent cases (hassHost cfg) cfg.hass.api) (.ok r []) ∧
        r.method = METHOD_POST ∧ splitPathQuery cfg.hass.api = (r.url.path, r.url.rawQuery) ∧
        r.host = hassHost cfg ∧
        r.header.get cases "Content-Type".toList = some "application/json".toList ∧
        r.header.get cases "Authorization".toList = some ("Bearer ".toList ++ cfg.hass.token) ∧
        ∀ v, Denotes r.body v ↔
          v = .object (object.entries.map fun e ↦ (e.1, .string e.2))) ∧
      (∀ (dial : Text → Except Text Peer) (peer : Peer) (back rest : List UInt8)
        (response : ClientResponse), dial (hassHost cfg) = .ok peer →
        peer (req.sent cases (hassHost cfg) cfg.hass.api) = .ok back →
        (readResponse cases).Yields back (.ok response rest) →
        ∃ N, ∀ n, N ≤ n → (push cases shown dial cfg event (collect fields) n).2 =
          if response.statusCode = 200 then .ok () []
          else .error (.status response.statusCode)) ∧
      ∀ dial : Text → Except Text Peer,
        (∀ e, dial (hassHost cfg) = .error e → ∀ n,
          (push cases shown dial cfg event (collect fields) n).2 = .error (.exchange e)) ∧
        ∀ peer : Peer, dial (hassHost cfg) = .ok peer →
          (∀ e, peer (req.sent cases (hassHost cfg) cfg.hass.api) = .error e → ∀ n,
            (push cases shown dial cfg event (collect fields) n).2 = .error (.exchange e)) ∧
          ∀ back e, peer (req.sent cases (hassHost cfg) cfg.hass.api) = .ok back →
            (readResponse cases).Yields back (.error e) →
            ∃ N, ∀ n, N ≤ n → (push cases shown dial cfg event (collect fields) n).2 =
              .error (.exchange (e.doRequest shown)) := by
  have hrequest : pushRequest cases shown cfg event (collect fields) =
      .ok (pushedRequest cases cfg event fields) := pushRequest_eq cases shown cfg event fields
  have hcontentType : canonicalMimeHeaderKey cases "Content-Type".toList =
      "Content-Type".toList := (h.fixed _ List.mem_cons_self).canonical
  have hauthorization : canonicalMimeHeaderKey cases "Authorization".toList =
      "Authorization".toList :=
    (h.fixed _ (List.mem_cons_of_mem _ List.mem_cons_self)).canonical
  have hconveyable : Conveyable cases (pushedRequest cases cfg event fields) (hassHost cfg)
      cfg.hass.api := h.conveyable
  have hsplit : Httpx.splitUrl shown (pushedRequest cases cfg event fields).url =
      .ok (hassHost cfg, cfg.hass.api) := h.splitUrl
  have hread := hconveyable.readRequest []
  rw [List.append_nil] at hread
  have hget {key : Text} (hkey : canonicalMimeHeaderKey cases key = key)
      (hlength : key ≠ "Content-Length".toList) (hconnection : key ≠ "Connection".toList)
      (hhost : key ≠ "Host".toList) :
      ((pushedRequest cases cfg event fields).received cases (hassHost cfg)
        cfg.hass.api).header.get cases key =
        (valuesOf key [("Content-Type".toList, "application/json".toList),
          ("Authorization".toList, "Bearer ".toList ++ cfg.hass.token)]).getLast? := by
    rw [← h.get_request hkey, Header.get, hconveyable.values key, hkey, if_neg hlength,
      if_neg hconnection, if_neg hhost]
    rfl
  refine ⟨_, pushed event fields, hrequest, hsplit, lookup_pushed event fields,
    ⟨_, hread, rfl, rfl, rfl, ?_, ?_, fun v ↦ ?_⟩, ?_, fun dial ↦ ⟨?_, fun peer hdial ↦ ⟨?_, ?_⟩⟩⟩
  · exact hget hcontentType (by decide) (by decide) (by decide)
  · exact hget hauthorization (by decide) (by decide) (by decide)
  · exact denotes_pushBytes
  · intro dial peer back rest response hdial hpeer hback
    have hyields := (Reader.yields_mapError_ok_iff (ResponseError.doRequest shown) _ _ _ _).mpr
      hback
    obtain ⟨N, hN⟩ := h.doRequest_of_yields hdial hpeer hyields
    exact ⟨N, fun n hn ↦ h.push_ok (hN n hn)⟩
  · intro e hdial n
    exact h.push_error (by simp only [Client.doRequest, hsplit, hdial])
  · intro e hpeer n
    exact h.push_error (by simp only [Client.doRequest, hsplit, hdial, hpeer])
  · intro back e hpeer hback
    have hyields := (Reader.yields_mapError_error_iff (ResponseError.doRequest shown) _ _ _).mpr
      ⟨e, hback, rfl⟩
    obtain ⟨N, hN⟩ := h.doRequest_of_yields hdial hpeer hyields
    exact ⟨N, fun n hn ↦ h.push_error (hN n hn)⟩

def ringConfig : Config :=
  { Config.default with
    hass := ⟨"10.0.0.66".toList, 8123, "/api/dooraccess/x".toList, "secret".toList⟩ }

def ringFields : List (Text × Text) :=
  [("to".toList, "06020001@172.16.106.1:6672".toList), ("from".toList, "gate".toList),
    ("from".toList, "06020000@172.16.106.152:18022".toList)]

theorem pushable_ringConfig : Pushable ringConfig "ring".toList ringFields where
  api := by decide
  host := by decide
  line := by decide +kernel
  hostLine := by decide +kernel
  tokenLine := by decide +kernel
  total := by decide +kernel
  body := by decide +kernel

theorem push_delivered_ring :
    ∃ (req : ClientRequest) (object : SortedMap Text Text),
      pushRequest .ascii (fun _ ↦ true) ringConfig "ring".toList (collect ringFields) = .ok req ∧
      object.lookup "from".toList = some "06020000@172.16.106.152:18022".toList ∧
      ∃ r, (readRequest .ascii).Yields
          (req.sent .ascii (hassHost ringConfig) ringConfig.hass.api) (.ok r []) ∧
        ∀ v, Denotes r.body v ↔ v = .object (object.entries.map fun e ↦ (e.1, .string e.2)) := by
  obtain ⟨req, object, hreq, -, hlookup, ⟨r, hread, -, -, -, -, -, hbody⟩, -⟩ :=
    push_delivered .ascii (fun _ ↦ true) pushable_ringConfig
  exact ⟨req, object, hreq, (hlookup _).trans (by decide +kernel), r, hread, hbody⟩

end DoorAccess.HaPush
