import DoorAccess.Control.Server
import DoorAccess.Httpx.Sized

/-!
# What requests make the daemon do

A request either orders one thing, which the daemon then does, or nothing, and then nothing but an
answer comes of it. `Orders` says what a request must be to order a thing: which path, which method
and content type, and what its body must say. It knows neither the router nor the guards nor the
order of the checks.

`settles` is the way from the one to the other: of every request the router, the guards and the
handler together make what it orders, or an answer and nothing else.
-/

set_option autoImplicit false
set_option relaxedAutoImplicit false

namespace DoorAccess.Control

open Codec Httpx Unlock
open Video (Outdoor SessionInfo)

/-! ### Endpoints -/

inductive Endpoint
  | autoUnlock
  | autoHangup
  | automation
  | info
  | playback
  | unlock
  | videoStart
  | videoStop
  | video
  deriving DecidableEq

namespace Endpoint

def all : List Endpoint :=
  [autoUnlock, autoHangup, automation, info, playback, unlock, videoStart, videoStop, video]

def pattern : Endpoint → Text
  | autoUnlock => "/auto_unlock".toList
  | autoHangup => "/auto_hangup".toList
  | automation => "/automation".toList
  | info => "/info".toList
  | playback => "/playback".toList
  | unlock => "/unlock".toList
  | videoStart => "/video/start".toList
  | videoStop => "/video/stop".toList
  | video => "/video/".toList

/-- The paths of an endpoint. -/
def Serves (e : Endpoint) (path : Text) : Prop :=
  if e = video then
    video.pattern <+: path ∧ path ≠ videoStart.pattern ∧ path ≠ videoStop.pattern
  else path = e.pattern

instance (e : Endpoint) (path : Text) : Decidable (e.Serves path) :=
  inferInstanceAs (Decidable (if e = video then _ else _))

variable {σ : Type*} (cases : CaseTable) (sv : Server σ)

def handler : Endpoint → Handler (Plane σ)
  | autoUnlock => chainControlPost cases (handleAutoUnlock sv)
  | autoHangup => chainControlPost cases (handleAutoHangup sv)
  | automation => methodGuard METHOD_GET handleAutomationGet
  | info => methodGuard METHOD_GET (handleInfo sv)
  | playback => methodGuard METHOD_GET handlePlayback
  | unlock => chainBusinessPost cases sv.cfg (handleUnlock sv)
  | videoStart => chainControlPost cases (handleVideoStart sv)
  | videoStop => chainControlPost cases (handleVideoStop sv)
  | video => handleVideoDynamic sv

theorem routes_eq : sv.routes cases = all.map fun e ↦ (e.pattern, e.handler cases sv) := rfl

theorem mem_all (e : Endpoint) : e ∈ all := by
  cases e <;> decide

theorem pattern_injective : Function.Injective pattern := by
  intro e e'
  cases e <;> cases e' <;> decide

theorem isSubtree_pattern (e : Endpoint) : ServeMux.isSubtree e.pattern = decide (e = video) := by
  cases e <;> decide

/-- The patterns below that of the sessions. -/
theorem eq_of_video_isPrefix {e : Endpoint} (h : video.pattern <+: e.pattern) :
    e = video ∨ e = videoStart ∨ e = videoStop := by
  revert h
  cases e <;> decide

theorem covers_pattern_iff {e : Endpoint} {path : Text} :
    ServeMux.Covers e.pattern path ↔
      if e = video then video.pattern <+: path else path = e.pattern := by
  unfold ServeMux.Covers
  rw [isSubtree_pattern]
  by_cases he : e = video
  · simp [he]
  · simp [he, eq_comm]

theorem Serves.covers {e : Endpoint} {path : Text} (h : e.Serves path) :
    ServeMux.Covers e.pattern path := by
  rw [covers_pattern_iff]
  unfold Serves at h
  split_ifs at h ⊢
  · exact h.1
  · exact h

/-- The pattern of the endpoint is the longest that covers the path. -/
theorem Serves.isPrefix {e e' : Endpoint} {path : Text} (h : e.Serves path)
    (hcovers : ServeMux.Covers e'.pattern path) : e'.pattern <+: e.pattern := by
  unfold Serves at h
  by_cases he : e = video
  · rw [if_pos he] at h
    by_cases he' : e' = video
    · rw [he, he']
    · rw [covers_pattern_iff, if_neg he'] at hcovers
      subst hcovers
      rcases eq_of_video_isPrefix h.1 with rfl | rfl | rfl
      · exact absurd rfl he'
      · exact absurd rfl h.2.1
      · exact absurd rfl h.2.2
  · rw [if_neg he] at h
    subst h
    exact hcovers.isPrefix

theorem Serves.eq {e e' : Endpoint} {path : Text} (h : e.Serves path) (h' : e'.Serves path) :
    e = e' :=
  pattern_injective ((h'.isPrefix h.covers).eq_of_length_le (h.isPrefix h'.covers).length_le)

/-- The paths of an endpoint go to its handler. -/
theorem Serves.best {e : Endpoint} {path : Text} (h : e.Serves path) :
    ServeMux.Best (sv.routes cases) path (e.pattern, e.handler cases sv) := by
  rw [routes_eq]
  refine ⟨List.mem_map_of_mem (mem_all e), h.covers, fun other hother hcovers ↦ ?_⟩
  obtain ⟨e', -, rfl⟩ := List.mem_map.mp hother
  exact h.isPrefix hcovers

/-- A path that a pattern covers belongs to an endpoint. -/
theorem exists_serves {e : Endpoint} {path : Text} (h : ServeMux.Covers e.pattern path) :
    ∃ e' : Endpoint, e'.Serves path := by
  rw [covers_pattern_iff] at h
  by_cases he : e = video
  · rw [if_pos he] at h
    by_cases hstart : path = videoStart.pattern
    · exact ⟨videoStart, hstart⟩
    · by_cases hstop : path = videoStop.pattern
      · exact ⟨videoStop, hstop⟩
      · exact ⟨video, h, hstart, hstop⟩
  · rw [if_neg he] at h
    refine ⟨e, ?_⟩
    unfold Serves
    rwa [if_neg he]

end Endpoint

/-- The endpoint of a path. -/
def endpointOf (path : Text) : Option Endpoint :=
  Endpoint.all.find? fun e ↦ decide (e.Serves path)

theorem endpointOf_eq_some_iff {path : Text} {e : Endpoint} :
    endpointOf path = some e ↔ e.Serves path := by
  unfold endpointOf
  constructor
  · intro h
    exact of_decide_eq_true (List.find?_some (p := fun e ↦ decide (Endpoint.Serves e path)) h)
  · intro h
    obtain ⟨e', he'⟩ : ∃ e', Endpoint.all.find? (fun e ↦ decide (e.Serves path)) = some e' :=
      Option.isSome_iff_exists.mp
        (List.find?_isSome.mpr ⟨e, e.mem_all, decide_eq_true h⟩)
    have hserves : e'.Serves path := of_decide_eq_true
      (List.find?_some (p := fun e ↦ decide (Endpoint.Serves e path)) he')
    rw [he', hserves.eq h]

variable {σ : Type*} {cases : CaseTable} {sv : Server σ} {r : Request}

theorem serveHttp_eq (cases : CaseTable) (sv : Server σ) (r : Request) (s : Plane σ) :
    sv.serveHttp cases r s =
      match endpointOf r.url.path with
      | some e => e.handler cases sv r s
      | none => (http404, s) := by
  have hholds := sv.holds_handler cases
  unfold Server.serveHttp ServeMux.serveHttp
  cases hpath : endpointOf r.url.path with
  | some e =>
    have hmatch := (hholds.matchHandler_iff r.url.path (e.handler cases sv)).mpr
      ⟨_, (endpointOf_eq_some_iff.mp hpath).best cases sv⟩
    rw [hmatch]
  | none =>
    have hmatch : (sv.handler cases).matchHandler r.url.path = none := by
      rw [← Option.not_isSome_iff_eq_none, hholds.matchHandler_isSome]
      rintro ⟨reg, hreg, hcovers⟩
      rw [Endpoint.routes_eq] at hreg
      obtain ⟨e, -, rfl⟩ := List.mem_map.mp hreg
      obtain ⟨e', he'⟩ := Endpoint.exists_serves hcovers
      rw [endpointOf_eq_some_iff.mpr he'] at hpath
      cases hpath
    rw [hmatch]

/-! ### Orders -/

/-- What a request can order. -/
inductive Order
  | autoUnlock (on : Bool)
  | autoHangup (on : Bool)
  | unlock (from_ to_ : Str) (callerBcd calleeBcd : Octets) (targetIp : Str) (targetPort : UInt16)
  | videoStart (outdoor : Outdoor)
  | videoStop (outdoor : Outdoor)
  | video (sessionId resource : Text)
  deriving DecidableEq

/-- The addresses in the body of an unlock: the door station `to` is dialled, and its name and that
of the monitor `from` go into the frames. -/
structure Addressed (body from_ to_ : Str) (callerBcd calleeBcd : Octets) (targetIp : Str)
    (targetPort : UInt16) : Prop where
  body : parseUnlockBody body = (from_, to_)
  to_ : ∃ name, parseUri to_ = .ok (name, targetIp, targetPort) ∧ encodeBcd name = .ok callerBcd
  from_ : ∃ name ip port, parseUri from_ = .ok (name, ip, port) ∧ encodeBcd name = .ok calleeBcd

/-- The door station in the body of a start or a stop. It is one of those configured. -/
structure Outdoors (cfg : Config) (body : List UInt8) (outdoor : Outdoor) : Prop where
  body : parseVideoBody body = .ok outdoor.uri
  uri : parseOutdoor outdoor.uri = .ok outdoor
  allowed : ∃ s ∈ cfg.stations, Utf8.encode s.sip = outdoor.uri

/-- What a request must be to order a thing. -/
inductive Orders (cases : CaseTable) (sv : Server σ) (r : Request) : Order → Prop
  | autoUnlock {on : Bool} (hpath : Endpoint.autoUnlock.Serves r.url.path)
      (hposted : Posted cases r) (hon : parseAutoToggleRequest r = .ok on) :
      Orders cases sv r (.autoUnlock on)
  | autoHangup {on : Bool} (hpath : Endpoint.autoHangup.Serves r.url.path)
      (hposted : Posted cases r) (hon : parseAutoToggleRequest r = .ok on) :
      Orders cases sv r (.autoHangup on)
  | unlock {body from_ to_ : Str} {callerBcd calleeBcd : Octets} {targetIp : Str}
      {targetPort : UInt16} (hpath : Endpoint.unlock.Serves r.url.path)
      (hposted : Posted cases r) (hconfigured : sv.cfg.stations ≠ [])
      (hbody : readRequestBody r = .ok body)
      (haddressed : Addressed body from_ to_ callerBcd calleeBcd targetIp targetPort) :
      Orders cases sv r (.unlock from_ to_ callerBcd calleeBcd targetIp targetPort)
  | videoStart {outdoor : Outdoor} (hpath : Endpoint.videoStart.Serves r.url.path)
      (hposted : Posted cases r) (henabled : sv.video.isSome = true)
      (houtdoor : Outdoors sv.cfg r.body outdoor) : Orders cases sv r (.videoStart outdoor)
  | videoStop {outdoor : Outdoor} (hpath : Endpoint.videoStop.Serves r.url.path)
      (hposted : Posted cases r) (henabled : sv.video.isSome = true)
      (houtdoor : Outdoors sv.cfg r.body outdoor) : Orders cases sv r (.videoStop outdoor)
  | video {sessionId resource : Text} (hpath : Endpoint.video.Serves r.url.path)
      (hparts : r.url.path = "/video/".toList ++ sessionId ++ '/' :: resource)
      (hvalid : isValidUuid (Utf8.encode sessionId) = true) (hget : r.method = METHOD_GET)
      (henabled : sv.video.isSome = true) : Orders cases sv r (.video sessionId resource)

namespace Order

/-- What an order comes to. -/
def perform (sv : Server σ) (r : Request) (s : Plane σ) : Order → List Call × Plane σ
  | autoUnlock on =>
    let automation := s.automation.map fun flags ↦ { flags with autoUnlock := on }
    (toggled "auto_unlock".toList on,
      { s with automation }.note (if sv.persist then [.persist automation] else []))
  | autoHangup on =>
    let automation := s.automation.map fun flags ↦ { flags with autoHangup := on }
    (toggled "auto_hangup".toList on,
      { s with automation }.note (if sv.persist then [.persist automation] else []))
  | unlock from_ to_ callerBcd calleeBcd targetIp targetPort =>
    let (outcome, world) := sv.dispatch callerBcd calleeBcd targetIp targetPort s.world
    let reply := respondUnlockOutcome sv.pusher "unlock" outcome from_ to_
    (unlocked reply, { s with world }.note
      (.dispatch callerBcd calleeBcd targetIp targetPort :: reply.effects))
  | videoStart outdoor => sv.video.elim ([], s) fun mgr ↦
      let (res, world) := mgr.start outdoor s.world
      (started res, { s with world }.note [.start outdoor])
  | videoStop outdoor => sv.video.elim ([], s) fun mgr ↦
      (writeJson STATUS_OK (some [("result".toList, .number 0)]),
        { s with world := mgr.stop outdoor.uri s.world }.note [.stop outdoor.uri])
  | video sessionId resource => sv.video.elim ([], s) fun mgr ↦
      let (current, world) := mgr.currentById (Utf8.encode sessionId) s.world
      let s := { s with world }
      if ¬current then (errorJson STATUS_NOT_FOUND "video: session not found".toList, s)
      else if resource = "stream.flv".toList then
        serveVideoStream mgr (Utf8.encode sessionId) r s
      else if resource = "snapshot.jpg".toList then (serveVideoSnapshot, s)
      else (errorJson STATUS_NOT_FOUND "video: unknown resource".toList, s)

end Order

/-- The endpoint of an order. -/
def Order.endpoint : Order → Endpoint
  | .autoUnlock _ => .autoUnlock
  | .autoHangup _ => .autoHangup
  | .unlock _ _ _ _ _ _ => .unlock
  | .videoStart _ => .videoStart
  | .videoStop _ => .videoStop
  | .video _ _ => .video

theorem Orders.serves {o : Order} (h : Orders cases sv r o) : o.endpoint.Serves r.url.path := by
  cases h <;> assumption

/-- The answers to requests that order nothing. -/
inductive Report (sv : Server σ) (s : Plane σ) : List Call → Prop
  | notFound : Report sv s http404
  | error {status : ℕ} (msg : Text) (hstatus : status ∈ [400, 404, 415, 503]) :
      Report sv s (errorJson status msg)
  | notAllowed (method : Text) {allowed : Text} (hallowed : allowed ∈ [METHOD_GET, METHOD_POST]) :
      Report sv s (notAllowed method allowed)
  | notConfigured : Report sv s notConfigured
  | automation (r : Request) : Report sv s (handleAutomationGet r s).1
  | info (r : Request) : Report sv s (handleInfo sv r s).1
  | playback (r : Request) : Report sv s (handlePlayback r s).1

/-- What a handler makes of a request: what it orders is done, and if it orders nothing there is
only an answer. -/
def Settles (cases : CaseTable) (sv : Server σ) (r : Request)
    (f : Plane σ → List Call × Plane σ) : Prop :=
  (∃ o, Orders cases sv r o ∧ ∀ s, f s = o.perform sv r s) ∨
    (∀ o, ¬Orders cases sv r o) ∧ ∀ s, ∃ calls, Report sv s calls ∧ f s = (calls, s)

theorem Report.notPosted (r : Request) (s : Plane σ) : Report sv s (notPosted r) := by
  unfold Control.notPosted
  split_ifs
  · exact .notAllowed _ (by decide)
  · exact .error _ (by decide)

/-- Without the guards: what a handler behind them makes of a request that passes. -/
theorem Settles.posted {e : Endpoint} (inner : Handler (Plane σ)) (hpath : e.Serves r.url.path)
    (honly : ∀ o, o.endpoint = e → Orders cases sv r o → Posted cases r)
    (h : Posted cases r → Settles cases sv r (inner r)) :
    Settles cases sv r (chainControlPost cases inner r) := by
  by_cases hposted : Posted cases r
  · have heq : chainControlPost cases inner r = inner r := by
      funext s
      rw [chainControlPost_eq, if_pos hposted]
    rw [heq]
    exact h hposted
  · refine Or.inr ⟨fun o ho ↦ hposted (honly o (ho.serves.eq hpath) ho), fun s ↦ ?_⟩
    refine ⟨notPosted r, .notPosted r s, ?_⟩
    rw [chainControlPost_eq, if_neg hposted]

/-- An endpoint that only reports. -/
theorem Settles.report {e : Endpoint} {inner : Handler (Plane σ)} (hpath : e.Serves r.url.path)
    (honly : ∀ o : Order, o.endpoint ≠ e)
    (h : ∀ s, ∃ calls, Report sv s calls ∧ inner r s = (calls, s)) :
    Settles cases sv r (methodGuard METHOD_GET inner r) := by
  refine Or.inr ⟨fun o ho ↦ honly o (ho.serves.eq hpath), fun s ↦ ?_⟩
  unfold methodGuard
  by_cases hmethod : r.method = METHOD_GET
  · rw [if_neg (not_not.mpr hmethod)]
    exact h s
  · rw [if_pos hmethod]
    exact ⟨_, .notAllowed _ (by decide), rfl⟩

/-! ### The toggles -/

theorem handleAuto_ok {key : Text} {load : AutomationState.State → Bool}
    {store : Bool → AutomationState.State → AutomationState.State} {on : Bool}
    (hstore : ∀ flags, load (store on flags) = on) (hon : parseAutoToggleRequest r = .ok on)
    (s : Plane σ) :
    handleAuto sv key load store r s = (toggled key on,
      { s with automation := s.automation.map (store on) }.note
        (if sv.persist then [.persist (s.automation.map (store on))] else [])) := by
  have hload : ((s.automation.map (store on)).map load).getD on = on := by
    cases s.automation with
    | none => rfl
    | some flags => exact hstore flags
  simp only [handleAuto, hon]
  cases sv.persist with
  | true => simp only [if_true, Plane.note, hload]
  | false =>
    simp only [Bool.false_eq_true, if_false, Plane.note, hload, List.append_nil]

theorem handleAuto_error {key : Text} {load : AutomationState.State → Bool}
    {store : Bool → AutomationState.State → AutomationState.State} {msg : Text}
    (hmsg : parseAutoToggleRequest r = .error msg) (s : Plane σ) :
    handleAuto sv key load store r s = (errorJson STATUS_BAD_REQUEST msg, s) := by
  simp only [handleAuto, hmsg]

/-- Of the two toggles each makes of a request what its order says. -/
theorem Settles.toggle {e : Endpoint} {inner : Handler (Plane σ)} (order : Bool → Order)
    (hpath : e.Serves r.url.path)
    (horders : ∀ o, o.endpoint = e → (Orders cases sv r o ↔
      ∃ on, o = order on ∧ Posted cases r ∧ parseAutoToggleRequest r = .ok on))
    (hendpoint : ∀ on, (order on).endpoint = e)
    (hok : ∀ on, parseAutoToggleRequest r = .ok on →
      ∀ s, inner r s = (order on).perform sv r s)
    (herror : ∀ msg, parseAutoToggleRequest r = .error msg →
      ∀ s, inner r s = (errorJson STATUS_BAD_REQUEST msg, s)) :
    Settles cases sv r (chainControlPost cases inner r) := by
  refine Settles.posted _ hpath (fun o he ho ↦ ?_) fun hposted ↦ ?_
  · obtain ⟨_, -, hposted, -⟩ := (horders o he).mp ho
    exact hposted
  · cases hon : parseAutoToggleRequest r with
    | ok on =>
      exact Or.inl ⟨order on, (horders _ (hendpoint on)).mpr ⟨on, rfl, hposted, hon⟩, hok on hon⟩
    | error msg =>
      refine Or.inr ⟨fun o ho ↦ ?_, fun s ↦ ⟨_, .error msg (by decide), herror msg hon s⟩⟩
      obtain ⟨on, -, -, hon'⟩ := (horders o (ho.serves.eq hpath)).mp ho
      rw [hon] at hon'
      cases hon'

theorem settles_autoUnlock (hpath : Endpoint.autoUnlock.Serves r.url.path) :
    Settles cases sv r (Endpoint.autoUnlock.handler cases sv r) := by
  refine Settles.toggle .autoUnlock hpath (fun o he ↦ ⟨fun ho ↦ ?_, ?_⟩)
    (fun _ ↦ rfl) (fun on hon ↦ handleAuto_ok (fun _ ↦ rfl) hon) fun msg ↦ handleAuto_error
  · cases ho with
    | autoUnlock _ hposted hon => exact ⟨_, rfl, hposted, hon⟩
    | _ => cases he
  · rintro ⟨on, rfl, hposted, hon⟩
    exact .autoUnlock hpath hposted hon

theorem settles_autoHangup (hpath : Endpoint.autoHangup.Serves r.url.path) :
    Settles cases sv r (Endpoint.autoHangup.handler cases sv r) := by
  refine Settles.toggle .autoHangup hpath (fun o he ↦ ⟨fun ho ↦ ?_, ?_⟩)
    (fun _ ↦ rfl) (fun on hon ↦ handleAuto_ok (fun _ ↦ rfl) hon) fun msg ↦ handleAuto_error
  · cases ho with
    | autoHangup _ hposted hon => exact ⟨_, rfl, hposted, hon⟩
    | _ => cases he
  · rintro ⟨on, rfl, hposted, hon⟩
    exact .autoHangup hpath hposted hon

/-! ### Unlocking -/

/-- What `handle_unlock` makes of a body: the addresses, or the answer to a wrong one. -/
theorem handleUnlock_cases (sv : Server σ) (r : Request) :
    (∃ body from_ to_ callerBcd calleeBcd targetIp targetPort,
      readRequestBody r = .ok body ∧
      Addressed body from_ to_ callerBcd calleeBcd targetIp targetPort ∧
      ∀ s, handleUnlock sv r s =
        (Order.unlock from_ to_ callerBcd calleeBcd targetIp targetPort).perform sv r s) ∨
    (∀ body from_ to_ callerBcd calleeBcd targetIp targetPort, readRequestBody r = .ok body →
      ¬Addressed body from_ to_ callerBcd calleeBcd targetIp targetPort) ∧
    ∃ msg, ∀ s, handleUnlock sv r s = (errorJson STATUS_BAD_REQUEST msg, s) := by
  cases hraw : readRequestBody r with
  | error msg =>
    refine Or.inr ⟨fun _ _ _ _ _ _ _ h ↦ ?_, msg, fun s ↦ ?_⟩
    · cases h
    · simp only [handleUnlock, hraw]
  | ok raw =>
    by_cases hempty : (parseUnlockBody raw).2 = []
    · refine Or.inr ⟨?_, "missing 'to' field".toList, fun s ↦ ?_⟩
      · rintro body from_ to_ callerBcd calleeBcd targetIp targetPort ⟨⟩ h
        obtain ⟨name, hparse, -⟩ := h.to_
        rw [h.body] at hempty
        subst hempty
        cases hparse
      · simp only [handleUnlock, hraw, hempty, if_true]
    · cases hto : parseUriBcd sv.shown (parseUnlockBody raw).2 with
      | error msg =>
        refine Or.inr ⟨?_, "invalid 'to' URI: ".toList ++ msg, fun s ↦ ?_⟩
        · rintro body from_ to_ callerBcd calleeBcd targetIp targetPort ⟨⟩ h
          have hok : parseUriBcd sv.shown to_ = _ := parseUriBcd_ok_iff.mpr h.to_
          rw [h.body] at hto
          rw [hto] at hok
          cases hok
        · simp only [handleUnlock, hraw, hempty, if_false, hto]
      | ok to_ =>
        obtain ⟨callerBcd, ip, port⟩ := to_
        cases hfrom : parseUriBcd sv.shown (parseUnlockBody raw).1 with
        | error msg =>
          refine Or.inr ⟨?_, "invalid 'from' URI: ".toList ++ msg, fun s ↦ ?_⟩
          · rintro body from_ to_ callerBcd calleeBcd targetIp targetPort ⟨⟩ h
            obtain ⟨name, ip, port, hok⟩ := h.from_
            have hok : parseUriBcd sv.shown from_ = _ := parseUriBcd_ok_iff.mpr ⟨name, hok⟩
            rw [h.body] at hfrom
            rw [hfrom] at hok
            cases hok
          · simp only [handleUnlock, hraw, hempty, if_false, hto, hfrom]
        | ok from_ =>
          obtain ⟨calleeBcd, ip', port'⟩ := from_
          obtain ⟨name, hparse, hbcd⟩ := parseUriBcd_ok_iff.mp hto
          obtain ⟨name', hparse', hbcd'⟩ := parseUriBcd_ok_iff.mp hfrom
          have hparts : parseUriParts sv.shown (parseUnlockBody raw).2 = .ok (name, ip, port) := by
            simp only [parseUriParts, hparse]
          refine Or.inl ⟨raw, (parseUnlockBody raw).1, (parseUnlockBody raw).2, callerBcd,
            calleeBcd, ip, port, rfl,
            ⟨rfl, ⟨name, hparse, hbcd⟩, name', ip', port', hparse', hbcd'⟩, fun s ↦ ?_⟩
          simp only [handleUnlock, hraw, hempty, if_false, hto, hfrom, hparts, Order.perform]

theorem settles_unlock (hpath : Endpoint.unlock.Serves r.url.path) :
    Settles cases sv r (Endpoint.unlock.handler cases sv r) := by
  have horders : ∀ o, o.endpoint = .unlock → Orders cases sv r o →
      Posted cases r ∧ sv.cfg.stations ≠ [] ∧
        ∃ body from_ to_ callerBcd calleeBcd targetIp targetPort, readRequestBody r = .ok body ∧
          Addressed body from_ to_ callerBcd calleeBcd targetIp targetPort := by
    intro o he ho
    cases ho with
    | unlock _ hposted hconfigured hbody haddressed =>
      exact ⟨hposted, hconfigured, _, _, _, _, _, _, _, hbody, haddressed⟩
    | _ => cases he
  refine Settles.posted (requireStationsConfigured sv.cfg (handleUnlock sv)) hpath
    (fun o he ho ↦ (horders o he ho).1) fun hposted ↦ ?_
  by_cases hconfigured : sv.cfg.stations = []
  · refine Or.inr ⟨fun o ho ↦ (horders o (ho.serves.eq hpath) ho).2.1 hconfigured, fun s ↦ ?_⟩
    refine ⟨_, .notConfigured, ?_⟩
    simp [requireStationsConfigured, hconfigured]
  · have hinner : requireStationsConfigured sv.cfg (handleUnlock sv) r = handleUnlock sv r := by
      funext s
      simp [requireStationsConfigured, hconfigured]
    rw [hinner]
    rcases handleUnlock_cases sv r with
      ⟨body, from_, to_, callerBcd, calleeBcd, targetIp, targetPort, hbody, haddressed, hperform⟩ |
      ⟨hnone, msg, hmsg⟩
    · exact Or.inl ⟨_, .unlock hpath hposted hconfigured hbody haddressed, hperform⟩
    · refine Or.inr ⟨fun o ho ↦ ?_, fun s ↦ ⟨_, .error msg (by decide), hmsg s⟩⟩
      obtain ⟨-, -, _, _, _, _, _, _, _, hbody, haddressed⟩ := horders o (ho.serves.eq hpath) ho
      exact hnone _ _ _ _ _ _ _ hbody haddressed

/-! ### Video -/

theorem isOutdoorAllowed_iff {cfg : Config} {uri : Str} :
    isOutdoorAllowed cfg uri = true ↔ ∃ s ∈ cfg.stations, Utf8.encode s.sip = uri := by
  simp [isOutdoorAllowed]

theorem parseOutdoor_uri {uri : Str} {outdoor : Outdoor} (h : parseOutdoor uri = .ok outdoor) :
    outdoor.uri = uri :=
  (@parseOutdoor_ok_iff (fun _ ↦ true) uri outdoor).mp h |>.1

/-- What the checks in front of a start and a stop make of a body. -/
theorem handleVideo_cases (sv : Server σ)
    (act : Manager σ → Outdoor → Plane σ → List Call × Plane σ) (r : Request) :
    (∃ mgr outdoor, sv.video = some mgr ∧ Outdoors sv.cfg r.body outdoor ∧
      ∀ s, handleVideo sv act r s = act mgr outdoor s) ∨
    (∀ outdoor, sv.video.isSome = true → ¬Outdoors sv.cfg r.body outdoor) ∧
    ∃ status msg, status ∈ [400, 503] ∧
      ∀ s, handleVideo sv act r s = (errorJson status msg, s) := by
  cases hvideo : sv.video with
  | none =>
    refine Or.inr ⟨fun _ h ↦ ?_, STATUS_SERVICE_UNAVAILABLE, VIDEO_NOT_ENABLED, by decide,
      fun s ↦ ?_⟩
    · cases h
    · simp only [handleVideo, hvideo]
  | some mgr =>
    cases hbody : parseVideoBody r.body with
    | error msg =>
      refine Or.inr ⟨fun outdoor _ h ↦ ?_, STATUS_BAD_REQUEST, textOfStr msg, by decide,
        fun s ↦ ?_⟩
      · have hok := h.body
        rw [hbody] at hok
        cases hok
      · simp only [handleVideo, hvideo, hbody]
    | ok uri =>
      have huri {outdoor : Outdoor} (h : Outdoors sv.cfg r.body outdoor) : uri = outdoor.uri :=
        Except.ok.inj (hbody.symm.trans h.body)
      by_cases hempty : uri = []
      · refine Or.inr ⟨fun outdoor _ h ↦ ?_, STATUS_BAD_REQUEST, "missing 'outdoor' field".toList,
          by decide, fun s ↦ ?_⟩
        · have hparse := h.uri
          rw [← huri h, hempty] at hparse
          cases hparse
        · simp only [handleVideo, hvideo, hbody, hempty, if_true]
      · cases hparse : parseOutdoor uri with
        | error e =>
          refine Or.inr ⟨fun outdoor _ h ↦ ?_, STATUS_BAD_REQUEST,
            "invalid 'outdoor' URI: ".toList ++ videoParseErrMsg sv.shown e (textOfStr uri),
            by decide, fun s ↦ ?_⟩
          · have hok := h.uri
            rw [← huri h, hparse] at hok
            cases hok
          · simp only [handleVideo, hvideo, hbody, hempty, if_false, hparse]
        | ok outdoor =>
          have houri := parseOutdoor_uri hparse
          by_cases hallowed : isOutdoorAllowed sv.cfg uri = true
          · refine Or.inl ⟨mgr, outdoor, rfl, ⟨?_, ?_, ?_⟩, fun s ↦ ?_⟩
            · rw [houri, hbody]
            · rw [houri, hparse]
            · rw [houri]
              exact isOutdoorAllowed_iff.mp hallowed
            · simp only [handleVideo, hvideo, hbody, hempty, if_false, hparse, hallowed, not_true]
          · refine Or.inr ⟨fun outdoor' _ h ↦ hallowed ?_, STATUS_BAD_REQUEST,
              "outdoor not in cfg.stations allowlist".toList, by decide, fun s ↦ ?_⟩
            · rw [huri h]
              exact isOutdoorAllowed_iff.mpr h.allowed
            · simp only [handleVideo, hvideo, hbody, hempty, if_false, hparse, hallowed, if_true,
                Bool.false_eq_true, not_false_eq_true]

/-- Of the two requests about a session each makes of a request what its order says. -/
theorem Settles.outdoor {e : Endpoint} {act : Manager σ → Outdoor → Plane σ → List Call × Plane σ}
    (order : Outdoor → Order) (hpath : e.Serves r.url.path)
    (horders : ∀ o, o.endpoint = e → (Orders cases sv r o ↔ ∃ outdoor, o = order outdoor ∧
      Posted cases r ∧ sv.video.isSome = true ∧ Outdoors sv.cfg r.body outdoor))
    (hendpoint : ∀ outdoor, (order outdoor).endpoint = e)
    (hact : ∀ mgr outdoor s, sv.video = some mgr →
      act mgr outdoor s = (order outdoor).perform sv r s) :
    Settles cases sv r (chainControlPost cases (handleVideo sv act) r) := by
  refine Settles.posted _ hpath (fun o he ho ↦ ?_) fun hposted ↦ ?_
  · obtain ⟨_, -, hposted, -⟩ := (horders o he).mp ho
    exact hposted
  · rcases handleVideo_cases sv act r with
      ⟨mgr, outdoor, hvideo, houtdoor, hok⟩ | ⟨hnone, status, msg, hstatus, hmsg⟩
    · have henabled : sv.video.isSome = true := by rw [hvideo]; rfl
      refine Or.inl ⟨order outdoor, (horders _ (hendpoint outdoor)).mpr
        ⟨outdoor, rfl, hposted, henabled, houtdoor⟩, fun s ↦ ?_⟩
      rw [hok, hact mgr outdoor s hvideo]
    · refine Or.inr ⟨fun o ho ↦ ?_, fun s ↦ ⟨_, .error msg ?_, hmsg s⟩⟩
      · obtain ⟨outdoor, -, -, henabled, houtdoor⟩ := (horders o (ho.serves.eq hpath)).mp ho
        exact hnone outdoor henabled houtdoor
      · revert hstatus
        generalize status = n
        simp only [List.mem_cons, List.not_mem_nil, or_false]
        rintro (rfl | rfl)
        · exact Or.inl rfl
        · exact Or.inr (Or.inr (Or.inr rfl))

theorem settles_videoStart (hpath : Endpoint.videoStart.Serves r.url.path) :
    Settles cases sv r (Endpoint.videoStart.handler cases sv r) := by
  refine Settles.outdoor .videoStart hpath (fun o he ↦ ⟨fun ho ↦ ?_, ?_⟩)
    (fun _ ↦ rfl) fun mgr outdoor s hvideo ↦ ?_
  · cases ho with
    | videoStart _ hposted henabled houtdoor => exact ⟨_, rfl, hposted, henabled, houtdoor⟩
    | _ => cases he
  · rintro ⟨outdoor, rfl, hposted, henabled, houtdoor⟩
    exact .videoStart hpath hposted henabled houtdoor
  · simp only [Order.perform, hvideo, Option.elim]

theorem settles_videoStop (hpath : Endpoint.videoStop.Serves r.url.path) :
    Settles cases sv r (Endpoint.videoStop.handler cases sv r) := by
  refine Settles.outdoor .videoStop hpath (fun o he ↦ ⟨fun ho ↦ ?_, ?_⟩)
    (fun _ ↦ rfl) fun mgr outdoor s hvideo ↦ ?_
  · cases ho with
    | videoStop _ hposted henabled houtdoor => exact ⟨_, rfl, hposted, henabled, houtdoor⟩
    | _ => cases he
  · rintro ⟨outdoor, rfl, hposted, henabled, houtdoor⟩
    exact .videoStop hpath hposted henabled houtdoor
  · simp only [Order.perform, hvideo, Option.elim]

/-! ### Sessions -/

/-- The two parts of a path at its first slash. -/
theorem splitn_slash_iff {s a b : Text} :
    splitn 2 '/' s = [a, b] ↔ s = a ++ '/' :: b ∧ '/' ∉ a := by
  constructor
  · intro h
    by_cases hmem : '/' ∈ s
    · obtain ⟨a', b', rfl, ha'⟩ := List.eq_append_cons_of_mem hmem
      have heq : [a', b'] = [a, b] := (splitn_cons ha' b').symm.trans h
      obtain ⟨rfl, htail⟩ := List.cons.inj heq
      obtain ⟨rfl, -⟩ := List.cons.inj htail
      exact ⟨rfl, ha'⟩
    · rw [splitn, List.idxOf?_eq_none_iff.mpr hmem] at h
      cases h
  · rintro ⟨rfl, ha⟩
    rw [splitn_cons ha]
    rfl

theorem slash_not_mem_of_isValidUuid {id : Text} (h : isValidUuid (Utf8.encode id) = true) :
    '/' ∉ id := by
  intro hmem
  have hbyte : (47 : UInt8) ∈ Utf8.encode id := by
    rw [Utf8.encode, List.mem_flatMap]
    exact ⟨'/', hmem, by decide⟩
  obtain ⟨i, hi, hget⟩ := List.mem_iff_getElem.mp hbyte
  have hall := List.all_eq_true.mp (Bool.and_eq_true _ _ ▸ h).2 (47, i)
    (List.mem_zipIdx_iff_getElem?.mpr (by rw [List.getElem?_eq_getElem hi, hget]))
  revert hall
  change (if isHyphenPosition i = true then (47 : UInt8) == 45 else isAsciiHexdigit 47) = true → _
  split_ifs <;> decide

theorem Endpoint.Serves.path_eq {path : Text} (h : Endpoint.video.Serves path) :
    path = "/video/".toList ++ stripPrefixOrEmpty "/video/".toList path := by
  obtain ⟨rest, rfl⟩ : Endpoint.video.pattern <+: path := h.1
  have hpattern : Endpoint.video.pattern = "/video/".toList := rfl
  rw [hpattern, stripPrefixOrEmpty, if_pos (List.isPrefixOf_iff_prefix.mpr ⟨rest, rfl⟩),
    List.drop_left]

theorem settles_video (hpath : Endpoint.video.Serves r.url.path) :
    Settles cases sv r (Endpoint.video.handler cases sv r) := by
  have horders : ∀ o, Orders cases sv r o → sv.video.isSome = true ∧ r.method = METHOD_GET ∧
      ∃ sessionId resource,
        splitn 2 '/' (stripPrefixOrEmpty "/video/".toList r.url.path) = [sessionId, resource] ∧
          isValidUuid (Utf8.encode sessionId) = true := by
    intro o ho
    have he := ho.serves.eq hpath
    cases ho with
    | @video sessionId resource _ hparts hvalid hget henabled =>
      have hrest := hpath.path_eq
      rw [hparts, List.append_assoc] at hrest
      refine ⟨henabled, hget, sessionId, resource,
        splitn_slash_iff.mpr ⟨?_, slash_not_mem_of_isValidUuid hvalid⟩, hvalid⟩
      rw [hparts, List.append_assoc]
      exact (List.append_cancel_left hrest).symm
    | _ => cases he
  change Settles cases sv r (handleVideoDynamic sv r)
  cases hvideo : sv.video with
  | none =>
    refine Or.inr ⟨fun o ho ↦ ?_, fun s ↦
      ⟨errorJson STATUS_SERVICE_UNAVAILABLE VIDEO_NOT_ENABLED, .error _ (by decide), ?_⟩⟩
    · have henabled := (horders o ho).1
      rw [hvideo] at henabled
      cases henabled
    · simp only [handleVideoDynamic, hvideo]
  | some mgr =>
    by_cases hparts : ∃ sessionId resource,
        splitn 2 '/' (stripPrefixOrEmpty "/video/".toList r.url.path) = [sessionId, resource]
    · obtain ⟨sessionId, resource, hparts⟩ := hparts
      by_cases hvalid : isValidUuid (Utf8.encode sessionId) = true
      · by_cases hget : r.method = METHOD_GET
        · refine Or.inl ⟨.video sessionId resource,
            .video hpath ?_ hvalid hget (by rw [hvideo]; rfl), fun s ↦ ?_⟩
          · rw [hpath.path_eq, (splitn_slash_iff.mp hparts).1, List.append_assoc]
          · simp only [handleVideoDynamic, hvideo, hparts, hvalid, hget, Order.perform, Option.elim,
              not_true, if_false, ne_eq]
        · refine Or.inr ⟨fun o ho ↦ hget (horders o ho).2.1, fun s ↦
            ⟨notAllowed r.method METHOD_GET, .notAllowed _ (by decide), ?_⟩⟩
          simp only [handleVideoDynamic, hvideo, hparts, hvalid, hget, not_true, if_false, ne_eq,
            not_false_eq_true, if_true]
      · refine Or.inr ⟨fun o ho ↦ ?_, fun s ↦
          ⟨errorJson STATUS_BAD_REQUEST "invalid session_id".toList, .error _ (by decide), ?_⟩⟩
        · obtain ⟨-, -, _, _, hparts', hvalid'⟩ := horders o ho
          rw [hparts] at hparts'
          obtain ⟨rfl, -⟩ := List.cons.inj hparts'
          exact hvalid hvalid'
        · simp only [handleVideoDynamic, hvideo, hparts, hvalid, not_false_eq_true, if_true,
            Bool.false_eq_true]
    · refine Or.inr ⟨fun o ho ↦ ?_, fun s ↦
        ⟨errorJson STATUS_NOT_FOUND "video: malformed path".toList, .error _ (by decide), ?_⟩⟩
      · obtain ⟨-, -, sessionId, resource, hparts', -⟩ := horders o ho
        exact hparts ⟨sessionId, resource, hparts'⟩
      · simp only [handleVideoDynamic, hvideo]
        generalize hsplit : splitn 2 '/' (stripPrefixOrEmpty "/video/".toList r.url.path) = parts
        rw [hsplit] at hparts
        match parts, hparts with
        | [], _ => rfl
        | [_], _ => rfl
        | [a, b], hparts => exact absurd ⟨a, b, rfl⟩ hparts
        | _ :: _ :: _ :: _, _ => rfl

/-- Every request either orders one thing, which is done, or nothing. -/
theorem settles (cases : CaseTable) (sv : Server σ) (r : Request) :
    Settles cases sv r (sv.serveHttp cases r) := by
  have heq := funext (serveHttp_eq cases sv r)
  cases hendpoint : endpointOf r.url.path with
  | none =>
    rw [hendpoint] at heq
    rw [heq]
    refine Or.inr ⟨fun o ho ↦ ?_, fun s ↦ ⟨_, .notFound, rfl⟩⟩
    rw [endpointOf_eq_some_iff.mpr ho.serves] at hendpoint
    cases hendpoint
  | some e =>
    rw [hendpoint] at heq
    rw [heq]
    have hpath := endpointOf_eq_some_iff.mp hendpoint
    cases e with
    | autoUnlock => exact settles_autoUnlock hpath
    | autoHangup => exact settles_autoHangup hpath
    | automation =>
      exact .report hpath (fun o ↦ by cases o <;> simp [Order.endpoint])
        fun s ↦ ⟨_, .automation r, rfl⟩
    | info =>
      exact .report hpath (fun o ↦ by cases o <;> simp [Order.endpoint])
        fun s ↦ ⟨_, .info r, rfl⟩
    | playback =>
      exact .report hpath (fun o ↦ by cases o <;> simp [Order.endpoint])
        fun s ↦ ⟨_, .playback r, rfl⟩
    | unlock => exact settles_unlock hpath
    | videoStart => exact settles_videoStart hpath
    | videoStop => exact settles_videoStop hpath
    | video => exact settles_video hpath

theorem Addressed.eq {body from_ to_ from' to' ip ip' : Str}
    {caller callee caller' callee' : Octets} {port port' : UInt16}
    (h : Addressed body from_ to_ caller callee ip port)
    (h' : Addressed body from' to' caller' callee' ip' port') :
    Order.unlock from_ to_ caller callee ip port =
      .unlock from' to' caller' callee' ip' port' := by
  obtain ⟨rfl, rfl⟩ := Prod.mk.inj (h.body.symm.trans h'.body)
  obtain ⟨name, hto, hcaller⟩ := h.to_
  obtain ⟨name', hto', hcaller'⟩ := h'.to_
  obtain ⟨_, _, _, hfrom, hcallee⟩ := h.from_
  obtain ⟨_, _, _, hfrom', hcallee'⟩ := h'.from_
  obtain ⟨rfl, hrest⟩ := Prod.mk.inj (Except.ok.inj (hto.symm.trans hto'))
  obtain ⟨rfl, rfl⟩ := Prod.mk.inj hrest
  obtain ⟨rfl, -⟩ := Prod.mk.inj (Except.ok.inj (hfrom.symm.trans hfrom'))
  rw [Except.ok.inj (hcaller.symm.trans hcaller'), Except.ok.inj (hcallee.symm.trans hcallee')]

theorem Outdoors.eq {cfg : Config} {body : List UInt8} {outdoor outdoor' : Outdoor}
    (h : Outdoors cfg body outdoor) (h' : Outdoors cfg body outdoor') : outdoor = outdoor' := by
  have huri : outdoor.uri = outdoor'.uri := Except.ok.inj (h.body.symm.trans h'.body)
  have hparse := h.uri
  rw [huri] at hparse
  exact Except.ok.inj (hparse.symm.trans h'.uri)

/-- A request orders at most one thing. -/
theorem Orders.eq {o o' : Order} (h : Orders cases sv r o) (h' : Orders cases sv r o') :
    o = o' := by
  have he := h.serves.eq h'.serves
  cases h with
  | autoUnlock _ _ hon =>
    cases h' with
    | autoUnlock _ _ hon' => rw [Except.ok.inj (hon.symm.trans hon')]
    | _ => cases he
  | autoHangup _ _ hon =>
    cases h' with
    | autoHangup _ _ hon' => rw [Except.ok.inj (hon.symm.trans hon')]
    | _ => cases he
  | unlock _ _ _ hbody haddressed =>
    cases h' with
    | unlock _ _ _ hbody' haddressed' =>
      obtain rfl := Except.ok.inj (hbody.symm.trans hbody')
      exact haddressed.eq haddressed'
    | _ => cases he
  | videoStart _ _ _ houtdoor =>
    cases h' with
    | videoStart _ _ _ houtdoor' => rw [houtdoor.eq houtdoor']
    | _ => cases he
  | videoStop _ _ _ houtdoor =>
    cases h' with
    | videoStop _ _ _ houtdoor' => rw [houtdoor.eq houtdoor']
    | _ => cases he
  | @video sessionId resource _ hparts hvalid =>
    cases h' with
    | @video sessionId' resource' _ hparts' hvalid' =>
      rw [hparts, List.append_assoc, List.append_assoc] at hparts'
      have hsplit := (splitn_slash_iff (a := sessionId) (b := resource)).mpr
        ⟨rfl, slash_not_mem_of_isValidUuid hvalid⟩
      have hsplit' := (splitn_slash_iff (a := sessionId') (b := resource')).mpr
        ⟨List.append_cancel_left hparts', slash_not_mem_of_isValidUuid hvalid'⟩
      obtain ⟨rfl, htail⟩ := List.cons.inj (hsplit.symm.trans hsplit')
      obtain ⟨rfl, -⟩ := List.cons.inj htail
      rfl
    | _ => cases he

end DoorAccess.Control
