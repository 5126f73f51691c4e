import DoorAccess.Control.Middleware
import DoorAccess.Info
import DoorAccess.Video.Transmux

/-!
# The control plane

`Server::handler` of `control.rs` with its endpoints: the automation flags, the self-description,
the manual unlock and the video sessions. A handler sees the request and the state of the plane, and
leaves its calls on the response writer and the state behind.

What lies outside is a state `σ` that only the functions of the server act on: the wire worker
behind `dispatch` and the video manager. What they are asked for, and what else a handler does
besides answering, is kept in order in `done`.
-/

set_option autoImplicit false
set_option relaxedAutoImplicit false

namespace DoorAccess.Control

open Codec Httpx Unlock
open Video (Outdoor SessionInfo)
open Video.Preview (PreviewError)
open WireSender (IoError)

/-! ### The state of the plane -/

/-- What a handler does besides answering. -/
inductive Effect
  /-- The persist hook is called, with the flags as they are then. -/
  | persist (flags : Option AutomationState.State)
  | push (event : String) (fields : List PushField)
  | dispatch (callerBcd calleeBcd : Octets) (targetIp : Str) (targetPort : UInt16)
  | start (outdoor : Outdoor)
  | stop (uri : Str)
  | refreshTtl (id : Str)
  | stopById (id : Str)
  deriving DecidableEq

structure Plane (σ : Type*) where
  automation : Option AutomationState.State
  world : σ
  done : List Effect

variable {σ : Type*}

def Plane.note (s : Plane σ) (effects : List Effect) : Plane σ :=
  { s with done := s.done ++ effects }

/-- `StartError` of `session.rs`, with all that its messages show. -/
inductive StartFailure
  | conflict (active requested : Str)
  | bind (addr : Text) (source : IoError)
  | preview (e : PreviewError)
  | uuid (source : IoError)
  | ssrc (source : IoError)
  deriving DecidableEq

namespace StartFailure

/-- The `Display` of a failure. -/
def text : StartFailure → Text
  | conflict active requested => "video: another outdoor session is active: active=".toList ++
      textOfStr active ++ ", requested=".toList ++ textOfStr requested
  | bind addr source => "video: rtp bind ".toList ++ addr ++ ": ".toList ++ source.message.toList
  | preview e => "video: outdoor preview signal failed: ".toList ++ e.display.toList
  | uuid source => "video: gen UUID: ".toList ++ source.message.toList
  | ssrc source => "video: gen SSRC: ".toList ++ source.message.toList

def isConflict : StartFailure → Bool
  | conflict _ _ => true
  | _ => false

end StartFailure

/-- The errors of `wait_idr`. -/
inductive WaitIdrError
  | timeout
  | closed
  deriving DecidableEq

/-- The video manager as the handlers use it. A question may find the sessions changed by others
since the one before. -/
structure Manager (σ : Type*) where
  start : Outdoor → σ → Except StartFailure SessionInfo × σ
  stop : Str → σ → σ
  currentById : Str → σ → Bool × σ
  /-- `wait_idr` on the buffer of the session. -/
  waitIdr : Str → σ → Except WaitIdrError Unit × σ
  closed : Str → σ → Bool × σ
  /-- Whether `latest_idr` has all three units. -/
  latestIdr : Str → σ → Bool × σ
  refreshTtl : Str → σ → σ
  /-- `StreamWriter::run` between the start of the threads beside it and their end: its calls on the
  body of the response. -/
  run : Str → Request → σ → List Video.Call × σ
  stopById : Str → σ → σ

/-- `Server` with its `ServerInner`. -/
structure Server (σ : Type*) where
  cfg : Config
  version : Text
  pid : ℕ
  probeDial : Text → ℤ → Bool
  /-- Whether there is a persist hook. -/
  persist : Bool
  /-- Whether there is a pusher. -/
  pusher : Bool
  dispatch : Octets → Octets → Str → UInt16 → σ → UnlockOutcome × σ
  video : Option (Manager σ)
  /-- The characters beyond ASCII that the `Debug` form of a string shows as they are. -/
  shown : Char → Bool

/-! ### Automation -/

def parseAutoToggleRequest (r : Request) : Except Text Bool :=
  match readRequestBody r with
  | .error msg => .error msg
  | .ok raw =>
    match parseAutoToggleBody raw with
    | .error msg => .error (textOfStr msg)
    | .ok on => .ok on

/-- The answer to a toggle. -/
def toggled (key : Text) (cur : Bool) : List Call :=
  writeJson STATUS_OK (some [("result".toList, .number 0), (key, .bool cur)])

/-- `handle_auto_unlock` and `handle_auto_hangup`, which differ in the flag. -/
def handleAuto (sv : Server σ) (key : Text) (load : AutomationState.State → Bool)
    (store : Bool → AutomationState.State → AutomationState.State) : Handler (Plane σ) := fun r s ↦
  match parseAutoToggleRequest r with
  | .error msg => (errorJson STATUS_BAD_REQUEST msg, s)
  | .ok on =>
    let s := { s with automation := s.automation.map (store on) }
    let s := if sv.persist then s.note [.persist s.automation] else s
    (toggled key ((s.automation.map load).getD on), s)

def handleAutoUnlock (sv : Server σ) : Handler (Plane σ) :=
  handleAuto sv "auto_unlock".toList AutomationState.State.autoUnlock
    fun on flags ↦ { flags with autoUnlock := on }

def handleAutoHangup (sv : Server σ) : Handler (Plane σ) :=
  handleAuto sv "auto_hangup".toList AutomationState.State.autoHangup
    fun on flags ↦ { flags with autoHangup := on }

def handleAutomationGet : Handler (Plane σ) := fun _ s ↦
  let flags := s.automation.getD ⟨false, false⟩
  (writeJson STATUS_OK (some [("result".toList, .number 0),
    ("auto_unlock".toList, .bool flags.autoUnlock),
    ("auto_hangup".toList, .bool flags.autoHangup)]), s)

/-! ### The daemon itself -/

def handleInfo (sv : Server σ) : Handler (Plane σ) := fun _ s ↦
  let sd := Info.build sv.pid sv.probeDial (some sv.cfg) sv.version false
  ([.set "Content-Type".toList "application/json".toList, .writeHeader STATUS_OK,
    .write (Info.renderJson sd)], s)

def handlePlayback : Handler (Plane σ) := fun _ s ↦
  ([.set "Content-Length".toList "0".toList, .writeHeader STATUS_OK], s)

/-! ### Unlocking -/

/-- The pushes of a reply. -/
def Reply.effects (reply : Reply) : List Effect :=
  reply.pushes.map fun push ↦ .push push.1 push.2

/-- The answer to an unlock. -/
def unlocked (reply : Reply) : List Call :=
  writeJson reply.status (some [("result".toList, .number reply.result)])

def handleUnlock (sv : Server σ) : Handler (Plane σ) := fun r s ↦
  match readRequestBody r with
  | .error msg => (errorJson STATUS_BAD_REQUEST msg, s)
  | .ok raw =>
    let (from_, to_) := parseUnlockBody raw
    if to_ = [] then (errorJson STATUS_BAD_REQUEST "missing 'to' field".toList, s)
    else
      -- The caller on the wire is the door station, the callee the monitor.
      match parseUriBcd sv.shown to_ with
      | .error msg => (errorJson STATUS_BAD_REQUEST ("invalid 'to' URI: ".toList ++ msg), s)
      | .ok (callerBcd, _, _) =>
        match parseUriBcd sv.shown from_ with
        | .error msg => (errorJson STATUS_BAD_REQUEST ("invalid 'from' URI: ".toList ++ msg), s)
        | .ok (calleeBcd, _, _) =>
          match parseUriParts sv.shown to_ with
          | .error msg => (errorJson STATUS_BAD_REQUEST ("invalid 'to' URI: ".toList ++ msg), s)
          | .ok (_, targetIp, targetPort) =>
            let (outcome, world) := sv.dispatch callerBcd calleeBcd targetIp targetPort s.world
            let reply := respondUnlockOutcome sv.pusher "unlock" outcome from_ to_
            let s := { s with world }.note
              (.dispatch callerBcd calleeBcd targetIp targetPort :: reply.effects)
            (unlocked reply, s)

/-! ### Video -/

def VIDEO_NOT_ENABLED : Text := "video forward not enabled".toList

def isOutdoorAllowed (cfg : Config) (uri : Str) : Bool :=
  cfg.stations.any fun s ↦ Utf8.encode s.sip == uri

/-- What `handle_video_start` and `handle_video_stop` check, in this order, before they turn to the
manager. -/
def handleVideo (sv : Server σ) (act : Manager σ → Outdoor → Plane σ → List Call × Plane σ) :
    Handler (Plane σ) := fun r s ↦
  match sv.video with
  | none => (errorJson STATUS_SERVICE_UNAVAILABLE VIDEO_NOT_ENABLED, s)
  | some mgr =>
    match parseVideoBody r.body with
    | .error msg => (errorJson STATUS_BAD_REQUEST (textOfStr msg), s)
    | .ok outdoorUri =>
      if outdoorUri = [] then
        (errorJson STATUS_BAD_REQUEST "missing 'outdoor' field".toList, s)
      else
        match parseOutdoor outdoorUri with
        | .error e => (errorJson STATUS_BAD_REQUEST ("invalid 'outdoor' URI: ".toList ++
            videoParseErrMsg sv.shown e (textOfStr outdoorUri)), s)
        | .ok outdoor =>
          if ¬isOutdoorAllowed sv.cfg outdoorUri then
            (errorJson STATUS_BAD_REQUEST "outdoor not in cfg.stations allowlist".toList, s)
          else act mgr outdoor s

/-- `as i64` of a `u64`, which wraps around. -/
def i64OfU64 (n : ℕ) : ℤ :=
  Int.bmod n (2 ^ 64)

/-- The answer to a start. The timeout of the preview has an arm of its own in the source, with the
same answer as every failure that is no conflict. -/
def started : Except StartFailure SessionInfo → List Call
  | .ok info => writeJson STATUS_OK (some [("session_id".toList, .string (textOfStr info.id)),
      ("stream_url".toList, .string (textOfStr info.streamUrl)),
      ("ttl".toList, .number (i64OfU64 info.ttlSecs))])
  | .error e =>
    if e.isConflict then errorJson STATUS_CONFLICT e.text
    else errorJson STATUS_SERVICE_UNAVAILABLE e.text

def handleVideoStart (sv : Server σ) : Handler (Plane σ) :=
  handleVideo sv fun mgr outdoor s ↦
    let (res, world) := mgr.start outdoor s.world
    (started res, { s with world }.note [.start outdoor])

def handleVideoStop (sv : Server σ) : Handler (Plane σ) :=
  handleVideo sv fun mgr outdoor s ↦
    let world := mgr.stop outdoor.uri s.world
    (writeJson STATUS_OK (some [("result".toList, .number 0)]),
      { s with world }.note [.stop outdoor.uri])

/-- `ResponseBodyWriter`: the calls of the stream writer as calls on the response. -/
def bodyCall : Video.Call → Call
  | .writeAll bytes => .write bytes
  | .flush => .flush

/-- `serve_video_stream`. Only a stream that has its keyframe and both parameter sets keeps its
session alive, and only such a one takes the session down when it is over. -/
def serveVideoStream (mgr : Manager σ) (id : Str) : Handler (Plane σ) := fun r s ↦
  match mgr.waitIdr id s.world with
  | (.error .timeout, world) => (errorJson STATUS_GATEWAY_TIMEOUT
      "video: no keyframe within startup timeout; outdoor not pushing RTP".toList, { s with world })
  | (.error .closed, world) =>
    (errorJson STATUS_SERVICE_UNAVAILABLE "video: session closed".toList, { s with world })
  | (.ok (), world) =>
    let (closed, world) := mgr.closed id world
    if closed then
      (errorJson STATUS_SERVICE_UNAVAILABLE "video: session closed".toList, { s with world })
    else
      let (ready, world) := mgr.latestIdr id world
      if ¬ready then (errorJson STATUS_GATEWAY_TIMEOUT
        "video: stream not ready (missing SPS/PPS)".toList, { s with world })
      else
        let world := mgr.refreshTtl id world
        let (tags, world) := mgr.run id r world
        let world := mgr.stopById id world
        ([.set "Content-Type".toList "video/x-flv".toList,
            .set "Cache-Control".toList "no-store".toList, .writeHeader STATUS_OK] ++
            tags.map bodyCall,
          { s with world }.note [.refreshTtl id, .stopById id])

def serveVideoSnapshot : List Call :=
  errorJson STATUS_SERVICE_UNAVAILABLE ("snapshot transcoding not supported on this hardware; " ++
    "HACS should fall back to stream-source ffmpeg").toList

/-- `str::strip_prefix` and `unwrap_or("")`. -/
def stripPrefixOrEmpty (begin_ s : Text) : Text :=
  if begin_.isPrefixOf s then s.drop begin_.length else []

def handleVideoDynamic (sv : Server σ) : Handler (Plane σ) := fun r s ↦
  match sv.video with
  | none => (errorJson STATUS_SERVICE_UNAVAILABLE VIDEO_NOT_ENABLED, s)
  | some mgr =>
    match splitn 2 '/' (stripPrefixOrEmpty "/video/".toList r.url.path) with
    | [sessionId, resource] =>
      let id := Utf8.encode sessionId
      if ¬isValidUuid id then (errorJson STATUS_BAD_REQUEST "invalid session_id".toList, s)
      else if r.method ≠ METHOD_GET then (notAllowed r.method METHOD_GET, s)
      else
        let (current, world) := mgr.currentById id s.world
        let s := { s with world }
        if ¬current then (errorJson STATUS_NOT_FOUND "video: session not found".toList, s)
        else if resource = "stream.flv".toList then serveVideoStream mgr id r s
        else if resource = "snapshot.jpg".toList then (serveVideoSnapshot, s)
        else (errorJson STATUS_NOT_FOUND "video: unknown resource".toList, s)
    | _ => (errorJson STATUS_NOT_FOUND "video: malformed path".toList, s)

/-! ### The endpoints -/

variable (cases : CaseTable)

/-- The registrations of `Server::handler`, in its order. -/
def Server.routes (sv : Server σ) : List (Text × Handler (Plane σ)) :=
  [("/auto_unlock".toList, chainControlPost cases (handleAutoUnlock sv)),
    ("/auto_hangup".toList, chainControlPost cases (handleAutoHangup sv)),
    ("/automation".toList, methodGuard METHOD_GET handleAutomationGet),
    ("/info".toList, methodGuard METHOD_GET (handleInfo sv)),
    ("/playback".toList, methodGuard METHOD_GET handlePlayback),
    ("/unlock".toList, chainBusinessPost cases sv.cfg (handleUnlock sv)),
    ("/video/start".toList, chainControlPost cases (handleVideoStart sv)),
    ("/video/stop".toList, chainControlPost cases (handleVideoStop sv)),
    ("/video/".toList, handleVideoDynamic sv)]

/-- The patterns of the endpoints. -/
def patterns : List Text :=
  ["/auto_unlock".toList, "/auto_hangup".toList, "/automation".toList, "/info".toList,
    "/playback".toList, "/unlock".toList, "/video/start".toList, "/video/stop".toList,
    "/video/".toList]

theorem Server.routes_patterns (sv : Server σ) : (sv.routes cases).map Prod.fst = patterns := rfl

/-- The registrations go through without a panic. -/
theorem Server.registerAll_isSome (sv : Server σ) :
    (ServeMux.registerAll .new (sv.routes cases)).toOption.isSome = true := by
  obtain ⟨mux, hmux⟩ : ∃ mux, ServeMux.registerAll .new (sv.routes cases) = .ok mux :=
    ServeMux.holds_new.registerAll_ok
      (fun reg hreg ↦ by
        have hmem : reg.1 ∈ patterns := List.mem_map_of_mem (f := Prod.fst) hreg
        revert hmem
        generalize reg.1 = pattern
        revert pattern
        decide)
      (by
        rw [List.nil_append, routes_patterns]
        decide)
  rw [hmux]
  rfl

theorem eq_ok_get {ε α : Type*} {x : Except ε α} (h : x.toOption.isSome = true) :
    x = .ok (x.toOption.get h) := by
  cases x with
  | error e => cases h
  | ok a => rfl

/-- `Server::handler`. -/
def Server.handler (sv : Server σ) : ServeMux (Handler (Plane σ)) :=
  (ServeMux.registerAll .new (sv.routes cases)).toOption.get (sv.registerAll_isSome cases)

/-- `MuxHandler::serve_http`. -/
def Server.serveHttp (sv : Server σ) : Handler (Plane σ) :=
  (sv.handler cases).serveHttp

theorem Server.holds_handler (sv : Server σ) :
    ServeMux.Holds (sv.routes cases) (sv.handler cases) := by
  exact ServeMux.holds_new.registerAll (eq_ok_get (sv.registerAll_isSome cases))

end DoorAccess.Control
