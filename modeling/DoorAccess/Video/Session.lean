import DoorAccess.Lib.Transition
import DoorAccess.Video.FrameBuffer

/-!
# Video sessions

The `Manager` of `session.rs` with the threads around it: the calls of `start`, `stop`,
`stop_by_id`, `refresh_ttl` and `shutdown`, the clean-ups that a session's monitor spawns, the
stream handlers of `control.rs` with their FIN watchers and refresh loops, and the RTP receiver.
There is one slot, `current`, behind a mutex. All methods but one use it for an instant and are one
step; `start` keeps it while it binds, signals and draws its numbers, so it is the only call that is
ever seen as the `holder`.

A state is the slot, the sessions, the calls and the time. The moves of all threads are labels of
one step function, so a list of labels is an interleaving. Sessions are told apart by a number, as
the code tells its `Arc`s apart by pointer; a call that has returned is not used again. What has
happened is recorded in `trace`, which no function reads. Times are in milliseconds. Log lines,
`stream_ssrc`, the RTCP receiver reports and the values of I/O errors are left out; the waits of
`teardown` and of the refresh loop are left to the clock, which may advance at any time.
-/

set_option autoImplicit false
set_option relaxedAutoImplicit false

namespace DoorAccess.Video

open Codec

/-! ### Data -/

structure Outdoor where
  uri : Str
  name : Str
  ip : Str
  port : UInt16
  bcdName : Octets
  deriving DecidableEq

structure SessionInfo where
  id : Str
  outdoorUri : Str
  streamUrl : Str
  ttlSecs : ℕ
  deriving DecidableEq

inductive StartError
  | conflict (active requested : Str)
  | bind
  | preview
  | uuid
  | ssrc
  deriving DecidableEq

/-- `ReinviteState`. -/
structure ReinviteState where
  lastReinviteAt : Option ℕ
  packetsAtReinvite : UInt32
  consecutiveFailures : UInt32
  deriving DecidableEq

def ReinviteState.default : ReinviteState := ⟨none, 0, 0⟩

/-- The reasons that `teardown` is given. -/
inductive Reason
  | explicitStop
  | ttlExpired
  | reinviteFailed
  | daemonShutdown
  deriving DecidableEq, Repr

/-- Where the monitor thread of a session is. -/
inductive MonitorPhase
  /-- At the head of its loop. -/
  | watching
  /-- A tick is due; the time of the tick has been read. -/
  | ticking (now : ℕ)
  /-- The session is to be ended; no lock is held and the clean-up is not yet spawned. -/
  | spawning (reason : Reason)
  /-- The clean-up runs as the call `c` and is not yet registered. -/
  | registering (c : ℕ)
  /-- `tick_reinvite` has decided to signal and waits for `current`. -/
  | guarding (now : ℕ)
  /-- The guard is passed, the 704 not yet sent. -/
  | inviting
  | exited
  deriving DecidableEq

structure Monitor where
  fired : Bool
  nextTick : ℕ
  reinvite : ReinviteState
  phase : MonitorPhase
  deriving DecidableEq

structure Session where
  id : Str
  outdoor : Outdoor
  ttlDeadline : ℕ
  reporterSsrc : UInt32
  lastRtpAt : ℕ
  rtpPackets : UInt32
  frameBuf : FrameBuffer
  stop : Bool
  monitor : Monitor

/-- `Session::info`. -/
def Session.info (sess : Session) (ttl : ℕ) : SessionInfo where
  id := sess.id
  outdoorUri := sess.outdoor.uri
  streamUrl := ascii "/video/" ++ sess.id ++ ascii "/stream.flv"
  ttlSecs := ttl / 1000

namespace Manager

/-! ### Configuration -/

def DEFAULT_SESSION_TTL : ℕ := 60000

def DEFAULT_TTL_MONITOR_INTERVAL : ℕ := 1000

def DEFAULT_STOP_BUDGET : ℕ := 8000

def DEFAULT_TTL_CLEANUP_BUDGET : ℕ := 5000

def DEFAULT_REINVITE_IDLE : ℕ := 1000

def DEFAULT_REINVITE_MIN_INTERVAL : ℕ := 5000

def DEFAULT_REINVITE_FAIL_THRESHOLD : UInt32 := 3

/-- The tunable fields of `Manager`, and the `stream_startup_timeout` of `control.rs`. -/
structure Config where
  ttl : ℕ
  ttlMonitorInterval : ℕ
  stopBudget : ℕ
  ttlCleanupBudget : ℕ
  reinviteIdle : ℕ
  reinviteMinInterval : ℕ
  reinviteFailThreshold : UInt32
  streamStartupTimeout : ℕ

/-- A duration with the default that stands in for zero. -/
def orDefault (value fallback : ℕ) : ℕ :=
  if value = 0 then fallback else value

namespace Config

def ttlValue (cfg : Config) : ℕ := orDefault cfg.ttl DEFAULT_SESSION_TTL

def monitorInterval (cfg : Config) : ℕ :=
  orDefault cfg.ttlMonitorInterval DEFAULT_TTL_MONITOR_INTERVAL

def stopBudgetValue (cfg : Config) : ℕ := orDefault cfg.stopBudget DEFAULT_STOP_BUDGET

def ttlCleanupBudgetValue (cfg : Config) : ℕ :=
  orDefault cfg.ttlCleanupBudget DEFAULT_TTL_CLEANUP_BUDGET

def reinviteIdleValue (cfg : Config) : ℕ := orDefault cfg.reinviteIdle DEFAULT_REINVITE_IDLE

def reinviteMinIntervalValue (cfg : Config) : ℕ :=
  orDefault cfg.reinviteMinInterval DEFAULT_REINVITE_MIN_INTERVAL

def reinviteFailThresholdValue (cfg : Config) : UInt32 :=
  if cfg.reinviteFailThreshold = 0 then DEFAULT_REINVITE_FAIL_THRESHOLD
  else cfg.reinviteFailThreshold

end Config

/-! ### Calls -/

/-- What a call asks of the manager; `stream` is a request for `stream.flv`, which looks its session
up first. -/
inductive Op
  | start (outdoor : Outdoor)
  | stop (uri : Str)
  | stopById (id : Str)
  | refreshTtl (id : Str)
  | stopInternal (p : ℕ) (reason : Reason)
  | shutdown (overall : ℕ)
  | stream (id : Str)
  deriving DecidableEq

/-- All but `stop_internal` is open to callers; that one is left to the monitors. -/
def Op.public : Op → Bool
  | .stopInternal _ _ => false
  | _ => true

/-- The two numbers that `start` draws from the random source. -/
inductive Drawn
  | uuid
  | ssrc
  deriving DecidableEq, Repr

def Drawn.error : Drawn → StartError
  | .uuid => .uuid
  | .ssrc => .ssrc

/-- How far `start` has come after it found the slot empty. -/
inductive StartPhase
  | binding
  | previewing
  | drawing
  /-- A number could not be drawn: the preview is to be stopped again. -/
  | rollingBack (missing : Drawn)
  /-- The session and its threads exist but are not yet in the slot. -/
  | spawned (p : ℕ)
  deriving DecidableEq

/-- The next action of `teardown`. -/
inductive TeardownPhase
  | stopPreview
  | bye
  | stopFlag
  | close
  deriving DecidableEq, Repr

inductive Reply
  | started (info : SessionInfo)
  | failed (error : StartError)
  | refreshed (found : Bool)
  | done
  /-- 404, no such session. -/
  | notFound
  /-- 504, no keyframe within the start-up time. -/
  | noKeyframe
  /-- 503, the session is closed. -/
  | sessionClosed
  /-- 504, SPS or PPS missing. -/
  | notReady
  deriving DecidableEq

inductive Phase
  | idle
  /-- Called, and waiting for `current`. -/
  | calling (op : Op)
  /-- `start` with `current` in hand. -/
  | starting (outdoor : Outdoor) (phase : StartPhase)
  | tearing (p : ℕ) (reason : Reason) (deadline : ℕ) (phase : TeardownPhase)
  /-- `shutdown` after its teardown, before it takes the clean-up handles. -/
  | reconciling (overall : ℕ)
  | draining (overall : ℕ) (handles : List ℕ)
  /-- A stream handler in `wait_idr`. -/
  | waitingIdr (p : ℕ) (deadline : ℕ)
  | checking (p : ℕ)
  | ready (p : ℕ)
  /-- The handler has spawned its threads; `StreamWriter::run` writes the seed. -/
  | seeding (p : ℕ)
  | streaming (p : ℕ) (consumer : Option ℕ)
  /-- `run` has returned, the handler's threads are not yet joined. -/
  | leaving (p : ℕ)
  | returned (reply : Reply)
  deriving DecidableEq

structure Call where
  phase : Phase
  /-- The FIN watcher of a stream handler. -/
  watcher : Bool
  /-- The refresh loop of a stream handler. -/
  refresher : Bool
  deriving DecidableEq

/-- What `teardown` has done: whether the 708 was sent or skipped, the BYE, the stop flag, the
close. -/
inductive TeardownStep
  | stopPreview (sent : Bool)
  | bye
  | stopFlag
  | close
  deriving DecidableEq, Repr

inductive Event
  /-- A call has got hold of `current` and found this in it. -/
  | entered (c : ℕ) (op : Op) (current : Option ℕ)
  /-- The bind of the RTP socket, and whether it succeeded. -/
  | bound (c : ℕ) (ok : Bool)
  | startPreview (c : ℕ) (outdoor : Outdoor) (ok : Bool)
  /-- A draw from the random source, and whether it succeeded. -/
  | drew (c : ℕ) (number : Drawn) (ok : Bool)
  | dropSocket (c : ℕ)
  | rollbackPreview (c : ℕ) (outdoor : Outdoor)
  | committed (c p : ℕ)
  | removed (c : ℕ) (op : Op) (p : ℕ)
  | tore (c p : ℕ) (step : TeardownStep)
  | reinvited (p : ℕ)
  /-- The FIN watcher of a handler has closed the buffer. -/
  | finClosed (c p : ℕ)
  /-- The `run` of a handler has returned. -/
  | left (c p : ℕ)
  | returned (c : ℕ) (reply : Reply)
  deriving DecidableEq

/-! ### The state -/

structure State where
  now : ℕ
  current : Option ℕ
  /-- The `start` that keeps `current`. -/
  holder : Option ℕ
  sessions : ℕ → Option Session
  calls : ℕ → Call
  cleanups : List ℕ
  /-- History. -/
  trace : List Event

namespace State

def init : State where
  now := 0
  current := none
  holder := none
  sessions := fun _ ↦ none
  calls := fun _ ↦ ⟨.idle, false, false⟩
  cleanups := []
  trace := []

def log (s : State) (e : Event) : State :=
  { s with trace := s.trace ++ [e] }

def setPhase (s : State) (c : ℕ) (phase : Phase) : State :=
  { s with calls := Function.update s.calls c { s.calls c with phase := phase } }

def setSession (s : State) (p : ℕ) (sess : Session) : State :=
  { s with sessions := Function.update s.sessions p (some sess) }

def reply (s : State) (c : ℕ) (r : Reply) : State :=
  (s.setPhase c (.returned r)).log (.returned c r)

section Fields

variable (s : State) (e : Event) (c p : ℕ) (phase : Phase) (sess : Session)

@[simp] theorem log_current : (s.log e).current = s.current := rfl

@[simp] theorem log_holder : (s.log e).holder = s.holder := rfl

@[simp] theorem log_sessions : (s.log e).sessions = s.sessions := rfl

@[simp] theorem log_calls : (s.log e).calls = s.calls := rfl

@[simp] theorem log_trace : (s.log e).trace = s.trace ++ [e] := rfl

@[simp] theorem setPhase_current : (s.setPhase c phase).current = s.current := rfl

@[simp] theorem setPhase_holder : (s.setPhase c phase).holder = s.holder := rfl

@[simp] theorem setPhase_sessions : (s.setPhase c phase).sessions = s.sessions := rfl

@[simp] theorem setPhase_calls : (s.setPhase c phase).calls =
    Function.update s.calls c { s.calls c with phase := phase } := rfl

@[simp] theorem setPhase_trace : (s.setPhase c phase).trace = s.trace := rfl

@[simp] theorem setSession_current : (s.setSession p sess).current = s.current := rfl

@[simp] theorem setSession_holder : (s.setSession p sess).holder = s.holder := rfl

@[simp] theorem setSession_sessions : (s.setSession p sess).sessions =
    Function.update s.sessions p (some sess) := rfl

@[simp] theorem setSession_calls : (s.setSession p sess).calls = s.calls := rfl

@[simp] theorem setSession_trace : (s.setSession p sess).trace = s.trace := rfl

end Fields

/-- The session in the slot. -/
def currentSession (s : State) : Option (ℕ × Session) :=
  s.current.bind fun p ↦ (s.sessions p).map fun sess ↦ (p, sess)

theorem currentSession_eq_some {s : State} {p : ℕ} {sess : Session} :
    s.currentSession = some (p, sess) ↔ s.current = some p ∧ s.sessions p = some sess := by
  simp only [currentSession, Option.bind_eq_some_iff, Option.map_eq_some_iff, Prod.mk.injEq]
  constructor
  · rintro ⟨q, hcurrent, sess', hsess, rfl, rfl⟩
    exact ⟨hcurrent, hsess⟩
  · rintro ⟨hcurrent, hsess⟩
    exact ⟨p, hcurrent, sess, hsess, rfl, rfl⟩

end State

/-! ### Methods that use the slot for an instant -/

section Methods

variable (cfg : Config) (s : State) (c : ℕ)

/-- The common body of the four methods that empty the slot: take the session out if it is the one
asked for, and go on to its teardown outside the lock. -/
def takeCurrent (op : Op) (key : ℕ → Session → Bool) (reason : Reason) (deadline : ℕ)
    (otherwise : State) : State :=
  match s.currentSession with
  | some (p, sess) =>
    if key p sess then
      ({ s with current := none }.setPhase c (.tearing p reason deadline .stopPreview)).log
        (.removed c op p)
    else otherwise
  | none => otherwise

/-- `Manager::stop`. -/
def stop (uri : Str) : State :=
  takeCurrent s c (.stop uri) (fun _ sess ↦ sess.outdoor.uri = uri) .explicitStop
    (s.now + cfg.stopBudgetValue) (s.reply c .done)

/-- `Manager::stop_by_id`. -/
def stopById (id : Str) : State :=
  takeCurrent s c (.stopById id) (fun _ sess ↦ sess.id = id) .explicitStop
    (s.now + cfg.stopBudgetValue) (s.reply c .done)

/-- `Manager::stop_internal`: the session is compared by pointer. -/
def stopInternal (q : ℕ) (reason : Reason) : State :=
  takeCurrent s c (.stopInternal q reason) (fun p _ ↦ p = q) reason
    (s.now + cfg.ttlCleanupBudgetValue) (s.reply c .done)

/-- `Manager::shutdown` up to its teardown. -/
def shutdown (overall : ℕ) : State :=
  takeCurrent s c (.shutdown overall) (fun _ _ ↦ true) .daemonShutdown overall
    (s.setPhase c (.reconciling overall))

/-- `refresh_ttl`: the state and whether the session was found. -/
def refreshTtl (id : Str) : State × Bool :=
  match s.currentSession with
  | some (p, sess) =>
    if sess.id = id then
      (s.setSession p { sess with ttlDeadline := s.now + cfg.ttlValue }, true)
    else (s, false)
  | none => (s, false)

/-- The reuse of `start`: only a session with a complete seed has its TTL refreshed. -/
def reuse (p : ℕ) (sess : Session) : State :=
  if sess.frameBuf.latestIdr.isSome then
    s.setSession p { sess with ttlDeadline := s.now + cfg.ttlValue }
  else s

/-- `Manager::start` up to the bind. -/
def start (outdoor : Outdoor) : State :=
  match s.currentSession with
  | some (p, sess) =>
    if sess.outdoor.uri = outdoor.uri then
      (reuse cfg s p sess).reply c (.started (sess.info cfg.ttlValue))
    else s.reply c (.failed (.conflict sess.outdoor.uri outdoor.uri))
  | none => { s with holder := some c }.setPhase c (.starting outdoor .binding)

/-- `current_by_id` of `handle_video_dynamic`, and the entry into `wait_idr`. -/
def stream (id : Str) : State :=
  match s.currentSession with
  | some (p, sess) =>
    if sess.id = id then s.setPhase c (.waitingIdr p (s.now + cfg.streamStartupTimeout))
    else s.reply c .notFound
  | none => s.reply c .notFound

/-- What a call does once it has `current`. -/
def enter (op : Op) : State :=
  let s := s.log (.entered c op s.current)
  match op with
  | .start outdoor => start cfg s c outdoor
  | .stop uri => stop cfg s c uri
  | .stopById id => stopById cfg s c id
  | .refreshTtl id => (refreshTtl cfg s id).1.reply c (.refreshed (refreshTtl cfg s id).2)
  | .stopInternal q reason => stopInternal cfg s c q reason
  | .shutdown overall => shutdown s c overall
  | .stream id => stream cfg s c id

end Methods

/-! ### The rest of `start` -/

section Start

variable (cfg : Config) (s : State) (c : ℕ) (outdoor : Outdoor)

/-- `start` returns an error and lets go of `current`. -/
def startFails (error : StartError) : State :=
  { s with holder := none }.reply c (.failed error)

/-- The UDP socket is bound, or not. -/
def bindUdp (ok : Bool) : State :=
  let s := s.log (.bound c ok)
  if ok then s.setPhase c (.starting outdoor .previewing) else startFails s c .bind

/-- The 704 and its acknowledgement. -/
def startPreview (ok : Bool) : State :=
  let s := s.log (.startPreview c outdoor ok)
  if ok then s.setPhase c (.starting outdoor .drawing)
  else startFails (s.log (.dropSocket c)) c .preview

/-- The session that `start` creates. -/
def newSession (id : Str) (ssrc : UInt32) : Session where
  id := id
  outdoor := outdoor
  ttlDeadline := s.now + cfg.ttlValue
  reporterSsrc := ssrc
  lastRtpAt := s.now
  rtpPackets := 0
  frameBuf := .new
  stop := false
  monitor := ⟨false, s.now + cfg.monitorInterval, .default, .watching⟩

/-- The UUID, then the SSRC, then the session `p` with its threads. -/
def drawNumbers (uuid : Option Str) (ssrc : Option UInt32) (p : ℕ) : State :=
  match uuid, ssrc with
  | none, _ =>
    ((s.log (.drew c .uuid false)).log (.dropSocket c)).setPhase c
      (.starting outdoor (.rollingBack .uuid))
  | some _, none =>
    (((s.log (.drew c .uuid true)).log (.drew c .ssrc false)).log (.dropSocket c)).setPhase c
      (.starting outdoor (.rollingBack .ssrc))
  | some id, some ssrc =>
    (((s.log (.drew c .uuid true)).log (.drew c .ssrc true)).setSession p
      (newSession cfg s outdoor id ssrc)).setPhase c (.starting outdoor (.spawned p))

/-- The new session goes into the slot. -/
def commit (p : ℕ) (sess : Session) : State :=
  ({ s with current := some p, holder := none }.log (.committed c p)).reply c
    (.started (sess.info cfg.ttlValue))

end Start

/-! ### `teardown` -/

/-- The action of a phase of `teardown`: the 708 is skipped when no time is left, the BYE, the flag
and the close are not. -/
def teardownStep (now deadline : ℕ) : TeardownPhase → TeardownStep
  | .stopPreview => .stopPreview (decide (now < deadline))
  | .bye => .bye
  | .stopFlag => .stopFlag
  | .close => .close

/-- What an action of `teardown` does to the session. -/
def Session.tear (sess : Session) : TeardownPhase → Session
  | .stopPreview => sess
  | .bye => sess
  | .stopFlag => { sess with stop := true }
  | .close => { sess with frameBuf := sess.frameBuf.close }

/-- One action of `teardown`, and what the call goes on with. -/
def teardown (s : State) (c p : ℕ) (sess : Session) (reason : Reason) (deadline : ℕ)
    (phase : TeardownPhase) : State :=
  let s := (s.setSession p (Session.tear sess phase)).log
    (.tore c p (teardownStep s.now deadline phase))
  match phase with
  | .stopPreview => s.setPhase c (.tearing p reason deadline .bye)
  | .bye => s.setPhase c (.tearing p reason deadline .stopFlag)
  | .stopFlag => s.setPhase c (.tearing p reason deadline .close)
  | .close =>
    if reason = .daemonShutdown then s.setPhase c (.reconciling deadline) else s.reply c .done

/-- A call has returned. -/
def Call.finished (call : Call) : Bool :=
  match call.phase with
  | .returned _ => true
  | _ => false

/-! ### The monitor of a session -/

section Monitor

variable (cfg : Config) (s : State) (p : ℕ) (sess : Session)

/-- The `thread::spawn` of a clean-up, which calls `stop_internal`. -/
def spawnCleanup (c : ℕ) (reason : Reason) : State :=
  (s.setSession p { sess with monitor := { sess.monitor with phase := .registering c } }).setPhase
    c (.calling (.stopInternal p reason))

/-- `register_cleanup`, by the monitor that has spawned the clean-up. -/
def registerCleanup (c : ℕ) : State :=
  { s.setSession p { sess with monitor := { sess.monitor with phase := .watching } } with
    cleanups := (s.cleanups.filter fun k ↦ !(s.calls k).finished) ++ [c] }

/-- The head of the monitor's loop. -/
def look : Option Session :=
  if sess.monitor.phase ≠ .watching then none
  else if sess.stop then some { sess with monitor := { sess.monitor with phase := .exited } }
  else if sess.monitor.nextTick ≤ s.now then
    some { sess with monitor := { sess.monitor with phase := .ticking s.now } }
  else none

/-- What `tick_reinvite` decides before its guard. -/
inductive TickDecision
  | rest (rs : ReinviteState)
  | giveUp (rs : ReinviteState)
  | signal (rs : ReinviteState)
  deriving DecidableEq

/-- `tick_reinvite` up to its guard. -/
def tickReinvite (rs : ReinviteState) (now : ℕ) : TickDecision :=
  if sess.frameBuf.consumerCount = 0 then .rest .default
  else if now - sess.lastRtpAt ≤ cfg.reinviteIdleValue then .rest rs
  else
    match rs.lastReinviteAt with
    | none => .signal rs
    | some last =>
      if now - last < cfg.reinviteMinIntervalValue then .rest rs
      else if sess.rtpPackets ≠ rs.packetsAtReinvite then
        .signal { rs with consecutiveFailures := 0 }
      else
        let rs := { rs with consecutiveFailures := rs.consecutiveFailures + 1 }
        if cfg.reinviteFailThresholdValue ≤ rs.consecutiveFailures then .giveUp rs else .signal rs

/-- The monitor behind a tick read at `now`, and where it goes on. -/
def tickMonitor (now : ℕ) : Monitor :=
  let m := { sess.monitor with nextTick := now + cfg.monitorInterval, phase := .watching }
  if m.fired then m
  else if sess.ttlDeadline < now then { m with fired := true, phase := .spawning .ttlExpired }
  else
    match tickReinvite cfg sess m.reinvite now with
    | .rest rs => { m with reinvite := rs }
    | .giveUp rs => { m with reinvite := rs, phase := .spawning .reinviteFailed }
    | .signal rs => { m with reinvite := rs, phase := .guarding now }

/-- A tick of the monitor read at `now`. -/
def tick (now : ℕ) : State :=
  s.setSession p { sess with monitor := tickMonitor cfg sess now }

/-- The guard of `tick_reinvite`: the session must still be in the slot. -/
def guardReinvite (now : ℕ) : Session :=
  if s.current = some p then
    { sess with monitor := { sess.monitor with
      reinvite := { sess.monitor.reinvite with
        lastReinviteAt := some now
        packetsAtReinvite := sess.rtpPackets }
      phase := .inviting } }
  else { sess with monitor := { sess.monitor with phase := .watching } }

/-- The 704 of a re-invite; whatever comes of it, the idle clock starts anew. -/
def reinvite : State :=
  (s.setSession p { sess with
    lastRtpAt := s.now
    monitor := { sess.monitor with phase := .watching } }).log (.reinvited p)

end Monitor

/-! ### Stream handlers -/

section Handler

variable (s : State) (c p : ℕ) (sess : Session)

/-- `wait_idr` returns, or goes on waiting. -/
def waitIdr (deadline : ℕ) : Option State :=
  if sess.frameBuf.closed then some (s.reply c .sessionClosed)
  else if sess.frameBuf.idrReady then some (s.setPhase c (.checking p))
  else if deadline ≤ s.now then some (s.reply c .noKeyframe)
  else none

/-- The two checks between `wait_idr` and the response header. -/
def checkReady : State :=
  if sess.frameBuf.closed then s.reply c .sessionClosed
  else if sess.frameBuf.latestIdr.isNone then s.reply c .notReady
  else s.setPhase c (.ready p)

/-- The refresh of the TTL, after which the header is written and the refresh loop and, where the
connection can be cloned, the FIN watcher are spawned. -/
def beginStream (cfg : Config) (peek : Bool) : State :=
  let s := (refreshTtl cfg s sess.id).1
  { s with calls := Function.update s.calls c ⟨.seeding p, peek, true⟩ }

/-- `run` returns: the subscription and the receiver are dropped. -/
def leave (consumer : Option ℕ) : State :=
  let fb := match consumer with
    | some k => (sess.frameBuf.removeConsumer k).dropReceiver k
    | none => sess.frameBuf
  ((s.setSession p { sess with frameBuf := fb }).setPhase c (.leaving p)).log (.left c p)

/-- `run` up to its subscription: a failed write or a missing seed ends it. -/
def seed (ok : Bool) : State :=
  if ok = false ∨ sess.frameBuf.latestIdr.isNone then leave s c p sess none
  else
    let (fb, consumer) := sess.frameBuf.subscribe
    (s.setSession p { sess with frameBuf := fb }).setPhase c (.streaming p consumer)

/-- The loop of `run` takes a unit and writes it, or fails to; SPS and PPS are not written. -/
def receive (consumer : Option ℕ) (ok : Bool) : Option State :=
  consumer.bind fun k ↦
    (sess.frameBuf.recv k).map fun (n, fb) ↦
      let sess := { sess with frameBuf := fb }
      if ok ∨ n.nalType = NAL_TYPE_SPS ∨ n.nalType = NAL_TYPE_PPS then s.setSession p sess
      else leave s c p sess consumer

/-- The channel of a consumer is disconnected; one that came after the close never was connected. -/
def hungUp (consumer : Option ℕ) : Bool :=
  match consumer with
  | some k => sess.frameBuf.disconnected k
  | none => true

/-- The FIN watcher sees the end of the connection. -/
def finClose : State :=
  { s.setSession p { sess with frameBuf := sess.frameBuf.close } with
    calls := Function.update s.calls c { s.calls c with watcher := false } }.log (.finClosed c p)

/-- One round of the refresh loop, which ends when the session is gone. -/
def refreshLoop (cfg : Config) : State :=
  let (s, found) := refreshTtl cfg s sess.id
  { s with calls := Function.update s.calls c { s.calls c with refresher := found } }

/-- The handler joins its threads and calls `stop_by_id`. -/
def joinThreads : State :=
  { s with calls := Function.update s.calls c ⟨.calling (.stopById sess.id), false, false⟩ }

end Handler

/-- The session that a stream handler with its threads running is about. -/
def Phase.streamed : Phase → Option ℕ
  | .seeding p => some p
  | .streaming p _ => some p
  | .leaving p => some p
  | _ => none

/-! ### Steps -/

/-- The moves of all threads. -/
inductive Label
  | elapse (duration : ℕ)
  | call (c : ℕ) (op : Op)
  | enter (c : ℕ)
  | bindUdp (c : ℕ) (ok : Bool)
  | startPreview (c : ℕ) (ok : Bool)
  | drawNumbers (c : ℕ) (uuid : Option Str) (ssrc : Option UInt32) (p : ℕ)
  | rollback (c : ℕ)
  | commit (c : ℕ)
  | teardown (c : ℕ)
  /-- `shutdown` takes the clean-up handles. -/
  | reconcile (c : ℕ)
  /-- `shutdown` has joined them, or its time is up. -/
  | drained (c : ℕ)
  /-- The packet hook of the RTP receiver. -/
  | packet (p : ℕ)
  | push (p : ℕ) (n : NalUnit)
  | send (p : ℕ)
  | look (p : ℕ)
  | tick (p : ℕ)
  /-- The monitor spawns the clean-up it has decided on, which is the call `c`. -/
  | spawnCleanup (p c : ℕ)
  | registerCleanup (p : ℕ)
  | guardReinvite (p : ℕ)
  | reinvite (p : ℕ)
  | waitIdr (c : ℕ)
  | checkReady (c : ℕ)
  | beginStream (c : ℕ) (peek : Bool)
  | seed (c : ℕ) (ok : Bool)
  | receive (c : ℕ) (ok : Bool)
  /-- The flush of an idle stream fails. -/
  | flushFails (c : ℕ)
  | hangUp (c : ℕ)
  | finClose (c : ℕ)
  | refreshLoop (c : ℕ)
  | joinThreads (c : ℕ)

/-- The moves of a call, by where it is. -/
def stepCall (cfg : Config) (s : State) (c : ℕ) (l : Label) : Option State :=
  match (s.calls c).phase, l with
  | .idle, .call _ op => if op.public then some (s.setPhase c (.calling op)) else none
  | .calling op, .enter _ => if s.holder = none then some (enter cfg s c op) else none
  | .starting outdoor .binding, .bindUdp _ ok => some (bindUdp s c outdoor ok)
  | .starting outdoor .previewing, .startPreview _ ok => some (startPreview s c outdoor ok)
  | .starting outdoor .drawing, .drawNumbers _ uuid ssrc p =>
    if s.sessions p = none then some (drawNumbers cfg s c outdoor uuid ssrc p) else none
  | .starting outdoor (.rollingBack missing), .rollback _ =>
    some (startFails (s.log (.rollbackPreview c outdoor)) c missing.error)
  | .starting _ (.spawned p), .commit _ => (s.sessions p).map (commit cfg s c p)
  | .tearing p reason deadline phase, .teardown _ =>
    (s.sessions p).map fun sess ↦ teardown s c p sess reason deadline phase
  | .reconciling overall, .reconcile _ =>
    some { s.setPhase c (.draining overall s.cleanups) with cleanups := [] }
  | .draining overall handles, .drained _ =>
    if (∀ k ∈ handles, (s.calls k).finished = true) ∨ overall ≤ s.now then some (s.reply c .done)
    else none
  | .waitingIdr p deadline, .waitIdr _ =>
    (s.sessions p).bind fun sess ↦ waitIdr s c p sess deadline
  | .checking p, .checkReady _ => (s.sessions p).map (checkReady s c p)
  | .ready p, .beginStream _ peek =>
    if s.holder = none then
      (s.sessions p).map fun sess ↦ beginStream s c p sess cfg peek
    else none
  | .seeding p, .seed _ ok => (s.sessions p).map fun sess ↦ seed s c p sess ok
  | .streaming p consumer, .receive _ ok =>
    (s.sessions p).bind fun sess ↦ receive s c p sess consumer ok
  | .streaming p consumer, .flushFails _ =>
    (s.sessions p).map fun sess ↦ leave s c p sess consumer
  | .streaming p consumer, .hangUp _ =>
    (s.sessions p).bind fun sess ↦
      if hungUp sess consumer then some (leave s c p sess consumer) else none
  | .leaving p, .joinThreads _ => (s.sessions p).map (joinThreads s c)
  | _, _ => none

/-- The moves of the threads of a stream handler. -/
def stepHelper (cfg : Config) (s : State) (c : ℕ) (l : Label) : Option State :=
  (s.calls c).phase.streamed.bind fun p ↦ (s.sessions p).bind fun sess ↦
    match l with
    | .finClose _ => if (s.calls c).watcher then some (finClose s c p sess) else none
    | .refreshLoop _ =>
      if (s.calls c).refresher ∧ s.holder = none then some (refreshLoop s c sess cfg) else none
    | _ => none

/-- The moves of the threads of a session. -/
def stepSession (cfg : Config) (s : State) (p : ℕ) (sess : Session) (l : Label) : Option State :=
  match sess.monitor.phase, l with
  | _, .packet _ =>
    some (s.setSession p { sess with
      lastRtpAt := s.now
      rtpPackets := sess.rtpPackets + 1 })
  | _, .push _ n =>
    if sess.frameBuf.sending = none then
      some (s.setSession p { sess with frameBuf := sess.frameBuf.push n })
    else none
  | _, .send _ => (sess.frameBuf.send).map fun fb ↦ s.setSession p { sess with frameBuf := fb }
  | _, .look _ => (look s sess).map (s.setSession p)
  | .ticking now, .tick _ => some (tick cfg s p sess now)
  | .spawning reason, .spawnCleanup _ c =>
    if (s.calls c).phase = .idle then some (spawnCleanup s p sess c reason) else none
  | .registering c, .registerCleanup _ => some (registerCleanup s p sess c)
  | .guarding now, .guardReinvite _ =>
    if s.holder = none then some (s.setSession p (guardReinvite s p sess now)) else none
  | .inviting, .reinvite _ => some (reinvite s p sess)
  | _, _ => none

/-- The call, the handler's threads or the session whose move a label is. -/
inductive Mover
  | clock (duration : ℕ)
  | call (c : ℕ)
  | helper (c : ℕ)
  | session (p : ℕ)

def Label.mover : Label → Mover
  | .elapse d => .clock d
  | .call c _ | .enter c | .bindUdp c _ | .startPreview c _ | .drawNumbers c _ _ _ | .rollback c
  | .commit c | .teardown c | .reconcile c | .drained c | .waitIdr c | .checkReady c
  | .beginStream c _ | .seed c _ | .receive c _ | .flushFails c | .hangUp c | .joinThreads c =>
    .call c
  | .finClose c | .refreshLoop c => .helper c
  | .packet p | .push p _ | .send p | .look p | .tick p | .spawnCleanup p _ | .registerCleanup p
  | .guardReinvite p | .reinvite p =>
    .session p

/-- One move of one thread, `none` when it is not enabled. -/
def step (cfg : Config) (s : State) (l : Label) : Option State :=
  match l.mover with
  | .clock d => some { s with now := s.now + d }
  | .call c => stepCall cfg s c l
  | .helper c => stepHelper cfg s c l
  | .session p => (s.sessions p).bind fun sess ↦ stepSession cfg s p sess l

end Manager

end DoorAccess.Video
