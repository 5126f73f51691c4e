import DoorAccess.Unlock.Execute

/-!
# The HTTP answer to `/unlock`

The end of `handle_unlock`: the `UnlockOutcome` of the worker becomes an HTTP status, a result code
in the response body and at most one push to Home Assistant. `control.rs` classifies the wire kind
a second time here (`classifyWireKind`), and a missing wire kind is classified as `OK`.

`respondUnlockOutcome_zero` is what that means for the result code zero: with status 200 it is
always a successful last handshake, and the only other way to it is a run stopped before its first
attempt, which answers 503 and pushes zero.
-/

set_option autoImplicit false
set_option relaxedAutoImplicit false

namespace DoorAccess.Control

open Codec Unlock

def STATUS_OK : ℕ := 200

def STATUS_SERVICE_UNAVAILABLE : ℕ := 503

/-- One field of a push: the key with its value. -/
inductive PushField
  | result (code : ℤ)
  | from (uri : Str)
  | to (uri : Str)
  deriving DecidableEq

/-- What a handler leaves behind: the status, the `result` member of the JSON body, and the pushes
given to the injected `Pusher`, each with its event name. -/
structure Reply where
  status : ℕ
  result : ℤ
  pushes : List (String × List PushField)
  deriving DecidableEq

/-- `classify_wire_kind`. -/
def classifyWireKind : Option WireKind → ℤ
  | some .silentFin => NO_RING
  | some .timeout => TIMEOUT
  | none => OK
  | some .retryable | some .other => ERR

/-- `push_business_fields` through `maybe_push_inner`: the result, then the addresses that are not
empty. Without a pusher nothing is pushed. -/
def pushBusinessFields (pusher : Bool) (event : String) (resultCode : ℤ) (from_ to_ : Str) :
    List (String × List PushField) :=
  let fields := match from_.isEmpty, to_.isEmpty with
    | false, false => [.result resultCode, .from from_, .to to_]
    | false, true => [.result resultCode, .from from_]
    | true, false => [.result resultCode, .to to_]
    | true, true => [.result resultCode]
  if pusher then [(event, fields)] else []

/-- `respond_business_result`. -/
def respondBusinessResult (pusher : Bool) (event : String) (resultCode : ℤ) (from_ to_ : Str) :
    Reply :=
  ⟨STATUS_OK, resultCode,
    if resultCode ≠ OK then pushBusinessFields pusher event resultCode from_ to_ else []⟩

/-- `respond_wire_failure`. -/
def respondWireFailure (pusher : Bool) (event : String) (wireKind : Option WireKind)
    (from_ to_ : Str) : Reply :=
  let resultCode := classifyWireKind wireKind
  if resultCode = NO_RING then respondBusinessResult pusher event resultCode from_ to_
  else ⟨STATUS_SERVICE_UNAVAILABLE, resultCode,
    pushBusinessFields pusher event resultCode from_ to_⟩

/-- `respond_unlock_outcome`. -/
def respondUnlockOutcome (pusher : Bool) (event : String) (outcome : UnlockOutcome)
    (from_ to_ : Str) : Reply :=
  if outcome.result = OK then respondBusinessResult pusher event OK from_ to_
  else if outcome.result = ERR ∧ outcome.wireKind.isNone then
    respondBusinessResult pusher event ERR from_ to_
  else if outcome.terminatedByBye then
    respondWireFailure pusher event (some .silentFin) from_ to_
  else respondWireFailure pusher event outcome.wireKind from_ to_

/-- Every push of a business result carries exactly its code. -/
theorem mem_pushBusinessFields {pusher : Bool} {event : String} {resultCode code : ℤ}
    {from_ to_ : Str} {push : String × List PushField}
    (hpush : push ∈ pushBusinessFields pusher event resultCode from_ to_)
    (hcode : .result code ∈ push.2) : code = resultCode := by
  unfold pushBusinessFields at hpush
  split_ifs at hpush with hpusher
  · rw [List.mem_singleton] at hpush
    subst hpush
    cases hfrom : from_.isEmpty <;> cases hto : to_.isEmpty <;>
      simpa [hfrom, hto] using hcode
  · exact absurd hpush List.not_mem_nil

/-- The code of the response, with every push carrying the same code. -/
def Reply.Carries (reply : Reply) (resultCode : ℤ) : Prop :=
  reply.result = resultCode ∧
    ∀ push ∈ reply.pushes, ∀ code, .result code ∈ push.2 → code = resultCode

theorem respondBusinessResult_carries (pusher : Bool) (event : String) (resultCode : ℤ)
    (from_ to_ : Str) :
    (respondBusinessResult pusher event resultCode from_ to_).Carries resultCode := by
  refine ⟨rfl, fun push hpush code hcode ↦ ?_⟩
  unfold respondBusinessResult at hpush
  dsimp only at hpush
  split_ifs at hpush with hOK
  · exact mem_pushBusinessFields hpush hcode
  · exact absurd hpush List.not_mem_nil

theorem respondWireFailure_carries (pusher : Bool) (event : String) (wireKind : Option WireKind)
    (from_ to_ : Str) :
    (respondWireFailure pusher event wireKind from_ to_).Carries (classifyWireKind wireKind) := by
  unfold respondWireFailure
  dsimp only
  split_ifs
  · exact respondBusinessResult_carries _ _ _ _ _
  · exact ⟨rfl, fun push hpush code hcode ↦ mem_pushBusinessFields hpush hcode⟩

theorem classifyWireKind_eq_OK_iff {wireKind : Option WireKind} :
    classifyWireKind wireKind = OK ↔ wireKind = none := by
  cases wireKind with
  | none => exact iff_of_true rfl rfl
  | some kind => cases kind <;> decide

/-- The branches of `respond_unlock_outcome` by the code they answer with: success without a push,
a code other than zero, or a failure that is no business error and has no wire kind. -/
theorem respondUnlockOutcome_branches (pusher : Bool) (event : String) (outcome : UnlockOutcome)
    (from_ to_ : Str) :
    (outcome.result = OK ∧ (respondUnlockOutcome pusher event outcome from_ to_).pushes = []) ∨
      (∃ code, code ≠ 0 ∧
        (respondUnlockOutcome pusher event outcome from_ to_).Carries code) ∨
      (outcome.result ≠ OK ∧ outcome.result ≠ ERR ∧ outcome.wireKind = none) := by
  unfold respondUnlockOutcome
  split_ifs with hOK hERR hbye
  · exact Or.inl ⟨hOK, rfl⟩
  · exact Or.inr (Or.inl ⟨ERR, by decide, respondBusinessResult_carries _ _ _ _ _⟩)
  · exact Or.inr (Or.inl ⟨_, by decide, respondWireFailure_carries _ _ _ _ _⟩)
  · by_cases hkind : outcome.wireKind = none
    · refine Or.inr (Or.inr ⟨hOK, fun h ↦ hERR ⟨h, ?_⟩, hkind⟩)
      rw [hkind]
      rfl
    · exact Or.inr (Or.inl ⟨_, fun h ↦ hkind (classifyWireKind_eq_OK_iff.mp h),
        respondWireFailure_carries _ _ _ _ _⟩)

/-! ### The result code zero -/

section Zero

variable {σ : Type*}

theorem classifyWireErr_ne_OK (kind : WireKind) : classifyWireErr kind ≠ OK := by
  cases kind <;> decide

theorem classify_result_eq_OK {env : Env σ} {r : RetryResult} {s : σ}
    (h : (classify env r s).2.1.result = OK) : r.resultCode = OK := by
  unfold classify at h
  split_ifs at h with hfinal hbye
  · exact h
  · exact absurd h (show NO_RING ≠ OK by decide)
  · cases hkind : r.lastWireKind with
    | some kind =>
      rw [hkind] at h
      exact absurd h (classifyWireErr_ne_OK _)
    | none =>
      rw [hkind] at h
      exact absurd h (show NO_RING ≠ OK by decide)

/-- An outcome without a wire kind that is neither success nor business error comes from a result
of the retry loop of the same sort. -/
theorem classify_wireKind_eq_none {env : Env σ} {r : RetryResult} {s : σ}
    (hOK : (classify env r s).2.1.result ≠ OK) (hERR : (classify env r s).2.1.result ≠ ERR)
    (hkind : (classify env r s).2.1.wireKind = none) :
    r.lastWireKind = none ∧ r.resultCode ≠ OK ∧ r.resultCode ≠ ERR := by
  unfold classify at hOK hERR hkind
  split_ifs at hOK hERR hkind with hfinal hbye
  · exact absurd hfinal (not_or.mpr ⟨hOK, hERR⟩)
  · exact ⟨hkind, not_or.mp hfinal⟩
  · refine ⟨?_, not_or.mp hfinal⟩
    cases hlast : r.lastWireKind with
    | some kind =>
      rw [hlast] at hkind
      exact absurd hkind (Option.some_ne_none _)
    | none => rfl

/-- The answer that stands for zero. Assumes: a run of the retry loop with its classification. -/
theorem respondUnlockOutcome_eq_of_calls_eq_nil {env : Env σ} {args : UnlockArgs} {bye : Bool}
    {s t : σ} (hcalls : calls (runUnlockWithRetry env args bye s).1 = []) (pusher : Bool)
    (event : String) (from_ to_ : Str) :
    respondUnlockOutcome pusher event
        (classify env (runUnlockWithRetry env args bye s).2.1 t).2.1 from_ to_ =
      ⟨STATUS_SERVICE_UNAVAILABLE, OK, pushBusinessFields pusher event OK from_ to_⟩ := by
  rw [(runUnlockWithRetry_shape env args bye s).result_of_calls_eq_nil hcalls]
  rfl

/-- The amended contract of the result code zero, for every wire, sleeper, deadline, cancel and bye
behaviour. A response with status 200 carries zero only if the last `try_once` succeeded. A zero
without that success, in the response or in a push, is the answer of a run that made no call at
all, and every run without a call gives it: status 503, result zero, and zero in the push. -/
theorem respondUnlockOutcome_zero (env : Env σ) (listener : Option (Subscribable σ))
    (args : UnlockArgs) (s : σ) (pusher : Bool) (event : String) (from_ to_ : Str) :
    let execution := (executeUnlock env listener args s).1
    let reply := respondUnlockOutcome pusher event execution.outcome from_ to_
    (reply.status = STATUS_OK → reply.result = 0 →
      (calls execution.events).getLast? = some .ok) ∧
    (reply.result = 0 →
      (calls execution.events).getLast? = some .ok ∨ calls execution.events = []) ∧
    (∀ push ∈ reply.pushes, .result 0 ∈ push.2 → calls execution.events = []) ∧
    (calls execution.events = [] →
      reply = ⟨STATUS_SERVICE_UNAVAILABLE, 0, pushBusinessFields pusher event 0 from_ to_⟩) := by
  intro execution reply
  obtain ⟨bye, s₁, hrun⟩ := executeUnlock_outcome env listener args s
  have hevents : execution.events = (runUnlockWithRetry env args bye s₁).1 :=
    congrArg Execution.events hrun
  have houtcome : execution.outcome = (classify env (runUnlockWithRetry env args bye s₁).2.1
      (runUnlockWithRetry env args bye s₁).2.2).2.1 := congrArg Execution.outcome hrun
  have hshape := runUnlockWithRetry_shape env args bye s₁
  rw [← hevents] at hshape
  have hlast : execution.outcome.result = OK → (calls execution.events).getLast? = some .ok := by
    intro hOK
    rw [houtcome] at hOK
    exact hshape.resultCode_eq_OK_iff.mp (classify_result_eq_OK hOK)
  have hnone : execution.outcome.result ≠ OK → execution.outcome.result ≠ ERR →
      execution.outcome.wireKind = none → calls execution.events = [] := by
    intro hOK hERR hkind
    rw [houtcome] at hOK hERR hkind
    obtain ⟨hlastKind, hcode⟩ := classify_wireKind_eq_none hOK hERR hkind
    exact (hshape.calls_eq_nil_of_kind_none hlastKind hcode.1 hcode.2).2
  have hempty : calls execution.events = [] →
      reply = ⟨STATUS_SERVICE_UNAVAILABLE, 0, pushBusinessFields pusher event 0 from_ to_⟩ := by
    intro hcalls
    show respondUnlockOutcome pusher event execution.outcome from_ to_ = _
    rw [houtcome]
    exact respondUnlockOutcome_eq_of_calls_eq_nil (hevents ▸ hcalls) _ _ _ _
  have hbranches : (execution.outcome.result = OK ∧ reply.pushes = []) ∨
      (∃ code, code ≠ 0 ∧ reply.Carries code) ∨ calls execution.events = [] := by
    rcases respondUnlockOutcome_branches pusher event execution.outcome from_ to_ with
      hOK | hcode | ⟨hOK, hERR, hkind⟩
    · exact Or.inl hOK
    · exact Or.inr (Or.inl hcode)
    · exact Or.inr (Or.inr (hnone hOK hERR hkind))
  refine ⟨fun hstatus hzero ↦ ?_, fun hzero ↦ ?_, fun push hpush hzero ↦ ?_, hempty⟩
  · rcases hbranches with ⟨hOK, -⟩ | ⟨code, hcode, hcarries⟩ | hcalls
    · exact hlast hOK
    · exact absurd (hcarries.1.symm.trans hzero) hcode
    · rw [hempty hcalls] at hstatus
      exact absurd hstatus (show STATUS_SERVICE_UNAVAILABLE ≠ STATUS_OK by decide)
  · rcases hbranches with ⟨hOK, -⟩ | ⟨code, hcode, hcarries⟩ | hcalls
    · exact Or.inl (hlast hOK)
    · exact absurd (hcarries.1.symm.trans hzero) hcode
    · exact Or.inr hcalls
  · rcases hbranches with ⟨-, hpushes⟩ | ⟨code, hcode, hcarries⟩ | hcalls
    · rw [hpushes] at hpush
      exact absurd hpush List.not_mem_nil
    · exact absurd (hcarries.2 push hpush 0 hzero).symm hcode
    · exact hcalls

end Zero

/-- A cancel flag that is set before the first attempt, as for a job taken after the shutdown
signal, with seams that would otherwise succeed. -/
def canceledEnv : Env Unit where
  expired := fun s ↦ (false, s)
  cancelLoad := fun s ↦ (true, s)
  tryOnce := fun _ s ↦ (.ok, s)
  sleep := fun _ _ s ↦ (.elapsed, s)

/-- The arguments of a manual unlock of one door station. -/
def manualArgs : UnlockArgs where
  callerBcd := stationBcd
  calleeBcd := indoorBcd
  targetIp := ipv4Str stationIp
  targetPort := 18022
  perAttemptTimeout := none
  retryInterval := UNLOCK_RETRY_INTERVAL

/-- A run cancelled before its first attempt makes no call, and zero is both answered and
pushed. -/
theorem respondUnlockOutcome_canceled_zero :
    let from_ := ascii "06020001@172.16.106.152:18022"
    let to_ := ascii "06021103@172.16.106.91:18022"
    let execution := (executeUnlock canceledEnv none manualArgs ()).1
    let reply := respondUnlockOutcome true "unlock" execution.outcome from_ to_
    (calls execution.events).getLast? ≠ some .ok ∧ reply.result = 0 ∧
      reply.pushes = [("unlock", [.result 0, .from from_, .to to_])] := by
  decide

end DoorAccess.Control
