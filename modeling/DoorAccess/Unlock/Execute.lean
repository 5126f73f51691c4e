import DoorAccess.Listen18022
import DoorAccess.Unlock.Retry

/-!
# The unlock core

`execute_unlock` subscribes to the bye frames of the target, runs the retry loop, turns its result
into an `UnlockOutcome` and cancels the subscription. The serialising mutex it holds throughout has
no effect on a single execution and is not modelled.

`executeUnlock_outcome` reduces an execution to one run of the retry loop and its classification.
The classification keeps success apart from everything else, and an outcome that carries no wire
kind and is neither success nor business error comes only from a run stopped before its first
attempt (`Shape.calls_eq_nil_of_kind_none`).
-/

set_option autoImplicit false
set_option relaxedAutoImplicit false

namespace DoorAccess.Unlock

open Codec Listen18022

/-- `classify_wire_err`. -/
def classifyWireErr : WireKind → ℤ
  | .silentFin => NO_RING
  | .timeout => TIMEOUT
  | .retryable | .other => ERR

/-- `UnlockOutcome`. -/
structure UnlockOutcome where
  result : ℤ
  retries : ℕ
  terminatedByBye : Bool
  wireKind : Option WireKind
  deriving DecidableEq, Repr

/-- `trait Subscribable` with the cancel handle of the subscription it returns. -/
structure Subscribable (σ : Type*) where
  subscribe : SubFilter → σ → ℕ × σ
  cancel : ℕ → σ → σ

/-- An execution of `execute_unlock`: the events of its retry loop, the answer of the deadline in
the classification when it was asked, and the outcome. -/
structure Execution where
  events : List Event
  capExpired : Option Bool
  outcome : UnlockOutcome

section Execute

variable {σ : Type*}

/-- The classification that `execute_unlock` applies to the result of the retry loop. The deadline
is read only for a failure that carries a wire kind and was not ended by a bye. -/
def classify (env : Env σ) (r : RetryResult) (s : σ) : Option Bool × UnlockOutcome × σ :=
  if r.resultCode = OK ∨ r.resultCode = ERR then
    (none, ⟨r.resultCode, r.retries, r.terminatedByBye, r.lastWireKind⟩, s)
  else if r.terminatedByBye then
    (none, ⟨NO_RING, r.retries, r.terminatedByBye, r.lastWireKind⟩, s)
  else match r.lastWireKind with
    | some kind =>
      let (expired, s) := env.expired s
      let kind := if expired && !kind.isRetryable then .timeout else kind
      (some expired, ⟨classifyWireErr kind, r.retries, r.terminatedByBye, some kind⟩, s)
    | none => (none, ⟨NO_RING, r.retries, r.terminatedByBye, none⟩, s)

/-- `execute_unlock`. The subscription is cancelled explicitly and once more when it is dropped. -/
def executeUnlock (env : Env σ) (listener : Option (Subscribable σ)) (args : UnlockArgs) (s : σ) :
    Execution × σ :=
  let filter := filterReq708ForTarget (parseIpv4 args.targetIp)
  let (sub, s) := match listener with
    | some l => let (id, s) := l.subscribe filter s; (some (l, id), s)
    | none => (none, s)
  let (events, result, s) := runUnlockWithRetry env args sub.isSome s
  let (capExpired, outcome, s) := classify env result s
  let s := match sub with
    | some (l, id) => l.cancel id (l.cancel id s)
    | none => s
  (⟨events, capExpired, outcome⟩, s)

/-- An execution is one run of the retry loop and its classification. -/
theorem executeUnlock_outcome (env : Env σ) (listener : Option (Subscribable σ))
    (args : UnlockArgs) (s : σ) :
    ∃ bye s₁, (executeUnlock env listener args s).1 =
      ⟨(runUnlockWithRetry env args bye s₁).1,
        (classify env (runUnlockWithRetry env args bye s₁).2.1
          (runUnlockWithRetry env args bye s₁).2.2).1,
        (classify env (runUnlockWithRetry env args bye s₁).2.1
          (runUnlockWithRetry env args bye s₁).2.2).2.1⟩ := by
  cases listener with
  | none =>
    refine ⟨false, s, ?_⟩
    simp only [executeUnlock, Option.isSome_none]
  | some l =>
    refine ⟨true, (l.subscribe (filterReq708ForTarget (parseIpv4 args.targetIp)) s).2, ?_⟩
    simp only [executeUnlock, Option.isSome_some]

end Execute

section Facts

variable {attempt : ℕ} {last : Option WireKind} {events : List Event} {result : RetryResult}

/-- A result that is neither success nor business error and carries no wire kind comes from a run
without any call. -/
theorem Shape.calls_eq_nil_of_kind_none (h : Shape attempt last events result)
    (hkind : result.lastWireKind = none) (hOK : result.resultCode ≠ OK)
    (hERR : result.resultCode ≠ ERR) : last = none ∧ calls events = [] := by
  induction h with
  | expired | canceled => exact ⟨hkind, rfl⟩
  | ok => exact absurd rfl hOK
  | business => exact absurd rfl hERR
  | failed | woken => exact absurd hkind (Option.some_ne_none _)
  | again _ _ _ _ _ _ _ ih => exact absurd (ih hkind hOK hERR).1 (Option.some_ne_none _)

/-- A run without any call was stopped at the first loop head. -/
theorem Shape.result_of_calls_eq_nil (h : Shape attempt last events result)
    (hcalls : calls events = []) : result = ⟨NO_RING, attempt, false, last⟩ := by
  cases h with
  | expired | canceled => rfl
  | ok | business => exact absurd hcalls (List.cons_ne_nil _ _)
  | failed =>
    rw [calls_append] at hcalls
    exact absurd hcalls (by simp)
  | woken _ _ _ hprobe | again _ _ _ hprobe =>
    rw [hprobe.calls_called_append] at hcalls
    exact absurd hcalls (List.cons_ne_nil _ _)

end Facts

end DoorAccess.Unlock
