import DoorAccess.Codec
import Mathlib.Data.List.Basic

/-!
# The retry loop of the unlock handshake

`unlock.rs` runs the handshake 710, 711, 518, 519 through injected seams: the wire (`try_once`),
the back-off (`Sleeper`), the total cap (`Deadline`) and the cancel flag. `Env` holds the four
seams as one machine over an arbitrary state, so that every answer may depend on everything asked
before it; a theorem for every `Env` covers every sequence of answers. `runUnlockWithRetry` is the
loop of the source, returning besides its result the list of the questions asked with their
answers; putting these questions to the seams again leads to the state that the run returns
(`runUnlockWithRetry_replay`).

`Shape` says once what the loop can do: one constructor for each of its exits and one for an
attempt followed by another. `runUnlockWithRetry_shape` puts every run in it, and the facts about
runs are inductions over `Shape` that never unfold the loop again.
-/

set_option autoImplicit false
set_option relaxedAutoImplicit false

namespace DoorAccess.Unlock

open Codec

/-- `UNLOCK_MAX_RETRIES`: retries after the first attempt. -/
def UNLOCK_MAX_RETRIES : ℕ := 8

/-- `UNLOCK_RETRY_INTERVAL`, in milliseconds. -/
def UNLOCK_RETRY_INTERVAL : ℕ := 1000

/-- `UNLOCK_TOTAL_CAP`, in milliseconds. -/
def UNLOCK_TOTAL_CAP : ℕ := 10000

/-- `SELF_UNLOCK_PROBE_TIMEOUT`, in milliseconds. -/
def SELF_UNLOCK_PROBE_TIMEOUT : ℕ := 800

/-- `SELF_UNLOCK_PROBE_INTERVAL`, in milliseconds. -/
def SELF_UNLOCK_PROBE_INTERVAL : ℕ := 200

/-- The handshake stage: 710/711 or 518/519. -/
inductive UnlockStage
  | unlockA
  | unlockB
  deriving DecidableEq, Repr

/-- The classes of wire failures. -/
inductive WireKind
  | silentFin
  | timeout
  | retryable
  | other
  deriving DecidableEq, Repr

def WireKind.isRetryable : WireKind → Bool
  | .silentFin | .timeout | .retryable => true
  | .other => false

/-- The outcome of one `try_once`. -/
inductive AttemptOutcome
  | ok
  | businessErr (stage : UnlockStage)
  | wireErr (stage : UnlockStage) (err : WireKind)
  deriving DecidableEq, Repr

inductive SleepWake
  | elapsed
  | canceled
  | bye
  deriving DecidableEq, Repr

/-- The arguments of an unlock that the loop hands through to the seams. -/
structure UnlockArgs where
  callerBcd : Octets
  calleeBcd : Octets
  targetIp : Str
  targetPort : UInt16
  /-- `Some` on the ring path, `None` on the HTTP path; milliseconds. -/
  perAttemptTimeout : Option ℕ
  /-- The back-off between attempts, in milliseconds. -/
  retryInterval : ℕ

/-- The injected seams: the deadline, the cancel flag, the wire and the sleeper, over a common
state. `sleep` is told whether there is a bye channel to watch. -/
structure Env (σ : Type*) where
  expired : σ → Bool × σ
  cancelLoad : σ → Bool × σ
  tryOnce : UnlockArgs → σ → AttemptOutcome × σ
  sleep : ℕ → Bool → σ → SleepWake × σ

/-- One question put to a seam, with its answer. -/
inductive Event
  /-- `deadline.expired()` at the head of the loop. -/
  | headExpired (answer : Bool)
  /-- `cancel.load()` at the head of the loop. -/
  | headCancel (answer : Bool)
  | tryOnce (outcome : AttemptOutcome)
  /-- `deadline.expired()` in the computation of `attempt_expired`. -/
  | attemptExpired (answer : Bool)
  | sleep (wake : SleepWake)
  deriving DecidableEq, Repr

/-- The tuple `(result_code, retries, terminated_by_bye, last_wire_kind)`. -/
structure RetryResult where
  resultCode : ℤ
  retries : ℕ
  terminatedByBye : Bool
  lastWireKind : Option WireKind
  deriving DecidableEq, Repr

section Loop

variable {σ : Type*}

/-- `attempt_expired`: the ring path counts a timed-out attempt as retryable while the total cap
has not been reached. The deadline is read only when the first two conjuncts hold. -/
def attemptExpired (env : Env σ) (args : UnlockArgs) (err : WireKind) (s : σ) :
    Bool × List Event × σ :=
  if args.perAttemptTimeout.isSome && err == .timeout then
    let (expired, s) := env.expired s
    (!expired, [.attemptExpired expired], s)
  else (false, [], s)

/-- The events of one pass through the loop up to the answer of `try_once`. -/
def called (outcome : AttemptOutcome) : List Event :=
  [.headExpired false, .headCancel false, .tryOnce outcome]

/-- The `for attempt in 0..=UNLOCK_MAX_RETRIES` loop with `left` passes to go. -/
def retryLoop (env : Env σ) (args : UnlockArgs) (bye : Bool) :
    (left attempt : ℕ) → Option WireKind → σ → List Event × RetryResult × σ
  | 0, _, _, s => ([], ⟨NO_RING, UNLOCK_MAX_RETRIES, false, none⟩, s)
  | left + 1, attempt, lastWireKind, s =>
    match env.expired s with
    | (true, s) => ([.headExpired true], ⟨NO_RING, attempt, false, lastWireKind⟩, s)
    | (false, s) =>
    match env.cancelLoad s with
    | (true, s) =>
      ([.headExpired false, .headCancel true], ⟨NO_RING, attempt, false, lastWireKind⟩, s)
    | (false, s) =>
    match env.tryOnce args s with
    | (.ok, s) => (called .ok, ⟨OK, attempt, false, none⟩, s)
    | (.businessErr stage, s) =>
      (called (.businessErr stage), ⟨ERR, attempt, false, none⟩, s)
    | (.wireErr stage err, s) =>
      let (attemptExpired, probe, s) := attemptExpired env args err s
      let events := called (.wireErr stage err) ++ probe
      -- An unlock-B failure is never retried: 710 has been acknowledged.
      if stage = .unlockB then (events, ⟨NO_RING, attempt, false, some err⟩, s)
      else if !err.isRetryable && !attemptExpired then
        (events, ⟨NO_RING, attempt, false, some err⟩, s)
      else if attempt < UNLOCK_MAX_RETRIES then
        match env.sleep args.retryInterval bye s with
        | (.bye, s) =>
          (events ++ [.sleep .bye], ⟨NO_RING, attempt + 1, true, some err⟩, s)
        | (.canceled, s) =>
          (events ++ [.sleep .canceled], ⟨NO_RING, attempt + 1, false, some err⟩, s)
        | (.elapsed, s) =>
          let (rest, result, s) := retryLoop env args bye left (attempt + 1) (some err) s
          (events ++ .sleep .elapsed :: rest, result, s)
      else (events, ⟨NO_RING, attempt, false, some err⟩, s)

/-- `run_unlock_with_retry`, with the events of the run. -/
def runUnlockWithRetry (env : Env σ) (args : UnlockArgs) (bye : Bool) (s : σ) :
    List Event × RetryResult × σ :=
  retryLoop env args bye (UNLOCK_MAX_RETRIES + 1) 0 none s

end Loop

/-! ### Replaying a run -/

section Replay

variable {σ : Type*} (env : Env σ) (args : UnlockArgs) (bye : Bool)

/-- The question of an event put to the seams: the state behind it, if the answer is that of the
event. -/
def Event.replay (s : σ) : Event → Option σ
  | .headExpired answer => if (env.expired s).1 = answer then some (env.expired s).2 else none
  | .headCancel answer => if (env.cancelLoad s).1 = answer then some (env.cancelLoad s).2 else none
  | .tryOnce outcome =>
    if (env.tryOnce args s).1 = outcome then some (env.tryOnce args s).2 else none
  | .attemptExpired answer => if (env.expired s).1 = answer then some (env.expired s).2 else none
  | .sleep wake =>
    if (env.sleep args.retryInterval bye s).1 = wake then
      some (env.sleep args.retryInterval bye s).2
    else none

/-- The questions of a list put to the seams in their order. -/
def replay : List Event → σ → Option σ
  | [], s => some s
  | event :: events, s => (event.replay env args bye s).bind (replay events)

variable {env args bye}

theorem replay_append (first second : List Event) (s : σ) :
    replay env args bye (first ++ second) s =
      (replay env args bye first s).bind (replay env args bye second) := by
  induction first generalizing s with
  | nil => rfl
  | cons event first ih =>
    rw [List.cons_append, replay, replay, Option.bind_assoc]
    exact congrArg _ (funext ih)

theorem replay_called {s s₁ s₂ s₃ : σ} {outcome : AttemptOutcome}
    (hexpired : env.expired s = (false, s₁)) (hcancel : env.cancelLoad s₁ = (false, s₂))
    (hcall : env.tryOnce args s₂ = (outcome, s₃)) :
    replay env args bye (called outcome) s = some s₃ := by
  simp only [called, replay, Event.replay, hexpired, hcancel, hcall, if_true, Option.bind_some]

theorem replay_attemptExpired (err : WireKind) (s : σ) :
    replay env args bye (attemptExpired env args err s).2.1 s =
      some (attemptExpired env args err s).2.2 := by
  unfold attemptExpired
  split_ifs
  · simp only [replay, Event.replay, if_true, Option.bind_some]
  · rfl

theorem replay_sleep {s s₁ : σ} {wake : SleepWake}
    (hsleep : env.sleep args.retryInterval bye s = (wake, s₁)) (events : List Event) :
    replay env args bye (.sleep wake :: events) s = replay env args bye events s₁ := by
  simp only [replay, Event.replay, hsleep, if_true, Option.bind_some]

/-- The events of a run are the questions that it put to the seams, in their order and with their
answers, and it leaves the state in which they leave it. The induction is on the passes to go. -/
theorem retryLoop_replay (left attempt : ℕ) (last : Option WireKind) (s : σ) :
    replay env args bye (retryLoop env args bye left attempt last s).1 s =
      some (retryLoop env args bye left attempt last s).2.2 := by
  induction left generalizing attempt last s with
  | zero => rfl
  | succ left ih =>
    unfold retryLoop
    split
    · rename_i s₁ hexpired
      simp only [replay, Event.replay, hexpired, if_true, Option.bind_some]
    · rename_i s₁ hexpired
      split
      · rename_i s₂ hcancel
        simp only [replay, Event.replay, hexpired, hcancel, if_true, Option.bind_some]
      · rename_i s₂ hcancel
        split
        · rename_i s₃ hcall
          exact replay_called hexpired hcancel hcall
        · rename_i stage s₃ hcall
          exact replay_called hexpired hcancel hcall
        · rename_i stage err s₃ hcall
          have hcalled : replay env args bye (called (.wireErr stage err)) s = some s₃ :=
            replay_called hexpired hcancel hcall
          have hprobe : replay env args bye (attemptExpired env args err s₃).2.1 s₃ =
              some (attemptExpired env args err s₃).2.2 := replay_attemptExpired err s₃
          generalize attemptExpired env args err s₃ = probed at hprobe
          obtain ⟨expired, probe, s₄⟩ := probed
          have hfront : replay env args bye (called (.wireErr stage err) ++ probe) s = some s₄ := by
            rw [replay_append, hcalled]
            exact hprobe
          dsimp only
          split_ifs
          · exact hfront
          · exact hfront
          · split
            · rename_i s₅ hsleep
              rw [replay_append, hfront, Option.bind_some, replay_sleep hsleep, replay]
            · rename_i s₅ hsleep
              rw [replay_append, hfront, Option.bind_some, replay_sleep hsleep, replay]
            · rename_i s₅ hsleep
              rw [replay_append, hfront, Option.bind_some, replay_sleep hsleep]
              exact ih _ _ _
          · exact hfront

theorem runUnlockWithRetry_replay (s : σ) :
    replay env args bye (runUnlockWithRetry env args bye s).1 s =
      some (runUnlockWithRetry env args bye s).2.2 :=
  retryLoop_replay _ _ _ s

/-- What every seam preserves, a run preserves. -/
theorem replay_relation {R : σ → σ → Prop} (hrefl : ∀ s, R s s)
    (htrans : ∀ {s t u}, R s t → R t u → R s u) (hexpired : ∀ s, R s (env.expired s).2)
    (hcancel : ∀ s, R s (env.cancelLoad s).2) (hcall : ∀ s, R s (env.tryOnce args s).2)
    (hsleep : ∀ s, R s (env.sleep args.retryInterval bye s).2) {events : List Event} {s t : σ}
    (hrun : replay env args bye events s = some t) : R s t := by
  induction events generalizing s with
  | nil =>
    obtain rfl := Option.some.inj hrun
    exact hrefl s
  | cons event events ih =>
    obtain ⟨u, hevent, hrest⟩ := Option.bind_eq_some_iff.mp hrun
    refine htrans ?_ (ih hrest)
    cases event with
    | headExpired answer | attemptExpired answer =>
      obtain ⟨-, heq⟩ := Option.ite_none_right_eq_some.mp hevent
      obtain rfl := Option.some.inj heq
      exact hexpired s
    | headCancel answer =>
      obtain ⟨-, heq⟩ := Option.ite_none_right_eq_some.mp hevent
      obtain rfl := Option.some.inj heq
      exact hcancel s
    | tryOnce outcome =>
      obtain ⟨-, heq⟩ := Option.ite_none_right_eq_some.mp hevent
      obtain rfl := Option.some.inj heq
      exact hcall s
    | sleep wake =>
      obtain ⟨-, heq⟩ := Option.ite_none_right_eq_some.mp hevent
      obtain rfl := Option.some.inj heq
      exact hsleep s

end Replay

/-! ### What a run can look like -/

/-- The deadline question between an attempt and what follows it: asked once or not at all. -/
inductive Probe : List Event → Prop
  | skipped : Probe []
  | asked (answer : Bool) : Probe [.attemptExpired answer]

/-- The runs of the loop from pass `attempt` on, with the wire kind carried into it: the events
and the result. -/
inductive Shape : ℕ → Option WireKind → List Event → RetryResult → Prop
  | expired (attempt : ℕ) (last : Option WireKind) :
    Shape attempt last [.headExpired true] ⟨NO_RING, attempt, false, last⟩
  | canceled (attempt : ℕ) (last : Option WireKind) :
    Shape attempt last [.headExpired false, .headCancel true] ⟨NO_RING, attempt, false, last⟩
  | ok (attempt : ℕ) (last : Option WireKind) :
    Shape attempt last (called .ok) ⟨OK, attempt, false, none⟩
  | business (attempt : ℕ) (last : Option WireKind) (stage : UnlockStage) :
    Shape attempt last (called (.businessErr stage)) ⟨ERR, attempt, false, none⟩
  | failed (attempt : ℕ) (last : Option WireKind) (stage : UnlockStage) (err : WireKind)
      {probe : List Event} (hprobe : Probe probe)
      (hstop : stage = .unlockB ∨ err.isRetryable = false ∨ UNLOCK_MAX_RETRIES ≤ attempt) :
    Shape attempt last (called (.wireErr stage err) ++ probe)
      ⟨NO_RING, attempt, false, some err⟩
  | woken (attempt : ℕ) (last : Option WireKind) (err : WireKind) {probe : List Event}
      {wake : SleepWake} (hprobe : Probe probe) (hretry : err.isRetryable = true)
      (hattempt : attempt < UNLOCK_MAX_RETRIES) (hwake : wake ≠ .elapsed) :
    Shape attempt last (called (.wireErr .unlockA err) ++ probe ++ [.sleep wake])
      ⟨NO_RING, attempt + 1, wake == .bye, some err⟩
  | again (attempt : ℕ) (last : Option WireKind) (err : WireKind) {probe rest : List Event}
      {result : RetryResult} (hprobe : Probe probe) (hretry : err.isRetryable = true)
      (hattempt : attempt < UNLOCK_MAX_RETRIES)
      (hrest : Shape (attempt + 1) (some err) rest result) :
    Shape attempt last (called (.wireErr .unlockA err) ++ probe ++ .sleep .elapsed :: rest) result

section ShapeOfLoop

variable {σ : Type*}

theorem attemptExpired_probe (env : Env σ) (args : UnlockArgs) (err : WireKind) (s : σ) :
    Probe (attemptExpired env args err s).2.1 := by
  unfold attemptExpired
  split_ifs
  · exact .asked _
  · exact .skipped

/-- Only a timeout can count as an expired attempt, and a timeout is retryable anyway: the second
guard of the loop never keeps a non-retryable failure going. -/
theorem isRetryable_of_attemptExpired {env : Env σ} {args : UnlockArgs} {err : WireKind} {s : σ}
    (h : (attemptExpired env args err s).1 = true) : err.isRetryable = true := by
  unfold attemptExpired at h
  split_ifs at h with hring
  rw [Bool.and_eq_true, beq_iff_eq] at hring
  rw [hring.2]
  rfl

/-- Every run of the loop has one of the shapes. The induction is on the number of passes to go,
with `left + attempt` staying at `UNLOCK_MAX_RETRIES + 1`. -/
theorem retryLoop_shape (env : Env σ) (args : UnlockArgs) (bye : Bool) (left attempt : ℕ)
    (last : Option WireKind) (s : σ) (hleft : left + attempt = UNLOCK_MAX_RETRIES + 1)
    (hattempt : attempt ≤ UNLOCK_MAX_RETRIES) :
    Shape attempt last (retryLoop env args bye left attempt last s).1
      (retryLoop env args bye left attempt last s).2.1 := by
  induction left generalizing attempt last s with
  | zero => omega
  | succ left ih =>
    unfold retryLoop
    split
    · exact .expired _ _
    · split
      · exact .canceled _ _
      · split
        · exact .ok _ _
        · exact .business _ _ _
        · rename_i stage err s' _
          have hprobe := attemptExpired_probe env args err s'
          have hexpired : (attemptExpired env args err s').1 = true → err.isRetryable = true :=
            isRetryable_of_attemptExpired
          generalize attemptExpired env args err s' = probed at hprobe hexpired
          obtain ⟨expired, probe, s''⟩ := probed
          dsimp only
          split_ifs with hstage hstop hquota
          · exact .failed _ _ _ _ hprobe (Or.inl hstage)
          · rw [Bool.and_eq_true, Bool.not_eq_true', Bool.not_eq_true'] at hstop
            exact .failed _ _ _ _ hprobe (Or.inr (Or.inl hstop.1))
          · have hretry : err.isRetryable = true := by
              cases hkind : err.isRetryable with
              | true => rfl
              | false =>
                rw [hkind] at hstop
                rw [← hkind]
                exact hexpired (by simpa using hstop)
            have hunlockA : stage = .unlockA := by
              cases stage with
              | unlockA => rfl
              | unlockB => exact absurd rfl hstage
            subst hunlockA
            split
            · exact .woken _ _ _ hprobe hretry hquota (by decide)
            · exact .woken _ _ _ hprobe hretry hquota (by decide)
            · exact .again _ _ _ hprobe hretry hquota (ih _ _ _ (by omega) (by omega))
          · exact .failed _ _ _ _ hprobe (Or.inr (Or.inr (Nat.le_of_not_lt hquota)))

theorem runUnlockWithRetry_shape (env : Env σ) (args : UnlockArgs) (bye : Bool) (s : σ) :
    Shape 0 none (runUnlockWithRetry env args bye s).1 (runUnlockWithRetry env args bye s).2.1 :=
  retryLoop_shape env args bye (UNLOCK_MAX_RETRIES + 1) 0 none s rfl (Nat.zero_le _)

end ShapeOfLoop

/-! ### Facts about runs -/

def Event.outcome? : Event → Option AttemptOutcome
  | .tryOnce outcome => some outcome
  | _ => none

/-- The outcomes of the `try_once` calls of a run, in order. -/
def calls (events : List Event) : List AttemptOutcome :=
  events.filterMap Event.outcome?

/-- The run ended with the outcome of a call: nothing but the deadline was asked after it. -/
def endsWithCall (events : List Event) : Bool :=
  match events.getLast? with
  | some (.tryOnce _) | some (.attemptExpired _) => true
  | _ => false

/-- The run ended in a Bye or Canceled wake, or at the check at the head of the loop. -/
def endsInterrupted (events : List Event) : Bool :=
  match events.getLast? with
  | some (.sleep .bye) | some (.sleep .canceled) | some (.headExpired true)
  | some (.headCancel true) => true
  | _ => false

@[simp] theorem calls_append (first second : List Event) :
    calls (first ++ second) = calls first ++ calls second :=
  List.filterMap_append

@[simp] theorem calls_called (outcome : AttemptOutcome) : calls (called outcome) = [outcome] :=
  rfl

@[simp] theorem calls_sleep_cons (wake : SleepWake) (rest : List Event) :
    calls (.sleep wake :: rest) = calls rest :=
  rfl

@[simp] theorem calls_nil : calls [] = [] :=
  rfl

@[simp] theorem calls_tryOnce_cons (outcome : AttemptOutcome) (rest : List Event) :
    calls (.tryOnce outcome :: rest) = outcome :: calls rest :=
  rfl

/-- A list without calls cannot contain one. -/
theorem calls_split_ne_nil (before after : List Event) (outcome : AttemptOutcome) :
    calls (before ++ .tryOnce outcome :: after) ≠ [] := by
  rw [calls_append, calls_tryOnce_cons]
  exact List.append_ne_nil_of_right_ne_nil _ (List.cons_ne_nil _ _)

theorem Probe.calls_eq_nil {probe : List Event} (hprobe : Probe probe) : calls probe = [] := by
  cases hprobe with
  | skipped => rfl
  | asked => rfl

theorem Probe.calls_called_append {probe : List Event} (hprobe : Probe probe)
    (outcome : AttemptOutcome) (rest : List Event) :
    calls (called outcome ++ probe ++ rest) = outcome :: calls rest := by
  rw [calls_append, calls_append, calls_called, hprobe.calls_eq_nil, List.append_nil,
    List.singleton_append]

section Facts

variable {attempt : ℕ} {last : Option WireKind} {events : List Event} {result : RetryResult}

theorem Shape.ne_nil (h : Shape attempt last events result) : events ≠ [] := by
  cases h <;> simp [called]

/-- The pass at which an event list ends is the pass at which its continuation ends. -/
theorem getLast?_append_cons_of_ne_nil {first rest : List Event} {event : Event}
    (hrest : rest ≠ []) : (first ++ event :: rest).getLast? = rest.getLast? := by
  rw [List.getLast?_append_of_ne_nil _ (List.cons_ne_nil _ _)]
  obtain ⟨head, tail, rfl⟩ := List.exists_cons_of_ne_nil hrest
  rw [List.getLast?_cons_cons]

theorem Shape.calls_length_le (h : Shape attempt last events result)
    (hattempt : attempt ≤ UNLOCK_MAX_RETRIES) :
    (calls events).length + attempt ≤ UNLOCK_MAX_RETRIES + 1 := by
  induction h with
  | expired attempt | canceled attempt =>
    show 0 + attempt ≤ _
    omega
  | ok attempt | business attempt =>
    rw [calls_called, List.length_singleton]
    omega
  | failed attempt _ _ _ hprobe =>
    rw [calls_append, calls_called, hprobe.calls_eq_nil, List.append_nil, List.length_singleton]
    omega
  | woken attempt _ _ hprobe =>
    rw [hprobe.calls_called_append, calls_sleep_cons, calls_nil, List.length_singleton]
    omega
  | again attempt _ _ hprobe _ hquota _ ih =>
    have hrest := ih hquota
    rw [hprobe.calls_called_append, calls_sleep_cons, List.length_cons]
    omega

/-- The returned number of retries counts the calls made, less one when the run ended with the
outcome of a call. -/
theorem Shape.retries_eq (h : Shape attempt last events result) :
    (endsWithCall events = true ∧ result.retries + 1 = attempt + (calls events).length) ∨
      (endsInterrupted events = true ∧ result.retries = attempt + (calls events).length) := by
  induction h with
  | expired | canceled => exact Or.inr ⟨rfl, rfl⟩
  | ok | business => exact Or.inl ⟨rfl, rfl⟩
  | failed _ _ _ _ hprobe => cases hprobe <;> exact Or.inl ⟨rfl, rfl⟩
  | @woken attempt _ _ _ wake hprobe _ _ hwake =>
    refine Or.inr ⟨?_, ?_⟩
    · cases hprobe <;> cases wake <;> first | rfl | exact absurd rfl hwake
    · rw [hprobe.calls_called_append]
      rfl
  | again attempt _ _ hprobe _ _ hrest ih =>
    rw [hprobe.calls_called_append, calls_sleep_cons, List.length_cons]
    unfold endsWithCall endsInterrupted at ih ⊢
    rw [getLast?_append_cons_of_ne_nil hrest.ne_nil]
    rcases ih with ⟨hend, hretries⟩ | ⟨hend, hretries⟩
    · exact Or.inl ⟨hend, by omega⟩
    · exact Or.inr ⟨hend, by omega⟩

/-- The code is `OK` exactly when the last call succeeded. -/
theorem Shape.resultCode_eq_OK_iff (h : Shape attempt last events result) :
    result.resultCode = OK ↔ (calls events).getLast? = some .ok := by
  induction h with
  | expired | canceled => exact iff_of_false (show NO_RING ≠ OK by decide) (by decide)
  | ok => simp
  | business => simp [OK, ERR]
  | failed _ _ _ _ hprobe => simp [hprobe.calls_eq_nil, OK, NO_RING]
  | woken _ _ _ hprobe => simp [hprobe.calls_eq_nil, OK, NO_RING]
  | again _ _ err hprobe _ _ _ ih =>
    rw [ih, hprobe.calls_called_append, calls_sleep_cons, List.getLast?_cons]
    cases (calls _).getLast? with
    | none => simp
    | some outcome => simp

/-- The run was terminated by a bye exactly when its last event is a Bye wake. -/
theorem Shape.terminatedByBye_iff (h : Shape attempt last events result) :
    result.terminatedByBye = true ↔ events.getLast? = some (.sleep .bye) := by
  induction h with
  | expired | canceled | ok | business => simp [called]
  | failed _ _ _ _ hprobe => cases hprobe <;> simp [called]
  | woken => simp
  | again _ _ _ _ _ _ hrest ih => rw [ih, getLast?_append_cons_of_ne_nil hrest.ne_nil]

/-! ### Where a call stands in a run -/

/-- A call found behind a stretch without calls stands in what follows the stretch. -/
theorem eq_append_of_calls_eq_nil {front rest before after : List Event}
    {outcome : AttemptOutcome} (hfront : calls front = [])
    (heq : front ++ rest = before ++ .tryOnce outcome :: after) :
    ∃ middle, before = front ++ middle ∧ rest = middle ++ .tryOnce outcome :: after := by
  rcases List.append_eq_append_iff.mp heq with ⟨middle, hbefore, hrest⟩ | ⟨middle, hsplit, hrest⟩
  · exact ⟨middle, hbefore, hrest⟩
  · cases middle with
    | nil =>
      rw [List.append_nil] at hsplit
      exact ⟨[], by rw [List.append_nil, hsplit], hrest.symm⟩
    | cons head tail =>
      rw [List.cons_append, List.cons.injEq] at hrest
      rw [hsplit, ← hrest.1] at hfront
      exact absurd hfront (calls_split_ne_nil _ _ _)

/-- A call found in a pass is the call of that pass or stands behind it. -/
theorem called_append_split {first outcome : AttemptOutcome} {rest before after : List Event}
    (heq : called first ++ rest = before ++ .tryOnce outcome :: after) :
    (before = [.headExpired false, .headCancel false] ∧ outcome = first ∧ after = rest) ∨
      ∃ middle, before = called first ++ middle ∧ rest = middle ++ .tryOnce outcome :: after := by
  match before, heq with
  | [], heq => simp [called] at heq
  | [_], heq => simp [called] at heq
  | [_, _], heq =>
    simp only [called, List.cons_append, List.nil_append, List.cons.injEq, Event.tryOnce.injEq]
      at heq
    obtain ⟨rfl, rfl, rfl, rfl⟩ := heq
    exact Or.inl ⟨rfl, rfl, rfl⟩
  | _ :: _ :: _ :: middle, heq =>
    simp only [called, List.cons_append, List.nil_append, List.cons.injEq] at heq
    obtain ⟨rfl, rfl, rfl, hrest⟩ := heq
    exact Or.inr ⟨middle, rfl, hrest⟩

/-- What stands around a call: the two negative answers of the loop head before it, and after it
either no further call, or a completed back-off, which only a retryable unlock-A failure gets. -/
def CallContext (before : List Event) (outcome : AttemptOutcome) (after : List Event) : Prop :=
  (∃ earlier, before = earlier ++ [.headExpired false, .headCancel false]) ∧
    (calls after = [] ∨
      ∃ err probe rest, outcome = .wireErr .unlockA err ∧ err.isRetryable = true ∧ Probe probe ∧
        after = probe ++ .sleep .elapsed :: rest)

theorem callContext_of_last {first outcome : AttemptOutcome} {rest before after : List Event}
    (hrest : calls rest = []) (heq : called first ++ rest = before ++ .tryOnce outcome :: after) :
    CallContext before outcome after := by
  rcases called_append_split heq with ⟨rfl, rfl, rfl⟩ | ⟨middle, rfl, rfl⟩
  · exact ⟨⟨[], rfl⟩, Or.inl hrest⟩
  · exact absurd hrest (calls_split_ne_nil _ _ _)

theorem Shape.callContext (h : Shape attempt last events result) {before after : List Event}
    {outcome : AttemptOutcome} (heq : events = before ++ .tryOnce outcome :: after) :
    CallContext before outcome after := by
  induction h generalizing before with
  | expired | canceled =>
    exact absurd (congrArg calls heq).symm (calls_split_ne_nil _ _ _)
  | ok | business => exact callContext_of_last calls_nil (by rw [List.append_nil]; exact heq)
  | failed _ _ _ _ hprobe => exact callContext_of_last hprobe.calls_eq_nil heq
  | woken _ _ _ hprobe =>
    rw [List.append_assoc] at heq
    exact callContext_of_last (by rw [calls_append, hprobe.calls_eq_nil]; rfl) heq
  | again _ _ err hprobe hretry _ _ ih =>
    rw [List.append_assoc] at heq
    rcases called_append_split heq with ⟨rfl, rfl, rfl⟩ | ⟨middle, rfl, htail⟩
    · exact ⟨⟨[], rfl⟩, Or.inr ⟨err, _, _, rfl, hretry, hprobe, rfl⟩⟩
    · rw [List.append_cons] at htail
      obtain ⟨inner, rfl, hrest⟩ := eq_append_of_calls_eq_nil
        (by rw [calls_append, hprobe.calls_eq_nil]; rfl) htail
      obtain ⟨⟨earlier, rfl⟩, hafter⟩ := ih hrest
      exact ⟨⟨_, by rw [← List.append_assoc, ← List.append_assoc]⟩, hafter⟩

end Facts

/-- Every run of the retry loop, for every behaviour of the wire, the sleeper, the deadline and the
cancel flag. At most `UNLOCK_MAX_RETRIES + 1` calls of `try_once` are made. A call followed by
another one failed in stage unlock-A with a retryable kind and was followed by a back-off slept to
its end; after a success, a business error or any unlock-B failure no further call is made; and
right before every call the loop head read the deadline as not expired and the cancel flag as not
set. The code is zero exactly when the last call succeeded, `terminated_by_bye` exactly when the
last event is a Bye wake, and `retries` is the number of calls, less one when the run ended with
the outcome of a call. -/
theorem runUnlockWithRetry_runs {σ : Type*} (env : Env σ) (args : UnlockArgs) (bye : Bool)
    (s : σ) :
    let events := (runUnlockWithRetry env args bye s).1
    let result := (runUnlockWithRetry env args bye s).2.1
    (calls events).length ≤ UNLOCK_MAX_RETRIES + 1 ∧
    (∀ before outcome after, events = before ++ .tryOnce outcome :: after →
      (calls after ≠ [] →
        (∃ err, outcome = .wireErr .unlockA err ∧ err.isRetryable = true) ∧
          ∃ probe rest, Probe probe ∧ after = probe ++ .sleep .elapsed :: rest) ∧
      (outcome = .ok ∨ (∃ stage, outcome = .businessErr stage) ∨
        (∃ err, outcome = .wireErr .unlockB err) → calls after = []) ∧
      ∃ earlier, before = earlier ++ [.headExpired false, .headCancel false]) ∧
    (result.resultCode = 0 ↔ (calls events).getLast? = some .ok) ∧
    (result.terminatedByBye = true ↔ events.getLast? = some (.sleep .bye)) ∧
    ((endsWithCall events = true ∧ result.retries + 1 = (calls events).length) ∨
      (endsInterrupted events = true ∧ result.retries = (calls events).length)) := by
  intro events result
  have hshape := runUnlockWithRetry_shape env args bye s
  have hbound := hshape.calls_length_le (Nat.zero_le _)
  have hretries := hshape.retries_eq
  rw [Nat.zero_add] at hretries
  refine ⟨hbound, ?_, hshape.resultCode_eq_OK_iff, hshape.terminatedByBye_iff, hretries⟩
  intro before outcome after heq
  obtain ⟨hhead, hafter⟩ := hshape.callContext heq
  refine ⟨fun hmore ↦ ?_, fun hfinal ↦ ?_, hhead⟩
  · rcases hafter with hnone | ⟨err, probe, rest, hout, hretry, hprobe, hsplit⟩
    · exact absurd hnone hmore
    · exact ⟨⟨err, hout, hretry⟩, probe, rest, hprobe, hsplit⟩
  · rcases hafter with hnone | ⟨err, probe, rest, hout, -, -, -⟩
    · exact hnone
    · subst hout
      simp at hfinal

/-! ### A cancel flag that stays set -/

/-- The cancel flag is a part of the state that the loop loads and that nothing takes back. -/
structure Flagged {σ : Type*} (env : Env σ) (flag : σ → Bool) : Prop where
  load : ∀ s, (env.cancelLoad s).1 = flag s
  expired : ∀ s, flag s = true → flag (env.expired s).2 = true
  cancelLoad : ∀ s, flag s = true → flag (env.cancelLoad s).2 = true
  tryOnce : ∀ args s, flag s = true → flag (env.tryOnce args s).2 = true
  sleep : ∀ dur bye s, flag s = true → flag (env.sleep dur bye s).2 = true

section Flag

variable {σ : Type*} {env : Env σ} {flag : σ → Bool} {args : UnlockArgs} {bye : Bool} {s t : σ}
  {events : List Event}

theorem Flagged.replay (h : Flagged env flag) (hrun : replay env args bye events s = some t)
    (hset : flag s = true) : flag t = true :=
  replay_relation (R := fun s t ↦ flag s = true → flag t = true) (fun _ ↦ id)
    (fun hst htu hs ↦ htu (hst hs)) h.expired h.cancelLoad (h.tryOnce args)
    (h.sleep args.retryInterval bye) hrun hset

/-- Behind the flag no look at it finds it down. -/
theorem Flagged.not_mem (h : Flagged env flag)
    (hrun : Unlock.replay env args bye events s = some t) (hset : flag s = true) :
    .headCancel false ∉ events := by
  intro hmem
  obtain ⟨front, rest, rfl⟩ := List.append_of_mem hmem
  rw [replay_append] at hrun
  obtain ⟨u, hfront, hrest⟩ := Option.bind_eq_some_iff.mp hrun
  obtain ⟨v, hlook, -⟩ := Option.bind_eq_some_iff.mp hrest
  obtain ⟨hanswer, -⟩ := Option.ite_none_right_eq_some.mp hlook
  rw [h.load, h.replay hfront hset] at hanswer
  cases hanswer

theorem exists_first_call (h : calls events ≠ []) : ∃ before outcome after,
    events = before ++ .tryOnce outcome :: after ∧ calls before = [] := by
  induction events with
  | nil => exact absurd rfl h
  | cons event events ih =>
    cases hevent : event with
    | tryOnce outcome => exact ⟨[], outcome, events, rfl, rfl⟩
    | headExpired | headCancel | attemptExpired | sleep =>
      rw [hevent] at h
      obtain ⟨before, outcome, after, rfl, hbefore⟩ := ih h
      exact ⟨_ :: before, outcome, after, rfl, hbefore⟩

/-- A run in which the flag is set at some time makes one more call at most from there on, and none
if it is set from the start. -/
theorem calls_behind_flag (h : Flagged env flag) {before after : List Event}
    (hsplit : (runUnlockWithRetry env args bye s).1 = before ++ after)
    (hbefore : replay env args bye before s = some t) (hset : flag t = true) :
    (calls after).length ≤ 1 ∧ (before = [] → calls after = []) := by
  have hrun := @runUnlockWithRetry_replay _ env args bye s
  rw [hsplit, replay_append, hbefore, Option.bind_some] at hrun
  have hnot := h.not_mem hrun hset
  have hshape := runUnlockWithRetry_shape env args bye s
  refine ⟨?_, ?_⟩
  · by_contra hmore
    have hne : calls after ≠ [] := by
      intro hnil
      rw [hnil] at hmore
      exact hmore (Nat.zero_le _)
    obtain ⟨front, first, rest, rfl, hfront⟩ := exists_first_call hne
    have hrest : calls rest ≠ [] := by
      intro hnil
      rw [calls_append, hfront, calls_tryOnce_cons, hnil] at hmore
      exact hmore (Nat.le_refl _)
    obtain ⟨between, second, last, rfl, -⟩ := exists_first_call hrest
    -- The look at the flag for the second call is behind the first one.
    have heq : (runUnlockWithRetry env args bye s).1 =
        ((before ++ front) ++ .tryOnce first :: between) ++ .tryOnce second :: last := by
      rw [hsplit]
      simp only [List.append_assoc, List.cons_append]
    obtain ⟨⟨earlier, hearlier⟩, -⟩ := hshape.callContext heq
    have hlast := congrArg List.getLast? hearlier
    rw [List.getLast?_append_of_ne_nil _ (List.cons_ne_nil _ _),
      List.getLast?_append_of_ne_nil _ (List.cons_ne_nil _ _)] at hlast
    have hmem : .headCancel false ∈ .tryOnce first :: between := List.mem_of_getLast? hlast
    refine hnot (List.mem_append_right _ ?_)
    rw [← List.cons_append]
    exact List.mem_append_left _ hmem
  · rintro rfl
    by_contra hne
    obtain ⟨front, first, rest, rfl, -⟩ := exists_first_call hne
    obtain ⟨⟨earlier, hearlier⟩, -⟩ := hshape.callContext hsplit
    refine hnot (List.mem_append_left _ ?_)
    rw [hearlier]
    simp

end Flag

/-! ### A door station and an indoor unit -/

/-- The number of a door station. -/
def stationBcd : Octets := #v[0x06, 0x02, 0x11, 0x03]

/-- The address of that door station. -/
def stationIp : Octets := #v[172, 16, 106, 91]

/-- The number of the indoor unit that it calls. -/
def indoorBcd : Octets := #v[0x06, 0x02, 0x00, 0x01]

end DoorAccess.Unlock
