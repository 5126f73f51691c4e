import DoorAccess.Lib.Transition
import DoorAccess.Unlock.Execute
import DoorAccess.Wire18022
import Mathlib.Logic.Function.Basic

/-!
# The wire worker and its callers

One worker thread takes jobs from an unbounded queue (`daemon.rs`, `run_worker`). The HTTP threads
and the ring consumer put in unlock jobs and wait for the reply, the hang-up timers put in hang-ups
and the shutdown sequence a sentinel behind which nothing is executed. The model is a step function
over the queue, the worker, the reply channels and the calls; the steps of all threads are labels,
so a list of labels is an interleaving. The channels are those of `std::sync::mpsc`: sending fails
once the receiver is dropped, and dropping the receiver drops what is still queued together with
the reply senders inside.

`Effect` says once what a step can do, and every step has one of the effects (`step_effect`).
-/

set_option autoImplicit false
set_option relaxedAutoImplicit false

namespace DoorAccess.Daemon

open Codec Unlock Wire18022

/-! ### Jobs -/

/-- `UnlockJob`; `reply` is the number of the call that waits for it. -/
structure UnlockJob where
  callerBcd : Octets
  calleeBcd : Octets
  targetIp : Str
  targetPort : UInt16
  reply : ℕ
  perAttemptTimeout : Option ℕ
  retryInterval : ℕ
  deriving DecidableEq

/-- `HangupJob`. -/
structure HangupJob where
  outdoorBcd : Octets
  monitorBcd : Octets
  outdoorIp : Str
  outdoorPort : UInt16
  deriving DecidableEq

inductive Job
  | unlock (job : UnlockJob)
  | hangup (job : HangupJob)
  | shutdown
  deriving DecidableEq

/-- What a submitter asks to be opened. -/
structure UnlockRequest where
  callerBcd : Octets
  calleeBcd : Octets
  targetIp : Str
  targetPort : UInt16
  deriving DecidableEq

/-- The job of `WorkerUnlockDispatch::dispatch`: no cap on an attempt, back-off of one second. -/
def dispatchJob (call : ℕ) (r : UnlockRequest) : UnlockJob where
  callerBcd := r.callerBcd
  calleeBcd := r.calleeBcd
  targetIp := r.targetIp
  targetPort := r.targetPort
  reply := call
  perAttemptTimeout := none
  retryInterval := UNLOCK_RETRY_INTERVAL

/-- The job of `execute_unlock_from_ring`: fail-fast probes. -/
def ringJob (call : ℕ) (r : UnlockRequest) : UnlockJob where
  callerBcd := r.callerBcd
  calleeBcd := r.calleeBcd
  targetIp := r.targetIp
  targetPort := r.targetPort
  reply := call
  perAttemptTimeout := some SELF_UNLOCK_PROBE_TIMEOUT
  retryInterval := SELF_UNLOCK_PROBE_INTERVAL

/-- The unlock jobs of a list of jobs. -/
def unlocks (jobs : List Job) : List UnlockJob :=
  jobs.filterMap fun
    | .unlock job => some job
    | _ => none

/-- `worker_unavailable_outcome`. -/
def workerUnavailableOutcome : UnlockOutcome where
  result := ERR
  retries := 0
  terminatedByBye := false
  wireKind := some .other

/-! ### The worker -/

/-- `WorkerDeps`, with the deadline that the worker arms for each unlock job. -/
structure WorkerDeps (σ : Type*) where
  env : Env σ
  newDeadline : (cap : ℕ) → σ → σ
  listener : Option (Subscribable σ)
  hangupWire : Option (Str → UInt16 → (frame : List UInt8) → σ → σ)

section Worker

variable {σ : Type*}

/-- `execute_unlock_job` under a fresh deadline of `UNLOCK_TOTAL_CAP`. -/
def executeUnlockJob (deps : WorkerDeps σ) (job : UnlockJob) (world : σ) : UnlockOutcome × σ :=
  let args : UnlockArgs :=
    ⟨job.callerBcd, job.calleeBcd, job.targetIp, job.targetPort, job.perAttemptTimeout,
      job.retryInterval⟩
  let (execution, world) :=
    executeUnlock deps.env deps.listener args (deps.newDeadline UNLOCK_TOTAL_CAP world)
  (execution.outcome, world)

/-- The `Job::Hangup` arm of the worker: a preview stop to the door station, or only a log line
when no wire is injected. -/
def executeHangupJob (deps : WorkerDeps σ) (job : HangupJob) (world : σ) : σ :=
  match deps.hangupWire with
  | some send => send job.outdoorIp job.outdoorPort
      (buildStopFrame job.outdoorBcd job.monitorBcd) world
  | none => world

/-- Where the worker thread is. -/
inductive WorkerPhase
  /-- In `recv` at the head of its loop. -/
  | receiving
  | unlocking (job : UnlockJob)
  | hangingUp (job : HangupJob)
  /-- The loop has been left; the receiver is dropped by a later step. -/
  | exited
  deriving DecidableEq

/-- The reply channel of one call. -/
structure ReplyChannel where
  slot : Option UnlockOutcome
  senderDropped : Bool
  deriving DecidableEq

inductive CallPhase
  | idle
  | waiting
  | returned (outcome : UnlockOutcome)
  deriving DecidableEq

structure State (σ : Type*) where
  world : σ
  queue : List Job
  receiverAlive : Bool
  /-- The number of live senders of the queue. -/
  senders : ℕ
  worker : WorkerPhase
  replies : ℕ → ReplyChannel
  calls : ℕ → CallPhase
  /-- All jobs that entered the queue, in order. -/
  entered : List Job
  /-- All jobs that the worker took, in order. -/
  taken : List Job
  /-- The unlock jobs executed so far, in order, with their outcomes. -/
  executed : List (UnlockJob × UnlockOutcome)

def State.init (world : σ) (senders : ℕ) : State σ where
  world := world
  queue := []
  receiverAlive := true
  senders := senders
  worker := .receiving
  replies := fun _ ↦ ⟨none, false⟩
  calls := fun _ ↦ .idle
  entered := []
  taken := []
  executed := []

/-- The moves of all threads. -/
inductive Label
  /-- An HTTP thread calls `dispatch`: send and start waiting. -/
  | dispatch (call : ℕ) (request : UnlockRequest)
  /-- The ring consumer calls `execute_unlock_from_ring`. -/
  | ring (call : ℕ) (request : UnlockRequest)
  | submitHangup (job : HangupJob)
  | submitShutdown
  | cloneSender
  | dropSender
  | workerRecv
  /-- `recv` fails: the queue is empty and all senders are gone. -/
  | workerDisconnected
  | workerFinish
  | dropReceiver
  /-- `reply_rx.recv()` of a waiting call returns. -/
  | callReturn (call : ℕ)
  deriving DecidableEq

/-- `submit_job`: `none` is the send error. -/
def submitJob (s : State σ) (job : Job) : Option (State σ) :=
  if s.receiverAlive then
    some { s with queue := s.queue ++ [job], entered := s.entered ++ [job] }
  else none

/-- The common body of `dispatch` and `execute_unlock_from_ring` up to the wait. A failed send
gives the job back and drops it with its reply sender. -/
def submitUnlock (s : State σ) (job : UnlockJob) : State σ :=
  match submitJob s (.unlock job) with
  | some s => { s with calls := Function.update s.calls job.reply .waiting }
  | none =>
    { s with
      calls := Function.update s.calls job.reply (.returned workerUnavailableOutcome)
      replies := Function.update s.replies job.reply ⟨none, true⟩ }

/-- The arm of the worker's `match` that a job selects. -/
def WorkerPhase.start : Job → WorkerPhase
  | .unlock job => .unlocking job
  | .hangup job => .hangingUp job
  | .shutdown => .exited

/-- What `reply_rx.recv()` gives, `none` while it blocks. -/
def ReplyChannel.recv (channel : ReplyChannel) : Option UnlockOutcome :=
  match channel.slot, channel.senderDropped with
  | some outcome, _ => some outcome
  | none, true => some workerUnavailableOutcome
  | none, false => none

/-- The reply channels after the jobs in the queue have been dropped. -/
def dropQueued (queue : List Job) (replies : ℕ → ReplyChannel) : ℕ → ReplyChannel :=
  fun call ↦ if call ∈ (unlocks queue).map UnlockJob.reply
    then { replies call with senderDropped := true } else replies call

/-- One move of one thread, `none` when it is not enabled. -/
def step (deps : WorkerDeps σ) (s : State σ) : Label → Option (State σ)
  | .dispatch call request =>
    if s.calls call = .idle ∧ 0 < s.senders then some (submitUnlock s (dispatchJob call request))
    else none
  | .ring call request =>
    if s.calls call = .idle ∧ 0 < s.senders then some (submitUnlock s (ringJob call request))
    else none
  | .submitHangup job =>
    if 0 < s.senders then some ((submitJob s (.hangup job)).getD s) else none
  | .submitShutdown =>
    if 0 < s.senders then some ((submitJob s .shutdown).getD s) else none
  | .cloneSender =>
    if 0 < s.senders then some { s with senders := s.senders + 1 } else none
  | .dropSender =>
    if 0 < s.senders then some { s with senders := s.senders - 1 } else none
  | .workerRecv =>
    match s.worker, s.queue with
    | .receiving, job :: rest =>
      some { s with queue := rest, taken := s.taken ++ [job], worker := .start job }
    | _, _ => none
  | .workerDisconnected =>
    if s.worker = .receiving ∧ s.queue = [] ∧ s.senders = 0 then some { s with worker := .exited }
    else none
  | .workerFinish =>
    match s.worker with
    | .unlocking job =>
      let (outcome, world) := executeUnlockJob deps job s.world
      some { s with
        world := world
        worker := .receiving
        replies := Function.update s.replies job.reply ⟨some outcome, true⟩
        executed := s.executed ++ [(job, outcome)] }
    | .hangingUp job =>
      some { s with world := executeHangupJob deps job s.world, worker := .receiving }
    | _ => none
  | .dropReceiver =>
    if s.worker = .exited ∧ s.receiverAlive then
      some { s with
        receiverAlive := false
        queue := []
        replies := dropQueued s.queue s.replies }
    else none
  | .callReturn call =>
    match s.calls call, (s.replies call).recv with
    | .waiting, some outcome =>
      some { s with calls := Function.update s.calls call (.returned outcome) }
    | _, _ => none

/-! ### What a step can do -/

/-- The effects of steps: one constructor for each way in which a step changes the state. -/
inductive Effect (deps : WorkerDeps σ) (s : State σ) : State σ → Prop
  | senders (n : ℕ) : Effect deps s { s with senders := n }
  | queued (job : Job) (hjob : ∀ j, job ≠ .unlock j) (halive : s.receiverAlive = true) :
    Effect deps s { s with queue := s.queue ++ [job], entered := s.entered ++ [job] }
  | called (job : UnlockJob) (hidle : s.calls job.reply = .idle)
      (halive : s.receiverAlive = true) :
    Effect deps s { s with
      queue := s.queue ++ [.unlock job]
      entered := s.entered ++ [.unlock job]
      calls := Function.update s.calls job.reply .waiting }
  | refused (job : UnlockJob) (hidle : s.calls job.reply = .idle)
      (hdead : s.receiverAlive = false) :
    Effect deps s { s with
      calls := Function.update s.calls job.reply (.returned workerUnavailableOutcome)
      replies := Function.update s.replies job.reply ⟨none, true⟩ }
  | took (job : Job) (rest : List Job) (hworker : s.worker = .receiving)
      (hqueue : s.queue = job :: rest) :
    Effect deps s { s with queue := rest, taken := s.taken ++ [job], worker := .start job }
  | disconnected (hworker : s.worker = .receiving) (hqueue : s.queue = []) :
    Effect deps s { s with worker := .exited }
  | unlocked (job : UnlockJob) (hworker : s.worker = .unlocking job) :
    Effect deps s { s with
      world := (executeUnlockJob deps job s.world).2
      worker := .receiving
      replies := Function.update s.replies job.reply
        ⟨some (executeUnlockJob deps job s.world).1, true⟩
      executed := s.executed ++ [(job, (executeUnlockJob deps job s.world).1)] }
  | hungUp (job : HangupJob) (hworker : s.worker = .hangingUp job) :
    Effect deps s { s with world := executeHangupJob deps job s.world, worker := .receiving }
  | dropped (hworker : s.worker = .exited) (halive : s.receiverAlive = true) :
    Effect deps s { s with
      receiverAlive := false
      queue := []
      replies := dropQueued s.queue s.replies }
  | returned (call : ℕ) (outcome : UnlockOutcome) (hwaiting : s.calls call = .waiting)
      (hrecv : (s.replies call).recv = some outcome) :
    Effect deps s { s with calls := Function.update s.calls call (.returned outcome) }

variable {deps : WorkerDeps σ} {s t : State σ}

theorem submitUnlock_effect {job : UnlockJob} (hidle : s.calls job.reply = .idle) :
    Effect deps s (submitUnlock s job) := by
  by_cases halive : s.receiverAlive = true
  · simp only [submitUnlock, submitJob, if_pos halive]
    exact .called job hidle halive
  · simp only [submitUnlock, submitJob, if_neg halive]
    exact .refused job hidle (eq_false_of_ne_true halive)

theorem submitJob_effect {job : Job} (hjob : ∀ j, job ≠ .unlock j) :
    Effect deps s ((submitJob s job).getD s) := by
  by_cases halive : s.receiverAlive = true
  · simp only [submitJob, if_pos halive, Option.getD_some]
    exact .queued job hjob halive
  · simp only [submitJob, if_neg halive, Option.getD_none]
    exact .senders s.senders

theorem step_effect {l : Label} (h : step deps s l = some t) : Effect deps s t := by
  cases l with
  | dispatch call request | ring call request =>
    simp only [step, Option.ite_none_right_eq_some, Option.some.injEq] at h
    obtain ⟨⟨hidle, -⟩, rfl⟩ := h
    exact submitUnlock_effect hidle
  | submitHangup job | submitShutdown =>
    simp only [step, Option.ite_none_right_eq_some, Option.some.injEq] at h
    obtain ⟨-, rfl⟩ := h
    exact submitJob_effect (by simp)
  | cloneSender | dropSender =>
    simp only [step, Option.ite_none_right_eq_some, Option.some.injEq] at h
    obtain ⟨-, rfl⟩ := h
    exact .senders _
  | workerRecv =>
    simp only [step] at h
    split at h
    · rename_i job rest hworker hqueue
      obtain rfl := Option.some.inj h
      exact .took job rest hworker hqueue
    · simp at h
  | workerDisconnected =>
    simp only [step, Option.ite_none_right_eq_some, Option.some.injEq] at h
    obtain ⟨⟨hworker, hqueue, -⟩, rfl⟩ := h
    exact .disconnected hworker hqueue
  | workerFinish =>
    simp only [step] at h
    split at h
    · rename_i job hworker
      obtain rfl := Option.some.inj h
      exact .unlocked job hworker
    · rename_i job hworker
      obtain rfl := Option.some.inj h
      exact .hungUp job hworker
    · simp at h
  | dropReceiver =>
    simp only [step, Option.ite_none_right_eq_some, Option.some.injEq] at h
    obtain ⟨⟨hworker, halive⟩, rfl⟩ := h
    exact .dropped hworker halive
  | callReturn call =>
    simp only [step] at h
    split at h
    · rename_i outcome hwaiting hrecv
      obtain rfl := Option.some.inj h
      exact .returned call outcome hwaiting hrecv
    · simp at h

end Worker

/-! ### A station to run against -/

/-- A station that opens at the first attempt, under a deadline that never expires. -/
def openingDeps : WorkerDeps Unit where
  env :=
    { expired := fun s ↦ (false, s)
      cancelLoad := fun s ↦ (false, s)
      tryOnce := fun _ s ↦ (.ok, s)
      sleep := fun _ _ s ↦ (.elapsed, s) }
  newDeadline := fun _ s ↦ s
  listener := none
  hangupWire := none

def manualRequest : UnlockRequest where
  callerBcd := stationBcd
  calleeBcd := indoorBcd
  targetIp := ipv4Str stationIp
  targetPort := 18022

end DoorAccess.Daemon
