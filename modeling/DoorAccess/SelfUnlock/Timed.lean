import DoorAccess.SelfUnlock.Ring

/-!
# Rings, the consumer and the worker in time

The consumer of `self_unlock.rs` together with the clock, its subscription channel, the hang-up
timers and the wire worker, which also serves manual unlocks. A ring frame is stamped with the
instant at which it is dispatched into the channel; `handle_ring` sees it only when the consumer
takes it out, and the consumer is blocked while it waits for the worker. Jobs run for at most
`UNLOCK_TOTAL_CAP`, in any order of all other moves.

The debounce compares dequeue instants. Two rings of one door station that arrive within the
window are both submitted when the second outwaits the window in the channel. `runs_once_iff` says
exactly when a run has no such pair: whenever the ring taken out arrived within the window of the
one that last triggered its door station, it must also be taken out within the window of that one.
-/

set_option autoImplicit false
set_option relaxedAutoImplicit false

namespace DoorAccess.SelfUnlock

open Codec Listen18022 Unlock Daemon

/-- `HANGUP_DELAY_MS` as in production. -/
def HANGUP_DELAY_MS : ℕ := 2000

/-- A frame in the channel, with the instant of its dispatch. -/
structure Ring where
  frame : DetectedFrame
  arrived : ℕ
  deriving DecidableEq

/-- A ring that `handle_ring` turned into an unlock job. -/
structure Submission where
  uri : Str
  arrived : ℕ
  dequeued : ℕ
  deriving DecidableEq

inductive ConsumerPhase
  /-- In `recv_timeout` of its channel. -/
  | polling
  /-- In `execute_unlock_from_ring`, waiting for the reply of its call. -/
  | waiting (call : ℕ) (action : RingAction)
  deriving DecidableEq

structure System (σ : Type*) where
  now : ℕ
  autoUnlock : Bool
  autoHangup : Bool
  channel : List Ring
  consumer : ConsumerPhase
  lastTriggered : Str → Option ℕ
  worker : Daemon.State σ
  /-- When the worker took its current job. -/
  busySince : ℕ
  /-- The hang-up timers that are running, with the instants at which they fire. -/
  timers : List (ℕ × HangupJob)
  submissions : List Submission

inductive Move
  | tick (duration : ℕ)
  /-- A frame reaches the listener. -/
  | arrive (frame : DetectedFrame)
  | setAutoUnlock (value : Bool)
  | setAutoHangup (value : Bool)
  /-- The consumer takes a frame; `call` numbers the reply channel if it submits a job. -/
  | dequeue (call : ℕ)
  /-- The consumer's wait for the worker ends. -/
  | consumerReturn
  /-- The first running timer fires. -/
  | timer
  /-- A move of the worker or of another submitter. -/
  | worker (label : Daemon.Label)
  deriving DecidableEq

section System

variable {σ : Type*}

def System.init (world : σ) (senders : ℕ) : System σ where
  now := 0
  autoUnlock := true
  autoHangup := true
  channel := []
  consumer := .polling
  lastTriggered := fun _ ↦ none
  worker := Daemon.State.init world senders
  busySince := 0
  timers := []
  submissions := []

/-- The worker is within a job. -/
def busy : WorkerPhase → Bool
  | .unlocking _ | .hangingUp _ => true
  | .receiving | .exited => false

/-- The moves of the other threads that concern the worker: all but those of the consumer. -/
def foreign (consumer : ConsumerPhase) : Daemon.Label → Bool
  | .ring _ _ => false
  | .callReturn call => match consumer with
    | .waiting own _ => call != own
    | .polling => true
  | _ => true

/-- What the consumer does once its call has returned: back to polling, with a timer for the
hang-up if one is scheduled. -/
def afterReturn (deps : SelfUnlockDeps) (s : System σ) (action : RingAction)
    (outcome : UnlockOutcome) : System σ :=
  { s with
    consumer := .polling
    timers := s.timers ++ ((followUp deps action outcome s.autoHangup).2.map fun job ↦
      (s.now + HANGUP_DELAY_MS, job)).toList }

/-- `handle_ring` on the ring just taken out, up to the wait for the worker. -/
def takeRing (deps : SelfUnlockDeps) (workerDeps : WorkerDeps σ) (s : System σ) (ring : Ring)
    (call : ℕ) : Option (System σ) :=
  let (table, action) :=
    handleRing deps debounceWindow s.lastTriggered ring.frame s.now s.autoUnlock
  let s := { s with lastTriggered := table }
  match action with
  | .submitted uri request =>
    (Daemon.step workerDeps s.worker (.ring call request)).map fun worker ↦
      { s with
        consumer := .waiting call action
        worker := worker
        submissions := s.submissions ++ [⟨uri, ring.arrived, s.now⟩] }
  | _ => some s

/-- One move, `none` when it is not enabled. -/
def move (deps : SelfUnlockDeps) (workerDeps : WorkerDeps σ) (s : System σ) :
    Move → Option (System σ)
  | .tick duration =>
    if busy s.worker.worker ∧ s.busySince + UNLOCK_TOTAL_CAP < s.now + duration then none
    else some { s with now := s.now + duration }
  | .arrive frame =>
    if makeFilter deps frame ∧ s.channel.length < SUB_CHAN_DEPTH then
      some { s with channel := s.channel ++ [⟨frame, s.now⟩] }
    else some s
  | .setAutoUnlock value => some { s with autoUnlock := value }
  | .setAutoHangup value => some { s with autoHangup := value }
  | .dequeue call =>
    match s.consumer, s.channel with
    | .polling, ring :: rest => takeRing deps workerDeps { s with channel := rest } ring call
    | _, _ => none
  | .consumerReturn =>
    match s.consumer with
    | .waiting call action =>
      match s.worker.calls call with
      -- The send failed and the call returned at once.
      | .returned outcome => some (afterReturn deps s action outcome)
      | _ => (s.worker.replies call).recv.bind fun outcome ↦
        (Daemon.step workerDeps s.worker (.callReturn call)).map fun worker ↦
          afterReturn deps { s with worker := worker } action outcome
    | .polling => none
  | .timer =>
    match s.timers with
    | (due, job) :: rest =>
      if due ≤ s.now then
        (Daemon.step workerDeps s.worker (.submitHangup job)).map fun worker ↦
          { s with timers := rest, worker := worker }
      else none
    | [] => none
  | .worker label =>
    if foreign s.consumer label then
      (Daemon.step workerDeps s.worker label).map fun worker ↦
        { s with
          worker := worker
          busySince := if label = .workerRecv then s.now else s.busySince }
    else none

/-- No two submitted rings of one door station arrived less than the window apart. -/
def RunsOnce (s : System σ) : Prop :=
  s.submissions.Pairwise fun a b ↦ a.uri = b.uri → a.arrived + debounceWindow ≤ b.arrived

/-- The ring that last triggered a door station. -/
def lastOf (submissions : List Submission) (uri : Str) : Option Submission :=
  (submissions.filter fun a ↦ a.uri = uri).getLast?

/-- A ring that the consumer is about to take with the flag on, and that arrived within the window
of the ring that last triggered its door station, is taken within the window of that one. -/
def OnTime (deps : SelfUnlockDeps) (s : System σ) : Move → Prop
  | .dequeue _ => ∀ ring, s.channel.head? = some ring → s.autoUnlock = true →
      ∀ uri, deps.outdoorByIp (ipv4Str ring.frame.srcIp) = some uri →
        ∀ last, lastOf s.submissions uri = some last →
          ring.arrived < last.arrived + debounceWindow → s.now < last.dequeued + debounceWindow
  | _ => True

/-! ### What a move can do to the rings -/

variable {deps : SelfUnlockDeps} {workerDeps : WorkerDeps σ} {s t : System σ} {m : Move}

/-- The submission that the action for a ring makes. -/
def submissionOf (ring : Ring) (now : ℕ) : RingAction → List Submission
  | .submitted uri _ => [⟨uri, ring.arrived, now⟩]
  | _ => []

/-- The move leaves the rings alone. -/
structure Quiet (s t : System σ) : Prop where
  now_le : s.now ≤ t.now
  channel_eq : t.channel = s.channel
  table_eq : t.lastTriggered = s.lastTriggered
  submissions_eq : t.submissions = s.submissions

/-- The move takes a ring out of the channel. -/
structure Takes (deps : SelfUnlockDeps) (s t : System σ) (ring : Ring) : Prop where
  now_eq : t.now = s.now
  channel_eq : s.channel = ring :: t.channel
  table_eq : t.lastTriggered =
    (handleRing deps debounceWindow s.lastTriggered ring.frame s.now s.autoUnlock).1
  submissions_eq : t.submissions = s.submissions ++ submissionOf ring s.now
    (handleRing deps debounceWindow s.lastTriggered ring.frame s.now s.autoUnlock).2

theorem takeRing_takes {ring : Ring} {rest : List Ring} {call : ℕ}
    (hchannel : s.channel = ring :: rest)
    (h : takeRing deps workerDeps { s with channel := rest } ring call = some t) :
    Takes deps s t ring := by
  simp only [takeRing] at h
  split at h
  · rename_i uri request haction
    obtain ⟨worker, -, rfl⟩ := Option.map_eq_some_iff.mp h
    refine ⟨rfl, hchannel, rfl, ?_⟩
    rw [haction]
    rfl
  · rename_i hother
    obtain rfl := Option.some.inj h
    refine ⟨rfl, hchannel, rfl, ?_⟩
    rw [submissionOf.eq_2 _ _ _ hother, List.append_nil]

/-- A move is quiet, lets a ring arrive, or takes one out. -/
theorem move_cases (h : move deps workerDeps s m = some t) :
    (Quiet s t ∧ ∀ call, m ≠ .dequeue call) ∨
    (∃ frame, t = { s with channel := s.channel ++ [⟨frame, s.now⟩] } ∧
      ∀ call, m ≠ .dequeue call) ∨
    (∃ ring call, m = .dequeue call ∧ Takes deps s t ring) := by
  cases m with
  | tick duration =>
    simp only [move] at h
    split_ifs at h with hbusy
    obtain rfl := Option.some.inj h
    exact .inl ⟨⟨Nat.le_add_right _ _, rfl, rfl, rfl⟩, by simp⟩
  | arrive frame =>
    simp only [move] at h
    split_ifs at h with haccept
    · obtain rfl := Option.some.inj h
      exact .inr (.inl ⟨frame, rfl, by simp⟩)
    · obtain rfl := Option.some.inj h
      exact .inl ⟨⟨Nat.le_refl _, rfl, rfl, rfl⟩, by simp⟩
  | setAutoUnlock value | setAutoHangup value =>
    obtain rfl := Option.some.inj h
    exact .inl ⟨⟨Nat.le_refl _, rfl, rfl, rfl⟩, by simp⟩
  | dequeue call =>
    simp only [move] at h
    split at h
    · rename_i ring rest hconsumer hchannel
      exact .inr (.inr ⟨ring, call, rfl, takeRing_takes hchannel h⟩)
    · simp at h
  | consumerReturn =>
    refine .inl ⟨?_, by simp⟩
    simp only [move] at h
    split at h
    · split at h
      · obtain rfl := Option.some.inj h
        exact ⟨Nat.le_refl _, rfl, rfl, rfl⟩
      · obtain ⟨outcome, -, hrest⟩ := Option.bind_eq_some_iff.mp h
        obtain ⟨worker, -, rfl⟩ := Option.map_eq_some_iff.mp hrest
        exact ⟨Nat.le_refl _, rfl, rfl, rfl⟩
    · simp at h
  | timer =>
    refine .inl ⟨?_, by simp⟩
    simp only [move] at h
    split at h
    · split_ifs at h with hdue
      obtain ⟨worker, -, rfl⟩ := Option.map_eq_some_iff.mp h
      exact ⟨Nat.le_refl _, rfl, rfl, rfl⟩
    · simp at h
  | worker label =>
    refine .inl ⟨?_, by simp⟩
    simp only [move, Option.ite_none_right_eq_some] at h
    obtain ⟨worker, -, rfl⟩ := Option.map_eq_some_iff.mp h.2
    exact ⟨Nat.le_refl _, rfl, rfl, rfl⟩

/-! ### The invariant -/

/-- The channel is first in, first out, and the debounce table holds the dequeue instants of the
last submissions. -/
structure RingInv (s : System σ) : Prop where
  channel_sorted : s.channel.Pairwise fun a b ↦ a.arrived ≤ b.arrived
  channel_now : ∀ ring ∈ s.channel, ring.arrived ≤ s.now
  submission_channel : ∀ a ∈ s.submissions, ∀ ring ∈ s.channel, a.arrived ≤ ring.arrived
  submission_now : ∀ a ∈ s.submissions, a.arrived ≤ s.now ∧ a.dequeued ≤ s.now
  submission_sorted : s.submissions.Pairwise fun a b ↦ a.arrived ≤ b.arrived
  parses : ∀ a ∈ s.submissions, ∃ target, parseOutdoorUri a.uri = .ok target
  table : ∀ uri target, parseOutdoorUri uri = .ok target →
    s.lastTriggered uri = (lastOf s.submissions uri).map Submission.dequeued

theorem lastOf_append_self (submissions : List Submission) (a : Submission) :
    lastOf (submissions ++ [a]) a.uri = some a := by
  simp [lastOf]

theorem lastOf_append_of_ne {submissions : List Submission} {a : Submission} {uri : Str}
    (hne : a.uri ≠ uri) : lastOf (submissions ++ [a]) uri = lastOf submissions uri := by
  simp [lastOf, hne]

theorem mem_of_lastOf {submissions : List Submission} {a : Submission} {uri : Str}
    (h : lastOf submissions uri = some a) : a ∈ submissions ∧ a.uri = uri := by
  simpa using List.mem_of_getLast? h

theorem lastOf_eq_none {submissions : List Submission} {uri : Str}
    (h : lastOf submissions uri = none) : ∀ a ∈ submissions, a.uri ≠ uri := by
  simpa [lastOf] using h

/-- Among sorted submissions the last of a door station arrived latest. -/
theorem le_lastOf {submissions : List Submission} {a last : Submission} {uri : Str}
    (hsorted : submissions.Pairwise fun a b ↦ a.arrived ≤ b.arrived)
    (hlast : lastOf submissions uri = some last) (ha : a ∈ submissions) (huri : a.uri = uri) :
    a.arrived ≤ last.arrived := by
  obtain ⟨init, hinit⟩ := List.getLast?_eq_some_iff.mp hlast
  have hmem : a ∈ init ++ [last] := hinit ▸ List.mem_filter.mpr ⟨ha, by simpa using huri⟩
  have hfiltered := hsorted.filter fun a ↦ a.uri = uri
  rw [hinit, List.pairwise_append] at hfiltered
  rcases List.mem_append.mp hmem with hmem | hmem
  · exact hfiltered.2.2 a hmem last List.mem_cons_self
  · exact Nat.le_of_eq (congrArg Submission.arrived (List.mem_singleton.mp hmem))

theorem RingInv.init (world : σ) (senders : ℕ) : RingInv (System.init world senders) where
  channel_sorted := List.Pairwise.nil
  channel_now := by simp [System.init]
  submission_channel := by simp [System.init]
  submission_now := by simp [System.init]
  submission_sorted := List.Pairwise.nil
  parses := by simp [System.init]
  table := fun _ _ _ ↦ rfl

theorem RingInv.quiet (hinv : RingInv s) (hquiet : Quiet s t) : RingInv t where
  channel_sorted := hquiet.channel_eq ▸ hinv.channel_sorted
  channel_now := fun ring hring ↦
    Nat.le_trans (hinv.channel_now ring (hquiet.channel_eq ▸ hring)) hquiet.now_le
  submission_channel := hquiet.channel_eq ▸ hquiet.submissions_eq ▸ hinv.submission_channel
  submission_now := fun a ha ↦ by
    obtain ⟨harrived, hdequeued⟩ := hinv.submission_now a (hquiet.submissions_eq ▸ ha)
    exact ⟨Nat.le_trans harrived hquiet.now_le, Nat.le_trans hdequeued hquiet.now_le⟩
  submission_sorted := hquiet.submissions_eq ▸ hinv.submission_sorted
  parses := hquiet.submissions_eq ▸ hinv.parses
  table := by
    rw [hquiet.table_eq, hquiet.submissions_eq]
    exact hinv.table

theorem RingInv.arrive (hinv : RingInv s) (frame : DetectedFrame) :
    RingInv { s with channel := s.channel ++ [⟨frame, s.now⟩] } where
  channel_sorted := by
    refine List.pairwise_append.mpr ⟨hinv.channel_sorted, List.pairwise_singleton _ _, ?_⟩
    intro a ha b hb
    rw [List.mem_singleton.mp hb]
    exact hinv.channel_now a ha
  channel_now := by
    intro ring hring
    rcases List.mem_append.mp hring with hring | hring
    · exact hinv.channel_now ring hring
    · exact Nat.le_of_eq (congrArg Ring.arrived (List.mem_singleton.mp hring))
  submission_channel := by
    intro a ha ring hring
    rcases List.mem_append.mp hring with hring | hring
    · exact hinv.submission_channel a ha ring hring
    · rw [List.mem_singleton.mp hring]
      exact (hinv.submission_now a ha).1
  submission_now := hinv.submission_now
  submission_sorted := hinv.submission_sorted
  parses := hinv.parses
  table := hinv.table

/-- Taking a ring submits it and enters it, or leaves the submissions and the entries of all door
stations with a valid URI as they are. -/
theorem Takes.cases {ring : Ring} (htakes : Takes deps s t ring) :
    (∃ uri target, deps.outdoorByIp (ipv4Str ring.frame.srcIp) = some uri ∧ s.autoUnlock = true ∧
      parseOutdoorUri uri = .ok target ∧
      Debounce.admits debounceWindow s.lastTriggered uri s.now = true ∧
      t.lastTriggered = Function.update s.lastTriggered uri (some s.now) ∧
      t.submissions = s.submissions ++ [⟨uri, ring.arrived, s.now⟩]) ∨
    (t.submissions = s.submissions ∧
      (∀ uri target, parseOutdoorUri uri = .ok target →
        t.lastTriggered uri = s.lastTriggered uri) ∧
      ∀ uri target, deps.outdoorByIp (ipv4Str ring.frame.srcIp) = some uri →
        s.autoUnlock = true → parseOutdoorUri uri = .ok target →
        Debounce.admits debounceWindow s.lastTriggered uri s.now = false) := by
  have htable := htakes.table_eq
  have hsubmissions := htakes.submissions_eq
  rcases handleRing_cases deps debounceWindow s.lastTriggered ring.frame s.now s.autoUnlock with
    ⟨uri, hlookup, hflag, hadmits, heq⟩ | ⟨action, heq, hskip, hclosed⟩
  · rw [heq] at htable hsubmissions
    cases hparse : parseOutdoorUri uri with
    | ok target =>
      refine .inl ⟨uri, target, hlookup, hflag, hparse, hadmits, htable, ?_⟩
      rw [hsubmissions]
      simp only [trigger, hparse, submissionOf]
    | error err =>
      -- The entry of a URI that does not parse says nothing about the others.
      refine .inr ⟨?_, fun uri' target hparse' ↦ ?_, fun uri' target hlookup' _ hparse' ↦ ?_⟩
      · simpa [trigger, hparse, submissionOf] using hsubmissions
      · have hne : uri' ≠ uri := by
          rintro rfl
          simp [hparse] at hparse'
        rw [htable]
        exact Function.update_of_ne hne _ _
      · rw [hlookup, Option.some.injEq] at hlookup'
        subst hlookup'
        simp [hparse] at hparse'
  · rw [heq] at htable hsubmissions
    refine .inr ⟨?_, fun uri target _ ↦ by rw [htable], fun uri target hlookup hflag _ ↦
      hclosed uri hlookup hflag⟩
    cases action with
    | unknownSource | flagOff | debounced => simpa [submissionOf] using hsubmissions
    | parseFailed | submitted => exact hskip.elim

theorem RingInv.takes (hinv : RingInv s) {ring : Ring} (htakes : Takes deps s t ring) :
    RingInv t := by
  have hsorted := hinv.channel_sorted
  rw [htakes.channel_eq, List.pairwise_cons] at hsorted
  have hmem : ∀ other ∈ t.channel, other ∈ s.channel := fun other hother ↦ by
    rw [htakes.channel_eq]
    exact List.mem_cons_of_mem _ hother
  have hring : ring ∈ s.channel := by simp [htakes.channel_eq]
  have hchannel_now : ∀ other ∈ t.channel, other.arrived ≤ t.now := fun other hother ↦
    htakes.now_eq ▸ hinv.channel_now other (hmem other hother)
  rcases htakes.cases with ⟨uri, target, hlookup, -, hparse, -, htable, hsub⟩ | ⟨hsub, htable, -⟩
  · exact {
      channel_sorted := hsorted.2
      channel_now := hchannel_now
      submission_channel := by
        intro a ha other hother
        rw [hsub, List.mem_append, List.mem_singleton] at ha
        rcases ha with ha | rfl
        · exact hinv.submission_channel a ha other (hmem other hother)
        · exact hsorted.1 other hother
      submission_now := by
        intro a ha
        rw [hsub, List.mem_append, List.mem_singleton] at ha
        rw [htakes.now_eq]
        rcases ha with ha | rfl
        · exact hinv.submission_now a ha
        · exact ⟨hinv.channel_now ring hring, Nat.le_refl _⟩
      submission_sorted := by
        rw [hsub]
        refine List.pairwise_append.mpr
          ⟨hinv.submission_sorted, List.pairwise_singleton _ _, ?_⟩
        intro a ha b hb
        rw [List.mem_singleton.mp hb]
        exact hinv.submission_channel a ha ring hring
      parses := by
        intro a ha
        rw [hsub, List.mem_append, List.mem_singleton] at ha
        rcases ha with ha | rfl
        · exact hinv.parses a ha
        · exact ⟨target, hparse⟩
      table := by
        intro uri' target' hparse'
        rw [htable, hsub]
        by_cases huri : uri' = uri
        · subst huri
          rw [Function.update_self]
          exact congrArg (Option.map Submission.dequeued)
            (lastOf_append_self s.submissions ⟨uri', ring.arrived, s.now⟩).symm
        · rw [Function.update_of_ne huri, lastOf_append_of_ne (Ne.symm huri)]
          exact hinv.table uri' target' hparse' }
  · exact {
      channel_sorted := hsorted.2
      channel_now := hchannel_now
      submission_channel := fun a ha other hother ↦
        hinv.submission_channel a (hsub ▸ ha) other (hmem other hother)
      submission_now := fun a ha ↦ htakes.now_eq ▸ hinv.submission_now a (hsub ▸ ha)
      submission_sorted := hsub ▸ hinv.submission_sorted
      parses := hsub ▸ hinv.parses
      table := fun uri target hparse ↦ by
        rw [htable uri target hparse, hsub]
        exact hinv.table uri target hparse }

theorem RingInv.move (hinv : RingInv s) (h : move deps workerDeps s m = some t) : RingInv t := by
  rcases move_cases h with ⟨hquiet, -⟩ | ⟨frame, rfl, -⟩ | ⟨ring, call, -, htakes⟩
  · exact hinv.quiet hquiet
  · exact hinv.arrive frame
  · exact hinv.takes htakes

/-! ### Runs without a repeated opening -/

theorem OnTime.of_ne_dequeue (hm : ∀ call, m ≠ .dequeue call) : OnTime deps s m := by
  cases m with
  | dequeue call => exact absurd rfl (hm call)
  | _ => trivial

/-- With the ring of `uri` at the head of the channel and the flag on, being on time is a statement
about the last submission of `uri` alone. -/
theorem onTime_dequeue_iff {ring : Ring} {uri : Str} {call : ℕ}
    (hhead : s.channel.head? = some ring) (hflag : s.autoUnlock = true)
    (hlookup : deps.outdoorByIp (ipv4Str ring.frame.srcIp) = some uri) :
    OnTime deps s (.dequeue call) ↔ ∀ last, lastOf s.submissions uri = some last →
      ring.arrived < last.arrived + debounceWindow → s.now < last.dequeued + debounceWindow := by
  constructor
  · intro h
    exact h ring hhead hflag uri hlookup
  · intro h ring' hring' _ uri' hlookup'
    obtain rfl : ring = ring' := Option.some.inj (hhead.symm.trans hring')
    obtain rfl : uri = uri' := Option.some.inj (hlookup.symm.trans hlookup')
    exact h

/-- A ring that is let through is on time exactly when it arrived at least a window after all
earlier submissions of its door station. -/
theorem RingInv.onTime_iff_apart (hinv : RingInv s) {ring : Ring} {uri : Str}
    {target : Octets × Str × UInt16} {call : ℕ} (hhead : s.channel.head? = some ring)
    (hflag : s.autoUnlock = true)
    (hlookup : deps.outdoorByIp (ipv4Str ring.frame.srcIp) = some uri)
    (hparse : parseOutdoorUri uri = .ok target)
    (hadmits : Debounce.admits debounceWindow s.lastTriggered uri s.now = true) :
    OnTime deps s (.dequeue call) ↔
      ∀ a ∈ s.submissions, a.uri = uri → a.arrived + debounceWindow ≤ ring.arrived := by
  rw [onTime_dequeue_iff hhead hflag hlookup]
  cases hlast : lastOf s.submissions uri with
  | none =>
    refine iff_of_true (by simp) fun a ha huri ↦ ?_
    exact absurd huri (lastOf_eq_none hlast a ha)
  | some last =>
    obtain ⟨hmem, huri⟩ := mem_of_lastOf hlast
    have hpassed : last.dequeued + debounceWindow ≤ s.now := by
      rw [Debounce.admits, hinv.table uri target hparse, hlast] at hadmits
      simp only [Option.map_some, Bool.not_eq_true', decide_eq_false_iff_not] at hadmits
      have hdequeued := (hinv.submission_now last hmem).2
      omega
    simp only [Option.some.injEq, forall_eq']
    constructor
    · intro hontime a ha hauri
      have hle := le_lastOf hinv.submission_sorted hlast ha hauri
      by_contra hclose
      have hnow := hontime (by omega)
      omega
    · intro hapart hwithin
      have := hapart last hmem huri
      omega

/-- Taking a ring keeps the submissions apart exactly when the ring is on time. -/
theorem RingInv.runsOnce_takes (hinv : RingInv s) {ring : Ring} {call : ℕ}
    (htakes : Takes deps s t ring) :
    RunsOnce t ↔ RunsOnce s ∧ OnTime deps s (.dequeue call) := by
  have hhead : s.channel.head? = some ring := by
    rw [htakes.channel_eq]
    rfl
  rcases htakes.cases with
    ⟨uri, target, hlookup, hflag, hparse, hadmits, -, hsub⟩ | ⟨hsub, -, hclosed⟩
  · rw [hinv.onTime_iff_apart hhead hflag hlookup hparse hadmits]
    simp only [RunsOnce, hsub, List.pairwise_append, List.pairwise_singleton, true_and,
      List.mem_singleton, forall_eq]
  · have hsame : RunsOnce t ↔ RunsOnce s := by simp only [RunsOnce, hsub]
    rw [hsame, iff_self_and]
    intro _ ring' hring' hflag uri hlookup last hlast _
    obtain rfl : ring = ring' := Option.some.inj (hhead.symm.trans hring')
    obtain ⟨hmem, rfl⟩ := mem_of_lastOf hlast
    obtain ⟨target, hparse⟩ := hinv.parses last hmem
    have hadmits := hclosed last.uri target hlookup hflag hparse
    rw [Debounce.admits, hinv.table last.uri target hparse, hlast] at hadmits
    simp only [Option.map_some, Bool.not_eq_false', decide_eq_true_eq] at hadmits
    omega

theorem RingInv.runsOnce_move (hinv : RingInv s)
    (h : SelfUnlock.move deps workerDeps s m = some t) :
    RunsOnce t ↔ RunsOnce s ∧ OnTime deps s m := by
  rcases move_cases h with ⟨hquiet, hm⟩ | ⟨frame, rfl, hm⟩ | ⟨ring, call, rfl, htakes⟩
  · rw [RunsOnce, hquiet.submissions_eq]
    exact (and_iff_left (OnTime.of_ne_dequeue hm)).symm
  · exact (and_iff_left (OnTime.of_ne_dequeue hm)).symm
  · exact hinv.runsOnce_takes htakes

/-- In every run of the consumer, the worker, the timers and the other submitters: no two rings of
one door station that arrived less than the debounce window apart are both submitted, exactly when
every ring is taken from the channel on time. -/
theorem runs_once_iff {world : σ} {senders : ℕ} {moves : List Move}
    (hrun : Transition.exec (move deps workerDeps) (System.init world senders) moves = some s) :
    RunsOnce s ↔
      Transition.Along (move deps workerDeps) (OnTime deps) (System.init world senders) moves := by
  have hstart : RunsOnce (System.init world senders) := List.Pairwise.nil
  rw [Transition.exec_iff_along (fun hinv h ↦ RingInv.move hinv h)
    (fun hinv h ↦ RingInv.runsOnce_move hinv h) (RingInv.init world senders) hrun]
  exact and_iff_right hstart

end System

/-- A repeated ring that the consumer takes a second after the first. -/
def promptUnlock : List Move :=
  [.arrive stationRing, .dequeue 0, .worker .workerRecv, .tick 1000, .arrive stationRing,
    .worker .workerFinish, .consumerReturn, .dequeue 1]

theorem promptUnlock_runs_once :
    ∃ s, Transition.exec (move oneStation openingDeps) (System.init () 3) promptUnlock = some s ∧
      s.submissions = [⟨stationUri, 0, 0⟩] ∧
      Transition.Along (move oneStation openingDeps) (OnTime oneStation) (System.init () 3)
        promptUnlock := by
  have hrun : (Transition.exec (move oneStation openingDeps) (System.init () 3)
      promptUnlock).map System.submissions = some [⟨stationUri, 0, 0⟩] := by
    decide
  obtain ⟨s, hs, hsubmissions⟩ := Option.map_eq_some_iff.mp hrun
  have honce : RunsOnce s := by
    rw [RunsOnce, hsubmissions]
    exact List.pairwise_singleton _ _
  exact ⟨s, hs, hsubmissions, (runs_once_iff hs).mp honce⟩

/-! ### A ring that outwaits the window -/

/-- The second ring of a door station arrives one second after the first. The first is submitted
at once but its job stands behind a manual unlock that takes ten seconds, and takes three itself,
so that the consumer comes back to the second thirteen seconds after the first. -/
def slowManualUnlock : List Move :=
  [.worker (.dispatch 0 manualRequest), .worker .workerRecv, .arrive stationRing, .dequeue 1,
    .tick 1000, .arrive stationRing, .tick 9000, .worker .workerFinish, .worker .workerRecv,
    .tick 3000, .worker .workerFinish, .consumerReturn, .dequeue 2]

theorem slowManualUnlock_runs_twice :
    ∃ s, Transition.exec (move oneStation openingDeps) (System.init () 3) slowManualUnlock =
        some s ∧
      s.submissions = [⟨stationUri, 0, 0⟩, ⟨stationUri, 1000, 13000⟩] ∧ ¬ RunsOnce s := by
  have hrun : (Transition.exec (move oneStation openingDeps) (System.init () 3)
      slowManualUnlock).map System.submissions =
        some [⟨stationUri, 0, 0⟩, ⟨stationUri, 1000, 13000⟩] := by
    decide
  obtain ⟨s, hs, hsubmissions⟩ := Option.map_eq_some_iff.mp hrun
  refine ⟨s, hs, hsubmissions, ?_⟩
  rw [RunsOnce, hsubmissions]
  decide

end DoorAccess.SelfUnlock
