import DoorAccess.Daemon.Pushes
import DoorAccess.Lib.Transition
import DoorAccess.Unlock.Execute

/-!
# The threads of the listeners and the flag they share

Each listener has a thread for every slave, which opens a packet socket and then receives frames
until the shutdown flag is set. A slave that fails leaves its error in the slot of its listener,
unless another one has been there before, and stores the flag so that the other slaves of the
listener stop. The flag is the one of the daemon: `run` gives it to both listeners, to the worker as
its cancel flag and to the threads of the pushes, and does not look at it in its own loop.

`slave_failure_spreads` is what comes of this in every interleaving of the threads. The flag is set
exactly by `run` behind its loop or by a slave that failed. With it every thread comes to its end
after at most one more frame, no unlock goes out to a door station and no push is sent any more,
while `run` stays in its loop.

The system calls are answered by the labels. What a frame becomes is the matter of `Doorbell`.
-/

set_option autoImplicit false
set_option relaxedAutoImplicit false

namespace DoorAccess.Daemon.Listeners

open Codec Transition Unlock

/-! ### The threads -/

inductive FfiError
  | unsupported
  | syscall (stage : String) (errno : ℤ)
  | interface (msg : String)
  deriving DecidableEq

/-- `EAGAIN`, which is `EWOULDBLOCK`, and `EINTR`. -/
def EAGAIN : ℤ := 11

def EINTR : ℤ := 4

/-- `is_retry_errno`. -/
def isRetryErrno (errno : ℤ) : Bool :=
  errno == EAGAIN || errno == EINTR

/-- The error is the periodic wakeup of a receive, or a signal. -/
def FfiError.retries : FfiError → Bool
  | .syscall _ errno => isRetryErrno errno
  | _ => false

/-- The calls of `run_slave` that open the socket, in their order. -/
inductive Stage
  | ifaceIndex
  | openPacketSocket
  | bindToIfindex
  | setPromisc
  | attachFilter
  | setRcvtimeo
  deriving DecidableEq

def Stage.next : Stage → Option Stage
  | .ifaceIndex => some .openPacketSocket
  | .openPacketSocket => some .bindToIfindex
  | .bindToIfindex => some .setPromisc
  | .setPromisc => some .attachFilter
  | .attachFilter => some .setRcvtimeo
  | .setRcvtimeo => none

/-- Where the thread of a slave is. -/
inductive Phase
  | opening (stage : Stage)
  /-- At the head of the loop. -/
  | looping
  | receiving
  | dispatching (frame : List UInt8)
  /-- With an error of a receive, before the flag is read again. -/
  | erred (e : FfiError)
  /-- `run_slave` has returned an error. -/
  | failing (e : FfiError)
  /-- The slot is written, the flag is not. -/
  | storing (e : FfiError)
  /-- With the error, if `run_slave` returned one. -/
  | ended (failure : Option FfiError)
  deriving DecidableEq

/-- Behind a call that opens the socket. The timeout of the receives may fail. -/
def Stage.answered (stage : Stage) : Option FfiError → Phase
  | some e => if stage = .setRcvtimeo then .looping else .failing e
  | none =>
    match stage.next with
    | some next => .opening next
    | none => .looping

/-- Behind a receive. -/
def received : Except FfiError (List UInt8) → Phase
  | .ok frame => .dispatching frame
  | .error e => if e.retries then .looping else .erred e

/-- Where `run` is. -/
inductive RunPhase
  /-- In its loop. -/
  | serving
  /-- Behind its loop, with the flag still to store. -/
  | leaving
  | joining
  deriving DecidableEq

structure State where
  threads : List Phase
  /-- What the listeners return once their threads have ended: the slave and its error, if any. -/
  slots : ℕ → Option (ℕ × FfiError)
  flag : Bool
  run : RunPhase
  signalled : Bool
  /-- The thread of the HTTP server has finished. -/
  httpEnded : Bool
  /-- History: the frames that went to the callbacks, and the failures as the slots were locked. -/
  handed : List (ℕ × List UInt8)
  failures : List (ℕ × FfiError)

/-- The start, with the slaves of all listeners. -/
def State.init (slaves : ℕ) : State where
  threads := List.replicate slaves (.opening .ifaceIndex)
  slots := fun _ ↦ none
  flag := false
  run := .serving
  signalled := false
  httpEnded := false
  handed := []
  failures := []

def State.setPhase (s : State) (i : ℕ) (phase : Phase) : State :=
  { s with threads := s.threads.set i phase }

inductive Label
  /-- A call that opens the socket of a slave is answered. -/
  | socket (i : ℕ) (failure : Option FfiError)
  | recv (i : ℕ) (result : Except FfiError (List UInt8))
  /-- Any other step of the thread of a slave. -/
  | thread (i : ℕ)
  | signal
  | httpEnds
  /-- A step of `run`. -/
  | run

/-- The slave whose thread moves. -/
def Label.mover : Label → Option ℕ
  | .socket i _ | .recv i _ | .thread i => some i
  | _ => none

/-- A step of a thread that asks nothing of the system. -/
def threadStep (listenerOf : ℕ → ℕ) (s : State) (i : ℕ) : Phase → Option State
  | .looping => some (s.setPhase i (if s.flag then .ended none else .receiving))
  | .dispatching frame => some { s.setPhase i .looping with handed := s.handed ++ [(i, frame)] }
  | .erred e => some (s.setPhase i (if s.flag then .ended none else .failing e))
  | .failing e =>
    some { s.setPhase i (.storing e) with
      slots := Function.update s.slots (listenerOf i) ((s.slots (listenerOf i)).or (some (i, e)))
      failures := s.failures ++ [(i, e)] }
  | .storing e => some { s.setPhase i (.ended (some e)) with flag := true }
  | .opening _ | .receiving | .ended _ => none

/-- A step of `run`. -/
def runStep (s : State) : Option State :=
  match s.run with
  | .serving => some { s with run := if s.signalled || s.httpEnded then .leaving else .serving }
  | .leaving => some { s with run := .joining, flag := true }
  | .joining => none

def step (listenerOf : ℕ → ℕ) (s : State) : Label → Option State
  | .socket i failure =>
    match s.threads[i]? with
    | some (.opening stage) => some (s.setPhase i (stage.answered failure))
    | _ => none
  | .recv i result =>
    match s.threads[i]? with
    | some .receiving => some (s.setPhase i (received result))
    | _ => none
  | .thread i => s.threads[i]?.bind (threadStep listenerOf s i)
  | .signal => some { s with signalled := true }
  | .httpEnds => some { s with httpEnded := true }
  | .run => runStep s

/-! ### What a step does -/

/-- The thread has left its error in the slot. -/
def Phase.failure : Phase → Option FfiError
  | .storing e => some e
  | .ended failure => failure
  | _ => none

/-- The ways a phase follows another one without anything else but history changing. -/
inductive Phase.Follows (flag : Bool) : Phase → Phase → Prop
  | socket (stage : Stage) (answer : Option FfiError) :
    Follows flag (.opening stage) (stage.answered answer)
  | recv (result : Except FfiError (List UInt8)) : Follows flag .receiving (received result)
  | head : Follows flag .looping (if flag then .ended none else .receiving)
  | error (e : FfiError) : Follows flag (.erred e) (if flag then .ended none else .failing e)

/-- The effect of a step of a thread on the state. -/
inductive Effect (listenerOf : ℕ → ℕ) (s : State) (i : ℕ) : Phase → State → Prop
  | moved {phase next : Phase} (h : phase.Follows s.flag next) :
    Effect listenerOf s i phase (s.setPhase i next)
  | handed (frame : List UInt8) : Effect listenerOf s i (.dispatching frame)
      { s.setPhase i .looping with handed := s.handed ++ [(i, frame)] }
  | recorded (e : FfiError) : Effect listenerOf s i (.failing e)
      { s.setPhase i (.storing e) with
        slots := Function.update s.slots (listenerOf i) ((s.slots (listenerOf i)).or (some (i, e)))
        failures := s.failures ++ [(i, e)] }
  | stored (e : FfiError) : Effect listenerOf s i (.storing e)
      { s.setPhase i (.ended (some e)) with flag := true }

section Steps

variable {listenerOf : ℕ → ℕ} {s t : State} {l : Label} {i j : ℕ}

theorem effect_of_step (h : step listenerOf s l = some t) (hmover : l.mover = some i) :
    ∃ phase, s.threads[i]? = some phase ∧ Effect listenerOf s i phase t := by
  cases l with
  | socket k failure =>
    obtain rfl := Option.some.inj hmover
    simp only [step] at h
    split at h
    · rename_i stage hphase
      exact ⟨_, hphase, Option.some.inj h ▸ .moved (.socket stage failure)⟩
    · cases h
  | recv k result =>
    obtain rfl := Option.some.inj hmover
    simp only [step] at h
    split at h
    · rename_i hphase
      exact ⟨_, hphase, Option.some.inj h ▸ .moved (.recv result)⟩
    · cases h
  | thread k =>
    obtain rfl := Option.some.inj hmover
    obtain ⟨phase, hphase, hstep⟩ := Option.bind_eq_some_iff.mp h
    refine ⟨phase, hphase, ?_⟩
    cases phase with
    | looping => exact Option.some.inj hstep ▸ .moved .head
    | dispatching frame => exact Option.some.inj hstep ▸ .handed frame
    | erred e => exact Option.some.inj hstep ▸ .moved (.error e)
    | failing e => exact Option.some.inj hstep ▸ .recorded e
    | storing e => exact Option.some.inj hstep ▸ .stored e
    | opening | receiving | ended => cases hstep
  | signal | httpEnds | run => cases hmover

/-- A step that is of no slave leaves the threads alone and what they leave behind. -/
theorem outside_of_step (h : step listenerOf s l = some t) (hmover : l.mover = none) :
    t.threads = s.threads ∧ t.slots = s.slots ∧ t.handed = s.handed ∧ t.failures = s.failures := by
  cases l with
  | socket | recv | thread => cases hmover
  | signal | httpEnds =>
    obtain rfl := Option.some.inj h
    exact ⟨rfl, rfl, rfl, rfl⟩
  | run =>
    simp only [step, runStep] at h
    split at h
    all_goals cases h
    all_goals exact ⟨rfl, rfl, rfl, rfl⟩

theorem setPhase_self {phase : Phase} (h : s.threads[i]? = some phase) (next : Phase) :
    (s.threads.set i next)[i]? = some next := by
  obtain ⟨hi, -⟩ := List.getElem?_eq_some_iff.mp h
  rw [List.getElem?_set_self hi]

theorem Effect.threads_eq {phase : Phase} (h : Effect listenerOf s i phase t) :
    ∃ next, t.threads = s.threads.set i next := by
  cases h with
  | moved | handed | recorded | stored => exact ⟨_, rfl⟩

theorem Effect.others {phase : Phase} (h : Effect listenerOf s i phase t) (hj : j ≠ i) :
    t.threads[j]? = s.threads[j]? := by
  obtain ⟨next, hthreads⟩ := h.threads_eq
  rw [hthreads, List.getElem?_set_ne hj.symm]

theorem Effect.outside {phase : Phase} (h : Effect listenerOf s i phase t) :
    t.run = s.run ∧ t.signalled = s.signalled ∧ t.httpEnded = s.httpEnded := by
  cases h with
  | moved | handed | recorded | stored => exact ⟨rfl, rfl, rfl⟩

/-- A phase that follows without an effect has as little failed as the one before. -/
theorem Phase.Follows.failure {flag : Bool} {phase next : Phase} (h : phase.Follows flag next) :
    phase.failure = none ∧ next.failure = none := by
  cases h with
  | socket stage answer =>
    refine ⟨rfl, ?_⟩
    cases answer with
    | none => cases stage <;> rfl
    | some e =>
      rw [Stage.answered]
      split_ifs
      · rfl
      · rfl
  | recv result =>
    refine ⟨rfl, ?_⟩
    cases result with
    | ok frame => rfl
    | error e =>
      rw [received]
      split_ifs
      · rfl
      · rfl
  | head => cases flag <;> exact ⟨rfl, rfl⟩
  | error e => cases flag <;> exact ⟨rfl, rfl⟩

end Steps

/-! ### What holds in every state -/

/-- The thread has stored the flag. -/
def Phase.stored : Phase → Bool
  | .ended (some _) => true
  | _ => false

structure Inv (listenerOf : ℕ → ℕ) (s : State) : Prop where
  flag : s.flag = true ↔ s.run = .joining ∨
    ∃ (i : ℕ) (phase : Phase), s.threads[i]? = some phase ∧ phase.stored = true
  failures : ∀ i e, (i, e) ∈ s.failures ↔ ∃ phase, s.threads[i]? = some phase ∧
    phase.failure = some e
  slot : ∀ k, s.slots k = s.failures.find? fun f ↦ listenerOf f.1 == k
  run : s.run ≠ .serving → s.signalled = true ∨ s.httpEnded = true

section Invariant

variable {listenerOf : ℕ → ℕ} {s t : State} {l : Label} {i : ℕ}

theorem inv_init (listenerOf : ℕ → ℕ) (slaves : ℕ) : Inv listenerOf (.init slaves) where
  flag := by
    refine iff_of_false Bool.false_ne_true ?_
    rintro (h | ⟨i, phase, hphase, hstored⟩)
    · cases h
    · rw [(List.mem_replicate.mp (List.mem_of_getElem? hphase)).2] at hstored
      cases hstored
  failures i e := by
    refine iff_of_false List.not_mem_nil ?_
    rintro ⟨phase, hphase, hfailure⟩
    rw [(List.mem_replicate.mp (List.mem_of_getElem? hphase)).2] at hfailure
    cases hfailure
  slot _ := rfl
  run h := absurd rfl h

theorem stored_of_failure {phase : Phase} (h : phase.failure = none) : phase.stored = false := by
  cases phase with
  | ended failure =>
    obtain rfl : failure = none := h
    rfl
  | opening | looping | receiving | dispatching | erred | failing | storing => rfl

/-- Whether some thread has a property, when one that has not got it moves. -/
theorem exists_moved {holds : Phase → Prop} {phase next : Phase}
    (hphase : s.threads[i]? = some phase) (hbefore : ¬holds phase) :
    (∃ (j : ℕ) (p : Phase), (s.threads.set i next)[j]? = some p ∧ holds p) ↔
      holds next ∨ ∃ (j : ℕ) (p : Phase), s.threads[j]? = some p ∧ holds p := by
  constructor
  · rintro ⟨j, p, hp, hholds⟩
    by_cases hj : j = i
    · subst hj
      rw [setPhase_self hphase, Option.some.injEq] at hp
      exact .inl (hp ▸ hholds)
    · rw [List.getElem?_set_ne (Ne.symm hj)] at hp
      exact .inr ⟨j, p, hp, hholds⟩
  · rintro (hholds | ⟨j, p, hp, hholds⟩)
    · exact ⟨i, next, setPhase_self hphase next, hholds⟩
    · have hj : j ≠ i := by
        rintro rfl
        rw [hphase, Option.some.injEq] at hp
        exact hbefore (hp ▸ hholds)
      exact ⟨j, p, by rw [List.getElem?_set_ne hj.symm, hp], hholds⟩

/-- What a thread that moves has to do with the failures of the others. -/
theorem exists_failure {phase next : Phase} (hphase : s.threads[i]? = some phase) (k : ℕ)
    (e : FfiError) :
    (∃ p, (s.threads.set i next)[k]? = some p ∧ p.failure = some e) ↔
      k = i ∧ next.failure = some e ∨
        k ≠ i ∧ ∃ p, s.threads[k]? = some p ∧ p.failure = some e := by
  by_cases hk : k = i
  · subst hk
    simp [setPhase_self hphase]
  · simp [List.getElem?_set_ne (Ne.symm hk), hk]

/-- A thread moves between phases without a failure, and nothing else changes. -/
theorem Inv.moved {phase next : Phase} (h : Inv listenerOf s)
    (hphase : s.threads[i]? = some phase) (hbefore : phase.failure = none)
    (hafter : next.failure = none) (frames : List (ℕ × List UInt8)) :
    Inv listenerOf { s.setPhase i next with handed := frames } where
  flag := by
    refine h.flag.trans (or_congr_right ?_)
    have hnot : ¬phase.stored = true := by
      rw [stored_of_failure hbefore]
      exact Bool.false_ne_true
    refine Iff.trans ?_ (exists_moved hphase hnot).symm
    rw [stored_of_failure hafter]
    simp
  failures k e := by
    refine Iff.trans ?_ (exists_failure hphase k e).symm
    rw [show (State.setPhase s i next).failures = s.failures from rfl, h.failures, hafter]
    by_cases hk : k = i
    · subst hk
      simp [hphase, hbefore]
    · simp [hk]
  slot := h.slot
  run := h.run

theorem Inv.recorded {e : FfiError} (h : Inv listenerOf s)
    (hphase : s.threads[i]? = some (.failing e)) : Inv listenerOf
      { s.setPhase i (.storing e) with
        slots := Function.update s.slots (listenerOf i) ((s.slots (listenerOf i)).or (some (i, e)))
        failures := s.failures ++ [(i, e)] } where
  flag := by
    refine h.flag.trans (or_congr_right ?_)
    refine Iff.trans ?_ (exists_moved hphase Bool.false_ne_true).symm
    simp [Phase.stored]
  failures k e' := by
    refine Iff.trans ?_ (exists_failure hphase k e').symm
    rw [List.mem_append, h.failures, List.mem_singleton, Prod.mk.injEq]
    by_cases hk : k = i
    · subst hk
      simp [hphase, Phase.failure, eq_comm]
    · simp [hk]
  slot k := by
    show Function.update s.slots (listenerOf i) _ k = _
    rw [List.find?_append, ← h.slot]
    by_cases hk : k = listenerOf i
    · subst hk
      simp
    · rw [Function.update_of_ne hk]
      simp [Ne.symm hk]
  run := h.run

theorem Inv.stored {e : FfiError} (h : Inv listenerOf s)
    (hphase : s.threads[i]? = some (.storing e)) :
    Inv listenerOf { s.setPhase i (.ended (some e)) with flag := true } where
  flag := iff_of_true rfl (.inr ⟨i, _, setPhase_self hphase _, rfl⟩)
  failures k e' := by
    refine Iff.trans ?_ (exists_failure hphase k e').symm
    rw [show (State.setPhase s i (.ended (some e))).failures = s.failures from rfl, h.failures]
    by_cases hk : k = i
    · subst hk
      simp [hphase, Phase.failure]
    · simp [hk]
  slot := h.slot
  run := h.run

theorem Inv.effect {phase : Phase} (h : Inv listenerOf s) (hphase : s.threads[i]? = some phase)
    (heffect : Effect listenerOf s i phase t) : Inv listenerOf t := by
  cases heffect with
  | moved hfollows => exact h.moved hphase hfollows.failure.1 hfollows.failure.2 s.handed
  | handed frame => exact h.moved hphase rfl rfl (s.handed ++ [(i, frame)])
  | recorded e => exact h.recorded hphase
  | stored e => exact h.stored hphase

theorem Inv.step (h : Inv listenerOf s) (hstep : step listenerOf s l = some t) :
    Inv listenerOf t := by
  cases hmover : l.mover with
  | some i =>
    obtain ⟨phase, hphase, heffect⟩ := effect_of_step hstep hmover
    exact h.effect hphase heffect
  | none =>
    cases l with
    | socket | recv | thread => cases hmover
    | signal =>
      obtain rfl := Option.some.inj hstep
      exact ⟨h.flag, h.failures, h.slot, fun _ ↦ .inl rfl⟩
    | httpEnds =>
      obtain rfl := Option.some.inj hstep
      exact ⟨h.flag, h.failures, h.slot, fun _ ↦ .inr rfl⟩
    | run =>
      simp only [Listeners.step, runStep] at hstep
      split at hstep
      · rename_i hrun
        obtain rfl := Option.some.inj hstep
        refine ⟨h.flag.trans (or_congr_left ?_), h.failures, h.slot, fun hleft ↦ ?_⟩
        · rw [hrun]
          split_ifs <;> simp
        · by_contra hquiet
          refine hleft (if_neg ?_)
          rwa [Bool.or_eq_true]
      · rename_i hrun
        obtain rfl := Option.some.inj hstep
        refine ⟨iff_of_true rfl (.inl rfl), h.failures, h.slot, fun _ ↦ h.run ?_⟩
        rw [hrun]
        decide
      · cases hstep

theorem reachable_inv {slaves : ℕ} (h : Reachable (Listeners.step listenerOf) (.init slaves) s) :
    Inv listenerOf s :=
  h.invariant (inv_init listenerOf slaves) Inv.step

end Invariant

/-! ### With the flag set -/

/-- The calls of `run_slave` from this one to the loop. -/
def Stage.left : Stage → ℕ
  | .ifaceIndex => 6
  | .openPacketSocket => 5
  | .bindToIfindex => 4
  | .setPromisc => 3
  | .attachFilter => 2
  | .setRcvtimeo => 1

/-- The steps that the thread of a slave takes at most before it ends, once the flag is set. -/
def Phase.stepsLeft : Phase → ℕ
  | .opening stage => stage.left + 1
  | .receiving => 3
  | .dispatching _ | .failing _ => 2
  | .looping | .erred _ | .storing _ => 1
  | .ended _ => 0

/-- The frames that it still hands on. -/
def Phase.framesLeft : Phase → ℕ
  | .receiving | .dispatching _ => 1
  | _ => 0

theorem Phase.stepsLeft_le (phase : Phase) : phase.stepsLeft ≤ 7 := by
  cases phase with
  | opening stage => cases stage <;> decide
  | looping | receiving | dispatching | erred | failing | storing | ended =>
    simp only [Phase.stepsLeft]
    decide

theorem Phase.framesLeft_le (phase : Phase) : phase.framesLeft ≤ 1 := by
  cases phase with
  | receiving | dispatching => exact Nat.le_refl 1
  | opening | looping | erred | failing | storing | ended => exact Nat.le_succ 0

/-- The frames of a slave that went to the callbacks. -/
def State.framesOf (s : State) (i : ℕ) : ℕ :=
  s.handed.countP fun entry ↦ entry.1 = i

def State.stepsLeft (s : State) (i : ℕ) : ℕ :=
  (s.threads[i]?.map Phase.stepsLeft).getD 0

def State.framesLeft (s : State) (i : ℕ) : ℕ :=
  (s.threads[i]?.map Phase.framesLeft).getD 0

theorem State.stepsLeft_le (s : State) (i : ℕ) : s.stepsLeft i ≤ 7 := by
  rw [State.stepsLeft]
  cases s.threads[i]? with
  | none => decide
  | some phase => exact phase.stepsLeft_le

theorem State.framesLeft_le (s : State) (i : ℕ) : s.framesLeft i ≤ 1 := by
  rw [State.framesLeft]
  cases s.threads[i]? with
  | none => decide
  | some phase => exact phase.framesLeft_le

/-- From one state with the flag to a later one, in which a slave has taken a number of steps. -/
structure Stopping (i : ℕ) (s t : State) (steps : ℕ) : Prop where
  flag : t.flag = true
  steps : steps + t.stepsLeft i ≤ s.stepsLeft i
  frames : t.framesOf i + t.framesLeft i ≤ s.framesOf i + s.framesLeft i

section Stop

variable {listenerOf : ℕ → ℕ} {s t u : State} {l : Label} {i j : ℕ}

theorem Stopping.trans {m n : ℕ} (h : Stopping i s t m) (h' : Stopping i t u n) :
    Stopping i s u (m + n) where
  flag := h'.flag
  steps := by
    have := h.steps
    have := h'.steps
    omega
  frames := Nat.le_trans h'.frames h.frames

/-- A step of which the slave notices nothing but perhaps the flag. -/
theorem Stopping.of_same (hflag : t.flag = true) (hthread : t.threads[i]? = s.threads[i]?)
    (hframes : t.framesOf i = s.framesOf i) : Stopping i s t 0 where
  flag := hflag
  steps := by rw [State.stepsLeft, hthread, Nat.zero_add, State.stepsLeft]
  frames := by rw [State.framesLeft, hthread, hframes, State.framesLeft]

theorem Stage.left_next {stage next : Stage} (h : stage.next = some next) :
    next.left + 1 = stage.left := by
  cases stage with
  | setRcvtimeo => cases h
  | ifaceIndex | openPacketSocket | bindToIfindex | setPromisc | attachFilter =>
    obtain rfl := Option.some.inj h
    rfl

/-- With the flag set, a phase that follows is nearer to the end. -/
theorem Phase.Follows.nearer {phase next : Phase} (h : phase.Follows true next) :
    1 + next.stepsLeft ≤ phase.stepsLeft ∧ next.framesLeft ≤ phase.framesLeft := by
  cases h with
  | socket stage answer =>
    cases answer with
    | some e => cases stage <;> exact ⟨by simp [Stage.answered, stepsLeft, Stage.left], by
        simp [Stage.answered, framesLeft]⟩
    | none =>
      cases hnext : stage.next with
      | some next =>
        have hleft := Stage.left_next hnext
        simp only [Stage.answered, hnext]
        refine ⟨?_, Nat.le_refl 0⟩
        show 1 + (next.left + 1) ≤ stage.left + 1
        omega
      | none =>
        simp only [Stage.answered, hnext]
        refine ⟨?_, Nat.le_refl 0⟩
        show 2 ≤ stage.left + 1
        cases stage <;> decide
  | recv result =>
    cases result with
    | ok frame => exact ⟨Nat.le_refl 3, Nat.le_refl 1⟩
    | error e =>
      rw [received]
      split_ifs <;> exact ⟨Nat.le_succ 2, Nat.le_succ 0⟩
  | head => exact ⟨Nat.le_refl 1, Nat.le_refl 0⟩
  | error e => exact ⟨Nat.le_refl 1, Nat.le_refl 0⟩

theorem framesOf_snoc (handed : List (ℕ × List UInt8)) (frame : List UInt8) (i j : ℕ) :
    (handed ++ [(i, frame)]).countP (fun entry ↦ entry.1 = j) =
      handed.countP (fun entry ↦ entry.1 = j) + if i = j then 1 else 0 := by
  rw [List.countP_append, List.countP_singleton]
  simp

/-- The slave moves on to a phase that is nearer to its end. -/
theorem Stopping.of_phase {phase next : Phase} (hflag : t.flag = true)
    (hphase : s.threads[i]? = some phase) (hnext : t.threads[i]? = some next)
    (hsteps : 1 + next.stepsLeft ≤ phase.stepsLeft)
    (hframes : t.framesOf i + next.framesLeft ≤ s.framesOf i + phase.framesLeft) :
    Stopping i s t 1 where
  flag := hflag
  steps := by
    rw [State.stepsLeft, State.stepsLeft, hphase, hnext]
    exact hsteps
  frames := by
    rw [State.framesLeft, State.framesLeft, hphase, hnext]
    exact hframes

theorem Effect.stopping {phase : Phase} (h : Effect listenerOf s i phase t)
    (hphase : s.threads[i]? = some phase) (hflag : s.flag = true) : Stopping i s t 1 := by
  cases h with
  | moved hfollows =>
    rw [hflag] at hfollows
    have hnearer := hfollows.nearer
    exact .of_phase hflag hphase (setPhase_self hphase _) hnearer.1
      (Nat.add_le_add_left hnearer.2 _)
  | handed frame =>
    refine .of_phase hflag hphase (setPhase_self hphase _) (Nat.le_refl 2) ?_
    show (s.handed ++ [(i, frame)]).countP (fun entry ↦ entry.1 = i) + 0 ≤ _
    rw [framesOf_snoc, if_pos rfl]
    exact Nat.le_refl _
  | recorded e =>
    exact .of_phase hflag hphase (setPhase_self hphase _) (Nat.le_refl 2) (Nat.le_refl _)
  | stored e => exact .of_phase rfl hphase (setPhase_self hphase _) (Nat.le_refl 1) (Nat.le_refl _)

theorem Effect.keeps_flag {phase : Phase} (h : Effect listenerOf s i phase t)
    (hflag : s.flag = true) : t.flag = true := by
  cases h with
  | moved | handed | recorded => exact hflag
  | stored => rfl

/-- The step of one slave does not count among the frames of another one. -/
theorem Effect.others_frames {phase : Phase} (h : Effect listenerOf s i phase t) (hj : j ≠ i) :
    t.framesOf j = s.framesOf j := by
  cases h with
  | moved | recorded | stored => rfl
  | handed frame =>
    show (s.handed ++ [(i, frame)]).countP (fun entry ↦ entry.1 = j) = _
    rw [framesOf_snoc, if_neg hj.symm]
    rfl

theorem flag_of_step (h : step listenerOf s l = some t) (hflag : s.flag = true) :
    t.flag = true := by
  cases hmover : l.mover with
  | some i =>
    obtain ⟨phase, -, heffect⟩ := effect_of_step h hmover
    exact heffect.keeps_flag hflag
  | none =>
    cases l with
    | socket | recv | thread => cases hmover
    | signal | httpEnds =>
      obtain rfl := Option.some.inj h
      exact hflag
    | run =>
      simp only [step, runStep] at h
      split at h
      · obtain rfl := Option.some.inj h
        exact hflag
      · obtain rfl := Option.some.inj h
        rfl
      · cases h

theorem stopping_step (i : ℕ) (hflag : s.flag = true) (h : step listenerOf s l = some t) :
    Stopping i s t ([l].countP fun l ↦ l.mover = some i) := by
  rw [List.countP_singleton]
  cases hmover : l.mover with
  | none =>
    obtain ⟨hthreads, -, hhanded, -⟩ := outside_of_step h hmover
    refine .of_same (flag_of_step h hflag) (by rw [hthreads]) ?_
    rw [State.framesOf, hhanded, State.framesOf]
  | some k =>
    obtain ⟨phase, hphase, heffect⟩ := effect_of_step h hmover
    by_cases hk : k = i
    · subst hk
      simpa using heffect.stopping hphase hflag
    · have hother : ¬some k = some i := fun heq ↦ hk (Option.some.inj heq)
      rw [decide_eq_false hother]
      exact .of_same (heffect.keeps_flag hflag) (heffect.others (Ne.symm hk))
        (heffect.others_frames (Ne.symm hk))

theorem stopping_exec (i : ℕ) {labels : List Label} (hflag : s.flag = true)
    (hrun : exec (step listenerOf) s labels = some t) :
    Stopping i s t (labels.countP fun l ↦ l.mover = some i) := by
  induction labels generalizing s with
  | nil =>
    obtain rfl := Option.some.inj hrun
    exact .of_same hflag rfl rfl
  | cons l labels ih =>
    obtain ⟨v, hfirst, hrest⟩ := exec_cons_eq_some.mp hrun
    have hstep := stopping_step i hflag hfirst
    have htrans := hstep.trans (ih hstep.flag hrest)
    rwa [← List.countP_append] at htrans

/-- A thread that has not ended can go on. -/
theorem exists_step {phase : Phase} (hphase : s.threads[i]? = some phase)
    (h : ∀ failure, phase ≠ .ended failure) :
    ∃ l t, l.mover = some i ∧ step listenerOf s l = some t := by
  cases phase with
  | opening stage =>
    refine ⟨.socket i none, s.setPhase i (stage.answered none), rfl, ?_⟩
    simp only [step, hphase]
  | receiving =>
    refine ⟨.recv i (.ok []), s.setPhase i (.dispatching []), rfl, ?_⟩
    simp only [step, hphase, received]
  | ended failure => exact absurd rfl (h failure)
  | looping | dispatching | erred | failing | storing =>
    exact ⟨.thread i, _, rfl, congrArg (Option.bind · _) hphase⟩

end Stop

/-! ### What the flag does elsewhere -/

/-- An unlock whose cancel flag is set asks the door station for nothing. -/
theorem executeUnlock_canceled {σ : Type} (env : Env σ) (listener : Option (Subscribable σ))
    (args : UnlockArgs) (u : σ) (hcancel : ∀ u, (env.cancelLoad u).1 = true) :
    calls (executeUnlock env listener args u).1.events = [] ∧
      (executeUnlock env listener args u).1.outcome = ⟨NO_RING, 0, false, none⟩ := by
  have hstopped : ∀ bye v, calls (runUnlockWithRetry env args bye v).1 = [] := by
    intro bye v
    simp only [runUnlockWithRetry, retryLoop]
    split
    · rfl
    · rename_i w hw
      split
      · rfl
      · rename_i x hx
        have hset := hcancel w
        rw [hx] at hset
        cases hset
  obtain ⟨bye, v, heq⟩ := executeUnlock_outcome env listener args u
  have hresult := (runUnlockWithRetry_shape env args bye v).result_of_calls_eq_nil (hstopped bye v)
  rw [heq]
  refine ⟨hstopped bye v, ?_⟩
  show (classify env _ _).2.1 = _
  rw [hresult]
  rfl

/-! ### How a failure spreads -/

theorem stored_iff {phase : Phase} : phase.stored = true ↔ ∃ e, phase = .ended (some e) := by
  constructor
  · intro h
    cases phase with
    | ended failure =>
      cases failure with
      | none => cases h
      | some e => exact ⟨e, rfl⟩
    | opening | looping | receiving | dispatching | erred | failing | storing => cases h
  · rintro ⟨e, rfl⟩
    rfl

/-- The flag is set by the thread of a slave or by `run`. -/
theorem Inv.flag_iff {listenerOf : ℕ → ℕ} {s : State} (h : Inv listenerOf s) :
    s.flag = true ↔ s.run = .joining ∨
      ∃ (i : ℕ) (e : FfiError), s.threads[i]? = some (.ended (some e)) := by
  refine h.flag.trans (or_congr_right ?_)
  constructor
  · rintro ⟨i, phase, hphase, hstored⟩
    obtain ⟨e, rfl⟩ := stored_iff.mp hstored
    exact ⟨i, e, hphase⟩
  · rintro ⟨i, e, hphase⟩
    exact ⟨i, _, hphase, rfl⟩

/-- The steps of a slave between a receive that fails for good and the store of the flag. -/
def failingRun (i : ℕ) (e : FfiError) : List Label :=
  [.recv i (.error e), .thread i, .thread i, .thread i]

theorem exec_failingRun {listenerOf : ℕ → ℕ} {s : State} {i : ℕ} {e : FfiError}
    (hflag : s.flag = false) (hphase : s.threads[i]? = some .receiving)
    (he : e.retries = false) :
    ∃ t, exec (step listenerOf) s (failingRun i e) = some t ∧ t.flag = true ∧ t.run = s.run := by
  have hrecv : step listenerOf s (.recv i (.error e)) = some (s.setPhase i (.erred e)) := by
    simp only [step, hphase, received, he, Bool.false_eq_true, if_false]
  have herred := setPhase_self hphase (.erred e)
  have hfatal : step listenerOf (s.setPhase i (.erred e)) (.thread i) =
      some ((s.setPhase i (.erred e)).setPhase i (.failing e)) := by
    refine (congrArg (Option.bind · _) herred).trans ?_
    show some (State.setPhase _ i (if s.flag then .ended none else .failing e)) = _
    rw [hflag]
    rfl
  have hfailing := setPhase_self (s := s.setPhase i (.erred e)) herred (.failing e)
  -- The slot is written and then the flag, both without a look at anything.
  refine ⟨_, exec_cons_eq_some.mpr ⟨_, hrecv, exec_cons_eq_some.mpr ⟨_, hfatal,
    exec_cons_eq_some.mpr ⟨_, congrArg (Option.bind · _) hfailing, exec_cons_eq_some.mpr
      ⟨_, congrArg (Option.bind · _) (setPhase_self hfailing (.storing e)), rfl⟩⟩⟩⟩, rfl, rfl⟩

/-- In every state that the threads of the listeners come to: the flag is set exactly if `run` has
set it behind its loop or a slave has failed, the error of a listener is the first one of its
slaves, and `run` leaves its loop for nothing but a signal or the end of the HTTP server. A slave
that fails sets the flag and `run` stays where it is. From there on every slave comes to its end
within seven steps and hands on one more frame at most, an unlock under way makes one more call to
the door station at most, one that begins then makes none, and only those pushes still begin whose
threads have taken their last look at the flag before. -/
theorem slave_failure_spreads {listenerOf : ℕ → ℕ} {slaves : ℕ} {s : State}
    (h : Reachable (step listenerOf) (.init slaves) s) :
    (s.flag = true ↔ s.run = .joining ∨
      ∃ (i : ℕ) (e : FfiError), s.threads[i]? = some (.ended (some e))) ∧
    (∀ k, s.slots k = s.failures.find? fun f ↦ listenerOf f.1 == k) ∧
    (∀ i e, (i, e) ∈ s.failures ↔
      ∃ phase, s.threads[i]? = some phase ∧ phase.failure = some e) ∧
    (s.run ≠ .serving → s.signalled = true ∨ s.httpEnded = true) ∧
    (∀ i e, s.flag = false → s.threads[i]? = some .receiving → e.retries = false →
      ∃ t, exec (step listenerOf) s (failingRun i e) = some t ∧ t.flag = true ∧
        t.run = s.run) ∧
    (∀ i phase, s.threads[i]? = some phase → (∀ failure, phase ≠ .ended failure) →
      ∃ l t, l.mover = some i ∧ step listenerOf s l = some t) ∧
    (s.flag = true →
      (∀ labels t, exec (step listenerOf) s labels = some t → t.flag = true ∧
        ∀ i, labels.countP (fun l ↦ l.mover = some i) ≤ 7 ∧
          t.framesOf i ≤ s.framesOf i + 1) ∧
      (∀ (σ : Type) (env : Env σ) (flag : σ → Bool) (args : UnlockArgs) (bye : Bool) (u v : σ)
        (before after : List Event), Flagged env flag →
          (runUnlockWithRetry env args bye u).1 = before ++ after →
          replay env args bye before u = some v → flag v = s.flag →
          (calls after).length ≤ 1 ∧ (before = [] → calls after = [])) ∧
      (∀ (σ : Type) (env : Env σ) (listener : Option (Subscribable σ)) (args : UnlockArgs) (u : σ),
        (∀ u, (env.cancelLoad u).1 = s.flag) →
          calls (executeUnlock env listener args u).1.events = [] ∧
          (executeUnlock env listener args u).1.outcome = ⟨NO_RING, 0, false, none⟩) ∧
      ∀ (p q : Pushes.State) (labels : List Pushes.Label), p.shutdown = s.flag →
        exec Pushes.step p labels = some q → ∃ new, q.pushed = p.pushed ++ new ∧
          ∀ e ∈ new, ∃ thread, p.threads[e.1]? = some thread ∧ thread.phase = .ready) := by
  have hinv := reachable_inv h
  refine ⟨hinv.flag_iff, hinv.slot, hinv.failures, hinv.run,
    fun i e hflag hphase he ↦ exec_failingRun hflag hphase he,
    fun i phase hphase hends ↦ exists_step hphase hends, fun hflag ↦ ⟨?_, ?_, ?_, ?_⟩⟩
  · intro labels t hrun
    refine ⟨(stopping_exec 0 hflag hrun).flag, fun i ↦ ?_⟩
    have hstop := stopping_exec i hflag hrun
    constructor
    · calc labels.countP (fun l ↦ l.mover = some i)
          ≤ labels.countP (fun l ↦ l.mover = some i) + t.stepsLeft i := Nat.le_add_right _ _
        _ ≤ s.stepsLeft i := hstop.steps
        _ ≤ 7 := s.stepsLeft_le i
    · calc t.framesOf i
          ≤ t.framesOf i + t.framesLeft i := Nat.le_add_right _ _
        _ ≤ s.framesOf i + s.framesLeft i := hstop.frames
        _ ≤ s.framesOf i + 1 := Nat.add_le_add_left (s.framesLeft_le i) _
  · intro σ env flag args bye u v before after hflagged hsplit hbefore hset
    exact calls_behind_flag hflagged hsplit hbefore (hset.trans hflag)
  · intro σ env listener args u hcancel
    exact executeUnlock_canceled env listener args u fun v ↦ (hcancel v).trans hflag
  · intro p q labels hshutdown hrun
    exact (Pushes.behind_exec hrun (hshutdown.trans hflag)).pushed

/-- `ENETDOWN` on the socket of a slave. -/
def linkDown : FfiError :=
  .syscall "recvfrom" 100

/-- A slave opens its socket and goes into its loop. -/
def startRun (i : ℕ) : List Label :=
  List.replicate 6 (.socket i none) ++ [.thread i]

/-- Two listeners with one slave each, of which the first has lost its link. -/
def oneDown : State where
  threads := [.ended (some linkDown), .receiving]
  slots := Function.update (fun _ ↦ none) 0 (some (0, linkDown))
  flag := true
  run := .serving
  signalled := false
  httpEnded := false
  handed := []
  failures := [(0, linkDown)]

/-- The other slave has handed on a last frame. -/
def bothEnded : State :=
  { oneDown with threads := [.ended (some linkDown), .ended none], handed := [(1, [0])] }

theorem slave_failure_spreads_oneDown :
    oneDown.run = .serving ∧
    exec (step fun i ↦ i) oneDown [.recv 1 (.ok [0]), .thread 1, .thread 1] = some bothEnded ∧
    bothEnded.flag = true ∧ bothEnded.framesOf 1 ≤ oneDown.framesOf 1 + 1 := by
  have hreach : Reachable (step fun i ↦ i) (.init 2) oneDown :=
    ⟨startRun 0 ++ startRun 1 ++ failingRun 0 linkDown, rfl⟩
  have hrun : exec (step fun i ↦ i) oneDown [.recv 1 (.ok [0]), .thread 1, .thread 1] =
      some bothEnded := rfl
  obtain ⟨-, -, -, -, -, -, hset⟩ := slave_failure_spreads hreach
  obtain ⟨hflag, hslaves⟩ := (hset rfl).1 _ _ hrun
  exact ⟨rfl, hrun, hflag, (hslaves 1).2⟩

end DoorAccess.Daemon.Listeners
