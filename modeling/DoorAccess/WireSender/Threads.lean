import DoorAccess.Lib.Transition
import DoorAccess.WireSender

/-!
# The threads behind one send

`send_context` opens a socket, waits for the connection in slices of 100 ms, and while it writes and
reads a second thread watches the cancel flag and the deadline and shuts the socket down. The
watcher reads the flag of the caller through a raw pointer, and the end of the stream that the
caller of `read` sees may come from the door station or from the watcher.

The machine has the calling thread, the watcher, the door station, the flag and the clock, in every
interleaving and with any answers of the system. `observed` is the `Link` that a run shows: the
answers of the calls, the flag and the clock where they were read, and the segments that a read
found. `send_sound` says that a call returns what the exchange over this `Link` gives, so that the
results about a `Link` are results about these threads, that a silent end is reported only if it is
the door station that closed, and that the watcher is gone and every descriptor is closed when the
call returns.
-/

set_option autoImplicit false
set_option relaxedAutoImplicit false

namespace DoorAccess.WireSender.Threads

open Transition

/-- What a call of `send_context` is made with, once the addresses are known. -/
structure Config where
  /-- The socket is bound to an interface. -/
  iface : Bool
  localIp : Bool
  wantRecv : Bool
  deadline : ℕ

/-- The system calls that either succeed or fail with the name of their stage. -/
inductive Call
  | socket
  | bindDevice
  | getFlags
  | setFlags
  | bindLocal
  | getFlagsBack
  | setFlagsBack
  | setWriteTimeout
  | setReadTimeout
  deriving DecidableEq

def Call.stage : Call → String
  | socket => "socket"
  | bindDevice => "SO_BINDTODEVICE"
  | getFlags | getFlagsBack => "fcntl-getfl"
  | setFlags | setFlagsBack => "fcntl-setfl"
  | bindLocal => "bind-local"
  | setWriteTimeout => "set_write_timeout"
  | setReadTimeout => "set_read_timeout"

abbrev Outcome := Except WireError (Option (List UInt8))

/-- Where the calling thread is. -/
inductive Phase
  | call (c : Call)
  | connect
  /-- In `wait_connect`, before it loads the flag. -/
  | pollCancel
  /-- In `wait_connect`, before it looks at the clock. -/
  | pollClock
  | polling
  /-- Before `getsockopt(SO_ERROR)`. -/
  | soError
  /-- Before `CancelWatcher::spawn`. -/
  | spawning
  /-- Before the flag is loaded ahead of the write. -/
  | cancelCheck
  | writing
  | reading
  /-- Behind a read of no bytes, before the flag is loaded. -/
  | eofCancel
  /-- Behind a read of no bytes, before the clock is read. -/
  | eofClock
  /-- In `classify_io`, before the flag is loaded. -/
  | classifying (stage : String) (err : IoError)
  /-- With a result, before the watcher is dropped. -/
  | finished (outcome : Outcome)
  /-- In the `join` of the watcher. -/
  | joining (outcome : Outcome)
  | returned (outcome : Outcome)
  deriving DecidableEq

/-- Where the watcher is. -/
inductive Watcher
  | unborn
  | checkDone
  | checkCancel
  | checkClock
  | shutting
  | sleeping
  | returned
  deriving DecidableEq

structure State where
  now : ℕ
  cancel : Bool
  /-- What the door station has sent, and whether it has closed its side. -/
  delivered : List (List UInt8)
  peerClosed : Bool
  shut : Bool
  /-- The descriptor of the call, and the copy of the watcher. -/
  fd : Bool
  copy : Bool
  done : Bool
  main : Phase
  watcher : Watcher
  deriving DecidableEq

def State.start (now : ℕ) (cancel : Bool) : State where
  now := now
  cancel := cancel
  delivered := []
  peerClosed := false
  shut := false
  fd := false
  copy := false
  done := false
  main := .call .socket
  watcher := .unborn

/-- What the system answers to the call of a step, which a step without a call does not look at. -/
inductive Answer
  | ok
  | inProgress
  /-- `EINTR`, or a `poll` whose slice is over. -/
  | again
  /-- `SO_ERROR` says that the connection failed. -/
  | refused (err : IoError)
  | fails (err : IoError)
  deriving DecidableEq

inductive Label
  | tick (duration : ℕ)
  | setCancel
  | deliver (segment : List UInt8)
  | peerClose
  | main (answer : Answer)
  | watcher
  deriving DecidableEq

def Label.isWatcher : Label → Bool
  | watcher => true
  | _ => false

/-! ### The calling thread -/

/-- Where a call that succeeds leads. -/
def Call.next (cfg : Config) : Call → Phase
  | socket => .call (if cfg.iface then bindDevice else getFlags)
  | bindDevice => .call getFlags
  | getFlags => .call setFlags
  | setFlags => if cfg.localIp then .call bindLocal else .connect
  | bindLocal => .connect
  | getFlagsBack => .call setFlagsBack
  | setFlagsBack => .spawning
  | setWriteTimeout => .cancelCheck
  | setReadTimeout => .reading

def fail (s : State) (err : WireError) : State :=
  { s with main := .finished (.error err) }

/-- The calling thread from `socket` to the end of `connect_manual`. -/
def connectStep (cfg : Config) (s : State) : Phase → Answer → Option State
  | .call c, .ok => some { s with fd := s.fd || c == .socket, main := c.next cfg }
  | .call c, .fails err => some (fail s (.io c.stage err))
  | .connect, .ok => some { s with main := .call .getFlagsBack }
  | .connect, .inProgress => some { s with main := .pollCancel }
  | .connect, .fails err => some { s with main := .classifying "connect" err }
  | .pollCancel, _ =>
    some (if s.cancel then fail s (.canceled "connect") else { s with main := .pollClock })
  | .pollClock, _ =>
    some (if cfg.deadline ≤ s.now then fail s (.timeout "connect") else { s with main := .polling })
  | .polling, .again => some { s with main := .pollCancel }
  | .polling, .fails err => some (fail s (.io "connect-poll" err))
  | .polling, .ok => some { s with main := .soError }
  | .soError, .ok => some { s with main := .call .getFlagsBack }
  | .soError, .refused err => some { s with main := .classifying "connect" err }
  | .soError, .fails err => some (fail s (.io "connect-getsockopt" err))
  | _, _ => none

/-- `read` into the buffer: a segment, the end of the stream, or a wait. -/
def readStep (s : State) : Option State :=
  match s.delivered with
  | segment :: _ => some { s with main := .finished (.ok (some (segment.take MAX_RECV_BYTES))) }
  | [] => if s.peerClosed || s.shut then some { s with main := .eofCancel } else none

/-- `write_then_read`, with the watcher around it. -/
def exchangeStep (cfg : Config) (s : State) : Phase → Answer → Option State
  | .spawning, .ok =>
    some { s with copy := true, watcher := .checkDone, main := .call .setWriteTimeout }
  -- `try_clone` fails, and the watcher has nothing to shut down.
  | .spawning, .fails _ => some { s with watcher := .checkDone, main := .call .setWriteTimeout }
  | .cancelCheck, _ =>
    some (if s.cancel then fail s (.canceled "write") else { s with main := .writing })
  | .writing, .ok =>
    some { s with main := if cfg.wantRecv then .call .setReadTimeout else .finished (.ok none) }
  | .writing, .fails err => some { s with main := .classifying "write" err }
  | .reading, .ok => readStep s
  | .reading, .fails err => some { s with main := .classifying "read" err }
  | .eofCancel, _ =>
    some (if s.cancel then fail s (.canceled "read") else { s with main := .eofClock })
  | .eofClock, _ =>
    some (fail s (if cfg.deadline ≤ s.now then .timeout "read" else .silentFin))
  | .classifying stage err, _ => some (fail s (classifyIo err stage s.cancel))
  | _, _ => none

/-- What is dropped at the end: the watcher, if there is one, and the socket behind it. -/
def dropStep (s : State) : Phase → Option State
  | .finished outcome =>
    if s.watcher = .unborn then some { s with fd := false, main := .returned outcome }
    else some { s with done := true, main := .joining outcome }
  | .joining outcome =>
    if s.watcher = .returned then some { s with fd := false, main := .returned outcome } else none
  | _ => none

def mainStep (cfg : Config) (answer : Answer) (s : State) : Option State :=
  ((connectStep cfg s s.main answer).or (exchangeStep cfg s s.main answer)).or (dropStep s s.main)

/-! ### The watcher -/

/-- The loop of the watcher. Its copy of the socket is dropped with the thread. -/
def watcherStep (cfg : Config) (s : State) : Option State :=
  match s.watcher with
  | .unborn | .returned => none
  | .checkDone =>
    some (if s.done then { s with copy := false, watcher := .returned }
      else { s with watcher := .checkCancel })
  | .checkCancel => some { s with watcher := if s.cancel then .shutting else .checkClock }
  | .checkClock =>
    some { s with watcher := if cfg.deadline ≤ s.now then .shutting else .sleeping }
  | .shutting => some { s with shut := s.shut || s.copy, copy := false, watcher := .returned }
  | .sleeping => some { s with watcher := .checkDone }

def step (cfg : Config) (s : State) : Label → Option State
  | .tick duration => some { s with now := s.now + duration }
  | .setCancel => some { s with cancel := true }
  | .deliver segment =>
    if s.peerClosed = false ∧ segment ≠ [] then
      some { s with delivered := s.delivered ++ [segment] }
    else none
  | .peerClose => some { s with peerClosed := true }
  | .main answer => mainStep cfg answer s
  | .watcher => watcherStep cfg s

/-! ### What a phase knows -/

variable {cfg : Config} {s t u : State}

/-- The flag is set or the deadline has passed. -/
def State.Over (cfg : Config) (s : State) : Prop :=
  s.cancel = true ∨ cfg.deadline ≤ s.now

/-- The door station has closed its side without a byte. -/
def State.Silent (s : State) : Prop :=
  s.peerClosed = true ∧ s.delivered = []

/-- A result that is true of the door station and of the flag. -/
structure Sound (s : State) (outcome : Outcome) : Prop where
  silent : outcome = .error .silentFin → s.Silent
  canceled : ∀ stage, outcome = .error (.canceled stage) → s.cancel = true

def Phase.Knows (cfg : Config) (s : State) : Phase → Prop
  | call .setReadTimeout | reading => cfg.wantRecv = true
  | eofCancel => cfg.wantRecv = true ∧ (s.Silent ∨ s.Over cfg)
  | eofClock => cfg.wantRecv = true ∧ (s.Silent ∨ cfg.deadline ≤ s.now)
  | classifying stage _ => stage = "read" → cfg.wantRecv = true
  | finished outcome | joining outcome | returned outcome => Sound s outcome
  | _ => True

/-- What time, the caller and the door station may do to a state. -/
structure Later (s t : State) : Prop where
  now : s.now ≤ t.now
  cancel : s.cancel = true → t.cancel = true
  delivered : s.delivered <+: t.delivered
  silent : s.Silent → t.Silent

theorem Later.refl (s : State) : Later s s :=
  ⟨Nat.le_refl _, id, List.prefix_refl _, id⟩

theorem Later.over (h : Later s t) (hover : s.Over cfg) : t.Over cfg :=
  hover.imp h.cancel fun hdeadline ↦ Nat.le_trans hdeadline h.now

theorem Sound.later {outcome : Outcome} (h : Later s t) (hsound : Sound s outcome) :
    Sound t outcome where
  silent houtcome := h.silent (hsound.silent houtcome)
  canceled stage houtcome := h.cancel (hsound.canceled stage houtcome)

theorem Phase.Knows.later {phase : Phase} (h : Later s t) (hknows : phase.Knows cfg s) :
    phase.Knows cfg t := by
  cases phase with
  | finished outcome | joining outcome | returned outcome => exact Sound.later h hknows
  | eofCancel => exact ⟨hknows.1, hknows.2.imp h.silent h.over⟩
  | eofClock =>
    exact ⟨hknows.1, hknows.2.imp h.silent fun hdeadline ↦ Nat.le_trans hdeadline h.now⟩
  | call c => cases c <;> exact hknows
  | reading | classifying => exact hknows
  | connect | pollCancel | pollClock | polling | soError | spawning | cancelCheck | writing =>
    trivial

/-! ### The results -/

theorem sound_of_ne {outcome : Outcome} (hsilent : outcome ≠ .error .silentFin)
    (hcanceled : ∀ stage, outcome ≠ .error (.canceled stage)) : Sound s outcome :=
  ⟨fun h ↦ absurd h hsilent, fun stage h ↦ absurd h (hcanceled stage)⟩

theorem sound_ok (got : Option (List UInt8)) : Sound s (.ok got) :=
  sound_of_ne (fun h ↦ by cases h) fun stage h ↦ by cases h

theorem sound_error {err : WireError} (hsilent : err ≠ .silentFin)
    (hcanceled : ∀ stage, err = .canceled stage → s.cancel = true) : Sound s (.error err) where
  silent h := absurd (Except.error.inj h) hsilent
  canceled stage h := hcanceled stage (Except.error.inj h)

theorem classifyIo_ne_silentFin (err : IoError) (stage : String) (cancel : Bool) :
    classifyIo err stage cancel ≠ .silentFin := by
  unfold classifyIo wrapTimeout
  split_ifs
  · exact fun h ↦ by cases h
  · cases err.kind <;> exact fun h ↦ by cases h

theorem classifyIo_canceled {err : IoError} {stage stage' : String} {cancel : Bool}
    (h : classifyIo err stage cancel = .canceled stage') : cancel = true := by
  cases cancel with
  | true => rfl
  | false =>
    rw [classifyIo, if_neg Bool.false_ne_true, wrapTimeout] at h
    cases hkind : err.kind <;> rw [hkind] at h <;> cases h

theorem sound_classifyIo {err : IoError} {stage : String} :
    Sound s (.error (classifyIo err stage s.cancel)) :=
  sound_error (classifyIo_ne_silentFin _ _ _) fun _ ↦ classifyIo_canceled

/-! ### The invariant -/

/-- Behind the birth of the watcher, if there is one. -/
def Phase.watched : Phase → Bool
  | call .setWriteTimeout | call .setReadTimeout | cancelCheck | writing | reading | eofCancel
  | eofClock | classifying _ _ | finished _ | joining _ | returned _ => true
  | _ => false

/-- The watcher has been told to stop, or there is none. -/
def Phase.leaving : Phase → Bool
  | joining _ | returned _ => true
  | _ => false

/-- What holds in every state. -/
structure Inv (cfg : Config) (s : State) : Prop where
  segments : ∀ segment ∈ s.delivered, segment ≠ []
  knows : s.main.Knows cfg s
  shut : s.shut = true → s.Over cfg
  shutting : s.watcher = .shutting → s.Over cfg
  copy : s.copy = true → s.watcher ≠ .unborn ∧ s.watcher ≠ .returned
  watched : s.watcher ≠ .unborn → s.main.watched = true
  joining : ∀ outcome, s.main = .joining outcome → s.done = true ∧ s.watcher ≠ .unborn
  returned : ∀ outcome, s.main = .returned outcome →
    s.fd = false ∧ (s.watcher = .unborn ∨ s.watcher = .returned)

theorem inv_start (now : ℕ) (cancel : Bool) : Inv cfg (.start now cancel) where
  segments segment h := by cases h
  knows := trivial
  shut h := by cases h
  shutting h := by cases h
  copy h := by cases h
  watched h := absurd rfl h
  joining outcome h := by cases h
  returned outcome h := by cases h

/-- Time, the caller and the door station leave the threads where they are. -/
theorem Inv.later (h : Inv cfg s) (hlater : Later s t)
    (hsegments : ∀ segment ∈ t.delivered, segment ≠ []) (hmain : t.main = s.main)
    (hwatcher : t.watcher = s.watcher) (hshut : t.shut = s.shut) (hfd : t.fd = s.fd)
    (hcopy : t.copy = s.copy) (hdone : t.done = s.done) : Inv cfg t where
  segments := hsegments
  knows := by
    rw [hmain]
    exact h.knows.later hlater
  shut h' := hlater.over (h.shut (hshut ▸ h'))
  shutting h' := hlater.over (h.shutting (hwatcher ▸ h'))
  copy h' := by
    rw [hwatcher]
    exact h.copy (hcopy ▸ h')
  watched h' := by
    rw [hmain]
    exact h.watched (hwatcher ▸ h')
  joining outcome h' := by
    rw [hdone, hwatcher]
    exact h.joining outcome (hmain ▸ h')
  returned outcome h' := by
    rw [hfd, hwatcher]
    exact h.returned outcome (hmain ▸ h')

/-- The calling thread goes on to a phase in which the watcher, if there is one, goes on. -/
theorem Inv.goto (h : Inv cfg s) {main : Phase} (fd : Bool) (hknows : main.Knows cfg s)
    (hwatched : s.watcher ≠ .unborn → main.watched = true) (hleaving : main.leaving = false) :
    Inv cfg { s with fd, main } where
  segments := h.segments
  knows := by
    have hlater : Later s { s with fd, main } := ⟨Nat.le_refl _, id, List.prefix_refl _, id⟩
    exact hknows.later hlater
  shut := h.shut
  shutting := h.shutting
  copy := h.copy
  watched := hwatched
  joining outcome hmain := by
    rw [show main = .joining outcome from hmain] at hleaving
    cases hleaving
  returned outcome hmain := by
    rw [show main = .returned outcome from hmain] at hleaving
    cases hleaving

theorem Inv.fail (h : Inv cfg s) {err : WireError} (hsound : Sound s (.error err)) :
    Inv cfg (Threads.fail s err) :=
  h.goto s.fd hsound (fun _ ↦ rfl) rfl

/-- Ahead of the watcher. -/
theorem Inv.unborn (h : Inv cfg s) (hmain : s.main.watched = false) : s.watcher = .unborn := by
  by_contra hborn
  rw [h.watched hborn] at hmain
  cases hmain

/-- The steps up to the end of `connect_manual`, with what each of them asks for. -/
theorem Inv.connectStep {answer : Answer} (h : Inv cfg s)
    (hstep : Threads.connectStep cfg s s.main answer = some t) : Inv cfg t := by
  have hknows := h.knows
  cases hmain : s.main with
  | call c =>
    rw [hmain] at hstep hknows
    cases answer with
    | ok =>
      cases Option.some.inj hstep
      refine h.goto _ ?_ (fun hborn ↦ ?_) ?_
      · cases c <;> simp only [Call.next] <;> (try split_ifs) <;> trivial
      · have hwatched := h.watched hborn
        rw [hmain] at hwatched
        cases c <;> first | rfl | cases hwatched
      · cases c <;> simp only [Call.next] <;> (try split_ifs) <;> rfl
    | fails err =>
      cases Option.some.inj hstep
      exact h.fail (sound_error (fun h ↦ by cases h) fun stage h ↦ by cases h)
    | inProgress | again | refused err => cases hstep
  | connect =>
    rw [hmain] at hstep
    have hunborn := h.unborn (by rw [hmain]; rfl)
    cases answer with
    | ok | inProgress =>
      cases Option.some.inj hstep
      exact h.goto _ trivial (absurd hunborn) rfl
    | fails err =>
      cases Option.some.inj hstep
      exact h.goto _ (fun h ↦ absurd h (by decide)) (absurd hunborn) rfl
    | again | refused err => cases hstep
  | pollCancel =>
    rw [hmain] at hstep
    cases Option.some.inj hstep
    split_ifs with hcancel
    · exact h.fail (sound_error (fun h ↦ by cases h) fun _ _ ↦ hcancel)
    · exact h.goto _ trivial (absurd (h.unborn (by rw [hmain]; rfl))) rfl
  | pollClock =>
    rw [hmain] at hstep
    cases Option.some.inj hstep
    split_ifs with hdeadline
    · exact h.fail (sound_error (fun h ↦ by cases h) fun _ h ↦ by cases h)
    · exact h.goto _ trivial (absurd (h.unborn (by rw [hmain]; rfl))) rfl
  | polling =>
    rw [hmain] at hstep
    have hunborn := h.unborn (by rw [hmain]; rfl)
    cases answer with
    | again | ok =>
      cases Option.some.inj hstep
      exact h.goto _ trivial (absurd hunborn) rfl
    | fails err =>
      cases Option.some.inj hstep
      exact h.fail (sound_error (fun h ↦ by cases h) fun _ h ↦ by cases h)
    | inProgress | refused err => cases hstep
  | soError =>
    rw [hmain] at hstep
    have hunborn := h.unborn (by rw [hmain]; rfl)
    cases answer with
    | ok =>
      cases Option.some.inj hstep
      exact h.goto _ trivial (absurd hunborn) rfl
    | refused err =>
      cases Option.some.inj hstep
      exact h.goto _ (fun h ↦ absurd h (by decide)) (absurd hunborn) rfl
    | fails err =>
      cases Option.some.inj hstep
      exact h.fail (sound_error (fun h ↦ by cases h) fun _ h ↦ by cases h)
    | inProgress | again => cases hstep
  | spawning | cancelCheck | writing | reading | eofCancel | eofClock | classifying | finished
  | joining | returned =>
    rw [hmain] at hstep
    cases hstep

/-- The watcher is born, with a copy of the socket or without. -/
theorem Inv.spawn (h : Inv cfg s) (copy : Bool) : Inv cfg { s with
    copy
    watcher := .checkDone
    main := .call .setWriteTimeout } where
  segments := h.segments
  knows := trivial
  shut := h.shut
  shutting h := by cases h
  copy _ := ⟨(fun h ↦ by cases h), (fun h ↦ by cases h)⟩
  watched _ := rfl
  joining outcome h := by cases h
  returned outcome h := by cases h

/-- What a read finds, and what is known about the end of a stream. -/
theorem Inv.readStep (h : Inv cfg s) (hmain : s.main = .reading)
    (hstep : Threads.readStep s = some t) : Inv cfg t := by
  have hrecv : cfg.wantRecv = true := by
    have hknows := h.knows
    rwa [hmain] at hknows
  unfold Threads.readStep at hstep
  split at hstep
  case h_1 segment rest hdelivered =>
    cases Option.some.inj hstep
    have hknows : (Phase.finished (.ok (some (segment.take MAX_RECV_BYTES)))).Knows cfg s :=
      sound_ok _
    exact h.goto s.fd hknows (fun _ ↦ rfl) rfl
  case h_2 hdelivered =>
    split_ifs at hstep with hend
    cases Option.some.inj hstep
    have hover : s.Silent ∨ s.Over cfg := by
      rcases Bool.or_eq_true_iff.mp hend with hclosed | hshut
      · exact .inl ⟨hclosed, hdelivered⟩
      · exact .inr (h.shut hshut)
    have hknows : Phase.eofCancel.Knows cfg s := ⟨hrecv, hover⟩
    exact h.goto s.fd hknows (fun _ ↦ rfl) rfl

/-- The steps of `write_then_read`, with what each of them asks for. -/
theorem Inv.exchangeStep {answer : Answer} (h : Inv cfg s)
    (hstep : Threads.exchangeStep cfg s s.main answer = some t) : Inv cfg t := by
  have hknows := h.knows
  cases hmain : s.main with
  | spawning =>
    rw [hmain] at hstep
    cases answer with
    | ok =>
      cases Option.some.inj hstep
      exact h.spawn true
    | fails err =>
      cases Option.some.inj hstep
      exact h.spawn s.copy
    | inProgress | again | refused err => cases hstep
  | cancelCheck =>
    rw [hmain] at hstep
    cases Option.some.inj hstep
    split_ifs with hcancel
    · exact h.fail (sound_error (fun h ↦ by cases h) fun _ _ ↦ hcancel)
    · exact h.goto _ trivial (fun _ ↦ rfl) rfl
  | writing =>
    rw [hmain] at hstep
    cases answer with
    | ok =>
      cases Option.some.inj hstep
      split_ifs with hrecv
      · exact h.goto _ hrecv (fun _ ↦ rfl) rfl
      · exact h.goto _ (sound_ok none) (fun _ ↦ rfl) rfl
    | fails err =>
      cases Option.some.inj hstep
      exact h.goto _ (fun h ↦ absurd h (by decide)) (fun _ ↦ rfl) rfl
    | inProgress | again | refused err => cases hstep
  | reading =>
    rw [hmain] at hstep hknows
    cases answer with
    | ok => exact h.readStep hmain hstep
    | fails err =>
      cases Option.some.inj hstep
      exact h.goto _ (fun _ ↦ hknows) (fun _ ↦ rfl) rfl
    | inProgress | again | refused err => cases hstep
  | eofCancel =>
    rw [hmain] at hstep hknows
    obtain ⟨hrecv, hend⟩ := hknows
    cases Option.some.inj hstep
    split_ifs with hcancel
    · exact h.fail (sound_error (fun h ↦ by cases h) fun _ _ ↦ hcancel)
    · exact h.goto _ ⟨hrecv, hend.imp_right fun hover ↦ hover.resolve_left hcancel⟩
        (fun _ ↦ rfl) rfl
  | eofClock =>
    rw [hmain] at hstep hknows
    obtain ⟨-, hend⟩ := hknows
    cases Option.some.inj hstep
    -- The clock is read again here, so an end that the watcher has made is past the deadline.
    split_ifs with hdeadline
    · exact h.fail (sound_error (fun h ↦ by cases h) fun _ h ↦ by cases h)
    · exact h.fail ⟨fun _ ↦ hend.resolve_right hdeadline, fun _ h ↦ by cases h⟩
  | classifying stage err =>
    rw [hmain] at hstep hknows
    cases Option.some.inj hstep
    exact h.fail sound_classifyIo
  | call | connect | pollCancel | pollClock | polling | soError | finished | joining | returned =>
    rw [hmain] at hstep
    cases hstep

/-- The call returns without a watcher or with one that has returned. -/
theorem Inv.leave (h : Inv cfg s) {outcome : Outcome} (hsound : Sound s outcome)
    (hwatcher : s.watcher = .unborn ∨ s.watcher = .returned) :
    Inv cfg { s with fd := false, main := .returned outcome } where
  segments := h.segments
  knows := by
    have hlater : Later s { s with fd := false, main := .returned outcome } :=
      ⟨Nat.le_refl _, id, List.prefix_refl _, id⟩
    exact Sound.later hlater hsound
  shut := h.shut
  shutting := h.shutting
  copy := h.copy
  watched _ := rfl
  joining outcome h := by cases h
  returned outcome _ := ⟨rfl, hwatcher⟩

theorem Inv.dropStep (h : Inv cfg s) (hstep : Threads.dropStep s s.main = some t) : Inv cfg t := by
  have hknows := h.knows
  cases hmain : s.main with
  | finished outcome =>
    rw [hmain] at hstep hknows
    simp only [Threads.dropStep] at hstep
    split_ifs at hstep with hunborn
    · cases Option.some.inj hstep
      exact h.leave hknows (.inl hunborn)
    · cases Option.some.inj hstep
      have hlater : Later s { s with done := true, main := .joining outcome } :=
        ⟨Nat.le_refl _, id, List.prefix_refl _, id⟩
      exact ⟨h.segments, Sound.later hlater hknows, h.shut, h.shutting, h.copy, fun _ ↦ rfl,
        fun _ _ ↦ ⟨rfl, hunborn⟩, (fun _ h ↦ by cases h)⟩
  | joining outcome =>
    rw [hmain] at hstep hknows
    simp only [Threads.dropStep] at hstep
    split_ifs at hstep with hreturned
    cases Option.some.inj hstep
    exact h.leave hknows (.inr hreturned)
  | call | connect | pollCancel | pollClock | polling | soError | spawning | cancelCheck | writing
  | reading | eofCancel | eofClock | classifying | returned =>
    rw [hmain] at hstep
    cases hstep

/-- A step of the watcher, which leaves the calling thread alone. -/
theorem Inv.watcherMoves (h : Inv cfg s) {watcher : Watcher} (shut copy : Bool)
    (hborn : s.watcher ≠ .unborn) (hrunning : s.watcher ≠ .returned)
    (hshut : shut = true → s.Over cfg) (hshutting : watcher = .shutting → s.Over cfg)
    (hcopy : copy = true → watcher ≠ .unborn ∧ watcher ≠ .returned)
    (hlives : watcher ≠ .unborn) : Inv cfg { s with shut, copy, watcher } where
  segments := h.segments
  knows := by
    have hlater : Later s { s with shut, copy, watcher } :=
      ⟨Nat.le_refl _, id, List.prefix_refl _, id⟩
    exact h.knows.later hlater
  shut := hshut
  shutting := hshutting
  copy := hcopy
  watched _ := h.watched hborn
  joining outcome hmain := ⟨(h.joining outcome hmain).1, hlives⟩
  returned outcome hmain := by
    rcases (h.returned outcome hmain).2 with h | h
    · exact absurd h hborn
    · exact absurd h hrunning

theorem Inv.watcherStep (h : Inv cfg s) (hstep : Threads.watcherStep cfg s = some t) :
    Inv cfg t := by
  cases hwatcher : s.watcher with
  | unborn | returned =>
    simp only [Threads.watcherStep, hwatcher] at hstep
    cases hstep
  | checkDone =>
    simp only [Threads.watcherStep, hwatcher] at hstep
    cases Option.some.inj hstep
    split_ifs
    · exact h.watcherMoves s.shut false (by rw [hwatcher]; decide) (by rw [hwatcher]; decide)
        h.shut (fun h ↦ by cases h) (fun h ↦ by cases h) (by decide)
    · exact h.watcherMoves s.shut s.copy (by rw [hwatcher]; decide) (by rw [hwatcher]; decide)
        h.shut (fun h ↦ by cases h) (fun _ ↦ by decide) (by decide)
  | checkCancel =>
    simp only [Threads.watcherStep, hwatcher] at hstep
    cases Option.some.inj hstep
    refine h.watcherMoves s.shut s.copy (by rw [hwatcher]; decide) (by rw [hwatcher]; decide)
      h.shut (fun hshutting ↦ ?_) (fun _ ↦ ?_) ?_
    · by_contra hover
      rw [if_neg fun hcancel ↦ hover (.inl hcancel)] at hshutting
      cases hshutting
    · split_ifs <;> decide
    · split_ifs <;> decide
  | checkClock =>
    simp only [Threads.watcherStep, hwatcher] at hstep
    cases Option.some.inj hstep
    refine h.watcherMoves s.shut s.copy (by rw [hwatcher]; decide) (by rw [hwatcher]; decide)
      h.shut (fun hshutting ↦ ?_) (fun _ ↦ ?_) ?_
    · by_contra hover
      rw [if_neg fun hdeadline ↦ hover (.inr hdeadline)] at hshutting
      cases hshutting
    · split_ifs <;> decide
    · split_ifs <;> decide
  | shutting =>
    simp only [Threads.watcherStep, hwatcher] at hstep
    cases Option.some.inj hstep
    have hover := h.shutting hwatcher
    exact h.watcherMoves _ false (by rw [hwatcher]; decide) (by rw [hwatcher]; decide)
      (fun _ ↦ hover) (fun h ↦ by cases h) (fun h ↦ by cases h) (by decide)
  | sleeping =>
    simp only [Threads.watcherStep, hwatcher] at hstep
    cases Option.some.inj hstep
    exact h.watcherMoves s.shut s.copy (by rw [hwatcher]; decide) (by rw [hwatcher]; decide)
      h.shut (fun h ↦ by cases h) (fun _ ↦ by decide) (by decide)

theorem Inv.step {label : Label} (h : Inv cfg s) (hstep : step cfg s label = some t) :
    Inv cfg t := by
  cases label with
  | tick duration =>
    cases Option.some.inj hstep
    have hlater : Later s { s with now := s.now + duration } :=
      ⟨Nat.le_add_right _ _, id, List.prefix_refl _, id⟩
    exact h.later hlater h.segments rfl rfl rfl rfl rfl rfl
  | setCancel =>
    cases Option.some.inj hstep
    have hlater : Later s { s with cancel := true } :=
      ⟨Nat.le_refl _, fun _ ↦ rfl, List.prefix_refl _, id⟩
    exact h.later hlater h.segments rfl rfl rfl rfl rfl rfl
  | deliver segment =>
    simp only [Threads.step] at hstep
    split_ifs at hstep with hopen
    cases Option.some.inj hstep
    have hlater : Later s { s with delivered := s.delivered ++ [segment] } := by
      refine ⟨Nat.le_refl _, id, List.prefix_append _ _, fun hsilent ↦ ?_⟩
      have hclosed := hsilent.1
      rw [hopen.1] at hclosed
      cases hclosed
    refine h.later hlater (fun other hother ↦ ?_) rfl rfl rfl rfl rfl rfl
    rcases List.mem_append.mp hother with hold | hnew
    · exact h.segments other hold
    · rw [List.mem_singleton.mp hnew]
      exact hopen.2
  | peerClose =>
    cases Option.some.inj hstep
    have hlater : Later s { s with peerClosed := true } :=
      ⟨Nat.le_refl _, id, List.prefix_refl _, fun hsilent ↦ ⟨rfl, hsilent.2⟩⟩
    exact h.later hlater h.segments rfl rfl rfl rfl rfl rfl
  | main answer =>
    rcases Option.or_eq_some_iff.mp hstep with hstep | ⟨-, hstep⟩
    · rcases Option.or_eq_some_iff.mp hstep with hstep | ⟨-, hstep⟩
      · exact h.connectStep hstep
      · exact h.exchangeStep hstep
    · exact h.dropStep hstep
  | watcher => exact h.watcherStep hstep

theorem Inv.of_reachable {now : ℕ} {cancel : Bool}
    (h : Reachable (Threads.step cfg) (.start now cancel) s) : Inv cfg s :=
  h.invariant (inv_start now cancel) Inv.step

/-! ### What a run shows of its connection -/

/-- A connection on which nothing fails and nothing comes back. -/
def idleLink : Link where
  connect := none
  setWriteTimeout := none
  cancelBeforeWrite := false
  writeAll := none
  cancelAfterWrite := false
  setReadTimeout := none
  segments := []
  segments_ne := by simp
  readEnd := none
  cancelAfterRead := false
  deadlinePassed := false

/-- The error that the calling thread has, if it has one. -/
def Phase.error? : Phase → Option WireError
  | finished (.error err) | joining (.error err) | returned (.error err) => some err
  | _ => none

/-- What a step from `s` to `t` shows of the connection, beside what has been seen of it before: the
error with which the thread ends ahead of the watcher, and behind it the answers of the calls, the
flag and the clock as they are read, and the segments that a read finds. -/
def observe (cfg : Config) (s t : State) (link : Link) : Label → Link
  | .main answer =>
    if s.watcher = .unborn then { link with connect := t.main.error? }
    else match s.main, answer with
    | .call .setWriteTimeout, .fails err => { link with setWriteTimeout := some err }
    | .call .setReadTimeout, .fails err => { link with setReadTimeout := some err }
    | .cancelCheck, _ => { link with cancelBeforeWrite := s.cancel }
    | .writing, .fails err => { link with writeAll := some err }
    | .reading, .ok => { link with
        segments := s.delivered.filter (· ≠ [])
        segments_ne := fun _ h ↦ of_decide_eq_true (List.mem_filter.mp h).2 }
    | .reading, .fails err => { link with readEnd := some err }
    | .eofCancel, _ => { link with cancelAfterRead := s.cancel }
    | .eofClock, _ => { link with deadlinePassed := decide (cfg.deadline ≤ s.now) }
    | .classifying stage _, _ =>
      if stage = "write" then { link with cancelAfterWrite := s.cancel }
      else { link with cancelAfterRead := s.cancel }
    | _, _ => link
  | _ => link

/-- What a run shows of the connection. -/
def observed (cfg : Config) : State → Link → List Label → Link
  | _, link, [] => link
  | s, link, label :: labels =>
    match step cfg s label with
    | none => link
    | some t => observed cfg t (observe cfg s t link label) labels

theorem watcherStep_frame (h : watcherStep cfg s = some t) :
    t = { s with shut := t.shut, copy := t.copy, watcher := t.watcher } ∧
      (s.shut = true → t.shut = true) ∧ t.watcher ≠ .unborn := by
  unfold watcherStep at h
  split at h
  case h_6 =>
    cases Option.some.inj h
    exact ⟨rfl, fun hshut ↦ by rw [hshut, Bool.true_or], Watcher.noConfusion⟩
  all_goals
    first
    | (cases Option.some.inj h; (try split_ifs) <;> exact ⟨rfl, id, Watcher.noConfusion⟩)
    | cases h

/-- What has been seen of the connection in each phase of the calling thread. -/
def Phase.Tracked (cfg : Config) (s : State) (link : Link) : Phase → Prop
  | finished outcome | joining outcome | returned outcome =>
    link.sendContext cfg.wantRecv = outcome
  | classifying stage err => s.watcher = .unborn ∧ link = idleLink ∨
      s.watcher ≠ .unborn ∧ (stage = "write" ∧ link = { idleLink with writeAll := some err } ∨
        stage = "read" ∧ link = { idleLink with readEnd := some err })
  | _ => link = idleLink

/-- Behind the birth of the watcher, before there is a result. -/
def Phase.exchanges : Phase → Bool
  | call .setWriteTimeout | call .setReadTimeout | cancelCheck | writing | reading | eofCancel
  | eofClock | joining _ => true
  | _ => false

/-- What has been seen of the connection fits the state of the threads. -/
structure Tracks (cfg : Config) (s : State) (link : Link) : Prop where
  main : s.main.Tracked cfg s link
  early : s.watcher = .unborn → link.connect = s.main.error?
  born : s.watcher ≠ .unborn → link.connect = none
  exchanges : s.main.exchanges = true → s.watcher ≠ .unborn

variable {link : Link}

theorem tracks_start (now : ℕ) (cancel : Bool) : Tracks cfg (.start now cancel) idleLink where
  main := rfl
  early _ := rfl
  born h := absurd rfl h
  exchanges h := by cases h

/-- Ahead of the watcher: all that is seen is the error. -/
theorem tracks_early (hwatcher : t.watcher = .unborn)
    (hmain : (∃ err, t.main = .finished (.error err)) ∨
      t.main.error? = none ∧ t.main.exchanges = false ∧ t.main.Tracked cfg t idleLink) :
    Tracks cfg t { idleLink with connect := t.main.error? } := by
  refine ⟨?_, fun _ ↦ rfl, fun h ↦ absurd hwatcher h, fun h ↦ ?_⟩
  · rcases hmain with ⟨err, hmain⟩ | ⟨hnone, -, htracked⟩
    · rw [hmain]
      rfl
    · rw [hnone]
      exact htracked
  · rcases hmain with ⟨err, hmain⟩ | ⟨-, hnot, -⟩
    · rw [hmain] at h
      cases h
    · rw [hnot] at h
      cases h

/-- Beside the watcher. -/
theorem tracks_born (hwatcher : t.watcher ≠ .unborn) (hconnect : link.connect = none)
    (hmain : t.main.Tracked cfg t link) : Tracks cfg t link :=
  ⟨hmain, fun h ↦ absurd h hwatcher, fun _ ↦ hconnect, fun _ ↦ hwatcher⟩

/-- A step that leaves the calling thread alone. -/
theorem Tracks.aside (h : Tracks cfg s link) (hmain : t.main = s.main)
    (hwatcher : t.watcher = .unborn ↔ s.watcher = .unborn) : Tracks cfg t link where
  main := by
    have htracked := h.main
    rw [hmain]
    cases hphase : s.main with
    | classifying stage err =>
      rw [hphase] at htracked
      exact htracked.imp (And.imp_left hwatcher.mpr) (And.imp_left (mt hwatcher.mp))
    | call | connect | pollCancel | pollClock | polling | soError | spawning | cancelCheck
    | writing | reading | eofCancel | eofClock | finished | joining | returned =>
      rw [hphase] at htracked
      exact htracked
  early hunborn := by rw [hmain, h.early (hwatcher.mp hunborn)]
  born hborn := h.born (mt hwatcher.mpr hborn)
  exchanges hexchanges := mt hwatcher.mp (h.exchanges (hmain ▸ hexchanges))

/-- Ahead of the watcher, and without a result other than an error. -/
def Phase.Early (s : State) (phase : Phase) : Prop :=
  (∃ err, phase = .finished (.error err)) ∨
    phase.error? = none ∧ phase.exchanges = false ∧ ∀ cfg, phase.Tracked cfg s idleLink

/-- What a step up to the end of `connect_manual` leads to. -/
theorem connectStep_early {phase : Phase} {answer : Answer} (hunborn : s.watcher = .unborn)
    (hexchanges : phase.exchanges = false) (h : connectStep cfg s phase answer = some t) :
    t.watcher = .unborn ∧ t.main.Early t := by
  unfold connectStep at h
  split at h
  case h_1 c =>
    cases Option.some.inj h
    refine ⟨hunborn, .inr ?_⟩
    cases c with
    | socket | setFlags =>
      simp only [Call.next]
      split_ifs <;> exact ⟨rfl, rfl, fun _ ↦ rfl⟩
    | getFlags | bindDevice | bindLocal | getFlagsBack | setFlagsBack =>
      exact ⟨rfl, rfl, fun _ ↦ rfl⟩
    | setWriteTimeout | setReadTimeout => cases hexchanges
  case h_5 | h_12 =>
    cases Option.some.inj h
    exact ⟨hunborn, .inr ⟨rfl, rfl, fun _ ↦ .inl ⟨hunborn, rfl⟩⟩⟩
  case h_6 | h_7 =>
    cases Option.some.inj h
    split_ifs
    · exact ⟨hunborn, .inl ⟨_, rfl⟩⟩
    · exact ⟨hunborn, .inr ⟨rfl, rfl, fun _ ↦ rfl⟩⟩
  case h_14 => cases h
  all_goals
    cases Option.some.inj h
    first
    | exact ⟨hunborn, .inl ⟨_, rfl⟩⟩
    | exact ⟨hunborn, .inr ⟨rfl, rfl, fun _ ↦ rfl⟩⟩

/-- A step of the calling thread ahead of the watcher. -/
theorem Tracks.early_step {answer : Answer} (h : Tracks cfg s link)
    (hunborn : s.watcher = .unborn) (hstep : mainStep cfg answer s = some t) :
    Tracks cfg t { link with connect := t.main.error? } := by
  have htracked := h.main
  have hexchanges : s.main.exchanges = false := by
    by_contra hnot
    exact h.exchanges (Bool.eq_true_of_not_eq_false hnot) hunborn
  rcases Option.or_eq_some_iff.mp hstep with hstep | ⟨-, hstep⟩
  · rcases Option.or_eq_some_iff.mp hstep with hstep | ⟨-, hstep⟩
    · have hidle : link = idleLink := by
        cases hmain : s.main with
        | call | connect | pollCancel | pollClock | polling | soError =>
          rw [hmain] at htracked
          exact htracked
        | spawning | cancelCheck | writing | reading | eofCancel | eofClock | classifying
        | finished | joining | returned =>
          rw [hmain] at hstep
          cases hstep
      obtain ⟨hwatcher, hearly⟩ := connectStep_early hunborn hexchanges hstep
      rw [hidle]
      exact tracks_early hwatcher (hearly.imp_right fun h ↦ ⟨h.1, h.2.1, h.2.2 cfg⟩)
    · cases hmain : s.main with
      | spawning =>
        rw [hmain] at hstep htracked
        obtain rfl : link = idleLink := htracked
        cases answer with
        | ok | fails err =>
          cases Option.some.inj hstep
          exact tracks_born Watcher.noConfusion rfl rfl
        | inProgress | again | refused err => cases hstep
      | classifying stage err =>
        rw [hmain] at hstep htracked
        cases Option.some.inj hstep
        obtain rfl : link = idleLink := by
          rcases htracked with ⟨-, hidle⟩ | ⟨hborn, -⟩
          · exact hidle
          · exact absurd hunborn hborn
        exact tracks_early hunborn (.inl ⟨_, rfl⟩)
      | cancelCheck | writing | reading | eofCancel | eofClock =>
        rw [hmain] at hexchanges
        cases hexchanges
      | call | connect | pollCancel | pollClock | polling | soError | finished | joining
      | returned =>
        rw [hmain] at hstep
        cases hstep
  · cases hmain : s.main with
    | finished outcome =>
      have hconnect := h.early hunborn
      rw [hmain] at hstep htracked hconnect
      simp only [dropStep, if_pos hunborn] at hstep
      cases Option.some.inj hstep
      have hsame : { link with connect := (Phase.returned outcome).error? } = link := by
        have herror : (Phase.returned outcome).error? = link.connect := by
          rw [hconnect]
          cases outcome <;> rfl
        rw [herror]
      refine ⟨?_, fun _ ↦ rfl, fun hborn ↦ absurd hunborn hborn, fun h ↦ by cases h⟩
      show Link.sendContext { link with connect := (Phase.returned outcome).error? } _ = outcome
      rw [hsame]
      exact htracked
    | joining outcome =>
      rw [hmain] at hexchanges
      cases hexchanges
    | call | connect | pollCancel | pollClock | polling | soError | spawning | cancelCheck
    | writing | reading | eofCancel | eofClock | classifying | returned =>
      rw [hmain] at hstep
      cases hstep

/-- What is seen of a read. -/
theorem Tracks.read_step (h : Tracks cfg s link) (hinv : Inv cfg s)
    (hborn : s.watcher ≠ .unborn) (hmain : s.main = .reading) (hstep : readStep s = some t) :
    Tracks cfg t { link with
      segments := s.delivered.filter (· ≠ [])
      segments_ne := fun _ h ↦ of_decide_eq_true (List.mem_filter.mp h).2 } := by
  have htracked := h.main
  have hrecv := hinv.knows
  rw [hmain] at htracked hrecv
  obtain rfl : link = idleLink := htracked
  unfold readStep at hstep
  split at hstep
  case h_1 segment rest hdelivered =>
    cases Option.some.inj hstep
    refine tracks_born hborn rfl ?_
    have hall : s.delivered.filter (· ≠ []) = s.delivered :=
      List.filter_eq_self.mpr fun other hother ↦ decide_eq_true (hinv.segments other hother)
    have hhead : (s.delivered.filter (· ≠ [])).headD [] = segment := by
      rw [hall, hdelivered]
      rfl
    show Link.sendContext _ cfg.wantRecv = .ok (some (segment.take MAX_RECV_BYTES))
    rw [show cfg.wantRecv = true from hrecv, ← hhead]
    refine Link.sendContext_of_responds ⟨rfl, rfl, rfl, rfl, rfl, ?_⟩
    show s.delivered.filter (· ≠ []) ≠ []
    rw [hall, hdelivered]
    exact List.cons_ne_nil _ _
  case h_2 hdelivered =>
    split_ifs at hstep
    cases Option.some.inj hstep
    refine tracks_born hborn rfl ?_
    show Link.mk none none false none false none (s.delivered.filter (· ≠ [])) _ none false false =
      idleLink
    simp only [hdelivered, List.filter_nil]
    rfl

/-- A step of the calling thread beside the watcher. -/
theorem Tracks.born_step {answer : Answer} (h : Tracks cfg s link) (hinv : Inv cfg s)
    (hborn : s.watcher ≠ .unborn) (hstep : mainStep cfg answer s = some t) :
    Tracks cfg t (observe cfg s t link (.main answer)) := by
  have htracked := h.main
  have hknows := hinv.knows
  have hwatched := hinv.watched hborn
  simp only [observe, if_neg hborn]
  unfold mainStep at hstep
  cases hmain : s.main with
  | call c =>
    rw [hmain] at hstep htracked hwatched hknows
    obtain rfl : link = idleLink := htracked
    cases c with
    | setWriteTimeout =>
      cases answer with
      | ok =>
        cases Option.some.inj hstep
        exact tracks_born hborn rfl rfl
      | fails err =>
        cases Option.some.inj hstep
        exact tracks_born hborn rfl rfl
      | inProgress | again | refused err => cases hstep
    | setReadTimeout =>
      have hrecv : cfg.wantRecv = true := hknows
      cases answer with
      | ok =>
        cases Option.some.inj hstep
        exact tracks_born hborn rfl rfl
      | fails err =>
        cases Option.some.inj hstep
        refine tracks_born hborn rfl ?_
        show Link.sendContext _ cfg.wantRecv = _
        rw [hrecv]
        rfl
      | inProgress | again | refused err => cases hstep
    | socket | bindDevice | getFlags | setFlags | bindLocal | getFlagsBack | setFlagsBack =>
      cases hwatched
  | cancelCheck =>
    rw [hmain] at hstep htracked
    obtain rfl : link = idleLink := htracked
    cases Option.some.inj hstep
    cases hcancel : s.cancel with
    | true => exact tracks_born hborn rfl rfl
    | false => exact tracks_born hborn rfl rfl
  | writing =>
    rw [hmain] at hstep htracked
    obtain rfl : link = idleLink := htracked
    cases answer with
    | ok =>
      cases Option.some.inj hstep
      refine tracks_born hborn rfl ?_
      cases hrecv : cfg.wantRecv with
      | true => exact rfl
      | false =>
        show Link.sendContext _ cfg.wantRecv = _
        rw [hrecv]
        rfl
    | fails err =>
      cases Option.some.inj hstep
      exact tracks_born hborn rfl (.inr ⟨hborn, .inl ⟨rfl, rfl⟩⟩)
    | inProgress | again | refused err => cases hstep
  | reading =>
    rw [hmain] at hstep htracked
    cases answer with
    | ok =>
      change ((readStep s).or none) = some t at hstep
      rw [Option.or_none] at hstep
      exact h.read_step hinv hborn hmain hstep
    | fails err =>
      obtain rfl : link = idleLink := htracked
      cases Option.some.inj hstep
      exact tracks_born hborn rfl (.inr ⟨hborn, .inr ⟨rfl, rfl⟩⟩)
    | inProgress | again | refused err => cases hstep
  | eofCancel =>
    rw [hmain] at hstep htracked hknows
    obtain rfl : link = idleLink := htracked
    cases Option.some.inj hstep
    cases hcancel : s.cancel with
    | true =>
      refine tracks_born hborn rfl ?_
      show Link.sendContext _ cfg.wantRecv = _
      rw [hknows.1]
      rfl
    | false => exact tracks_born hborn rfl rfl
  | eofClock =>
    rw [hmain] at hstep htracked hknows
    obtain rfl : link = idleLink := htracked
    cases Option.some.inj hstep
    refine tracks_born hborn rfl ?_
    show Link.sendContext _ cfg.wantRecv = _
    rw [hknows.1]
    by_cases hdeadline : cfg.deadline ≤ s.now
    · rw [decide_eq_true hdeadline, if_pos hdeadline]
      rfl
    · rw [decide_eq_false hdeadline, if_neg hdeadline]
      rfl
  | classifying stage err =>
    rw [hmain] at hstep htracked hknows
    cases Option.some.inj hstep
    rcases htracked with ⟨hunborn, -⟩ | ⟨-, ⟨rfl, rfl⟩ | ⟨rfl, rfl⟩⟩
    · exact absurd hunborn hborn
    · exact tracks_born hborn rfl rfl
    · refine tracks_born hborn rfl ?_
      show Link.sendContext _ cfg.wantRecv = _
      rw [hknows rfl]
      rfl
  | finished outcome =>
    rw [hmain] at hstep htracked
    have hstep' : some { s with done := true, main := .joining outcome } = some t := by
      rw [← hstep]
      exact (if_neg hborn).symm
    cases Option.some.inj hstep'
    exact tracks_born hborn (h.born hborn) htracked
  | joining outcome =>
    rw [hmain] at hstep htracked
    change (if s.watcher = .returned then some { s with fd := false, main := .returned outcome }
      else none) = some t at hstep
    split_ifs at hstep
    cases Option.some.inj hstep
    exact tracks_born hborn (h.born hborn) htracked
  | returned outcome =>
    rw [hmain] at hstep
    cases hstep
  | connect | pollCancel | pollClock | polling | soError | spawning =>
    rw [hmain] at hwatched
    cases hwatched

theorem Tracks.step {label : Label} (h : Tracks cfg s link) (hinv : Inv cfg s)
    (hstep : step cfg s label = some t) : Tracks cfg t (observe cfg s t link label) := by
  cases label with
  | tick | setCancel | peerClose =>
    cases Option.some.inj hstep
    exact h.aside rfl Iff.rfl
  | deliver segment =>
    simp only [Threads.step] at hstep
    split_ifs at hstep
    cases Option.some.inj hstep
    exact h.aside rfl Iff.rfl
  | main answer =>
    by_cases hunborn : s.watcher = .unborn
    · have hearly := h.early_step hunborn hstep
      simpa only [observe, if_pos hunborn] using hearly
    · exact h.born_step hinv hunborn hstep
  | watcher =>
    obtain ⟨hframe, -, hborn⟩ := watcherStep_frame hstep
    refine h.aside (by rw [hframe]) (iff_of_false hborn fun hunborn ↦ ?_)
    change watcherStep cfg s = some t at hstep
    rw [watcherStep, hunborn] at hstep
    cases hstep

theorem tracks_observed {labels : List Label} (h : Tracks cfg s link) (hinv : Inv cfg s)
    (hrun : exec (step cfg) s labels = some t) : Tracks cfg t (observed cfg s link labels) := by
  induction labels generalizing s link with
  | nil =>
    cases Option.some.inj hrun
    exact h
  | cons label labels ih =>
    obtain ⟨u, hfirst, hrest⟩ := exec_cons_eq_some.mp hrun
    have hobserved : observed cfg s link (label :: labels) =
        observed cfg u (observe cfg s u link label) labels := by
      rw [observed]
      simp only [hfirst]
    rw [hobserved]
    exact ih (h.step hinv hfirst) (hinv.step hfirst) hrest

/-- For every run of the threads, with any answers of the system: a call returns what the exchange
gives over the connection that the run has shown, on which nothing fails ahead of the watcher once
there is one. A silent end means that the door station has closed its side without a byte, a
cancellation means that the flag is set, and when the call has returned nobody reads the flag of the
caller any more and both descriptors are closed. The socket is shut down only if the flag is set or
the deadline has passed. -/
theorem send_sound {now : ℕ} {cancel : Bool} {labels : List Label}
    (h : exec (step cfg) (.start now cancel) labels = some s) :
    (∀ outcome, s.main = .returned outcome →
      (observed cfg (.start now cancel) idleLink labels).sendContext cfg.wantRecv = outcome ∧
      (outcome = .error .silentFin → s.peerClosed = true ∧ s.delivered = []) ∧
      (∀ stage, outcome = .error (.canceled stage) → s.cancel = true) ∧
      (s.watcher = .unborn ∨ s.watcher = .returned) ∧ s.fd = false ∧ s.copy = false) ∧
    (s.watcher ≠ .unborn →
      (observed cfg (.start now cancel) idleLink labels).connect = none) ∧
    (s.shut = true → s.cancel = true ∨ cfg.deadline ≤ s.now) := by
  have hinv : Inv cfg s := Inv.of_reachable ⟨labels, h⟩
  have htracks : Tracks cfg s (observed cfg (.start now cancel) idleLink labels) :=
    tracks_observed (tracks_start now cancel) (inv_start now cancel) h
  refine ⟨fun outcome hmain ↦ ?_, htracks.born, hinv.shut⟩
  have hsound : Sound s outcome := by
    have hknows := hinv.knows
    rwa [hmain] at hknows
  have hresult : (observed cfg (.start now cancel) idleLink labels).sendContext cfg.wantRecv =
      outcome := by
    have htracked := htracks.main
    rwa [hmain] at htracked
  obtain ⟨hfd, hwatcher⟩ := hinv.returned outcome hmain
  have hcopy : s.copy = false := by
    by_contra hcopy
    obtain ⟨hborn, hrunning⟩ := hinv.copy (Bool.eq_true_of_not_eq_false hcopy)
    exact hwatcher.elim hborn hrunning
  exact ⟨hresult, hsound.silent, hsound.canceled, hwatcher, hfd, hcopy⟩

def plainConfig : Config where
  iface := false
  localIp := false
  wantRecv := true
  deadline := 5000

/-- The steps up to the read, if nothing fails. -/
def untilRead : List Label :=
  List.replicate 11 (.main .ok)

/-- A call that is canceled while it waits for its response. -/
def readCanceled : State where
  now := 40
  cancel := true
  delivered := []
  peerClosed := false
  shut := true
  fd := false
  copy := false
  done := true
  main := .returned (.error (.canceled "read"))
  watcher := .returned

/-- Its steps. -/
def readCanceledRun : List Label :=
  untilRead ++ [.tick 40, .setCancel, .watcher, .watcher, .watcher, .main .ok, .main .ok,
    .main .ok, .main .ok]

theorem send_sound_readCanceled :
    exec (step plainConfig) (.start 0 false) readCanceledRun = some readCanceled ∧
      (observed plainConfig (.start 0 false) idleLink readCanceledRun).sendContext true =
        .error (.canceled "read") ∧
      (observed plainConfig (.start 0 false) idleLink readCanceledRun).cancelAfterRead = true := by
  have hrun : exec (step plainConfig) (.start 0 false) readCanceledRun = some readCanceled := by
    decide +kernel
  obtain ⟨hresult, -⟩ := (send_sound hrun).1 _ rfl
  exact ⟨hrun, hresult, by decide +kernel⟩

end DoorAccess.WireSender.Threads
