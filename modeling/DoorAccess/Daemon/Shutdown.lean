import DoorAccess.Video.Outdoors

/-!
# The end of the daemon and the video session

`run` leaves its loop on a signal and goes through a fixed sequence: it stores the shutdown flag,
calls `Manager::shutdown`, joins the listeners, the consumer and the worker, and only then closes
the HTTP server, waits five seconds for its handlers and joins the pushes. The HTTP server goes on
accepting connections until then, and its handlers go on calling the manager.

The machine is the manager of `Video.Session` with the main thread and the connections of the HTTP
server around it. `shutdown_settles` says what the sequence is for: when `run` has returned, no
session is left in the slot, the teardown of every session has begun, and every outdoor that was
started has been stopped since. It holds in the runs whose steps are all `timely`: no `start` gets
its 704 acknowledged after `Manager::shutdown` has emptied the slot, no 708 is left out or overtaken
by a re-invite, and neither `Manager::shutdown` nor the HTTP server gives up waiting for a thread
that is still to send one. `lateStart_left` is a run in which a `start` comes too late.

The threads that `run` only joins are left out: a join ends when it ends. The daemon is the one with
`video.forward`, without which there is no manager.
-/

set_option autoImplicit false
set_option relaxedAutoImplicit false

namespace DoorAccess.Daemon.Shutdown

open Codec Transition Debts Video Video.Manager

/-- The deadline of `Manager::shutdown` and of the shutdown of the HTTP server. -/
def SHUTDOWN_TIMEOUT : ℕ := 5000

/-- Where `run` is. -/
inductive MainPhase
  /-- In its loop. -/
  | serving
  /-- The shutdown flag is stored. -/
  | flagged
  /-- In `Manager::shutdown`, waiting for `current`. -/
  | locking (overall : ℕ)
  /-- In `Manager::shutdown` as the call `c`, with the slot emptied. -/
  | stoppingVideo (c : ℕ)
  | joiningListeners
  | joiningConsumer
  /-- The sentinel is submitted. -/
  | joiningWorker
  | closingHttp
  /-- The HTTP server has dropped its listener and waits for its handlers. -/
  | drainingHttp (deadline : ℕ)
  | joiningHttp
  | joiningPushes
  | returned
  deriving DecidableEq

/-- `Manager::shutdown` has emptied the slot. -/
def MainPhase.emptied : MainPhase → Bool
  | .serving | .flagged | .locking _ => false
  | _ => true

/-- `Manager::shutdown` has returned. -/
def MainPhase.videoStopped : MainPhase → Bool
  | .serving | .flagged | .locking _ | .stoppingVideo _ => false
  | _ => true

/-- The HTTP server has waited for its handlers. -/
def MainPhase.httpDrained : MainPhase → Bool
  | .joiningHttp | .joiningPushes | .returned => true
  | _ => false

theorem MainPhase.emptied_of_videoStopped (main : MainPhase) (h : main.videoStopped = true) :
    main.emptied = true := by
  cases main with
  | serving | flagged | locking | stoppingVideo => exact absurd h Bool.false_ne_true
  | _ => rfl

theorem MainPhase.emptied_of_httpDrained (main : MainPhase) (h : main.httpDrained = true) :
    main.emptied = true := by
  cases main with
  | joiningHttp | joiningPushes | returned => rfl
  | _ => exact absurd h Bool.false_ne_true

structure State where
  mgr : Manager.State
  main : MainPhase
  /-- The HTTP server has its listener. -/
  listening : Bool
  /-- The connections being served. The call of a handler has the number of its connection. -/
  active : List ℕ

def State.init : State where
  mgr := .init
  main := .serving
  listening := true
  active := []

inductive Label
  /-- A move of a thread of the manager or of a handler. -/
  | thread (l : Manager.Label)
  | accept (c : ℕ)
  /-- A handler is done, with or without a call to the manager. -/
  | finish (c : ℕ)
  /-- The next step of `run`; its call of `Manager::shutdown` is given the number `c`. -/
  | main (c : ℕ)

/-- The calls are those of the connections being served, and `shutdown` is left to `run`. -/
def State.allows (s : State) : Manager.Label → Bool
  | .call _ (.shutdown _) => false
  | .call c _ => decide (c ∈ s.active)
  | .spawnCleanup _ c => decide (c ∉ s.active)
  | _ => true

/-- The sequence of `run`. -/
def advance (cfg : Manager.Config) (s : State) (c : ℕ) : Option State :=
  match s.main with
  | .serving => some { s with main := .flagged }
  | .flagged => some { s with main := .locking (s.mgr.now + SHUTDOWN_TIMEOUT) }
  | .locking overall =>
    if c ∈ s.active then none
    else (exec (Manager.step cfg) s.mgr [.call c (.shutdown overall), .enter c]).map fun mgr ↦
      { s with mgr := mgr, main := .stoppingVideo c }
  | .stoppingVideo k =>
    if (s.mgr.calls k).finished then some { s with main := .joiningListeners } else none
  | .joiningListeners => some { s with main := .joiningConsumer }
  | .joiningConsumer => some { s with main := .joiningWorker }
  | .joiningWorker => some { s with main := .closingHttp }
  | .closingHttp =>
    some { s with main := .drainingHttp (s.mgr.now + SHUTDOWN_TIMEOUT), listening := false }
  | .drainingHttp deadline =>
    if s.active = [] ∨ deadline ≤ s.mgr.now then some { s with main := .joiningHttp } else none
  | .joiningHttp => some { s with main := .joiningPushes }
  | .joiningPushes => some { s with main := .returned }
  | .returned => none

def step (cfg : Manager.Config) (s : State) : Label → Option State
  | .thread l =>
    if s.allows l then (Manager.step cfg s.mgr l).map fun mgr ↦ { s with mgr := mgr } else none
  | .accept c =>
    if s.listening = true ∧ c ∉ s.active ∧ (s.mgr.calls c).phase = .idle then
      some { s with active := c :: s.active }
    else none
  | .finish c =>
    if c ∈ s.active ∧ ((s.mgr.calls c).phase = .idle ∨ (s.mgr.calls c).finished = true) then
      some { s with active := s.active.erase c }
    else none
  | .main c => advance cfg s c

/-! ### What is left of the video -/

/-- No session is in the slot, and no `start` is on its way to put one there whose outdoor already
sends. -/
structure Quiet (s : Manager.State) : Prop where
  current : s.current = none
  starts : ∀ c outdoor phase, (s.calls c).phase = .starting outdoor phase → ¬ phase.Past

/-- The slot is empty, the teardown of every session has begun, and behind every 704 to an outdoor
there is a 708 to it. -/
structure Settled (s : Manager.State) : Prop extends Quiet s where
  removed : ∀ p, Committed p s.trace → removers p s.trace ≠ []
  stopped : ∀ outdoor before e after, s.trace = before ++ e :: after → e.Starts s outdoor →
    ∃ e' ∈ after, e'.Stops s outdoor

/-- The call has taken a session out and has not yet come to its 708. -/
def owing (s : Manager.State) (k : ℕ) : Bool :=
  match (s.calls k).phase with
  | .tearing _ _ _ .stopPreview => true
  | _ => false

/-- The call is such a one, and a clean-up. -/
def owingCleanup (s : Manager.State) (k : ℕ) : Bool :=
  match (s.calls k).phase with
  | .tearing _ reason _ .stopPreview => reason.internal
  | _ => false

section Quiet

variable {cfg : Manager.Config} {s t : Manager.State} {l : Manager.Label} {c k : ℕ}

theorem owing_iff : owing s k = true ↔
    ∃ p reason deadline, (s.calls k).phase = .tearing p reason deadline .stopPreview := by
  unfold owing
  constructor
  · intro h
    split at h
    · rename_i p reason deadline hphase
      exact ⟨p, reason, deadline, hphase⟩
    · exact absurd h Bool.false_ne_true
  · rintro ⟨p, reason, deadline, hphase⟩
    rw [hphase]

theorem owingCleanup_iff : owingCleanup s k = true ↔
    ∃ p reason deadline, (s.calls k).phase = .tearing p reason deadline .stopPreview ∧
      reason.internal = true := by
  unfold owingCleanup
  constructor
  · intro h
    split at h
    · rename_i p reason deadline hphase
      exact ⟨p, reason, deadline, hphase, h⟩
    · exact absurd h Bool.false_ne_true
  · rintro ⟨p, reason, deadline, hphase, hinternal⟩
    rw [hphase]
    exact hinternal

/-- A `start` comes past its 704 with the acknowledgement only. -/
theorem start_unacknowledged {outdoor outdoor' : Outdoor} {phase phase' : StartPhase}
    (h : Manager.step cfg s l = some t) (hl : l ≠ .startPreview c true)
    (hphase : (s.calls c).phase = .starting outdoor phase) (hbefore : ¬ phase.Past)
    (hphase' : (t.calls c).phase = .starting outdoor' phase') : ¬ phase'.Past := by
  rcases step_start h hphase with ⟨hsame, -⟩ | hmove
  · rw [hphase', Phase.starting.injEq] at hsame
    rw [hsame.2]
    exact hbefore
  · rw [hphase'] at hmove
    cases hmove with
    | binds => exact id
    | previews => exact absurd rfl hl
    | rollsBack => exact absurd trivial hbefore
    | spawns => exact absurd trivial hbefore

/-- The step lemma: without an acknowledgement the manager stays quiet. -/
theorem Quiet.step (hquiet : Quiet s) (hslot : SlotInv s) (h : Manager.step cfg s l = some t)
    (hl : ∀ c, l ≠ .startPreview c true) : Quiet t := by
  have heffect := step_effect hslot.filled h
  constructor
  · cases heffect with
    | committed c outdoor p info _ _ _ hphase =>
      exact absurd trivial (hquiet.starts c outdoor _ hphase)
    | claimed _ _ _ hcurrent => exact hcurrent
    | removed _ _ _ _ _ _ _ _ _ hcurrent => exact hcurrent
    | quiet _ hcurrent => exact hcurrent.trans hquiet.current
    | advanced _ _ _ _ _ hcurrent => exact hcurrent.trans hquiet.current
    | failed _ _ _ _ _ hcurrent => exact hcurrent.trans hquiet.current
    | tore _ _ _ _ _ _ _ hcurrent => exact hcurrent.trans hquiet.current
    | closed _ _ _ _ _ hcurrent => exact hcurrent.trans hquiet.current
  · intro k outdoor phase hk
    rcases heffect.starting_cases hk with ⟨outdoor', phase', hbefore⟩ | rfl
    · exact start_unacknowledged h (hl k) hbefore (hquiet.starts k outdoor' phase' hbefore) hk
    · exact id

/-- While the manager is quiet, no call comes to owe a 708. -/
theorem Quiet.owing_before (hquiet : Quiet s) (hslot : SlotInv s)
    (h : Manager.step cfg s l = some t) (howing : owing t k = true) : owing s k = true := by
  obtain ⟨p, reason, deadline, hphase⟩ := owing_iff.mp howing
  exact owing_iff.mpr
    ⟨p, reason, deadline, (step_effect hslot.filled h).owed_before hquiet.current hphase⟩

theorem Quiet.owingCleanup_before (hquiet : Quiet s) (hslot : SlotInv s)
    (h : Manager.step cfg s l = some t) (howing : owingCleanup t k = true) :
    owingCleanup s k = true := by
  obtain ⟨p, reason, deadline, hphase, hinternal⟩ := owingCleanup_iff.mp howing
  exact owingCleanup_iff.mpr ⟨p, reason, deadline,
    (step_effect hslot.filled h).owed_before hquiet.current hphase, hinternal⟩

/-- Nobody is left to stop an outdoor, so none streams. -/
theorem Quiet.settled (h : Quiet s) (hslot : SlotInv s) (hnone : ∀ k, owing s k = false)
    (hcharge : ∀ outdoor, s.Streams outdoor → InCharge s outdoor) : Settled s := by
  refine ⟨h, fun p hcommitted ↦ ?_, fun outdoor ↦ not_owes_iff.mp fun hstreams ↦ ?_⟩
  · cases hslot.status p with
    | outside _ hnot => exact absurd hcommitted hnot
    | current hcurrent => exact absurd (h.current.symm.trans hcurrent) (by simp)
    | tearing c _ _ _ _ _ _ hremovers =>
      rw [hremovers]
      simp
    | torn c _ _ _ hremovers =>
      rw [hremovers]
      simp
  · cases hcharge outdoor hstreams with
    | start c phase hphase hpast => exact h.starts c outdoor phase hphase hpast
    | current p sess hcurrent => exact absurd (h.current.symm.trans hcurrent) (by simp)
    | teardown c p reason deadline sess hphase =>
      have howing : owing s c = true := owing_iff.mpr ⟨p, reason, deadline, hphase⟩
      exact absurd (howing.symm.trans (hnone c)) (by simp)

end Quiet

/-! ### The calls that are not those of connections -/

/-- A call that has not been made, that has returned, or that is a clean-up. -/
def Background : Phase → Prop
  | .idle => True
  | .calling (.stopInternal _ reason) => reason.internal = true
  | .tearing _ reason _ _ => reason.internal = true
  | .returned _ => True
  | _ => False

/-- What the monitors are to spawn is a clean-up. -/
def SpawnsInv (s : Manager.State) : Prop :=
  ∀ p sess reason, s.sessions p = some sess → sess.monitor.phase = .spawning reason →
    reason.internal = true

section Calls

variable {cfg : Manager.Config} {s t : Manager.State} {l : Manager.Label} {c k : ℕ}

theorem step_spawnsInv (h : SpawnsInv s) (hstep : Manager.step cfg s l = some t) :
    SpawnsInv t := by
  intro p sess' reason hsess' hspawning
  rcases (step_watch hstep).sessions p sess' hsess' with ⟨-, hwatching⟩ | ⟨sess, hsess, hwatched⟩
  · rw [hspawning] at hwatching
    exact absurd hwatching (by simp)
  · have hmove := hwatched.monitor
    rw [hspawning] at hmove
    cases hmove with
    | same _ hbefore => exact h p sess reason hsess hbefore
    | decides _ _ _ hinternal => exact hinternal
    | rests _ hafter => exact hafter.elim

theorem reachable_spawnsInv (hreach : Reachable (Manager.step cfg) .init s) : SpawnsInv s :=
  hreach.invariant (fun p sess _ hsess ↦ absurd hsess (by simp [Manager.State.init]))
    step_spawnsInv

/-- What `takeCurrent` makes of its call: a teardown, or what was given to it for the other case. -/
theorem takeCurrent_phase {op : Op} {key : ℕ → Session → Bool} {reason : Reason} {deadline : ℕ}
    {otherwise : Manager.State} :
    (∃ p, ((takeCurrent s c op key reason deadline otherwise).calls c).phase =
        .tearing p reason deadline .stopPreview) ∨
      takeCurrent s c op key reason deadline otherwise = otherwise := by
  unfold takeCurrent
  split
  · rename_i p sess _
    split_ifs
    · exact Or.inl ⟨p, by simp⟩
    · exact Or.inr rfl
  · exact Or.inr rfl

/-- The moves of a teardown. -/
theorem teardown_phase (s : Manager.State) (c p : ℕ) (sess : Session) (reason : Reason)
    (deadline : ℕ) (phase : TeardownPhase) :
    (∃ phase', ((teardown s c p sess reason deadline phase).calls c).phase =
        .tearing p reason deadline phase') ∨
      reason = .daemonShutdown ∧
        ((teardown s c p sess reason deadline phase).calls c).phase = .reconciling deadline ∨
      reason ≠ .daemonShutdown ∧
        ((teardown s c p sess reason deadline phase).calls c).phase = .returned .done := by
  cases phase with
  | stopPreview => exact Or.inl ⟨.bye, by simp [teardown]⟩
  | bye => exact Or.inl ⟨.stopFlag, by simp [teardown]⟩
  | stopFlag => exact Or.inl ⟨.close, by simp [teardown]⟩
  | close =>
    refine Or.inr ?_
    unfold teardown
    split_ifs with hreason
    · exact Or.inl ⟨hreason, by simp⟩
    · exact Or.inr ⟨hreason, by simp [State.reply]⟩

/-- A call in the background stays there unless a connection makes it. -/
theorem Background.step (h : Background (s.calls k).phase) (hspawns : SpawnsInv s)
    (hl : ∀ op, l ≠ .call k op) (hstep : Manager.step cfg s l = some t) :
    Background (t.calls k).phase := by
  by_cases hmover : l.mover = .call k
  · -- Its own moves: it gets hold of `current`, or goes on with its teardown.
    have hcall := stepCall_of_mover hstep hmover
    cases hphase : (s.calls k).phase with
    | idle =>
      cases l with
      | call c op =>
        obtain rfl := Mover.call.inj hmover
        exact absurd rfl (hl op)
      | _ => exact absurd hcall (by simp [stepCall, hphase])
    | calling op =>
      rw [hphase] at h
      cases op with
      | stopInternal p reason =>
        cases l with
        | enter c =>
          obtain rfl := Mover.call.inj hmover
          simp only [stepCall, hphase] at hcall
          split_ifs at hcall
          obtain rfl := Option.some.inj hcall
          simp only [enter, stopInternal]
          rcases takeCurrent_phase (s := s.log (.entered c (.stopInternal p reason) s.current))
            (c := c) with ⟨q, htearing⟩ | hnone
          · rw [htearing]
            exact h
          · rw [hnone, reply_phase]
            trivial
        | _ => exact absurd hcall (by simp [stepCall, hphase])
      | _ => exact h.elim
    | tearing p reason deadline phase =>
      rw [hphase] at h
      cases l with
      | teardown c =>
        obtain rfl := Mover.call.inj hmover
        simp only [stepCall, hphase, Option.map_eq_some_iff] at hcall
        obtain ⟨sess, -, rfl⟩ := hcall
        rcases teardown_phase s c p sess reason deadline phase with ⟨phase', htearing⟩ |
          ⟨rfl, -⟩ | ⟨-, hreturned⟩
        · rw [htearing]
          exact h
        · exact absurd h Bool.false_ne_true
        · rw [hreturned]
          trivial
      | _ => exact absurd hcall (by simp [stepCall, hphase])
    | returned reply =>
      rw [step_returned hstep hphase]
      trivial
    | _ =>
      rw [hphase] at h
      exact h.elim
  · rcases step_phases hstep k with hcall | hsame | ⟨p, reason, rfl, -, hcleans⟩
    · exact absurd hcall hmover
    · rw [hsame]
      exact h
    · -- A monitor spawns it.
      rw [hcleans]
      cases step_move hstep with
      | spawnCleanup p c sess reason' hsess hmonitor hidle =>
        obtain rfl : reason' = reason := by
          simpa [spawnCleanup] using hcleans
        exact hspawns p sess reason' hsess hmonitor

/-- The call of `Manager::shutdown` with which `run` has emptied the slot, by how far it has come:
from the reconciliation on it has the handles of all clean-ups that still owe a 708, and when it has
returned there is none. -/
def Closing (s : Manager.State) (c : ℕ) : Prop :=
  match (s.calls c).phase with
  | .tearing _ reason _ _ => reason = .daemonShutdown
  | .reconciling _ => True
  | .draining _ handles => ∀ k, owingCleanup s k = true → k ∈ handles
  | .returned _ => ∀ k, owingCleanup s k = false
  | _ => False

/-- `Manager::shutdown` once it has `current`. -/
theorem closing_of_shutdown (cfg : Manager.Config) (s : Manager.State) (c overall : ℕ) :
    Closing (enter cfg s c (.shutdown overall)) c := by
  simp only [Closing, enter, shutdown]
  rcases takeCurrent_phase (s := s.log (.entered c (.shutdown overall) s.current)) (c := c) with
    ⟨p, htearing⟩ | hnone
  · rw [htearing]
  · rw [hnone, setPhase_phase]
    trivial

theorem step_call {op : Op} (h : Manager.step cfg s (.call c op) = some t) :
    (s.calls c).phase = .idle ∧ t = s.setPhase c (.calling op) := by
  simp only [Manager.step, Label.mover, stepCall] at h
  cases hphase : (s.calls c).phase with
  | idle =>
    simp only [hphase, Option.ite_none_right_eq_some, Option.some.injEq] at h
    exact ⟨rfl, h.2.symm⟩
  | _ => exact absurd h (by simp [hphase])

theorem takeCurrent_empties {op : Op} {reason : Reason} {deadline : ℕ} {otherwise : Manager.State}
    (hfilled : SlotFilled s) (hcurrent : otherwise.current = s.current) :
    (takeCurrent s c op (fun _ _ ↦ true) reason deadline otherwise).current = none := by
  unfold takeCurrent
  split
  · rfl
  · rename_i hnone
    rw [hcurrent]
    exact current_eq_none_of_currentSession hfilled hnone

theorem takeCurrent_holder {op : Op} {key : ℕ → Session → Bool} {reason : Reason} {deadline : ℕ}
    {otherwise : Manager.State} (hholder : otherwise.holder = s.holder) :
    (takeCurrent s c op key reason deadline otherwise).holder = s.holder := by
  unfold takeCurrent
  split
  · split_ifs
    · rfl
    · exact hholder
  · exact hholder

/-- `Manager::shutdown` leaves the manager quiet once it has `current`: the slot is emptied, and a
`start` would still hold the lock. -/
theorem quiet_of_shutdown {overall : ℕ} (hslot : SlotInv s) (hfree : s.holder = none)
    (hslot' : SlotInv (enter cfg s c (.shutdown overall))) :
    Quiet (enter cfg s c (.shutdown overall)) := by
  constructor
  · exact takeCurrent_empties hslot.filled rfl
  · intro k outdoor phase hk
    have hholder := (hslot'.holder k).mpr ⟨outdoor, phase, hk⟩
    rw [enter, shutdown, takeCurrent_holder] at hholder
    · exact absurd (hfree.symm.trans hholder) (by simp)
    · rfl

end Calls

/-! ### Every run of the sequence -/

/-- What the property asks of the steps. -/
def timely (s : State) : Label → Bool
  -- No `start` gets its 704 acknowledged after `Manager::shutdown` has emptied the slot.
  | .thread (.startPreview _ true) => !s.main.emptied
  -- A teardown comes to its 708 before its deadline.
  | .thread (.teardown c) =>
    match (s.mgr.calls c).phase with
    | .tearing _ _ deadline .stopPreview => decide (s.mgr.now < deadline)
    | _ => true
  -- The 704 of a re-invite is not sent behind the 708 of its session.
  | .thread (.reinvite p) => (tornBy p s.mgr.trace).isEmpty
  -- A clean-up that still owes its 708 is registered when `shutdown` takes the handles.
  | .thread (.reconcile _) => s.mgr.trace.all fun
    | .removed k _ _ => !owingCleanup s.mgr k || decide (k ∈ s.mgr.cleanups)
    | _ => true
  -- `shutdown` does not give up waiting for such a clean-up.
  | .thread (.drained c) =>
    match (s.mgr.calls c).phase with
    | .draining _ handles => handles.all fun k ↦ !owing s.mgr k
    | _ => true
  -- The HTTP server does not give up waiting for such a handler.
  | .main _ =>
    match s.main with
    | .drainingHttp _ => s.active.all fun c ↦ !owing s.mgr c
    | _ => true
  | _ => true

/-- The manager is in a state of its own runs, somebody is in charge of every outdoor that streams,
and the calls that do not belong to connections are clean-ups, but for that of `run`. Once the slot
has been emptied, the manager is quiet; once `Manager::shutdown` has returned, no clean-up owes a
708; and once the HTTP server has waited for its handlers, nobody does. -/
structure Inv (cfg : Manager.Config) (s : State) : Prop where
  reachable : Reachable (Manager.step cfg) .init s.mgr
  charge : ∀ outdoor, s.mgr.Streams outdoor → InCharge s.mgr outdoor
  background : ∀ k, k ∉ s.active → s.main ≠ .stoppingVideo k → Background (s.mgr.calls k).phase
  quiet : s.main.emptied = true → Quiet s.mgr
  closing : ∀ c, s.main = .stoppingVideo c → c ∉ s.active ∧ Closing s.mgr c
  stopped : s.main.videoStopped = true → ∀ k, owingCleanup s.mgr k = false
  drained : s.main.httpDrained = true → ∀ k, owing s.mgr k = false

section Runs

variable {cfg : Manager.Config} {s t : State} {l : Label} {c k : ℕ} {labels : List Label}

theorem inv_init : Inv cfg .init where
  reachable := ⟨[], rfl⟩
  charge := fun _ hstreams ↦ absurd hstreams not_owes_nil
  background := fun _ _ _ ↦ trivial
  quiet := fun h ↦ absurd h Bool.false_ne_true
  closing := fun _ h ↦ absurd h (by simp [State.init])
  stopped := fun h ↦ absurd h Bool.false_ne_true
  drained := fun h ↦ absurd h Bool.false_ne_true

/-- A timely step of the manager is punctual. -/
theorem punctual_of_timely {l : Manager.Label} (htimely : timely s (.thread l) = true) :
    Punctual s.mgr l := by
  constructor
  · rintro c p reason deadline rfl hphase
    simpa [timely, hphase] using htimely
  · rintro p rfl
    exact List.isEmpty_iff.mp htimely

/-- The clean-ups that owe a 708 are registered when `shutdown` takes the handles. -/
theorem registered_of_timely (hslot : SlotInv s.mgr)
    (htimely : timely s (.thread (.reconcile c)) = true) (howing : owingCleanup s.mgr k = true) :
    k ∈ s.mgr.cleanups := by
  obtain ⟨p, reason, deadline, hphase, -⟩ := owingCleanup_iff.mp howing
  have hone := hslot.tearing k p reason deadline .stopPreview hphase
  obtain ⟨op, hremoved⟩ := mem_removers.mp (hone ▸ List.mem_singleton.mpr rfl)
  simpa [howing] using List.all_eq_true.mp htimely _ hremoved

/-- The call of `Manager::shutdown` goes on. -/
theorem Closing.step {l : Manager.Label} {mgr : Manager.State} (h : Closing s.mgr c)
    (hquiet : Quiet s.mgr) (hslot : SlotInv s.mgr) (htimely : timely s (.thread l) = true)
    (hstep : Manager.step cfg s.mgr l = some mgr) : Closing mgr c := by
  have hfewer : ∀ k, owingCleanup mgr k = true → owingCleanup s.mgr k = true :=
    fun k ↦ hquiet.owingCleanup_before hslot hstep
  unfold Closing at h
  by_cases hmover : l.mover = .call c
  · have hcall := stepCall_of_mover hstep hmover
    cases hphase : (s.mgr.calls c).phase with
    | tearing p reason deadline phase =>
      rw [hphase] at h
      obtain rfl : reason = .daemonShutdown := h
      cases l with
      | teardown k =>
        obtain rfl := Mover.call.inj hmover
        simp only [stepCall, hphase, Option.map_eq_some_iff] at hcall
        obtain ⟨sess, -, rfl⟩ := hcall
        unfold Closing
        rcases teardown_phase s.mgr k p sess .daemonShutdown deadline phase with
          ⟨phase', htearing⟩ | ⟨-, hreconciling⟩ | ⟨hnot, -⟩
        · rw [htearing]
        · rw [hreconciling]
          trivial
        · exact absurd rfl hnot
      | _ => exact absurd hcall (by simp [stepCall, hphase])
    | reconciling overall =>
      cases l with
      | reconcile k =>
        obtain rfl := Mover.call.inj hmover
        simp only [stepCall, hphase, Option.some.injEq] at hcall
        have hdraining : (mgr.calls k).phase = .draining overall s.mgr.cleanups := by
          rw [← hcall]
          simp
        unfold Closing
        rw [hdraining]
        exact fun j hj ↦ registered_of_timely hslot htimely (hfewer j hj)
      | _ => exact absurd hcall (by simp [stepCall, hphase])
    | draining overall handles =>
      rw [hphase] at h
      cases l with
      | drained k =>
        obtain rfl := Mover.call.inj hmover
        have hreturned : (mgr.calls k).phase = .returned .done := by
          simp only [stepCall, hphase] at hcall
          split_ifs at hcall
          rw [← Option.some.inj hcall, reply_phase]
        unfold Closing
        rw [hreturned]
        intro j
        rw [← Bool.not_eq_true]
        intro hj
        -- The clean-up is among the handles, and the wait has not been given up on it.
        have hjoined := h j (hfewer j hj)
        obtain ⟨p, reason, deadline, htearing, -⟩ := owingCleanup_iff.mp (hfewer j hj)
        simp only [timely, hphase, List.all_eq_true, Bool.not_eq_true'] at htimely
        have hnot := htimely j hjoined
        rw [owing_iff.mpr ⟨p, reason, deadline, htearing⟩] at hnot
        exact absurd hnot (by simp)
      | _ => exact absurd hcall (by simp [stepCall, hphase])
    | returned reply =>
      rw [hphase] at h
      unfold Closing
      rw [step_returned hstep hphase]
      intro j
      rw [← Bool.not_eq_true]
      exact fun hj ↦ absurd ((h j).symm.trans (hfewer j hj)) (by simp)
    | _ =>
      rw [hphase] at h
      exact h.elim
  · -- A move of another thread.
    have hkept : (mgr.calls c).phase = (s.mgr.calls c).phase := by
      refine step_others hstep hmover fun hidle ↦ ?_
      rw [hidle] at h
      exact h
    unfold Closing
    rw [hkept]
    cases hphase : (s.mgr.calls c).phase with
    | tearing | reconciling =>
      rw [hphase] at h
      exact h
    | draining overall handles =>
      rw [hphase] at h
      exact fun j hj ↦ h j (hfewer j hj)
    | returned reply =>
      rw [hphase] at h
      intro j
      rw [← Bool.not_eq_true]
      exact fun hj ↦ absurd ((h j).symm.trans (hfewer j hj)) (by simp)
    | _ =>
      rw [hphase] at h
      exact h.elim

theorem Inv.thread {l : Manager.Label} (h : Inv cfg s) (htimely : timely s (.thread l) = true)
    (hstep : Shutdown.step cfg s (.thread l) = some t) : Inv cfg t := by
  simp only [Shutdown.step] at hstep
  split_ifs at hstep with hallows
  obtain ⟨mgr, hmgr, rfl⟩ := Option.map_eq_some_iff.mp hstep
  have hslot := reachable_slotInv h.reachable
  refine ⟨h.reachable.next hmgr, ?_, ?_, ?_, ?_, ?_, ?_⟩
  · exact step_inCharge hslot (reachable_invitesInv h.reachable) (punctual_of_timely htimely)
      h.charge hmgr
  · intro k hk hmain
    refine (h.background k hk hmain).step (reachable_spawnsInv h.reachable) ?_ hmgr
    rintro op rfl
    cases op with
    | shutdown => exact absurd hallows Bool.false_ne_true
    | _ => exact hk (of_decide_eq_true hallows)
  · intro hemptied
    refine (h.quiet hemptied).step hslot hmgr ?_
    rintro c rfl
    rw [timely, hemptied] at htimely
    exact absurd htimely Bool.false_ne_true
  · intro c hmain
    obtain ⟨hactive, hclosing⟩ := h.closing c hmain
    have hquiet : Quiet s.mgr := h.quiet (by rw [hmain]; rfl)
    exact ⟨hactive, hclosing.step hquiet hslot htimely hmgr⟩
  · intro hstopped k
    have hquiet : Quiet s.mgr := h.quiet (s.main.emptied_of_videoStopped hstopped)
    rw [← Bool.not_eq_true]
    intro howing
    have hbefore := hquiet.owingCleanup_before hslot hmgr howing
    exact absurd (hbefore.symm.trans (h.stopped hstopped k)) (by simp)
  · intro hdrained k
    have hquiet : Quiet s.mgr := h.quiet (s.main.emptied_of_httpDrained hdrained)
    rw [← Bool.not_eq_true]
    intro howing
    have hbefore := hquiet.owing_before hslot hmgr howing
    exact absurd (hbefore.symm.trans (h.drained hdrained k)) (by simp)

/-- `Manager::shutdown` gets hold of `current`. -/
theorem Inv.empties {overall : ℕ} {mgr : Manager.State} (h : Inv cfg s) (hc : c ∉ s.active)
    (hmain : s.main = .locking overall)
    (hrun : exec (Manager.step cfg) s.mgr [.call c (.shutdown overall), .enter c] = some mgr) :
    Inv cfg { s with mgr := mgr, main := .stoppingVideo c } := by
  obtain ⟨u, hcall, hrest⟩ := exec_cons_eq_some.mp hrun
  obtain ⟨v, henter, hnil⟩ := exec_cons_eq_some.mp hrest
  obtain rfl : v = mgr := Option.some.inj hnil
  have hreach := h.reachable.next hcall
  have hreach' := hreach.next henter
  have hslot := reachable_slotInv hreach
  -- Neither of the two moves is a 708 or a re-invite.
  have hpunctual : ∀ {w : Manager.State} {l : Manager.Label}, (∀ k, l ≠ .teardown k) →
      (∀ p, l ≠ .reinvite p) → Punctual w l := fun hnot hnot' ↦
    ⟨fun k _ _ _ hl ↦ absurd hl (hnot k), fun p hl ↦ absurd hl (hnot' p)⟩
  have hcharge := step_inCharge (reachable_slotInv h.reachable) (reachable_invitesInv h.reachable)
    (hpunctual (by simp) (by simp)) h.charge hcall
  have hcharge' := step_inCharge hslot (reachable_invitesInv hreach)
    (hpunctual (by simp) (by simp)) hcharge henter
  have hbackground : ∀ k, k ∉ s.active → k ≠ c → Background (v.calls k).phase := by
    intro k hk hkc
    refine Background.step (Background.step (h.background k hk (by simp [hmain]))
      (reachable_spawnsInv h.reachable) ?_ hcall) (reachable_spawnsInv hreach) (by simp) henter
    intro op hl
    exact hkc (Label.call.inj hl).1.symm
  obtain ⟨-, rfl⟩ := step_call hcall
  simp only [Manager.step, Label.mover, stepCall, State.setPhase_calls, Function.update_self]
    at henter
  split_ifs at henter with hfree
  obtain rfl := Option.some.inj henter
  refine ⟨hreach', hcharge', ?_, ?_, ?_, ?_, ?_⟩
  · intro k hk hne
    exact hbackground k hk fun hkc ↦ hne (hkc ▸ rfl)
  · exact fun _ ↦ quiet_of_shutdown hslot hfree (reachable_slotInv hreach')
  · rintro k ⟨rfl⟩
    exact ⟨hc, closing_of_shutdown cfg _ _ _⟩
  · exact fun hstopped ↦ absurd hstopped Bool.false_ne_true
  · exact fun hdrained ↦ absurd hdrained Bool.false_ne_true

/-- `run` goes on, and neither leaves `Manager::shutdown` nor the wait for the handlers. -/
theorem Inv.aside (h : Inv cfg s) (main : MainPhase) (listening : Bool)
    (hbefore : ∀ c, s.main ≠ .stoppingVideo c) (hafter : ∀ c, main ≠ .stoppingVideo c)
    (hemptied : main.emptied = s.main.emptied) (hstopped : main.videoStopped = s.main.videoStopped)
    (hdrained : main.httpDrained = s.main.httpDrained) :
    Inv cfg { s with main := main, listening := listening } where
  reachable := h.reachable
  charge := h.charge
  background := fun k hk _ ↦ h.background k hk (hbefore k)
  quiet := fun hmain ↦ h.quiet (hemptied ▸ hmain)
  closing := fun c hmain ↦ absurd hmain (hafter c)
  stopped := fun hmain ↦ h.stopped (hstopped ▸ hmain)
  drained := fun hmain ↦ h.drained (hdrained ▸ hmain)

/-- `Manager::shutdown` has returned. -/
theorem Inv.stopsVideo (h : Inv cfg s) (hmain : s.main = .stoppingVideo k)
    (hfinished : (s.mgr.calls k).finished = true) :
    Inv cfg { s with main := .joiningListeners } := by
  obtain ⟨hactive, hclosing⟩ := h.closing k hmain
  obtain ⟨reply, hreturned⟩ : ∃ reply, (s.mgr.calls k).phase = .returned reply := by
    unfold Call.finished at hfinished
    split at hfinished
    · rename_i reply hphase
      exact ⟨reply, hphase⟩
    · exact absurd hfinished Bool.false_ne_true
  rw [Closing, hreturned] at hclosing
  refine ⟨h.reachable, h.charge, ?_, ?_, by simp, fun _ ↦ hclosing, ?_⟩
  · intro j hj _
    by_cases hjk : j = k
    · rw [hjk, hreturned]
      trivial
    · exact h.background j hj fun hsame ↦ hjk (MainPhase.stoppingVideo.inj
        (hsame.symm.trans hmain))
  · exact fun _ ↦ h.quiet (by rw [hmain]; rfl)
  · exact fun hdrained ↦ absurd hdrained Bool.false_ne_true

/-- The HTTP server has waited for its handlers: nobody owes a 708 any more. -/
theorem Inv.drainsHttp {deadline : ℕ} (h : Inv cfg s) (hmain : s.main = .drainingHttp deadline)
    (htimely : timely s (.main c) = true) : Inv cfg { s with main := .joiningHttp } := by
  have hstopped := h.stopped (by rw [hmain]; rfl)
  refine ⟨h.reachable, h.charge, fun k hk _ ↦ h.background k hk (by simp [hmain]),
    fun _ ↦ h.quiet (by rw [hmain]; rfl), by simp, fun _ ↦ hstopped, fun _ k ↦ ?_⟩
  rw [← Bool.not_eq_true]
  intro howing
  by_cases hk : k ∈ s.active
  · simp only [timely, hmain, List.all_eq_true, Bool.not_eq_true'] at htimely
    exact absurd (howing.symm.trans (htimely k hk)) (by simp)
  · -- A call that is not of a connection is a clean-up.
    have hbackground := h.background k hk (by simp [hmain])
    obtain ⟨p, reason, deadline', hphase⟩ := owing_iff.mp howing
    rw [hphase] at hbackground
    have hcleanup : owingCleanup s.mgr k = true :=
      owingCleanup_iff.mpr ⟨p, reason, deadline', hphase, hbackground⟩
    exact absurd (hcleanup.symm.trans (hstopped k)) (by simp)

theorem Inv.advance (h : Inv cfg s) (htimely : timely s (.main c) = true)
    (hstep : Shutdown.advance cfg s c = some t) : Inv cfg t := by
  unfold Shutdown.advance at hstep
  split at hstep
  -- `Manager::shutdown` gets hold of `current`, and returns.
  case h_3 overall hmain =>
    split_ifs at hstep with hc
    obtain ⟨mgr, hmgr, rfl⟩ := Option.map_eq_some_iff.mp hstep
    exact h.empties hc hmain hmgr
  case h_4 k hmain =>
    split_ifs at hstep with hfinished
    obtain rfl := Option.some.inj hstep
    exact h.stopsVideo hmain hfinished
  -- The wait for the handlers ends.
  case h_9 deadline hmain =>
    split_ifs at hstep
    obtain rfl := Option.some.inj hstep
    exact h.drainsHttp hmain htimely
  case h_12 => exact absurd hstep (by simp)
  all_goals
    rename_i hmain
    obtain rfl := Option.some.inj hstep
    exact h.aside _ _ (by simp [hmain]) (by simp) (by rw [hmain]; rfl) (by rw [hmain]; rfl)
      (by rw [hmain]; rfl)

/-- A connection that is opened or done. -/
theorem Inv.connections (h : Inv cfg s) (active : List ℕ)
    (hclosed : ∀ k, k ∉ active → k ∉ s.active ∨ Background (s.mgr.calls k).phase)
    (hopened : ∀ k, k ∈ active → k ∈ s.active ∨ (s.mgr.calls k).phase = .idle) :
    Inv cfg { s with active := active } := by
  refine ⟨h.reachable, h.charge, ?_, h.quiet, ?_, h.stopped, h.drained⟩
  · intro k hk hmain
    rcases hclosed k hk with hnot | hbackground
    · exact h.background k hnot hmain
    · exact hbackground
  · intro k hmain
    obtain ⟨hnot, hclosing⟩ := h.closing k hmain
    refine ⟨fun hmem ↦ ?_, hclosing⟩
    rcases hopened k hmem with hold | hidle
    · exact hnot hold
    · rw [Closing, hidle] at hclosing
      exact hclosing

theorem Inv.step (h : Inv cfg s) (htimely : timely s l = true)
    (hstep : Shutdown.step cfg s l = some t) : Inv cfg t := by
  cases l with
  | thread l => exact h.thread htimely hstep
  | accept c =>
    simp only [Shutdown.step] at hstep
    split_ifs at hstep with hready
    obtain rfl := Option.some.inj hstep
    refine h.connections _ (fun k hk ↦ Or.inl fun hmem ↦ hk (List.mem_cons_of_mem c hmem)) ?_
    intro k hk
    rcases List.mem_cons.mp hk with rfl | hmem
    · exact Or.inr hready.2.2
    · exact Or.inl hmem
  | finish c =>
    simp only [Shutdown.step] at hstep
    split_ifs at hstep with hready
    obtain rfl := Option.some.inj hstep
    refine h.connections _ (fun k hk ↦ ?_) fun k hk ↦ Or.inl (List.mem_of_mem_erase hk)
    by_cases hkc : k = c
    · subst hkc
      refine Or.inr ?_
      rcases hready.2 with hidle | hfinished
      · rw [hidle]
        trivial
      · unfold Call.finished at hfinished
        split at hfinished
        · rename_i reply hphase
          rw [hphase]
          trivial
        · exact absurd hfinished Bool.false_ne_true
    · exact Or.inl fun hmem ↦ hk ((List.mem_erase_of_ne hkc).mpr hmem)
  | main c => exact h.advance htimely hstep

/-- In every run of the daemon whose steps are all timely, all of the video is settled when `run`
has returned. -/
theorem shutdown_settles (hrun : exec (step cfg) .init labels = some s)
    (htimely : Along (step cfg) (fun s l ↦ timely s l = true) .init labels)
    (hreturned : s.main = .returned) : Settled s.mgr := by
  have hinv : Inv cfg s := Along.invariant Inv.step htimely inv_init hrun
  have hquiet : Quiet s.mgr := hinv.quiet (by rw [hreturned]; rfl)
  exact hquiet.settled (reachable_slotInv hinv.reachable) (hinv.drained (by rw [hreturned]; rfl))
    hinv.charge

/-- A `POST /video/start` on the connection 0, up to its answer. -/
def startRequest : List Label :=
  .accept 0 :: (startMoves 0 (ascii "a") 0).map .thread ++ [.finish 0]

/-- The steps of `run` up to the end of its call of `Manager::shutdown`, which is the call 9 and has
the given teardown to do. -/
def stopVideo (teardown : List Manager.Label) : List Label :=
  [.main 0, .main 0, .main 9] ++ teardown.map .thread ++
    [.thread (.reconcile 9), .thread (.drained 9), .main 0]

/-- The rest of `run`. -/
def closeServer : List Label :=
  List.replicate 7 (.main 0)

/-- A session that is there when the signal comes is torn down. -/
theorem shutdown_settles_session :
    ∃ s, exec (step defaultConfig) .init (startRequest ++
        stopVideo [.teardown 9, .teardown 9, .teardown 9, .teardown 9] ++ closeServer) = some s ∧
      s.main = .returned ∧ .startPreview 0 gate true ∈ s.mgr.trace ∧ Settled s.mgr := by
  have hrun : ((exec (step defaultConfig) .init (startRequest ++
      stopVideo [.teardown 9, .teardown 9, .teardown 9, .teardown 9] ++ closeServer)).map fun s ↦
        (s.main, decide (Event.startPreview 0 gate true ∈ s.mgr.trace))) =
      some (.returned, true) := by
    decide
  obtain ⟨s, hs, hend⟩ := Option.map_eq_some_iff.mp hrun
  simp only [Prod.mk.injEq, decide_eq_true_eq] at hend
  exact ⟨s, hs, hend.1, hend.2, shutdown_settles hs (by decide) hend.1⟩

/-- A `POST /video/start` that comes after the call of `Manager::shutdown` and before the HTTP
server is closed: `run` returns with its session in the slot, and nobody has begun to tear it
down. -/
theorem lateStart_left :
    ∃ s, exec (step defaultConfig) .init (stopVideo [] ++ startRequest ++ closeServer) = some s ∧
      s.main = .returned ∧ .startPreview 0 gate true ∈ s.mgr.trace ∧ s.mgr.current = some 0 ∧
      removers 0 s.mgr.trace = [] := by
  have hrun : ((exec (step defaultConfig) .init (stopVideo [] ++ startRequest ++ closeServer)).map
      fun s ↦ (s.main, decide (Event.startPreview 0 gate true ∈ s.mgr.trace), s.mgr.current,
        removers 0 s.mgr.trace)) = some (.returned, true, some 0, []) := by
    decide
  obtain ⟨s, hs, hend⟩ := Option.map_eq_some_iff.mp hrun
  simp only [Prod.mk.injEq, decide_eq_true_eq] at hend
  exact ⟨s, hs, hend⟩

end Runs

end DoorAccess.Daemon.Shutdown
