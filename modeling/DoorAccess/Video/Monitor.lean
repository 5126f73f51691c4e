import DoorAccess.Video.Consumers

/-!
# The monitor against the callers

The monitor thread of a session decides on its own two things that others act on: to send another
704 when the outdoor has gone quiet, and that the TTL is over. Both decisions are taken outside the
lock of `current` and carried out later. The 704 is sent after a look at `current` under the lock,
which is free again by then; an expiry is carried out by a clean-up thread that looks only whether
the session is still there. In between, the session may be taken out by someone else, or its TTL
refreshed.

`Watch` says once what a step does to the monitors, the deadlines and the clean-ups. From it the two
races are settled exactly: `removal_silences_iff` says when a session that is taken out sends no 704
any more, and `refresh_lasts_iff` when a refresh keeps the session for its TTL.
-/

set_option autoImplicit false
set_option relaxedAutoImplicit false

namespace DoorAccess.Video

open Codec Transition

/-- The reasons that a monitor ends its session for. -/
def Reason.internal : Reason → Bool
  | .ttlExpired | .reinviteFailed => true
  | _ => false

namespace Manager

/-! ### What a step does to the monitors -/

/-- The session that a call is to clean up, and why. -/
def Phase.cleaning : Phase → Option (ℕ × Reason)
  | .calling (.stopInternal p reason) => some (p, reason)
  | _ => none

/-- A monitor that has neither read the clock, nor decided to end its session, nor passed the guard
of a re-invite. -/
def Resting : MonitorPhase → Prop
  | .ticking _ => False
  | .spawning _ => False
  | .inviting => False
  | _ => True

/-- The moves of the monitor of the session `p`, which is `sess` before. -/
inductive MonitorMove (s : State) (p : ℕ) (sess : Session) : MonitorPhase → Prop
  | same (after : MonitorPhase) (hsame : sess.monitor.phase = after) : MonitorMove s p sess after
  | reads : MonitorMove s p sess (.ticking s.now)
  /-- A session is ended for its TTL only when its deadline had passed by the reading of the
  clock. -/
  | decides (now : ℕ) (reason : Reason) (hticking : sess.monitor.phase = .ticking now)
      (hinternal : reason.internal = true)
      (hexpired : reason = .ttlExpired → sess.ttlDeadline < now) :
      MonitorMove s p sess (.spawning reason)
  | invites (hcurrent : s.current = some p) : MonitorMove s p sess .inviting
  | rests (after : MonitorPhase) (hafter : Resting after) : MonitorMove s p sess after

/-- What a step does to the deadline and the monitor of a session. -/
structure Watched (cfg : Config) (s : State) (p : ℕ) (sess sess' : Session) : Prop where
  deadline : sess'.ttlDeadline = sess.ttlDeadline ∨ sess'.ttlDeadline = s.now + cfg.ttlValue
  monitor : MonitorMove s p sess sess'.monitor.phase

/-- A session is new, or it is watched. -/
def SessionsWatched (cfg : Config) (s t : State) : Prop :=
  ∀ p sess', t.sessions p = some sess' →
    (s.sessions p = none ∧ sess'.monitor.phase = .watching) ∨
      ∃ sess, s.sessions p = some sess ∧ Watched cfg s p sess sess'

/-- A call comes to clean up only when the monitor of the session has decided so. -/
def CleanupsSpawned (s t : State) : Prop :=
  ∀ c p reason, (t.calls c).phase.cleaning = some (p, reason) →
    (s.calls c).phase.cleaning = some (p, reason) ∨
      ∃ sess, s.sessions p = some sess ∧ sess.monitor.phase = .spawning reason

/-- Everything that a step can do to the monitors, the deadlines and the clean-ups. -/
structure Watch (cfg : Config) (s t : State) : Prop where
  time : s.now ≤ t.now
  sessions : SessionsWatched cfg s t
  cleanups : CleanupsSpawned s t

section Watch

variable {cfg : Config} {s t u : State} {l : Label} {c p : ℕ} {sess sess' : Session}

theorem sessionsWatched_of_eq (h : t.sessions = s.sessions) : SessionsWatched cfg s t := by
  intro q sessq hsessq
  rw [h] at hsessq
  exact Or.inr ⟨sessq, hsessq, Or.inl rfl, .same _ rfl⟩

/-- One session is replaced. -/
theorem sessionsWatched_of_update (hsess : s.sessions p = some sess)
    (h : t.sessions = Function.update s.sessions p (some sess'))
    (hwatched : Watched cfg s p sess sess') : SessionsWatched cfg s t := by
  intro q sessq hsessq
  rw [h] at hsessq
  by_cases hq : q = p
  · rw [hq, Function.update_self, Option.some.injEq] at hsessq
    rw [hq, ← hsessq]
    exact Or.inr ⟨sess, hsess, hwatched⟩
  · rw [Function.update_of_ne hq] at hsessq
    exact Or.inr ⟨sessq, hsessq, Or.inl rfl, .same _ rfl⟩

/-- One session is replaced by another with the same deadline and monitor. -/
theorem sessionsWatched_of_kept (hsess : s.sessions p = some sess)
    (h : t.sessions = Function.update s.sessions p (some sess'))
    (hdeadline : sess'.ttlDeadline = sess.ttlDeadline)
    (hmonitor : sess'.monitor = sess.monitor) : SessionsWatched cfg s t := by
  refine sessionsWatched_of_update hsess h ⟨Or.inl hdeadline, .same _ ?_⟩
  rw [hmonitor]

/-- The refresh of a TTL, in a state with the same slot, sessions and time. -/
theorem refreshTtl_watched {id : Str} (hnow : u.now = s.now) (hsessions : u.sessions = s.sessions)
    (ht : t.sessions = (refreshTtl cfg u id).1.sessions) : SessionsWatched cfg s t := by
  unfold refreshTtl at ht
  split at ht
  · rename_i p sess hfound
    obtain ⟨-, hsess⟩ := State.currentSession_eq_some.mp hfound
    rw [hsessions] at hsess
    split_ifs at ht
    · rw [State.setSession_sessions, hsessions, hnow] at ht
      exact sessionsWatched_of_update hsess ht ⟨Or.inr rfl, .same _ rfl⟩
    · exact sessionsWatched_of_eq (ht.trans hsessions)
  · exact sessionsWatched_of_eq (ht.trans hsessions)

theorem reuse_watched (hnow : u.now = s.now) (hsessions : u.sessions = s.sessions)
    (hsess : s.sessions p = some sess) (ht : t.sessions = (reuse cfg u p sess).sessions) :
    SessionsWatched cfg s t := by
  unfold reuse at ht
  split_ifs at ht
  · rw [State.setSession_sessions, hsessions, hnow] at ht
    exact sessionsWatched_of_update hsess ht ⟨Or.inr rfl, .same _ rfl⟩
  · exact sessionsWatched_of_eq (ht.trans hsessions)

/-- A step that moves no call. -/
theorem Watch.still (hnow : s.now ≤ t.now) (hsessions : SessionsWatched cfg s t)
    (hphases : ∀ k, (t.calls k).phase = (s.calls k).phase) : Watch cfg s t := by
  refine ⟨hnow, hsessions, ?_⟩
  intro k p reason hk
  rw [hphases] at hk
  exact Or.inl hk

/-- What a move of the call `c` does, but for the other calls: it does not come to clean up. -/
structure CallWatch (cfg : Config) (s t : State) (c : ℕ) : Prop where
  now : t.now = s.now
  sessions : SessionsWatched cfg s t
  cleaning : (t.calls c).phase.cleaning = none

theorem CallWatch.watch (h : CallWatch cfg s t c) (hstep : step cfg s l = some t)
    (hmover : l.mover = .call c) : Watch cfg s t := by
  refine ⟨Nat.le_of_eq h.now.symm, h.sessions, ?_⟩
  intro k p reason hk
  rcases step_phases hstep k with hcall | hsame | ⟨q, r, rfl, -, -⟩
  · rw [hmover] at hcall
    obtain rfl := Mover.call.inj hcall
    rw [h.cleaning] at hk
    exact absurd hk (by simp)
  · rw [hsame] at hk
    exact Or.inl hk
  · exact absurd hmover (by simp [Label.mover])

theorem CallWatch.setPhase {phase : Phase} (hnow : u.now = s.now)
    (hsessions : SessionsWatched cfg s u) (hphase : phase.cleaning = none) :
    CallWatch cfg s (u.setPhase c phase) c := by
  refine ⟨hnow, hsessions, ?_⟩
  rw [State.setPhase_calls, Function.update_self]
  exact hphase

theorem CallWatch.reply {r : Reply} (hnow : u.now = s.now) (hsessions : SessionsWatched cfg s u) :
    CallWatch cfg s (u.reply c r) c := by
  refine ⟨hnow, hsessions, ?_⟩
  simp [State.reply, Phase.cleaning]

theorem Watch.setSession (hsess : s.sessions p = some sess)
    (hdeadline : sess'.ttlDeadline = sess.ttlDeadline)
    (hmonitor : MonitorMove s p sess sess'.monitor.phase) :
    Watch cfg s (s.setSession p sess') :=
  .still (Nat.le_refl _) (sessionsWatched_of_update hsess rfl ⟨Or.inl hdeadline, hmonitor⟩)
    fun _ ↦ rfl

/-! ### Every step is watched -/

theorem tick_watch {now : ℕ} (hsess : s.sessions p = some sess)
    (hticking : sess.monitor.phase = .ticking now) : Watch cfg s (tick cfg s p sess now) := by
  refine .setSession hsess rfl ?_
  simp only [tickMonitor]
  split_ifs with hfired hexpired
  · exact .rests _ trivial
  · exact .decides now .ttlExpired hticking rfl fun _ ↦ hexpired
  · split
    · exact .rests _ trivial
    · exact .decides now .reinviteFailed hticking rfl (by simp)
    · exact .rests _ trivial

theorem spawnCleanup_watch {reason : Reason} (hsess : s.sessions p = some sess)
    (hspawning : sess.monitor.phase = .spawning reason) :
    Watch cfg s (spawnCleanup s p sess c reason) := by
  refine ⟨Nat.le_refl _, ?_, ?_⟩
  · exact sessionsWatched_of_update hsess rfl ⟨Or.inl rfl, .rests _ trivial⟩
  · intro k q r hk
    simp only [spawnCleanup, State.setPhase_calls, State.setSession_calls] at hk
    by_cases hkc : k = c
    · rw [hkc, Function.update_self, Phase.cleaning, Option.some.injEq, Prod.mk.injEq] at hk
      obtain ⟨rfl, rfl⟩ := hk
      exact Or.inr ⟨sess, hsess, hspawning⟩
    · rw [Function.update_of_ne hkc] at hk
      exact Or.inl hk

theorem registerCleanup_watch (hsess : s.sessions p = some sess) :
    Watch cfg s (registerCleanup s p sess c) := by
  refine .still (Nat.le_refl _) ?_ fun _ ↦ rfl
  exact sessionsWatched_of_update hsess rfl ⟨Or.inl rfl, .rests _ trivial⟩

theorem look_watch (hsess : s.sessions p = some sess) (h : look s sess = some sess') :
    Watch cfg s (s.setSession p sess') := by
  unfold look at h
  split_ifs at h
  · obtain rfl := Option.some.inj h
    exact .setSession hsess rfl (.rests _ trivial)
  · obtain rfl := Option.some.inj h
    exact .setSession hsess rfl .reads

theorem guardReinvite_watch {now : ℕ} (hsess : s.sessions p = some sess) :
    Watch cfg s (s.setSession p (guardReinvite s p sess now)) := by
  unfold guardReinvite
  split_ifs with hcurrent
  · exact .setSession hsess rfl (.invites hcurrent)
  · exact .setSession hsess rfl (.rests _ trivial)

theorem reinvite_watch (hsess : s.sessions p = some sess) : Watch cfg s (reinvite s p sess) := by
  refine .still (Nat.le_refl _) ?_ fun _ ↦ rfl
  exact sessionsWatched_of_update hsess rfl ⟨Or.inl rfl, .rests _ trivial⟩

theorem refreshTtl_now (cfg : Config) (s : State) (id : Str) :
    (refreshTtl cfg s id).1.now = s.now := by
  unfold refreshTtl
  split
  · split_ifs
    · rfl
    · rfl
  · rfl

theorem finClose_watch (hsess : s.sessions p = some sess) : Watch cfg s (finClose s c p sess) :=
  .still (Nat.le_refl _) (sessionsWatched_of_kept hsess rfl rfl rfl) finClose_phases

theorem refreshLoop_watch : Watch cfg s (refreshLoop s c sess cfg) :=
  .still (Nat.le_of_eq (refreshTtl_now cfg s sess.id).symm)
    (refreshTtl_watched (u := s) rfl rfl rfl) refreshLoop_phases

theorem takeCurrent_watch {op : Op} {key : ℕ → Session → Bool} {reason : Reason} {deadline : ℕ}
    {otherwise : State} (hnow : u.now = s.now) (hsessions : u.sessions = s.sessions)
    (hotherwise : CallWatch cfg s otherwise c) :
    CallWatch cfg s (takeCurrent u c op key reason deadline otherwise) c := by
  unfold takeCurrent
  split
  · split_ifs
    · refine ⟨hnow, sessionsWatched_of_eq hsessions, ?_⟩
      rw [State.log_calls, State.setPhase_calls, Function.update_self]
      rfl
    · exact hotherwise
  · exact hotherwise

theorem enter_watch {op : Op} : CallWatch cfg s (enter cfg s c op) c := by
  have hsame : SessionsWatched cfg s (s.log (.entered c op s.current)) := sessionsWatched_of_eq rfl
  have hdone : CallWatch cfg s ((s.log (.entered c op s.current)).reply c .done) c :=
    .reply rfl hsame
  cases op with
  | start outdoor =>
    simp only [enter, start]
    split
    · rename_i p sess hfound
      obtain ⟨-, hsess⟩ := State.currentSession_eq_some.mp hfound
      rw [State.log_sessions] at hsess
      split_ifs
      · refine .reply ?_
          (reuse_watched (u := s.log (.entered c (.start outdoor) s.current)) rfl rfl hsess rfl)
        unfold reuse
        split_ifs
        · rfl
        · rfl
      · exact .reply rfl hsame
    · exact .setPhase rfl (sessionsWatched_of_eq rfl) rfl
  | stop uri => exact takeCurrent_watch rfl rfl hdone
  | stopById id => exact takeCurrent_watch rfl rfl hdone
  | refreshTtl id =>
    exact .reply (refreshTtl_now cfg _ id)
      (refreshTtl_watched (u := s.log (.entered c (.refreshTtl id) s.current)) rfl rfl rfl)
  | stopInternal q reason => exact takeCurrent_watch rfl rfl hdone
  | shutdown overall => exact takeCurrent_watch rfl rfl (.setPhase rfl hsame rfl)
  | stream id =>
    simp only [enter, stream]
    split
    · split_ifs
      · exact .setPhase rfl hsame rfl
      · exact .reply rfl hsame
    · exact .reply rfl hsame

theorem startFails_watch {error : StartError} (hnow : u.now = s.now)
    (hsessions : u.sessions = s.sessions) : CallWatch cfg s (startFails u c error) c :=
  .reply hnow (sessionsWatched_of_eq hsessions)

theorem drawNumbers_watch {outdoor : Outdoor} {uuid : Option Str} {ssrc : Option UInt32}
    (hfresh : s.sessions p = none) :
    CallWatch cfg s (drawNumbers cfg s c outdoor uuid ssrc p) c := by
  unfold drawNumbers
  split
  · exact .setPhase rfl (sessionsWatched_of_eq rfl) rfl
  · exact .setPhase rfl (sessionsWatched_of_eq rfl) rfl
  · refine .setPhase rfl ?_ rfl
    intro q sessq hsessq
    rw [State.setSession_sessions] at hsessq
    by_cases hq : q = p
    · rw [hq, Function.update_self, Option.some.injEq] at hsessq
      rw [hq, ← hsessq]
      exact Or.inl ⟨hfresh, rfl⟩
    · rw [Function.update_of_ne hq] at hsessq
      exact Or.inr ⟨sessq, hsessq, Or.inl rfl, .same _ rfl⟩

theorem teardown_watch {reason : Reason} {deadline : ℕ} {phase : TeardownPhase}
    (hsess : s.sessions p = some sess) :
    CallWatch cfg s (teardown s c p sess reason deadline phase) c := by
  have hsessions : ∀ st, SessionsWatched cfg s
      ((s.setSession p (Session.tear sess phase)).log (.tore c p st)) := by
    intro st
    refine sessionsWatched_of_kept hsess rfl ?_ ?_
    · cases phase <;> rfl
    · cases phase <;> rfl
  unfold teardown
  cases phase with
  | stopPreview | bye | stopFlag => exact .setPhase rfl (hsessions _) rfl
  | close =>
    simp only
    split_ifs
    · exact .setPhase rfl (hsessions _) rfl
    · exact .reply rfl (hsessions _)

/-- A handler leaves, perhaps after a last unit. -/
theorem leave_watch {consumer : Option ℕ} {last : FrameBuffer} (hsess : s.sessions p = some sess) :
    CallWatch cfg s (leave s c p { sess with frameBuf := last } consumer) c := by
  refine ⟨rfl, sessionsWatched_of_kept hsess rfl rfl rfl, ?_⟩
  simp [leave, Phase.cleaning]

theorem seed_watch {ok : Bool} (hsess : s.sessions p = some sess) :
    CallWatch cfg s (seed s c p sess ok) c := by
  unfold seed
  split_ifs
  · exact leave_watch hsess
  · exact .setPhase rfl (sessionsWatched_of_kept hsess rfl rfl rfl) rfl

theorem receive_watch {consumer : Option ℕ} {ok : Bool}
    (hphase : (s.calls c).phase = .streaming p consumer) (hsess : s.sessions p = some sess)
    (h : receive s c p sess consumer ok = some t) : CallWatch cfg s t c := by
  simp only [receive, Option.bind_eq_some_iff, Option.map_eq_some_iff] at h
  obtain ⟨k, -, ⟨n, fb⟩, -, rfl⟩ := h
  split_ifs
  · refine ⟨rfl, sessionsWatched_of_kept hsess rfl rfl rfl, ?_⟩
    rw [State.setSession_calls, hphase]
    rfl
  · exact leave_watch hsess

theorem beginStream_watch {peek : Bool} : CallWatch cfg s (beginStream s c p sess cfg peek) c := by
  refine ⟨refreshTtl_now cfg s sess.id, refreshTtl_watched (u := s) rfl rfl rfl, ?_⟩
  simp [beginStream, Phase.cleaning]

theorem call_watch {op : Op} (hpublic : op.public = true) :
    CallWatch cfg s (s.setPhase c (.calling op)) c := by
  refine .setPhase rfl (sessionsWatched_of_eq rfl) ?_
  cases op with
  | stopInternal => exact absurd hpublic Bool.false_ne_true
  | _ => rfl

theorem bindUdp_watch {outdoor : Outdoor} {ok : Bool} :
    CallWatch cfg s (bindUdp s c outdoor ok) c := by
  unfold bindUdp
  split_ifs
  · exact .setPhase rfl (sessionsWatched_of_eq rfl) rfl
  · exact startFails_watch rfl rfl

theorem startPreview_watch {outdoor : Outdoor} {ok : Bool} :
    CallWatch cfg s (startPreview s c outdoor ok) c := by
  unfold startPreview
  split_ifs
  · exact .setPhase rfl (sessionsWatched_of_eq rfl) rfl
  · exact startFails_watch rfl rfl

theorem commit_watch : CallWatch cfg s (commit cfg s c p sess) c :=
  .reply rfl (sessionsWatched_of_eq rfl)

theorem reconcile_watch {overall : ℕ} :
    CallWatch cfg s { s.setPhase c (.draining overall s.cleanups) with cleanups := [] } c := by
  refine ⟨rfl, sessionsWatched_of_eq rfl, ?_⟩
  rw [State.setPhase_calls, Function.update_self]
  rfl

theorem waitIdr_watch {deadline : ℕ} (h : waitIdr s c p sess deadline = some t) :
    CallWatch cfg s t c := by
  have hsame : SessionsWatched cfg s s := sessionsWatched_of_eq rfl
  unfold waitIdr at h
  split_ifs at h
  · obtain rfl := Option.some.inj h
    exact .reply rfl hsame
  · obtain rfl := Option.some.inj h
    exact .setPhase rfl hsame rfl
  · obtain rfl := Option.some.inj h
    exact .reply rfl hsame

theorem checkReady_watch : CallWatch cfg s (checkReady s c p sess) c := by
  have hsame : SessionsWatched cfg s s := sessionsWatched_of_eq rfl
  unfold checkReady
  split_ifs
  · exact .reply rfl hsame
  · exact .reply rfl hsame
  · exact .setPhase rfl hsame rfl

theorem joinThreads_watch : CallWatch cfg s (joinThreads s c sess) c := by
  refine ⟨rfl, sessionsWatched_of_eq rfl, ?_⟩
  simp [joinThreads, Phase.cleaning]

/-- Every step does one of these things to the monitors, the deadlines and the clean-ups. -/
theorem step_watch (h : step cfg s l = some t) : Watch cfg s t := by
  cases step_move h with
  | elapse d => exact .still (Nat.le_add_right _ _) (sessionsWatched_of_eq rfl) fun _ ↦ rfl
  | call c op hphase hpublic => exact (call_watch hpublic).watch h rfl
  | enter c op => exact enter_watch.watch h rfl
  | bindUdp c outdoor ok => exact bindUdp_watch.watch h rfl
  | startPreview c outdoor ok => exact startPreview_watch.watch h rfl
  | drawNumbers c outdoor uuid ssrc p hphase hfresh =>
    exact (drawNumbers_watch hfresh).watch h rfl
  | rollback c outdoor missing => exact CallWatch.watch (startFails_watch rfl rfl) h rfl
  | commit c outdoor p sess => exact commit_watch.watch h rfl
  | teardown c p sess reason deadline phase hphase hsess =>
    exact (teardown_watch hsess).watch h rfl
  | reconcile c overall => exact reconcile_watch.watch h rfl
  | drained c overall handles =>
    exact (CallWatch.reply rfl (sessionsWatched_of_eq rfl)).watch h rfl
  | waitIdr c p sess deadline t hphase hsess hwait => exact (waitIdr_watch hwait).watch h rfl
  | checkReady c p sess => exact checkReady_watch.watch h rfl
  | beginStream c p sess peek => exact beginStream_watch.watch h rfl
  | seed c p sess ok hphase hsess => exact (seed_watch hsess).watch h rfl
  | receive c p sess consumer ok t hphase hsess hreceive =>
    exact (receive_watch hphase hsess hreceive).watch h rfl
  | flushFails c p sess consumer hphase hsess => exact (leave_watch hsess).watch h rfl
  | hangUp c p sess consumer hphase hsess => exact (leave_watch hsess).watch h rfl
  | joinThreads c p sess => exact joinThreads_watch.watch h rfl
  | finClose c p sess hstreamed hsess => exact finClose_watch hsess
  | refreshLoop c p sess => exact refreshLoop_watch
  | packet p sess hsess => exact .setSession hsess rfl (.same _ rfl)
  | push p n sess hsess => exact .setSession hsess rfl (.same _ rfl)
  | send p sess fb hsess => exact .setSession hsess rfl (.same _ rfl)
  | look p sess sess' hsess hlook => exact look_watch hsess hlook
  | tick p sess now hsess hticking => exact tick_watch hsess hticking
  | spawnCleanup p c sess reason hsess hmonitor => exact spawnCleanup_watch hsess hmonitor
  | registerCleanup p c sess hsess => exact registerCleanup_watch hsess
  | guardReinvite p sess now hsess => exact guardReinvite_watch hsess
  | reinvite p sess hsess => exact reinvite_watch hsess

end Watch

/-! ### A session that is taken out -/

/-- The step with which a call gets hold of `current` and takes the session `p` out of it. -/
def Removes (s : State) (l : Label) (op : Op) (p : ℕ) : Prop :=
  ∃ c sess, l = .enter c ∧ (s.calls c).phase = .calling op ∧ s.currentSession = some (p, sess) ∧
    op.Takes p sess

section Removal

variable {cfg : Config} {s t u : State} {l : Label} {op : Op} {p : ℕ} {sess : Session}
  {labels : List Label}

theorem takeCurrent_removes {c : ℕ} {key : ℕ → Session → Bool} {reason : Reason} {deadline : ℕ}
    {otherwise : State}
    (ht : t = takeCurrent (s.log (.entered c op s.current)) c op key reason deadline otherwise)
    (hcurrent : s.currentSession = some (p, sess)) (hkey : key p sess = true) :
    t.current = none ∧ t.sessions = s.sessions ∧ t.now = s.now ∧ removers p t.trace ≠ [] := by
  have hlogged : (s.log (.entered c op s.current)).currentSession = some (p, sess) := hcurrent
  simp only [takeCurrent, hlogged, if_pos hkey] at ht
  subst ht
  refine ⟨rfl, rfl, rfl, List.ne_nil_of_mem (a := c) ?_⟩
  exact mem_removers.mpr ⟨op, by simp⟩

theorem Removes.step (hremoves : Removes s l op p) (h : Manager.step cfg s l = some t) :
    t.current = none ∧ t.sessions = s.sessions ∧ t.now = s.now ∧ removers p t.trace ≠ [] := by
  obtain ⟨c, sess, rfl, hphase, hcurrent, htakes⟩ := hremoves
  simp only [Manager.step, Label.mover, stepCall, hphase] at h
  split_ifs at h
  obtain rfl := Option.some.inj h
  cases op with
  | stop uri =>
    refine takeCurrent_removes rfl hcurrent ?_
    exact decide_eq_true htakes
  | stopById id =>
    refine takeCurrent_removes rfl hcurrent ?_
    exact decide_eq_true htakes
  | stopInternal q reason =>
    refine takeCurrent_removes rfl hcurrent ?_
    exact decide_eq_true htakes
  | shutdown overall =>
    refine takeCurrent_removes rfl hcurrent ?_
    rfl
  | _ => exact htakes.elim

theorem SlotInv.removers_of_current (h : SlotInv s) (hcurrent : s.current = some p) :
    removers p s.trace = [] := by
  cases h.status p with
  | current _ _ hremovers => exact hremovers
  | outside hnot => exact absurd hcurrent hnot
  | tearing _ _ _ _ _ hnot => exact absurd hcurrent hnot
  | torn _ _ hnot => exact absurd hcurrent hnot

/-- The monitor spawns the clean-up it has decided on as any call that is not yet used. -/
theorem step_spawnCleanup (cfg : Config) {c : ℕ} {reason : Reason} (hsess : s.sessions p = some sess)
    (hspawning : sess.monitor.phase = .spawning reason) (hidle : (s.calls c).phase = .idle) :
    step cfg s (.spawnCleanup p c) = some (spawnCleanup s p sess c reason) := by
  simp only [step, Label.mover, hsess, Option.bind_some, stepSession, hspawning, if_pos hidle]

theorem step_registerCleanup (cfg : Config) {c : ℕ} (hsess : s.sessions p = some sess)
    (hregistering : sess.monitor.phase = .registering c) :
    step cfg s (.registerCleanup p) = some (registerCleanup s p sess c) := by
  simp only [step, Label.mover, hsess, Option.bind_some, stepSession, hregistering]

theorem step_reinvite (cfg : Config) (hsess : s.sessions p = some sess) :
    (∃ t, step cfg s (.reinvite p) = some t) ↔ sess.monitor.phase = .inviting := by
  have hstep : step cfg s (.reinvite p) = stepSession cfg s p sess (.reinvite p) := by
    simp only [step, Label.mover, hsess, Option.bind_some]
  rw [hstep]
  cases hphase : sess.monitor.phase with
  | inviting => simp [stepSession, hphase]
  | _ => simp [stepSession, hphase]

/-- What carries the silence over a run: the session is out, and its monitor is not about to
signal. -/
structure Silent (p : ℕ) (s : State) : Prop where
  slot : SlotInv s
  removed : removers p s.trace ≠ []
  monitor : ∀ sess, s.sessions p = some sess → sess.monitor.phase ≠ .inviting

theorem Silent.step (h : Silent p s) (hstep : Manager.step cfg s l = some t) : Silent p t := by
  refine ⟨(step_effect h.slot.filled hstep).slotInv h.slot, ?_, ?_⟩
  · obtain ⟨evs, htrace, -⟩ := (step_streamEffect hstep).trace
    rw [htrace, removers_append]
    exact List.append_ne_nil_of_left_ne_nil h.removed _
  · intro sess' hsess' hphase
    rcases (step_watch hstep).sessions p sess' hsess' with ⟨-, hnew⟩ | ⟨sess, hsess, hwatched⟩
    · rw [hphase] at hnew
      exact absurd hnew (by simp)
    · have hmove := hwatched.monitor
      rw [hphase] at hmove
      cases hmove with
      | same _ hbefore => exact h.monitor sess hsess hbefore
      | invites hcurrent => exact h.removed (h.slot.removers_of_current hcurrent)
      | rests _ hafter => exact hafter

theorem Silent.not_mem (h : Silent p s) (hrun : exec (Manager.step cfg) s labels = some u) :
    .reinvite p ∉ labels := by
  induction labels generalizing s with
  | nil => exact List.not_mem_nil
  | cons l ls ih =>
    obtain ⟨t, hstep, hrest⟩ := exec_cons_eq_some.mp hrun
    rw [List.mem_cons, not_or]
    refine ⟨?_, ih (h.step hstep) hrest⟩
    rintro rfl
    have hsess : ∃ sess, s.sessions p = some sess := by
      obtain ⟨sess, hsess, -⟩ := Option.bind_eq_some_iff.mp hstep
      exact ⟨sess, hsess⟩
    obtain ⟨sess, hsess⟩ := hsess
    exact h.monitor sess hsess ((step_reinvite cfg hsess).mp ⟨t, hstep⟩)

/-- A session that is taken out sends no 704 any more, whatever the threads do from there on, if and
only if its monitor is not between the guard of `tick_reinvite` and its 704 at that moment. -/
theorem removal_silences_iff (hreach : Reachable (step cfg) .init s) (hremoves : Removes s l op p)
    (hsess : s.sessions p = some sess) (hstep : step cfg s l = some t) :
    (∀ labels u, exec (step cfg) t labels = some u → .reinvite p ∉ labels) ↔
      sess.monitor.phase ≠ .inviting := by
  obtain ⟨-, hsessions, -, hremoved⟩ := hremoves.step hstep
  have hsess' : t.sessions p = some sess := by rw [hsessions, hsess]
  constructor
  · intro hsilent hinviting
    obtain ⟨u, hu⟩ := (step_reinvite cfg hsess').mpr hinviting
    have hrun : exec (step cfg) t [.reinvite p] = some u :=
      exec_cons_eq_some.mpr ⟨u, hu, rfl⟩
    exact hsilent _ _ hrun (List.mem_singleton.mpr rfl)
  · intro hphase labels u hrun
    have hsilent : Silent p t := by
      refine ⟨reachable_slotInv (hreach.next hstep), hremoved, ?_⟩
      intro sess' hsame
      rw [hsess', Option.some.injEq] at hsame
      exact hsame ▸ hphase
    exact hsilent.not_mem hrun

/-- A stream with one consumer whose outdoor has gone quiet: the monitor has decided to signal. -/
def quietStream : List Label :=
  startMoves 0 (ascii "a") 0 ++
    [.push 0 (unit NAL_TYPE_SPS), .send 0, .push 0 (unit NAL_TYPE_PPS), .send 0,
      .push 0 (unit NAL_TYPE_IDR), .send 0] ++
    streamMoves 1 (ascii "a") ++ [.elapse 2000, .look 0, .tick 0, .call 2 (.stop gate.uri)]

/-- The `stop` comes before the guard, and there is no 704 after it. -/
theorem removal_silences_guarding :
    ∃ s t, Reachable (step defaultConfig) .init s ∧ Removes s (.enter 2) (.stop gate.uri) 0 ∧
      step defaultConfig s (.enter 2) = some t ∧
      ∀ labels u, exec (step defaultConfig) t labels = some u → .reinvite 0 ∉ labels := by
  have hbefore : ((exec (step defaultConfig) .init quietStream).map fun s ↦
      ((s.calls 2).phase, s.current, (s.sessions 0).map fun sess ↦
        (sess.monitor.phase, sess.outdoor.uri))) =
        some (.calling (.stop gate.uri), some 0, some (.guarding 2000, gate.uri)) := by
    decide
  obtain ⟨s, hs, hview⟩ := Option.map_eq_some_iff.mp hbefore
  simp only [Prod.mk.injEq, Option.map_eq_some_iff] at hview
  obtain ⟨hphase, hcurrent, sess, hsess, hguarding, huri⟩ := hview
  have hremoves : Removes s (.enter 2) (.stop gate.uri) 0 :=
    ⟨2, sess, rfl, hphase, State.currentSession_eq_some.mpr ⟨hcurrent, hsess⟩, huri⟩
  obtain ⟨t, ht⟩ : ∃ t, step defaultConfig s (.enter 2) = some t :=
    exists_step_of_exec hs (by decide)
  refine ⟨s, t, ⟨_, hs⟩, hremoves, ht, ?_⟩
  refine (removal_silences_iff ⟨_, hs⟩ hremoves hsess ht).mpr ?_
  rw [hguarding]
  simp

/-- The `stop` comes after the guard: the outdoor gets its 708, and then the 704. -/
theorem reinvite_after_stop :
    ∃ s t, Reachable (step defaultConfig) .init s ∧ s.current = none ∧
      .removed 2 (.stop gate.uri) 0 ∈ s.trace ∧ .tore 2 0 (.stopPreview true) ∈ s.trace ∧
      step defaultConfig s (.reinvite 0) = some t ∧ .reinvited 0 ∈ t.trace := by
  have hrun : ((exec (step defaultConfig) .init
      (quietStream ++ [.guardReinvite 0, .enter 2, .teardown 2])).map fun s ↦
        (s.current, decide (Event.removed 2 (.stop gate.uri) 0 ∈ s.trace),
          decide (Event.tore 2 0 (.stopPreview true) ∈ s.trace),
          (s.sessions 0).map fun sess ↦ sess.monitor.phase)) =
        some (none, true, true, some .inviting) := by
    decide
  obtain ⟨s, hs, hview⟩ := Option.map_eq_some_iff.mp hrun
  simp only [Prod.mk.injEq, decide_eq_true_eq, Option.map_eq_some_iff] at hview
  obtain ⟨hcurrent, hremoved, htore, sess, hsess, hinviting⟩ := hview
  obtain ⟨t, ht⟩ := (step_reinvite defaultConfig hsess).mpr hinviting
  refine ⟨s, t, ⟨_, hs⟩, hcurrent, hremoved, htore, ht, ?_⟩
  simp only [step, Label.mover, hsess, Option.bind_some, stepSession, hinviting] at ht
  obtain rfl := Option.some.inj ht
  simp [reinvite]

end Removal

/-! ### A TTL that is refreshed -/

/-- The step refreshes the TTL of `p`: a `refresh_ttl` finds it, called as such or by a stream
handler, or a `start` finds it with a complete seed. -/
def Refreshes (s : State) (l : Label) (p : ℕ) : Prop :=
  ∃ sess, s.currentSession = some (p, sess) ∧
    match l with
    | .enter c => (s.calls c).phase = .calling (.refreshTtl sess.id) ∨
      ∃ outdoor, (s.calls c).phase = .calling (.start outdoor) ∧
        sess.outdoor.uri = outdoor.uri ∧ sess.frameBuf.latestIdr.isSome = true
    | .beginStream c _ => ∃ q sessq, (s.calls c).phase = .ready q ∧ s.sessions q = some sessq ∧
      sessq.id = sess.id
    | .refreshLoop c => ∃ q sessq, (s.calls c).phase.streamed = some q ∧
      s.sessions q = some sessq ∧ sessq.id = sess.id
    | _ => False

/-- What a refresh by the call `c` does. -/
structure Refreshed (cfg : Config) (s t : State) (c p : ℕ) : Prop where
  now : t.now = s.now
  current : t.current = some p
  holder : t.holder = none
  session : ∃ sess, s.sessions p = some sess ∧
    t.sessions p = some { sess with ttlDeadline := s.now + cfg.ttlValue }
  others : ∀ k, k ≠ c → (t.calls k).phase = (s.calls k).phase
  before : (s.calls c).phase.cleaning = none
  after : (t.calls c).phase.cleaning = none

section Refresh

variable {cfg : Config} {s t u : State} {l : Label} {c p bound : ℕ} {sess : Session}
  {labels : List Label}

theorem refreshTtl_of_found (cfg : Config) (hcurrent : s.currentSession = some (p, sess)) :
    refreshTtl cfg s sess.id =
      (s.setSession p { sess with ttlDeadline := s.now + cfg.ttlValue }, true) := by
  unfold refreshTtl
  rw [hcurrent]
  exact if_pos rfl

theorem Refreshes.step (hrefreshes : Refreshes s l p) (h : Manager.step cfg s l = some t) :
    ∃ c, Refreshed cfg s t c p := by
  obtain ⟨sess, hfound, hlabel⟩ := hrefreshes
  obtain ⟨hcurrent, hsess⟩ := State.currentSession_eq_some.mp hfound
  cases l with
  | enter c =>
    refine ⟨c, ?_⟩
    have hlogged : ∀ op, (s.log (.entered c op s.current)).currentSession = some (p, sess) :=
      fun _ ↦ hfound
    rcases hlabel with hphase | ⟨outdoor, hphase, huri, hidr⟩
    · simp only [Manager.step, Label.mover, stepCall, hphase] at h
      split_ifs at h with hfree
      obtain rfl := Option.some.inj h
      simp only [enter, refreshTtl_of_found cfg (hlogged _)]
      refine ⟨rfl, hcurrent, hfree, ⟨sess, hsess, Function.update_self _ _ _⟩, ?_, ?_, ?_⟩
      · intro k hk
        simp [State.reply, hk]
      · rw [hphase]
        rfl
      · simp [State.reply, Phase.cleaning]
    · simp only [Manager.step, Label.mover, stepCall, hphase] at h
      split_ifs at h with hfree
      obtain rfl := Option.some.inj h
      simp only [enter, start, hlogged, if_pos huri, reuse, if_pos hidr]
      refine ⟨rfl, hcurrent, hfree, ⟨sess, hsess, Function.update_self _ _ _⟩, ?_, ?_, ?_⟩
      · intro k hk
        simp [State.reply, hk]
      · rw [hphase]
        rfl
      · simp [State.reply, Phase.cleaning]
  | beginStream c peek =>
    obtain ⟨q, sessq, hphase, hsessq, hid⟩ := hlabel
    refine ⟨c, ?_⟩
    simp only [Manager.step, Label.mover, stepCall, hphase, hsessq, Option.map_some] at h
    split_ifs at h with hfree
    obtain rfl := Option.some.inj h
    simp only [beginStream, hid, refreshTtl_of_found cfg hfound]
    refine ⟨rfl, hcurrent, hfree, ⟨sess, hsess, Function.update_self _ _ _⟩, ?_, ?_, ?_⟩
    · intro k hk
      simp [hk]
    · rw [hphase]
      rfl
    · simp [Phase.cleaning]
  | refreshLoop c =>
    obtain ⟨q, sessq, hstreamed, hsessq, hid⟩ := hlabel
    refine ⟨c, ?_⟩
    have hcleaning : (s.calls c).phase.cleaning = none := by
      cases hphase : (s.calls c).phase with
      | calling op =>
        rw [hphase] at hstreamed
        exact absurd hstreamed (by simp [Phase.streamed])
      | _ => rfl
    simp only [Manager.step, Label.mover, stepHelper, hstreamed, hsessq, Option.bind_some] at h
    split_ifs at h with hfree
    obtain rfl := Option.some.inj h
    simp only [refreshLoop, hid, refreshTtl_of_found cfg hfound]
    refine ⟨rfl, hcurrent, hfree.2, ⟨sess, hsess, Function.update_self _ _ _⟩, ?_, hcleaning, ?_⟩
    · intro k hk
      simp [hk]
    · simpa using hcleaning
  | _ => exact hlabel.elim

/-- A monitor's reading of the clock is not ahead of it. -/
def ClockInv (s : State) : Prop :=
  ∀ p sess now, s.sessions p = some sess → sess.monitor.phase = .ticking now → now ≤ s.now

theorem step_clockInv (h : ClockInv s) (hstep : step cfg s l = some t) : ClockInv t := by
  have hwatch := step_watch hstep
  intro p sess' now hsess' hphase
  rcases hwatch.sessions p sess' hsess' with ⟨-, hnew⟩ | ⟨sess, hsess, hwatched⟩
  · rw [hphase] at hnew
    exact absurd hnew (by simp)
  · have hmove := hwatched.monitor
    rw [hphase] at hmove
    cases hmove with
    | same _ hbefore => exact Nat.le_trans (h p sess now hsess hbefore) hwatch.time
    | reads => exact hwatch.time
    | rests _ hafter => exact hafter.elim

theorem reachable_clockInv (hreach : Reachable (step cfg) .init s) : ClockInv s :=
  hreach.invariant (fun _ _ _ hsess ↦ absurd hsess (by simp [State.init])) step_clockInv

/-- What carries a refresh over a run: the session has until `bound`, and neither its monitor decides
to end it for its TTL nor is a clean-up for it spawned before. -/
structure Lasts (cfg : Config) (p bound : ℕ) (s : State) : Prop where
  slot : SlotInv s
  clock : ClockInv s
  time : bound ≤ s.now + cfg.ttlValue
  deadline : ∃ sess, s.sessions p = some sess ∧ bound ≤ sess.ttlDeadline
  spawning : ∀ sess, s.sessions p = some sess → sess.monitor.phase = .spawning .ttlExpired →
    bound ≤ s.now
  cleanups : ∀ c, (s.calls c).phase.cleaning = some (p, .ttlExpired) → bound ≤ s.now

theorem Lasts.step (h : Lasts cfg p bound s) (hstep : Manager.step cfg s l = some t) :
    Lasts cfg p bound t := by
  have heffect := step_effect h.slot.filled hstep
  have hwatch := step_watch hstep
  obtain ⟨sess, hsess, hdeadline⟩ := h.deadline
  have htime := h.time
  have hmono := hwatch.time
  refine ⟨heffect.slotInv h.slot, step_clockInv h.clock hstep, by omega, ?_, ?_, ?_⟩
  · obtain ⟨sess', hsess', -⟩ := heffect.answerMove.1 p sess hsess
    refine ⟨sess', hsess', ?_⟩
    rcases hwatch.sessions p sess' hsess' with ⟨hnone, -⟩ | ⟨before, hbefore, hwatched⟩
    · rw [hsess] at hnone
      exact absurd hnone (by simp)
    · rw [hsess, Option.some.injEq] at hbefore
      subst hbefore
      rcases hwatched.deadline with hsame | hnew
      · rw [hsame]
        exact hdeadline
      · rw [hnew]
        exact htime
  · intro sess' hsess' hphase
    rcases hwatch.sessions p sess' hsess' with ⟨hnone, -⟩ | ⟨before, hbefore, hwatched⟩
    · rw [hsess] at hnone
      exact absurd hnone (by simp)
    · rw [hsess, Option.some.injEq] at hbefore
      subst hbefore
      have hmove := hwatched.monitor
      rw [hphase] at hmove
      cases hmove with
      | same _ hspawning => exact Nat.le_trans (h.spawning sess hsess hspawning) hmono
      | decides now _ hticking _ hexpired =>
        -- The deadline that the monitor compared with is that of the refresh, or a later one.
        have hread := h.clock p sess now hsess hticking
        have hpassed := hexpired rfl
        omega
      | rests _ hafter => exact hafter.elim
  · intro c hc
    rcases hwatch.cleanups c p .ttlExpired hc with hold | ⟨before, hbefore, hspawning⟩
    · exact Nat.le_trans (h.cleanups c hold) hmono
    · exact Nat.le_trans (h.spawning before hbefore hspawning) hmono

/-- Nobody has decided to end the session `p` for its TTL: neither is a clean-up for it waiting for
`current`, nor has its monitor compared the deadline and not yet spawned one. -/
structure Unexpired (s : State) (p : ℕ) : Prop where
  cleanups : ∀ k, (s.calls k).phase ≠ .calling (.stopInternal p .ttlExpired)
  monitor : ∀ sess, s.sessions p = some sess → sess.monitor.phase ≠ .spawning .ttlExpired

theorem Refreshed.lasts (h : Refreshed cfg s t c p) (hslot : SlotInv t) (hclock : ClockInv t)
    (hunexpired : Unexpired s p) : Lasts cfg p (s.now + cfg.ttlValue) t := by
  obtain ⟨sess, hsess, hsess'⟩ := h.session
  refine ⟨hslot, hclock, Nat.le_of_eq (by rw [h.now]), ⟨_, hsess', Nat.le_refl _⟩, ?_, ?_⟩
  · intro sess₁ hsess₁ hspawning
    rw [hsess', Option.some.injEq] at hsess₁
    subst hsess₁
    exact absurd hspawning (hunexpired.monitor sess hsess)
  intro k hk
  by_cases hkc : k = c
  · rw [hkc, h.after] at hk
    exact absurd hk (by simp)
  · rw [h.others k hkc] at hk
    cases hphase : (s.calls k).phase with
    | calling op =>
      rw [hphase] at hk
      cases op with
      | stopInternal q reason =>
        simp only [Phase.cleaning, Option.some.injEq, Prod.mk.injEq] at hk
        rw [hk.1, hk.2] at hphase
        exact absurd hphase (hunexpired.cleanups k)
      | _ => exact absurd hk (by simp [Phase.cleaning])
    | _ =>
      rw [hphase] at hk
      exact absurd hk (by simp [Phase.cleaning])

theorem ttlValue_pos (cfg : Config) : 0 < cfg.ttlValue := by
  unfold Config.ttlValue orDefault
  split_ifs with hzero
  · decide
  · exact Nat.pos_of_ne_zero hzero

/-- A clean-up that waits for `current` while it is free and holds the session takes the session
out. -/
theorem waiting_cleanup_removes (cfg : Config) {k : ℕ} {reason : Reason} (hcurrent : s.current = some p)
    (hsess : s.sessions p = some sess) (hfree : s.holder = none)
    (hk : (s.calls k).phase = .calling (.stopInternal p reason)) :
    Removes s (.enter k) (.stopInternal p reason) p ∧ ∃ t, step cfg s (.enter k) = some t := by
  refine ⟨⟨k, sess, rfl, hk, State.currentSession_eq_some.mpr ⟨hcurrent, hsess⟩, rfl⟩, ?_⟩
  exact ⟨enter cfg s k (.stopInternal p reason), by
    simp only [step, Label.mover, stepCall, hk, if_pos hfree]⟩

/-- So does one that its monitor has decided on and not yet spawned. -/
theorem spawning_cleanup_removes (cfg : Config) {k : ℕ} {reason : Reason}
    (hcurrent : s.current = some p) (hsess : s.sessions p = some sess) (hfree : s.holder = none)
    (hspawning : sess.monitor.phase = .spawning reason) (hidle : (s.calls k).phase = .idle) :
    ∃ t, step cfg s (.spawnCleanup p k) = some t ∧ t.now = s.now ∧
      Removes t (.enter k) (.stopInternal p reason) p ∧ ∃ u, step cfg t (.enter k) = some u := by
  refine ⟨_, step_spawnCleanup cfg hsess hspawning hidle, rfl, ?_⟩
  have hwaiting : ((spawnCleanup s p sess k reason).calls k).phase =
      .calling (.stopInternal p reason) := by simp [spawnCleanup]
  have hnew : (spawnCleanup s p sess k reason).sessions p =
      some { sess with monitor := { sess.monitor with phase := .registering k } } :=
    Function.update_self _ _ _
  exact waiting_cleanup_removes cfg (s := spawnCleanup s p sess k reason) hcurrent hnew hfree
    hwaiting

/-- A refresh that succeeds keeps the session from being taken out for its TTL until the TTL has
passed again, whatever the threads do from there on, if and only if at that moment no clean-up for
its TTL is waiting for `current` and its monitor is not between the comparison with the deadline and
the spawn of one. -/
theorem refresh_lasts_iff (hreach : Reachable (step cfg) .init s) (hrefreshes : Refreshes s l p)
    (hstep : step cfg s l = some t) :
    (∀ labels u l' v, exec (step cfg) t labels = some u →
      Removes u l' (.stopInternal p .ttlExpired) p → step cfg u l' = some v →
      s.now + cfg.ttlValue ≤ u.now) ↔
      Unexpired s p := by
  obtain ⟨c, hrefreshed⟩ := hrefreshes.step hstep
  have hreach' := hreach.next hstep
  constructor
  · intro hlasts
    obtain ⟨sess, hsess, hsess'⟩ := hrefreshed.session
    have hpos := ttlValue_pos cfg
    refine ⟨fun k hk ↦ ?_, fun sess₁ hsess₁ hspawning ↦ ?_⟩
    · -- A clean-up that is waiting may go on at once.
      have hkc : k ≠ c := by
        rintro rfl
        have hcleaning := hrefreshed.before
        rw [hk] at hcleaning
        exact absurd hcleaning (by simp [Phase.cleaning])
      have hk' : (t.calls k).phase = .calling (.stopInternal p .ttlExpired) := by
        rw [hrefreshed.others k hkc, hk]
      obtain ⟨hremoves, v, henter⟩ :=
        waiting_cleanup_removes cfg hrefreshed.current hsess' hrefreshed.holder hk'
      have hearly := hlasts [] t (.enter k) v rfl hremoves henter
      rw [hrefreshed.now] at hearly
      omega
    · -- A monitor that has decided may spawn the clean-up, which then goes on.
      obtain rfl := Option.some.inj (hsess.symm.trans hsess₁)
      obtain ⟨bound, hidle⟩ := reachable_boundedCalls hreach'
      obtain ⟨u, hspawn, hnow, hremoves, v, henter⟩ := spawning_cleanup_removes cfg
        hrefreshed.current hsess' hrefreshed.holder hspawning (hidle bound (Nat.le_refl _))
      have hearly := hlasts [.spawnCleanup p bound] u (.enter bound) v
        (exec_cons_eq_some.mpr ⟨u, hspawn, rfl⟩) hremoves henter
      rw [hnow, hrefreshed.now] at hearly
      omega
  · intro hunexpired labels u l' v hrun hremoves _
    have hstart : Lasts cfg p (s.now + cfg.ttlValue) t :=
      hrefreshed.lasts (reachable_slotInv hreach') (reachable_clockInv hreach') hunexpired
    have hend : Lasts cfg p (s.now + cfg.ttlValue) u :=
      Reachable.invariant hstart Lasts.step ⟨labels, hrun⟩
    obtain ⟨k, sess, -, hphase, -⟩ := hremoves
    refine hend.cleanups k ?_
    rw [hphase]
    rfl

/-- A session whose TTL has half run off is refreshed. -/
def halfway : List Label :=
  startMoves 0 (ascii "a") 0 ++ [.elapse 30000, .call 1 (.refreshTtl (ascii "a"))]

theorem refresh_lasts_halfway :
    ∃ s t, Reachable (step defaultConfig) .init s ∧ s.now = 30000 ∧ Refreshes s (.enter 1) 0 ∧
      step defaultConfig s (.enter 1) = some t ∧
      ∀ labels u l' v, exec (step defaultConfig) t labels = some u →
        Removes u l' (.stopInternal 0 .ttlExpired) 0 → step defaultConfig u l' = some v →
        90000 ≤ u.now := by
  have hbefore : ((exec (step defaultConfig) .init halfway).map fun s ↦
      (s.now, s.current, (s.calls 1).phase, (s.sessions 0).map Session.id)) =
      some (30000, some 0, .calling (.refreshTtl (ascii "a")), some (ascii "a")) := by
    decide
  have hmonitor : ((exec (step defaultConfig) .init halfway).bind fun s ↦
      (s.sessions 0).map fun sess ↦ sess.monitor.phase) = some .watching := by
    decide
  -- No other call is about to clean up: the first has returned, and there are no more.
  have hreturned : ((exec (step defaultConfig) .init halfway).map fun s ↦
      (s.calls 0).phase.cleaning) = some none := rfl
  have hidle : ∀ k,
      ((exec (step defaultConfig) .init halfway).map fun s ↦ (s.calls (k + 2)).phase) =
      some .idle := fun _ ↦ rfl
  obtain ⟨s, hs, hview⟩ := Option.map_eq_some_iff.mp hbefore
  simp only [Prod.mk.injEq, Option.map_eq_some_iff] at hview
  obtain ⟨hnow, hcurrent, hone, sess, hsess, hid⟩ := hview
  rw [hs, Option.bind_some, hsess, Option.map_some, Option.some.injEq] at hmonitor
  have hrefreshes : Refreshes s (.enter 1) 0 :=
    ⟨sess, State.currentSession_eq_some.mpr ⟨hcurrent, hsess⟩, .inl (hid ▸ hone)⟩
  obtain ⟨t, ht⟩ : ∃ t, step defaultConfig s (.enter 1) = some t :=
    exists_step_of_exec hs (by decide)
  refine ⟨s, t, ⟨_, hs⟩, hnow, hrefreshes, ht, ?_⟩
  have hlasts := (refresh_lasts_iff ⟨_, hs⟩ hrefreshes ht).mpr ?_
  · rw [hnow] at hlasts
    exact hlasts
  · refine ⟨fun k hk ↦ ?_, fun sess₁ hsess₁ hspawning ↦ ?_⟩
    swap
    · obtain rfl := Option.some.inj (hsess.symm.trans hsess₁)
      exact absurd (hmonitor.symm.trans hspawning) (by simp)
    match k with
    | 0 =>
      rw [hs, Option.map_some, hk] at hreturned
      exact absurd hreturned (by simp [Phase.cleaning])
    | 1 => exact absurd (hone.symm.trans hk) (by simp)
    | k + 2 =>
      have hphase := hidle k
      rw [hs, Option.map_some, hk] at hphase
      exact absurd hphase (by simp)

/-- The TTL runs off, and the monitor spawns its clean-up. -/
def expiring : List Label :=
  startMoves 0 (ascii "a") 0 ++
    [.elapse 60001, .look 0, .tick 0, .spawnCleanup 0 9, .registerCleanup 0,
      .call 1 (.refreshTtl (ascii "a"))]

/-- Before the clean-up gets hold of `current`, a refresh succeeds; the session is taken out all the
same, at once. -/
theorem refresh_lost_to_cleanup :
    ∃ s t u, Reachable (step defaultConfig) .init s ∧ Refreshes s (.enter 1) 0 ∧
      step defaultConfig s (.enter 1) = some t ∧ (t.calls 1).phase = .returned (.refreshed true) ∧
      Removes t (.enter 9) (.stopInternal 0 .ttlExpired) 0 ∧
      step defaultConfig t (.enter 9) = some u ∧ t.now < s.now + defaultConfig.ttlValue := by
  have hbefore : ((exec (step defaultConfig) .init expiring).map fun s ↦
      (s.now, s.current, (s.calls 1).phase, (s.sessions 0).map Session.id)) =
      some (60001, some 0, .calling (.refreshTtl (ascii "a")), some (ascii "a")) := by
    decide
  have hafter : ((exec (step defaultConfig) .init (expiring ++ [.enter 1])).map fun t ↦
      (t.now, t.current, (t.calls 1).phase, (t.calls 9).phase)) =
      some (60001, some 0, .returned (.refreshed true),
        .calling (.stopInternal 0 .ttlExpired)) := by
    decide
  obtain ⟨s, hs, hview⟩ := Option.map_eq_some_iff.mp hbefore
  obtain ⟨t, ht, hview'⟩ := Option.map_eq_some_iff.mp hafter
  simp only [Prod.mk.injEq, Option.map_eq_some_iff] at hview hview'
  obtain ⟨hnow, hcurrent, hone, sess, hsess, hid⟩ := hview
  obtain ⟨hnow', hcurrent', hone', hnine⟩ := hview'
  have hrefreshes : Refreshes s (.enter 1) 0 :=
    ⟨sess, State.currentSession_eq_some.mpr ⟨hcurrent, hsess⟩, .inl (hid ▸ hone)⟩
  obtain ⟨s', hs', hstep⟩ := exec_snoc_eq_some.mp ht
  rw [Option.some.inj (hs'.symm.trans hs)] at hstep
  obtain ⟨c, hrefreshed⟩ := hrefreshes.step hstep
  obtain ⟨sess₀, -, hsess'⟩ := hrefreshed.session
  have hremoves : Removes t (.enter 9) (.stopInternal 0 .ttlExpired) 0 :=
    ⟨9, _, rfl, hnine, State.currentSession_eq_some.mpr ⟨hcurrent', hsess'⟩, rfl⟩
  obtain ⟨u, hu⟩ : ∃ u, step defaultConfig t (.enter 9) = some u :=
    exists_step_of_exec ht (by decide)
  refine ⟨s, t, u, ⟨_, hs⟩, hrefreshes, hstep, hone', hremoves, hu, ?_⟩
  rw [hnow, hnow']
  decide

end Refresh

end Manager

end DoorAccess.Video
