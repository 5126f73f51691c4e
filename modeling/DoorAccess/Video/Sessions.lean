import DoorAccess.Video.Monitor

/-!
# What a step does to the sessions

Every field of a session has its own writers: the TTL is refreshed, the packet hook and the monitor
write their clocks and counters, the receiver and the consumers work on the buffer, and `teardown`
sets the stop flag. `step_session` says once, for all moves of all threads, that a session of the
new state is new or has come out of the old one by one of these.
-/

set_option autoImplicit false
set_option relaxedAutoImplicit false

namespace DoorAccess.Video.Manager

open Codec Transition

/-- The step creates the session `p`. -/
def Creates (cfg : Config) (s t : State) (l : Label) (p : ℕ) : Prop :=
  ∃ c outdoor id ssrc, l = .drawNumbers c (some id) (some ssrc) p ∧ s.sessions p = none ∧
    (s.calls c).phase = .starting outdoor .drawing ∧
    t.sessions p = some (newSession cfg s outdoor id ssrc)

/-- What a step can make of the session `p`. -/
inductive SessionMove (cfg : Config) (s t : State) (l : Label) (p : ℕ) (sess : Session) :
    Session → Prop
  | same : SessionMove cfg s t l p sess sess
  | refreshed (h : Refreshes s l p) :
      SessionMove cfg s t l p sess { sess with ttlDeadline := s.now + cfg.ttlValue }
  | packet (time : ℕ) (packets : UInt32) :
      SessionMove cfg s t l p sess { sess with lastRtpAt := time, rtpPackets := packets }
  | buffer (fb : FrameBuffer) : SessionMove cfg s t l p sess { sess with frameBuf := fb }
  | monitor (time : ℕ) (m : Monitor) :
      SessionMove cfg s t l p sess { sess with lastRtpAt := time, monitor := m }
  | stopped (c : ℕ) (h : .tore c p .stopFlag ∈ t.trace) :
      SessionMove cfg s t l p sess { sess with stop := true }

/-- A session is new, or it has made a move. -/
def SessionsMove (cfg : Config) (s t : State) (l : Label) : Prop :=
  ∀ p sess', t.sessions p = some sess' → Creates cfg s t l p ∨
    ∃ sess, s.sessions p = some sess ∧ SessionMove cfg s t l p sess sess'

section Sessions

variable {cfg : Config} {s t u : State} {l : Label} {c p : ℕ} {sess sess' : Session}

theorem sessionsMove_of_eq (h : t.sessions = s.sessions) : SessionsMove cfg s t l := by
  intro q new hnew
  rw [h] at hnew
  exact Or.inr ⟨new, hnew, .same⟩

/-- One session makes a move. -/
theorem sessionsMove_of_update (hsess : s.sessions p = some sess)
    (h : t.sessions = Function.update s.sessions p (some sess'))
    (hmove : SessionMove cfg s t l p sess sess') : SessionsMove cfg s t l := by
  intro q new hnew
  rw [h] at hnew
  by_cases hq : q = p
  · rw [hq, Function.update_self, Option.some.injEq] at hnew
    rw [hq, ← hnew]
    exact Or.inr ⟨sess, hsess, hmove⟩
  · rw [Function.update_of_ne hq] at hnew
    exact Or.inr ⟨new, hnew, .same⟩

theorem sessionsMove_monitor {m : Monitor} (hsess : s.sessions p = some sess)
    (h : t.sessions = Function.update s.sessions p (some { sess with monitor := m })) :
    SessionsMove cfg s t l :=
  sessionsMove_of_update hsess h (.monitor sess.lastRtpAt m)

theorem sessionsMove_buffer {fb : FrameBuffer} (hsess : s.sessions p = some sess)
    (h : t.sessions = Function.update s.sessions p (some { sess with frameBuf := fb })) :
    SessionsMove cfg s t l :=
  sessionsMove_of_update hsess h (.buffer fb)

theorem takeCurrent_sessions {op : Op} {key : ℕ → Session → Bool} {reason : Reason} {deadline : ℕ}
    {otherwise : State} (hsessions : u.sessions = s.sessions)
    (hotherwise : otherwise.sessions = s.sessions) :
    SessionsMove cfg s (takeCurrent u c op key reason deadline otherwise) l := by
  unfold takeCurrent
  split
  · split_ifs
    · exact sessionsMove_of_eq hsessions
    · exact sessionsMove_of_eq hotherwise
  · exact sessionsMove_of_eq hotherwise

/-- `refresh_ttl` by an id, of which it is known that a refresh by it is one of those listed. -/
theorem refreshTtl_sessions {id : Str} (hsessions : u.sessions = s.sessions)
    (hcurrent : u.current = s.current) (hnow : u.now = s.now)
    (ht : t.sessions = (refreshTtl cfg u id).1.sessions)
    (hrefreshes : ∀ p sess, s.currentSession = some (p, sess) → sess.id = id → Refreshes s l p) :
    SessionsMove cfg s t l := by
  have hslot : u.currentSession = s.currentSession := by
    unfold State.currentSession
    rw [hsessions, hcurrent]
  unfold refreshTtl at ht
  rw [hslot] at ht
  split at ht
  · rename_i p sess hfound
    obtain ⟨-, hsess⟩ := State.currentSession_eq_some.mp hfound
    split_ifs at ht with hid
    · rw [State.setSession_sessions, hsessions, hnow] at ht
      exact sessionsMove_of_update hsess ht (.refreshed (hrefreshes p sess hfound hid))
    · exact sessionsMove_of_eq (ht.trans hsessions)
  · exact sessionsMove_of_eq (ht.trans hsessions)

theorem look_sessions (hsess : s.sessions p = some sess) (h : look s sess = some sess') :
    SessionsMove cfg s (s.setSession p sess') l := by
  unfold look at h
  split_ifs at h
  · obtain rfl := Option.some.inj h
    exact sessionsMove_monitor hsess rfl
  · obtain rfl := Option.some.inj h
    exact sessionsMove_monitor hsess rfl

theorem guardReinvite_sessions {now : ℕ} (hsess : s.sessions p = some sess) :
    SessionsMove cfg s (s.setSession p (guardReinvite s p sess now)) l := by
  unfold guardReinvite
  split_ifs
  · exact sessionsMove_monitor hsess rfl
  · exact sessionsMove_monitor hsess rfl

theorem enter_sessions {op : Op} (hphase : (s.calls c).phase = .calling op) :
    SessionsMove cfg s (enter cfg s c op) (.enter c) := by
  cases op with
  | start outdoor =>
    simp only [enter, start]
    split
    · rename_i p sess hfound
      split_ifs with huri
      · unfold reuse
        split_ifs with hseed
        · obtain ⟨-, hsess⟩ := State.currentSession_eq_some.mp hfound
          refine sessionsMove_of_update hsess rfl (.refreshed ?_)
          exact ⟨sess, hfound, Or.inr ⟨outdoor, hphase, huri, hseed⟩⟩
        · exact sessionsMove_of_eq rfl
      · exact sessionsMove_of_eq rfl
    · exact sessionsMove_of_eq rfl
  | stop uri => exact takeCurrent_sessions rfl rfl
  | stopById id => exact takeCurrent_sessions rfl rfl
  | refreshTtl id =>
    refine refreshTtl_sessions (u := s.log (.entered c (.refreshTtl id) s.current))
      rfl rfl rfl rfl ?_
    rintro p sess hfound rfl
    exact ⟨sess, hfound, Or.inl hphase⟩
  | stopInternal q reason => exact takeCurrent_sessions rfl rfl
  | shutdown overall => exact takeCurrent_sessions rfl rfl
  | stream id =>
    simp only [enter, stream]
    split
    · split_ifs
      · exact sessionsMove_of_eq rfl
      · exact sessionsMove_of_eq rfl
    · exact sessionsMove_of_eq rfl

theorem teardown_sessions {reason : Reason} {deadline : ℕ} {phase : TeardownPhase}
    (hsess : s.sessions p = some sess) :
    SessionsMove cfg s (teardown s c p sess reason deadline phase) l := by
  unfold teardown
  cases phase with
  | stopPreview => exact sessionsMove_of_update hsess rfl .same
  | bye => exact sessionsMove_of_update hsess rfl .same
  | stopFlag => exact sessionsMove_of_update hsess rfl (.stopped c (by simp [teardownStep]))
  | close =>
    simp only
    split_ifs
    · exact sessionsMove_buffer hsess rfl
    · exact sessionsMove_buffer hsess rfl

theorem bindUdp_sessions {outdoor : Outdoor} {ok : Bool} :
    SessionsMove cfg s (bindUdp s c outdoor ok) l := by
  unfold bindUdp
  split_ifs
  · exact sessionsMove_of_eq rfl
  · exact sessionsMove_of_eq rfl

theorem startPreview_sessions {outdoor : Outdoor} {ok : Bool} :
    SessionsMove cfg s (startPreview s c outdoor ok) l := by
  unfold startPreview
  split_ifs
  · exact sessionsMove_of_eq rfl
  · exact sessionsMove_of_eq rfl

theorem drawNumbers_sessions {outdoor : Outdoor} {uuid : Option Str} {ssrc : Option UInt32}
    (hphase : (s.calls c).phase = .starting outdoor .drawing) (hfresh : s.sessions p = none) :
    SessionsMove cfg s (drawNumbers cfg s c outdoor uuid ssrc p) (.drawNumbers c uuid ssrc p) := by
  unfold drawNumbers
  split
  · exact sessionsMove_of_eq rfl
  · exact sessionsMove_of_eq rfl
  · rename_i id ssrc
    intro q new hnew
    by_cases hq : q = p
    · subst hq
      exact Or.inl ⟨c, outdoor, id, ssrc, rfl, hfresh, hphase, Function.update_self _ _ _⟩
    · rw [State.setPhase_sessions, State.setSession_sessions, Function.update_of_ne hq] at hnew
      exact Or.inr ⟨new, hnew, .same⟩

theorem waitIdr_sessions {deadline : ℕ} (h : waitIdr s c p sess deadline = some t) :
    SessionsMove cfg s t l := by
  unfold waitIdr at h
  split_ifs at h
  · obtain rfl := Option.some.inj h
    exact sessionsMove_of_eq rfl
  · obtain rfl := Option.some.inj h
    exact sessionsMove_of_eq rfl
  · obtain rfl := Option.some.inj h
    exact sessionsMove_of_eq rfl

theorem checkReady_sessions : SessionsMove cfg s (checkReady s c p sess) l := by
  unfold checkReady
  split_ifs
  · exact sessionsMove_of_eq rfl
  · exact sessionsMove_of_eq rfl
  · exact sessionsMove_of_eq rfl

theorem seed_sessions {ok : Bool} (hsess : s.sessions p = some sess) :
    SessionsMove cfg s (seed s c p sess ok) l := by
  unfold seed
  split_ifs
  · exact sessionsMove_buffer hsess rfl
  · exact sessionsMove_buffer hsess rfl

theorem receive_sessions {consumer : Option ℕ} {ok : Bool} (hsess : s.sessions p = some sess)
    (h : receive s c p sess consumer ok = some t) : SessionsMove cfg s t l := by
  simp only [receive, Option.bind_eq_some_iff, Option.map_eq_some_iff] at h
  obtain ⟨k, -, ⟨n, fb⟩, -, rfl⟩ := h
  split_ifs
  · exact sessionsMove_buffer hsess rfl
  · exact sessionsMove_buffer hsess rfl

/-- Every step does one of these things to a session. -/
theorem step_session (h : step cfg s l = some t) : SessionsMove cfg s t l := by
  cases step_move h with
  | enter c op hphase => exact enter_sessions hphase
  | bindUdp c outdoor ok => exact bindUdp_sessions
  | startPreview c outdoor ok => exact startPreview_sessions
  | drawNumbers c outdoor uuid ssrc p hphase hfresh => exact drawNumbers_sessions hphase hfresh
  | teardown c p sess reason deadline phase hphase hsess => exact teardown_sessions hsess
  | waitIdr c p sess deadline t hphase hsess hwait => exact waitIdr_sessions hwait
  | checkReady c p sess => exact checkReady_sessions
  | beginStream c q sessq peek hphase hfree hsessq =>
    refine refreshTtl_sessions (u := s) rfl rfl rfl rfl ?_
    intro p sess hfound hid
    exact ⟨sess, hfound, q, sessq, hphase, hsessq, hid.symm⟩
  | seed c p sess ok hphase hsess => exact seed_sessions hsess
  | receive c p sess consumer ok t hphase hsess hreceive => exact receive_sessions hsess hreceive
  | flushFails c p sess consumer hphase hsess => exact sessionsMove_buffer hsess rfl
  | hangUp c p sess consumer hphase hsess => exact sessionsMove_buffer hsess rfl
  | finClose c p sess hstreamed hsess => exact sessionsMove_buffer hsess rfl
  | refreshLoop c q sessq hstreamed hsessq =>
    refine refreshTtl_sessions (u := s) rfl rfl rfl rfl ?_
    intro p sess hfound hid
    exact ⟨sess, hfound, q, sessq, hstreamed, hsessq, hid.symm⟩
  | packet p sess hsess =>
    exact sessionsMove_of_update hsess rfl (.packet s.now (sess.rtpPackets + 1))
  | push p n sess hsess => exact sessionsMove_buffer hsess rfl
  | send p sess fb hsess => exact sessionsMove_buffer hsess rfl
  | look p sess sess' hsess hlook => exact look_sessions hsess hlook
  | tick p sess now hsess => exact sessionsMove_monitor hsess rfl
  | spawnCleanup p c sess reason hsess => exact sessionsMove_monitor hsess rfl
  | registerCleanup p c sess hsess => exact sessionsMove_monitor hsess rfl
  | guardReinvite p sess now hsess => exact guardReinvite_sessions hsess
  | reinvite p sess hsess => exact sessionsMove_of_update hsess rfl (.monitor s.now _)
  | elapse | call | rollback | commit | reconcile | drained | joinThreads =>
    exact sessionsMove_of_eq rfl

end Sessions

end DoorAccess.Video.Manager
