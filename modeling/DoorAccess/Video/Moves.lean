import DoorAccess.Video.Session

/-!
# The moves of the manager

The inversion of the step function, once for all that is proved about it: every step is one of the
moves listed in `Move`, with the phase that it starts from, what it has found in the state, and the
state that it leads to. What is proved of every step goes through the moves by name.
-/

set_option autoImplicit false
set_option relaxedAutoImplicit false

namespace DoorAccess.Video.Manager

/-- The moves of the calls, of the threads of a stream handler and of those of a session. -/
inductive Move (cfg : Config) (s : State) : Label → State → Prop
  | elapse (d : ℕ) : Move cfg s (.elapse d) { s with now := s.now + d }
  | call (c : ℕ) (op : Op) (hphase : (s.calls c).phase = .idle) (hpublic : op.public = true) :
      Move cfg s (.call c op) (s.setPhase c (.calling op))
  | enter (c : ℕ) (op : Op) (hphase : (s.calls c).phase = .calling op) (hfree : s.holder = none) :
      Move cfg s (.enter c) (enter cfg s c op)
  | bindUdp (c : ℕ) (outdoor : Outdoor) (ok : Bool)
      (hphase : (s.calls c).phase = .starting outdoor .binding) :
      Move cfg s (.bindUdp c ok) (bindUdp s c outdoor ok)
  | startPreview (c : ℕ) (outdoor : Outdoor) (ok : Bool)
      (hphase : (s.calls c).phase = .starting outdoor .previewing) :
      Move cfg s (.startPreview c ok) (startPreview s c outdoor ok)
  | drawNumbers (c : ℕ) (outdoor : Outdoor) (uuid : Option Str) (ssrc : Option UInt32) (p : ℕ)
      (hphase : (s.calls c).phase = .starting outdoor .drawing) (hfresh : s.sessions p = none) :
      Move cfg s (.drawNumbers c uuid ssrc p) (drawNumbers cfg s c outdoor uuid ssrc p)
  | rollback (c : ℕ) (outdoor : Outdoor) (missing : Drawn)
      (hphase : (s.calls c).phase = .starting outdoor (.rollingBack missing)) :
      Move cfg s (.rollback c) (startFails (s.log (.rollbackPreview c outdoor)) c missing.error)
  | commit (c : ℕ) (outdoor : Outdoor) (p : ℕ) (sess : Session)
      (hphase : (s.calls c).phase = .starting outdoor (.spawned p))
      (hsess : s.sessions p = some sess) : Move cfg s (.commit c) (commit cfg s c p sess)
  | teardown (c p : ℕ) (sess : Session) (reason : Reason) (deadline : ℕ) (phase : TeardownPhase)
      (hphase : (s.calls c).phase = .tearing p reason deadline phase)
      (hsess : s.sessions p = some sess) :
      Move cfg s (.teardown c) (teardown s c p sess reason deadline phase)
  | reconcile (c overall : ℕ) (hphase : (s.calls c).phase = .reconciling overall) :
      Move cfg s (.reconcile c)
        { s.setPhase c (.draining overall s.cleanups) with cleanups := [] }
  | drained (c overall : ℕ) (handles : List ℕ)
      (hphase : (s.calls c).phase = .draining overall handles)
      (hdone : (∀ k ∈ handles, (s.calls k).finished = true) ∨ overall ≤ s.now) :
      Move cfg s (.drained c) (s.reply c .done)
  | waitIdr (c p : ℕ) (sess : Session) (deadline : ℕ) (t : State)
      (hphase : (s.calls c).phase = .waitingIdr p deadline) (hsess : s.sessions p = some sess)
      (hwait : waitIdr s c p sess deadline = some t) : Move cfg s (.waitIdr c) t
  | checkReady (c p : ℕ) (sess : Session) (hphase : (s.calls c).phase = .checking p)
      (hsess : s.sessions p = some sess) : Move cfg s (.checkReady c) (checkReady s c p sess)
  | beginStream (c p : ℕ) (sess : Session) (peek : Bool) (hphase : (s.calls c).phase = .ready p)
      (hfree : s.holder = none) (hsess : s.sessions p = some sess) :
      Move cfg s (.beginStream c peek) (beginStream s c p sess cfg peek)
  | seed (c p : ℕ) (sess : Session) (ok : Bool) (hphase : (s.calls c).phase = .seeding p)
      (hsess : s.sessions p = some sess) : Move cfg s (.seed c ok) (seed s c p sess ok)
  | receive (c p : ℕ) (sess : Session) (consumer : Option ℕ) (ok : Bool) (t : State)
      (hphase : (s.calls c).phase = .streaming p consumer) (hsess : s.sessions p = some sess)
      (hreceive : receive s c p sess consumer ok = some t) : Move cfg s (.receive c ok) t
  | flushFails (c p : ℕ) (sess : Session) (consumer : Option ℕ)
      (hphase : (s.calls c).phase = .streaming p consumer) (hsess : s.sessions p = some sess) :
      Move cfg s (.flushFails c) (leave s c p sess consumer)
  | hangUp (c p : ℕ) (sess : Session) (consumer : Option ℕ)
      (hphase : (s.calls c).phase = .streaming p consumer) (hsess : s.sessions p = some sess)
      (hhung : hungUp sess consumer = true) : Move cfg s (.hangUp c) (leave s c p sess consumer)
  | joinThreads (c p : ℕ) (sess : Session) (hphase : (s.calls c).phase = .leaving p)
      (hsess : s.sessions p = some sess) : Move cfg s (.joinThreads c) (joinThreads s c sess)
  | finClose (c p : ℕ) (sess : Session) (hstreamed : (s.calls c).phase.streamed = some p)
      (hsess : s.sessions p = some sess) (hwatcher : (s.calls c).watcher = true) :
      Move cfg s (.finClose c) (finClose s c p sess)
  | refreshLoop (c p : ℕ) (sess : Session) (hstreamed : (s.calls c).phase.streamed = some p)
      (hsess : s.sessions p = some sess) (hrefresher : (s.calls c).refresher = true)
      (hfree : s.holder = none) : Move cfg s (.refreshLoop c) (refreshLoop s c sess cfg)
  | packet (p : ℕ) (sess : Session) (hsess : s.sessions p = some sess) :
      Move cfg s (.packet p) (s.setSession p { sess with
        lastRtpAt := s.now
        rtpPackets := sess.rtpPackets + 1 })
  | push (p : ℕ) (n : NalUnit) (sess : Session) (hsess : s.sessions p = some sess)
      (hidle : sess.frameBuf.sending = none) :
      Move cfg s (.push p n) (s.setSession p { sess with frameBuf := sess.frameBuf.push n })
  | send (p : ℕ) (sess : Session) (fb : FrameBuffer) (hsess : s.sessions p = some sess)
      (hsend : sess.frameBuf.send = some fb) :
      Move cfg s (.send p) (s.setSession p { sess with frameBuf := fb })
  | look (p : ℕ) (sess sess' : Session) (hsess : s.sessions p = some sess)
      (hlook : look s sess = some sess') : Move cfg s (.look p) (s.setSession p sess')
  | tick (p : ℕ) (sess : Session) (now : ℕ) (hsess : s.sessions p = some sess)
      (hmonitor : sess.monitor.phase = .ticking now) :
      Move cfg s (.tick p) (tick cfg s p sess now)
  | spawnCleanup (p c : ℕ) (sess : Session) (reason : Reason) (hsess : s.sessions p = some sess)
      (hmonitor : sess.monitor.phase = .spawning reason) (hidle : (s.calls c).phase = .idle) :
      Move cfg s (.spawnCleanup p c) (spawnCleanup s p sess c reason)
  | registerCleanup (p c : ℕ) (sess : Session) (hsess : s.sessions p = some sess)
      (hmonitor : sess.monitor.phase = .registering c) :
      Move cfg s (.registerCleanup p) (registerCleanup s p sess c)
  | guardReinvite (p : ℕ) (sess : Session) (now : ℕ) (hsess : s.sessions p = some sess)
      (hmonitor : sess.monitor.phase = .guarding now) (hfree : s.holder = none) :
      Move cfg s (.guardReinvite p) (s.setSession p (guardReinvite s p sess now))
  | reinvite (p : ℕ) (sess : Session) (hsess : s.sessions p = some sess)
      (hmonitor : sess.monitor.phase = .inviting) :
      Move cfg s (.reinvite p) (reinvite s p sess)

section Inversion

variable {cfg : Config} {s t : State} {l : Label} {c p : ℕ} {sess : Session}

theorem stepCall_move (hmover : l.mover = .call c) (h : stepCall cfg s c l = some t) :
    Move cfg s l t := by
  unfold stepCall at h
  split at h
  -- call, enter
  · rename_i hphase
    obtain rfl := Mover.call.inj hmover
    split_ifs at h with hpublic
    obtain rfl := Option.some.inj h
    exact .call _ _ hphase hpublic
  · rename_i hphase
    obtain rfl := Mover.call.inj hmover
    split_ifs at h with hfree
    obtain rfl := Option.some.inj h
    exact .enter _ _ hphase hfree
  -- the phases of `start`
  · rename_i hphase
    obtain rfl := Mover.call.inj hmover
    obtain rfl := Option.some.inj h
    exact .bindUdp _ _ _ hphase
  · rename_i hphase
    obtain rfl := Mover.call.inj hmover
    obtain rfl := Option.some.inj h
    exact .startPreview _ _ _ hphase
  · rename_i hphase
    obtain rfl := Mover.call.inj hmover
    split_ifs at h with hfresh
    obtain rfl := Option.some.inj h
    exact .drawNumbers _ _ _ _ _ hphase hfresh
  · rename_i hphase
    obtain rfl := Mover.call.inj hmover
    obtain rfl := Option.some.inj h
    exact .rollback _ _ _ hphase
  · rename_i hphase
    obtain rfl := Mover.call.inj hmover
    obtain ⟨sess, hsess, rfl⟩ := Option.map_eq_some_iff.mp h
    exact .commit _ _ _ sess hphase hsess
  -- the teardown and the end of `shutdown`
  · rename_i hphase
    obtain rfl := Mover.call.inj hmover
    obtain ⟨sess, hsess, rfl⟩ := Option.map_eq_some_iff.mp h
    exact .teardown _ _ sess _ _ _ hphase hsess
  · rename_i hphase
    obtain rfl := Mover.call.inj hmover
    obtain rfl := Option.some.inj h
    exact .reconcile _ _ hphase
  · rename_i hphase
    obtain rfl := Mover.call.inj hmover
    split_ifs at h with hdone
    obtain rfl := Option.some.inj h
    exact .drained _ _ _ hphase hdone
  -- the stream handlers
  · rename_i hphase
    obtain rfl := Mover.call.inj hmover
    obtain ⟨sess, hsess, hwait⟩ := Option.bind_eq_some_iff.mp h
    exact .waitIdr _ _ sess _ t hphase hsess hwait
  · rename_i hphase
    obtain rfl := Mover.call.inj hmover
    obtain ⟨sess, hsess, rfl⟩ := Option.map_eq_some_iff.mp h
    exact .checkReady _ _ sess hphase hsess
  · rename_i hphase
    obtain rfl := Mover.call.inj hmover
    split_ifs at h with hfree
    obtain ⟨sess, hsess, rfl⟩ := Option.map_eq_some_iff.mp h
    exact .beginStream _ _ sess _ hphase hfree hsess
  · rename_i hphase
    obtain rfl := Mover.call.inj hmover
    obtain ⟨sess, hsess, rfl⟩ := Option.map_eq_some_iff.mp h
    exact .seed _ _ sess _ hphase hsess
  · rename_i hphase
    obtain rfl := Mover.call.inj hmover
    obtain ⟨sess, hsess, hreceive⟩ := Option.bind_eq_some_iff.mp h
    exact .receive _ _ sess _ _ t hphase hsess hreceive
  · rename_i hphase
    obtain rfl := Mover.call.inj hmover
    obtain ⟨sess, hsess, rfl⟩ := Option.map_eq_some_iff.mp h
    exact .flushFails _ _ sess _ hphase hsess
  · rename_i hphase
    obtain rfl := Mover.call.inj hmover
    obtain ⟨sess, hsess, hhang⟩ := Option.bind_eq_some_iff.mp h
    split_ifs at hhang with hhung
    obtain rfl := Option.some.inj hhang
    exact .hangUp _ _ sess _ hphase hsess hhung
  · rename_i hphase
    obtain rfl := Mover.call.inj hmover
    obtain ⟨sess, hsess, rfl⟩ := Option.map_eq_some_iff.mp h
    exact .joinThreads _ _ sess hphase hsess
  · exact absurd h (by simp)

theorem stepHelper_move (hmover : l.mover = .helper c) (h : stepHelper cfg s c l = some t) :
    Move cfg s l t := by
  simp only [stepHelper, Option.bind_eq_some_iff] at h
  obtain ⟨p, hstreamed, sess, hsess, h⟩ := h
  split at h
  · obtain rfl := Mover.helper.inj hmover
    split_ifs at h with hwatcher
    obtain rfl := Option.some.inj h
    exact .finClose _ p sess hstreamed hsess hwatcher
  · obtain rfl := Mover.helper.inj hmover
    split_ifs at h with hrefresh
    obtain rfl := Option.some.inj h
    exact .refreshLoop _ p sess hstreamed hsess hrefresh.1 hrefresh.2
  · exact absurd h (by simp)

theorem stepSession_move (hmover : l.mover = .session p) (hsess : s.sessions p = some sess)
    (h : stepSession cfg s p sess l = some t) : Move cfg s l t := by
  unfold stepSession at h
  split at h
  · obtain rfl := Mover.session.inj hmover
    obtain rfl := Option.some.inj h
    exact .packet _ sess hsess
  · obtain rfl := Mover.session.inj hmover
    split_ifs at h with hidle
    obtain rfl := Option.some.inj h
    exact .push _ _ sess hsess hidle
  · obtain rfl := Mover.session.inj hmover
    obtain ⟨fb, hsend, rfl⟩ := Option.map_eq_some_iff.mp h
    exact .send _ sess fb hsess hsend
  · obtain rfl := Mover.session.inj hmover
    obtain ⟨sess', hlook, rfl⟩ := Option.map_eq_some_iff.mp h
    exact .look _ sess sess' hsess hlook
  · rename_i hmonitor
    obtain rfl := Mover.session.inj hmover
    obtain rfl := Option.some.inj h
    exact .tick _ sess _ hsess hmonitor
  · rename_i hmonitor
    obtain rfl := Mover.session.inj hmover
    split_ifs at h with hidle
    obtain rfl := Option.some.inj h
    exact .spawnCleanup _ _ sess _ hsess hmonitor hidle
  · rename_i hmonitor
    obtain rfl := Mover.session.inj hmover
    obtain rfl := Option.some.inj h
    exact .registerCleanup _ _ sess hsess hmonitor
  · rename_i hmonitor
    obtain rfl := Mover.session.inj hmover
    split_ifs at h with hfree
    obtain rfl := Option.some.inj h
    exact .guardReinvite _ sess _ hsess hmonitor hfree
  · rename_i hmonitor
    obtain rfl := Mover.session.inj hmover
    obtain rfl := Option.some.inj h
    exact .reinvite _ sess hsess hmonitor
  · exact absurd h (by simp)

/-- Every step is a move. -/
theorem step_move (h : step cfg s l = some t) : Move cfg s l t := by
  unfold step at h
  split at h
  · rename_i d hmover
    obtain rfl := Option.some.inj h
    cases l with
    | elapse d' =>
      obtain rfl := Mover.clock.inj hmover
      exact .elapse d'
    | _ => exact absurd hmover (by simp [Label.mover])
  · rename_i c hmover
    exact stepCall_move hmover h
  · rename_i c hmover
    exact stepHelper_move hmover h
  · rename_i p hmover
    obtain ⟨sess, hsess, hstep⟩ := Option.bind_eq_some_iff.mp h
    exact stepSession_move hmover hsess hstep

end Inversion

end DoorAccess.Video.Manager
