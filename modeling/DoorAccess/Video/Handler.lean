import DoorAccess.Video.Effect

/-!
# What a step does to the stream handlers

The second reading of the step function, beside that of `Effect`: which handler moves, what becomes
of the buffers of the sessions, and how the events of a disconnect come about (`StreamEffect`).
Every step is one such (`step_streamEffect`), so what is proved about the consumers of a session
never looks at the step function.
-/

set_option autoImplicit false
set_option relaxedAutoImplicit false

namespace DoorAccess.Video.Manager

/-! ### Moves of handlers and buffers -/

/-- The session that a stream handler is about, from its lookup to the end of its `run`. -/
def Phase.handled : Phase → Option ℕ
  | .waitingIdr p _ => some p
  | .checking p => some p
  | .ready p => some p
  | .seeding p => some p
  | .streaming p _ => some p
  | .leaving p => some p
  | _ => none

/-- The phases of a handler between the end of its `run` and its `stop_by_id`. -/
def Phase.Departing : Phase → Prop
  | .leaving _ => True
  | .calling (.stopById _) => True
  | _ => False

/-- The units that a label pushes into the buffer of the session `p`. -/
def Label.pushes (p : ℕ) : Label → List NalUnit
  | .push q n => if q = p then [n] else []
  | _ => []

/-- What a step can do to the call that makes it. -/
inductive HandlerMove (s t : State) (c : ℕ) : Prop
  | same (hphase : (t.calls c).phase = (s.calls c).phase)
  /-- A handler of a new session comes from the lookup in the slot. -/
  | moves (hs : ¬ (s.calls c).phase.Departing)
      (ht : ∀ p consumer, (t.calls c).phase ≠ .streaming p consumer)
      (hhandled : ∀ p, (t.calls c).phase.handled = some p → (s.calls c).phase.handled = some p ∨
        s.current = some p ∧ ∃ id, .entered c (.stream id) (some p) ∈ t.trace)
  | subscribes (p : ℕ) (sess sess' : Session) (hs : (s.calls c).phase = .seeding p)
      (ht : (t.calls c).phase = .streaming p sess.frameBuf.subscribe.2)
      (hsess : s.sessions p = some sess) (hsess' : t.sessions p = some sess')
      (hbuffer : sess'.frameBuf = sess.frameBuf.subscribe.1)
  | joins (p : ℕ) (sess : Session) (hs : (s.calls c).phase = .leaving p)
      (hsess : s.sessions p = some sess) (ht : (t.calls c).phase = .calling (.stopById sess.id))
  /-- After a `stop_by_id` no session of its id is in the slot. -/
  | stops (id : Str) (hs : (s.calls c).phase = .calling (.stopById id))
      (ht : (t.calls c).phase.handled = none)
      (hout : ∀ p sess, s.sessions p = some sess → sess.id = id → t.current ≠ some p)

/-- What a step can do to the buffer of the session `p`, given the units it pushes. -/
inductive BufferMove (s t : State) (p : ℕ) (units : List NalUnit) (fb fb' : FrameBuffer) : Prop
  | same (hunits : units = []) (hfb : fb' = fb)
  | pushed (n : NalUnit) (hunits : units = [n]) (hidle : fb.sending = none) (hfb : fb' = fb.push n)
  | sent (hunits : units = []) (hfb : fb.send = some fb')
  | subscribed (hunits : units = []) (hfb : fb' = fb.subscribe.1)
  | received (k : ℕ) (n : NalUnit) (hunits : units = []) (hfb : fb.recv k = some (n, fb'))
  /-- A handler withdraws, perhaps after a last unit. -/
  | withdrew (c k : ℕ) (last : FrameBuffer) (hunits : units = [])
      (hs : (s.calls c).phase = .streaming p (some k)) (ht : (t.calls c).phase = .leaving p)
      (hlast : last = fb ∨ ∃ n, fb.recv k = some (n, last))
      (hfb : fb' = (last.removeConsumer k).dropReceiver k)
  | closed (hunits : units = []) (hfb : fb' = fb.close)
      (hevent : (∃ c, .finClosed c p ∈ t.trace) ∨ ∃ c, .tore c p .close ∈ t.trace)

/-- The events of a disconnect: a handler leaves the session it is about, and a FIN watcher closes
the buffer of the session that its handler streams. -/
def Event.Explained (s t : State) : Event → Prop
  | .left c p => (s.calls c).phase.handled = some p ∧ (t.calls c).phase = .leaving p
  | .finClosed c p => (s.calls c).phase.handled = some p ∧
    ∃ sess', t.sessions p = some sess' ∧ sess'.frameBuf.closed = true
  | _ => True

/-- A session is new, or its buffer has made a move. -/
def BuffersMove (s t : State) (l : Label) : Prop :=
  ∀ p sess', t.sessions p = some sess' → (s.sessions p = none ∧ sess'.frameBuf = .new) ∨
    ∃ sess, s.sessions p = some sess ∧
      BufferMove s t p (l.pushes p) sess.frameBuf sess'.frameBuf

/-- Everything that a step can do to the handlers and the buffers. -/
structure StreamEffect (s t : State) (l : Label) : Prop where
  actor : ∃ c, HandlerMove s t c ∧ ∀ k, k ≠ c → (t.calls k).phase = (s.calls k).phase
  buffers : BuffersMove s t l
  trace : ∃ evs, t.trace = s.trace ++ evs ∧ ∀ e ∈ evs, e.Explained s t

section Buffers

variable {s t : State} {l : Label} {p : ℕ} {sess sess' : Session}

theorem buffersMove_of_eq (hl : ∀ q, l.pushes q = []) (h : t.sessions = s.sessions) :
    BuffersMove s t l := by
  intro q sessq hsessq
  rw [h] at hsessq
  exact Or.inr ⟨sessq, hsessq, .same (hl q) rfl⟩

/-- One session is replaced. -/
theorem buffersMove_of_update (hsess : s.sessions p = some sess)
    (h : t.sessions = Function.update s.sessions p (some sess'))
    (hl : ∀ q, q ≠ p → l.pushes q = [])
    (hmove : BufferMove s t p (l.pushes p) sess.frameBuf sess'.frameBuf) : BuffersMove s t l := by
  intro q sessq hsessq
  rw [h] at hsessq
  by_cases hq : q = p
  · rw [hq, Function.update_self, Option.some.injEq] at hsessq
    rw [hq, ← hsessq]
    exact Or.inr ⟨sess, hsess, hmove⟩
  · rw [Function.update_of_ne hq] at hsessq
    exact Or.inr ⟨sessq, hsessq, .same (hl q hq) rfl⟩

/-- One session is replaced by another with the same buffer. -/
theorem buffersMove_of_same (hsess : s.sessions p = some sess)
    (h : t.sessions = Function.update s.sessions p (some sess')) (hl : ∀ q, l.pushes q = [])
    (hfb : sess'.frameBuf = sess.frameBuf) : BuffersMove s t l :=
  buffersMove_of_update hsess h (fun q _ ↦ hl q) (.same (hl p) hfb)

/-- The refresh of a TTL, in a state with the same sessions. -/
theorem refreshTtl_buffers {u : State} (cfg : Config) (id : Str) (hl : ∀ q, l.pushes q = [])
    (hu : u.sessions = s.sessions) (ht : t.sessions = (refreshTtl cfg u id).1.sessions) :
    BuffersMove s t l := by
  unfold refreshTtl at ht
  split at ht
  · rename_i p sess hfound
    obtain ⟨-, hsess⟩ := State.currentSession_eq_some.mp hfound
    rw [hu] at hsess
    split_ifs at ht
    · rw [State.setSession_sessions, hu] at ht
      exact buffersMove_of_same hsess ht hl rfl
    · exact buffersMove_of_eq hl (ht.trans hu)
  · exact buffersMove_of_eq hl (ht.trans hu)

theorem reuse_buffers {u : State} (cfg : Config) (hl : ∀ q, l.pushes q = [])
    (hu : u.sessions = s.sessions) (hsess : s.sessions p = some sess)
    (ht : t.sessions = (reuse cfg u p sess).sessions) : BuffersMove s t l := by
  unfold reuse at ht
  split_ifs at ht
  · rw [State.setSession_sessions, hu] at ht
    exact buffersMove_of_same hsess ht hl rfl
  · exact buffersMove_of_eq hl (ht.trans hu)

end Buffers

/-! ### Every step is such a move -/

section Steps

variable {cfg : Config} {s t : State} {l : Label} {c p : ℕ} {sess : Session}

theorem Phase.ne_streaming_of_handled {phase : Phase} (h : phase.handled = none) (q : ℕ)
    (consumer : Option ℕ) : phase ≠ .streaming q consumer := by
  rintro rfl
  exact absurd h (by simp [Phase.handled])

theorem Phase.handled_of_streamed {phase : Phase} (h : phase.streamed = some p) :
    phase.handled = some p := by
  cases phase with
  | seeding | streaming | leaving => exact h
  | _ => exact absurd h (by simp [Phase.streamed])

/-- A step that moves no call. -/
theorem StreamEffect.still (evs : List Event) (hbuffers : BuffersMove s t l)
    (htrace : t.trace = s.trace ++ evs) (hevs : ∀ e ∈ evs, e.Explained s t)
    (hphases : ∀ k, (t.calls k).phase = (s.calls k).phase) : StreamEffect s t l :=
  ⟨⟨0, .same (hphases 0), fun k _ ↦ hphases k⟩, hbuffers, evs, htrace, hevs⟩

/-- A step of a call that is about no session after it, and was not departing before. -/
theorem StreamEffect.outside (evs : List Event) (hbuffers : BuffersMove s t l)
    (htrace : t.trace = s.trace ++ evs) (hevs : ∀ e ∈ evs, e.Explained s t)
    (hs : ¬ (s.calls c).phase.Departing) (ht : (t.calls c).phase.handled = none)
    (hothers : ∀ k, k ≠ c → (t.calls k).phase = (s.calls k).phase) : StreamEffect s t l := by
  refine ⟨⟨c, .moves hs (Phase.ne_streaming_of_handled ht) ?_, hothers⟩, hbuffers, evs, htrace,
    hevs⟩
  intro q hq
  rw [ht] at hq
  exact absurd hq (by simp)

/-- A step of a call that goes on with the same session, or with none. -/
theorem StreamEffect.setPhase {phase : Phase} (hl : ∀ q, l.pushes q = [])
    (hs : ¬ (s.calls c).phase.Departing) (ht : ∀ q consumer, phase ≠ .streaming q consumer)
    (hhandled : ∀ q, phase.handled = some q → (s.calls c).phase.handled = some q) :
    StreamEffect s (s.setPhase c phase) l := by
  refine ⟨⟨c, .moves hs ?_ ?_, ?_⟩, buffersMove_of_eq hl rfl, [], ?_, by simp⟩
  · simpa using ht
  · intro q hq
    refine Or.inl (hhandled q ?_)
    simpa using hq
  · intro k hk
    simp [hk]
  · simp

/-- A call that returns, after the events `evs`. -/
theorem StreamEffect.reply {reply : Reply} {u : State} (evs : List Event)
    (hs : ¬ (s.calls c).phase.Departing) (hcalls : u.calls = s.calls)
    (htrace : u.trace = s.trace ++ evs) (hevs : ∀ e ∈ evs, e.Explained s (u.reply c reply))
    (hbuffers : BuffersMove s (u.reply c reply) l) : StreamEffect s (u.reply c reply) l := by
  refine .outside (evs ++ [.returned c reply]) (c := c) hbuffers ?_ ?_ hs ?_ ?_
  · simp [State.reply, htrace]
  · intro e he
    rcases List.mem_append.mp he with he | he
    · exact hevs e he
    · rw [List.mem_singleton.mp he]
      trivial
  · simp [State.reply, Phase.handled]
  · intro k hk
    simp [State.reply, hk, hcalls]

/-- A session that is replaced by one with the same buffer. -/
theorem StreamEffect.setSession {sess' : Session} (hl : ∀ q, l.pushes q = [])
    (hsess : s.sessions p = some sess) (hfb : sess'.frameBuf = sess.frameBuf) :
    StreamEffect s (s.setSession p sess') l :=
  .still [] (buffersMove_of_same hsess rfl hl hfb) (by simp) (by simp) fun _ ↦ rfl

theorem spawnCleanup_streamEffect {reason : Reason} (hl : ∀ q, l.pushes q = [])
    (hsess : s.sessions p = some sess) (hidle : (s.calls c).phase = .idle) :
    StreamEffect s (spawnCleanup s p sess c reason) l := by
  refine .outside [] (c := c) (buffersMove_of_same hsess rfl hl rfl) ?_ (by simp) ?_ ?_ ?_
  · simp [spawnCleanup]
  · rw [hidle]
    exact id
  · simp [spawnCleanup, Phase.handled]
  · intro k hk
    simp [spawnCleanup, hk]

theorem registerCleanup_streamEffect (hl : ∀ q, l.pushes q = []) (hsess : s.sessions p = some sess) :
    StreamEffect s (registerCleanup s p sess c) l :=
  .still [] (buffersMove_of_same hsess rfl hl rfl) (by simp [registerCleanup]) (by simp)
    fun _ ↦ rfl

/-- The buffer of one session makes a move, and nothing else happens. -/
theorem StreamEffect.turn {fb : FrameBuffer} (hsess : s.sessions p = some sess)
    (hl : ∀ q, q ≠ p → l.pushes q = [])
    (hmove : ∀ t, BufferMove s t p (l.pushes p) sess.frameBuf fb) :
    StreamEffect s (s.setSession p { sess with frameBuf := fb }) l :=
  .still [] (buffersMove_of_update hsess rfl hl (hmove _)) (by simp) (by simp) fun _ ↦ rfl

theorem push_streamEffect {n : NalUnit} (hsess : s.sessions p = some sess)
    (hidle : sess.frameBuf.sending = none) :
    StreamEffect s (s.setSession p { sess with frameBuf := sess.frameBuf.push n }) (.push p n) := by
  refine .turn hsess (fun q hq ↦ if_neg (Ne.symm hq)) fun _ ↦ ?_
  exact .pushed n (if_pos rfl) hidle rfl

theorem look_streamEffect {sess' : Session} (hl : ∀ q, l.pushes q = [])
    (hsess : s.sessions p = some sess) (h : look s sess = some sess') :
    StreamEffect s (s.setSession p sess') l := by
  unfold look at h
  split_ifs at h
  · obtain rfl := Option.some.inj h
    exact .setSession hl hsess rfl
  · obtain rfl := Option.some.inj h
    exact .setSession hl hsess rfl

theorem guardReinvite_streamEffect {now : ℕ} (hl : ∀ q, l.pushes q = [])
    (hsess : s.sessions p = some sess) :
    StreamEffect s (s.setSession p (guardReinvite s p sess now)) l := by
  unfold guardReinvite
  split_ifs
  · exact .setSession hl hsess rfl
  · exact .setSession hl hsess rfl

theorem reinvite_streamEffect (hl : ∀ q, l.pushes q = []) (hsess : s.sessions p = some sess) :
    StreamEffect s (reinvite s p sess) l := by
  refine .still [.reinvited p] (buffersMove_of_same hsess rfl hl rfl) rfl ?_ fun _ ↦ rfl
  intro e he
  rw [List.mem_singleton.mp he]
  trivial

theorem finClose_streamEffect (hl : ∀ q, l.pushes q = [])
    (hstreamed : (s.calls c).phase.streamed = some p) (hsess : s.sessions p = some sess) :
    StreamEffect s (finClose s c p sess) l := by
  refine .still [.finClosed c p] ?_ rfl ?_ finClose_phases
  · refine buffersMove_of_update hsess rfl (fun q _ ↦ hl q) (.closed (hl p) rfl (Or.inl ⟨c, ?_⟩))
    simp [finClose]
  · intro e he
    rw [List.mem_singleton.mp he]
    refine ⟨Phase.handled_of_streamed hstreamed, _, Function.update_self _ _ _, ?_⟩
    exact FrameBuffer.close_closed _

theorem refreshLoop_streamEffect (hl : ∀ q, l.pushes q = []) :
    StreamEffect s (refreshLoop s c sess cfg) l := by
  obtain ⟨-, -, -, htrace, -⟩ := refreshTtl_fields cfg s sess.id
  refine .still [] (refreshTtl_buffers cfg sess.id hl rfl rfl) ?_ (by simp) refreshLoop_phases
  rw [List.append_nil]
  exact htrace

/-- The four methods that empty the slot: only a `stop_by_id` may be the end of a handler. -/
theorem takeCurrent_streamEffect {op : Op} {key : ℕ → Session → Bool} {reason : Reason}
    {deadline : ℕ} {otherwise : State} (hl : ∀ q, l.pushes q = [])
    (hphase : (s.calls c).phase = .calling op)
    (hstops : ∀ id, op = .stopById id → ∀ q sessq, sessq.id = id → key q sessq = true)
    (hcurrent : otherwise.current = s.current) (hsessions : otherwise.sessions = s.sessions)
    (htrace : ∃ evs, otherwise.trace = s.trace ++ evs ∧ ∀ e ∈ evs, e.Explained s otherwise)
    (hhandled : (otherwise.calls c).phase.handled = none)
    (hothers : ∀ k, k ≠ c → (otherwise.calls k).phase = (s.calls k).phase) :
    StreamEffect s
      (takeCurrent (s.log (.entered c op s.current)) c op key reason deadline otherwise) l := by
  -- The call is done with the slot, whatever it has found there.
  have hmove : ∀ t : State, (t.calls c).phase.handled = none →
      (∀ q sessq, s.sessions q = some sessq → key q sessq = true → t.current ≠ some q) →
      HandlerMove s t c := by
    intro t ht hout
    by_cases hdeparting : (s.calls c).phase.Departing
    · rw [hphase] at hdeparting
      cases op with
      | stopById id =>
        refine .stops id hphase ht fun q sessq hsessq hid ↦ ?_
        exact hout q sessq hsessq (hstops id rfl q sessq hid)
      | _ => exact hdeparting.elim
    · refine .moves hdeparting (Phase.ne_streaming_of_handled ht) fun q hq ↦ ?_
      rw [ht] at hq
      exact absurd hq (by simp)
  have hnot : (∀ q sessq, s.currentSession = some (q, sessq) → key q sessq = false) →
      StreamEffect s otherwise l := by
    intro hkey
    refine ⟨⟨c, hmove _ hhandled ?_, hothers⟩, buffersMove_of_eq hl hsessions, htrace⟩
    intro q sessq hsessq hmatch hq
    rw [hcurrent] at hq
    rw [hkey q sessq (State.currentSession_eq_some.mpr ⟨hq, hsessq⟩)] at hmatch
    exact absurd hmatch Bool.false_ne_true
  unfold takeCurrent
  split
  · rename_i p sess hfound
    have hfound' : s.currentSession = some (p, sess) := hfound
    split_ifs with hmatch
    · refine ⟨⟨c, hmove _ ?_ ?_, ?_⟩, buffersMove_of_eq hl rfl,
        [.entered c op s.current, .removed c op p], ?_, ?_⟩
      · simp [Phase.handled]
      · simp
      · intro k hk
        simp [hk]
      · simp
      · simp [Event.Explained]
    · refine hnot fun q sessq hq ↦ ?_
      rw [hfound'] at hq
      obtain ⟨rfl, rfl⟩ := Prod.mk.inj (Option.some.inj hq)
      exact eq_false_of_ne_true hmatch
  · rename_i hnone
    have hnone' : s.currentSession = none := hnone
    refine hnot fun q sessq hq ↦ ?_
    rw [hnone'] at hq
    exact absurd hq (by simp)

/-- The methods that return at once when the session they are after is not in the slot. -/
theorem takeCurrent_done_streamEffect {op : Op} {key : ℕ → Session → Bool} {reason : Reason}
    {deadline : ℕ} (hl : ∀ q, l.pushes q = []) (hphase : (s.calls c).phase = .calling op)
    (hstops : ∀ id, op = .stopById id → ∀ q sessq, sessq.id = id → key q sessq = true) :
    StreamEffect s (takeCurrent (s.log (.entered c op s.current)) c op key reason deadline
      ((s.log (.entered c op s.current)).reply c .done)) l := by
  refine takeCurrent_streamEffect hl hphase hstops rfl rfl
    ⟨[.entered c op s.current, .returned c .done], ?_, ?_⟩ ?_ ?_
  · simp [State.reply]
  · simp [Event.Explained]
  · simp [State.reply, Phase.handled]
  · intro k hk
    simp [State.reply, hk]

theorem enter_streamEffect {op : Op} (hl : ∀ q, l.pushes q = [])
    (hphase : (s.calls c).phase = .calling op) : StreamEffect s (enter cfg s c op) l := by
  have hentered : ∀ t, ∀ e ∈ [Event.entered c op s.current], e.Explained s t := by
    intro t e he
    rw [List.mem_singleton.mp he]
    trivial
  cases op with
  | start outdoor =>
    have hs : ¬ (s.calls c).phase.Departing := by
      rw [hphase]
      exact not_false
    simp only [enter, start]
    split
    · rename_i p sess hfound
      obtain ⟨-, hsess⟩ := State.currentSession_eq_some.mp hfound
      rw [State.log_sessions] at hsess
      split_ifs
      · obtain ⟨-, -, hcalls, htrace, -⟩ :=
          reuse_fields cfg (s := s.log (.entered c (.start outdoor) s.current)) hsess
        refine .reply [.entered c (.start outdoor) s.current] hs hcalls htrace (hentered _) ?_
        exact reuse_buffers (u := s.log (.entered c (.start outdoor) s.current)) cfg hl rfl hsess
          rfl
      · exact .reply [.entered c (.start outdoor) s.current] hs rfl rfl (hentered _)
          (buffersMove_of_eq hl rfl)
    · refine .outside [.entered c (.start outdoor) s.current] (c := c) (buffersMove_of_eq hl rfl)
        rfl (hentered _) hs ?_ ?_
      · simp [Phase.handled]
      · intro k hk
        simp [hk]
  | stop uri =>
    exact takeCurrent_done_streamEffect hl hphase (by simp)
  | stopById id =>
    apply takeCurrent_done_streamEffect hl hphase
    rintro _ ⟨rfl⟩ q sessq hid
    simpa using hid
  | refreshTtl id =>
    have hs : ¬ (s.calls c).phase.Departing := by
      rw [hphase]
      exact not_false
    obtain ⟨-, -, hcalls, htrace, -⟩ :=
      refreshTtl_fields cfg (s.log (.entered c (.refreshTtl id) s.current)) id
    refine .reply [.entered c (.refreshTtl id) s.current] hs hcalls htrace (hentered _) ?_
    exact refreshTtl_buffers (u := s.log (.entered c (.refreshTtl id) s.current)) cfg id hl rfl rfl
  | stopInternal q reason =>
    exact takeCurrent_done_streamEffect hl hphase (by simp)
  | shutdown overall =>
    refine takeCurrent_streamEffect hl hphase (by simp) rfl rfl
      ⟨[.entered c (.shutdown overall) s.current], rfl, hentered _⟩ ?_ ?_
    · simp [Phase.handled]
    · intro k hk
      simp [hk]
  | stream id =>
    have hs : ¬ (s.calls c).phase.Departing := by
      rw [hphase]
      exact not_false
    simp only [enter, stream]
    split
    · rename_i p sess hfound
      obtain ⟨hcurrent, -⟩ := State.currentSession_eq_some.mp hfound
      rw [State.log_current] at hcurrent
      split_ifs
      · refine ⟨⟨c, .moves hs ?_ ?_, ?_⟩, buffersMove_of_eq hl rfl,
          [.entered c (.stream id) s.current], rfl, hentered _⟩
        · simp
        · intro q hq
          simp only [State.setPhase_calls, Function.update_self, Phase.handled,
            Option.some.injEq] at hq
          rw [← hq]
          exact Or.inr ⟨hcurrent, id, by simp [hcurrent]⟩
        · intro k hk
          simp [hk]
      · exact .reply [.entered c (.stream id) s.current] hs rfl rfl (hentered _)
          (buffersMove_of_eq hl rfl)
    · exact .reply [.entered c (.stream id) s.current] hs rfl rfl (hentered _)
        (buffersMove_of_eq hl rfl)

/-- A `start` that goes on, after the events `evs` and with the sessions of `u`. -/
theorem StreamEffect.starts {outdoor : Outdoor} {phase phase' : StartPhase} {u : State}
    (evs : List Event) (hphase : (s.calls c).phase = .starting outdoor phase)
    (hcalls : u.calls = s.calls) (htrace : u.trace = s.trace ++ evs)
    (hevs : ∀ e ∈ evs, e.Explained s (u.setPhase c (.starting outdoor phase')))
    (hbuffers : BuffersMove s (u.setPhase c (.starting outdoor phase')) l) :
    StreamEffect s (u.setPhase c (.starting outdoor phase')) l := by
  refine .outside evs (c := c) hbuffers htrace hevs ?_ ?_ ?_
  · rw [hphase]
    exact not_false
  · simp [Phase.handled]
  · intro k hk
    simp [hk, hcalls]

theorem StreamEffect.startFails {outdoor : Outdoor} {phase : StartPhase} {error : StartError}
    {u : State} (evs : List Event) (hl : ∀ q, l.pushes q = [])
    (hphase : (s.calls c).phase = .starting outdoor phase) (hcalls : u.calls = s.calls)
    (hsessions : u.sessions = s.sessions) (htrace : u.trace = s.trace ++ evs)
    (hevs : ∀ e ∈ evs, e.Explained s (startFails u c error)) :
    StreamEffect s (startFails u c error) l := by
  refine .reply evs ?_ hcalls htrace hevs (buffersMove_of_eq hl hsessions)
  rw [hphase]
  exact not_false

theorem startPreview_streamEffect {outdoor : Outdoor} {ok : Bool} (hl : ∀ q, l.pushes q = [])
    (hphase : (s.calls c).phase = .starting outdoor .previewing) :
    StreamEffect s (startPreview s c outdoor ok) l := by
  unfold startPreview
  split_ifs
  · exact .starts [.startPreview c outdoor ok] hphase rfl rfl (by simp [Event.Explained])
      (buffersMove_of_eq hl rfl)
  · exact .startFails [.startPreview c outdoor ok, .dropSocket c] hl hphase rfl rfl (by simp)
      (by simp [Event.Explained])

theorem drawNumbers_streamEffect {outdoor : Outdoor} {uuid : Option Str} {ssrc : Option UInt32}
    (hl : ∀ q, l.pushes q = []) (hphase : (s.calls c).phase = .starting outdoor .drawing)
    (hfresh : s.sessions p = none) :
    StreamEffect s (drawNumbers cfg s c outdoor uuid ssrc p) l := by
  unfold drawNumbers
  split
  · exact .starts [.drew c .uuid false, .dropSocket c] hphase rfl (by simp)
      (by simp [Event.Explained]) (buffersMove_of_eq hl rfl)
  · exact .starts [.drew c .uuid true, .drew c .ssrc false, .dropSocket c] hphase rfl (by simp)
      (by simp [Event.Explained]) (buffersMove_of_eq hl rfl)
  · refine .starts [.drew c .uuid true, .drew c .ssrc true] hphase rfl (by simp)
      (by simp [Event.Explained]) ?_
    intro q sessq hsessq
    simp only [State.setPhase_sessions, State.setSession_sessions] at hsessq
    by_cases hq : q = p
    · rw [hq, Function.update_self, Option.some.injEq] at hsessq
      rw [hq, ← hsessq]
      exact Or.inl ⟨hfresh, rfl⟩
    · rw [Function.update_of_ne hq] at hsessq
      exact Or.inr ⟨sessq, hsessq, .same (hl q) rfl⟩

theorem teardown_streamEffect {reason : Reason} {deadline : ℕ} {phase : TeardownPhase}
    (hl : ∀ q, l.pushes q = []) (hphase : (s.calls c).phase = .tearing p reason deadline phase)
    (hsess : s.sessions p = some sess) :
    StreamEffect s (teardown s c p sess reason deadline phase) l := by
  have hs : ¬ (s.calls c).phase.Departing := by
    rw [hphase]
    exact not_false
  have hothers : ∀ {u : State} {phase'}, u.calls = s.calls → ∀ k, k ≠ c →
      ((u.setPhase c phase').calls k).phase = (s.calls k).phase := by
    intro u phase' hcalls k hk
    simp [hk, hcalls]
  -- Before the close the buffer stays as it is.
  have hkeeps : ∀ phase phase' st, (Session.tear sess phase).frameBuf = sess.frameBuf →
      StreamEffect s (((s.setSession p (Session.tear sess phase)).log (.tore c p st)).setPhase c
        (.tearing p reason deadline phase')) l := by
    intro phase phase' st hfb
    refine .outside [.tore c p st] (c := c) (buffersMove_of_same hsess rfl hl hfb) rfl
      (by simp [Event.Explained]) hs ?_ (hothers rfl)
    simp [Phase.handled]
  cases phase with
  | stopPreview => exact hkeeps .stopPreview .bye _ rfl
  | bye => exact hkeeps .bye .stopFlag _ rfl
  | stopFlag => exact hkeeps .stopFlag .close _ rfl
  | close =>
    have hclosed : ∀ {t : State},
        t.sessions = Function.update s.sessions p (some (Session.tear sess .close)) →
        .tore c p .close ∈ t.trace → BuffersMove s t l := by
      intro t hsessions hevent
      exact buffersMove_of_update hsess hsessions (fun q _ ↦ hl q)
        (.closed (hl p) rfl (Or.inr ⟨c, hevent⟩))
    unfold teardown
    split_ifs
    · refine .outside [.tore c p .close] (c := c) (hclosed rfl ?_) rfl (by simp [Event.Explained])
        hs ?_ (hothers rfl)
      · simp [teardownStep]
      · simp [Phase.handled]
    · refine .reply [.tore c p .close] hs rfl rfl (by simp [Event.Explained]) (hclosed rfl ?_)
      simp [State.reply, teardownStep]

/-- A handler leaves, perhaps after a last unit. -/
theorem leave_streamEffect {consumer : Option ℕ} {last : FrameBuffer} (hl : ∀ q, l.pushes q = [])
    (hsess : s.sessions p = some sess)
    (hphase : (s.calls c).phase = .streaming p consumer ∨
      (s.calls c).phase = .seeding p ∧ consumer = none)
    (hlast : last = sess.frameBuf ∨
      ∃ k n, consumer = some k ∧ sess.frameBuf.recv k = some (n, last)) :
    StreamEffect s (leave s c p { sess with frameBuf := last } consumer) l := by
  have hhandled : (s.calls c).phase.handled = some p := by
    rcases hphase with hphase | ⟨hphase, -⟩
    · rw [hphase, Phase.handled]
    · rw [hphase, Phase.handled]
  have hs : ¬ (s.calls c).phase.Departing := by
    rcases hphase with hphase | ⟨hphase, -⟩
    · rw [hphase]
      exact not_false
    · rw [hphase]
      exact not_false
  have hleaving : ((leave s c p { sess with frameBuf := last } consumer).calls c).phase =
      .leaving p := by
    simp [leave]
  refine ⟨⟨c, .moves hs ?_ ?_, ?_⟩, ?_, [.left c p], rfl, ?_⟩
  · rw [hleaving]
    simp
  · intro q hq
    rw [hleaving, Phase.handled] at hq
    exact Or.inl (hhandled.trans hq)
  · intro k hk
    simp [leave, hk]
  · refine buffersMove_of_update hsess rfl (fun q _ ↦ hl q) ?_
    cases consumer with
    | none =>
      rcases hlast with hlast | ⟨k, n, hnone, -⟩
      · exact .same (hl p) hlast
      · exact absurd hnone (by simp)
    | some k =>
      refine .withdrew c k last (hl p) ?_ hleaving ?_ rfl
      · rcases hphase with hphase | ⟨-, hnone⟩
        · exact hphase
        · exact absurd hnone (by simp)
      · rcases hlast with hlast | ⟨j, n, hj, hrecv⟩
        · exact Or.inl hlast
        · rw [Option.some.inj hj]
          exact Or.inr ⟨n, hrecv⟩
  · intro e he
    rw [List.mem_singleton.mp he]
    exact ⟨hhandled, hleaving⟩

theorem seed_streamEffect {ok : Bool} (hl : ∀ q, l.pushes q = [])
    (hphase : (s.calls c).phase = .seeding p) (hsess : s.sessions p = some sess) :
    StreamEffect s (seed s c p sess ok) l := by
  unfold seed
  split_ifs
  · exact leave_streamEffect hl hsess (Or.inr ⟨hphase, rfl⟩) (Or.inl rfl)
  · refine ⟨⟨c, .subscribes p sess { sess with frameBuf := sess.frameBuf.subscribe.1 } hphase ?_
      hsess ?_ rfl, ?_⟩, ?_, [], ?_, by simp⟩
    · simp
    · simp
    · intro k hk
      simp [hk]
    · exact buffersMove_of_update hsess rfl (fun q _ ↦ hl q) (.subscribed (hl p) rfl)
    · simp

theorem receive_streamEffect {consumer : Option ℕ} {ok : Bool} (hl : ∀ q, l.pushes q = [])
    (hphase : (s.calls c).phase = .streaming p consumer) (hsess : s.sessions p = some sess)
    (h : receive s c p sess consumer ok = some t) : StreamEffect s t l := by
  simp only [receive, Option.bind_eq_some_iff, Option.map_eq_some_iff] at h
  obtain ⟨k, hk, ⟨n, fb⟩, hrecv, rfl⟩ := h
  split_ifs
  · exact .turn hsess (fun q _ ↦ hl q) fun _ ↦ .received k n (hl p) hrecv
  · exact leave_streamEffect hl hsess (Or.inl hphase) (Or.inr ⟨k, n, hk, hrecv⟩)

theorem beginStream_streamEffect {peek : Bool} (hl : ∀ q, l.pushes q = [])
    (hphase : (s.calls c).phase = .ready p) :
    StreamEffect s (beginStream s c p sess cfg peek) l := by
  obtain ⟨-, -, hcalls, htrace, -⟩ := refreshTtl_fields cfg s sess.id
  refine ⟨⟨c, .moves ?_ ?_ ?_, ?_⟩, refreshTtl_buffers (u := s) cfg sess.id hl rfl rfl, [], ?_,
    by simp⟩
  · rw [hphase]
    exact not_false
  · simp [beginStream]
  · intro q hq
    simp only [beginStream, Function.update_self, Phase.handled] at hq
    rw [hphase]
    exact Or.inl hq
  · intro k hk
    simp only [beginStream, Function.update_of_ne hk, hcalls]
  · rw [List.append_nil]
    exact htrace

/-- A handler goes on with its session, or answers with an error. -/
theorem waitIdr_streamEffect {deadline : ℕ} (hl : ∀ q, l.pushes q = [])
    (hphase : (s.calls c).phase = .waitingIdr p deadline)
    (h : waitIdr s c p sess deadline = some t) : StreamEffect s t l := by
  have hs : ¬ (s.calls c).phase.Departing := by
    rw [hphase]
    exact not_false
  unfold waitIdr at h
  split_ifs at h
  · obtain rfl := Option.some.inj h
    exact .reply [] hs rfl (by simp) (by simp) (buffersMove_of_eq hl rfl)
  · obtain rfl := Option.some.inj h
    refine .setPhase hl hs (by simp) fun q hq ↦ ?_
    rw [hphase]
    exact hq
  · obtain rfl := Option.some.inj h
    exact .reply [] hs rfl (by simp) (by simp) (buffersMove_of_eq hl rfl)

theorem checkReady_streamEffect (hl : ∀ q, l.pushes q = [])
    (hphase : (s.calls c).phase = .checking p) : StreamEffect s (checkReady s c p sess) l := by
  have hs : ¬ (s.calls c).phase.Departing := by
    rw [hphase]
    exact not_false
  unfold checkReady
  split_ifs
  · exact .reply [] hs rfl (by simp) (by simp) (buffersMove_of_eq hl rfl)
  · exact .reply [] hs rfl (by simp) (by simp) (buffersMove_of_eq hl rfl)
  · refine .setPhase hl hs (by simp) fun q hq ↦ ?_
    rw [hphase]
    exact hq

theorem bindUdp_streamEffect {outdoor : Outdoor} {ok : Bool} (hl : ∀ q, l.pushes q = [])
    (hphase : (s.calls c).phase = .starting outdoor .binding) :
    StreamEffect s (bindUdp s c outdoor ok) l := by
  unfold bindUdp
  split_ifs
  · exact .starts [.bound c ok] hphase rfl rfl (by simp [Event.Explained])
      (buffersMove_of_eq hl rfl)
  · exact .startFails [.bound c ok] hl hphase rfl rfl rfl (by simp [Event.Explained])

theorem commit_streamEffect (hl : ∀ q, l.pushes q = []) (hs : ¬ (s.calls c).phase.Departing) :
    StreamEffect s (commit cfg s c p sess) l :=
  .reply [.committed c p] hs rfl rfl (by simp [Event.Explained]) (buffersMove_of_eq hl rfl)

theorem reconcile_streamEffect {overall : ℕ} (hl : ∀ q, l.pushes q = [])
    (hs : ¬ (s.calls c).phase.Departing) :
    StreamEffect s { s.setPhase c (.draining overall s.cleanups) with cleanups := [] } l := by
  refine .outside [] (c := c) (buffersMove_of_eq hl rfl) (by simp) (by simp) hs ?_ ?_
  · simp [Phase.handled]
  · intro k hk
    simp [hk]

theorem joinThreads_streamEffect (hl : ∀ q, l.pushes q = [])
    (hphase : (s.calls c).phase = .leaving p) (hsess : s.sessions p = some sess) :
    StreamEffect s (joinThreads s c sess) l := by
  refine ⟨⟨c, .joins _ sess hphase hsess ?_, ?_⟩, buffersMove_of_eq hl rfl, [], ?_, by simp⟩
  · simp [joinThreads]
  · intro k hk
    simp [joinThreads, hk]
  · simp [joinThreads]

/-- Every step does one of these things to the handlers and the buffers. -/
theorem step_streamEffect (h : step cfg s l = some t) : StreamEffect s t l := by
  have hdeparting : ∀ {c : ℕ} {phase : Phase}, (s.calls c).phase = phase → ¬ phase.Departing →
      ¬ (s.calls c).phase.Departing := by
    intro c phase hphase hnot
    rw [hphase]
    exact hnot
  cases step_move h with
  | elapse d =>
    exact .still [] (buffersMove_of_eq (fun _ ↦ rfl) rfl) (by simp) (by simp) fun _ ↦ rfl
  | call c op hphase =>
    exact .setPhase (fun _ ↦ rfl) (hdeparting hphase not_false) (by simp) (by simp [Phase.handled])
  | enter c op hphase => exact enter_streamEffect (fun _ ↦ rfl) hphase
  | bindUdp c outdoor ok hphase => exact bindUdp_streamEffect (fun _ ↦ rfl) hphase
  | startPreview c outdoor ok hphase => exact startPreview_streamEffect (fun _ ↦ rfl) hphase
  | drawNumbers c outdoor uuid ssrc p hphase hfresh =>
    exact drawNumbers_streamEffect (fun _ ↦ rfl) hphase hfresh
  | rollback c outdoor missing hphase =>
    exact .startFails [.rollbackPreview c outdoor] (fun _ ↦ rfl) hphase rfl rfl rfl
      (by simp [Event.Explained])
  | commit c outdoor p sess hphase =>
    exact commit_streamEffect (fun _ ↦ rfl) (hdeparting hphase not_false)
  | teardown c p sess reason deadline phase hphase hsess =>
    exact teardown_streamEffect (fun _ ↦ rfl) hphase hsess
  | reconcile c overall hphase =>
    exact reconcile_streamEffect (fun _ ↦ rfl) (hdeparting hphase not_false)
  | drained c overall handles hphase =>
    exact .reply [] (hdeparting hphase not_false) rfl (by simp) (by simp)
      (buffersMove_of_eq (fun _ ↦ rfl) rfl)
  | waitIdr c p sess deadline t hphase hsess hwait =>
    exact waitIdr_streamEffect (fun _ ↦ rfl) hphase hwait
  | checkReady c p sess hphase => exact checkReady_streamEffect (fun _ ↦ rfl) hphase
  | beginStream c p sess peek hphase => exact beginStream_streamEffect (fun _ ↦ rfl) hphase
  | seed c p sess ok hphase hsess => exact seed_streamEffect (fun _ ↦ rfl) hphase hsess
  | receive c p sess consumer ok t hphase hsess hreceive =>
    exact receive_streamEffect (fun _ ↦ rfl) hphase hsess hreceive
  | flushFails c p sess consumer hphase hsess =>
    exact leave_streamEffect (fun _ ↦ rfl) hsess (Or.inl hphase) (Or.inl rfl)
  | hangUp c p sess consumer hphase hsess =>
    exact leave_streamEffect (fun _ ↦ rfl) hsess (Or.inl hphase) (Or.inl rfl)
  | joinThreads c p sess hphase hsess => exact joinThreads_streamEffect (fun _ ↦ rfl) hphase hsess
  | finClose c p sess hstreamed hsess => exact finClose_streamEffect (fun _ ↦ rfl) hstreamed hsess
  | refreshLoop c p sess => exact refreshLoop_streamEffect fun _ ↦ rfl
  | packet p sess hsess => exact .setSession (fun _ ↦ rfl) hsess rfl
  | push p n sess hsess hidle => exact push_streamEffect hsess hidle
  | send p sess fb hsess hsend => exact .turn hsess (fun _ _ ↦ rfl) fun _ ↦ .sent rfl hsend
  | look p sess sess' hsess hlook => exact look_streamEffect (fun _ ↦ rfl) hsess hlook
  | tick p sess now hsess => exact .setSession (fun _ ↦ rfl) hsess rfl
  | spawnCleanup p c sess reason hsess hmonitor hidle =>
    exact spawnCleanup_streamEffect (fun _ ↦ rfl) hsess hidle
  | registerCleanup p c sess hsess => exact registerCleanup_streamEffect (fun _ ↦ rfl) hsess
  | guardReinvite p sess now hsess => exact guardReinvite_streamEffect (fun _ ↦ rfl) hsess
  | reinvite p sess hsess => exact reinvite_streamEffect (fun _ ↦ rfl) hsess

end Steps

end DoorAccess.Video.Manager
