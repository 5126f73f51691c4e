import DoorAccess.Video.Sessions

/-!
# The deadline of a session that never streamed

A deadline is written when its session is created, by a `start` that finds the session with a
complete seed, and by `refresh_ttl`, which the stream handlers call behind their checks and their
refresh loops repeat. `step_deadline` says that there is no other way. A handler gets behind its
checks only while the seed is complete (`step_admits`), so a session whose buffer never had one
keeps the deadline it was created with, however often it is asked for, and the first tick of its
monitor behind the deadline starts the clean-up.

`refresh_ttl` finds the session by its id. That the random source gives no UUID twice is an
assumption on it (`Proper`).
-/

set_option autoImplicit false
set_option relaxedAutoImplicit false

namespace DoorAccess.Video.Manager

open Codec Transition

/-! ### How a deadline changes -/

section Deadline

variable {cfg : Config} {s t : State} {l : Label} {p : ℕ} {sess' : Session}

/-- A session is new, or it was there and its deadline is the same or refreshed. -/
theorem step_deadline (h : step cfg s l = some t) (hsess' : t.sessions p = some sess') :
    Creates cfg s t l p ∨ ∃ sess, s.sessions p = some sess ∧
      (sess'.ttlDeadline = sess.ttlDeadline ∨ Refreshes s l p) := by
  rcases step_session h p sess' hsess' with hcreates | ⟨sess, hsess, hmove⟩
  · exact Or.inl hcreates
  · refine Or.inr ⟨sess, hsess, ?_⟩
    cases hmove with
    | same | packet | buffer | monitor | stopped => exact Or.inl rfl
    | refreshed hrefreshes => exact Or.inr hrefreshes

end Deadline

/-! ### How a handler gets behind its checks -/

/-- The session whose stream a handler was let through to. -/
def Phase.admitted : Phase → Option ℕ
  | .ready p => some p
  | .seeding p => some p
  | .streaming p _ => some p
  | .leaving p => some p
  | _ => none

/-- A call of `refresh_ttl` that does not come from a handler. -/
def Phase.Asks : Phase → Prop
  | .calling (.refreshTtl _) => True
  | _ => False

/-- The buffer of the session has a complete seed. -/
def Seeded (s : State) (p : ℕ) : Prop :=
  ∃ sess, s.sessions p = some sess ∧ sess.frameBuf.latestIdr.isSome = true

instance Seeded.instDecidable (s : State) (p : ℕ) : Decidable (Seeded s p) :=
  decidable_of_iff (((s.sessions p).map fun sess ↦ sess.frameBuf.latestIdr.isSome) = some true)
    Option.map_eq_some_iff

/-- What a step can make of the call `c`: it is let through only to a seeded stream. -/
structure Admits (s t : State) (l : Label) (c : ℕ) : Prop where
  admitted : ∀ p, (t.calls c).phase.admitted = some p →
    (s.calls c).phase.admitted = some p ∨ Seeded s p
  asks : (t.calls c).phase.Asks → (s.calls c).phase.Asks ∨ ∃ id, l = .call c (.refreshTtl id)

section Admits

variable {cfg : Config} {s t u : State} {l : Label} {c k p : ℕ} {sess : Session} {phase : Phase}

theorem Admits.same (h : (t.calls c).phase = (s.calls c).phase) : Admits s t l c := by
  constructor
  · intro p hp
    rw [h] at hp
    exact Or.inl hp
  · intro hasks
    rw [h] at hasks
    exact Or.inl hasks

/-- The call goes on with the stream it was let through to. -/
theorem Admits.keeps (h : (t.calls c).phase.admitted = (s.calls c).phase.admitted)
    (hasks : ¬ (t.calls c).phase.Asks) : Admits s t l c := by
  refine ⟨?_, fun ht ↦ absurd ht hasks⟩
  intro p hp
  rw [h] at hp
  exact Or.inl hp

/-- The call comes to a phase that is neither. -/
theorem Admits.other (phase : Phase) (h : (t.calls c).phase = phase)
    (hadmitted : phase.admitted = none) (hasks : ¬ phase.Asks) : Admits s t l c := by
  constructor
  · intro p hp
    rw [h, hadmitted] at hp
    exact absurd hp (by simp)
  · intro ht
    rw [h] at ht
    exact absurd ht hasks

theorem Admits.setPhase (hadmitted : phase.admitted = none) (hasks : ¬ phase.Asks) :
    Admits s (u.setPhase c phase) l c := by
  refine .other phase ?_ hadmitted hasks
  rw [State.setPhase_calls, Function.update_self]

theorem Admits.reply {r : Reply} : Admits s (u.reply c r) l c := by
  refine .other (.returned r) ?_ rfl id
  simp [State.reply]

theorem takeCurrent_admits {op : Op} {key : ℕ → Session → Bool} {reason : Reason} {deadline : ℕ}
    {otherwise : State} (hotherwise : Admits s otherwise l c) :
    Admits s (takeCurrent u c op key reason deadline otherwise) l c := by
  unfold takeCurrent
  split
  · rename_i q sess _
    split_ifs
    · refine .other (.tearing q reason deadline .stopPreview) ?_ rfl id
      simp
    · exact hotherwise
  · exact hotherwise

theorem enter_admits {op : Op} : Admits s (enter cfg s c op) l c := by
  cases op with
  | start outdoor =>
    simp only [enter, start]
    split
    · split_ifs
      · exact .reply
      · exact .reply
    · exact .setPhase rfl id
  | stop uri => exact takeCurrent_admits .reply
  | stopById id => exact takeCurrent_admits .reply
  | refreshTtl id => exact .reply
  | stopInternal q reason => exact takeCurrent_admits .reply
  | shutdown overall => exact takeCurrent_admits (.setPhase rfl id)
  | stream id =>
    simp only [enter, stream]
    split
    · split_ifs
      · exact .setPhase rfl (fun hasks ↦ hasks)
      · exact .reply
    · exact .reply

theorem leave_admits {consumer : Option ℕ} {sess' : Session}
    (hphase : (s.calls c).phase.admitted = some p) :
    Admits s (leave s c p sess' consumer) l c := by
  have hleaving : ((leave s c p sess' consumer).calls c).phase = .leaving p := by
    simp [leave]
  refine .keeps ?_ ?_
  · rw [hleaving, hphase]
    rfl
  · rw [hleaving]
    exact id

theorem call_admits {op : Op} : Admits s (s.setPhase c (.calling op)) (.call c op) c := by
  constructor
  · intro p hp
    rw [State.setPhase_calls, Function.update_self] at hp
    exact absurd hp (by simp [Phase.admitted])
  · intro hasks
    rw [State.setPhase_calls, Function.update_self] at hasks
    cases op with
    | refreshTtl id => exact Or.inr ⟨id, rfl⟩
    | _ => exact hasks.elim

theorem bindUdp_admits {outdoor : Outdoor} {ok : Bool} :
    Admits s (bindUdp s c outdoor ok) l c := by
  unfold bindUdp
  split_ifs
  · exact .setPhase rfl id
  · exact .reply

theorem startPreview_admits {outdoor : Outdoor} {ok : Bool} :
    Admits s (startPreview s c outdoor ok) l c := by
  unfold startPreview
  split_ifs
  · exact .setPhase rfl id
  · exact .reply

theorem drawNumbers_admits {outdoor : Outdoor} {uuid : Option Str} {ssrc : Option UInt32} :
    Admits s (drawNumbers cfg s c outdoor uuid ssrc p) l c := by
  unfold drawNumbers
  split
  · exact .setPhase rfl id
  · exact .setPhase rfl id
  · exact .setPhase rfl id

theorem teardown_admits {reason : Reason} {deadline : ℕ} {phase : TeardownPhase} :
    Admits s (teardown s c p sess reason deadline phase) l c := by
  unfold teardown
  cases phase with
  | stopPreview | bye | stopFlag => exact .setPhase rfl id
  | close =>
    simp only
    split_ifs
    · exact .setPhase rfl id
    · exact .reply

theorem waitIdr_admits {deadline : ℕ} (h : waitIdr s c p sess deadline = some t) :
    Admits s t l c := by
  unfold waitIdr at h
  split_ifs at h
  · obtain rfl := Option.some.inj h
    exact .reply
  · obtain rfl := Option.some.inj h
    exact .setPhase rfl id
  · obtain rfl := Option.some.inj h
    exact .reply

theorem checkReady_admits (hsess : s.sessions p = some sess) :
    Admits s (checkReady s c p sess) l c := by
  unfold checkReady
  split_ifs with hclosed hnone
  · exact .reply
  · exact .reply
  · -- The checks are passed: here the seed is complete.
    have hsome := Option.isSome_iff_ne_none.mpr fun hidr ↦
      hnone (Option.isNone_iff_eq_none.mpr hidr)
    have hseeded : Seeded s p := ⟨sess, hsess, hsome⟩
    constructor
    · intro q hq
      rw [State.setPhase_calls, Function.update_self] at hq
      rw [← Option.some.inj hq]
      exact Or.inr hseeded
    · intro hasks
      rw [State.setPhase_calls, Function.update_self] at hasks
      exact hasks.elim

theorem beginStream_admits {peek : Bool} (hphase : (s.calls c).phase = .ready p) :
    Admits s (beginStream s c p sess cfg peek) l c := by
  refine .keeps ?_ ?_
  · simp [beginStream, hphase, Phase.admitted]
  · simp [beginStream, Phase.Asks]

theorem seed_admits {ok : Bool} (hphase : (s.calls c).phase = .seeding p) :
    Admits s (seed s c p sess ok) l c := by
  unfold seed
  split_ifs
  · exact leave_admits (by rw [hphase]; rfl)
  · refine .keeps ?_ ?_
    · simp [hphase, Phase.admitted]
    · simp [Phase.Asks]

theorem receive_admits {consumer : Option ℕ} {ok : Bool}
    (hphase : (s.calls c).phase = .streaming p consumer)
    (h : receive s c p sess consumer ok = some t) : Admits s t l c := by
  simp only [receive, Option.bind_eq_some_iff, Option.map_eq_some_iff] at h
  obtain ⟨k, -, ⟨n, fb⟩, -, rfl⟩ := h
  split_ifs
  · exact .same rfl
  · exact leave_admits (by rw [hphase]; rfl)

/-- A call that makes a move is let through to a seeded stream only. -/
theorem move_admits (h : Move cfg s l t) (hmover : l.mover = .call k) : Admits s t l k := by
  -- The call in question is the one that moves.
  have hmoves : ∀ {c : ℕ}, l.mover = .call c → Admits s t l c → Admits s t l k := by
    intro c hc hadmits
    rw [hmover] at hc
    rw [Mover.call.inj hc]
    exact hadmits
  cases h with
  | call c op => exact hmoves rfl call_admits
  | enter c op => exact hmoves rfl enter_admits
  | bindUdp c outdoor ok => exact hmoves rfl bindUdp_admits
  | startPreview c outdoor ok => exact hmoves rfl startPreview_admits
  | drawNumbers c outdoor uuid ssrc p => exact hmoves rfl drawNumbers_admits
  | rollback c outdoor missing => exact hmoves rfl .reply
  | commit c outdoor p sess => exact hmoves rfl .reply
  | teardown c p sess reason deadline phase => exact hmoves rfl teardown_admits
  | reconcile c overall =>
    refine hmoves rfl (.other (.draining overall s.cleanups) ?_ rfl id)
    simp
  | drained c overall handles => exact hmoves rfl .reply
  | waitIdr c p sess deadline t hphase hsess hwait => exact hmoves rfl (waitIdr_admits hwait)
  | checkReady c p sess hphase hsess => exact hmoves rfl (checkReady_admits hsess)
  | beginStream c p sess peek hphase => exact hmoves rfl (beginStream_admits hphase)
  | seed c p sess ok hphase => exact hmoves rfl (seed_admits hphase)
  | receive c p sess consumer ok t hphase hsess hreceive =>
    exact hmoves rfl (receive_admits hphase hreceive)
  | flushFails c p sess consumer hphase => exact hmoves rfl (leave_admits (by rw [hphase]; rfl))
  | hangUp c p sess consumer hphase => exact hmoves rfl (leave_admits (by rw [hphase]; rfl))
  | joinThreads c p sess =>
    refine hmoves rfl (.other (.calling (.stopById sess.id)) ?_ rfl id)
    simp [joinThreads]
  | elapse | finClose | refreshLoop | packet | push | send | look | tick | spawnCleanup
  | registerCleanup | guardReinvite | reinvite => exact absurd hmover (by simp [Label.mover])

/-- A call is let through to a stream only while the seed of the session is complete. -/
theorem step_admits (h : step cfg s l = some t) (k : ℕ) : Admits s t l k := by
  rcases step_phases h k with hmover | hsame | ⟨p, reason, -, -, hcleans⟩
  · exact move_admits (step_move h) hmover
  · exact .same hsame
  · exact .other _ hcleans rfl id

theorem Phase.handled_of_admitted (h : phase.admitted = some p) : phase.handled = some p := by
  cases phase with
  | ready | seeding | streaming | leaving => exact h
  | _ => exact absurd h (by simp [Phase.admitted])

theorem Phase.admitted_of_streamed (h : phase.streamed = some p) : phase.admitted = some p := by
  cases phase with
  | seeding | streaming | leaving => exact h
  | _ => exact absurd h (by simp [Phase.streamed])

end Admits

/-! ### A session that never had a seed -/

/-- What is assumed of a step: `refresh_ttl` is left to the stream handlers, and the random source
gives no UUID a second time. -/
structure Proper (s : State) (l : Label) : Prop where
  indirect : ∀ c id, l ≠ .call c (.refreshTtl id)
  fresh : ∀ c id ssrc p, l = .drawNumbers c (some id) ssrc p →
    ∀ q sess, s.sessions q = some sess → sess.id ≠ id

/-- What the assumptions give: the id of a session is its own. -/
structure ProperInv (s : State) : Prop where
  slot : SlotInv s
  ids : ∀ p q sess sess', s.sessions p = some sess → s.sessions q = some sess' →
    sess.id = sess'.id → p = q
  unasked : ∀ c, ¬ (s.calls c).phase.Asks

section Unseeded

variable {cfg : Config} {s s₀ s₁ t : State} {l : Label} {p : ℕ} {sess sess' : Session}

theorem Effect.sameSessions (h : Effect s t) : SameSessions s t :=
  h.answerMove.1

theorem step_id (hfilled : SlotFilled s) (h : step cfg s l = some t)
    (hsess' : t.sessions p = some sess') :
    Creates cfg s t l p ∨ ∃ sess, s.sessions p = some sess ∧ sess'.id = sess.id := by
  rcases step_deadline h hsess' with hcreates | ⟨sess, hsess, -⟩
  · exact Or.inl hcreates
  · obtain ⟨sess'', hsess'', hid, -⟩ := (step_effect hfilled h).sameSessions p sess hsess
    rw [hsess', Option.some.injEq] at hsess''
    rw [hsess'']
    exact Or.inr ⟨sess, hsess, hid⟩

/-- A new id is not that of another session. -/
theorem Creates.id_ne (h : Creates cfg s t l p) (hproper : Proper s l)
    (hsess' : t.sessions p = some sess') {q : ℕ} (hsess : s.sessions q = some sess) :
    sess.id ≠ sess'.id := by
  obtain ⟨c, outdoor, id, ssrc, hl, -, -, hnew⟩ := h
  rw [hsess', Option.some.injEq] at hnew
  rw [hnew]
  exact hproper.fresh c id (some ssrc) p hl q sess hsess

theorem ProperInv.step (h : ProperInv s) (hproper : Proper s l)
    (hstep : Manager.step cfg s l = some t) : ProperInv t := by
  refine ⟨(step_effect h.slot.filled hstep).slotInv h.slot, ?_, ?_⟩
  · intro p q sess sess' hsess hsess' hid
    rcases step_id h.slot.filled hstep hsess with hp | ⟨old, hold, holdId⟩
    · rcases step_id h.slot.filled hstep hsess' with hq | ⟨old', hold', holdId'⟩
      · obtain ⟨c, outdoor, id, ssrc, hl, -⟩ := hp
        obtain ⟨c', outdoor', id', ssrc', hl', -⟩ := hq
        rw [hl, Label.drawNumbers.injEq] at hl'
        exact hl'.2.2.2
      · exact absurd (holdId'.symm.trans hid.symm) (hp.id_ne hproper hsess hold')
    · rcases step_id h.slot.filled hstep hsess' with hq | ⟨old', hold', holdId'⟩
      · exact absurd (holdId.symm.trans hid) (hq.id_ne hproper hsess' hold)
      · exact h.ids p q old old' hold hold' (holdId.symm.trans (hid.trans holdId'))
  · intro c hasks
    rcases (step_admits hstep c).asks hasks with hold | ⟨id, hl⟩
    · exact h.unasked c hold
    · exact hproper.indirect c id hl

theorem properInv_init : ProperInv .init := by
  refine ⟨slotInv_init, ?_, fun c ↦ id⟩
  intro p q sess sess' hsess
  exact absurd hsess (by simp [State.init])

/-- What carries the deadline of `p` over a run: no handler has been let through to it. -/
structure Unpinned (p deadline : ℕ) (s : State) : Prop where
  proper : ProperInv s
  deadline : ∃ sess, s.sessions p = some sess ∧ sess.ttlDeadline = deadline
  unadmitted : ∀ c, (s.calls c).phase.admitted ≠ some p

/-- Whoever could refresh the TTL has a seed, or was let through, or asks from outside. -/
theorem Refreshes.cases (h : Refreshes s l p) (hinv : ProperInv s) :
    Seeded s p ∨ ∃ c, (s.calls c).phase.admitted = some p := by
  obtain ⟨sess, hfound, hlabel⟩ := h
  obtain ⟨-, hsess⟩ := State.currentSession_eq_some.mp hfound
  cases l with
  | enter c =>
    rcases hlabel with hphase | ⟨outdoor, -, -, hseed⟩
    · refine absurd ?_ (hinv.unasked c)
      rw [hphase]
      trivial
    · exact Or.inl ⟨sess, hsess, hseed⟩
  | beginStream c peek =>
    obtain ⟨q, sessq, hphase, hsessq, hid⟩ := hlabel
    obtain rfl := hinv.ids q p sessq sess hsessq hsess hid
    refine Or.inr ⟨c, ?_⟩
    rw [hphase]
    rfl
  | refreshLoop c =>
    obtain ⟨q, sessq, hstreamed, hsessq, hid⟩ := hlabel
    obtain rfl := hinv.ids q p sessq sess hsessq hsess hid
    exact Or.inr ⟨c, Phase.admitted_of_streamed hstreamed⟩
  | _ => exact hlabel.elim

theorem Unpinned.step {deadline : ℕ} (h : Unpinned p deadline s)
    (hcond : Proper s l ∧ ¬ Seeded s p) (hstep : Manager.step cfg s l = some t) :
    Unpinned p deadline t := by
  obtain ⟨hproper, hunseeded⟩ := hcond
  refine ⟨h.proper.step hproper hstep, ?_, ?_⟩
  · obtain ⟨sess, hsess, hdeadline⟩ := h.deadline
    obtain ⟨sess', hsess', -⟩ :=
      (step_effect h.proper.slot.filled hstep).sameSessions p sess hsess
    refine ⟨sess', hsess', ?_⟩
    rcases step_deadline hstep hsess' with ⟨c, outdoor, id, ssrc, -, hnone, -⟩ | ⟨old, hold, hkept⟩
    · rw [hsess] at hnone
      exact absurd hnone (by simp)
    · rw [hsess, Option.some.injEq] at hold
      rw [← hdeadline, hold]
      refine hkept.resolve_right fun hrefreshes ↦ ?_
      rcases hrefreshes.cases h.proper with hseeded | ⟨c, hadmitted⟩
      · exact hunseeded hseeded
      · exact h.unadmitted c hadmitted
  · intro c hadmitted
    rcases (step_admits hstep c).admitted p hadmitted with hold | hseeded
    · exact h.unadmitted c hold
    · exact hunseeded hseeded

/-- A new session has not been handed to a handler. -/
theorem Creates.unpinned (hreach : Reachable (Manager.step cfg) .init s₀) (hinv : ProperInv s₀)
    (hproper : Proper s₀ l) (hstep : Manager.step cfg s₀ l = some s₁)
    (hcreates : Creates cfg s₀ s₁ l p) : Unpinned p (s₀.now + cfg.ttlValue) s₁ := by
  obtain ⟨c, outdoor, id, ssrc, -, hnone, -, hnew⟩ := hcreates
  refine ⟨hinv.step hproper hstep, ⟨_, hnew, rfl⟩, ?_⟩
  have habsent : ∀ sess, s₀.sessions p ≠ some sess := by simp [hnone]
  intro k hadmitted
  rcases (step_admits hstep k).admitted p hadmitted with hold | ⟨sess, hsess, -⟩
  · have hhandled := Phase.handled_of_admitted hold
    obtain ⟨hcommitted, -⟩ := (reachable_consumerInv hreach).handled k p hhandled
    obtain ⟨sess, hsess⟩ := hinv.slot.created p hcommitted
    exact habsent sess hsess
  · exact habsent sess hsess

/-- The monitor of the session `p` has decided to end it for its TTL, and what it does next is to
spawn the clean-up. -/
def Expires (cfg : Config) (s : State) (p : ℕ) : Prop :=
  (∃ sess, s.sessions p = some sess ∧ sess.monitor.phase = .spawning .ttlExpired) ∧
    ∀ c, (s.calls c).phase = .idle → ∃ t, step cfg s (.spawnCleanup p c) = some t ∧
      (t.calls c).phase = .calling (.stopInternal p .ttlExpired)

/-- A tick behind the deadline, with no expiry before it, decides to end the session. -/
theorem step_tick_expired {now : ℕ} (cfg : Config) (hsess : s.sessions p = some sess)
    (hphase : sess.monitor.phase = .ticking now) (hfired : sess.monitor.fired = false)
    (hexpired : sess.ttlDeadline < now) :
    ∃ t, step cfg s (.tick p) = some t ∧ Expires cfg t p := by
  have hstep : step cfg s (.tick p) = some (tick cfg s p sess now) := by
    simp only [step, Label.mover, hsess, Option.bind_some, stepSession, hphase]
  have hnew : (tick cfg s p sess now).sessions p =
      some { sess with monitor := tickMonitor cfg sess now } := Function.update_self _ _ _
  have hspawning : (tickMonitor cfg sess now).phase = .spawning .ttlExpired := by
    simp [tickMonitor, hfired, hexpired]
  refine ⟨_, hstep, ⟨_, hnew, hspawning⟩, fun c hidle ↦ ?_⟩
  exact ⟨_, step_spawnCleanup cfg hnew hspawning hidle, by simp [spawnCleanup]⟩

/-- The run that creates the session `p` goes on from there in any way. As long as the buffer of
the session has no complete seed, its deadline is the one it was created with, and a tick of its
monitor later than that, with no expiry fired before, decides to end it, after which the clean-up is
spawned. -/
theorem unseeded_expires {before after : List Label}
    (hbefore : exec (step cfg) .init before = some s₀)
    (hproper : Along (step cfg) Proper .init before)
    (hstep : step cfg s₀ l = some s₁) (hl : Proper s₀ l) (hcreates : Creates cfg s₀ s₁ l p)
    (hafter : exec (step cfg) s₁ after = some s)
    (hunseeded : Along (step cfg) (fun u l ↦ Proper u l ∧ ¬ Seeded u p) s₁ after) :
    ∃ sess, s.sessions p = some sess ∧ sess.ttlDeadline = s₀.now + cfg.ttlValue ∧
      ∀ now, sess.monitor.phase = .ticking now → s₀.now + cfg.ttlValue < now →
        sess.monitor.fired = false → ∃ t, step cfg s (.tick p) = some t ∧ Expires cfg t p := by
  have hinv : ProperInv s₀ := hproper.invariant ProperInv.step properInv_init hbefore
  have hstart := hcreates.unpinned ⟨before, hbefore⟩ hinv hl hstep
  obtain ⟨sess, hsess, hdeadline⟩ :=
    (hunseeded.invariant Unpinned.step hstart hafter).deadline
  refine ⟨sess, hsess, hdeadline, ?_⟩
  intro now hphase hexpired hfired
  rw [← hdeadline] at hexpired
  exact step_tick_expired cfg hsess hphase hfired hexpired

/-- The station acknowledges, but only an SPS ever comes. Clients ask for the stream and start again
until the TTL has run off. -/
def neverStreams : List Label :=
  [.commit 0, .call 1 (.stream (ascii "a")), .enter 1, .push 0 (unit NAL_TYPE_SPS), .send 0,
    .elapse 30000, .waitIdr 1, .call 2 (.start gate), .enter 2, .elapse 30001, .look 0]

/-- The first four moves of a `start`, up to its acknowledged 704. -/
def acknowledged : List Label :=
  [.call 0 (.start gate), .enter 0, .bindUdp 0 true, .startPreview 0 true]

theorem unseeded_expires_neverStreams :
    ∃ s, Reachable (step defaultConfig) .init s ∧ s.current = some 0 ∧ s.now = 60001 ∧
      ∃ t, step defaultConfig s (.tick 0) = some t ∧ Expires defaultConfig t 0 := by
  have hstart : ((exec (step defaultConfig) .init acknowledged).map fun s ↦
      ((s.calls 0).phase, s.now)) = some (.starting gate .drawing, 0) := by
    decide
  have hend : ((exec (step defaultConfig) .init (acknowledged ++
      .drawNumbers 0 (some (ascii "a")) (some 7) 0 :: neverStreams)).map fun s ↦
        (s.current, s.now,
          (s.sessions 0).map fun sess ↦ (sess.monitor.phase, sess.monitor.fired))) =
      some (some 0, 60001, some (.ticking 60001, false)) := by
    decide
  obtain ⟨s₀, hs₀, hview₀⟩ := Option.map_eq_some_iff.mp hstart
  obtain ⟨s, hs, hview⟩ := Option.map_eq_some_iff.mp hend
  simp only [Prod.mk.injEq, Option.map_eq_some_iff] at hview₀ hview
  obtain ⟨hphase, hnow₀⟩ := hview₀
  obtain ⟨hcurrent, hnow, sess, hsess, hticking, hfired⟩ := hview
  have hempty : ∀ q, s₀.sessions q = none := by
    intro q
    have hnone : ((exec (step defaultConfig) .init acknowledged).map fun s ↦ s.sessions q) =
        some none := rfl
    rwa [hs₀, Option.map_some, Option.some.injEq] at hnone
  rw [exec_append, hs₀, Option.bind_some] at hs
  obtain ⟨s₁, hstep, hafter⟩ := exec_cons_eq_some.mp hs
  have hcreates : Creates defaultConfig s₀ s₁ (.drawNumbers 0 (some (ascii "a")) (some 7) 0) 0 := by
    refine ⟨0, gate, ascii "a", 7, rfl, hempty 0, hphase, ?_⟩
    simp only [step, Label.mover, stepCall, hphase, if_pos (hempty 0), Option.some.injEq] at hstep
    rw [← hstep]
    simp [drawNumbers]
  have hfirst : Proper s₀ (.drawNumbers 0 (some (ascii "a")) (some 7) 0) := by
    refine ⟨by simp, ?_⟩
    intro c id ssrc p _ q sess hsess
    rw [hempty] at hsess
    exact absurd hsess (by simp)
  -- No other move draws a UUID or asks for a refresh.
  have hothers : ∀ l ∈ acknowledged ++ neverStreams, ∀ u : State, Proper u l := by
    intro l hl u
    simp only [acknowledged, neverStreams, List.cons_append, List.nil_append, List.mem_cons,
      List.not_mem_nil, or_false] at hl
    rcases hl with rfl | rfl | rfl | rfl | rfl | rfl | rfl | rfl | rfl | rfl | rfl | rfl | rfl |
      rfl | rfl <;> exact ⟨by simp, by simp⟩
  have hunseeded : Along (step defaultConfig) (fun u _ ↦ ¬ Seeded u 0) .init
      (acknowledged ++ .drawNumbers 0 (some (ascii "a")) (some 7) 0 :: neverStreams) := by
    decide
  have hproper : Along (step defaultConfig) Proper s₁ neverStreams :=
    along_of_labels fun l hl u ↦ hothers l (List.mem_append_right _ hl) u
  obtain ⟨sess', hsess', -, hexpires⟩ := unseeded_expires hs₀
    (along_of_labels fun l hl u ↦ hothers l (List.mem_append_left _ hl) u) hstep hfirst hcreates
    hafter (hproper.and ((hunseeded.of_append hs₀).2 s₁ hstep))
  rw [hsess, Option.some.injEq] at hsess'
  subst hsess'
  refine ⟨s, ?_, hcurrent, hnow, hexpires 60001 hticking ?_ hfired⟩
  · exact ⟨acknowledged ++ .drawNumbers 0 (some (ascii "a")) (some 7) 0 :: neverStreams, by
      rw [exec_append, hs₀, Option.bind_some]; exact hs⟩
  · rw [hnow₀]
    decide

end Unseeded

end DoorAccess.Video.Manager
