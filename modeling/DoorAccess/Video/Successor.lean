import DoorAccess.Video.Sessions

/-!
# A teardown and the next start

`teardown` sends its 708 with the slot free, so nothing in the manager orders it against the 704 of
the next `start`. The order comes from the RTP socket. A `start` binds it before its 704; the
receiver of a session keeps it until the stop flag is set, and `teardown` sets that flag behind its
708. With one socket for the address (`Exclusive`), a `start` that is past its bind finds every
session stopped (`BoundInv`), so the 708 of each of them has been sent or left out, and it is not
sent again.
-/

set_option autoImplicit false
set_option relaxedAutoImplicit false

namespace DoorAccess.Video.Manager

open Codec Transition

/-- What is assumed of the system and of the receivers: the listen address is bound once, and a
receiver keeps its socket until the stop flag of its session is set. So a bind succeeds only when
every session has its flag set. -/
def Exclusive (s : State) (l : Label) : Prop :=
  ∀ c, l = .bindUdp c true → ∀ p sess, s.sessions p = some sess → sess.stop = true

/-! ### The phases of a start -/

/-- The socket is bound. -/
def StartPhase.Bound : StartPhase → Prop
  | .binding => False
  | _ => True

/-- What a move of a `start` makes of its phase. -/
inductive StartMove (c : ℕ) (outdoor : Outdoor) : StartPhase → Label → Phase → Prop
  | binds : StartMove c outdoor .binding (.bindUdp c true) (.starting outdoor .previewing)
  | previews : StartMove c outdoor .previewing (.startPreview c true) (.starting outdoor .drawing)
  | rollsBack (uuid : Option Str) (ssrc : Option UInt32) (p : ℕ) (missing : Drawn)
      (hmissing : uuid = none ∨ ssrc = none) :
      StartMove c outdoor .drawing (.drawNumbers c uuid ssrc p)
        (.starting outdoor (.rollingBack missing))
  | spawns (uuid : Option Str) (ssrc : Option UInt32) (p : ℕ) :
      StartMove c outdoor .drawing (.drawNumbers c uuid ssrc p) (.starting outdoor (.spawned p))
  /-- Only the last phase ends in a session. -/
  | returns (phase : StartPhase) (l : Label) (reply : Reply)
      (hstarted : ∀ info, reply = .started info → ∃ p, phase = .spawned p) :
      StartMove c outdoor phase l (.returned reply)

section Start

variable {cfg : Config} {s t : State} {l : Label} {c p : ℕ} {outdoor : Outdoor}
  {phase phase' : StartPhase} {sess : Session}

theorem reply_phase (s : State) (c : ℕ) (r : Reply) :
    ((s.reply c r).calls c).phase = .returned r := by
  simp [State.reply]

theorem setPhase_phase (s : State) (c : ℕ) (phase : Phase) :
    ((s.setPhase c phase).calls c).phase = phase := by
  simp

theorem stepCall_start (hmover : l.mover = .call c)
    (hphase : (s.calls c).phase = .starting outdoor phase) (h : stepCall cfg s c l = some t) :
    StartMove c outdoor phase l (t.calls c).phase := by
  cases phase with
  | binding =>
    cases l with
    | bindUdp k ok =>
      obtain rfl : k = c := Mover.call.inj hmover
      simp only [stepCall, hphase, Option.some.injEq, bindUdp] at h
      subst h
      split_ifs with hok
      · subst hok
        rw [setPhase_phase]
        exact .binds
      · rw [startFails, reply_phase]
        exact .returns _ _ _ (by simp)
    | _ => exact absurd h (by simp [stepCall, hphase])
  | previewing =>
    cases l with
    | startPreview k ok =>
      obtain rfl : k = c := Mover.call.inj hmover
      simp only [stepCall, hphase, Option.some.injEq, startPreview] at h
      subst h
      split_ifs with hok
      · subst hok
        rw [setPhase_phase]
        exact .previews
      · rw [startFails, reply_phase]
        exact .returns _ _ _ (by simp)
    | _ => exact absurd h (by simp [stepCall, hphase])
  | drawing =>
    cases l with
    | drawNumbers k uuid ssrc p =>
      obtain rfl : k = c := Mover.call.inj hmover
      simp only [stepCall, hphase] at h
      split_ifs at h
      obtain rfl := Option.some.inj h
      unfold drawNumbers
      split
      · rw [setPhase_phase]
        exact .rollsBack _ _ _ _ (Or.inl rfl)
      · rw [setPhase_phase]
        exact .rollsBack _ _ _ _ (Or.inr rfl)
      · rw [setPhase_phase]
        exact .spawns _ _ _
    | _ => exact absurd h (by simp [stepCall, hphase])
  | rollingBack missing =>
    cases l with
    | rollback k =>
      simp only [stepCall, hphase, Option.some.injEq] at h
      subst h
      rw [startFails, reply_phase]
      exact .returns _ _ _ (by simp)
    | _ => exact absurd h (by simp [stepCall, hphase])
  | spawned p =>
    cases l with
    | commit k =>
      simp only [stepCall, hphase, Option.map_eq_some_iff] at h
      obtain ⟨sess, -, rfl⟩ := h
      rw [commit, reply_phase]
      exact .returns _ _ _ (by simp)
    | _ => exact absurd h (by simp [stepCall, hphase])

/-- The move of a call. -/
theorem stepCall_of_mover (h : step cfg s l = some t) (hmover : l.mover = .call c) :
    stepCall cfg s c l = some t := by
  unfold step at h
  rw [hmover] at h
  exact h

/-- A `start` stays where it is or makes its move. -/
theorem step_start (h : step cfg s l = some t)
    (hphase : (s.calls c).phase = .starting outdoor phase) :
    (t.calls c).phase = .starting outdoor phase ∧ l.mover ≠ .call c ∨
      StartMove c outdoor phase l (t.calls c).phase := by
  by_cases hmover : l.mover = .call c
  · exact Or.inr (stepCall_start hmover hphase (stepCall_of_mover h hmover))
  · refine Or.inl ⟨?_, hmover⟩
    rw [step_others h hmover (by rw [hphase]; simp), hphase]

/-- The 704 of a `start`. -/
theorem step_startPreview {ok : Bool} (h : step cfg s (.startPreview c ok) = some t) :
    ∃ outdoor, (s.calls c).phase = .starting outdoor .previewing ∧
      ∃ events, t.trace = s.trace ++ .startPreview c outdoor ok :: events ∧
        ∀ e ∈ events, ∀ k p st, e ≠ .tore k p st := by
  cases step_move h with
  | startPreview c outdoor ok hphase =>
    refine ⟨outdoor, hphase, ?_⟩
    unfold startPreview
    split_ifs
    · exact ⟨[], rfl, by simp⟩
    · refine ⟨[.dropSocket c, .returned c (.failed .preview)], ?_, by simp⟩
      simp [startFails, State.reply, State.log, State.setPhase]

end Start

/-! ### Every session is stopped behind a bind -/

/-- What a bound socket says about the sessions: all but the one that the `start` has just created
have their flag set, and a flag is set by a teardown. -/
structure BoundInv (s : State) : Prop where
  slot : SlotInv s
  flagged : ∀ p sess, s.sessions p = some sess → sess.stop = true →
    ∃ c, .tore c p .stopFlag ∈ s.trace
  bound : ∀ c outdoor phase, (s.calls c).phase = .starting outdoor phase → phase.Bound →
    ∀ p sess, s.sessions p = some sess → phase ≠ .spawned p → sess.stop = true

section Bound

variable {cfg : Config} {s t u : State} {l : Label} {c p : ℕ} {outdoor : Outdoor}
  {phase : StartPhase} {sess sess' : Session}

theorem boundInv_init : BoundInv .init := by
  refine ⟨slotInv_init, ?_, ?_⟩
  · intro p sess hsess
    exact absurd hsess (by simp [State.init])
  · intro c outdoor phase hphase
    exact absurd hphase (by simp [State.init])

/-- A stop flag stays set. -/
theorem SessionMove.stop (h : SessionMove cfg s t l p sess sess') (hstop : sess.stop = true) :
    sess'.stop = true := by
  cases h with
  | stopped => rfl
  | _ => exact hstop

theorem BoundInv.flagged_step (h : BoundInv s) (hstep : step cfg s l = some t) (p : ℕ)
    (sess' : Session) (hsess' : t.sessions p = some sess') (hstop : sess'.stop = true) :
    ∃ c, .tore c p .stopFlag ∈ t.trace := by
  have hold : ∀ sess, s.sessions p = some sess → sess.stop = true →
      ∃ c, .tore c p .stopFlag ∈ t.trace := by
    intro sess hsess hset
    obtain ⟨c, hc⟩ := h.flagged p sess hsess hset
    exact ⟨c, (step_streamEffect hstep).mem_trace hc⟩
  rcases step_session hstep p sess' hsess' with
    ⟨c, outdoor, id, ssrc, -, -, -, hnew⟩ | ⟨sess, hsess, hmove⟩
  · rw [hsess', Option.some.injEq] at hnew
    rw [hnew] at hstop
    exact absurd hstop (by simp [newSession])
  · cases hmove with
    | stopped c htore => exact ⟨c, htore⟩
    | same | refreshed | packet | buffer | monitor => exact hold _ hsess hstop

/-- A new session belongs to the `start` that is under way. -/
theorem Creates.starter (hslot : SlotInv s) (h : Creates cfg s t l p)
    (hphase : (s.calls c).phase = .starting outdoor phase) :
    phase = .drawing ∧ ∃ id ssrc, l = .drawNumbers c (some id) (some ssrc) p := by
  obtain ⟨k, outdoor', id, ssrc, hl, -, hdrawing, -⟩ := h
  obtain rfl := hslot.starting_unique hphase hdrawing
  rw [hphase, Phase.starting.injEq] at hdrawing
  exact ⟨hdrawing.2, id, ssrc, hl⟩

theorem BoundInv.bound_step (h : BoundInv s) (hexclusive : Exclusive s l)
    (hstep : step cfg s l = some t) (hphase' : (t.calls c).phase = .starting outdoor phase)
    (hbound : phase.Bound) (hsess' : t.sessions p = some sess') (hother : phase ≠ .spawned p) :
    sess'.stop = true := by
  -- A session that was stopped before the step still is.
  have hkept : ∀ before, (s.calls c).phase = .starting outdoor before → before.Bound →
      before ≠ .spawned p → ¬ Creates cfg s t l p → sess'.stop = true := by
    intro before hphase hbefore hnot hnone
    rcases step_session hstep p sess' hsess' with hcreates | ⟨sess, hsess, hmove⟩
    · exact absurd hcreates hnone
    · exact hmove.stop (h.bound c outdoor before hphase hbefore p sess hsess hnot)
  rcases (step_effect h.slot.filled hstep).starting_cases hphase' with ⟨_, before, hphase⟩ | hfirst
  · rcases step_start hstep hphase with ⟨hsame, hmover⟩ | hmove
    · rw [hphase', Phase.starting.injEq] at hsame
      obtain ⟨rfl, rfl⟩ := hsame
      refine hkept phase hphase hbound hother ?_
      intro hcreates
      obtain ⟨-, id, ssrc, rfl⟩ := hcreates.starter h.slot hphase
      exact hmover rfl
    · rw [hphase'] at hmove
      cases hmove with
      | binds =>
        rcases step_session hstep p sess' hsess' with hcreates | ⟨sess, hsess, hmove⟩
        · exact absurd (hcreates.starter h.slot hphase).1 (by simp)
        · exact hmove.stop (hexclusive c rfl p sess hsess)
      | previews =>
        refine hkept .previewing hphase trivial (by simp) ?_
        intro hcreates
        exact absurd (hcreates.starter h.slot hphase).1 (by simp)
      | rollsBack uuid ssrc q missing hmissing =>
        refine hkept .drawing hphase trivial (by simp) ?_
        intro hcreates
        obtain ⟨-, id, number, hl⟩ := hcreates.starter h.slot hphase
        obtain ⟨-, rfl, rfl, -⟩ := Label.drawNumbers.inj hl
        simp at hmissing
      | spawns uuid ssrc q =>
        refine hkept .drawing hphase trivial (by simp) ?_
        intro hcreates
        obtain ⟨-, id, number, hl⟩ := hcreates.starter h.slot hphase
        obtain ⟨-, -, -, rfl⟩ := Label.drawNumbers.inj hl
        exact hother rfl
  · rw [hfirst] at hbound
    exact hbound.elim

theorem BoundInv.step (h : BoundInv s) (hexclusive : Exclusive s l)
    (hstep : Manager.step cfg s l = some t) : BoundInv t where
  slot := (step_effect h.slot.filled hstep).slotInv h.slot
  flagged := h.flagged_step hstep
  bound := fun _ _ _ hphase hbound _ _ hsess hother ↦
    h.bound_step hexclusive hstep hphase hbound hsess hother

end Bound

/-! ### The start of a session is over before the next one -/

/-- The `start` is behind its 704: it draws its numbers, or it has returned. -/
def PastPreview (c : ℕ) (s : State) : Prop :=
  (∃ outdoor phase, (s.calls c).phase = .starting outdoor phase ∧ phase.Past) ∨
    ∃ reply, (s.calls c).phase = .returned reply

section Order

variable {cfg : Config} {s t u : State} {l : Label} {c p : ℕ} {outdoor : Outdoor}
  {labels : List Label}

theorem StartMove.past {phase : StartPhase} {after : Phase}
    (h : StartMove c outdoor phase l after) (hphase : phase.Past ∨ phase = .previewing) :
    (∃ outdoor phase, after = .starting outdoor phase ∧ phase.Past) ∨
      ∃ reply, after = .returned reply := by
  cases h with
  | binds =>
    rcases hphase with hpast | hpreviewing
    · exact hpast.elim
    · exact absurd hpreviewing (by simp)
  | previews => exact Or.inl ⟨outdoor, .drawing, rfl, trivial⟩
  | rollsBack _ _ _ missing => exact Or.inl ⟨outdoor, .rollingBack missing, rfl, trivial⟩
  | spawns _ _ p => exact Or.inl ⟨outdoor, .spawned p, rfl, trivial⟩
  | returns _ _ reply => exact Or.inr ⟨reply, rfl⟩

/-- A call that has returned stays so. -/
theorem step_returned {reply : Reply} (h : step cfg s l = some t)
    (hphase : (s.calls c).phase = .returned reply) : (t.calls c).phase = .returned reply := by
  by_cases hmover : l.mover = .call c
  · have hcall := stepCall_of_mover h hmover
    unfold stepCall at hcall
    rw [hphase] at hcall
    exact absurd hcall (by simp)
  · rw [step_others h hmover (by rw [hphase]; simp), hphase]

theorem PastPreview.step (h : PastPreview c s) (hstep : Manager.step cfg s l = some t) :
    PastPreview c t := by
  rcases h with ⟨outdoor, phase, hphase, hpast⟩ | ⟨reply, hphase⟩
  · rcases step_start hstep hphase with ⟨hsame, -⟩ | hmove
    · exact Or.inl ⟨outdoor, phase, hsame, hpast⟩
    · exact hmove.past (Or.inl hpast)
  · exact Or.inr ⟨reply, step_returned hstep hphase⟩

/-- Only a `start` that is under way puts a session into the slot. -/
theorem Effect.committed_mem (h : Effect s t) (hmem : .committed c p ∈ t.trace) :
    .committed c p ∈ s.trace ∨ ∃ outdoor, (s.calls c).phase = .starting outdoor (.spawned p) := by
  have hquiet : ∀ evs : List Event, (∀ e ∈ evs, e.Quiet) → t.trace = s.trace ++ evs →
      .committed c p ∈ s.trace := by
    intro evs hevs htrace
    rw [htrace] at hmem
    rcases List.mem_append.mp hmem with hold | hnew
    · exact hold
    · exact (hevs _ hnew).elim
  cases h with
  | quiet evs _ _ _ htrace hevs => exact Or.inl (hquiet evs hevs htrace)
  | claimed _ _ _ _ _ _ _ _ _ _ htrace =>
    rw [htrace] at hmem
    exact Or.inl (by simpa using hmem)
  | advanced _ _ _ _ evs _ _ _ _ _ _ _ htrace hevs =>
    exact Or.inl (hquiet evs (fun e he ↦ (hevs e he).1) htrace)
  | failed k _ _ error evs _ _ _ _ _ _ _ htrace hevs =>
    refine Or.inl (hquiet _ ?_ htrace)
    intro e he
    rcases List.mem_append.mp he with hfirst | hlast
    · exact (hevs e hfirst).1
    · rw [List.mem_singleton.mp hlast]
      trivial
  | committed k outdoor q _ _ _ _ hphase _ _ htrace =>
    rw [htrace] at hmem
    rcases List.mem_append.mp hmem with hold | hnew
    · exact Or.inl hold
    · simp only [List.mem_cons, Event.committed.injEq, reduceCtorEq, List.not_mem_nil, or_false]
        at hnew
      obtain ⟨rfl, rfl⟩ := hnew
      exact Or.inr ⟨outdoor, hphase⟩
  | removed _ _ _ _ _ _ _ _ _ _ _ _ _ _ _ htrace =>
    rw [htrace] at hmem
    exact Or.inl (by simpa using hmem)
  | tore _ _ _ _ _ _ _ _ _ _ _ _ _ _ htrace =>
    rw [htrace] at hmem
    exact Or.inl (by simpa using hmem)
  | closed _ _ _ _ evs _ _ _ _ hafter _ htrace =>
    rw [htrace] at hmem
    rcases hafter with ⟨-, rfl⟩ | ⟨-, rfl⟩
    · exact Or.inl (by simpa using hmem)
    · exact Or.inl (by simpa using hmem)

/-- A call that has returned puts no session into the slot any more. -/
theorem committed_of_returned {reply : Reply} (hslot : SlotInv s)
    (hphase : (s.calls c).phase = .returned reply)
    (hrun : exec (step cfg) s labels = some t) (hmem : .committed c p ∈ t.trace) :
    .committed c p ∈ s.trace := by
  induction labels generalizing s with
  | nil =>
    rw [exec_nil, Option.some.injEq] at hrun
    exact hrun ▸ hmem
  | cons l ls ih =>
    obtain ⟨u, hstep, hrest⟩ := exec_cons_eq_some.mp hrun
    have heffect := step_effect hslot.filled hstep
    have hlater := ih (heffect.slotInv hslot) (step_returned hstep hphase) hrest
    refine (heffect.committed_mem hlater).resolve_right ?_
    rintro ⟨outdoor, hstarting⟩
    rw [hphase] at hstarting
    exact absurd hstarting (by simp)

/-- A trace only grows. -/
theorem exec_trace (hrun : exec (step cfg) s labels = some t) :
    ∃ events, t.trace = s.trace ++ events := by
  refine exec_relation (fun s t : State ↦ ∃ events, t.trace = s.trace ++ events)
    (fun _ ↦ ⟨[], (List.append_nil _).symm⟩) ?_ ?_ hrun
  · rintro s t u ⟨first, hfirst⟩ ⟨second, hsecond⟩
    exact ⟨first ++ second, by rw [hsecond, hfirst, List.append_assoc]⟩
  · intro s t l hstep
    obtain ⟨events, hevents, -⟩ := (step_streamEffect hstep).trace
    exact ⟨events, hevents⟩

/-- Behind the stop flag a teardown sends no 708. -/
theorem SlotStatus.no_stopPreview {first second : List Event} {c k : ℕ} {sent : Bool}
    (h : SlotStatus s p) (htrace : s.trace = first ++ second)
    (hflag : .tore c p .stopFlag ∈ first) : .tore k p (.stopPreview sent) ∉ second := by
  intro hmem
  obtain ⟨sent', hprefix, -⟩ := h.tornBy_eq
  rw [htrace, tornBy_append, List.map_append] at hprefix
  have hfirst : .stopFlag ∈ (tornBy p first).map Prod.snd :=
    List.mem_map.mpr ⟨(c, .stopFlag), mem_tornBy.mpr hflag, rfl⟩
  have hsecond : .stopPreview sent ∈ (tornBy p second).map Prod.snd :=
    List.mem_map.mpr ⟨(k, .stopPreview sent), mem_tornBy.mpr hmem, rfl⟩
  generalize (tornBy p first).map Prod.snd = torn at hprefix hfirst
  generalize (tornBy p second).map Prod.snd = later at hprefix hsecond
  have hnodup : (torn ++ later).Nodup := by
    refine List.Nodup.sublist hprefix.sublist ?_
    simp [wholeTeardown]
  -- The 708 is the first action of all, so it is among those of `first`.
  have hhead : .stopPreview sent' ∈ torn := by
    cases torn with
    | nil => exact absurd hfirst List.not_mem_nil
    | cons st rest =>
      have heq : st = .stopPreview sent' := (List.cons_prefix_cons.mp hprefix).1
      rw [heq]
      exact List.mem_cons_self
  have hsame : sent = sent' := by
    have hwhole := hprefix.subset (List.mem_append_right torn hsecond)
    simpa [wholeTeardown] using hwhole
  rw [hsame] at hsecond
  exact List.disjoint_of_nodup_append hnodup hhead hsecond

end Order

/-! ### No 708 behind the next 704 -/

section Next

variable {cfg : Config} {s t s₀ s₁ s₂ s₃ : State} {c c₀ p : ℕ} {ok : Bool}
  {labels before middle after : List Label}

/-- A `start` whose 704 is acknowledged stays behind it. -/
theorem pastPreview_of_exec (hfirst : step cfg s (.startPreview c true) = some t)
    (hrun : exec (step cfg) t labels = some s₂) : PastPreview c s₂ := by
  obtain ⟨outdoor, hphase, -⟩ := step_startPreview hfirst
  have hpast : PastPreview c t := by
    rcases step_start hfirst hphase with ⟨-, hmover⟩ | hmove
    · exact absurd rfl hmover
    · exact hmove.past (Or.inr rfl)
  have hreach : Reachable (step cfg) t s₂ := ⟨labels, hrun⟩
  exact hreach.invariant hpast fun h hstep ↦ h.step hstep

/-- When the next `start` is at its 704, an earlier one has returned. -/
theorem PastPreview.returned {outdoor : Outdoor} (h : PastPreview c₀ s) (hslot : SlotInv s)
    (hphase : (s.calls c).phase = .starting outdoor .previewing) :
    ∃ reply, (s.calls c₀).phase = .returned reply := by
  rcases h with ⟨outdoor₀, phase, hphase₀, hpast⟩ | hreturned
  · obtain rfl := hslot.starting_unique hphase hphase₀
    rw [hphase, Phase.starting.injEq] at hphase₀
    rw [← hphase₀.2] at hpast
    exact hpast.elim
  · exact hreturned

/-- At the 704 of a `start` the stop flag of every earlier session has been set. -/
theorem BoundInv.stopFlag_mem {outdoor : Outdoor} (h : BoundInv s)
    (hphase : (s.calls c).phase = .starting outdoor .previewing)
    (hcommitted : .committed c₀ p ∈ s.trace) : ∃ k, .tore k p .stopFlag ∈ s.trace := by
  obtain ⟨sess, hsess⟩ := h.slot.created p ⟨c₀, hcommitted⟩
  have hstop : sess.stop = true :=
    h.bound c outdoor .previewing hphase trivial p sess hsess (by simp)
  exact h.flagged p sess hsess hstop

/-- The teardown of a session that was started earlier sends no 708 behind the 704 of a later
`start`: in the trace of a whole run, none of its 708s stands behind that 704. -/
theorem teardown_before_successor
    (hexclusive : Along (step cfg) Exclusive .init (before ++ .startPreview c₀ true :: middle))
    (hbefore : exec (step cfg) .init before = some s₀)
    (hfirst : step cfg s₀ (.startPreview c₀ true) = some s₁)
    (hmiddle : exec (step cfg) s₁ middle = some s₂)
    (hsecond : step cfg s₂ (.startPreview c ok) = some s₃)
    (hafter : exec (step cfg) s₃ after = some s) (hcommitted : .committed c₀ p ∈ s.trace) :
    ∃ outdoor events, s.trace = s₂.trace ++ .startPreview c outdoor ok :: events ∧
      ∀ k sent, .tore k p (.stopPreview sent) ∉ events := by
  have hrun₁ : exec (step cfg) s₀ (.startPreview c₀ true :: middle) = some s₂ :=
    exec_cons_eq_some.mpr ⟨s₁, hfirst, hmiddle⟩
  have hrun₂ : exec (step cfg) s₂ (.startPreview c ok :: after) = some s :=
    exec_cons_eq_some.mpr ⟨s₃, hsecond, hafter⟩
  have hrun : exec (step cfg) .init (before ++ .startPreview c₀ true :: middle) = some s₂ := by
    rw [exec_append, hbefore]
    exact hrun₁
  have hinv : BoundInv s₂ := hexclusive.invariant (fun h hcond hstep ↦ h.step hcond hstep)
    boundInv_init hrun
  obtain ⟨outdoor, hphase, first, htrace₃, -⟩ := step_startPreview hsecond
  obtain ⟨later, htrace⟩ := exec_trace hafter
  -- The earlier `start` has returned, so its session was in the slot before the later 704.
  obtain ⟨reply, hreturned⟩ := (pastPreview_of_exec hfirst hmiddle).returned hinv.slot hphase
  have hcommitted₂ : .committed c₀ p ∈ s₂.trace :=
    committed_of_returned hinv.slot hreturned hrun₂ hcommitted
  obtain ⟨k, hflag⟩ := hinv.stopFlag_mem hphase hcommitted₂
  have hreach : Reachable (step cfg) .init s := by
    refine ⟨before ++ .startPreview c₀ true :: middle ++ .startPreview c ok :: after, ?_⟩
    rw [exec_append, hrun]
    exact hrun₂
  have hwhole : s.trace = s₂.trace ++ .startPreview c outdoor ok :: (first ++ later) := by
    rw [htrace, htrace₃, List.append_assoc, List.cons_append]
  refine ⟨outdoor, first ++ later, hwhole, ?_⟩
  intro k' sent hmem
  have hstatus : SlotStatus s p := (reachable_slotInv hreach).status p
  exact hstatus.no_stopPreview hwhole hflag (List.mem_cons_of_mem _ hmem)

/-- The first `start` up to its bind. -/
def opening : List Label :=
  [.call 0 (.start gate), .enter 0]

/-- The first session is started and torn down as far as its stop flag; then the next `start` has
the slot. -/
def firstStops : List Label :=
  [.drawNumbers 0 (some (ascii "a")) (some 7) 0, .commit 0, .call 1 (.stop gate.uri), .enter 1,
    .teardown 1, .teardown 1, .teardown 1, .call 3 (.start gate), .enter 3]

/-- At the first bind there is no session, at the second one the only session is stopped. -/
theorem exclusive_firstStops : Along (step defaultConfig) Exclusive .init
    (opening ++ [.bindUdp 0 true] ++
      .startPreview 0 true :: (firstStops ++ [.bindUdp 3 true])) := by
  have hnone : ∀ q, ((exec (step defaultConfig) .init opening).map fun s ↦ s.sessions q) =
      some none := fun _ ↦ rfl
  have hlater : ∀ q, ((exec (step defaultConfig) .init
      (opening ++ .bindUdp 0 true :: .startPreview 0 true :: firstStops)).map fun s ↦
        s.sessions (q + 1)) = some none := fun _ ↦ rfl
  have hstopped : ((exec (step defaultConfig) .init
      (opening ++ .bindUdp 0 true :: .startPreview 0 true :: firstStops)).map fun s ↦
        (s.sessions 0).map fun sess ↦ sess.stop) = some (some true) := by
    decide
  have hquiet : ∀ l ∈ opening ++ .startPreview 0 true :: firstStops, ∀ s, Exclusive s l := by
    intro l hl s c hbind
    rw [hbind] at hl
    exact absurd hl (by simp [opening, firstStops])
  have hopening : Along (step defaultConfig) Exclusive .init (opening ++ [.bindUdp 0 true]) := by
    refine (along_of_labels fun l hl ↦ hquiet l (List.mem_append_left _ hl)).append ?_
    intro u hu
    refine ⟨?_, fun _ _ ↦ trivial⟩
    intro c _ p sess hsess
    have hp := hnone p
    rw [hu, Option.map_some, Option.some.injEq, hsess] at hp
    exact absurd hp (by simp)
  refine hopening.append ?_
  intro u hu
  rw [← List.cons_append]
  refine (along_of_labels fun l hl ↦ hquiet l (List.mem_append_right _ hl)).append ?_
  intro v hv
  have hrun : exec (step defaultConfig) .init
      (opening ++ .bindUdp 0 true :: .startPreview 0 true :: firstStops) = some v := by
    rw [List.append_cons, exec_append, hu]
    exact hv
  refine ⟨?_, fun _ _ ↦ trivial⟩
  intro c _ p sess hsess
  cases p with
  | zero =>
    rw [hrun, Option.map_some, Option.some.injEq, hsess, Option.map_some] at hstopped
    exact Option.some.inj hstopped
  | succ q =>
    have hq := hlater q
    rw [hrun, Option.map_some, Option.some.injEq, hsess] at hq
    exact absurd hq (by simp)

/-- The teardown of the first session goes on behind the 704 of the second, and it has sent its 708
by then. -/
theorem teardown_before_successor_firstStops :
    ∃ s₂ s : State, .tore 1 0 (.stopPreview true) ∈ s₂.trace ∧ .tore 1 0 .close ∈ s.trace ∧
      ∃ outdoor events, s.trace = s₂.trace ++ .startPreview 3 outdoor true :: events ∧
        ∀ k sent, .tore k 0 (.stopPreview sent) ∉ events := by
  have hrun : ((exec (step defaultConfig) .init (opening ++ [.bindUdp 0 true] ++
      .startPreview 0 true :: (firstStops ++ [.bindUdp 3 true]))).bind fun s₂ ↦
        (exec (step defaultConfig) s₂ [.startPreview 3 true, .teardown 1]).map fun s ↦
          (decide (Event.tore 1 0 (.stopPreview true) ∈ s₂.trace),
            decide (Event.tore 1 0 .close ∈ s.trace),
            decide (Event.committed 0 0 ∈ s.trace))) = some (true, true, true) := by
    decide
  obtain ⟨s₂, hs₂, hrest⟩ := Option.bind_eq_some_iff.mp hrun
  obtain ⟨s, hs, hview⟩ := Option.map_eq_some_iff.mp hrest
  simp only [Prod.mk.injEq, decide_eq_true_eq] at hview
  obtain ⟨hsent, hclose, hcommitted⟩ := hview
  rw [exec_append] at hs₂
  obtain ⟨s₀, hbefore, hlater⟩ := Option.bind_eq_some_iff.mp hs₂
  obtain ⟨s₁, hfirst, hmiddle⟩ := exec_cons_eq_some.mp hlater
  obtain ⟨s₃, hsecond, hafter⟩ := exec_cons_eq_some.mp hs
  exact ⟨s₂, s, hsent, hclose, teardown_before_successor exclusive_firstStops hbefore hfirst
    hmiddle hsecond hafter hcommitted⟩

end Next

end DoorAccess.Video.Manager
