import DoorAccess.Lib.Debts
import DoorAccess.Video.Logs
import DoorAccess.Video.Successor

/-!
# Which outdoors stream

An outdoor that has got a 704 streams until it gets a 708. The 704 comes from a `start` or from the
re-invite of a session, the 708 from the roll-back of a `start` or from the first action of a
teardown. `State.Streams` reads off the trace whether the last 704 of an outdoor is without a 708
behind it, and `InCharge` says who is to send it: the `start` that has had the 704 acknowledged, the
session in the slot, or the call that has taken a session out and has not yet come to its 708.

Somebody is in charge of every outdoor that streams as long as every step is `Punctual`
(`step_inCharge`): a teardown comes to its 708 before its deadline, behind which it leaves it out,
and a re-invite does not come behind the 708 of its own session.
-/

set_option autoImplicit false
set_option relaxedAutoImplicit false

namespace DoorAccess.Video.Manager

open Transition Debts

/-! ### 704 and 708 -/

/-- The event is a 704 to the outdoor: an acknowledged one of a `start`, or a re-invite. -/
def Event.Starts (s : State) (outdoor : Outdoor) : Event → Prop
  | .startPreview _ o ok => o = outdoor ∧ ok = true
  | .reinvited p => ∃ sess, s.sessions p = some sess ∧ sess.outdoor = outdoor
  | _ => False

/-- The event is a 708 to the outdoor. -/
def Event.Stops (s : State) (outdoor : Outdoor) : Event → Prop
  | .rollbackPreview _ o => o = outdoor
  | .tore _ p (.stopPreview true) => ∃ sess, s.sessions p = some sess ∧ sess.outdoor = outdoor
  | _ => False

/-- The outdoor has got a 704, and no 708 since. -/
def State.Streams (s : State) (outdoor : Outdoor) : Prop :=
  Owes (Event.Starts s outdoor) (Event.Stops s outdoor) s.trace

/-- Somebody is to send the outdoor a 708. -/
inductive InCharge (s : State) (outdoor : Outdoor) : Prop
  | start (c : ℕ) (phase : StartPhase) (hphase : (s.calls c).phase = .starting outdoor phase)
      (hpast : phase.Past)
  | current (p : ℕ) (sess : Session) (hcurrent : s.current = some p)
      (hsess : s.sessions p = some sess) (houtdoor : sess.outdoor = outdoor)
  | teardown (c p : ℕ) (reason : Reason) (deadline : ℕ) (sess : Session)
      (hphase : (s.calls c).phase = .tearing p reason deadline .stopPreview)
      (hsess : s.sessions p = some sess) (houtdoor : sess.outdoor = outdoor)

/-- A teardown comes to its 708 in time, and a re-invite is not sent behind the 708 of its
session. -/
structure Punctual (s : State) (l : Label) : Prop where
  teardown : ∀ c p reason deadline, l = .teardown c →
    (s.calls c).phase = .tearing p reason deadline .stopPreview → s.now < deadline
  reinvite : ∀ p, l = .reinvite p → tornBy p s.trace = []

section Outdoors

variable {cfg : Config} {s t : State} {l : Label} {c k p : ℕ} {outdoor : Outdoor} {sess : Session}
  {evs : List Event}

/-- A 708 stays one. -/
theorem Event.Stops.mono {e : Event} (h : e.Stops s outdoor) (hsessions : SameSessions s t) :
    e.Stops t outdoor := by
  cases e with
  | rollbackPreview => exact h
  | tore c p st =>
    cases st with
    | stopPreview sent =>
      cases sent with
      | true =>
        obtain ⟨sess, hsess, houtdoor⟩ := h
        obtain ⟨sess', hsess', -, hsame⟩ := hsessions p sess hsess
        exact ⟨sess', hsess', hsame.trans houtdoor⟩
      | false => exact h.elim
    | _ => exact h.elim
  | _ => exact h.elim

/-! ### Only a session that has been in the slot is re-invited -/

/-- A monitor is past its guard only for a session that has been in the slot, and so are the
re-invites. -/
structure InvitesInv (s : State) : Prop where
  inviting : ∀ p sess, s.sessions p = some sess → sess.monitor.phase = .inviting →
    Committed p s.trace
  invited : ∀ p, .reinvited p ∈ s.trace → Committed p s.trace

/-- Only the move of the monitor logs a re-invite. -/
theorem step_reinvited (h : step cfg s l = some t) (htrace : t.trace = s.trace ++ evs)
    (hmem : .reinvited p ∈ evs) : l = .reinvite p := by
  obtain ⟨evs', htrace', hlogs⟩ := step_logs h
  obtain rfl : evs' = evs := List.append_cancel_left (htrace'.symm.trans htrace)
  have hlog := hlogs _ hmem
  cases hmover : l.mover with
  | clock d =>
    rw [hmover] at hlog
    exact hlog.elim
  | call c =>
    rw [hmover] at hlog
    exact absurd hlog.1 (by simp [Event.author])
  | helper c =>
    rw [hmover] at hlog
    obtain ⟨q, heq⟩ := hlog
    exact absurd heq (by simp)
  | session q =>
    rw [hmover] at hlog
    obtain rfl := Event.reinvited.inj hlog
    have hsilent : t.trace = s.trace → l = .reinvite p := by
      intro hsame
      rw [hsame] at htrace
      rw [List.self_eq_append_right.mp htrace] at hmem
      exact absurd hmem List.not_mem_nil
    cases step_move h with
    | reinvite q sess =>
      obtain rfl := Mover.session.inj hmover
      rfl
    | packet | push | send | look | tick | spawnCleanup | registerCleanup | guardReinvite =>
      exact hsilent rfl
    | _ => exact absurd hmover (by simp [Label.mover])

theorem step_invitesInv (hslot : SlotInv s) (h : InvitesInv s) (hstep : step cfg s l = some t) :
    InvitesInv t := by
  obtain ⟨evs, htrace, -⟩ := step_logs hstep
  have hkept : ∀ p, Committed p s.trace → Committed p t.trace := by
    intro p hcommitted
    rw [htrace, committed_append]
    exact Or.inl hcommitted
  constructor
  · intro p sess' hsess' hinviting
    rcases (step_watch hstep).sessions p sess' hsess' with ⟨-, hwatching⟩ | ⟨sess, hsess, hwatched⟩
    · rw [hinviting] at hwatching
      exact absurd hwatching (by simp)
    · have hmove := hwatched.monitor
      rw [hinviting] at hmove
      cases hmove with
      | same _ hbefore => exact hkept p (h.inviting p sess hsess hbefore)
      | invites hcurrent =>
        cases hslot.status p with
        | current _ hcommitted => exact hkept p hcommitted
        | outside hnot => exact absurd hcurrent hnot
        | tearing _ _ _ _ _ hnot => exact absurd hcurrent hnot
        | torn _ _ hnot => exact absurd hcurrent hnot
      | rests _ hafter => exact hafter.elim
  · intro p hmem
    rw [htrace] at hmem
    rcases List.mem_append.mp hmem with hold | hnew
    · exact hkept p (h.invited p hold)
    · obtain rfl := step_reinvited hstep htrace hnew
      cases step_move hstep with
      | reinvite p sess hsess hmonitor => exact hkept p (h.inviting p sess hsess hmonitor)

theorem reachable_invitesInv (hreach : Reachable (step cfg) .init s) : InvitesInv s := by
  refine hreach.invariant_of ?_ fun hreach hinv hstep ↦
    step_invitesInv (reachable_slotInv hreach) hinv hstep
  refine ⟨fun p sess hsess ↦ absurd hsess (by simp [State.init]), fun p hmem ↦ ?_⟩
  exact absurd hmem List.not_mem_nil

/-! ### Who is in charge of an outdoor -/

/-- A `start` behind its 704 goes on, rolls back or puts its session into the slot. -/
theorem Effect.inCharge_start {phase : StartPhase} (h : Effect s t) (hslot : SlotInv s)
    (htrace : t.trace = s.trace ++ evs) (hphase : (s.calls c).phase = .starting outdoor phase)
    (hpast : phase.Past) : InCharge t outdoor ∨ ∃ e ∈ evs, e.Stops t outdoor := by
  have hholder : s.holder = some c := (hslot.holder c).mpr ⟨outdoor, phase, hphase⟩
  have hempty : s.current = none := hslot.free (by simp [hholder])
  have hsame : (t.calls c).phase = (s.calls c).phase → InCharge t outdoor :=
    fun hkept ↦ .start c phase (hkept.trans hphase) hpast
  cases h with
  | quiet _ _ _ _ _ _ hcalls =>
    exact Or.inl (hsame (((hcalls c).phase_iff (Phase.busy_starting outdoor phase)).mpr hphase
      |>.trans hphase.symm))
  | claimed c' _ _ _ hnone => exact absurd (hholder.symm.trans hnone) (by simp)
  | advanced c' outdoor' phase₁ phase₂ _ _ _ _ hphase₁ hphase₂ _ _ _ _ hnext =>
    obtain rfl := hslot.starting_unique hphase hphase₁
    obtain ⟨rfl, rfl⟩ := Phase.starting.inj (hphase.symm.trans hphase₁)
    exact Or.inl (.start c' phase₂ hphase₂ (hnext hpast))
  | failed c' outdoor' phase₁ error evs' _ _ _ hphase₁ _ _ _ htrace' _ hrolled =>
    obtain rfl := hslot.starting_unique hphase hphase₁
    obtain ⟨rfl, rfl⟩ := Phase.starting.inj (hphase.symm.trans hphase₁)
    obtain rfl := List.append_cancel_left (htrace.symm.trans htrace')
    exact Or.inr ⟨_, List.mem_append_left _ (hrolled hpast), rfl⟩
  | committed c' outdoor' p info hcurrent _ hsessions hphase₁ =>
    obtain rfl := hslot.starting_unique hphase hphase₁
    obtain ⟨rfl, -⟩ := Phase.starting.inj (hphase.symm.trans hphase₁)
    obtain ⟨⟨sess, hsess, houtdoor⟩, -⟩ := hslot.spawned c' outdoor p hphase₁
    exact Or.inl (.current p sess hcurrent (hsessions ▸ hsess) houtdoor)
  | removed _ _ _ _ _ _ hcurrent => exact absurd (hempty.symm.trans hcurrent) (by simp)
  | tore c' _ _ _ _ _ _ _ _ _ hphase₁ _ _ hothers =>
    refine Or.inl (hsame (hothers c ?_))
    rintro rfl
    exact absurd (hphase.symm.trans hphase₁) (by simp)
  | closed c' _ _ _ _ _ _ _ hphase₁ _ hothers =>
    refine Or.inl (hsame (hothers c ?_))
    rintro rfl
    exact absurd (hphase.symm.trans hphase₁) (by simp)

/-- The session in the slot stays there, or a call takes it out and owes the 708. -/
theorem Effect.inCharge_current (h : Effect s t) (hslot : SlotInv s) (hcurrent : s.current = some p)
    (hsess : s.sessions p = some sess) (houtdoor : sess.outdoor = outdoor) :
    InCharge t outdoor := by
  have hkept : SameSessions s t → t.current = s.current → InCharge t outdoor := by
    intro hsessions hsame
    obtain ⟨sess', hsess', -, houtdoor'⟩ := hsessions p sess hsess
    exact .current p sess' (hsame.trans hcurrent) hsess' (houtdoor'.trans houtdoor)
  cases h with
  | quiet _ hsame _ hsessions => exact hkept hsessions hsame
  | claimed _ _ hnone => exact absurd (hnone.symm.trans hcurrent) (by simp)
  | advanced _ _ _ _ _ hsame _ hsessions => exact hkept hsessions hsame
  | failed _ _ _ _ _ hsame _ hsessions => exact hkept (sameSessions_of_eq hsessions) hsame
  | committed c outdoor' _ _ _ _ _ hphase =>
    have hholder : s.holder = some c := (hslot.holder c).mpr ⟨outdoor', _, hphase⟩
    exact absurd ((hslot.free (by simp [hholder])).symm.trans hcurrent) (by simp)
  | removed c op q sess' reason deadline hcurrent' _ _ _ _ hsessions _ hphase =>
    obtain rfl : q = p := Option.some.inj (hcurrent'.symm.trans hcurrent)
    exact .teardown c q reason deadline sess hphase (hsessions ▸ hsess) houtdoor
  | tore _ _ _ _ _ _ _ hsame _ hsessions => exact hkept hsessions hsame
  | closed _ _ _ _ _ hsame _ hsessions => exact hkept hsessions hsame

/-- A call that owes a 708 goes on owing it, or it sends it, if it is in time. -/
theorem Effect.inCharge_teardown {reason : Reason} {deadline : ℕ} (h : Effect s t)
    (htrace : t.trace = s.trace ++ evs)
    (hphase : (s.calls c).phase = .tearing p reason deadline .stopPreview)
    (hsess : s.sessions p = some sess) (houtdoor : sess.outdoor = outdoor)
    (hintime : (t.calls c).phase ≠ (s.calls c).phase → s.now < deadline) :
    InCharge t outdoor ∨ ∃ e ∈ evs, e.Stops t outdoor := by
  obtain ⟨hsessions, -⟩ := h.answerMove
  obtain ⟨sess', hsess', -, houtdoor'⟩ := hsessions p sess hsess
  have hsame : (t.calls c).phase = (s.calls c).phase → InCharge t outdoor := fun hkept ↦
    .teardown c p reason deadline sess' (hkept.trans hphase) hsess' (houtdoor'.trans houtdoor)
  -- The call is not the one that moves.
  have hother : ∀ {c' : ℕ}, (∀ k, k ≠ c' → (t.calls k).phase = (s.calls k).phase) →
      (s.calls c').phase ≠ .tearing p reason deadline .stopPreview → InCharge t outdoor := by
    intro c' hothers hnot
    refine hsame (hothers c ?_)
    rintro rfl
    exact hnot hphase
  have hplain : ∀ {c' : ℕ}, (s.calls c').phase.Plain →
      (s.calls c').phase ≠ .tearing p reason deadline .stopPreview := by
    intro c' hplain hnot
    rw [hnot] at hplain
    exact hplain
  cases h with
  | quiet _ _ _ _ _ _ hcalls =>
    have hbusy : (Phase.tearing p reason deadline .stopPreview).Busy := trivial
    exact Or.inl (hsame ((((hcalls c).phase_iff hbusy).mpr hphase).trans hphase.symm))
  | claimed c' _ _ _ _ _ _ hstart _ hothers => exact Or.inl (hother hothers (hplain hstart))
  | advanced c' _ _ _ _ _ _ _ hphase' _ _ hothers =>
    exact Or.inl (hother hothers (by simp [hphase']))
  | failed c' _ _ _ _ _ _ _ hphase' _ _ hothers =>
    exact Or.inl (hother hothers (by simp [hphase']))
  | committed c' _ _ _ _ _ _ hphase' _ hothers =>
    exact Or.inl (hother hothers (by simp [hphase']))
  | removed c' _ _ _ _ _ _ _ _ _ _ _ hstart _ hothers =>
    exact Or.inl (hother hothers (hplain hstart))
  | tore c' p' reason' deadline' phase phase' st _ _ _ hphase' hnext hbefore hothers htrace' hst =>
    by_cases hc : c = c'
    · subst hc
      obtain ⟨rfl, rfl, rfl, rfl⟩ := Phase.tearing.inj (hphase.symm.trans hphase')
      obtain rfl := List.append_cancel_left (htrace.symm.trans htrace')
      have hmoved : (t.calls c).phase ≠ (s.calls c).phase := by
        intro hkept
        rw [hphase, hnext, Phase.tearing.injEq] at hkept
        obtain ⟨sent, hnone⟩ := hbefore true
        rw [hkept.2.2.2] at hnone
        exact absurd hnone (by simp [TeardownPhase.before])
      have hsent : st = .stopPreview true := by
        rw [hst, teardownStep, decide_eq_true (hintime hmoved)]
      refine Or.inr ⟨_, List.mem_singleton.mpr rfl, ?_⟩
      rw [hsent]
      exact ⟨sess', hsess', houtdoor'.trans houtdoor⟩
    · exact Or.inl (hsame (hothers c hc))
  | closed c' _ _ _ _ _ _ _ hphase' _ hothers =>
    exact Or.inl (hother hothers (by simp [hphase']))

/-- While the slot is empty nobody comes to owe a 708. -/
theorem Effect.owed_before {reason : Reason} {deadline : ℕ} (h : Effect s t)
    (hempty : s.current = none)
    (hphase : (t.calls c).phase = .tearing p reason deadline .stopPreview) :
    (s.calls c).phase = .tearing p reason deadline .stopPreview := by
  have hother : ∀ {c' : ℕ}, (∀ k, k ≠ c' → (t.calls k).phase = (s.calls k).phase) →
      (t.calls c').phase ≠ .tearing p reason deadline .stopPreview →
      (s.calls c).phase = .tearing p reason deadline .stopPreview := by
    intro c' hothers hnot
    rw [← hothers c ?_, hphase]
    rintro rfl
    exact hnot hphase
  cases h with
  | quiet _ _ _ _ _ _ hcalls =>
    have hbusy : (Phase.tearing p reason deadline .stopPreview).Busy := trivial
    exact ((hcalls c).phase_iff hbusy).mp hphase
  | claimed c' _ _ _ _ _ _ _ hphase' hothers => exact hother hothers (by simp [hphase'])
  | advanced c' _ _ _ _ _ _ _ _ hphase' _ hothers => exact hother hothers (by simp [hphase'])
  | failed c' _ _ _ _ _ _ _ _ hphase' _ hothers => exact hother hothers (by simp [hphase'])
  | committed c' _ _ _ _ _ _ _ hphase' hothers => exact hother hothers (by simp [hphase'])
  | removed c' _ _ _ _ _ hcurrent => exact absurd (hempty.symm.trans hcurrent) (by simp)
  | tore c' _ _ _ _ phase' _ _ _ _ _ hphase' hbefore hothers =>
    refine hother hothers fun heq ↦ ?_
    rw [hphase', Phase.tearing.injEq] at heq
    obtain ⟨sent, hnone⟩ := hbefore true
    rw [heq.2.2.2] at hnone
    exact absurd hnone (by simp [TeardownPhase.before])
  | closed c' _ _ _ _ _ _ _ _ hphase' hothers =>
    refine hother hothers fun heq ↦ ?_
    rw [heq] at hphase'
    rcases hphase' with ⟨hplain, -⟩ | ⟨hreturned, -⟩
    · exact hplain
    · exact absurd hreturned (by simp)

/-- A call in a teardown is moved by its own next action only. -/
theorem step_tearing {reason : Reason} {deadline : ℕ} {phase : TeardownPhase}
    (h : step cfg s l = some t) (hphase : (s.calls c).phase = .tearing p reason deadline phase)
    (hmoved : (t.calls c).phase ≠ (s.calls c).phase) : l = .teardown c := by
  by_cases hmover : l.mover = .call c
  · have hcall := stepCall_of_mover h hmover
    cases l with
    | teardown k =>
      obtain rfl := Mover.call.inj hmover
      rfl
    | _ => exact absurd hcall (by simp [stepCall, hphase])
  · exact absurd (step_others h hmover (by simp [hphase])) hmoved

/-- Whoever is in charge of an outdoor stays so, or hands it on, or sends the 708. -/
theorem InCharge.step (h : InCharge s outdoor) (hslot : SlotInv s) (hpunctual : Punctual s l)
    (hstep : Manager.step cfg s l = some t) (htrace : t.trace = s.trace ++ evs) :
    InCharge t outdoor ∨ ∃ e ∈ evs, e.Stops t outdoor := by
  have heffect := step_effect hslot.filled hstep
  cases h with
  | start c phase hphase hpast => exact heffect.inCharge_start hslot htrace hphase hpast
  | current p sess hcurrent hsess houtdoor =>
    exact Or.inl (heffect.inCharge_current hslot hcurrent hsess houtdoor)
  | teardown c p reason deadline sess hphase hsess houtdoor =>
    refine heffect.inCharge_teardown htrace hphase hsess houtdoor fun hmoved ↦ ?_
    exact hpunctual.teardown c p reason deadline (step_tearing hstep hphase hmoved) hphase

/-- The `start` that has had its 704 acknowledged is in charge. -/
theorem Effect.inCharge_previewed (h : Effect s t) (htrace : t.trace = s.trace ++ evs)
    (hmem : .startPreview k outdoor true ∈ evs) : InCharge t outdoor := by
  cases h with
  | quiet evs' _ _ _ htrace' _ _ hnone =>
    obtain rfl := List.append_cancel_left (htrace.symm.trans htrace')
    exact absurd rfl (hnone _ hmem)
  | advanced c outdoor' _ phase' evs' _ _ _ _ hphase' _ _ htrace' _ _ hpreviews =>
    obtain rfl := List.append_cancel_left (htrace.symm.trans htrace')
    obtain ⟨rfl, hpast⟩ := hpreviews _ _ _ hmem
    exact .start c phase' hphase' (hpast rfl)
  | failed _ _ _ _ evs' _ _ _ _ _ _ _ htrace' _ _ hnone =>
    obtain rfl := List.append_cancel_left (htrace.symm.trans htrace')
    rcases List.mem_append.mp hmem with hmem | hmem
    · exact absurd rfl (hnone _ hmem)
    · exact absurd hmem (by simp)
  | claimed _ _ _ _ _ _ _ _ _ _ htrace' | committed _ _ _ _ _ _ _ _ _ _ htrace'
  | removed _ _ _ _ _ _ _ _ _ _ _ _ _ _ _ htrace' | tore _ _ _ _ _ _ _ _ _ _ _ _ _ _ htrace' =>
    obtain rfl := List.append_cancel_left (htrace.symm.trans htrace')
    exact absurd hmem (by simp)
  | closed _ _ _ _ evs' _ _ _ _ hreturned _ htrace' =>
    obtain rfl := List.append_cancel_left (htrace.symm.trans htrace')
    rcases hreturned with ⟨-, rfl⟩ | ⟨-, rfl⟩
    · exact absurd hmem (by simp)
    · exact absurd hmem (by simp)

/-- A re-invite before the 708 of its session comes under the charge of the session in the slot, or
of the call that has taken it out. -/
theorem inCharge_reinvited (hslot : SlotInv s) (hinvites : InvitesInv s)
    (hstep : Manager.step cfg s (.reinvite p) = some t) (htorn : tornBy p s.trace = [])
    (hsess : t.sessions p = some sess) (houtdoor : sess.outdoor = outdoor) :
    InCharge t outdoor := by
  cases step_move hstep with
  | reinvite p sess₀ hsess₀ hmonitor =>
    have hcommitted := hinvites.inviting p sess₀ hsess₀ hmonitor
    cases hslot.status p with
    | outside _ hnot => exact absurd hcommitted hnot
    | current hcurrent => exact .current p sess hcurrent hsess houtdoor
    | tearing c reason deadline phase sent _ _ _ hphase hbefore =>
      rw [htorn] at hbefore
      cases phase with
      | stopPreview => exact .teardown c p reason deadline sess hphase hsess houtdoor
      | _ => exact absurd hbefore (by simp [TeardownPhase.before])
    | torn c sent _ _ _ _ hwhole =>
      rw [htorn] at hwhole
      exact absurd hwhole (by simp [wholeTeardown])

/-- The step lemma: somebody stays in charge of every outdoor that streams. -/
theorem step_inCharge (hslot : SlotInv s) (hinvites : InvitesInv s) (hpunctual : Punctual s l)
    (hcharge : ∀ outdoor, s.Streams outdoor → InCharge s outdoor)
    (hstep : Manager.step cfg s l = some t) (outdoor : Outdoor) (hstreams : t.Streams outdoor) :
    InCharge t outdoor := by
  have heffect := step_effect hslot.filled hstep
  obtain ⟨hsessions, evs, htrace, -⟩ := heffect.answerMove
  rw [State.Streams, htrace, owes_append] at hstreams
  rcases hstreams with hnew | ⟨hold, hunstopped⟩
  · -- The step has sent a 704.
    obtain ⟨e, hmem, hstarts⟩ := hnew.exists_mem
    cases e with
    | startPreview k o ok =>
      obtain ⟨rfl, rfl⟩ := hstarts
      exact heffect.inCharge_previewed htrace hmem
    | reinvited p =>
      obtain ⟨sess, hsess, houtdoor⟩ := hstarts
      obtain rfl := step_reinvited hstep htrace hmem
      exact inCharge_reinvited hslot hinvites hstep (hpunctual.reinvite p rfl) hsess houtdoor
    | _ => exact hstarts.elim
  · -- The outdoor streamed before, and the step has not stopped it.
    have hbefore : s.Streams outdoor := by
      refine hold.mono (fun e he hstarts ↦ ?_) fun e _ hstops ↦ hstops.mono hsessions
      cases e with
      | reinvited p =>
        obtain ⟨sess, hsess, houtdoor⟩ := hstarts
        obtain ⟨sess₀, hsess₀⟩ := hslot.created p (hinvites.invited p he)
        obtain ⟨sess', hsess', -, hsame⟩ := hsessions p sess₀ hsess₀
        obtain rfl := Option.some.inj (hsess.symm.trans hsess')
        exact ⟨sess₀, hsess₀, hsame.symm.trans houtdoor⟩
      | startPreview => exact hstarts
      | _ => exact hstarts.elim
    refine ((hcharge outdoor hbefore).step hslot hpunctual hstep htrace).resolve_right ?_
    rintro ⟨e, he, hstops⟩
    exact hunstopped e he hstops

end Outdoors

end DoorAccess.Video.Manager
