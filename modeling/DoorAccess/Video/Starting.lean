import DoorAccess.Video.Logs
import DoorAccess.Video.Successor

/-!
# What a start leaves behind

`start` keeps the slot from the moment it finds it empty until it returns, through a bind, a 704 and
two draws of a number, each of which may fail and has its own roll-back. `Under` says what a `start`
has done by the phase it is in, whatever the other threads do meanwhile; from it `start_outcome`
reads off, for every way of returning, what was sent in which order and what became of the slot and
of the sessions.
-/

set_option autoImplicit false
set_option relaxedAutoImplicit false

namespace DoorAccess.Video.Manager

open Codec Transition

/-! ### A start by its phases -/

/-- The draws of a `start` of which the last fails. -/
def Drawn.draws (c : ℕ) : Drawn → List Event
  | .uuid => [.drew c .uuid false]
  | .ssrc => [.drew c .uuid true, .drew c .ssrc false]

/-- What a `start` has done behind its entry when it is in a phase, with what came of it: the bind,
the 704, the draws, and the socket that it has let go of. -/
def StartPhase.events (c : ℕ) (outdoor : Outdoor) : StartPhase → List Event
  | .binding => []
  | .previewing => [.bound c true]
  | .drawing => [.bound c true, .startPreview c outdoor true]
  | .rollingBack missing =>
    .bound c true :: .startPreview c outdoor true :: (missing.draws c ++ [.dropSocket c])
  | .spawned _ =>
    [.bound c true, .startPreview c outdoor true, .drew c .uuid true, .drew c .ssrc true]

/-- The session that a `start` has created. -/
def StartPhase.session : StartPhase → Option ℕ
  | .spawned p => some p
  | _ => none

/-- The `start` of the call `c`, which got hold of the slot in `s₀`, is in a phase. -/
structure Under (s₀ s : State) (c : ℕ) (outdoor : Outdoor) (phase : StartPhase) : Prop where
  empty : s₀.current = none
  starting : (s.calls c).phase = .starting outdoor phase
  own : own c s.trace =
    own c s₀.trace ++ .entered c (.start outdoor) none :: phase.events c outdoor
  kept : ∀ q, (s₀.sessions q).isSome → (s.sessions q).isSome
  sessions : ∀ q, (s.sessions q).isSome → (s₀.sessions q).isSome ∨ phase.session = some q
  fresh : ∀ q, phase.session = some q → s₀.sessions q = none

/-- The slot and the set of sessions are as before. -/
structure Untouched (s t : State) : Prop where
  current : t.current = s.current
  sessions : ∀ p, (t.sessions p).isSome = (s.sessions p).isSome

/-- What came of a `start` that got hold of the slot in `s` and has returned in `t`, with all that the
call itself has done in between. The 704 is `startPreview`, the 708 is `rollbackPreview`. -/
inductive StartOutcome (cfg : Config) (c : ℕ) (outdoor : Outdoor) (s t : State) : Reply → Prop
  /-- Another outdoor has the slot: nothing is done. -/
  | conflict (p : ℕ) (sess : Session) (hcurrent : s.current = some p)
      (hsess : s.sessions p = some sess) (hother : sess.outdoor.uri ≠ outdoor.uri)
      (huntouched : Untouched s t)
      (hown : own c t.trace = own c s.trace ++ [.entered c (.start outdoor) (some p),
        .returned c (.failed (.conflict sess.outdoor.uri outdoor.uri))]) :
      StartOutcome cfg c outdoor s t (.failed (.conflict sess.outdoor.uri outdoor.uri))
  /-- The outdoor has the slot itself: nothing is done. -/
  | reused (p : ℕ) (sess : Session) (hcurrent : s.current = some p)
      (hsess : s.sessions p = some sess) (hsame : sess.outdoor.uri = outdoor.uri)
      (huntouched : Untouched s t)
      (hown : own c t.trace = own c s.trace ++ [.entered c (.start outdoor) (some p),
        .returned c (.started (sess.info cfg.ttlValue))]) :
      StartOutcome cfg c outdoor s t (.started (sess.info cfg.ttlValue))
  /-- The bind fails: nothing is sent. -/
  | unbound (hempty : s.current = none) (huntouched : Untouched s t)
      (hown : own c t.trace = own c s.trace ++ [.entered c (.start outdoor) none, .bound c false,
        .returned c (.failed .bind)]) :
      StartOutcome cfg c outdoor s t (.failed .bind)
  /-- The preview fails: one 704, and the socket is let go of. -/
  | unpreviewed (hempty : s.current = none) (huntouched : Untouched s t)
      (hown : own c t.trace = own c s.trace ++ [.entered c (.start outdoor) none, .bound c true,
        .startPreview c outdoor false, .dropSocket c, .returned c (.failed .preview)]) :
      StartOutcome cfg c outdoor s t (.failed .preview)
  /-- A number cannot be drawn: one 704, then the socket is let go of, then one 708. -/
  | undrawn (missing : Drawn) (hempty : s.current = none) (huntouched : Untouched s t)
      (hown : own c t.trace = own c s.trace ++ .entered c (.start outdoor) none ::
        .bound c true :: .startPreview c outdoor true :: (missing.draws c ++ [.dropSocket c,
          .rollbackPreview c outdoor, .returned c (.failed missing.error)])) :
      StartOutcome cfg c outdoor s t (.failed missing.error)
  /-- All succeeds: one 704, and the new session is in the slot. -/
  | committed (p : ℕ) (sess : Session) (hempty : s.current = none) (hfresh : s.sessions p = none)
      (hcurrent : t.current = some p) (hsess : t.sessions p = some sess)
      (houtdoor : sess.outdoor = outdoor)
      (hown : own c t.trace = own c s.trace ++ [.entered c (.start outdoor) none, .bound c true,
        .startPreview c outdoor true, .drew c .uuid true, .drew c .ssrc true, .committed c p,
        .returned c (.started (sess.info cfg.ttlValue))]) :
      StartOutcome cfg c outdoor s t (.started (sess.info cfg.ttlValue))

section Starting

variable {cfg : Config} {s₀ s t u : State} {l : Label} {labels : List Label} {c p : ℕ}
  {outdoor : Outdoor} {phase : StartPhase} {reply : Reply}

/-- The events of the call at the end of a step. -/
theorem own_log {e : Event} (hauthor : e.author = some c) (hfin : e.isFin = false) :
    own c (s.log e).trace = own c s.trace ++ [e] := by
  rw [State.log_trace, own_append]
  simp [own, hauthor, hfin]

theorem own_reply (r : Reply) : own c (s.reply c r).trace = own c s.trace ++ [.returned c r] :=
  own_log rfl rfl

/-- A session of the new state is one of the old, or the one that the `start` has created. -/
theorem step_sessions (hslot : SlotInv s) (h : step cfg s l = some t)
    (hphase : (s.calls c).phase = .starting outdoor phase) :
    (∀ q, (s.sessions q).isSome → (t.sessions q).isSome) ∧
      ∀ q, (t.sessions q).isSome → (s.sessions q).isSome ∨
        phase = .drawing ∧ ∃ id ssrc, l = .drawNumbers c (some id) (some ssrc) q := by
  constructor
  · intro q hq
    obtain ⟨sess, hsess⟩ := Option.isSome_iff_exists.mp hq
    obtain ⟨sess', hsess', -⟩ := (step_effect hslot.filled h).answerMove.1 q sess hsess
    rw [hsess']
    rfl
  · intro q hq
    obtain ⟨sess', hsess'⟩ := Option.isSome_iff_exists.mp hq
    rcases step_session h q sess' hsess' with hcreates | ⟨sess, hsess, -⟩
    · exact Or.inr (hcreates.starter hslot hphase)
    · rw [hsess]
      exact Or.inl rfl

namespace Under

/-- A `start` that has created nothing has left the slot and the sessions as they were. -/
theorem untouched (h : Under s₀ s c outdoor phase) (hnone : phase.session = none)
    (hcurrent : t.current = none) (hsessions : t.sessions = s.sessions) : Untouched s₀ t := by
  refine ⟨hcurrent.trans h.empty.symm, fun q ↦ ?_⟩
  rw [hsessions, Bool.eq_iff_iff]
  refine ⟨fun hq ↦ (h.sessions q hq).resolve_right ?_, h.kept q⟩
  rw [hnone]
  simp

/-- The move of another thread. -/
theorem others (h : Under s₀ s c outdoor phase) (hslot : SlotInv s) (hstep : step cfg s l = some t)
    (hmover : l.mover ≠ .call c) : Under s₀ t c outdoor phase := by
  obtain ⟨hkept, hnew⟩ := step_sessions hslot hstep h.starting
  refine ⟨h.empty, ?_, ?_, fun q hq ↦ hkept q (h.kept q hq), ?_, h.fresh⟩
  · rw [step_others hstep hmover (by rw [h.starting]; simp), h.starting]
  · rw [step_own hstep hmover, h.own]
  · intro q hq
    rcases hnew q hq with hold | ⟨-, id, ssrc, rfl⟩
    · exact h.sessions q hold
    · exact absurd rfl hmover

/-- The move of the `start` that creates its session, behind its two draws. -/
theorem create (h : Under s₀ s c outdoor .drawing) (hfresh : s.sessions p = none)
    (sess : Session)
    (htrace : Manager.own c u.trace =
      Manager.own c s.trace ++ [.drew c .uuid true, .drew c .ssrc true])
    (hsessions : u.sessions = s.sessions) :
    Under s₀ ((u.setSession p sess).setPhase c (.starting outdoor (.spawned p))) c outdoor
      (.spawned p) := by
  refine ⟨h.empty, setPhase_phase _ _ _, ?_, fun q hq ↦ ?_, fun q hq ↦ ?_, fun q hq ↦ ?_⟩
  · show Manager.own c u.trace = _
    rw [htrace, h.own, List.append_assoc]
    rfl
  · by_cases hqp : q = p
    · simp [hqp]
    · simpa [hqp, hsessions] using h.kept q hq
  · by_cases hqp : q = p
    · exact Or.inr (by rw [hqp]; rfl)
    · refine Or.inl ((h.sessions q (by simpa [hqp, hsessions] using hq)).resolve_right ?_)
      simp [StartPhase.session]
  · obtain rfl : p = q := Option.some.inj hq
    by_contra hsome
    have hkept := h.kept p (Option.isSome_iff_ne_none.mpr hsome)
    rw [hfresh] at hkept
    exact absurd hkept Bool.false_ne_true

/-- A move of the `start` to a phase in which it has created nothing. -/
theorem advance {phase' : StartPhase} {evs : List Event} (h : Under s₀ s c outdoor phase)
    (hnone : phase.session = none) (hnone' : phase'.session = none)
    (hphase : (t.calls c).phase = .starting outdoor phase')
    (hown : Manager.own c t.trace = Manager.own c s.trace ++ evs)
    (hevents : phase'.events c outdoor = phase.events c outdoor ++ evs)
    (hsessions : t.sessions = s.sessions) : Under s₀ t c outdoor phase' := by
  refine ⟨h.empty, hphase, ?_, ?_, ?_, ?_⟩
  · rw [hown, h.own, hevents, List.append_assoc, List.cons_append]
  · rw [hsessions]
    exact h.kept
  · intro q hq
    rw [hsessions] at hq
    rcases h.sessions q hq with hold | hsession
    · exact Or.inl hold
    · rw [hnone] at hsession
      exact absurd hsession (by simp)
  · rw [hnone']
    simp

/-- The `start` returns an error. -/
theorem fails {evs : List Event} (error : StartError) (h : Under s₀ s c outdoor phase)
    (hslot : SlotInv s) (hnone : phase.session = none)
    (htrace : Manager.own c u.trace = Manager.own c s.trace ++ evs)
    (hcurrent : u.current = s.current) (hsessions : u.sessions = s.sessions) :
    Untouched s₀ (startFails u c error) ∧
      Manager.own c (startFails u c error).trace = Manager.own c s₀.trace ++
        .entered c (.start outdoor) none ::
          (phase.events c outdoor ++ evs ++ [.returned c (.failed error)]) := by
  have hheld : s.holder ≠ none := by
    rw [(hslot.holder c).mpr ⟨outdoor, phase, h.starting⟩]
    simp
  refine ⟨h.untouched hnone (hcurrent.trans (hslot.free hheld)) hsessions, ?_⟩
  rw [startFails, own_reply]
  show Manager.own c u.trace ++ _ = _
  rw [htrace, h.own]
  simp

end Under

/-- A `start` gets hold of the slot. -/
theorem enter_start (hfilled : SlotFilled s) :
    Under s (enter cfg s c (.start outdoor)) c outdoor .binding ∨
      ∃ reply, StartOutcome cfg c outdoor s (enter cfg s c (.start outdoor)) reply ∧
        ((enter cfg s c (.start outdoor)).calls c).phase = .returned reply := by
  have hentered : own c (s.log (.entered c (.start outdoor) s.current)).trace =
      own c s.trace ++ [.entered c (.start outdoor) s.current] := own_log rfl rfl
  simp only [enter, start]
  split
  · rename_i p sess hfound
    obtain ⟨hcurrent, hsess⟩ := State.currentSession_eq_some.mp hfound
    right
    split_ifs
    · rename_i huri
      obtain ⟨hcurrent', -, -, htrace, hsame⟩ :=
        reuse_fields cfg (s := s.log (.entered c (.start outdoor) s.current)) hsess
      refine ⟨_, .reused p sess hcurrent hsess huri ⟨hcurrent', ?_⟩ ?_, reply_phase _ _ _⟩
      · intro q
        unfold reuse
        split_ifs
        · by_cases hq : q = p
          · subst hq
            have hsome : (s.sessions q).isSome = true := by
              rw [← State.log_sessions s, hsess]
              rfl
            simp [State.reply, hsome]
          · simp [State.reply, hq]
        · rfl
      · rw [own_reply, htrace, hentered, List.append_assoc, ← hcurrent]
        rfl
    · rename_i huri
      refine ⟨_, .conflict p sess hcurrent hsess huri ⟨rfl, fun _ ↦ rfl⟩ ?_, reply_phase _ _ _⟩
      rw [own_reply, hentered, List.append_assoc, ← hcurrent]
      rfl
  · rename_i hnone
    left
    have hcurrent : s.current = none := current_eq_none_of_currentSession hfilled hnone
    refine ⟨hcurrent, ?_, ?_, fun _ hq ↦ hq, fun _ hq ↦ Or.inl hq, ?_⟩
    · rw [setPhase_phase]
    · rw [← hcurrent]
      exact hentered
    · simp [StartPhase.session]

/-- A move of a `start`. -/
theorem Under.move (h : Under s₀ s c outdoor phase) (hslot : SlotInv s)
    (hstep : stepCall cfg s c l = some t) (hmover : l.mover = .call c) :
    (∃ phase', Under s₀ t c outdoor phase') ∨
      ∃ reply, StartOutcome cfg c outdoor s₀ t reply ∧ (t.calls c).phase = .returned reply := by
  have hphase := h.starting
  cases phase with
  | binding =>
    cases l with
    | bindUdp k ok =>
      simp only [stepCall, hphase, Option.some.injEq, bindUdp] at hstep
      subst hstep
      have hbound : Manager.own c (s.log (.bound c ok)).trace =
          Manager.own c s.trace ++ [.bound c ok] := own_log rfl rfl
      split_ifs with hok
      · subst hok
        exact Or.inl ⟨.previewing, h.advance rfl rfl (setPhase_phase _ _ _) hbound rfl rfl⟩
      · obtain rfl : ok = false := eq_false_of_ne_true hok
        obtain ⟨huntouched, hown⟩ := h.fails .bind hslot rfl hbound rfl rfl
        exact Or.inr ⟨_, .unbound h.empty huntouched hown, reply_phase _ _ _⟩
    | _ => exact absurd hstep (by simp [stepCall, hphase])
  | previewing =>
    cases l with
    | startPreview k ok =>
      simp only [stepCall, hphase, Option.some.injEq, startPreview] at hstep
      subst hstep
      have hsent : Manager.own c (s.log (.startPreview c outdoor ok)).trace =
          Manager.own c s.trace ++ [.startPreview c outdoor ok] := own_log rfl rfl
      split_ifs with hok
      · subst hok
        exact Or.inl ⟨.drawing, h.advance rfl rfl (setPhase_phase _ _ _) hsent rfl rfl⟩
      · obtain rfl : ok = false := eq_false_of_ne_true hok
        have hdropped := own_log (s := s.log (.startPreview c outdoor false)) (c := c)
          (e := .dropSocket c) rfl rfl
        rw [hsent, List.append_assoc] at hdropped
        obtain ⟨huntouched, hown⟩ := h.fails .preview hslot rfl hdropped rfl rfl
        exact Or.inr ⟨_, .unpreviewed h.empty huntouched hown, reply_phase _ _ _⟩
    | _ => exact absurd hstep (by simp [stepCall, hphase])
  | drawing =>
    cases l with
    | drawNumbers k uuid ssrc p =>
      simp only [stepCall, hphase] at hstep
      split_ifs at hstep with hfresh
      obtain rfl := Option.some.inj hstep
      have hdrew : ∀ (u : State) number ok, Manager.own c (u.log (.drew c number ok)).trace =
          Manager.own c u.trace ++ [.drew c number ok] := fun _ _ _ ↦ own_log rfl rfl
      have hdropped : ∀ u : State, Manager.own c (u.log (.dropSocket c)).trace =
          Manager.own c u.trace ++ [.dropSocket c] := fun _ ↦ own_log rfl rfl
      unfold drawNumbers
      split
      · have hfirst : Manager.own c ((s.log (.drew c .uuid false)).log (.dropSocket c)).trace =
            Manager.own c s.trace ++ [.drew c .uuid false, .dropSocket c] := by
          rw [hdropped, hdrew, List.append_assoc]
          rfl
        exact Or.inl ⟨.rollingBack .uuid,
          h.advance rfl rfl (setPhase_phase _ _ _) hfirst rfl rfl⟩
      · have hsecond : Manager.own c (((s.log (.drew c .uuid true)).log (.drew c .ssrc false)).log
            (.dropSocket c)).trace =
            Manager.own c s.trace ++ [.drew c .uuid true, .drew c .ssrc false, .dropSocket c] := by
          rw [hdropped, hdrew, hdrew, List.append_assoc, List.append_assoc]
          rfl
        exact Or.inl ⟨.rollingBack .ssrc,
          h.advance rfl rfl (setPhase_phase _ _ _) hsecond rfl rfl⟩
      · refine Or.inl ⟨.spawned p, h.create hfresh _ ?_ rfl⟩
        rw [hdrew, hdrew, List.append_assoc]
        rfl
    | _ => exact absurd hstep (by simp [stepCall, hphase])
  | rollingBack missing =>
    cases l with
    | rollback k =>
      simp only [stepCall, hphase, Option.some.injEq] at hstep
      subst hstep
      have hrolled : Manager.own c (s.log (.rollbackPreview c outdoor)).trace =
          Manager.own c s.trace ++ [.rollbackPreview c outdoor] := own_log rfl rfl
      obtain ⟨huntouched, hown⟩ := h.fails missing.error hslot rfl hrolled rfl rfl
      refine Or.inr ⟨_, .undrawn missing h.empty huntouched ?_, reply_phase _ _ _⟩
      rw [hown]
      simp [StartPhase.events]
    | _ => exact absurd hstep (by simp [stepCall, hphase])
  | spawned p =>
    cases l with
    | commit k =>
      simp only [stepCall, hphase, Option.map_eq_some_iff] at hstep
      obtain ⟨sess, hsess, rfl⟩ := hstep
      have hcommitted : Manager.own c
          (({ s with current := some p, holder := none } : State).log (.committed c p)).trace =
          Manager.own c s.trace ++ [.committed c p] := own_log rfl rfl
      obtain ⟨⟨sess', hsess', houtdoor⟩, -⟩ := hslot.spawned c outdoor p hphase
      obtain rfl := Option.some.inj (hsess.symm.trans hsess')
      refine Or.inr ⟨_, .committed p sess h.empty (h.fresh p rfl) rfl hsess houtdoor ?_,
        reply_phase _ _ _⟩
      rw [commit, own_reply, hcommitted, h.own]
      simp [StartPhase.events]
    | _ => exact absurd hstep (by simp [stepCall, hphase])

/-- One step of any thread. -/
theorem Under.step (h : Under s₀ s c outdoor phase) (hslot : SlotInv s)
    (hstep : Manager.step cfg s l = some t) :
    (∃ phase', Under s₀ t c outdoor phase') ∨
      ∃ reply, StartOutcome cfg c outdoor s₀ t reply ∧ (t.calls c).phase = .returned reply := by
  by_cases hmover : l.mover = .call c
  · exact h.move hslot (stepCall_of_mover hstep hmover) hmover
  · exact Or.inl ⟨phase, h.others hslot hstep hmover⟩

theorem exec_returned (hrun : exec (step cfg) s labels = some t)
    (h : (s.calls c).phase = .returned reply) : (t.calls c).phase = .returned reply := by
  induction labels generalizing s with
  | nil => exact Option.some.inj hrun ▸ h
  | cons l labels ih =>
    obtain ⟨v, hfirst, hrest⟩ := exec_cons_eq_some.mp hrun
    exact ih hrest (step_returned hfirst h)

/-- A run in which the `start` does not return. -/
theorem Under.exec (h : Under s₀ s c outdoor phase) (hreach : Reachable (Manager.step cfg) .init s)
    (hrun : Transition.exec (Manager.step cfg) s labels = some t)
    (hopen : ∀ r, (t.calls c).phase ≠ .returned r) : ∃ phase', Under s₀ t c outdoor phase' := by
  induction labels generalizing s phase with
  | nil => exact ⟨phase, Option.some.inj hrun ▸ h⟩
  | cons l labels ih =>
    obtain ⟨v, hfirst, hrest⟩ := exec_cons_eq_some.mp hrun
    rcases h.step (reachable_slotInv hreach) hfirst with ⟨phase', hunder⟩ | ⟨r, -, hreturned⟩
    · exact ih hunder (hreach.next hfirst) hrest
    · exact absurd (exec_returned hrest hreturned) (hopen r)

/-- The call `c` of `start` gets hold of the slot in `s`, and the step that leads to `t` is the one
with which it returns; in between, all threads move as they like. -/
structure StartCall (cfg : Config) (c : ℕ) (outdoor : Outdoor) (s t : State) (reply : Reply) :
    Prop where
  reachable : Reachable (step cfg) .init s
  calling : (s.calls c).phase = .calling (.start outdoor)
  run : ∃ labels l u, exec (step cfg) s labels = some u ∧ step cfg u l = some t ∧
    (labels ++ [l]).head? = some (.enter c) ∧ ∀ r, (u.calls c).phase ≠ .returned r
  returned : (t.calls c).phase = .returned reply

/-- **The obligations of `start`.** Whatever comes of the bind, the previews and the random source,
and whatever the other threads do: a `start` returns what these outcomes call for. With an error it
leaves the slot and the set of sessions as they were; with a conflict or a failed bind it has sent
nothing, with a failed preview one 704, and with a number that could not be drawn one 704, then one
708 to the same outdoor with the socket released in between. With a new session it has sent one 704,
and that session is in the slot. -/
theorem start_outcome (h : StartCall cfg c outdoor s t reply) :
    StartOutcome cfg c outdoor s t reply := by
  obtain ⟨hreach, hcalling, ⟨labels, l, u, hrun, hlast, hhead, hopen⟩, hreturned⟩ := h
  have hslot := reachable_slotInv hreach
  -- The entry, and what it leads to.
  have henter : ∀ {v}, step cfg s (.enter c) = some v → Under s v c outdoor .binding ∨
      ∃ reply, StartOutcome cfg c outdoor s v reply ∧ (v.calls c).phase = .returned reply := by
    intro v hv
    cases step_move hv with
    | enter c op hphase =>
      obtain rfl : op = .start outdoor := by
        rw [hcalling, Phase.calling.injEq] at hphase
        exact hphase.symm
      exact enter_start hslot.filled
  have hreply : ∀ reply', (t.calls c).phase = .returned reply' → reply' = reply := by
    intro reply' hreply'
    exact Phase.returned.inj (hreply'.symm.trans hreturned)
  cases labels with
  | nil =>
    obtain rfl : l = .enter c := Option.some.inj hhead
    obtain rfl := Option.some.inj hrun
    rcases henter hlast with hunder | ⟨reply', houtcome, hreply'⟩
    · rw [hunder.starting] at hreturned
      exact absurd hreturned (by simp)
    · exact hreply reply' hreply' ▸ houtcome
  | cons first labels =>
    obtain rfl : first = .enter c := Option.some.inj hhead
    obtain ⟨v, hv, hrest⟩ := exec_cons_eq_some.mp hrun
    rcases henter hv with hunder | ⟨reply', -, hreply'⟩
    · obtain ⟨phase', hunder'⟩ := hunder.exec (hreach.next hv) hrest hopen
      have hreach' : Reachable (step cfg) .init u :=
        hreach.trans ⟨_, hrun⟩
      rcases hunder'.step (reachable_slotInv hreach') hlast with ⟨phase'', hlater⟩ |
        ⟨reply', houtcome, hreply'⟩
      · rw [hlater.starting] at hreturned
        exact absurd hreturned (by simp)
      · exact hreply reply' hreply' ▸ houtcome
    · exact absurd (exec_returned hrest hreply') (hopen reply')

/-! ### A number that cannot be drawn -/

/-- A `start` whose first number cannot be drawn, up to its roll-back. -/
def undrawn : List Label :=
  [.enter 0, .bindUdp 0 true, .startPreview 0 true, .drawNumbers 0 none none 0]

theorem start_outcome_undrawn :
    ∃ s t, StartCall defaultConfig 0 gate s t (.failed .uuid) ∧
      StartOutcome defaultConfig 0 gate s t (.failed .uuid) := by
  have hcall : step defaultConfig .init (.call 0 (.start gate)) = some _ := rfl
  have hrun : exec (step defaultConfig) (State.init.setPhase 0 (.calling (.start gate))) undrawn =
      some _ := rfl
  obtain ⟨s, t, h⟩ : ∃ s t, StartCall defaultConfig 0 gate s t (.failed .uuid) :=
    ⟨_, _, (Reachable.refl _ _).next hcall, rfl,
      ⟨undrawn, .rollback 0, _, hrun, rfl, rfl, fun _ hreturned ↦ nomatch hreturned⟩, rfl⟩
  exact ⟨s, t, h, start_outcome h⟩

end Starting

end DoorAccess.Video.Manager
