import DoorAccess.Video.Logs
import DoorAccess.Video.Successor

/-!
# The buffer of the session in the slot

A `start` for the station that is being watched answers from the slot. The session there is of use
only while its buffer is open: a closed buffer takes in no unit and every stream of it is refused.
`teardown` closes a buffer when the session has left the slot. A FIN watcher does not look at the
slot at all: it closes the buffer of the session that its handler streams, and the session stays in
the slot until the handler gets to its `stop_by_id`. `current_open_iff` says that this is the only
way to a closed buffer in the slot.
-/

set_option autoImplicit false
set_option relaxedAutoImplicit false

namespace DoorAccess.Video.Manager

open Codec Transition

/-- The session in the slot has an open buffer. -/
def CurrentOpen (s : State) : Prop :=
  ∀ p sess, s.current = some p → s.sessions p = some sess → sess.frameBuf.closed = false

/-- The call is a `start` that has not answered yet. -/
def Phase.Starts : Phase → Prop
  | .calling (.start _) => True
  | .starting _ _ => True
  | _ => False

/-- Every `start` that a step answers with a session is answered with the one in the slot, and its
buffer is open. -/
def StartsOpen (cfg : Config) (s t : State) : Prop :=
  ∀ c info, (s.calls c).phase.Starts → (t.calls c).phase = .returned (.started info) →
    ∃ p sess, t.current = some p ∧ t.sessions p = some sess ∧ info = sess.info cfg.ttlValue ∧
      sess.frameBuf.closed = false

/-- A FIN watcher closes the buffer of the session in the slot. -/
def ClosesCurrent (s : State) (l : Label) : Prop :=
  ∃ c p, l = .finClose c ∧ (s.calls c).watcher = true ∧ (s.calls c).phase.streamed = some p ∧
    s.current = some p

/-! ### Only a FIN watcher logs its close -/

section Fin

variable {cfg : Config} {s t : State} {l : Label} {c p : ℕ}

/-- A close by a FIN watcher is the move of that watcher, on the session of its handler. -/
theorem step_finClosed (h : step cfg s l = some t) (hmem : .finClosed c p ∈ t.trace) :
    .finClosed c p ∈ s.trace ∨
      l = .finClose c ∧ (s.calls c).watcher = true ∧ (s.calls c).phase.streamed = some p := by
  obtain ⟨evs, htrace, hevs⟩ := step_logs h
  rw [htrace, List.mem_append] at hmem
  rcases hmem with hold | hnew
  · exact Or.inl hold
  right
  have hlogs := hevs _ hnew
  cases step_move h with
  | finClose k q sess hstreamed hsess hwatcher =>
    have hadded : evs = [.finClosed k q] := List.append_cancel_left htrace.symm
    rw [hadded] at hnew
    obtain ⟨rfl, rfl⟩ := Event.finClosed.inj (List.mem_singleton.mp hnew)
    exact ⟨rfl, hwatcher, hstreamed⟩
  | refreshLoop k q sess =>
    have hsame : s.trace ++ evs = s.trace ++ [] := by
      rw [← htrace, List.append_nil]
      exact (refreshTtl_fields cfg s sess.id).2.2.2.1
    rw [List.append_cancel_left hsame] at hnew
    exact absurd hnew List.not_mem_nil
  | elapse => exact hlogs.elim
  | packet | push | send | look | tick | spawnCleanup | registerCleanup | guardReinvite
  | reinvite =>
    exact absurd hlogs (by simp [Label.mover, Mover.Logs])
  | _ => exact absurd hlogs.2 (by simp [Event.isFin])

end Fin

/-! ### The answers of a start -/

section Answer

variable {cfg : Config} {s t : State} {l : Label} {c : ℕ} {info : SessionInfo}

theorem start_started {outdoor : Outdoor}
    (h : ((enter cfg s c (.start outdoor)).calls c).phase = .returned (.started info)) :
    ∃ p sess, (enter cfg s c (.start outdoor)).current = some p ∧
      (enter cfg s c (.start outdoor)).sessions p = some sess ∧
      info = sess.info cfg.ttlValue := by
  simp only [enter, start] at h ⊢
  split at h
  · rename_i p sess hfound
    obtain ⟨hcurrent, hsess⟩ := State.currentSession_eq_some.mp hfound
    split_ifs at h ⊢ with huri
    · rw [reply_phase, Phase.returned.injEq, Reply.started.injEq] at h
      rw [← h]
      unfold reuse
      split_ifs
      · exact ⟨p, _, hcurrent, Function.update_self _ _ _, rfl⟩
      · exact ⟨p, sess, hcurrent, hsess, rfl⟩
    · rw [reply_phase] at h
      exact absurd h (by simp)
  · rw [setPhase_phase] at h
    exact absurd h (by simp)

/-- A `start` answers with the session that is in the slot when it has answered. -/
theorem step_started (h : step cfg s l = some t) (hstarts : (s.calls c).phase.Starts)
    (hstarted : (t.calls c).phase = .returned (.started info)) :
    ∃ p sess, t.current = some p ∧ t.sessions p = some sess ∧ info = sess.info cfg.ttlValue := by
  have hmover : l.mover = .call c := by
    by_contra hother
    have hbusy : (s.calls c).phase ≠ .idle := by
      intro hidle
      rw [hidle] at hstarts
      exact hstarts
    rw [← step_others h hother hbusy, hstarted] at hstarts
    exact hstarts
  have hcall := stepCall_of_mover h hmover
  cases hphase : (s.calls c).phase with
  | calling op =>
    cases op with
    | start outdoor =>
      cases l with
      | enter k =>
        simp only [stepCall, hphase] at hcall
        split_ifs at hcall
        obtain rfl := Option.some.inj hcall
        exact start_started hstarted
      | _ => exact absurd hcall (by simp [stepCall, hphase])
    | _ =>
      rw [hphase] at hstarts
      exact hstarts.elim
  | starting outdoor phase =>
    have hmove := stepCall_start hmover hphase hcall
    rw [hstarted] at hmove
    obtain ⟨p, rfl⟩ : ∃ p, phase = .spawned p := by
      cases hmove with
      | returns _ _ _ hspawned => exact hspawned info rfl
    cases l with
    | commit k =>
      simp only [stepCall, hphase, Option.map_eq_some_iff] at hcall
      obtain ⟨sess, hsess, rfl⟩ := hcall
      rw [commit, reply_phase, Phase.returned.injEq, Reply.started.injEq] at hstarted
      exact ⟨p, sess, rfl, hsess, hstarted.symm⟩
    | _ => exact absurd hcall (by simp [stepCall, hphase])
  | _ =>
    rw [hphase] at hstarts
    exact hstarts.elim

end Answer

/-! ### Closed buffers in the slot -/

section Open

variable {cfg : Config} {s t : State} {l : Label} {c p : ℕ} {sess : Session}

/-- A FIN watcher is about a session that has been in the slot. -/
def FinsCommitted (s : State) : Prop :=
  ∀ c p, .finClosed c p ∈ s.trace → Committed p s.trace

theorem reachable_finsCommitted (hreach : Reachable (step cfg) .init s) : FinsCommitted s := by
  refine hreach.invariant_of ?_ ?_
  · intro c p hmem
    exact absurd hmem (by simp [State.init])
  · intro s t l hreach hinv hstep c p hmem
    have hstream := step_streamEffect hstep
    rcases step_finClosed hstep hmem with hold | ⟨-, -, hstreamed⟩
    · exact hstream.committed (hinv c p hold)
    · have hhandled := Phase.handled_of_streamed hstreamed
      exact hstream.committed ((reachable_consumerInv hreach).handled c p hhandled).1

/-- A buffer in the slot is closed when a FIN watcher has closed it. -/
theorem finClosed_of_closed (hreach : Reachable (step cfg) .init s) (hcurrent : s.current = some p)
    (hsess : s.sessions p = some sess) (hclosed : sess.frameBuf.closed = true) :
    ∃ c, .finClosed c p ∈ s.trace := by
  rcases (reachable_consumerInv hreach).closed p sess hsess hclosed with hfin | ⟨c, htore⟩
  · exact hfin
  · cases (reachable_slotInv hreach).status p with
    | current _ _ _ htorn =>
      have hmem : (c, .close) ∈ tornBy p s.trace := mem_tornBy.mpr htore
      rw [htorn] at hmem
      exact absurd hmem List.not_mem_nil
    | outside hnot | tearing _ _ _ _ _ hnot | torn _ _ hnot => exact absurd hcurrent hnot

theorem finClose_closes (h : step cfg s (.finClose c) = some t)
    (hstreamed : (s.calls c).phase.streamed = some p) : t.current = s.current ∧
      ∃ sess, t.sessions p = some sess ∧ sess.frameBuf.closed = true := by
  cases step_move h with
  | finClose c q sess hq =>
    rw [hstreamed] at hq
    obtain rfl := Option.some.inj hq
    exact ⟨rfl, _, Function.update_self _ _ _, FrameBuffer.close_closed _⟩

/-- From a state whose slot has an open buffer, the step of a FIN watcher of that session is the
only one that leads to a closed one. -/
theorem currentOpen_step (hreach : Reachable (step cfg) .init s) (hopen : CurrentOpen s)
    (hstep : step cfg s l = some t) : CurrentOpen t ↔ ¬ ClosesCurrent s l := by
  constructor
  · rintro hopen' ⟨c, p, rfl, -, hstreamed, hcurrent⟩
    obtain ⟨hsame, sess, hsess, hclosed⟩ := finClose_closes hstep hstreamed
    rw [hopen' p sess (hsame.trans hcurrent) hsess] at hclosed
    exact absurd hclosed (by simp)
  · intro hnot p sess hcurrent hsess
    by_contra hclosed
    rw [Bool.not_eq_false] at hclosed
    obtain ⟨c, hfin⟩ := finClosed_of_closed (hreach.next hstep) hcurrent hsess hclosed
    have hslot := reachable_slotInv hreach
    rcases step_finClosed hstep hfin with hold | ⟨rfl, hwatcher, hstreamed⟩
    · -- The buffer was closed before, so the session was out of the slot and does not come back.
      have hout : s.current ≠ some p := by
        intro hin
        obtain ⟨-, sess₀, hsess₀, hclosed₀⟩ := (reachable_consumerInv hreach).finClosed c p hold
        rw [hopen p sess₀ hin hsess₀] at hclosed₀
        exact absurd hclosed₀ (by simp)
      have hcommitted := reachable_finsCommitted hreach c p hold
      exact (step_effect hslot.filled hstep).stays_out hslot hcommitted hout hcurrent
    · obtain ⟨hsame, -⟩ := finClose_closes hstep hstreamed
      exact hnot ⟨c, p, rfl, hwatcher, hstreamed, hsame ▸ hcurrent⟩

/-- A state in which no buffer has been closed in the slot. -/
def OpenSoFar (cfg : Config) (s : State) : Prop :=
  Reachable (step cfg) .init s ∧ CurrentOpen s

theorem openSoFar_init (cfg : Config) : OpenSoFar cfg .init := by
  refine ⟨⟨[], rfl⟩, ?_⟩
  intro p sess hcurrent
  exact absurd hcurrent (by simp [State.init])

theorem OpenSoFar.step_iff (h : OpenSoFar cfg s) :
    (∀ t, step cfg s l = some t → CurrentOpen t ∧ StartsOpen cfg s t) ↔ ¬ ClosesCurrent s l := by
  obtain ⟨hreach, hopen⟩ := h
  constructor
  · rintro hsound hcloses
    obtain ⟨c, p, rfl, hwatcher, hstreamed, hcurrent⟩ := id hcloses
    obtain ⟨sess, hsess⟩ := (reachable_slotInv hreach).filled p hcurrent
    have hstep : step cfg s (.finClose c) = some (finClose s c p sess) := by
      simp [step, Label.mover, stepHelper, hstreamed, hsess, hwatcher]
    exact (currentOpen_step hreach hopen hstep).mp (hsound _ hstep).1 hcloses
  · intro hnot t hstep
    have hopen' := (currentOpen_step hreach hopen hstep).mpr hnot
    refine ⟨hopen', ?_⟩
    intro c info hstarts hstarted
    obtain ⟨p, sess, hcurrent, hsess, hinfo⟩ := step_started hstep hstarts hstarted
    exact ⟨p, sess, hcurrent, hsess, hinfo, hopen' p sess hcurrent hsess⟩

/-- Along every run: the session in the slot has an open buffer in every state, and every `start`
is answered with such a session, exactly when no FIN watcher closes the buffer of a session that is
in the slot. -/
theorem current_open_iff (cfg : Config) (labels : List Label) :
    Along (step cfg) (fun s l ↦ ∀ t, step cfg s l = some t → CurrentOpen t ∧ StartsOpen cfg s t)
        .init labels ↔
      Along (step cfg) (fun s l ↦ ¬ ClosesCurrent s l) .init labels := by
  refine along_congr (fun h ↦ h.step_iff) ?_ (openSoFar_init cfg) labels
  rintro s t l ⟨hreach, -⟩ hsound hstep
  exact ⟨hreach.next hstep, (hsound t hstep).1⟩

/-- A session with two consumers. A second after the first of them has hung up, the same station is
started again. -/
def hungUpReuse : List Label :=
  twoConsumers ++ [.elapse 1000, .finClose 1, .call 3 (.start gate)]

/-- The `start` is answered with the session whose buffer is closed, and its TTL is refreshed. -/
theorem start_reuses_closed :
    ∃ s t sess, Reachable (step defaultConfig) .init s ∧ ¬ CurrentOpen s ∧
      (s.calls 3).phase = .calling (.start gate) ∧ step defaultConfig s (.enter 3) = some t ∧
      (t.calls 3).phase = .returned (.started (sess.info defaultConfig.ttlValue)) ∧
      t.current = some 0 ∧ t.sessions 0 = some sess ∧ sess.frameBuf.closed = true ∧
      sess.ttlDeadline = t.now + defaultConfig.ttlValue := by
  have hrun : ((exec (step defaultConfig) .init hungUpReuse).map fun s ↦
      ((s.calls 3).phase, s.current, (s.sessions 0).map fun sess ↦ sess.frameBuf.closed)) =
        some (.calling (.start gate), some 0, some true) := by
    decide
  have hnext : ((exec (step defaultConfig) .init (hungUpReuse ++ [.enter 3])).map fun t ↦
      (t.current, t.now, (t.sessions 0).map fun sess ↦
        (sess.frameBuf.closed, sess.ttlDeadline,
          decide ((t.calls 3).phase =
            .returned (.started (sess.info defaultConfig.ttlValue)))))) =
        some (some 0, 1000, some (true, 61000, true)) := by
    decide
  obtain ⟨s, hs, hview⟩ := Option.map_eq_some_iff.mp hrun
  obtain ⟨t, ht, hview'⟩ := Option.map_eq_some_iff.mp hnext
  simp only [Prod.mk.injEq, Option.map_eq_some_iff, decide_eq_true_eq] at hview hview'
  obtain ⟨hphase, hcurrent, sess₀, hsess₀, hclosed₀⟩ := hview
  obtain ⟨hcurrent', hnow, sess, hsess, hclosed, hdeadline, hanswer⟩ := hview'
  obtain ⟨u, hu, hstep⟩ := exec_snoc_eq_some.mp ht
  obtain rfl : s = u := Option.some.inj (hs.symm.trans hu)
  refine ⟨s, t, sess, ⟨_, hs⟩, ?_, hphase, hstep, hanswer, hcurrent', hsess, hclosed, ?_⟩
  · intro hopen
    rw [hopen 0 sess₀ hcurrent hsess₀] at hclosed₀
    exact absurd hclosed₀ (by simp)
  · rw [hdeadline, hnow]
    rfl

end Open

end DoorAccess.Video.Manager
