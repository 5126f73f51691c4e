import DoorAccess.WireSender.Threads

/-!
# How soon a send is given up

The watcher of a send looks at the flag and at the clock every 20 ms, and a call that has its result
tells it to stop and joins it. `cancel_prompt` counts the steps of the watcher in every run of the
threads of `WireSender.Threads`: at most five until the socket is shut down, once there is a reason
to, and at most four until it can be joined, and until then it can always go on.
-/

set_option autoImplicit false
set_option relaxedAutoImplicit false

namespace DoorAccess.WireSender.Threads

open Transition

variable {cfg : Config} {s t u : State}

/-! ### What a step leaves alone -/

theorem connectStep_frame {phase : Phase} {answer : Answer}
    (h : connectStep cfg s phase answer = some t) : t = { s with fd := t.fd, main := t.main } := by
  unfold connectStep at h
  split at h <;> first | (cases Option.some.inj h; (try split_ifs) <;> rfl) | cases h

theorem exchangeStep_frame {phase : Phase} {answer : Answer} (hphase : phase ≠ .spawning)
    (h : exchangeStep cfg s phase answer = some t) : t = { s with main := t.main } := by
  unfold exchangeStep at h
  split at h
  case h_6 =>
    unfold readStep at h
    split at h
    · cases Option.some.inj h
      rfl
    · split_ifs at h
      cases Option.some.inj h
      rfl
  all_goals
    first
    | exact absurd rfl hphase
    | (cases Option.some.inj h; (try split_ifs) <;> rfl)
    | cases h

theorem dropStep_frame {phase : Phase} (h : dropStep s phase = some t) :
    t = { s with fd := t.fd, done := t.done, main := t.main } ∧
      (s.done = true → t.done = true) := by
  unfold dropStep at h
  split at h
  · split_ifs at h
    · cases Option.some.inj h
      exact ⟨rfl, id⟩
    · cases Option.some.inj h
      exact ⟨rfl, fun _ ↦ rfl⟩
  · split_ifs at h
    cases Option.some.inj h
    exact ⟨rfl, id⟩
  · cases h

/-- What the other steps do to a watcher that is born: nothing. -/
structure Aside (cfg : Config) (s t : State) : Prop where
  watcher : t.watcher = s.watcher
  shut : t.shut = s.shut
  copy : t.copy = s.copy
  done : s.done = true → t.done = true
  cancel : s.cancel = true → t.cancel = true
  now : s.now ≤ t.now

theorem Inv.aside (h : Inv cfg s) (hborn : s.watcher ≠ .unborn) {label : Label}
    (hlabel : label.isWatcher = false) (hstep : Threads.step cfg s label = some t) :
    Aside cfg s t := by
  cases label with
  | tick duration =>
    cases Option.some.inj hstep
    exact ⟨rfl, rfl, rfl, id, id, Nat.le_add_right _ _⟩
  | setCancel =>
    cases Option.some.inj hstep
    exact ⟨rfl, rfl, rfl, id, fun _ ↦ rfl, Nat.le_refl _⟩
  | deliver segment =>
    simp only [Threads.step] at hstep
    split_ifs at hstep
    cases Option.some.inj hstep
    exact ⟨rfl, rfl, rfl, id, id, Nat.le_refl _⟩
  | peerClose =>
    cases Option.some.inj hstep
    exact ⟨rfl, rfl, rfl, id, id, Nat.le_refl _⟩
  | main answer =>
    have hwatched := h.watched hborn
    have hphase : s.main ≠ .spawning := by
      intro hspawning
      rw [hspawning] at hwatched
      cases hwatched
    rcases Option.or_eq_some_iff.mp hstep with hstep | ⟨-, hstep⟩
    · rcases Option.or_eq_some_iff.mp hstep with hstep | ⟨-, hstep⟩
      · rw [connectStep_frame hstep]
        exact ⟨rfl, rfl, rfl, id, id, Nat.le_refl _⟩
      · rw [exchangeStep_frame hphase hstep]
        exact ⟨rfl, rfl, rfl, id, id, Nat.le_refl _⟩
    · obtain ⟨hframe, hdone⟩ := dropStep_frame hstep
      rw [hframe]
      exact ⟨rfl, rfl, rfl, hdone, id, Nat.le_refl _⟩
  | watcher => cases hlabel

/-! ### Counting the steps of the watcher -/

/-- The steps of the watcher until it shuts the socket down, once it has a reason. -/
def Watcher.toShut (cfg : Config) (s : State) : Watcher → ℕ
  | unborn | returned => 0
  | shutting => 1
  | checkCancel => if s.cancel then 2 else 3
  | checkDone => if s.cancel then 3 else 4
  | sleeping => if s.cancel then 4 else 5
  | checkClock => if cfg.deadline ≤ s.now then 2 else 5

theorem Watcher.toShut_le (watcher : Watcher) : watcher.toShut cfg s ≤ 5 := by
  cases watcher <;> simp only [Watcher.toShut] <;> (try split_ifs) <;> decide

/-- The steps of the watcher until it returns, once it has been told to. -/
def Watcher.toReturn : Watcher → ℕ
  | unborn | returned => 0
  | checkDone | shutting => 1
  | sleeping => 2
  | checkClock => 3
  | checkCancel => 4

theorem Watcher.toReturn_le (watcher : Watcher) : watcher.toReturn ≤ 4 := by
  cases watcher <;> decide

theorem Aside.over (h : Aside cfg s t) (hover : s.Over cfg) : t.Over cfg :=
  hover.imp h.cancel fun hdeadline ↦ Nat.le_trans hdeadline h.now

theorem Aside.toShut_le (h : Aside cfg s t) :
    t.watcher.toShut cfg t ≤ s.watcher.toShut cfg s := by
  have hcancel := h.cancel
  have hnow := h.now
  rw [h.watcher]
  cases s.watcher with
  | unborn | returned | shutting => exact Nat.le_refl _
  | checkCancel | checkDone | sleeping =>
    simp only [Watcher.toShut]
    split_ifs with ht hs hs
    · exact Nat.le_refl _
    · exact Nat.le_succ _
    · exact absurd (hcancel hs) ht
    · exact Nat.le_refl _
  | checkClock =>
    simp only [Watcher.toShut]
    split_ifs with ht hs hs
    · exact Nat.le_refl _
    · decide
    · omega
    · exact Nat.le_refl _

/-- A watcher with a reason comes closer to shutting the socket down with every step. -/
theorem toShut_watcherStep (hcopy : s.copy = true) (hdone : s.done = false) (hover : s.Over cfg)
    (hstep : watcherStep cfg s = some t) :
    t.shut = true ∨ t.copy = true ∧ t.watcher.toShut cfg t < s.watcher.toShut cfg s := by
  cases hwatcher : s.watcher with
  | unborn | returned =>
    simp only [watcherStep, hwatcher] at hstep
    cases hstep
  | checkDone =>
    simp only [watcherStep, hwatcher, hdone, Bool.false_eq_true, if_false] at hstep
    cases Option.some.inj hstep
    refine .inr ⟨hcopy, ?_⟩
    simp only [Watcher.toShut]
    split_ifs <;> decide
  | checkCancel =>
    simp only [watcherStep, hwatcher] at hstep
    cases Option.some.inj hstep
    refine .inr ⟨hcopy, ?_⟩
    by_cases hcancel : s.cancel = true
    · simp [Watcher.toShut, hcancel]
    · simp [Watcher.toShut, hcancel, hover.resolve_left hcancel]
  | checkClock =>
    simp only [watcherStep, hwatcher] at hstep
    cases Option.some.inj hstep
    refine .inr ⟨hcopy, ?_⟩
    by_cases hdeadline : cfg.deadline ≤ s.now
    · simp [Watcher.toShut, hdeadline]
    · simp [Watcher.toShut, hdeadline, hover.resolve_right hdeadline]
  | shutting =>
    simp only [watcherStep, hwatcher] at hstep
    cases Option.some.inj hstep
    exact .inl (by rw [hcopy, Bool.or_true])
  | sleeping =>
    simp only [watcherStep, hwatcher] at hstep
    cases Option.some.inj hstep
    refine .inr ⟨hcopy, ?_⟩
    simp only [Watcher.toShut]
    split_ifs <;> decide

theorem toReturn_watcherStep (hdone : s.done = true) (hstep : watcherStep cfg s = some t) :
    t.watcher.toReturn < s.watcher.toReturn := by
  cases hwatcher : s.watcher with
  | unborn | returned =>
    simp only [watcherStep, hwatcher] at hstep
    cases hstep
  | checkDone =>
    simp only [watcherStep, hwatcher, hdone, if_true] at hstep
    cases Option.some.inj hstep
    show Watcher.toReturn .returned < Watcher.toReturn .checkDone
    decide
  | checkCancel =>
    simp only [watcherStep, hwatcher] at hstep
    cases Option.some.inj hstep
    split_ifs <;> simp [Watcher.toReturn]
  | checkClock =>
    simp only [watcherStep, hwatcher] at hstep
    cases Option.some.inj hstep
    split_ifs <;> simp [Watcher.toReturn]
  | shutting =>
    simp only [watcherStep, hwatcher] at hstep
    cases Option.some.inj hstep
    show Watcher.toReturn .returned < Watcher.toReturn .shutting
    decide
  | sleeping =>
    simp only [watcherStep, hwatcher] at hstep
    cases Option.some.inj hstep
    show Watcher.toReturn .checkDone < Watcher.toReturn .sleeping
    decide

/-- How far a watcher with a reason is, after a number of its steps, of as many as it may take. -/
structure Shutting (cfg : Config) (most : ℕ) (s : State) (steps : ℕ) : Prop where
  reason : s.Over cfg
  born : s.watcher ≠ .unborn
  within : s.shut = true ∨ s.done = true ∨
    s.copy = true ∧ steps + s.watcher.toShut cfg s ≤ most

theorem Shutting.step {label : Label} {most steps : ℕ} (h : Shutting cfg most s steps)
    (hinv : Inv cfg s) (hstep : Threads.step cfg s label = some t) :
    Shutting cfg most t (steps + [label].countP Label.isWatcher) := by
  cases hlabel : label.isWatcher with
  | false =>
    have haside := hinv.aside h.born hlabel hstep
    have hle := haside.toShut_le
    have hcount : [label].countP Label.isWatcher = 0 := by simp [hlabel]
    refine ⟨haside.over h.reason, by rw [haside.watcher]; exact h.born, ?_⟩
    rw [haside.shut, haside.copy, hcount]
    refine h.within.imp_right fun hrest ↦ ?_
    exact hrest.imp haside.done fun ⟨hcopy, hsteps⟩ ↦ ⟨hcopy, by omega⟩
  | true =>
    cases label with
    | watcher =>
      obtain ⟨hframe, hshut, hborn⟩ := watcherStep_frame hstep
      have hover : t.Over cfg := by
        rw [hframe]
        exact h.reason
      have hdone : s.done = true → t.done = true := by
        rw [hframe]
        exact id
      refine ⟨hover, hborn, ?_⟩
      rcases h.within with h' | h' | ⟨hcopy, hsteps⟩
      · exact .inl (hshut h')
      · exact .inr (.inl (hdone h'))
      · cases hrunning : s.done with
        | true => exact .inr (.inl (hdone hrunning))
        | false =>
          have hcount : [Label.watcher].countP Label.isWatcher = 1 := rfl
          refine (toShut_watcherStep hcopy hrunning h.reason hstep).imp_right fun h' ↦ ?_
          exact .inr ⟨h'.1, by omega⟩
    | tick | setCancel | deliver | peerClose | main => cases hlabel

/-- How far a watcher that has been told to return is, after a number of its steps. -/
structure Returning (s : State) (steps : ℕ) : Prop where
  done : s.done = true
  born : s.watcher ≠ .unborn
  within : steps + s.watcher.toReturn ≤ 4

theorem Returning.step {label : Label} {steps : ℕ} (h : Returning s steps) (hinv : Inv cfg s)
    (hstep : Threads.step cfg s label = some t) :
    Returning t (steps + [label].countP Label.isWatcher) := by
  have hwithin := h.within
  cases hlabel : label.isWatcher with
  | false =>
    have haside := hinv.aside h.born hlabel hstep
    have hcount : [label].countP Label.isWatcher = 0 := by simp [hlabel]
    refine ⟨haside.done h.done, ?_, ?_⟩
    · rw [haside.watcher]
      exact h.born
    · rw [haside.watcher, hcount]
      exact h.within
  | true =>
    cases label with
    | watcher =>
      have hless := toReturn_watcherStep h.done hstep
      obtain ⟨hframe, -, hborn⟩ := watcherStep_frame hstep
      have hcount : [Label.watcher].countP Label.isWatcher = 1 := rfl
      refine ⟨?_, hborn, by omega⟩
      rw [hframe]
      exact h.done
    | tick | setCancel | deliver | peerClose | main => cases hlabel

/-- What is kept with every step, counted in those of the watcher, is kept along every run. -/
theorem along_watcher {inv : State → ℕ → Prop}
    (hnext : ∀ {s t : State} {label : Label} {steps : ℕ}, inv s steps → Inv cfg s →
      step cfg s label = some t → inv t (steps + [label].countP Label.isWatcher))
    {labels : List Label} {steps : ℕ} (h : inv s steps) (hinv : Inv cfg s)
    (hrun : exec (step cfg) s labels = some t) :
    inv t (steps + labels.countP Label.isWatcher) := by
  induction labels generalizing s steps with
  | nil =>
    cases Option.some.inj hrun
    exact h
  | cons label labels ih =>
    obtain ⟨u, hfirst, hrest⟩ := exec_cons_eq_some.mp hrun
    have hall := ih (hnext h hinv hfirst) (hinv.step hfirst) hrest
    rwa [Nat.add_assoc, ← List.countP_append] at hall

/-- A watcher that runs can go on. -/
theorem exists_watcherStep (hborn : s.watcher ≠ .unborn) (hrunning : s.watcher ≠ .returned) :
    ∃ t, step cfg s .watcher = some t := by
  show ∃ t, watcherStep cfg s = some t
  unfold watcherStep
  cases hwatcher : s.watcher with
  | unborn => exact absurd hwatcher hborn
  | returned => exact absurd hwatcher hrunning
  | checkDone | checkCancel | checkClock | shutting | sleeping => exact ⟨_, rfl⟩

/-- For every reachable state and every run from there. A watcher that has a copy of the socket and a
reason to shut it down has done so or been told to stop, or it can go on, and the steps that it has
taken and those that are left until it shuts the socket down are no more than five (four for one that
sleeps, three and two for one before its looks at `done` and at the flag, if the flag is set). A read
returns once the socket is shut down. When a call that has its result joins the watcher, the watcher
has returned or can go on, within four steps, and then the call returns. -/
theorem cancel_prompt {now : ℕ} {cancel : Bool}
    (h : Reachable (step cfg) (.start now cancel) s) :
    (s.copy = true → (s.cancel = true ∨ cfg.deadline ≤ s.now) →
      s.watcher.toShut cfg s ≤ 5 ∧ ∀ labels t, exec (step cfg) s labels = some t →
        t.shut = true ∨ t.done = true ∨ (∃ u, step cfg t .watcher = some u) ∧
          labels.countP Label.isWatcher + t.watcher.toShut cfg t ≤ s.watcher.toShut cfg s) ∧
    (s.main = .reading → s.shut = true → ∃ t, step cfg s (.main .ok) = some t) ∧
    (∀ outcome, s.main = .joining outcome →
      (∀ labels t, exec (step cfg) s labels = some t →
        t.watcher = .returned ∨ (∃ u, step cfg t .watcher = some u) ∧
          labels.countP Label.isWatcher + t.watcher.toReturn ≤ 4) ∧
      (s.watcher = .returned → ∀ answer, ∃ t,
        step cfg s (.main answer) = some t ∧ t.main = .returned outcome)) := by
  have hinv := Inv.of_reachable h
  refine ⟨fun hcopy hover ↦ ⟨s.watcher.toShut_le, fun labels t hrun ↦ ?_⟩, fun hmain hshut ↦ ?_,
    fun outcome hmain ↦ ?_⟩
  · have hstart : Shutting cfg (s.watcher.toShut cfg s) s 0 :=
      ⟨hover, (hinv.copy hcopy).1, .inr (.inr ⟨hcopy, by rw [Nat.zero_add]⟩)⟩
    have hend : Shutting cfg (s.watcher.toShut cfg s) t (0 + labels.countP Label.isWatcher) :=
      along_watcher Shutting.step hstart hinv hrun
    rcases hend.within with hshut | hdone | ⟨hcopy', hwithin⟩
    · exact .inl hshut
    · exact .inr (.inl hdone)
    · -- A watcher that still has its copy runs.
      obtain ⟨hborn, hrunning⟩ := (Inv.of_reachable (h.trans ⟨labels, hrun⟩)).copy hcopy'
      rw [Nat.zero_add] at hwithin
      exact .inr (.inr ⟨exists_watcherStep hborn hrunning, hwithin⟩)
  · refine Option.isSome_iff_exists.mp ?_
    show (mainStep cfg .ok s).isSome = true
    unfold mainStep
    rw [hmain]
    show ((readStep s).or none).isSome = true
    unfold readStep
    split
    · rfl
    · rw [hshut, Bool.or_true]
      rfl
  · obtain ⟨hdone, hborn⟩ := hinv.joining outcome hmain
    refine ⟨fun labels t hrun ↦ ?_, fun hreturned answer ↦ ?_⟩
    · have hstart : Returning s 0 := ⟨hdone, hborn, by simpa using s.watcher.toReturn_le⟩
      have hend : Returning t (0 + labels.countP Label.isWatcher) :=
        along_watcher Returning.step hstart hinv hrun
      have hwithin := hend.within
      rw [Nat.zero_add] at hwithin
      by_cases hreturned : t.watcher = .returned
      · exact .inl hreturned
      · exact .inr ⟨exists_watcherStep hend.born hreturned, hwithin⟩
    · refine ⟨{ s with fd := false, main := .returned outcome }, ?_, rfl⟩
      show mainStep cfg answer s = _
      unfold mainStep
      rw [hmain]
      show (none.or (dropStep s (.joining outcome))) = _
      rw [dropStep, if_pos hreturned]
      rfl

/-- The same call when its deadline passes while the watcher sleeps. -/
def readLate : State where
  now := 5000
  cancel := false
  delivered := []
  peerClosed := false
  shut := false
  fd := true
  copy := true
  done := false
  main := .reading
  watcher := .sleeping

theorem cancel_prompt_readLate :
    ∃ t, exec (step plainConfig) readLate (List.replicate 3 .watcher) = some t ∧
      (t.shut = true ∨ t.done = true ∨ (∃ u, step plainConfig t .watcher = some u) ∧
        3 + t.watcher.toShut plainConfig t ≤ 5) := by
  have hreach : Reachable (step plainConfig) (.start 0 false) readLate :=
    ⟨untilRead ++ [.watcher, .watcher, .watcher, .tick 5000], by decide +kernel⟩
  have hrun : exec (step plainConfig) readLate (List.replicate 3 .watcher) =
      some { readLate with watcher := .checkClock } := by decide +kernel
  exact ⟨_, hrun, ((cancel_prompt hreach).1 rfl (.inr (by decide))).2 _ _ hrun⟩

end DoorAccess.WireSender.Threads
