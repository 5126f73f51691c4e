import DoorAccess.Listen.Subscribe
import Mathlib.Data.List.Nodup

/-!
# What a cancel removes

The cancel closure removes the first open entry with its id. When an id has been given out again
that entry may belong to another subscription; a subscription cancels twice, explicitly and when it
is dropped, so that its own entry is gone all the same as long as no more than one other
subscription has drawn its id (`not_mem_of_two_cancels`). What is proved here does not ask whether
the ids have wrapped around.
-/

set_option autoImplicit false
set_option relaxedAutoImplicit false

namespace DoorAccess.Listen18022

open Transition

variable {ids : ℕ} {r s t u v w : State} {k : ℕ} {l : Label}
  {before labels labels' : List Label}

/-! ### The entries of the list -/

/-- What holds of the list in every run: an entry is that of its subscription, which has been
registered, and no subscription has two. -/
structure Listed (s : State) : Prop where
  entries : ∀ e ∈ s.subs, e = s.entry e.tx
  registered : ∀ e ∈ s.subs, (s.registeredAt e.tx).isSome
  lt_drawn : ∀ j, (s.registeredAt j).isSome → j < s.drawn
  nodup : (s.subs.map SubEntry.tx).Nodup

theorem listed_init : Listed .init where
  entries := fun _ he ↦ absurd he List.not_mem_nil
  registered := fun _ he ↦ absurd he List.not_mem_nil
  lt_drawn := fun _ hj ↦ absurd hj Bool.false_ne_true
  nodup := List.nodup_nil

theorem Subscription.visit_filter (e : SubEntry) (frame : DetectedFrame) (sub : Subscription) :
    (Subscription.visit e frame sub).filter = sub.filter ∧
      (Subscription.visit e frame sub).id = sub.id := by
  unfold Subscription.visit
  split_ifs
  · exact ⟨rfl, rfl⟩
  · split
    · exact ⟨(sub.trySend_filter frame).1, (sub.trySend_filter frame).2.1⟩
    · exact ⟨rfl, rfl⟩

namespace Listed

theorem sublist (h : Listed s) (id : ℕ) :
    (∀ e ∈ removeSub s.subs id, e ∈ s.subs) ∧
      ((removeSub s.subs id).map SubEntry.tx).Nodup :=
  ⟨fun _ he ↦ List.mem_of_mem_eraseP he, h.nodup.sublist (List.eraseP_sublist.map SubEntry.tx)⟩

/-- An update of one subscription that leaves its filter and its id. -/
theorem update (h : Listed s) {sub : Subscription} (hid : sub.id = (s.subscriptions k).id)
    (hfilter : sub.filter = (s.subscriptions k).filter) :
    Listed { s with subscriptions := Function.update s.subscriptions k sub } := by
  refine ⟨?_, h.registered, h.lt_drawn, h.nodup⟩
  intro e he
  rw [entry_update hid hfilter]
  exact h.entries e he

theorem register (h : Listed s) (hk : k < s.drawn) (hnew : s.registeredAt k = none) :
    Listed { s with
      subs := s.subs ++ [s.entry k]
      registeredAt := Function.update s.registeredAt k (some s.dispatched.length) } := by
  have hold : ∀ e ∈ s.subs, e.tx ≠ k := by
    rintro e he rfl
    have hregistered := h.registered e he
    rw [hnew] at hregistered
    exact absurd hregistered Bool.false_ne_true
  refine ⟨?_, ?_, ?_, ?_⟩
  · intro e he
    rcases List.mem_append.mp he with hmem | hlast
    · exact h.entries e hmem
    · obtain rfl := List.mem_singleton.mp hlast
      rfl
  · intro e he
    rcases List.mem_append.mp he with hmem | hlast
    · simp only [Function.update_of_ne (hold e hmem)]
      exact h.registered e hmem
    · obtain rfl := List.mem_singleton.mp hlast
      exact congrArg Option.isSome (Function.update_self k _ s.registeredAt)
  · intro j hj
    by_cases hjk : j = k
    · exact hjk ▸ hk
    · exact h.lt_drawn j (by simpa only [Function.update_of_ne hjk] using hj)
  · rw [List.map_append, List.nodup_append]
    refine ⟨h.nodup, List.pairwise_singleton _ _, ?_⟩
    rintro j hj j' hj' rfl
    obtain ⟨e, he, rfl⟩ := List.mem_map.mp hj
    exact hold e he (List.mem_singleton.mp hj')

end Listed

theorem step_listed (h : Listed s) (hstep : step ids s l = some t) : Listed t := by
  cases l with
  | draw filter =>
    obtain rfl := Option.some.inj hstep
    refine ⟨?_, h.registered, fun j hj ↦ Nat.lt_succ_of_lt (h.lt_drawn j hj), h.nodup⟩
    intro e he
    have hne : e.tx ≠ s.drawn := Nat.ne_of_lt (h.lt_drawn e.tx (h.registered e he))
    simp only [State.entry, Function.update_of_ne hne]
    exact h.entries e he
  | register k =>
    obtain ⟨hk, hnew, -, rfl⟩ := step_register hstep
    exact h.register hk hnew
  | cancel k =>
    obtain ⟨-, -, rfl⟩ := step_cancel hstep
    obtain ⟨hmem, hnodup⟩ := h.sublist (s.subscriptions k).id
    exact ⟨fun e he ↦ h.entries e (hmem e he), fun e he ↦ h.registered e (hmem e he), h.lt_drawn,
      hnodup⟩
  | free k =>
    obtain ⟨-, rfl⟩ := step_free hstep
    exact h.update rfl rfl
  | dispatch frame =>
    obtain ⟨-, rfl⟩ := step_dispatch hstep
    exact ⟨h.entries, h.registered, h.lt_drawn, h.nodup⟩
  | visit k frame =>
    obtain ⟨e, rest, -, -, rfl⟩ := step_visit hstep
    obtain ⟨hfilter, hid⟩ := Subscription.visit_filter e frame (s.subscriptions k)
    have hheld : Listed { s with dispatching := some (frame, rest) } :=
      ⟨h.entries, h.registered, h.lt_drawn, h.nodup⟩
    exact hheld.update hid hfilter
  | finish =>
    obtain ⟨-, rfl⟩ := step_finish hstep
    exact ⟨h.entries, h.registered, h.lt_drawn, h.nodup⟩
  | recv k =>
    obtain ⟨sub, hsub, rfl⟩ := step_recv hstep
    obtain ⟨frame, rest, -, -, rfl⟩ := recv_cases hsub
    exact h.update rfl rfl

theorem exec_listed (h : Listed s) (hrun : exec (step ids) s labels = some t) : Listed t :=
  exec_relation (fun s t ↦ Listed s → Listed t) (fun _ hs ↦ hs) (fun hst htu hs ↦ htu (hst hs))
    (fun hstep hs ↦ step_listed hs hstep) hrun h

/-! ### What stays -/

/-- The ids of the subscriptions do not change, and an entry that is gone does not come back. -/
structure Onward (s t : State) : Prop where
  drawn : s.drawn ≤ t.drawn
  id : ∀ j < s.drawn, (t.subscriptions j).id = (s.subscriptions j).id
  registered : ∀ j, (s.registeredAt j).isSome → (t.registeredAt j).isSome
  gone : ∀ j, (s.registeredAt j).isSome → j ∉ s.subs.map SubEntry.tx → j ∉ t.subs.map SubEntry.tx

theorem Onward.refl (s : State) : Onward s s :=
  ⟨Nat.le_refl _, fun _ _ ↦ rfl, fun _ hj ↦ hj, fun _ _ hj ↦ hj⟩

theorem Onward.trans (h : Onward s t) (h' : Onward t u) : Onward s u where
  drawn := h.drawn.trans h'.drawn
  id := fun j hj ↦ (h'.id j (hj.trans_le h.drawn)).trans (h.id j hj)
  registered := fun j hj ↦ h'.registered j (h.registered j hj)
  gone := fun j hj hgone ↦ h'.gone j (h.registered j hj) (h.gone j hj hgone)

/-- An update of one subscription that leaves its id. -/
theorem update_id {sub : Subscription} (hid : sub.id = (s.subscriptions k).id) (j : ℕ) :
    (Function.update s.subscriptions k sub j).id = (s.subscriptions j).id := by
  by_cases hjk : j = k
  · rw [hjk, Function.update_self]
    exact hid
  · rw [Function.update_of_ne hjk]

theorem step_onward (hstep : step ids s l = some t) : Onward s t := by
  cases l with
  | draw filter =>
    obtain rfl := Option.some.inj hstep
    refine ⟨Nat.le_succ _, ?_, fun _ hj ↦ hj, fun _ _ hj ↦ hj⟩
    intro j hj
    exact congrArg Subscription.id (Function.update_of_ne (Nat.ne_of_lt hj) _ _)
  | register k =>
    obtain ⟨-, hnew, -, rfl⟩ := step_register hstep
    have hne : ∀ j, (s.registeredAt j).isSome → j ≠ k := by
      rintro j hj rfl
      rw [hnew] at hj
      exact absurd hj Bool.false_ne_true
    refine ⟨Nat.le_refl _, fun _ _ ↦ rfl, ?_, ?_⟩
    · intro j hj
      simpa only [Function.update_of_ne (hne j hj)] using hj
    · intro j hj hgone
      rw [List.map_append, List.mem_append]
      rintro (hmem | hlast)
      · exact hgone hmem
      · exact hne j hj (List.mem_singleton.mp hlast)
  | cancel k =>
    obtain ⟨-, -, rfl⟩ := step_cancel hstep
    refine ⟨Nat.le_refl _, fun _ _ ↦ rfl, fun _ hj ↦ hj, ?_⟩
    intro j _ hgone hmem
    exact hgone ((List.eraseP_sublist.map SubEntry.tx).subset hmem)
  | free k =>
    obtain ⟨-, rfl⟩ := step_free hstep
    exact ⟨Nat.le_refl _, fun j _ ↦ update_id (by rfl) j, fun _ hj ↦ hj, fun _ _ hj ↦ hj⟩
  | dispatch frame =>
    obtain ⟨-, rfl⟩ := step_dispatch hstep
    exact ⟨Nat.le_refl _, fun _ _ ↦ rfl, fun _ hj ↦ hj, fun _ _ hj ↦ hj⟩
  | visit k frame =>
    obtain ⟨e, rest, -, -, rfl⟩ := step_visit hstep
    have hid := (Subscription.visit_filter e frame (s.subscriptions k)).2
    exact ⟨Nat.le_refl _, fun j _ ↦ update_id hid j, fun _ hj ↦ hj, fun _ _ hj ↦ hj⟩
  | finish =>
    obtain ⟨-, rfl⟩ := step_finish hstep
    exact ⟨Nat.le_refl _, fun _ _ ↦ rfl, fun _ hj ↦ hj, fun _ _ hj ↦ hj⟩
  | recv k =>
    obtain ⟨sub, hsub, rfl⟩ := step_recv hstep
    obtain ⟨frame, rest, -, -, rfl⟩ := recv_cases hsub
    exact ⟨Nat.le_refl _, fun j _ ↦ update_id (by rfl) j, fun _ hj ↦ hj, fun _ _ hj ↦ hj⟩

theorem exec_onward (hrun : exec (step ids) s labels = some t) : Onward s t :=
  exec_relation Onward Onward.refl Onward.trans step_onward hrun

/-! ### Who is ahead -/

/-- Of a part of a list, what stands in front of a key stands in front of it in the whole. -/
theorem mem_takeWhile_of_sublist {part whole : List SubEntry} {e : SubEntry}
    (h : part.Sublist whole) (hnodup : (whole.map SubEntry.tx).Nodup)
    (hk : k ∈ part.map SubEntry.tx) (he : e ∈ part.takeWhile fun e ↦ e.tx ≠ k) :
    e ∈ whole.takeWhile fun e ↦ e.tx ≠ k := by
  induction h with
  | slnil => exact he
  | cons a hsub ih =>
    rw [List.map_cons, List.nodup_cons] at hnodup
    have hne : a.tx ≠ k := by
      rintro rfl
      exact hnodup.1 ((hsub.map SubEntry.tx).subset hk)
    rw [List.takeWhile_cons, if_pos (decide_eq_true hne)]
    exact List.mem_cons_of_mem a (ih hnodup.2 hk he)
  | cons_cons a hsub ih =>
    rw [List.map_cons, List.nodup_cons] at hnodup
    by_cases hne : a.tx ≠ k
    · rw [List.takeWhile_cons, if_pos (decide_eq_true hne), List.mem_cons] at he ⊢
      rw [List.map_cons, List.mem_cons] at hk
      exact he.imp_right fun he' ↦ ih hnodup.2 (hk.resolve_left fun heq ↦ hne heq.symm) he'
    · rw [List.takeWhile_cons, if_neg (by simpa using hne)] at he
      exact absurd he List.not_mem_nil

/-- The entries in front of that of a subscription. -/
def State.ahead (s : State) (k : ℕ) : List SubEntry :=
  s.subs.takeWhile fun e ↦ e.tx ≠ k

/-- No entry gets in front of one that is in the list. -/
theorem step_ahead (h : Listed s) (hstep : step ids s l = some t)
    (hregistered : (s.registeredAt k).isSome) (hk : k ∈ t.subs.map SubEntry.tx) {e : SubEntry}
    (he : e ∈ t.ahead k) : e ∈ s.ahead k := by
  cases l with
  | draw filter =>
    obtain rfl := Option.some.inj hstep
    exact he
  | register j =>
    obtain ⟨-, hnew, -, rfl⟩ := step_register hstep
    have hne : k ≠ j := by
      rintro rfl
      rw [hnew] at hregistered
      exact absurd hregistered Bool.false_ne_true
    rw [List.map_append, List.mem_append] at hk
    have hmem : k ∈ s.subs.map SubEntry.tx :=
      hk.resolve_right fun hlast ↦ hne (List.mem_singleton.mp hlast)
    obtain ⟨own, hown, htx⟩ := List.mem_map.mp hmem
    have hstops : (s.subs.takeWhile fun e ↦ e.tx ≠ k).length ≠ s.subs.length := by
      intro hlength
      have hall : s.ahead k = s.subs := (List.takeWhile_prefix _).eq_of_length hlength
      have hmem : own ∈ s.ahead k := hall ▸ hown
      exact of_decide_eq_true (List.all_eq_true.mp List.all_takeWhile own hmem) htx
    simp only [State.ahead] at he ⊢
    rwa [List.takeWhile_append, if_neg hstops] at he
  | cancel j =>
    obtain ⟨-, -, rfl⟩ := step_cancel hstep
    exact mem_takeWhile_of_sublist List.eraseP_sublist h.nodup hk he
  | free j =>
    obtain ⟨-, rfl⟩ := step_free hstep
    exact he
  | dispatch frame =>
    obtain ⟨-, rfl⟩ := step_dispatch hstep
    exact he
  | visit j frame =>
    obtain ⟨e, rest, -, -, rfl⟩ := step_visit hstep
    exact he
  | finish =>
    obtain ⟨-, rfl⟩ := step_finish hstep
    exact he
  | recv j =>
    obtain ⟨sub, hsub, rfl⟩ := step_recv hstep
    obtain ⟨frame, rest, -, -, rfl⟩ := recv_cases hsub
    exact he

theorem exec_ahead (h : Listed s) (hrun : exec (step ids) s labels = some t)
    (hregistered : (s.registeredAt k).isSome) (hk : k ∈ t.subs.map SubEntry.tx) {e : SubEntry}
    (he : e ∈ t.ahead k) : e ∈ s.ahead k := by
  induction labels generalizing s with
  | nil =>
    obtain rfl := Option.some.inj hrun
    exact he
  | cons l labels ih =>
    obtain ⟨u, hstep, hrest⟩ := exec_cons_eq_some.mp hrun
    have hu : (u.registeredAt k).isSome := (step_onward hstep).registered k hregistered
    have hmem : k ∈ u.subs.map SubEntry.tx := by
      by_contra hgone
      exact (exec_onward hrest).gone k hu hgone hk
    exact step_ahead h hstep hregistered hmem (ih (step_listed h hstep) hrest hu)

/-! ### Two cancels -/

/-- In front of the entry of a subscription at most one other has its id. -/
def State.SharedOnce (s : State) (k : ℕ) : Prop :=
  ∃ other, ∀ e ∈ s.ahead k, e.id = (s.subscriptions k).id → e.tx = other

/-- A cancel removes the entry of its subscription or one with the same id in front of it. -/
theorem Listed.cancel_cases (h : Listed s) (hstep : step ids s (.cancel k) = some t) :
    k ∉ t.subs.map SubEntry.tx ∨ ∃ e ∈ s.ahead k, e.id = (s.subscriptions k).id ∧
      e.tx ∉ t.subs.map SubEntry.tx := by
  obtain ⟨-, -, rfl⟩ := step_cancel hstep
  have hcases := List.exists_or_eq_self_of_eraseP
    (fun e : SubEntry ↦ e.id == (s.subscriptions k).id && !e.closed) s.subs
  rcases hcases with hsame | ⟨e, front, back, hfront, hid, hsplit, herase⟩
  · left
    intro hmem
    have hremoved : removeSub s.subs (s.subscriptions k).id = s.subs := hsame
    simp only [hremoved] at hmem
    obtain ⟨e, he, rfl⟩ := List.mem_map.mp hmem
    have hnone := List.eraseP_eq_self_iff.mp hsame e he
    rw [h.entries e he] at hnone
    simp [State.entry] at hnone
  · have hsubs : removeSub s.subs (s.subscriptions k).id = front ++ back := herase
    have hgone : e.tx ∉ (front ++ back).map SubEntry.tx := by
      have hnodup := h.nodup
      rw [hsplit, List.map_append, List.map_cons, List.nodup_middle] at hnodup
      rw [List.map_append]
      exact (List.nodup_cons.mp hnodup).1
    simp only [hsubs]
    by_cases hk : e.tx = k
    · exact Or.inl (hk ▸ hgone)
    · refine Or.inr ⟨e, ?_, ?_, hgone⟩
      · -- The own entry would have been taken, so it is not in front.
        have hahead : ∀ e' ∈ front, decide (e'.tx ≠ k) = true := by
          intro e' he'
          refine decide_eq_true ?_
          rintro rfl
          have hown := hfront e' he'
          rw [h.entries e' (hsplit ▸ List.mem_append_left _ he')] at hown
          simp [State.entry] at hown
        rw [State.ahead, hsplit, List.takeWhile_append_of_pos hahead,
          List.takeWhile_cons,
          if_pos (decide_eq_true hk)]
        exact List.mem_append_right front List.mem_cons_self
      · rw [Bool.and_eq_true, beq_iff_eq] at hid
        exact hid.1

/-- A subscription that has cancelled twice is not in the list, when at most one entry with its id
was in front of its own at some time before. -/
theorem not_mem_of_two_cancels (h : Listed r) (hregistered : (r.registeredAt k).isSome)
    (hshared : r.SharedOnce k) (hbefore : exec (step ids) r before = some s)
    (hfirst : step ids s (.cancel k) = some t) (hbetween : exec (step ids) t labels = some u)
    (hsecond : step ids u (.cancel k) = some v) (hafter : exec (step ids) v labels' = some w) :
    k ∉ w.subs.map SubEntry.tx := by
  have hs : Listed s := exec_listed h hbefore
  have hlisted : Listed u := exec_listed (step_listed hs hfirst) hbetween
  have hrs : Onward r s := exec_onward hbefore
  have htu : Onward t u := exec_onward hbetween
  have huw : Onward u w := (step_onward hsecond).trans (exec_onward hafter)
  have hsu : Onward s u := (step_onward hfirst).trans htu
  have hlt : k < r.drawn := h.lt_drawn k hregistered
  have hthere : (s.registeredAt k).isSome := hrs.registered k hregistered
  rcases hs.cancel_cases hfirst with hgone | ⟨e, he, hid, hgone⟩
  · exact (htu.trans huw).gone k ((step_onward hfirst).registered k hthere) hgone
  · rcases hlisted.cancel_cases hsecond with hgone' | ⟨e', he', hid', -⟩
    · exact (exec_onward hafter).gone k
        ((hsu.trans (step_onward hsecond)).registered k hthere) hgone'
    · -- Both cancels took out one in front with this id, and there is but one such.
      intro hk
      have hku : k ∈ u.subs.map SubEntry.tx := by
        by_contra hnot
        exact huw.gone k (hsu.registered k hthere) hnot hk
      have hks : k ∈ s.subs.map SubEntry.tx := by
        by_contra hnot
        exact hsu.gone k hthere hnot hku
      obtain ⟨other, hother⟩ := hshared
      have hfront : e ∈ r.ahead k := exec_ahead h hbefore hregistered hks he
      have hbetweenAhead : e' ∈ t.ahead k :=
        exec_ahead (step_listed hs hfirst) hbetween ((step_onward hfirst).registered k hthere) hku
          he'
      have hkt : k ∈ t.subs.map SubEntry.tx := by
        by_contra hnot
        exact htu.gone k ((step_onward hfirst).registered k hthere) hnot hku
      have hfront' : e' ∈ r.ahead k :=
        exec_ahead h hbefore hregistered hks (step_ahead hs hfirst hthere hkt hbetweenAhead)
      have hj : e.tx = other := hother e hfront (hid.trans (hrs.id k hlt))
      have hj' : e'.tx = other :=
        hother e' hfront' (hid'.trans ((hrs.trans hsu).id k hlt))
      have hmem' : e'.tx ∈ u.subs.map SubEntry.tx :=
        List.mem_map_of_mem ((List.takeWhile_prefix _).sublist.subset he')
      have hmem : e.tx ∈ s.subs.map SubEntry.tx :=
        List.mem_map_of_mem ((List.takeWhile_prefix _).sublist.subset he)
      obtain ⟨own, hown, htx⟩ := List.mem_map.mp hmem
      have hregisteredOther : (s.registeredAt e.tx).isSome := htx ▸ hs.registered own hown
      refine htu.gone e.tx ((step_onward hfirst).registered e.tx hregisteredOther) hgone ?_
      rw [hj, ← hj']
      exact hmem'

end DoorAccess.Listen18022
