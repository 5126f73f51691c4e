import Mathlib.Data.List.Basic
import Mathlib.Data.List.Induction

/-!
# Runs of a labelled transition function

A system is a partial step function `step : σ → α → Option σ`: a label that is not enabled in a
state has no successor. `exec` runs a list of labels, `Reachable` collects the states of the runs
from a fixed start. Every interleaving of threads is one list of labels, so a statement about all
interleavings is a statement about all reachable states, and `Reachable.invariant` reduces it to the
start state and one step. `Reachable.invariant_of` is the same rule when the invariant of interest
needs another invariant along the way, and `exec_relation` carries a reflexive and transitive
relation between the two ends of a run. `Along.invariant` is the rule for the runs whose steps all
meet a condition, and `exec_iff_along` is for a property that a step may break: it holds at the end
of exactly those runs whose steps all meet a condition.
-/

set_option autoImplicit false
set_option relaxedAutoImplicit false

namespace Transition

variable {σ α : Type*}

/-- The state after a list of labels, `none` as soon as one of them is not enabled. -/
def exec (step : σ → α → Option σ) : σ → List α → Option σ
  | s, [] => some s
  | s, l :: ls => (step s l).bind fun t ↦ exec step t ls

/-- The states that some list of labels reaches from `start`. -/
def Reachable (step : σ → α → Option σ) (start s : σ) : Prop :=
  ∃ labels, exec step start labels = some s

variable {step : σ → α → Option σ} {start s t u : σ}

@[simp] theorem exec_nil : exec step s [] = some s := rfl

theorem exec_cons_eq_some {l : α} {ls : List α} :
    exec step s (l :: ls) = some u ↔ ∃ t, step s l = some t ∧ exec step t ls = some u := by
  simp only [exec, Option.bind_eq_some_iff]

theorem exec_append {first second : List α} :
    exec step s (first ++ second) = (exec step s first).bind fun t ↦ exec step t second := by
  induction first generalizing s with
  | nil => rfl
  | cons l ls ih =>
    simp only [List.cons_append, exec]
    cases step s l with
    | none => rfl
    | some t => exact ih

theorem exec_snoc_eq_some {l : α} {ls : List α} :
    exec step s (ls ++ [l]) = some u ↔ ∃ t, exec step s ls = some t ∧ step t l = some u := by
  rw [exec_append, Option.bind_eq_some_iff]
  constructor
  · rintro ⟨t, hrun, hlast⟩
    obtain ⟨v, hstep, hnil⟩ := exec_cons_eq_some.mp hlast
    rw [exec_nil, Option.some.injEq] at hnil
    exact ⟨t, hrun, hnil ▸ hstep⟩
  · rintro ⟨t, hrun, hstep⟩
    exact ⟨t, hrun, exec_cons_eq_some.mpr ⟨u, hstep, rfl⟩⟩

/-- A run that goes on with a label takes a step at its end. -/
theorem exists_step_of_exec {l : α} {ls : List α} (hrun : exec step s ls = some t)
    (hnext : (exec step s (ls ++ [l])).isSome = true) : ∃ u, step t l = some u := by
  obtain ⟨u, hu⟩ := Option.isSome_iff_exists.mp hnext
  obtain ⟨v, hv, hlast⟩ := exec_snoc_eq_some.mp hu
  exact ⟨u, Option.some.inj (hrun.symm.trans hv) ▸ hlast⟩

theorem Reachable.refl (step : σ → α → Option σ) (s : σ) : Reachable step s s :=
  ⟨[], rfl⟩

theorem Reachable.trans (h : Reachable step s t) (h' : Reachable step t u) :
    Reachable step s u := by
  obtain ⟨first, hfirst⟩ := h
  obtain ⟨second, hsecond⟩ := h'
  exact ⟨first ++ second, by rw [exec_append, hfirst, Option.bind_some, hsecond]⟩

theorem Reachable.next {l : α} (hreach : Reachable step start s) (hstep : step s l = some t) :
    Reachable step start t := by
  obtain ⟨labels, hrun⟩ := hreach
  exact ⟨labels ++ [l], exec_snoc_eq_some.mpr ⟨s, hrun, hstep⟩⟩

/-- Induction along a run: a property of the start state that every step from a reachable state
preserves holds of every reachable state. -/
theorem Reachable.invariant_of {inv : σ → Prop} (hstart : inv start)
    (hstep : ∀ {s t : σ} {l : α}, Reachable step start s → inv s → step s l = some t → inv t)
    (hreach : Reachable step start s) : inv s := by
  obtain ⟨labels, hrun⟩ := hreach
  induction labels using List.reverseRecOn generalizing s with
  | nil =>
    rw [exec_nil, Option.some.injEq] at hrun
    exact hrun ▸ hstart
  | append_singleton ls l ih =>
    obtain ⟨t, hleft, hlast⟩ := exec_snoc_eq_some.mp hrun
    exact hstep ⟨ls, hleft⟩ (ih hleft) hlast

/-- The invariant rule: a property of the start state that every step preserves holds of every
reachable state. -/
theorem Reachable.invariant {inv : σ → Prop} (hstart : inv start)
    (hstep : ∀ {s t : σ} {l : α}, inv s → step s l = some t → inv t)
    (hreach : Reachable step start s) : inv s :=
  hreach.invariant_of hstart fun _ hinv hlast ↦ hstep hinv hlast

/-- A reflexive and transitive relation that every step respects relates the two ends of every
run. -/
theorem exec_relation (rel : σ → σ → Prop) (hrefl : ∀ s, rel s s)
    (htrans : ∀ {s t u : σ}, rel s t → rel t u → rel s u)
    (hstep : ∀ {s t : σ} {l : α}, step s l = some t → rel s t) {labels : List α}
    (hrun : exec step s labels = some t) : rel s t := by
  induction labels generalizing s with
  | nil =>
    rw [exec_nil, Option.some.injEq] at hrun
    exact hrun ▸ hrefl s
  | cons l ls ih =>
    obtain ⟨v, hfirst, hrest⟩ := exec_cons_eq_some.mp hrun
    exact htrans (hstep hfirst) (ih hrest)

/-- Every step of a run meets a condition on the state before it and its label. -/
def Along (step : σ → α → Option σ) (cond : σ → α → Prop) : σ → List α → Prop
  | _, [] => True
  | s, l :: ls => cond s l ∧ ∀ t, step s l = some t → Along step cond t ls

instance Along.instDecidable {cond : σ → α → Prop} [∀ s l, Decidable (cond s l)] :
    (s : σ) → (ls : List α) → Decidable (Along step cond s ls)
  | _, [] => .isTrue trivial
  | s, l :: ls =>
    match h : step s l with
    | none => decidable_of_iff (cond s l) (by simp [Along, h])
    | some t =>
      have : Decidable (Along step cond t ls) := Along.instDecidable t ls
      decidable_of_iff (cond s l ∧ Along step cond t ls) (by simp [Along, h])

/-- A condition that the labels of a run meet in every state. -/
theorem along_of_labels {cond : σ → α → Prop} {labels : List α}
    (h : ∀ l ∈ labels, ∀ s, cond s l) : Along step cond s labels := by
  induction labels generalizing s with
  | nil => trivial
  | cons l ls ih =>
    exact ⟨h l List.mem_cons_self s, fun t _ ↦ ih fun k hk ↦ h k (List.mem_cons_of_mem l hk)⟩

theorem Along.and {cond cond' : σ → α → Prop} {labels : List α} (h : Along step cond s labels)
    (h' : Along step cond' s labels) : Along step (fun s l ↦ cond s l ∧ cond' s l) s labels := by
  induction labels generalizing s with
  | nil => trivial
  | cons l ls ih => exact ⟨⟨h.1, h'.1⟩, fun t hstep ↦ ih (h.2 t hstep) (h'.2 t hstep)⟩

/-- The condition holds along the rest of a run. -/
theorem Along.of_append {cond : σ → α → Prop} {first second : List α}
    (h : Along step cond s (first ++ second)) (hrun : exec step s first = some t) :
    Along step cond t second := by
  induction first generalizing s with
  | nil =>
    rw [exec_nil, Option.some.injEq] at hrun
    exact hrun ▸ h
  | cons l ls ih =>
    obtain ⟨v, hfirst, hrest⟩ := exec_cons_eq_some.mp hrun
    exact ih (h.2 v hfirst) hrest

/-- A condition that holds along two runs in a row. -/
theorem Along.append {cond : σ → α → Prop} {first second : List α} (h : Along step cond s first)
    (h' : ∀ t, exec step s first = some t → Along step cond t second) :
    Along step cond s (first ++ second) := by
  induction first generalizing s with
  | nil => exact h' s rfl
  | cons l ls ih =>
    refine ⟨h.1, fun t hstep ↦ ih (h.2 t hstep) ?_⟩
    intro u hrun
    exact h' u (exec_cons_eq_some.mpr ⟨t, hstep, hrun⟩)

/-- The invariant rule for the runs whose steps all meet a condition. -/
theorem Along.invariant {inv : σ → Prop} {cond : σ → α → Prop}
    (hstep : ∀ {s t : σ} {l : α}, inv s → cond s l → step s l = some t → inv t) {labels : List α}
    (halong : Along step cond s labels) (hstart : inv s) (hrun : exec step s labels = some t) :
    inv t := by
  induction labels generalizing s with
  | nil =>
    rw [exec_nil, Option.some.injEq] at hrun
    exact hrun ▸ hstart
  | cons l ls ih =>
    obtain ⟨v, hfirst, hrest⟩ := exec_cons_eq_some.mp hrun
    exact ih (halong.2 v hfirst) (hstep hstart halong.1 hfirst) hrest

/-- Two conditions that say the same in every state in which the run can be while it meets the
first. -/
theorem along_congr {inv : σ → Prop} {cond cond' : σ → α → Prop}
    (hiff : ∀ {s : σ} {l : α}, inv s → (cond s l ↔ cond' s l))
    (hinv : ∀ {s t : σ} {l : α}, inv s → cond s l → step s l = some t → inv t) (hstart : inv s)
    (labels : List α) : Along step cond s labels ↔ Along step cond' s labels := by
  induction labels generalizing s with
  | nil => exact Iff.rfl
  | cons l ls ih =>
    constructor
    · rintro ⟨hcond, hrest⟩
      refine ⟨(hiff hstart).mp hcond, fun t hstep ↦ ?_⟩
      exact (ih (hinv hstart hcond hstep)).mp (hrest t hstep)
    · rintro ⟨hcond', hrest⟩
      have hcond := (hiff hstart).mpr hcond'
      refine ⟨hcond, fun t hstep ↦ ?_⟩
      exact (ih (hinv hstart hcond hstep)).mpr (hrest t hstep)

/-- A property that each step keeps exactly when the step meets a condition holds at the end of a
run exactly when it held at the start and all steps met the condition. -/
theorem exec_iff_along {inv good : σ → Prop} {cond : σ → α → Prop}
    (hinv : ∀ {s t : σ} {l : α}, inv s → step s l = some t → inv t)
    (hgood : ∀ {s t : σ} {l : α}, inv s → step s l = some t → (good t ↔ good s ∧ cond s l))
    {labels : List α} (hstart : inv s) (hrun : exec step s labels = some t) :
    good t ↔ good s ∧ Along step cond s labels := by
  induction labels generalizing s with
  | nil =>
    rw [exec_nil, Option.some.injEq] at hrun
    simp only [hrun, Along, and_true]
  | cons l ls ih =>
    obtain ⟨v, hfirst, hrest⟩ := exec_cons_eq_some.mp hrun
    rw [ih (hinv hstart hfirst) hrest, hgood hstart hfirst, and_assoc]
    simp only [Along, hfirst, Option.some.injEq, forall_eq']

end Transition
