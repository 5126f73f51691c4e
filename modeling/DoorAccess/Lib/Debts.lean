import Mathlib.Data.List.Basic

/-!
# Debts in a log

A log is a list of events, the oldest first. Some events make a debt and others settle all debts
made before them. A log `Owes` when one of its events has made a debt that none behind it has
settled. `owes_append` says how a log that grows comes to owe: the new events owe, or the old ones
did and the new ones settle nothing. So an invariant of the form "whenever the log owes, somebody is
in charge" is carried over one step by looking at the events of that step.
-/

set_option autoImplicit false
set_option relaxedAutoImplicit false

namespace Debts

variable {α : Type*} {asks asks' settles settles' : α → Prop} {log more : List α}

/-- An event asks, and none behind it settles. -/
def Owes (asks settles : α → Prop) (log : List α) : Prop :=
  ∃ before e after, log = before ++ e :: after ∧ asks e ∧ ∀ e' ∈ after, ¬ settles e'

theorem not_owes_nil : ¬ Owes asks settles [] := by
  rintro ⟨before, e, after, hlog, -⟩
  exact absurd hlog (by simp)

/-- A log owes nothing when whatever asks is settled behind it. -/
theorem not_owes_iff :
    ¬ Owes asks settles log ↔
      ∀ before e after, log = before ++ e :: after → asks e → ∃ e' ∈ after, settles e' := by
  constructor
  · intro h before e after hlog hasks
    by_contra hnone
    refine h ⟨before, e, after, hlog, hasks, fun e' he' hsettles ↦ hnone ⟨e', he', hsettles⟩⟩
  · rintro h ⟨before, e, after, hlog, hasks, hnone⟩
    obtain ⟨e', he', hsettles⟩ := h before e after hlog hasks
    exact hnone e' he' hsettles

theorem Owes.exists_mem (h : Owes asks settles log) : ∃ e ∈ log, asks e := by
  obtain ⟨before, e, after, rfl, hasks, -⟩ := h
  exact ⟨e, by simp, hasks⟩

/-- Fewer events ask, or more settle. -/
theorem Owes.mono (h : Owes asks settles log) (hasks : ∀ e ∈ log, asks e → asks' e)
    (hsettles : ∀ e ∈ log, settles' e → settles e) : Owes asks' settles' log := by
  obtain ⟨before, e, after, rfl, he, hnone⟩ := h
  refine ⟨before, e, after, rfl, hasks e (by simp) he, fun e' he' hnew ↦ ?_⟩
  exact hnone e' he' (hsettles e' (by simp [he']) hnew)

/-- A log that has grown owes when the new events do, or when the old ones did and the new ones
settle nothing. -/
theorem owes_append :
    Owes asks settles (log ++ more) ↔
      Owes asks settles more ∨ Owes asks settles log ∧ ∀ e ∈ more, ¬ settles e := by
  constructor
  · rintro ⟨before, e, after, hlog, hasks, hnone⟩
    rcases List.append_eq_append_iff.mp hlog with ⟨first, rfl, hmore⟩ | ⟨second, hold, hafter⟩
    · exact Or.inl ⟨first, e, after, hmore, hasks, hnone⟩
    · cases second with
      | nil => exact Or.inl ⟨[], e, after, hafter.symm, hasks, hnone⟩
      | cons e' rest =>
        obtain ⟨rfl, hrest⟩ := List.cons.inj hafter
        refine Or.inr ⟨⟨before, e, rest, hold, hasks, fun d hd ↦ hnone d ?_⟩, fun d hd ↦ hnone d ?_⟩
        · rw [hrest]
          exact List.mem_append_left more hd
        · rw [hrest]
          exact List.mem_append_right rest hd
  · rintro (⟨before, e, after, rfl, hasks, hnone⟩ | ⟨⟨before, e, after, rfl, hasks, hnone⟩, hmore⟩)
    · exact ⟨log ++ before, e, after, by simp, hasks, hnone⟩
    · refine ⟨before, e, after ++ more, by simp, hasks, fun d hd ↦ ?_⟩
      rcases List.mem_append.mp hd with hd | hd
      · exact hnone d hd
      · exact hmore d hd

end Debts
