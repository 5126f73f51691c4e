import Mathlib.Logic.Basic

/-!
# Computations that may fail

What follows from the result of a computation in `Except`: of a chain of computations that went
on to its end, and of one that does not fail in a certain way.
-/

set_option autoImplicit false
set_option relaxedAutoImplicit false

namespace DoorAccess.Fallible

variable {E α β : Type} {x : Except E α}

/-! ### Success -/

theorem bind_eq_ok {f : α → Except E β} {b : β} :
    x >>= f = .ok b ↔ ∃ a, x = .ok a ∧ f a = .ok b := by
  cases x with
  | error e => simp [bind, Except.bind]
  | ok a => simp [bind, Except.bind]

theorem map_eq_ok {f : α → β} {b : β} : x.map f = .ok b ↔ ∃ a, x = .ok a ∧ f a = b := by
  cases x with
  | error e => simp [Except.map]
  | ok a => simp [Except.map]

theorem map_unit_eq_bind (x : Except E α) : (x.map fun _ ↦ ()) = x >>= fun _ ↦ .ok () := by
  cases x with
  | error e => rfl
  | ok a => rfl

theorem map_unit_eq_ok : (x.map fun _ ↦ ()) = .ok () ↔ ∃ a, x = .ok a := by
  rw [map_eq_ok]
  exact exists_congr fun _ ↦ and_iff_left rfl

theorem of_forM_ok {f : α → Except E PUnit} {l : List α} (h : l.forM f = .ok ()) :
    ∀ a ∈ l, f a = .ok () := by
  induction l with
  | nil => exact fun a hmem ↦ absurd hmem List.not_mem_nil
  | cons a l ih =>
    obtain ⟨u, hfirst, hrest⟩ := bind_eq_ok.mp h
    intro b hb
    rcases List.mem_cons.mp hb with rfl | hmem
    · exact hfirst
    · exact ih hrest b hmem

/-! ### Failure -/

theorem ok_ne_error {a : α} {e : E} : Except.ok a ≠ Except.error e := by
  intro h
  cases h

theorem bind_ne_error {f : α → Except E β} {e : E} (hx : x ≠ .error e)
    (hf : ∀ a, x = .ok a → f a ≠ .error e) : x >>= f ≠ .error e := by
  cases x with
  | error e' =>
    intro h
    exact hx (by simpa [bind, Except.bind] using h)
  | ok a => exact hf a rfl

theorem map_ne_error {f : α → β} {e : E} (hx : x ≠ .error e) : x.map f ≠ .error e := by
  cases x with
  | error e' => exact fun h ↦ hx (congrArg _ (Except.error.inj h))
  | ok a => exact ok_ne_error

end DoorAccess.Fallible
