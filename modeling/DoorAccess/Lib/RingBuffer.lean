import Mathlib.Data.List.DropRight

/-!
# A ring buffer that overwrites its oldest cell

Values are written at a head that goes round a fixed number of cells. `Holds` says where the values
written so far are to be found: the value of the write number `j` in the cell `j % n` while it is
among the last `n`, and the blank in the cells that have not been reached yet. So the cells are the
last `n` values written, in some order, and perhaps blanks (`Holds.mem_iff`).
-/

set_option autoImplicit false
set_option relaxedAutoImplicit false

/-- A ring of `n` cells with the position of the next write. -/
structure RingBuffer (α : Type*) (n : ℕ) where
  cells : Vector α n
  head : ℕ
  bound : head < n

namespace RingBuffer

variable {α : Type*} {n : ℕ}

/-- A ring of blanks. -/
def empty (blank : α) (h : 0 < n) : RingBuffer α n := ⟨Vector.replicate n blank, 0, h⟩

/-- A write at the head, which moves on. -/
def push (r : RingBuffer α n) (v : α) : RingBuffer α n :=
  ⟨r.cells.set r.head v r.bound, (r.head + 1) % n, Nat.mod_lt _ (Nat.zero_lt_of_lt r.bound)⟩

/-- The ring holds the last values of the history, and the blank where none has come yet. -/
structure Holds (blank : α) (history : List α) (r : RingBuffer α n) : Prop where
  head : r.head = history.length % n
  recent : ∀ j v, history[j]? = some v → history.length ≤ j + n → r.cells[j % n]? = some v
  unset : ∀ i, history.length ≤ i → i < n → r.cells[i]? = some blank

variable {blank v w : α} {history : List α} {r : RingBuffer α n} {i j : ℕ}

theorem push_cells (r : RingBuffer α n) (v : α) (i : ℕ) :
    (r.push v).cells[i]? = if r.head = i then some v else r.cells[i]? := by
  rw [push, Vector.getElem?_set]

theorem holds_empty (blank : α) (h : 0 < n) : Holds blank [] (empty blank h) where
  head := (Nat.zero_mod n).symm
  recent j v hj := absurd hj (by simp)
  unset i _ hi := by simp [empty, hi]

/-- Two numbers that are less than `n` apart have different remainders. -/
theorem mod_ne_mod (hlt : i < j) (hclose : j < i + n) : j % n ≠ i % n := by
  intro heq
  have hzero : (j - i) % n = 0 := Nat.sub_mod_eq_zero_of_mod_eq heq
  rw [Nat.mod_eq_of_lt (by omega)] at hzero
  omega

/-- A write appends to the history. -/
theorem Holds.push (h : Holds blank history r) (v : α) :
    Holds blank (history ++ [v]) (r.push v) where
  head := by
    have hhead : (r.push v).head = (r.head + 1) % n := rfl
    rw [hhead, h.head, List.length_append, List.length_singleton, Nat.mod_add_mod]
  recent j w hj hrecent := by
    rw [List.length_append, List.length_singleton] at hrecent
    rw [push_cells, h.head]
    by_cases hlt : j < history.length
    · rw [List.getElem?_append_left hlt] at hj
      rw [if_neg (mod_ne_mod hlt (by omega))]
      exact h.recent j w hj (by omega)
    · have hlast : j = history.length := by
        have hbound := (List.getElem?_eq_some_iff.mp hj).1
        rw [List.length_append, List.length_singleton] at hbound
        omega
      rw [hlast, if_pos rfl]
      rw [hlast, List.getElem?_concat_length] at hj
      exact hj
  unset i hi hlt := by
    rw [List.length_append, List.length_singleton] at hi
    rw [push_cells, h.head, Nat.mod_eq_of_lt (by omega), if_neg (by omega)]
    exact h.unset i (by omega) hlt

/-- The cell of a number below the length of the history is that of one of its last `n`. -/
theorem exists_recent (hn : i < n) (hi : i < history.length) :
    ∃ j, j < history.length ∧ history.length ≤ j + n ∧ j % n = i := by
  have hn' : 0 < n := Nat.zero_lt_of_lt hn
  refine ⟨history.length - 1 - (history.length - 1 - i) % n, ?_, ?_, ?_⟩
  · omega
  · have hlt := Nat.mod_lt (history.length - 1 - i) hn'
    omega
  · have hsplit := Nat.div_add_mod (history.length - 1 - i) n
    have heq : history.length - 1 - (history.length - 1 - i) % n =
        i + n * ((history.length - 1 - i) / n) := by omega
    rw [heq, Nat.add_mul_mod_self_left, Nat.mod_eq_of_lt hn]

/-- The cells are the last `n` values of the history, and blanks. -/
theorem Holds.mem_iff (h : Holds blank history r) (hv : v ≠ blank) :
    v ∈ r.cells ↔ v ∈ history.rtake n := by
  constructor
  · intro hmem
    obtain ⟨i, hcell⟩ := Vector.mem_iff_getElem?.mp hmem
    have hn : i < n := (Vector.getElem?_eq_some_iff.mp hcell).1
    by_cases hi : i < history.length
    · obtain ⟨j, hj, hrecent, hmod⟩ := exists_recent hn hi
      obtain ⟨w, hw⟩ : ∃ w, history[j]? = some w := ⟨_, List.getElem?_eq_getElem hj⟩
      have hheld := h.recent j w hw hrecent
      rw [hmod, hcell, Option.some.injEq] at hheld
      rw [hheld, List.rtake, List.mem_iff_getElem?]
      refine ⟨j - (history.length - n), ?_⟩
      rw [List.getElem?_drop, Nat.add_sub_cancel' (by omega)]
      exact hw
    · rw [h.unset i (Nat.not_lt.mp hi) hn, Option.some.injEq] at hcell
      exact absurd hcell.symm hv
  · intro hmem
    rw [List.rtake, List.mem_iff_getElem?] at hmem
    obtain ⟨t, ht⟩ := hmem
    rw [List.getElem?_drop] at ht
    exact Vector.mem_of_getElem? (h.recent _ v ht (by omega))

end RingBuffer
