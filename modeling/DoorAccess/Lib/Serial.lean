import Mathlib.Data.Int.Order.Basic
import Mathlib.Data.UInt

/-!
# Serial number arithmetic with 16 bits

The signed distance between two 16-bit serial numbers, as the difference modulo `2^16` read in two's
complement. It is the true distance as long as that stays below `2^15`, however often the numbers
have wrapped.
-/

set_option autoImplicit false
set_option relaxedAutoImplicit false

namespace Serial

/-- The distance from `b` to `a`: `a - b` modulo `2^16`, read as a signed number. -/
def diff (a b : UInt16) : ℤ :=
  if (a - b).toNat < 2 ^ 15 then (a - b).toNat else (a - b).toNat - 2 ^ 16

/-- The number that follows `start` after `n` steps. -/
def number (start : UInt16) (n : ℕ) : UInt16 :=
  start + UInt16.ofNat n

theorem number_succ (start : UInt16) (n : ℕ) : number start (n + 1) = number start n + 1 := by
  rw [number, number, UInt16.add_assoc, ← UInt16.ofNat_one, ← UInt16.ofNat_add]

@[simp] theorem number_zero (start : UInt16) : number start 0 = start :=
  UInt16.add_zero start

theorem toNat_number_sub (start : UInt16) {m n : ℕ} (h : m ≤ n) :
    (number start n - number start m).toNat = (n - m) % 2 ^ 16 := by
  simp only [number, UInt16.toNat_sub, UInt16.toNat_add, UInt16.toNat_ofNat']
  omega

/-- Where the numbering starts does not matter to a distance. -/
theorem diff_number_start (start : UInt16) (m n : ℕ) :
    diff (number start m) (number start n) = diff (number 0 m) (number 0 n) := by
  have hsub : number start m - number start n = number 0 m - number 0 n := by
    rw [number, number, number, number, UInt16.zero_add, UInt16.zero_add]
    exact add_sub_add_left_eq_sub _ _ start
  rw [diff, diff, hsub]

/-- Going forward: the distance is the number of steps modulo `2^16` while that is positive. -/
theorem diff_number (start : UInt16) {m n : ℕ} (h : m ≤ n) (hsmall : (n - m) % 2 ^ 16 < 2 ^ 15) :
    diff (number start n) (number start m) = ((n - m) % 2 ^ 16 : ℕ) := by
  rw [diff, toNat_number_sub start h, if_pos hsmall]

@[simp] theorem diff_succ (b : UInt16) : diff (b + 1) b = 1 := by
  have h := diff_number b (Nat.zero_le 1) (by decide)
  rwa [number_succ, number_zero] at h

@[simp] theorem diff_succ_succ (b : UInt16) : diff (b + 1 + 1) b = 2 := by
  have h := diff_number b (Nat.zero_le 2) (by decide)
  rwa [number_succ, number_succ, number_zero] at h

@[simp] theorem diff_self (b : UInt16) : diff b b = 0 := by
  have h := diff_number b (Nat.le_refl 0) (by decide)
  rwa [number_zero] at h

@[simp] theorem diff_pred (b : UInt16) : diff b (b + 1) = -1 := by
  have hsub : (b - (b + 1)).toNat = 65535 := by
    have hb := b.toNat_lt
    simp only [UInt16.toNat_sub, UInt16.toNat_add, UInt16.toNat_one]
    omega
  rw [diff, hsub]
  decide

end Serial
