import DoorAccess.Codec
import DoorAccess.Lib.Radix
import DoorAccess.Lib.Utf8
import Mathlib.Data.List.Induction
import Mathlib.Tactic.Ring

/-!
# Decimal numbers

The digits that the parsers of the program look for, and the value they give to a text of them. The
decimal text of a number is made of such digits and has the number for its value.
-/

set_option autoImplicit false
set_option relaxedAutoImplicit false

namespace DoorAccess.Codec

/-! ### Digits -/

theorem isDigit_iff (c : UInt8) : isDigit c = true ↔ 48 ≤ c.toNat ∧ c.toNat ≤ 57 := by
  rw [isDigit, Bool.and_eq_true, decide_eq_true_iff, decide_eq_true_iff, UInt8.le_iff_toNat_le,
    UInt8.le_iff_toNat_le]
  rfl

theorem exists_digit {c : UInt8} (hc : isDigit c = true) : ∃ d < 10, c = UInt8.ofNat (48 + d) := by
  rw [isDigit_iff] at hc
  refine ⟨c.toNat - 48, by omega, ?_⟩
  rw [show 48 + (c.toNat - 48) = c.toNat by omega, UInt8.ofNat_toNat]

theorem toNat_ofNat_digit {d : ℕ} (hd : d < 10) : (UInt8.ofNat (48 + d)).toNat = 48 + d := by
  rw [UInt8.toNat_ofNat', Nat.mod_eq_of_lt (by omega)]

theorem isDigit_ofNat_digit {d : ℕ} (hd : d < 10) : isDigit (UInt8.ofNat (48 + d)) = true := by
  rw [isDigit_iff, toNat_ofNat_digit hd]
  omega

theorem digitsValue_concat (s : Str) (c : UInt8) :
    digitsValue (s ++ [c]) = digitsValue s * 10 + (c.toNat - 48) := by
  rw [digitsValue, List.foldl_append]
  rfl

theorem digitsValue_cons (c : UInt8) (s : Str) :
    digitsValue (c :: s) = (c.toNat - 48) * 10 ^ s.length + digitsValue s := by
  induction s using List.reverseRecOn with
  | nil => simp [digitsValue]
  | append_singleton s d ih =>
    rw [← List.cons_append, digitsValue_concat, digitsValue_concat, ih, List.length_append,
      List.length_singleton, pow_succ]
    ring

/-! ### The text of a number -/

theorem isDigit_digit {d : ℕ} (hd : d < 10) : isDigit (Radix.digit d) = true := by
  revert d
  decide

theorem digitValue_of_isDigit {c : UInt8} (hc : isDigit c = true) :
    Radix.digitValue c = c.toNat - 48 := by
  rw [isDigit, Bool.and_eq_true, decide_eq_true_iff, decide_eq_true_iff] at hc
  rw [Radix.digitValue, if_pos hc]

theorem digitsValue_eq {s : Str} (h : ∀ c ∈ s, isDigit c = true) :
    digitsValue s = Radix.value 10 s := by
  rw [digitsValue, Radix.value]
  refine List.foldl_ext _ _ 0 fun n c hc ↦ ?_
  rw [digitValue_of_isDigit (h c hc), Nat.mul_comm]

theorem forall_isDigit_text (n : ℕ) : ∀ c ∈ Radix.text 10 n, isDigit c = true := by
  intro c hc
  obtain ⟨d, hd, rfl⟩ := Radix.mem_text (by decide) hc
  exact isDigit_digit hd

theorem digitsValue_text (n : ℕ) : digitsValue (Radix.text 10 n) = n := by
  rw [digitsValue_eq (forall_isDigit_text n), Radix.value_text (by decide) (by decide)]

theorem toNat_of_mem_text {n : ℕ} {b : UInt8} (hb : b ∈ Radix.text 10 n) :
    48 ≤ b.toNat ∧ b.toNat ≤ 57 :=
  (isDigit_iff b).mp (forall_isDigit_text n b hb)

theorem encode_decimal (n : ℕ) :
    Utf8.encode (Utf8.ofAscii (Radix.text 10 n)) = Radix.text 10 n := by
  refine Utf8.encode_ofAscii fun b hb ↦ ?_
  have hle := (toNat_of_mem_text hb).2
  omega

end DoorAccess.Codec
