import Mathlib.Data.Nat.Digits.Lemmas

/-!
# Numbers as digits

The text of a natural number in a base of at most sixteen, with lower-case letters and without
leading zeros, and the number a text of digits of either case stands for. `value_text` says that
the second reads back the first.
-/

set_option autoImplicit false
set_option relaxedAutoImplicit false

namespace DoorAccess.Radix

/-- The byte of a digit. -/
def digit (d : ℕ) : UInt8 :=
  if d < 10 then UInt8.ofNat (48 + d) else UInt8.ofNat (87 + d)

/-- The value of a digit byte; zero for a byte that is none. -/
def digitValue (c : UInt8) : ℕ :=
  if 48 ≤ c ∧ c ≤ 57 then c.toNat - 48
  else if 97 ≤ c ∧ c ≤ 102 then c.toNat - 87
  else if 65 ≤ c ∧ c ≤ 70 then c.toNat - 55
  else 0

/-- The text of a number in base `b`. -/
def text (b n : ℕ) : List UInt8 :=
  if n = 0 then [48] else ((b.digits n).map digit).reverse

/-- The number that digits stand for in base `b`. -/
def value (b : ℕ) (ds : List UInt8) : ℕ :=
  ds.foldl (fun n c ↦ b * n + digitValue c) 0

theorem digitValue_digit {d : ℕ} (hd : d < 16) : digitValue (digit d) = d := by
  revert d
  decide

theorem value_concat (b : ℕ) (ds : List UInt8) (c : UInt8) :
    value b (ds ++ [c]) = b * value b ds + digitValue c := by
  rw [value, List.foldl_append]
  rfl

theorem value_reverse_map {b : ℕ} (hb : b ≤ 16) {ds : List ℕ} (hds : ∀ d ∈ ds, d < b) :
    value b (ds.map digit).reverse = Nat.ofDigits b ds := by
  induction ds with
  | nil => rfl
  | cons d ds ih =>
    rw [List.forall_mem_cons] at hds
    rw [List.map_cons, List.reverse_cons, value_concat, ih hds.2,
      digitValue_digit (lt_of_lt_of_le hds.1 hb), Nat.ofDigits_cons, add_comm]

theorem value_text {b : ℕ} (hb : 1 < b) (hb' : b ≤ 16) (n : ℕ) : value b (text b n) = n := by
  rw [text]
  split_ifs with hn
  · rw [hn]
    rfl
  · rw [value_reverse_map hb' fun d hd ↦ Nat.digits_lt_base hb hd, Nat.ofDigits_digits]

theorem mem_text {b : ℕ} (hb : 1 < b) {n : ℕ} {c : UInt8} (hc : c ∈ text b n) :
    ∃ d, d < b ∧ c = digit d := by
  rw [text] at hc
  split_ifs at hc with hn
  · exact ⟨0, by omega, List.mem_singleton.mp hc⟩
  · rw [List.mem_reverse, List.mem_map] at hc
    obtain ⟨d, hd, rfl⟩ := hc
    exact ⟨d, Nat.digits_lt_base hb hd, rfl⟩

theorem text_ne_nil (b n : ℕ) : text b n ≠ [] := by
  rw [text]
  split_ifs with hn
  · exact List.cons_ne_nil _ _
  · rw [ne_eq, List.reverse_eq_nil_iff, List.map_eq_nil_iff]
    exact Nat.digits_ne_nil_iff_ne_zero.mpr hn

theorem digit_ne_zero {d : ℕ} (hd : d < 16) (hne : d ≠ 0) : digit d ≠ 48 := by
  revert d
  decide

/-- Only the number zero starts with a zero. -/
theorem head_text {b : ℕ} (hb : 1 < b) (hb' : b ≤ 16) {n : ℕ} (hn : n ≠ 0) :
    ∀ c ∈ (text b n).head?, c ≠ 48 := by
  intro c hc
  rw [text, if_neg hn, List.head?_reverse, List.getLast?_map, Option.mem_def,
    Option.map_eq_some_iff] at hc
  obtain ⟨d, hd, rfl⟩ := hc
  have hne : b.digits n ≠ [] := Nat.digits_ne_nil_iff_ne_zero.mpr hn
  rw [List.getLast?_eq_some_getLast hne, Option.some.injEq] at hd
  have hlt : d < b := Nat.digits_lt_base hb (hd ▸ List.getLast_mem hne)
  refine digit_ne_zero (by omega) ?_
  rw [← hd]
  exact Nat.getLast_digit_ne_zero b hn

theorem length_text_le {b k n : ℕ} (hb : 1 < b) (hk : 0 < k) (hn : n < b ^ k) :
    (text b n).length ≤ k := by
  rw [text]
  split_ifs with h
  · exact hk
  · rw [List.length_reverse, List.length_map]
    exact (Nat.digits_length_le_iff hb n).mpr hn

/-- Leading zeros do not count. -/
theorem value_leftpad (b k : ℕ) (ds : List UInt8) : value b (ds.leftpad k 48) = value b ds := by
  rw [List.leftpad]
  induction k - ds.length with
  | zero => rfl
  | succ m ih =>
    rw [← ih, List.replicate_succ, List.cons_append, value, value, List.foldl_cons]
    rfl

end DoorAccess.Radix
