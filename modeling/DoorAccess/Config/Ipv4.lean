import DoorAccess.Decimal

/-!
# The text of an address

`ipv4_str` and `parse_ipv4` are inverse to each other: a text that is accepted as an address is the
text of that address, so that two addresses are the same when their texts are.
-/

set_option autoImplicit false
set_option relaxedAutoImplicit false

namespace DoorAccess.Codec

/-! ### Octets -/

/-- An octet without a leading zero, whatever its length. -/
structure OctetText (s : Str) : Prop where
  ne_nil : s ≠ []
  digits : ∀ c ∈ s, isDigit c = true
  noLeadingZero : s.length = 1 ∨ s.head? ≠ some 48
  value_le : digitsValue s ≤ 255

/-- Without a leading zero the digits are no more than the value needs. -/
theorem OctetText.length_le {s : Str} (h : OctetText s) : s.length ≤ 3 := by
  by_contra hlong
  rw [Nat.not_le] at hlong
  cases s with
  | nil => exact h.ne_nil rfl
  | cons c s =>
    have hdigit := (isDigit_iff c).mp (h.digits c List.mem_cons_self)
    have hhead : c.toNat ≠ 48 := by
      intro hzero
      refine h.noLeadingZero.elim (fun hone ↦ by omega) fun hne ↦ hne ?_
      exact congrArg some (UInt8.toNat_inj.mp hzero)
    have hpow : 10 ^ 3 ≤ 10 ^ s.length :=
      Nat.pow_le_pow_right (by decide) (Nat.le_of_lt_succ hlong)
    have hvalue := h.value_le
    rw [digitsValue_cons] at hvalue
    have hfirst : 1 * 10 ^ s.length ≤ (c.toNat - 48) * 10 ^ s.length :=
      Nat.mul_le_mul_right _ (by omega)
    omega

theorem parseOctet_eq_some_iff (s : Str) (n : UInt8) :
    parseOctet s = some n ↔ OctetText s ∧ UInt8.ofNat (digitsValue s) = n := by
  rw [parseOctet]
  split_ifs with h
  · obtain ⟨hne, _, hdigits, hzero, hvalue⟩ := h
    rw [Option.some.injEq]
    exact ⟨fun hn ↦ ⟨⟨hne, List.all_eq_true.mp hdigits, hzero, hvalue⟩, hn⟩, fun hn ↦ hn.2⟩
  · simp only [false_iff]
    rintro ⟨hs, _⟩
    exact h ⟨hs.ne_nil, hs.length_le, List.all_eq_true.mpr hs.digits, hs.noLeadingZero, hs.value_le⟩

theorem parseOctet_isSome_iff (s : Str) : (parseOctet s).isSome = true ↔ OctetText s := by
  rw [Option.isSome_iff_exists]
  exact ⟨fun ⟨n, h⟩ ↦ ((parseOctet_eq_some_iff s n).mp h).1,
    fun h ↦ ⟨_, (parseOctet_eq_some_iff s _).mpr ⟨h, rfl⟩⟩⟩

theorem ofNat_surjective (n : UInt8) : ∃ k < 256, n = UInt8.ofNat k :=
  ⟨n.toNat, n.toNat_lt, UInt8.ofNat_toNat.symm⟩

theorem parseOctet_decimal (n : UInt8) : parseOctet (decimal n) = some n := by
  have hall : ∀ k < 256, parseOctet (decimal (UInt8.ofNat k)) = some (UInt8.ofNat k) := by
    decide +kernel
  obtain ⟨k, hk, rfl⟩ := ofNat_surjective n
  exact hall k hk

theorem toNat_digit {d : ℕ} (hd : d < 10) : (UInt8.ofNat (48 + d)).toNat - 48 = d := by
  rw [toNat_ofNat_digit hd, Nat.add_sub_cancel_left]

/-- The digits of the decimal text, by the length that the value needs. -/
theorem decimal_ofNat {v : ℕ} (hv : v < 256) : decimal (UInt8.ofNat v) =
    if v < 10 then [UInt8.ofNat (48 + v)]
    else if v < 100 then [UInt8.ofNat (48 + v / 10), UInt8.ofNat (48 + v % 10)]
    else [UInt8.ofNat (48 + v / 100), UInt8.ofNat (48 + v / 10 % 10),
      UInt8.ofNat (48 + v % 10)] := by
  revert v
  decide +kernel

/-- An octet is the decimal text of its value. -/
theorem decimal_of_parseOctet {s : Str} {n : UInt8} (h : parseOctet s = some n) :
    decimal n = s := by
  obtain ⟨hs, rfl⟩ := (parseOctet_eq_some_iff s n).mp h
  have hvalue := hs.value_le
  rw [decimal_ofNat (by omega)]
  have hfirst (x : ℕ) (hx : UInt8.ofNat (48 + x) ≠ 48) : x ≠ 0 := by
    rintro rfl
    exact hx rfl
  match s, hs, hs.length_le with
  | [], hs, _ => exact absurd rfl hs.ne_nil
  | [c], hs, _ =>
    obtain ⟨x, hx, rfl⟩ := exists_digit (hs.digits c (by simp))
    have hv : digitsValue [UInt8.ofNat (48 + x)] = x := by
      simp only [digitsValue, List.foldl_cons, List.foldl_nil, toNat_digit hx]
      omega
    rw [hv, if_pos hx]
  | [c, d], hs, _ =>
    obtain ⟨x, hx, rfl⟩ := exists_digit (hs.digits c (by simp))
    obtain ⟨y, hy, rfl⟩ := exists_digit (hs.digits d (by simp))
    have hne := hfirst x (by simpa using hs.noLeadingZero)
    have hv : digitsValue [UInt8.ofNat (48 + x), UInt8.ofNat (48 + y)] = 10 * x + y := by
      simp only [digitsValue, List.foldl_cons, List.foldl_nil, toNat_digit hx, toNat_digit hy]
      omega
    rw [hv, if_neg (by omega), if_pos (by omega), show (10 * x + y) / 10 = x by omega,
      show (10 * x + y) % 10 = y by omega]
  | [c, d, e], hs, _ =>
    obtain ⟨x, hx, rfl⟩ := exists_digit (hs.digits c (by simp))
    obtain ⟨y, hy, rfl⟩ := exists_digit (hs.digits d (by simp))
    obtain ⟨z, hz, rfl⟩ := exists_digit (hs.digits e (by simp))
    have hne := hfirst x (by simpa using hs.noLeadingZero)
    have hv : digitsValue [UInt8.ofNat (48 + x), UInt8.ofNat (48 + y), UInt8.ofNat (48 + z)] =
        100 * x + 10 * y + z := by
      simp only [digitsValue, List.foldl_cons, List.foldl_nil, toNat_digit hx, toNat_digit hy,
        toNat_digit hz]
      omega
    rw [hv, if_neg (by omega), if_neg (by omega), show (100 * x + 10 * y + z) / 100 = x by omega,
      show (100 * x + 10 * y + z) / 10 % 10 = y by omega,
      show (100 * x + 10 * y + z) % 10 = z by omega]

theorem dot_not_mem_decimal (n : UInt8) : 46 ∉ decimal n := by
  intro h
  have htext := (parseOctet_isSome_iff (decimal n)).mp (by rw [parseOctet_decimal]; rfl)
  exact absurd (htext.digits 46 h) (by decide)

/-! ### Addresses -/

theorem ipv4Str_eq (ip : Octets) : ipv4Str ip = [46].intercalate
    [decimal (ip.get 0), decimal (ip.get 1), decimal (ip.get 2), decimal (ip.get 3)] := by
  have htext : ipv4Str ip = decimal (ip.get 0) ++ 46 :: decimal (ip.get 1) ++
      46 :: decimal (ip.get 2) ++ 46 :: decimal (ip.get 3) := rfl
  simp [htext, List.intercalate_cons_cons, List.intercalate_singleton]

theorem splitOn_ipv4Str (ip : Octets) :
    (ipv4Str ip).splitOn 46 =
      [decimal (ip.get 0), decimal (ip.get 1), decimal (ip.get 2), decimal (ip.get 3)] := by
  rw [ipv4Str_eq, List.splitOn_intercalate]
  · simp [dot_not_mem_decimal]
  · exact List.cons_ne_nil _ _

/-- A text is read as an address exactly if it is four octets with dots between them. -/
theorem parseIpv4_eq_some_iff (s : Str) (ip : Octets) :
    parseIpv4 s = some ip ↔ ∃ a b c d, s.splitOn 46 = [a, b, c, d] ∧
      parseOctet a = some (ip.get 0) ∧ parseOctet b = some (ip.get 1) ∧
      parseOctet c = some (ip.get 2) ∧ parseOctet d = some (ip.get 3) := by
  constructor
  · intro h
    rw [parseIpv4] at h
    split at h
    · rename_i a b c d hsplit
      obtain ⟨w, hw, h⟩ := Option.bind_eq_some_iff.mp h
      obtain ⟨x, hx, h⟩ := Option.bind_eq_some_iff.mp h
      obtain ⟨y, hy, h⟩ := Option.bind_eq_some_iff.mp h
      obtain ⟨z, hz, h⟩ := Option.bind_eq_some_iff.mp h
      obtain rfl := Option.some.inj h
      exact ⟨a, b, c, d, hsplit, hw, hx, hy, hz⟩
    · exact nomatch h
  · rintro ⟨a, b, c, d, hsplit, ha, hb, hc, hd⟩
    simp only [parseIpv4, hsplit, ha, hb, hc, hd]
    exact congrArg some (octets_eta ip)

/-- The text of an address is read as that address. -/
@[simp] theorem parseIpv4_ipv4Str (ip : Octets) : parseIpv4 (ipv4Str ip) = some ip :=
  (parseIpv4_eq_some_iff _ ip).mpr ⟨_, _, _, _, splitOn_ipv4Str ip, parseOctet_decimal _,
    parseOctet_decimal _, parseOctet_decimal _, parseOctet_decimal _⟩

theorem ipv4Str_injective : Function.Injective ipv4Str := by
  intro a b h
  have hsome := congrArg parseIpv4 h
  rwa [parseIpv4_ipv4Str, parseIpv4_ipv4Str, Option.some.injEq] at hsome

/-- A text that is read as an address is the text of it. -/
theorem ipv4Str_of_parseIpv4 {s : Str} {ip : Octets} (h : parseIpv4 s = some ip) :
    ipv4Str ip = s := by
  obtain ⟨a, b, c, d, hsplit, ha, hb, hc, hd⟩ := (parseIpv4_eq_some_iff s ip).mp h
  have hjoin : [46].intercalate (s.splitOn 46) = s := List.intercalate_splitOn 46
  rw [← hjoin, hsplit, ipv4Str_eq, decimal_of_parseOctet ha, decimal_of_parseOctet hb,
    decimal_of_parseOctet hc, decimal_of_parseOctet hd]

end DoorAccess.Codec
