import Mathlib.Data.UInt
import Mathlib.Data.List.Basic
import Mathlib.Tactic.Ring

/-!
# Records of bytes that tell their own length

Big-endian numbers of fixed width, and a reader that takes one record after another off a list of
bytes. A record that is read back whatever stands behind it can be written any number of times: the
reader walks through all of them and ends where they end.
-/

set_option autoImplicit false
set_option relaxedAutoImplicit false

namespace Records

/-! ### Big-endian numbers -/

/-- The number whose base-256 digits are the bytes, the most significant first. -/
def value (bytes : List UInt8) : ℕ :=
  bytes.foldl (fun n b ↦ 256 * n + b.toNat) 0

theorem foldl_digits (start : ℕ) (bytes : List UInt8) :
    bytes.foldl (fun n b ↦ 256 * n + b.toNat) start = start * 256 ^ bytes.length + value bytes := by
  unfold value
  induction bytes generalizing start with
  | nil => simp
  | cons b bytes ih =>
    rw [List.foldl_cons, List.foldl_cons, ih, ih (256 * 0 + b.toNat), List.length_cons,
      Nat.pow_succ]
    ring

theorem value_cons (b : UInt8) (bytes : List UInt8) :
    value (b :: bytes) = b.toNat * 256 ^ bytes.length + value bytes := by
  show bytes.foldl _ (256 * 0 + b.toNat) = _
  rw [foldl_digits, Nat.mul_zero, Nat.zero_add]

/-- `u16::to_be_bytes`. -/
def toBeBytes16 (n : UInt16) : List UInt8 :=
  [(n >>> 8).toUInt8, n.toUInt8]

/-- `u32::to_be_bytes`. -/
def toBeBytes32 (n : UInt32) : List UInt8 :=
  [(n >>> 24).toUInt8, (n >>> 16).toUInt8, (n >>> 8).toUInt8, n.toUInt8]

/-- The three low bytes of a number. -/
def lowBytes24 (n : UInt32) : List UInt8 :=
  [(n >>> 16).toUInt8, (n >>> 8).toUInt8, n.toUInt8]

@[simp] theorem length_toBeBytes32 (n : UInt32) : (toBeBytes32 n).length = 4 := rfl

@[simp] theorem length_lowBytes24 (n : UInt32) : (lowBytes24 n).length = 3 := rfl

theorem value_toBeBytes32 (n : UInt32) : value (toBeBytes32 n) = n.toNat := by
  have hlt := n.toNat_lt
  simp [value, toBeBytes32, Nat.shiftRight_eq_div_pow]
  omega

theorem value_lowBytes24 (n : UInt32) : value (lowBytes24 n) = n.toNat % 2 ^ 24 := by
  simp [value, lowBytes24, Nat.shiftRight_eq_div_pow]
  omega

/-! ### Reading records -/

variable {α ρ : Type*}

/-- The first `n` items and the rest, when there are that many. -/
def cut (n : ℕ) (input : List α) : Option (List α × List α) :=
  if n ≤ input.length then some (input.take n, input.drop n) else none

theorem cut_append {n : ℕ} {first : List α} (h : first.length = n) (rest : List α) :
    cut n (first ++ rest) = some (first, rest) := by
  subst h
  simp [cut]

/-- Data behind its length, of which two bytes are kept. -/
def prefixed16 (data : List UInt8) : List UInt8 :=
  toBeBytes16 (UInt16.ofNat data.length) ++ data

/-- The reader of data behind a length of two bytes. -/
def readPrefixed16 : List UInt8 → Option (List UInt8 × List UInt8)
  | hi :: lo :: rest => cut (value [hi, lo]) rest
  | _ => none

theorem value_toBeBytes16 (n : UInt16) : value (toBeBytes16 n) = n.toNat := by
  have hlt := n.toNat_lt
  simp [value, toBeBytes16, Nat.shiftRight_eq_div_pow]
  omega

/-- What is read is cut off at the length as it was kept. -/
theorem readPrefixed16_prefixed16 (data rest : List UInt8) :
    readPrefixed16 (prefixed16 data ++ rest) = cut (data.length % 65536) (data ++ rest) := by
  have hvalue := value_toBeBytes16 (UInt16.ofNat data.length)
  rw [UInt16.toNat_ofNat'] at hvalue
  show cut (value (toBeBytes16 (UInt16.ofNat data.length))) (data ++ rest) = _
  rw [hvalue]

/-- Data are read back exactly if their length fits, and then the rest is what stands behind
them. -/
theorem readPrefixed16_eq_some_iff (data rest left : List UInt8) :
    readPrefixed16 (prefixed16 data ++ rest) = some (data, left) ↔
      data.length < 65536 ∧ left = rest := by
  rw [readPrefixed16_prefixed16]
  by_cases hlength : data.length < 65536
  · rw [cut_append (Nat.mod_eq_of_lt hlength).symm rest]
    simp [hlength, eq_comm]
  · refine iff_of_false (fun h ↦ ?_) fun h ↦ hlength h.1
    unfold cut at h
    split_ifs at h
    have htake := congrArg List.length (Prod.mk.inj (Option.some.inj h)).1
    rw [List.length_take] at htake
    omega

/-- Reads records until the input is used up, at most `fuel` of them. -/
def readAll (read : List α → Option (ρ × List α)) : ℕ → List α → Option (List ρ)
  | _, [] => some []
  | 0, _ :: _ => none
  | fuel + 1, a :: input =>
    match read (a :: input) with
    | none => none
    | some (record, rest) => (readAll read fuel rest).map (record :: ·)

variable {σ : Type*} {read : List α → Option (ρ × List α)} {write : σ → List α} {view : σ → ρ}

/-- Records that are read back whatever follows are walked through to the end. -/
theorem readAll_flatMap (items : List σ) (fuel : ℕ)
    (hwrite : ∀ s ∈ items, write s ≠ [])
    (hread : ∀ s ∈ items, ∀ rest, read (write s ++ rest) = some (view s, rest))
    (hfuel : items.length ≤ fuel) :
    readAll read fuel (items.flatMap write) = some (items.map view) := by
  induction items generalizing fuel with
  | nil =>
    cases fuel with
    | zero | succ => rfl
  | cons s items ih =>
    obtain ⟨fuel, rfl⟩ : ∃ k, fuel = k + 1 :=
      Nat.exists_eq_add_of_le' (Nat.le_trans (Nat.succ_le_succ (Nat.zero_le _)) hfuel)
    have hrest := ih fuel (fun t ht ↦ hwrite t (List.mem_cons_of_mem s ht))
      (fun t ht ↦ hread t (List.mem_cons_of_mem s ht)) (Nat.le_of_succ_le_succ hfuel)
    have hfirst := hread s List.mem_cons_self (items.flatMap write)
    obtain ⟨a, tail, hcons⟩ := List.exists_cons_of_ne_nil (hwrite s List.mem_cons_self)
    rw [List.flatMap_cons]
    rw [hcons, List.cons_append] at hfirst ⊢
    unfold readAll
    simp only [hfirst, hrest, Option.map_some, List.map_cons]

end Records
