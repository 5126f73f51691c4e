import Mathlib.Algebra.Group.Nat.Defs
import Mathlib.Data.List.Basic

/-!
# Classic BPF

The filter machine of a packet socket: an accumulator, an index register, loads from the packet,
and jumps that only go forward. A load beyond the packet ends the filter with a rejection. A program
is read here as a list, and a jump as a number of instructions to skip, so that running it is a
recursion on the list. What a program accepts is worked out backwards, one instruction at a time:
`accepts_ldAbs`, `accepts_jump` and the others turn an instruction into a condition on the packet
and on what the rest of the program does.
-/

set_option autoImplicit false
set_option relaxedAutoImplicit false

namespace Bpf

/-! ### Instructions -/

/-- `struct sock_filter`. -/
structure SockFilter where
  code : UInt16
  jt : UInt8
  jf : UInt8
  k : UInt32
  deriving DecidableEq, Repr

/-- The width of a load. -/
inductive Size
  | byte
  | half
  | word
  deriving DecidableEq, Repr

/-- The test of a conditional jump against the constant of the instruction. -/
inductive Test
  | eq
  | gt
  | ge
  | set
  deriving DecidableEq, Repr

def Test.holds (test : Test) (a k : ℕ) : Bool :=
  match test with
  | .eq => a = k
  | .gt => k < a
  | .ge => k ≤ a
  | .set => a &&& k ≠ 0

/-- The instructions that load, jump and return. -/
inductive Instr
  | ldAbs (size : Size) (k : ℕ)
  | ldInd (size : Size) (k : ℕ)
  /-- The index register becomes four times the low nibble of a byte: an IP header length. -/
  | ldxMsh (k : ℕ)
  | jump (test : Test) (k jt jf : ℕ)
  | ret (k : ℕ)
  deriving DecidableEq, Repr

/-- The operation codes of these instructions. -/
def SockFilter.decode (i : SockFilter) : Option Instr :=
  match i.code with
  | 0x20 => some (.ldAbs .word i.k.toNat)
  | 0x28 => some (.ldAbs .half i.k.toNat)
  | 0x30 => some (.ldAbs .byte i.k.toNat)
  | 0x40 => some (.ldInd .word i.k.toNat)
  | 0x48 => some (.ldInd .half i.k.toNat)
  | 0x50 => some (.ldInd .byte i.k.toNat)
  | 0xb1 => some (.ldxMsh i.k.toNat)
  | 0x15 => some (.jump .eq i.k.toNat i.jt.toNat i.jf.toNat)
  | 0x25 => some (.jump .gt i.k.toNat i.jt.toNat i.jf.toNat)
  | 0x35 => some (.jump .ge i.k.toNat i.jt.toNat i.jf.toNat)
  | 0x45 => some (.jump .set i.k.toNat i.jt.toNat i.jf.toNat)
  | 0x06 => some (.ret i.k.toNat)
  | _ => none

/-! ### Runs -/

/-- The big-endian half word at an offset of the packet. -/
def half (pkt : List UInt8) (k : ℕ) : Option ℕ := do
  let hi ← pkt[k]?
  let lo ← pkt[k + 1]?
  return 256 * hi.toNat + lo.toNat

theorem half_of_lt {pkt : List UInt8} {k : ℕ} (h : k + 1 < pkt.length) :
    half pkt k = some (256 * (pkt.getD k 0).toNat + (pkt.getD (k + 1) 0).toNat) := by
  simp [half, List.getElem?_eq_getElem h, List.getElem?_eq_getElem (Nat.lt_of_succ_lt h),
    List.getD_eq_getElem?_getD]

/-- A half word is there when both its bytes are. -/
theorem half_eq_some_iff {pkt : List UInt8} {k v : ℕ} : half pkt k = some v ↔
    k + 1 < pkt.length ∧ 256 * (pkt.getD k 0).toNat + (pkt.getD (k + 1) 0).toNat = v := by
  by_cases h : k + 1 < pkt.length
  · simp only [half_of_lt h, Option.some.injEq, h, true_and]
  · have hnone : pkt[k + 1]? = none := List.getElem?_eq_none (Nat.not_lt.mp h)
    have hhalf : half pkt k = none := by
      unfold half
      rw [hnone]
      cases pkt[k]? <;> rfl
    simp [hhalf, h]

/-- A load from the packet, `none` beyond its end. -/
def load (pkt : List UInt8) (size : Size) (k : ℕ) : Option ℕ :=
  match size with
  | .byte => pkt[k]?.map UInt8.toNat
  | .half => half pkt k
  | .word => do
    let hi ← half pkt k
    let lo ← half pkt (k + 2)
    return 65536 * hi + lo

/-- The value that a program returns for a packet, given how many instructions are to be skipped and
the two registers. Falling off the end rejects. -/
def run (pkt : List UInt8) : List Instr → (skip a x : ℕ) → ℕ
  | [], _, _, _ => 0
  | _ :: rest, skip + 1, a, x => run pkt rest skip a x
  | .ldAbs size k :: rest, 0, _, x =>
    match load pkt size k with
    | none => 0
    | some v => run pkt rest 0 v x
  | .ldInd size k :: rest, 0, _, x =>
    match load pkt size ((x + k) % 2 ^ 32) with
    | none => 0
    | some v => run pkt rest 0 v x
  | .ldxMsh k :: rest, 0, a, _ =>
    match pkt[k]? with
    | none => 0
    | some v => run pkt rest 0 a (4 * (v &&& 0x0f).toNat)
  | .jump test k jt jf :: rest, 0, a, x => run pkt rest (if test.holds a k then jt else jf) a x
  | .ret k :: _, 0, _, _ => k

/-- The filter keeps the packet: it is a program, and it returns a positive length. -/
def accepts (filter : List SockFilter) (pkt : List UInt8) : Bool :=
  match filter.mapM SockFilter.decode with
  | none => false
  | some prog => run pkt prog 0 0 0 ≠ 0

/-! ### What the rest of a program accepts -/

/-- A program accepts the packet from the given registers on. -/
def Accepts (pkt : List UInt8) (prog : List Instr) (skip a x : ℕ) : Prop :=
  run pkt prog skip a x ≠ 0

section Rules

variable {pkt : List UInt8} {prog rest : List Instr} {i : Instr} {size : Size} {test : Test}
  {k jt jf skip a x : ℕ}

theorem accepts_iff_of_decode {filter : List SockFilter}
    (h : filter.mapM SockFilter.decode = some prog) :
    accepts filter pkt = true ↔ Accepts pkt prog 0 0 0 := by
  simp [accepts, Accepts, h]

@[simp] theorem accepts_skip : Accepts pkt (i :: rest) (skip + 1) a x ↔
    Accepts pkt rest skip a x := by
  unfold Accepts
  rw [run]

@[simp] theorem accepts_ldAbs : Accepts pkt (.ldAbs size k :: rest) 0 a x ↔
    ∃ v, load pkt size k = some v ∧ Accepts pkt rest 0 v x := by
  unfold Accepts
  rw [run]
  cases load pkt size k <;> simp

@[simp] theorem accepts_ldInd : Accepts pkt (.ldInd size k :: rest) 0 a x ↔
    ∃ v, load pkt size ((x + k) % 2 ^ 32) = some v ∧ Accepts pkt rest 0 v x := by
  unfold Accepts
  rw [run]
  cases load pkt size ((x + k) % 2 ^ 32) <;> simp

@[simp] theorem accepts_ldxMsh : Accepts pkt (.ldxMsh k :: rest) 0 a x ↔
    ∃ v, pkt[k]? = some v ∧ Accepts pkt rest 0 a (4 * (v &&& 0x0f).toNat) := by
  unfold Accepts
  rw [run]
  cases pkt[k]? <;> simp

/-- A conditional jump goes on behind the instructions it skips. -/
theorem accepts_jump : Accepts pkt (.jump test k jt jf :: rest) 0 a x ↔
    (test.holds a k = true ∧ Accepts pkt rest jt a x) ∨
      (test.holds a k = false ∧ Accepts pkt rest jf a x) := by
  unfold Accepts
  rw [run]
  cases test.holds a k <;> simp

@[simp] theorem accepts_ret : Accepts pkt (.ret k :: rest) 0 a x ↔ k ≠ 0 := by
  unfold Accepts
  rw [run]

end Rules

end Bpf
