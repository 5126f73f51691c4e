import DoorAccess.Listen.Dedup
import DoorAccess.Listen.NumberQuery

/-!
# Keys that do not meet

`dedup_key` hashes the beginning of a payload with FNV-1a and mixes the address and the port of the
source in. A round of the hash is injective in the running value, since its prime is odd, and in the
byte, so that a difference in one byte survives all rounds after it; the address and the port come
in bit ranges that do not overlap.

`dedup_keys_of_both_listeners` says what follows for the listeners: a frame that differs from
another in one byte is not taken for it, however the two are placed in a run.
-/

set_option autoImplicit false
set_option relaxedAutoImplicit false

namespace DoorAccess.Listen

/-! ### Folds that keep a difference -/

section Fold

variable {σ α : Type*} {f : σ → α → σ}

/-- Rounds that are injective in the running value keep two values apart. -/
theorem foldl_injective (hstate : ∀ a, Function.Injective fun s ↦ f s a) (l : List α) :
    Function.Injective fun s ↦ l.foldl f s := by
  induction l with
  | nil => exact fun _ _ h ↦ h
  | cons a l ih => exact fun s t h ↦ hstate a (ih h)

/-- If they are injective in what they take in as well, two lists that differ in one place have
different values. -/
theorem foldl_ne_of_ne (hstate : ∀ a, Function.Injective fun s ↦ f s a)
    (hinput : ∀ s, Function.Injective (f s)) (s : σ) (first last : List α) {a b : α}
    (h : a ≠ b) : (first ++ a :: last).foldl f s ≠ (first ++ b :: last).foldl f s := by
  intro heq
  rw [List.foldl_append, List.foldl_append, List.foldl_cons, List.foldl_cons] at heq
  exact h (hinput _ (foldl_injective hstate last heq))

end Fold

/-! ### FNV-1a -/

/-- One round of `fnv1a_64`. -/
def fnvRound (h : UInt64) (b : UInt8) : UInt64 :=
  (h ^^^ b.toUInt64) * 0x00000100000001b3

theorem xor_right_injective (c : UInt64) : Function.Injective (· ^^^ c) := by
  intro a b h
  have hcancel := congrArg (· ^^^ c) h
  simpa only [UInt64.xor_assoc, UInt64.xor_self, UInt64.xor_zero] using hcancel

theorem xor_left_injective (c : UInt64) : Function.Injective (c ^^^ ·) := by
  intro a b h
  refine xor_right_injective c ?_
  simpa only [UInt64.xor_comm _ c] using h

/-- The prime of FNV-1a has an inverse modulo `2 ^ 64`. -/
theorem mul_prime_injective : Function.Injective fun h : UInt64 ↦ h * 0x00000100000001b3 := by
  intro a b h
  have hcancel := congrArg (· * 0xce965057aff6957b) h
  have hinverse : (0x00000100000001b3 : UInt64) * 0xce965057aff6957b = 1 := by decide
  simpa only [UInt64.mul_assoc, hinverse, UInt64.mul_one] using hcancel

theorem fnvRound_state_injective (b : UInt8) : Function.Injective fun h ↦ fnvRound h b :=
  mul_prime_injective.comp (xor_right_injective b.toUInt64)

theorem fnvRound_byte_injective (h : UInt64) : Function.Injective (fnvRound h) := by
  intro a b heq
  have hbytes := xor_left_injective h (mul_prime_injective heq)
  have hnat := congrArg UInt64.toNat hbytes
  rw [UInt8.toNat_toUInt64, UInt8.toNat_toUInt64] at hnat
  exact UInt8.toNat_inj.mp hnat

/-- Two payloads of one length that differ in one byte. -/
def OneByteApart (p q : List UInt8) : Prop :=
  ∃ first b c last, b ≠ c ∧ p = first ++ b :: last ∧ q = first ++ c :: last

theorem fnv1a64_ne {p q : List UInt8} (h : OneByteApart p q) : fnv1a64 p ≠ fnv1a64 q := by
  obtain ⟨first, b, c, last, hne, rfl, rfl⟩ := h
  exact foldl_ne_of_ne fnvRound_state_injective fnvRound_byte_injective _ first last hne

/-! ### The source -/

/-- The address as the low half of the key. -/
def ipBits (ip : Octets) : UInt64 :=
  ip.toList.foldl (fun n b ↦ n * 256 + b.toUInt64) 0

theorem toNat_ipBits (ip : Octets) : (ipBits ip).toNat =
    (((ip.get 0).toNat * 256 + (ip.get 1).toNat) * 256 + (ip.get 2).toNat) * 256 +
      (ip.get 3).toNat := by
  have h0 := (ip.get 0).toNat_lt
  have h1 := (ip.get 1).toNat_lt
  have h2 := (ip.get 2).toNat_lt
  have h3 := (ip.get 3).toNat_lt
  rw [ipBits, octets_toList]
  simp only [List.foldl_cons, List.foldl_nil, UInt64.toNat_add, UInt64.toNat_mul,
    UInt8.toNat_toUInt64]
  have hzero : (0 : UInt64).toNat = 0 := rfl
  have hbase : (256 : UInt64).toNat = 256 := rfl
  rw [hzero, hbase]
  omega

theorem toNat_ipBits_lt (ip : Octets) : (ipBits ip).toNat < 4294967296 := by
  have h0 := (ip.get 0).toNat_lt
  have h1 := (ip.get 1).toNat_lt
  have h2 := (ip.get 2).toNat_lt
  have h3 := (ip.get 3).toNat_lt
  rw [toNat_ipBits]
  omega

theorem ipBits_injective : Function.Injective ipBits := by
  intro ip ip' h
  have hnat := congrArg UInt64.toNat h
  rw [toNat_ipBits, toNat_ipBits] at hnat
  have hlt (v : Octets) (i : Fin 4) := (v.get i).toNat_lt
  have h0 := hlt ip 0
  have h1 := hlt ip 1
  have h2 := hlt ip 2
  have h3 := hlt ip 3
  have h0' := hlt ip' 0
  have h1' := hlt ip' 1
  have h2' := hlt ip' 2
  have h3' := hlt ip' 3
  have e0 : ip.get 0 = ip'.get 0 := UInt8.toNat_inj.mp (by omega)
  have e1 : ip.get 1 = ip'.get 1 := UInt8.toNat_inj.mp (by omega)
  have e2 : ip.get 2 = ip'.get 2 := UInt8.toNat_inj.mp (by omega)
  have e3 : ip.get 3 = ip'.get 3 := UInt8.toNat_inj.mp (by omega)
  rw [← octets_eta ip, ← octets_eta ip', e0, e1, e2, e3]

/-- The port comes above the address. -/
theorem toNat_source (ip : Octets) (port : UInt16) :
    (ipBits ip ^^^ port.toUInt64 <<< 32).toNat = (ipBits ip).toNat ^^^ port.toNat <<< 32 := by
  have hport := port.toNat_lt
  rw [UInt64.toNat_xor, UInt64.toNat_shiftLeft, UInt16.toNat_toUInt64]
  have hshift : (32 : UInt64).toNat % 64 = 32 := rfl
  rw [hshift, Nat.mod_eq_of_lt]
  rw [Nat.shiftLeft_eq]
  omega

theorem source_injective {ip ip' : Octets} {port port' : UInt16}
    (h : ipBits ip ^^^ port.toUInt64 <<< 32 = ipBits ip' ^^^ port'.toUInt64 <<< 32) :
    ip = ip' ∧ port = port' := by
  have hnat := congrArg UInt64.toNat h
  rw [toNat_source, toNat_source] at hnat
  have hhigh (ip : Octets) (port : UInt16) :
      ((ipBits ip).toNat ^^^ port.toNat <<< 32) >>> 32 = port.toNat := by
    rw [Nat.shiftRight_xor_distrib, Nat.shiftLeft_shiftRight,
      Nat.shiftRight_eq_zero _ _ (toNat_ipBits_lt ip), Nat.zero_xor]
  have hlow (ip : Octets) (port : UInt16) :
      ((ipBits ip).toNat ^^^ port.toNat <<< 32) % 2 ^ 32 = (ipBits ip).toNat := by
    rw [Nat.xor_mod_two_pow, Nat.mod_eq_of_lt (toNat_ipBits_lt ip), Nat.shiftLeft_eq,
      Nat.mul_mod_left, Nat.xor_zero]
  constructor
  · have hip := congrArg (· % 2 ^ 32) hnat
    simp only [hlow] at hip
    exact ipBits_injective (UInt64.toNat_inj.mp hip)
  · have hport := congrArg (· >>> 32) hnat
    simp only [hhigh] at hport
    exact UInt16.toNat_inj.mp hport

theorem dedupKey_eq (maxHashBytes : ℕ) (ip : Octets) (port : UInt16) (payload : List UInt8) :
    dedupKey maxHashBytes ip port payload =
      fnv1a64 (payload.take maxHashBytes) ^^^ (ipBits ip ^^^ port.toUInt64 <<< 32) :=
  UInt64.xor_assoc _ _ _

/-! ### Keys that are apart -/

/-- What a key is to tell apart, with the number of payload bytes that go into it. -/
structure Separates (maxHashBytes : ℕ) (key : Octets → UInt16 → List UInt8 → UInt64) :
    Prop where
  oneByte : ∀ ip port p q, p.length ≤ maxHashBytes → OneByteApart p q →
    key ip port p ≠ key ip port q
  source : ∀ ip port ip' port' p, (ip, port) ≠ (ip', port') → key ip port p ≠ key ip' port' p
  beginning : ∀ ip port p q, p.take maxHashBytes = q.take maxHashBytes →
    key ip port p = key ip port q

theorem OneByteApart.length_eq {p q : List UInt8} (h : OneByteApart p q) :
    p.length = q.length := by
  obtain ⟨first, b, c, last, -, rfl, rfl⟩ := h
  rw [List.length_append, List.length_append, List.length_cons, List.length_cons]

theorem separates_dedupKey (maxHashBytes : ℕ) :
    Separates maxHashBytes (dedupKey maxHashBytes) where
  oneByte ip port p q hlength h := by
    have hq : q.length ≤ maxHashBytes := h.length_eq ▸ hlength
    rw [dedupKey_eq, dedupKey_eq, List.take_of_length_le hlength, List.take_of_length_le hq]
    exact fun heq ↦ fnv1a64_ne h (xor_right_injective _ heq)
  source ip port ip' port' p h := by
    rw [dedupKey_eq, dedupKey_eq]
    intro heq
    obtain ⟨hip, hport⟩ := source_injective (xor_left_injective _ heq)
    exact h (Prod.ext hip hport)
  beginning ip port p q h := by
    rw [dedupKey_eq, dedupKey_eq, h]

/-- A frame as it comes from a slave, with the time at which it is handed on. -/
structure Arrival where
  nowMs : ℕ
  srcIp : Octets
  srcPort : UInt16
  payload : List UInt8

/-- The call of `seen` for a frame. -/
def Arrival.call (key : Octets → UInt16 → List UInt8 → UInt64) (f : Arrival) : UInt64 × ℕ :=
  (key f.srcIp f.srcPort f.payload, f.nowMs)

/-- Two frames of one source that differ in one byte, or of two sources with one payload. -/
def Arrival.Apart (maxHashBytes : ℕ) (f g : Arrival) : Prop :=
  ((f.srcIp, f.srcPort) = (g.srcIp, g.srcPort) ∧ f.payload.length ≤ maxHashBytes ∧
      OneByteApart f.payload g.payload) ∨
    ((f.srcIp, f.srcPort) ≠ (g.srcIp, g.srcPort) ∧ f.payload = g.payload)

section Suppression

variable {maxHashBytes capacity window : ℕ} {key : Octets → UInt16 → List UInt8 → UInt64}

theorem Separates.key_ne (h : Separates maxHashBytes key) {f g : Arrival}
    (hapart : f.Apart maxHashBytes g) : (f.call key).1 ≠ (g.call key).1 := by
  rcases hapart with ⟨hsource, hlength, hbyte⟩ | ⟨hsource, hpayload⟩
  · obtain ⟨hip, hport⟩ := Prod.mk.inj hsource
    rw [Arrival.call, Arrival.call, ← hip, ← hport]
    exact h.oneByte _ _ _ _ hlength hbyte
  · rw [Arrival.call, Arrival.call, ← hpayload]
    exact h.source _ _ _ _ _ hsource

/-- A frame that is taken for a repetition has the key of a recent frame that it is not apart
from. -/
theorem Separates.exists_of_seen (h : Separates maxHashBytes key) {σ : Type*} {new : σ}
    {seen : σ → UInt64 → ℕ → σ × Bool} (hrecalls : Recalls capacity window new seen)
    {frames : List Arrival} {f : Arrival}
    (hseen : (seen (after seen new (frames.map (Arrival.call key))) (f.call key).1 f.nowMs).2 =
      true) :
    ∃ g ∈ frames, f.nowMs - window ≤ g.nowMs ∧ (g.call key).1 = (f.call key).1 ∧
      ¬g.Apart maxHashBytes f := by
  obtain ⟨ts, hmem, hts⟩ := (hrecalls _ _ _).mp hseen
  have hcall := dispatched_sublist.subset (List.mem_of_mem_drop hmem)
  obtain ⟨g, hg, hgcall⟩ := List.mem_map.mp hcall
  obtain ⟨hkey, rfl⟩ := Prod.mk.inj hgcall
  exact ⟨g, hg, hts, hkey, fun hapart ↦ h.key_ne hapart hkey⟩

end Suppression

end DoorAccess.Listen

namespace DoorAccess.Listen6672

def dedupKey : Octets → UInt16 → List UInt8 → UInt64 := Listen.dedupKey FRAME_SIZE

/-- `dispatch_with_dedup`; a listener with one slave has no deduplicator. -/
def dispatchWithDedup {α : Type} (callbacks : Callbacks α) (dedup : Option Dedup)
    (f : Listen.Arrival) : Option Dedup × Option α :=
  match dedup with
  | none => (none, dispatch callbacks f.srcIp f.payload)
  | some d =>
    let (d', hit) := Dedup.seen d (dedupKey f.srcIp f.srcPort f.payload) f.nowMs
    (some d', if hit then none else dispatch callbacks f.srcIp f.payload)

/-- The deduplicator after a sequence of frames. -/
def dedupAfter (frames : List Listen.Arrival) : Dedup :=
  Listen.after Dedup.seen Dedup.new (frames.map (Listen.Arrival.call dedupKey))

end DoorAccess.Listen6672

namespace DoorAccess.Listen18022

/-- What the key of a capture is made of. -/
def Capture.arrival (c : Capture) : Listen.Arrival where
  nowMs := c.nowMs
  srcIp := c.srcIp
  srcPort := c.srcPort
  payload := c.payload

/-- The deduplicator after a sequence of captures. -/
def dedupAfter (captures : List Capture) : Dedup :=
  Listen.after Dedup.seen Dedup.new (captures.map Capture.call)

end DoorAccess.Listen18022

namespace DoorAccess.Listen

/-- **The keys of both listeners** tell frames apart that differ in one byte or in their source, and
do not look beyond the bytes that they hash. So a frame is handed on unless a recent one has its
key, and that one does not differ from it in one byte. -/
theorem dedup_keys_of_both_listeners :
    Separates Listen6672.FRAME_SIZE Listen6672.dedupKey ∧
      Separates Listen18022.MAX_HASH_BYTES Listen18022.dedupKey ∧
      (∀ (α : Type) (callbacks : Listen6672.Callbacks α) (frames : List Arrival) (f : Arrival),
        (Listen6672.dispatchWithDedup callbacks (some (Listen6672.dedupAfter frames)) f).2 =
            Listen6672.dispatch callbacks f.srcIp f.payload ∨
          ∃ g ∈ frames, f.nowMs - Listen6672.DEDUP_WINDOW_MS ≤ g.nowMs ∧
            (g.call Listen6672.dedupKey).1 = (f.call Listen6672.dedupKey).1 ∧
            ¬g.Apart Listen6672.FRAME_SIZE f) ∧
      ∀ (captures : List Listen18022.Capture) (c : Listen18022.Capture),
        (Listen18022.dispatchWithDedup (some (Listen18022.dedupAfter captures)) c).2 =
            c.detected ∨
          ∃ g ∈ captures, c.nowMs - Listen18022.DEDUP_WINDOW_MS ≤ g.nowMs ∧
            g.call.1 = c.call.1 ∧
            ¬g.arrival.Apart Listen18022.MAX_HASH_BYTES c.arrival := by
  have h6672 : Recalls Listen6672.DEDUP_CAPACITY Listen6672.DEDUP_WINDOW_MS Listen6672.Dedup.new
      Listen6672.Dedup.seen := Dedup.recalls (by decide) Listen6672.DEDUP_WINDOW_MS
  have h18022 : Recalls Listen18022.DEDUP_CAPACITY Listen18022.DEDUP_WINDOW_MS
      Listen18022.Dedup.new Listen18022.Dedup.seen :=
    Dedup.recalls (by decide) Listen18022.DEDUP_WINDOW_MS
  have hkeys6672 := separates_dedupKey Listen6672.FRAME_SIZE
  have hkeys18022 := separates_dedupKey Listen18022.MAX_HASH_BYTES
  refine ⟨hkeys6672, hkeys18022, fun α callbacks frames f ↦ ?_, fun captures c ↦ ?_⟩
  · refine or_iff_not_imp_left.mpr fun hkept ↦ hkeys6672.exists_of_seen h6672 ?_
    by_contra hseen
    exact hkept (if_neg hseen)
  · have hcalls : captures.map Listen18022.Capture.call =
        (captures.map Listen18022.Capture.arrival).map (Arrival.call Listen18022.dedupKey) := by
      rw [List.map_map]
      rfl
    refine or_iff_not_imp_left.mpr fun hkept ↦ ?_
    have hseen : (Listen18022.Dedup.seen (Listen18022.dedupAfter captures) c.call.1
        c.call.2).2 = true := by
      by_contra hseen
      exact hkept (if_neg hseen)
    rw [Listen18022.dedupAfter, hcalls] at hseen
    obtain ⟨_, hmem, hrecent, hkey, hapart⟩ :=
      hkeys18022.exists_of_seen h18022 (f := c.arrival) hseen
    obtain ⟨g, hg, rfl⟩ := List.mem_map.mp hmem
    exact ⟨g, hg, hrecent, hkey, hapart⟩

end DoorAccess.Listen
