import DoorAccess.Lib.RingBuffer
import DoorAccess.Listen18022
import DoorAccess.Wire18022
import Mathlib.Data.List.Pairwise

/-!
# One frame on several slaves

A listener with several slaves sees a frame once on each of them. `Dedup` remembers the frames it
has let through in a ring of fixed size and lets no frame with the same key through within a window.
A hit does not refresh the entry. What this amounts to, whatever the order of keys and clock values,
is said by `Deduplicates` in terms of the frames let through so far, with neither ring nor head; the
`Dedup` of each listener meets it (`dedup_of_both_listeners`).
-/

set_option autoImplicit false
set_option relaxedAutoImplicit false

namespace DoorAccess.Listen

/-! ### Runs of calls -/

section Calls

variable {σ κ : Type*} (seen : σ → κ → ℕ → σ × Bool)

/-- The state after a sequence of calls, each with its key and its clock value. -/
def after (s : σ) (calls : List (κ × ℕ)) : σ :=
  calls.foldl (fun s c ↦ (seen s c.1 c.2).1) s

/-- The calls that answer `false`: their frames are dispatched. -/
def dispatched (s : σ) : List (κ × ℕ) → List (κ × ℕ)
  | [] => []
  | c :: calls =>
    if (seen s c.1 c.2).2 then dispatched (seen s c.1 c.2).1 calls
    else c :: dispatched (seen s c.1 c.2).1 calls

variable {seen} {s : σ} {calls first second : List (κ × ℕ)} {c : κ × ℕ}

theorem after_append : after seen s (first ++ second) = after seen (after seen s first) second :=
  List.foldl_append

theorem dispatched_append : dispatched seen s (first ++ second) =
    dispatched seen s first ++ dispatched seen (after seen s first) second := by
  induction first generalizing s with
  | nil => rfl
  | cons c calls ih =>
    simp only [List.cons_append, dispatched, ih]
    split_ifs
    · rfl
    · rfl

theorem after_snoc :
    after seen s (calls ++ [c]) = (seen (after seen s calls) c.1 c.2).1 :=
  after_append

theorem dispatched_snoc_of_hit (h : (seen (after seen s calls) c.1 c.2).2 = true) :
    dispatched seen s (calls ++ [c]) = dispatched seen s calls := by
  rw [dispatched_append, dispatched, if_pos h, dispatched, List.append_nil]

theorem dispatched_snoc_of_miss (h : (seen (after seen s calls) c.1 c.2).2 = false) :
    dispatched seen s (calls ++ [c]) = dispatched seen s calls ++ [c] := by
  rw [dispatched_append, dispatched, if_neg (by simp [h]), dispatched]

theorem dispatched_sublist : List.Sublist (dispatched seen s calls) calls := by
  induction calls generalizing s with
  | nil => exact List.Sublist.refl []
  | cons c calls ih =>
    rw [dispatched]
    split_ifs
    · exact ih.trans (List.sublist_cons_self c calls)
    · exact ih.cons_cons c

end Calls

/-! ### What a deduplicator is for -/

section Spec

variable {σ κ : Type*} [DecidableEq κ]

/-- A call is a repetition exactly when among the last `capacity` dispatched calls there is one of
its key that is not older than the window. -/
def Recalls (capacity window : ℕ) (new : σ) (seen : σ → κ → ℕ → σ × Bool) : Prop :=
  ∀ calls key now, (seen (after seen new calls) key now).2 = true ↔
    ∃ ts, (key, ts) ∈ (dispatched seen new calls).rtake capacity ∧ now - window ≤ ts

/-- The purpose of a deduplicator, in terms of the calls that it has let through. -/
structure Deduplicates (capacity window : ℕ) (new : σ) (seen : σ → κ → ℕ → σ × Bool) : Prop where
  recalls : Recalls capacity window new seen
  /-- Of the copies of a frame that come within the window of the first one, with fewer than
  `capacity` other frames dispatched meanwhile, exactly the first is dispatched. -/
  once : ∀ before key start others,
    (∀ ts, (key, ts) ∈ dispatched seen new before → ts + window < start) →
    (∀ ts, (key, ts) ∈ others → ts ≤ start + window) →
    ((dispatched seen (after seen new before) ((key, start) :: others)).filter
      fun c ↦ c.1 ≠ key).length < capacity →
    (dispatched seen (after seen new before) ((key, start) :: others)).filter
      (fun c ↦ c.1 = key) = [(key, start)]
  /-- With a clock that does not go back, a key is let through again as soon as its last dispatch is
  further back than the window. -/
  released : ∀ calls key now, calls.Pairwise (fun c d ↦ c.2 ≤ d.2) →
    (∀ c, ((dispatched seen new calls).filter fun c ↦ c.1 = key).getLast? = some c →
      c.2 + window < now) →
    (seen (after seen new calls) key now).2 = false

end Spec

section Consequences

variable {σ κ : Type*} {capacity window : ℕ} {new : σ} {seen : σ → κ → ℕ → σ × Bool}
  {calls before done rest : List (κ × ℕ)} {key : κ} {start now : ℕ}

/-- A call is a repetition of one that is behind fewer than `capacity` others. -/
theorem Recalls.repeats (h : Recalls capacity window new seen) {older younger : List (κ × ℕ)}
    (hhistory : dispatched seen new calls = older ++ (key, start) :: younger)
    (hfew : younger.length < capacity) (hnow : now ≤ start + window) :
    (seen (after seen new calls) key now).2 = true := by
  refine (h calls key now).mpr ⟨start, ?_, by omega⟩
  rw [hhistory, List.rtake, List.drop_append]
  refine List.mem_append_right _ ?_
  rw [List.length_append, List.length_cons,
    show older.length + (younger.length + 1) - capacity - older.length = 0 by omega,
    List.drop_zero]
  exact List.mem_cons_self

/-- Behind a dispatched call, while its copies come within the window and few other calls are
dispatched, no other call of its key is. -/
theorem Recalls.none_of_key [DecidableEq κ] (h : Recalls capacity window new seen)
    {older younger : List (κ × ℕ)}
    (hhistory : dispatched seen new calls = older ++ (key, start) :: younger)
    (hclose : ∀ ts, (key, ts) ∈ rest → ts ≤ start + window)
    (hfew : younger.length +
      ((dispatched seen (after seen new calls) rest).filter fun c ↦ c.1 ≠ key).length < capacity) :
    ∀ c ∈ dispatched seen (after seen new calls) rest, c.1 ≠ key := by
  induction rest generalizing calls younger with
  | nil =>
    intro c hc
    exact absurd hc List.not_mem_nil
  | cons c rest ih =>
    have hrest : ∀ ts, (key, ts) ∈ rest → ts ≤ start + window :=
      fun ts hts ↦ hclose ts (List.mem_cons_of_mem c hts)
    rw [dispatched] at hfew ⊢
    by_cases hhit : (seen (after seen new calls) c.1 c.2).2 = true
    · rw [if_pos hhit] at hfew ⊢
      rw [← after_snoc] at hfew ⊢
      refine ih ?_ hrest hfew
      rw [dispatched_snoc_of_hit hhit, hhistory]
    · rw [if_neg hhit] at hfew ⊢
      have hother : c.1 ≠ key := by
        rintro rfl
        exact hhit (h.repeats hhistory (by omega) (hclose c.2 List.mem_cons_self))
      rw [List.filter_cons_of_pos (by simpa using hother), List.length_cons] at hfew
      rw [← after_snoc] at hfew ⊢
      rw [Bool.not_eq_true] at hhit
      have hlater : dispatched seen new (calls ++ [c]) =
          older ++ (key, start) :: (younger ++ [c]) := by
        rw [dispatched_snoc_of_miss hhit, hhistory, List.append_assoc, List.cons_append]
      intro e he
      rcases List.mem_cons.mp he with rfl | he
      · exact hother
      · refine ih hlater hrest ?_ e he
        rw [List.length_append, List.length_singleton]
        omega

/-- Of the copies of a frame within a window the first is dispatched, and no other. -/
theorem Recalls.dispatches_once [DecidableEq κ] (h : Recalls capacity window new seen)
    (hfresh : ∀ ts, (key, ts) ∈ dispatched seen new before → ts + window < start)
    (hclose : ∀ ts, (key, ts) ∈ rest → ts ≤ start + window)
    (hfew : ((dispatched seen (after seen new before) ((key, start) :: rest)).filter
      fun c ↦ c.1 ≠ key).length < capacity) :
    (dispatched seen (after seen new before) ((key, start) :: rest)).filter
      (fun c ↦ c.1 = key) = [(key, start)] := by
  have hmiss : (seen (after seen new before) key start).2 = false := by
    by_contra hhit
    rw [Bool.not_eq_false] at hhit
    obtain ⟨ts, hmem, hrecent⟩ := (h before key start).mp hhit
    have hout := hfresh ts (List.mem_of_mem_drop hmem)
    omega
  rw [dispatched, if_neg (by simp [hmiss])] at hfew ⊢
  have hstart : (seen (after seen new before) key start).1 =
      after seen new (before ++ [(key, start)]) := (after_snoc (c := (key, start))).symm
  rw [hstart, List.filter_cons_of_neg (by simp)] at hfew
  rw [hstart, List.filter_cons_of_pos (by simp)]
  have hhistory : dispatched seen new (before ++ [(key, start)]) =
      dispatched seen new before ++ (key, start) :: [] := dispatched_snoc_of_miss hmiss
  have hnone := h.none_of_key hhistory hclose (by simpa using hfew)
  rw [List.filter_eq_nil_iff.mpr (by simpa using hnone)]

/-- A key whose last dispatch is out of the window is let through. -/
theorem Recalls.releases [DecidableEq κ] (h : Recalls capacity window new seen)
    (hclock : calls.Pairwise fun c d ↦ c.2 ≤ d.2)
    (hlast : ∀ c, ((dispatched seen new calls).filter fun c ↦ c.1 = key).getLast? = some c →
      c.2 + window < now) : (seen (after seen new calls) key now).2 = false := by
  by_contra hhit
  rw [Bool.not_eq_false] at hhit
  obtain ⟨ts, hmem, hrecent⟩ := (h calls key now).mp hhit
  have hkey : (key, ts) ∈ (dispatched seen new calls).filter fun c ↦ c.1 = key := by
    refine List.mem_filter.mpr ⟨List.mem_of_mem_drop hmem, by simp⟩
  have hne : ((dispatched seen new calls).filter fun c ↦ c.1 = key) ≠ [] :=
    List.ne_nil_of_mem hkey
  have hsorted : ((dispatched seen new calls).filter fun c ↦ c.1 = key).Pairwise
      fun c d ↦ c.2 ≤ d.2 := (hclock.sublist dispatched_sublist).filter _
  have hle := hsorted.rel_getLast_of_rel_getLast_getLast hkey (Nat.le_refl _)
  have hout := hlast _ (List.getLast?_eq_some_getLast hne)
  simp only at hle
  omega

/-- All of it follows from what a call recalls. -/
theorem Recalls.deduplicates [DecidableEq κ] (h : Recalls capacity window new seen) :
    Deduplicates capacity window new seen where
  recalls := h
  once _ _ _ _ hfresh hclose hfew := h.dispatches_once hfresh hclose hfew
  released _ _ _ hclock hlast := h.releases hclock hlast

end Consequences

/-! ### The ring of the listeners -/

/-- `DedupEntry`. -/
structure DedupEntry where
  key : UInt64
  tsMs : ℕ
  set : Bool
  deriving DecidableEq

/-- `Dedup`, a ring of entries. -/
abbrev Dedup (capacity : ℕ) := RingBuffer DedupEntry capacity

section Dedup

variable {capacity : ℕ}

/-- `Dedup::new`. -/
def Dedup.new (h : 0 < capacity) : Dedup capacity := RingBuffer.empty ⟨0, 0, false⟩ h

/-- `Dedup::seen`: a hit leaves the ring alone, a miss is written at the head. The clock is a `u64`
that is only compared and subtracted from with saturation. -/
def Dedup.seen (window : ℕ) (d : Dedup capacity) (key : UInt64) (nowMs : ℕ) :
    Dedup capacity × Bool :=
  let cutoff := nowMs - window
  if d.cells.any fun e ↦ e.set && e.key == key && decide (cutoff ≤ e.tsMs) then (d, true)
  else (d.push ⟨key, nowMs, true⟩, false)

/-- The entry that a dispatched call leaves. -/
def entry (c : UInt64 × ℕ) : DedupEntry := ⟨c.1, c.2, true⟩

theorem entry_injective : Function.Injective entry := by
  rintro ⟨key, ts⟩ ⟨key', ts'⟩ h
  obtain ⟨rfl, rfl, -⟩ := DedupEntry.mk.inj h
  rfl

variable {window : ℕ} {d : Dedup capacity} {key : UInt64} {nowMs : ℕ}

/-- A call answers with what is in the ring. -/
theorem Dedup.seen_hit_iff : (Dedup.seen window d key nowMs).2 = true ↔
    ∃ ts, entry (key, ts) ∈ d.cells ∧ nowMs - window ≤ ts := by
  have hany : (Dedup.seen window d key nowMs).2 =
      d.cells.any fun e ↦ e.set && e.key == key && decide (nowMs - window ≤ e.tsMs) := by
    simp only [Dedup.seen]
    split_ifs with hhit
    · exact hhit.symm
    · simpa using hhit
  rw [hany, Vector.any_eq_true']
  constructor
  · rintro ⟨⟨key', ts, set⟩, hmem, hhit⟩
    simp only [Bool.and_eq_true, decide_eq_true_eq, beq_iff_eq] at hhit
    obtain ⟨⟨rfl, rfl⟩, hrecent⟩ := hhit
    exact ⟨ts, hmem, hrecent⟩
  · rintro ⟨ts, hmem, hrecent⟩
    exact ⟨entry (key, ts), hmem, by simp [entry, hrecent]⟩

/-- A call that is let through is written into the ring. -/
theorem Dedup.seen_miss (h : ¬ (Dedup.seen window d key nowMs).2 = true) :
    (Dedup.seen window d key nowMs).1 = d.push (entry (key, nowMs)) := by
  simp only [Dedup.seen] at h ⊢
  split_ifs at h ⊢
  · exact absurd rfl h
  · rfl

theorem Dedup.seen_hit (h : (Dedup.seen window d key nowMs).2 = true) :
    (Dedup.seen window d key nowMs).1 = d := by
  simp only [Dedup.seen] at h ⊢
  split_ifs at h ⊢
  rfl

/-- The ring holds the calls that were dispatched. -/
theorem Dedup.holds_after {history calls : List (UInt64 × ℕ)}
    (h : RingBuffer.Holds ⟨0, 0, false⟩ (history.map entry) d) :
    RingBuffer.Holds ⟨0, 0, false⟩
      ((history ++ dispatched (Dedup.seen window) d calls).map entry)
      (after (Dedup.seen window) d calls) := by
  induction calls generalizing d history with
  | nil =>
    rw [dispatched, List.append_nil]
    exact h
  | cons c calls ih =>
    have hafter : after (Dedup.seen window) d (c :: calls) =
        after (Dedup.seen window) (Dedup.seen window d c.1 c.2).1 calls := rfl
    rw [dispatched, hafter]
    by_cases hhit : (Dedup.seen window d c.1 c.2).2 = true
    · rw [if_pos hhit, Dedup.seen_hit hhit]
      exact ih h
    · rw [if_neg hhit, Dedup.seen_miss hhit, List.append_cons]
      refine ih ?_
      rw [List.map_append, List.map_singleton]
      exact h.push (entry c)

/-- What the ring recalls of the calls. -/
theorem Dedup.recalls (hcapacity : 0 < capacity) (window : ℕ) :
    Recalls capacity window (Dedup.new hcapacity) (Dedup.seen window) := by
  intro calls key now
  have hempty : RingBuffer.Holds ⟨0, 0, false⟩ (([] : List (UInt64 × ℕ)).map entry)
      (Dedup.new hcapacity) := RingBuffer.holds_empty _ hcapacity
  have hholds : RingBuffer.Holds ⟨0, 0, false⟩
      ((dispatched (Dedup.seen window) (Dedup.new hcapacity) calls).map entry)
      (after (Dedup.seen window) (Dedup.new hcapacity) calls) := Dedup.holds_after hempty
  have hmem : ∀ ts,
      entry (key, ts) ∈ (after (Dedup.seen window) (Dedup.new hcapacity) calls).cells ↔
        (key, ts) ∈ (dispatched (Dedup.seen window) (Dedup.new hcapacity) calls).rtake
          capacity := by
    intro ts
    rw [hholds.mem_iff (by simp [entry]), List.rtake, List.rtake, List.length_map,
      ← List.map_drop, List.mem_map_of_injective entry_injective]
  rw [Dedup.seen_hit_iff]
  simp only [hmem]

end Dedup

/-! ### Keys -/

/-- `fnv1a_64`. -/
def fnv1a64 (data : List UInt8) : UInt64 :=
  data.foldl (fun h b ↦ (h ^^^ b.toUInt64) * 0x00000100000001b3) 0xcbf29ce484222325

/-- `dedup_key` with the number of payload bytes that are hashed. -/
def dedupKey (maxHashBytes : ℕ) (srcIp : Octets) (srcPort : UInt16) (payload : List UInt8) :
    UInt64 :=
  let ipBits := srcIp.toList.foldl (fun n b ↦ n * 256 + b.toUInt64) 0
  fnv1a64 (payload.take maxHashBytes) ^^^ ipBits ^^^ (srcPort.toUInt64 <<< 32)

end DoorAccess.Listen

/-! ### The two listeners -/

namespace DoorAccess.Listen6672

def DEDUP_CAPACITY : ℕ := 64

def DEDUP_WINDOW_MS : ℕ := 200

abbrev Dedup := Listen.Dedup DEDUP_CAPACITY

def Dedup.new : Dedup := Listen.Dedup.new (by decide)

def Dedup.seen : Dedup → UInt64 → ℕ → Dedup × Bool := Listen.Dedup.seen DEDUP_WINDOW_MS

end DoorAccess.Listen6672

namespace DoorAccess.Listen18022

def DEDUP_CAPACITY : ℕ := 64

def DEDUP_WINDOW_MS : ℕ := 200

def MAX_HASH_BYTES : ℕ := 64

abbrev Dedup := Listen.Dedup DEDUP_CAPACITY

def Dedup.new : Dedup := Listen.Dedup.new (by decide)

def Dedup.seen : Dedup → UInt64 → ℕ → Dedup × Bool := Listen.Dedup.seen DEDUP_WINDOW_MS

def dedupKey : Octets → UInt16 → List UInt8 → UInt64 := Listen.dedupKey MAX_HASH_BYTES

/-- A frame captured on a slave, with the time at which it is handed on. -/
structure Capture where
  nowMs : ℕ
  srcIp : Octets
  dstIp : Octets
  srcPort : UInt16
  dstPort : UInt16
  payload : List UInt8

/-- The call of `seen` for a capture. -/
def Capture.call (c : Capture) : UInt64 × ℕ :=
  (dedupKey c.srcIp c.srcPort c.payload, c.nowMs)

/-- `parse_frame`. -/
def parseFrame (payload : List UInt8) : Option (ℤ × List UInt8) :=
  (Wire18022.parseResponseFrame payload).toOption

/-- The frame that goes to the callback and the subscribers, if the payload is one. -/
def Capture.detected (c : Capture) : Option DetectedFrame :=
  (parseFrame c.payload).map fun (req, body) ↦ ⟨req, body, c.srcIp, c.dstIp, c.srcPort, c.dstPort⟩

/-- `dispatch_with_dedup`; a listener with one slave has no deduplicator. -/
def dispatchWithDedup (dedup : Option Dedup) (c : Capture) : Option Dedup × Option DetectedFrame :=
  match dedup with
  | none => (none, c.detected)
  | some d =>
    let (d', hit) := Dedup.seen d c.call.1 c.call.2
    (some d', if hit then none else c.detected)

/-- The frames that come of a sequence of captures. -/
def dispatchAll (dedup : Option Dedup) : List Capture → List DetectedFrame
  | [] => []
  | c :: captures =>
    (dispatchWithDedup dedup c).2.toList ++ dispatchAll (dispatchWithDedup dedup c).1 captures

/-- With several slaves, the captures whose calls are dispatched are handed on, and no others. -/
theorem dispatchAll_some (d : Dedup) (captures : List Capture) :
    ∃ kept : List Capture, kept.Sublist captures ∧
      kept.map Capture.call = Listen.dispatched Dedup.seen d (captures.map Capture.call) ∧
      dispatchAll (some d) captures = kept.filterMap Capture.detected := by
  induction captures generalizing d with
  | nil => exact ⟨[], List.Sublist.refl [], rfl, rfl⟩
  | cons c captures ih =>
    obtain ⟨kept, hsublist, hcalls, hframes⟩ := ih (Dedup.seen d c.call.1 c.call.2).1
    rw [List.map_cons, Listen.dispatched, dispatchAll]
    by_cases hhit : (Dedup.seen d c.call.1 c.call.2).2 = true
    · refine ⟨kept, hsublist.trans (List.sublist_cons_self c captures), ?_, ?_⟩
      · rw [if_pos hhit, hcalls]
      · simp [dispatchWithDedup, hhit, hframes]
    · refine ⟨c :: kept, hsublist.cons_cons c, ?_, ?_⟩
      · rw [if_neg hhit, List.map_cons, hcalls]
      · simp only [dispatchWithDedup, if_neg hhit, hframes]
        cases hdetected : c.detected with
        | none => rw [List.filterMap_cons_none hdetected]; rfl
        | some frame => rw [List.filterMap_cons_some hdetected]; rfl

end DoorAccess.Listen18022

namespace DoorAccess.Listen

/-- **Both listeners deduplicate**, and what the listener of port 18022 hands on with several slaves
are the frames of the dispatched captures. -/
theorem dedup_of_both_listeners :
    Deduplicates Listen6672.DEDUP_CAPACITY Listen6672.DEDUP_WINDOW_MS Listen6672.Dedup.new
        Listen6672.Dedup.seen ∧
      Deduplicates Listen18022.DEDUP_CAPACITY Listen18022.DEDUP_WINDOW_MS Listen18022.Dedup.new
        Listen18022.Dedup.seen ∧
      ∀ (d : Listen18022.Dedup) captures, ∃ kept : List Listen18022.Capture,
        kept.Sublist captures ∧
        kept.map Listen18022.Capture.call =
          dispatched Listen18022.Dedup.seen d (captures.map Listen18022.Capture.call) ∧
        Listen18022.dispatchAll (some d) captures =
          kept.filterMap Listen18022.Capture.detected := by
  have h6672 : Recalls Listen6672.DEDUP_CAPACITY Listen6672.DEDUP_WINDOW_MS Listen6672.Dedup.new
      Listen6672.Dedup.seen := Dedup.recalls (by decide) Listen6672.DEDUP_WINDOW_MS
  have h18022 : Recalls Listen18022.DEDUP_CAPACITY Listen18022.DEDUP_WINDOW_MS
      Listen18022.Dedup.new Listen18022.Dedup.seen :=
    Dedup.recalls (by decide) Listen18022.DEDUP_WINDOW_MS
  exact ⟨h6672.deduplicates, h18022.deduplicates, Listen18022.dispatchAll_some⟩

end DoorAccess.Listen
