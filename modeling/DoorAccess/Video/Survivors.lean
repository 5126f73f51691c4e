import DoorAccess.Video.Window
import Mathlib.Data.List.Forall2

/-!
# The survivors of a lossy stream

A loss pattern, the packets that survive it, the order in which the sorting window hands them out,
and what one packet does to the buffer. The window sees numbers and markers only
(`SameNumbers.handedOut`), so that this order belongs to the pattern (`windowOrder`): it is that of
the survivors unless so many packets are lost in a row that a later number looks like an older one.
The payload bytes carry the number of the sender's frame they belong to; the reassembler moves them
about without looking (`pushAll_map`), so that the run over marked bytes shows where each byte of a
cut frame comes from.
-/

set_option autoImplicit false
set_option relaxedAutoImplicit false

namespace DoorAccess.Video

/-! ### The window sees numbers and markers only -/

section Window

variable {β γ : Type*} {R : RtpPacket β → RtpPacket γ → Prop}

/-- Related packets have the same marker, and their numbers lie equally far apart. -/
structure SameNumbers (R : RtpPacket β → RtpPacket γ → Prop) : Prop where
  marker : ∀ {p q}, R p q → p.marker = q.marker
  diff : ∀ {p q p' q'}, R p q → R p' q' → Serial.diff p.seq p'.seq = Serial.diff q.seq q'.seq

namespace SameNumbers

variable {p : RtpPacket β} {q : RtpPacket γ} {pending arrived : List (RtpPacket β)}
  {pending' arrived' : List (RtpPacket γ)}

theorem insertFromLast (h : SameNumbers R) (hp : R p q)
    (hpending : List.Forall₂ R pending pending') :
    List.Forall₂ R (insertFromLast p pending) (Video.insertFromLast q pending') := by
  induction hpending with
  | nil => exact .cons hp .nil
  | cons hlast hearlier ih =>
    simp only [Video.insertFromLast, h.diff hp hlast]
    split_ifs
    · exact .cons hp (.cons hlast hearlier)
    · exact .cons hlast ih

theorem windowStep (h : SameNumbers R) (hp : R p q) (hpending : List.Forall₂ R pending pending') :
    List.Forall₂ R (windowStep pending p).1 (Video.windowStep pending' q).1 ∧
      List.Forall₂ R (Video.windowStep pending p).2 (Video.windowStep pending' q).2 := by
  have hinsert : List.Forall₂ R (insertSorted pending p) (insertSorted pending' q) :=
    List.rel_reverse (h.insertFromLast hp (List.rel_reverse hpending))
  have hlength := hinsert.length_eq
  simp only [Video.windowStep, popCount, ← hlength, ← h.marker hp]
  split_ifs
  · exact ⟨.nil, hinsert⟩
  · exact ⟨List.forall₂_take _ hinsert, List.forall₂_drop _ hinsert⟩
  · exact ⟨List.forall₂_take _ hinsert, List.forall₂_drop _ hinsert⟩

theorem releases (h : SameNumbers R) (hpending : List.Forall₂ R pending pending')
    (harrived : List.Forall₂ R arrived arrived') :
    List.Forall₂ R (releases pending arrived).1 (Video.releases pending' arrived').1 ∧
      List.Forall₂ R (Video.releases pending arrived).2 (Video.releases pending' arrived').2 := by
  induction harrived generalizing pending pending' with
  | nil => exact ⟨.nil, hpending⟩
  | cons hp _ ih =>
    obtain ⟨hflushed, hkept⟩ := h.windowStep hp hpending
    obtain ⟨hrest, hleft⟩ := ih hkept
    exact ⟨List.rel_append hflushed hrest, hleft⟩

theorem handedOut (h : SameNumbers R) (harrived : List.Forall₂ R arrived arrived') :
    List.Forall₂ R (handedOut [] arrived) (Video.handedOut [] arrived') := by
  obtain ⟨hreleased, hkept⟩ := h.releases .nil harrived
  exact List.rel_append hreleased hkept

end SameNumbers

end Window

/-! ### The reassembler does not look at the bytes -/

section Map

variable {β γ ν : Type*} (f : β → γ)

theorem releases_map (arrived : List (RtpPacket β)) :
    (releases [] (arrived.map (RtpPacket.map f))).1 =
      (releases [] arrived).1.map (RtpPacket.map f) := by
  have hsame : SameNumbers fun (p : RtpPacket β) q ↦ p.map f = q := by
    constructor
    · rintro p _ rfl
      rfl
    · rintro p _ p' _ rfl rfl
      rfl
  have hmap : ∀ {ps : List (RtpPacket β)} {qs : List (RtpPacket γ)},
      List.Forall₂ (fun p q ↦ p.map f = q) ps qs ↔ ps.map (RtpPacket.map f) = qs := by
    intro ps qs
    rw [← List.forall₂_map_left_iff (R := Eq), List.forall₂_eq_eq_eq]
  exact (hmap.mp (hsame.releases .nil (hmap.mpr rfl)).1).symm

/-- The two buffers hold the same frame, byte for byte under `f`. -/
structure SameFrame (r : FrameReassembler β) (s : FrameReassembler γ) : Prop where
  frameBuf : s.frameBuf = r.frameBuf.map f
  frameTimestamp : s.frameTimestamp = r.frameTimestamp
  expectSeq : s.expectSeq = r.expectSeq
  expectSeqSet : s.expectSeqSet = r.expectSeqSet

variable {f} {r : FrameReassembler β} {s : FrameReassembler γ}

theorem SameFrame.dropFrame (h : SameFrame f r s) (reason : DropReason) :
    SameFrame f (dropFrame reason r) (dropFrame reason s) := by
  have hempty : s.frameBuf.isEmpty = r.frameBuf.isEmpty := by rw [h.frameBuf, List.isEmpty_map]
  simp only [Video.dropFrame, hempty]
  split_ifs
  · exact h
  · exact ⟨rfl, h.frameTimestamp, h.expectSeq, rfl⟩

theorem SameFrame.beginFrame (h : SameFrame f r s) (p : RtpPacket β) (seq : UInt16) :
    SameFrame f (beginFrame r p seq) (beginFrame s (p.map f) seq) :=
  ⟨h.frameBuf, rfl, rfl, rfl⟩

theorem SameFrame.appendPayload (h : SameFrame f r s) (p : RtpPacket β) :
    SameFrame f (appendPayload r p) (appendPayload s (p.map f)) := by
  have hpayload : (p.map f).payload = p.payload.map f := rfl
  simp only [Video.appendPayload, h.frameBuf, hpayload, List.length_map, ← List.map_append]
  split_ifs
  · exact (h.dropFrame .oversize).beginFrame p (p.seq + 1)
  · exact ⟨rfl, h.frameTimestamp, rfl, h.expectSeqSet⟩

theorem SameFrame.appendPacket (h : SameFrame f r s) (p : RtpPacket β) :
    SameFrame f (appendPacket r p) (appendPacket s (p.map f)) := by
  have hseq : (p.map f).seq = p.seq := rfl
  simp only [Video.appendPacket, h.expectSeqSet, h.expectSeq, hseq]
  split_ifs
  · exact (h.beginFrame p p.seq).appendPayload p
  · exact h
  · exact ((h.dropFrame .seqGap).beginFrame p p.seq).appendPayload p
  · exact h.appendPayload p

/-- The cut frames themselves, each with its timestamp, as `cut_frame` hands them to
`extract_nals_annexb`. -/
def cutFrames (arrived : List (RtpPacket β)) : List (List β × UInt32) :=
  (pushAll (fun buf timestamp ↦ [(buf, timestamp)]) .new arrived).2

theorem SameFrame.feedAll (extract : List γ → UInt32 → List ν) (h : SameFrame f r s)
    (ps : List (RtpPacket β)) :
    (feedAll extract s (ps.map (RtpPacket.map f))).2.1 =
      (Video.feedAll (fun buf timestamp ↦ [(buf, timestamp)]) r ps).2.1.flatMap
        (fun cut ↦ extract (cut.1.map f) cut.2) := by
  induction ps generalizing r s with
  | nil => rfl
  | cons p ps ih =>
    have happend := h.appendPacket p
    have hmarker : (p.map f).marker = p.marker := rfl
    simp only [List.map_cons, Video.feedAll, hmarker]
    by_cases hp : p.marker = true
    · simp only [if_pos hp, List.flatMap_append]
      have hempty : (Video.appendPacket s (p.map f)).frameBuf.isEmpty =
          (Video.appendPacket r p).frameBuf.isEmpty := by
        rw [happend.frameBuf, List.isEmpty_map]
      simp only [cutFrame, hempty]
      split_ifs
      · exact congrArg _ (ih happend)
      · rw [List.flatMap_singleton, happend.frameBuf, happend.frameTimestamp]
        exact congrArg _ (ih ⟨rfl, rfl, happend.expectSeq, rfl⟩)
    · simp only [if_neg hp]
      exact ih happend

/-- The units of a run are those of its cut frames, whatever the bytes stand for. -/
theorem pushAll_map (extract : List γ → UInt32 → List ν) (arrived : List (RtpPacket β)) :
    (pushAll extract .new (arrived.map (RtpPacket.map f))).2 =
      (cutFrames arrived).flatMap (fun cut ↦ extract (cut.1.map f) cut.2) := by
  have hnew : SameFrame f (.new : FrameReassembler β) .new := ⟨rfl, rfl, rfl, rfl⟩
  rw [cutFrames, pushAll_eq, pushAll_eq]
  show (Video.feedAll extract .new (releases [] (arrived.map (RtpPacket.map f))).1).2.1 = _
  rw [releases_map, hnew.feedAll extract]
  rfl

end Map

/-! ### Loss patterns -/

/-- What becomes of one sent packet: whether it is a marker packet, and whether it arrives. -/
structure Slot where
  marker : Bool
  kept : Bool
  deriving DecidableEq, Repr

/-- A packet that arrives: its position in the stream, the number of its frame, its marker. -/
structure Survivor where
  index : ℕ
  frame : ℕ
  marker : Bool
  deriving DecidableEq, Repr

/-- The survivors of a loss pattern that begins at a position and within a frame. -/
def survivorsFrom : ℕ → ℕ → List Slot → List Survivor
  | _, _, [] => []
  | index, frame, slot :: slots =>
    let rest := survivorsFrom (index + 1) (if slot.marker then frame + 1 else frame) slots
    if slot.kept then ⟨index, frame, slot.marker⟩ :: rest else rest

def survivors (slots : List Slot) : List Survivor :=
  survivorsFrom 0 0 slots

/-- The items of a list that arrive. -/
def surviving {α : Type*} : List Slot → List α → List α
  | slot :: slots, x :: xs => if slot.kept then x :: surviving slots xs else surviving slots xs
  | _, _ => []

/-- The packets of a stream with each byte marked by the number of its frame. -/
def tagged : ℕ → List (RtpPacket UInt8) → List (RtpPacket (UInt8 × ℕ))
  | _, [] => []
  | frame, p :: ps =>
    p.map (fun b ↦ (b, frame)) :: tagged (if p.marker then frame + 1 else frame) ps

/-- A survivor as the window sees it: its number and its marker, with itself for a payload. -/
def Survivor.packet (x : Survivor) : RtpPacket Survivor :=
  ⟨x.marker, 96, Serial.number 0 x.index, 0, 0, [x]⟩

/-- The survivors of a loss pattern in the order in which the sorting window hands them out. -/
def windowOrder (slots : List Slot) : List Survivor :=
  (handedOut [] ((survivors slots).map Survivor.packet)).flatMap RtpPacket.payload

/-- All bytes of a cut frame come from one frame of the sender. -/
def OneFrame (cut : List (UInt8 × ℕ) × UInt32) : Prop :=
  ∀ a ∈ cut.1, ∀ b ∈ cut.1, a.2 = b.2

/-! ### The survivors on the wire -/

section Survivors

variable {start : UInt16}

/-- A packet on the wire is that of a survivor. -/
structure Carries (start : UInt16) (x : Survivor) (p : RtpPacket (UInt8 × ℕ)) : Prop where
  seq : p.seq = Serial.number start x.index
  marker : p.marker = x.marker
  payload : ∀ b ∈ p.payload, b.2 = x.frame

theorem carries_survivorsFrom {slots : List Slot} {sent : List (RtpPacket UInt8)} {index frame : ℕ}
    (hseq : Consecutive (Serial.number start index) sent)
    (hmarkers : sent.map RtpPacket.marker = slots.map Slot.marker) :
    List.Forall₂ (Carries start) (survivorsFrom index frame slots)
      (surviving slots (tagged frame sent)) := by
  induction slots generalizing sent index frame with
  | nil =>
    rw [surviving]
    · exact .nil
    · simp
  | cons slot slots ih =>
    cases sent with
    | nil => cases hmarkers
    | cons p sent =>
      obtain ⟨hp, hsent⟩ := hseq
      obtain ⟨hmarker, hrest⟩ := List.cons.inj hmarkers
      rw [← Serial.number_succ] at hsent
      simp only [survivorsFrom, tagged, surviving, hmarker]
      split_ifs
      · refine .cons ⟨hp, hmarker, ?_⟩ (ih hsent hrest)
        simp [RtpPacket.map]
      · refine .cons ⟨hp, hmarker, ?_⟩ (ih hsent hrest)
        simp [RtpPacket.map]
      · exact ih hsent hrest
      · exact ih hsent hrest

theorem carries_survivors {slots : List Slot} {sent : List (RtpPacket UInt8)}
    (hseq : Consecutive start sent)
    (hmarkers : sent.map RtpPacket.marker = slots.map Slot.marker) :
    List.Forall₂ (Carries start) (survivors slots) (surviving slots (tagged 0 sent)) := by
  rw [← Serial.number_zero start] at hseq
  exact carries_survivorsFrom hseq hmarkers

theorem survivorsFrom_pairwise (index frame : ℕ) (slots : List Slot) :
    (survivorsFrom index frame slots).Pairwise (fun x y ↦ x.index < y.index) ∧
      ∀ x ∈ survivorsFrom index frame slots, index ≤ x.index := by
  induction slots generalizing index frame with
  | nil =>
    refine ⟨.nil, ?_⟩
    simp [survivorsFrom]
  | cons slot slots ih =>
    obtain ⟨hpairwise, hle⟩ := ih (index + 1) (if slot.marker then frame + 1 else frame)
    unfold survivorsFrom
    by_cases hkept : slot.kept = true
    · rw [if_pos hkept]
      refine ⟨.cons hle hpairwise, ?_⟩
      intro x hx
      rcases List.mem_cons.mp hx with rfl | hx
      · exact Nat.le_refl _
      · exact Nat.le_of_succ_le (hle x hx)
    · rw [if_neg hkept]
      exact ⟨hpairwise, fun x hx ↦ Nat.le_of_succ_le (hle x hx)⟩

/-- Whatever packets the survivors stand for, they are handed out in window order. -/
theorem forall₂_windowOrder {β : Type*} {R : Survivor → RtpPacket β → Prop} {slots : List Slot}
    {arrived : List (RtpPacket β)} (hseq : ∀ {x p}, R x p → p.seq = Serial.number start x.index)
    (hmarker : ∀ {x p}, R x p → p.marker = x.marker)
    (harrived : List.Forall₂ R (survivors slots) arrived) :
    List.Forall₂ R (windowOrder slots) (handedOut [] arrived) := by
  have hsame : SameNumbers fun (w : RtpPacket Survivor) p ↦ ∃ x, w = x.packet ∧ R x p := by
    constructor
    · rintro _ p ⟨x, rfl, hx⟩
      exact (hmarker hx).symm
    · rintro _ p _ p' ⟨x, rfl, hx⟩ ⟨y, rfl, hy⟩
      rw [hseq hx, hseq hy, Serial.diff_number_start]
      rfl
  have hwire : List.Forall₂ (fun w p ↦ ∃ x : Survivor, w = x.packet ∧ R x p)
      ((survivors slots).map Survivor.packet) arrived := by
    rw [List.forall₂_map_left_iff]
    exact harrived.imp fun x p hx ↦ ⟨x, rfl, hx⟩
  have hout := hsame.handedOut hwire
  rw [windowOrder]
  generalize handedOut [] ((survivors slots).map Survivor.packet) = wires at hout ⊢
  generalize handedOut [] arrived = released at hout ⊢
  induction hout with
  | nil => exact .nil
  | cons hw _ ih =>
    obtain ⟨x, rfl, hx⟩ := hw
    exact .cons hx ih

theorem flatMap_packet (ss : List Survivor) :
    (ss.map Survivor.packet).flatMap RtpPacket.payload = ss := by
  rw [List.flatMap_map]
  exact List.flatMap_singleton' ss

/-- The window loses no survivor and makes none up. -/
theorem windowOrder_perm (slots : List Slot) : (windowOrder slots).Perm (survivors slots) := by
  have hperm := (handedOut_perm [] ((survivors slots).map Survivor.packet)).flatMap_right
    RtpPacket.payload
  rwa [List.nil_append, flatMap_packet] at hperm

/-- Where no survivor's number looks older than the one before it, unless that is a marker, the
window keeps their order. -/
theorem windowOrder_of_inOrder {slots : List Slot}
    (h : InOrder ((survivors slots).map Survivor.packet)) :
    windowOrder slots = survivors slots := by
  have horder : InOrder ([] ++ (survivors slots).map Survivor.packet) := h
  have hreleased := (releases_inOrder horder (Nat.zero_lt_succ 7) (by simp)).1
  rw [windowOrder, handedOut, hreleased, List.nil_append, flatMap_packet]

/-! ### A packet through the buffer -/

variable {β : Type*}

theorem dropFrame_frameBuf (reason : DropReason) (r : FrameReassembler β) :
    (dropFrame reason r).frameBuf = [] := by
  by_cases hempty : r.frameBuf.isEmpty = true
  · rw [dropFrame, if_pos hempty]
    exact List.isEmpty_iff.mp hempty
  · rw [dropFrame, if_neg hempty]

theorem appendPayload_fields (r : FrameReassembler β) (p : RtpPacket β)
    (hset : r.expectSeqSet = true) :
    (appendPayload r p).expectSeqSet = true ∧ (appendPayload r p).expectSeq = p.seq + 1 ∧
      ((appendPayload r p).frameBuf = [] ∧
          FRAME_MAX_BYTES < r.frameBuf.length + p.payload.length ∨
        (appendPayload r p).frameBuf = r.frameBuf ++ p.payload) := by
  unfold appendPayload
  split_ifs with hlarge
  · exact ⟨rfl, rfl, Or.inl ⟨dropFrame_frameBuf _ _, hlarge⟩⟩
  · exact ⟨hset, rfl, Or.inr rfl⟩

/-- What `append_packet` can do with a packet: ignore it, append it to the buffer, or begin anew
with it, the last when the gap is large or no number is expected. Where it is taken in, the number
behind it is expected next, and the cap may empty the buffer. -/
theorem appendPacket_cases (r : FrameReassembler β) (p : RtpPacket β) :
    (appendPacket r p = r ∧ r.expectSeqSet = true ∧ Serial.diff p.seq r.expectSeq < 0) ∨
    (appendPacket r p).expectSeqSet = true ∧ (appendPacket r p).expectSeq = p.seq + 1 ∧
      ∃ held, ((appendPacket r p).frameBuf = [] ∧
          FRAME_MAX_BYTES < held.length + p.payload.length ∨
        (appendPacket r p).frameBuf = held ++ p.payload) ∧
      (held = [] ∨ held = r.frameBuf ∧
        (r.expectSeqSet = false ∨ Serial.diff p.seq r.expectSeq ≤ REASSEMBLER_WINDOW_SIZE)) := by
  by_cases hset : r.expectSeqSet = true
  · simp only [appendPacket, hset, Bool.not_true, Bool.false_eq_true, if_false]
    split_ifs with hlow hlarge
    · exact Or.inl ⟨rfl, trivial, hlow⟩
    · obtain ⟨hset', hexpect, hbuf⟩ :=
        appendPayload_fields (beginFrame (dropFrame .seqGap r) p p.seq) p rfl
      have hdropped : (beginFrame (dropFrame .seqGap r) p p.seq).frameBuf = [] :=
        dropFrame_frameBuf _ _
      rw [hdropped] at hbuf
      exact Or.inr ⟨hset', hexpect, [], hbuf, Or.inl rfl⟩
    · obtain ⟨hset', hexpect, hbuf⟩ := appendPayload_fields r p hset
      exact Or.inr ⟨hset', hexpect, r.frameBuf, hbuf, Or.inr ⟨rfl, Or.inr (not_lt.mp hlarge)⟩⟩
  · have hunset := eq_false_of_ne_true hset
    rw [appendPacket_fresh hunset]
    obtain ⟨hset', hexpect, hbuf⟩ := appendPayload_fields (beginFrame r p p.seq) p rfl
    exact Or.inr ⟨hset', hexpect, r.frameBuf, hbuf, Or.inr ⟨rfl, Or.inl hunset⟩⟩

theorem cutFrame_fields {ν : Type*} (extract : List β → UInt32 → List ν) (r : FrameReassembler β) :
    (cutFrame extract r).1.frameBuf = [] ∧
    (cutFrame extract r).2 =
      if r.frameBuf = [] then [] else extract r.frameBuf r.frameTimestamp := by
  by_cases hempty : r.frameBuf = []
  · have hisEmpty : r.frameBuf.isEmpty = true := List.isEmpty_iff.mpr hempty
    simp only [cutFrame, if_pos hisEmpty, if_pos hempty]
    exact ⟨hempty, trivial⟩
  · have hisEmpty : ¬ r.frameBuf.isEmpty = true := fun h ↦ hempty (List.isEmpty_iff.mp h)
    simp only [cutFrame, if_neg hisEmpty, if_neg hempty]
    exact ⟨trivial, trivial⟩

end Survivors

end DoorAccess.Video
