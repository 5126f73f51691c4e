import DoorAccess.Video.Reassembler
import Mathlib.Data.List.Chain

/-!
# Reassembly of a stream with neighbouring packets swapped

The sender numbers its packets consecutively modulo `2^16` and ends a frame with a marker packet.
`Arrival` is the relation between the sending order and an arrival order in which disjoint pairs of
neighbours are swapped, none of which brings a marker packet forward.

The window gives such a stream back in sending order and never keeps a marker
(`releases_arrival`): at the end of each pair it holds a suffix of what was sent, so that the next
packet has to be compared with at most two others. The buffer turns consecutive packets into
exactly the sender's frames (`feedAll_frames`).
-/

set_option autoImplicit false
set_option relaxedAutoImplicit false

namespace DoorAccess.Video

section Reorder

variable {β ν : Type*}

/-- Packets numbered consecutively from `seq`. -/
def Consecutive : UInt16 → List (RtpPacket β) → Prop
  | _, [] => True
  | seq, p :: ps => p.seq = seq ∧ Consecutive (seq + 1) ps

/-- An arrival order of sent packets: disjoint pairs of neighbours are swapped, and the packet that
moves forward is not a marker packet. -/
inductive Arrival : List (RtpPacket β) → List (RtpPacket β) → Prop
  | nil : Arrival [] []
  | keep (p : RtpPacket β) {sent arrived : List (RtpPacket β)} (h : Arrival sent arrived) :
    Arrival (p :: sent) (p :: arrived)
  | swap (p q : RtpPacket β) (hq : q.marker = false) {sent arrived : List (RtpPacket β)}
      (h : Arrival sent arrived) :
    Arrival (p :: q :: sent) (q :: p :: arrived)

/-- The complete frames of a stream behind the packets `acc` of a frame already begun: each ends
with its marker packet. -/
def framesFrom : List (RtpPacket β) → List (RtpPacket β) → List (List (RtpPacket β))
  | _, [] => []
  | acc, p :: ps =>
    if p.marker then (acc ++ [p]) :: framesFrom [] ps else framesFrom (acc ++ [p]) ps

/-- The packets of the frame that a stream leaves without its marker, behind the packets `acc`. -/
def unfinished : List (RtpPacket β) → List (RtpPacket β) → List (RtpPacket β)
  | acc, [] => acc
  | acc, p :: ps => if p.marker then unfinished [] ps else unfinished (acc ++ [p]) ps

/-- The bytes of a frame, in sequence order. -/
def frameBytes (frame : List (RtpPacket β)) : List β :=
  frame.flatMap RtpPacket.payload

/-- The timestamp of the first packet of a frame. -/
def frameStamp : List (RtpPacket β) → UInt32
  | [] => 0
  | p :: _ => p.timestamp

/-! ### The window -/

theorem Consecutive.adjacent {seq : UInt16} {init rest : List (RtpPacket β)} {a b : RtpPacket β}
    (h : Consecutive seq (init ++ a :: b :: rest)) : b.seq = a.seq + 1 := by
  induction init generalizing seq with
  | nil =>
    obtain ⟨ha, hb, -⟩ := h
    rw [hb, ha]
  | cons _ _ ih => exact ih h.2

theorem Consecutive.of_append {seq : UInt16} {first second : List (RtpPacket β)}
    (h : Consecutive seq (first ++ second)) : ∃ seq', Consecutive seq' second := by
  induction first generalizing seq with
  | nil => exact ⟨seq, h⟩
  | cons _ _ ih => exact ih h.2

theorem Consecutive.left {seq : UInt16} {first second : List (RtpPacket β)}
    (h : Consecutive seq (first ++ second)) : Consecutive seq first := by
  induction first generalizing seq with
  | nil => trivial
  | cons _ _ ih => exact ⟨h.1, ih h.2⟩

theorem insertSorted_of_le {init : List (RtpPacket β)} {last p : RtpPacket β}
    (h : 0 ≤ Serial.diff p.seq last.seq) :
    insertSorted (init ++ [last]) p = init ++ [last, p] := by
  simp [insertSorted, insertFromLast, h]

theorem insertSorted_of_lt {init : List (RtpPacket β)} {last p : RtpPacket β}
    (h : Serial.diff p.seq last.seq < 0) :
    insertSorted (init ++ [last]) p = insertSorted init p ++ [last] := by
  simp [insertSorted, insertFromLast, h]

/-- A packet that follows the sent ones, or all but one of them, goes to the end. -/
theorem insertSorted_append {pending : List (RtpPacket β)} {p : RtpPacket β}
    (h : ∀ init last, pending = init ++ [last] → 0 ≤ Serial.diff p.seq last.seq) :
    insertSorted pending p = pending ++ [p] := by
  rcases List.eq_nil_or_concat pending with rfl | ⟨init, last, rfl⟩
  · rfl
  · rw [List.concat_eq_append] at h ⊢
    rw [insertSorted_of_le (h init last rfl), List.append_assoc]
    rfl

/-- One packet through the window, once it is known where it is inserted: what is released and what
stays make up the window, nothing that stays is a marker, and without a marker the last packet
stays. -/
theorem windowStep_spec {pending window : List (RtpPacket β)} {p : RtpPacket β}
    (hinsert : insertSorted pending p = window)
    (hlength : window.length ≤ REASSEMBLER_WINDOW_SIZE)
    (hmarker : p.marker = false → ∀ x ∈ window, x.marker = false) :
    (windowStep pending p).1 ++ (windowStep pending p).2 = window ∧
    (windowStep pending p).2.length < REASSEMBLER_WINDOW_SIZE ∧
    (∀ x ∈ (windowStep pending p).2, x.marker = false) ∧
    (p.marker = false → ∀ init last, window = init ++ [last] →
      ∃ kept, (windowStep pending p).2 = kept ++ [last] ∧
        (windowStep pending p).1 ++ kept = init) := by
  simp only [windowStep, hinsert]
  split_ifs with hwait
  · refine ⟨rfl, hwait.1, hmarker hwait.2, ?_⟩
    rintro - init last rfl
    exact ⟨init, rfl, rfl⟩
  · cases hp : p.marker with
    | true =>
      refine ⟨by simp [popCount], by simp [popCount, REASSEMBLER_WINDOW_SIZE],
        by simp [popCount], by simp⟩
    | false =>
      have hfull : window.length = REASSEMBLER_WINDOW_SIZE := by
        rw [hp] at hwait
        have hnot : ¬ window.length < REASSEMBLER_WINDOW_SIZE := fun h ↦ hwait ⟨h, rfl⟩
        omega
      refine ⟨List.take_append_drop _ _, ?_, ?_, ?_⟩
      · simp only [popCount, List.length_drop, hfull, REASSEMBLER_WINDOW_SIZE]
        decide
      · exact fun x hx ↦ hmarker hp x (List.mem_of_mem_drop hx)
      · rintro - init last rfl
        refine ⟨[], ?_, ?_⟩
        · simp [popCount]
        · simp [popCount]

/-- One packet of a run through the window, once the rest of the run is known to give back what the
window keeps and what is still to come. -/
theorem releases_cons {pending arrived window sent : List (RtpPacket β)} {p : RtpPacket β}
    (hwindow : (windowStep pending p).1 ++ (windowStep pending p).2 = window)
    (hrest : (releases (windowStep pending p).2 arrived).1 ++
        (releases (windowStep pending p).2 arrived).2 = (windowStep pending p).2 ++ sent) :
    (releases pending (p :: arrived)).1 ++ (releases pending (p :: arrived)).2 =
      window ++ sent := by
  unfold releases
  rw [List.append_assoc, hrest, ← List.append_assoc, hwindow]

/-- A packet that goes to the end of a window without markers. -/
theorem windowStep_last {pending : List (RtpPacket β)} {p : RtpPacket β}
    (hinsert : insertSorted pending p = pending ++ [p])
    (hlength : pending.length < REASSEMBLER_WINDOW_SIZE)
    (hmarker : ∀ x ∈ pending, x.marker = false) :
    (windowStep pending p).1 ++ (windowStep pending p).2 = pending ++ [p] ∧
    (windowStep pending p).2.length < REASSEMBLER_WINDOW_SIZE ∧
    (∀ x ∈ (windowStep pending p).2, x.marker = false) ∧
    (p.marker = false → ∃ kept, (windowStep pending p).2 = kept ++ [p] ∧
      (windowStep pending p).1 ++ kept = pending) := by
  have hmarkers : p.marker = false → ∀ x ∈ pending ++ [p], x.marker = false := by
    intro hp x hx
    rcases List.mem_append.mp hx with hx | hx
    · exact hmarker x hx
    · exact List.mem_singleton.mp hx ▸ hp
  have hfits : (pending ++ [p]).length ≤ REASSEMBLER_WINDOW_SIZE := by
    rw [List.length_append]
    exact hlength
  obtain ⟨hall, hshort, hkept, hlast⟩ := windowStep_spec hinsert hfits hmarkers
  exact ⟨hall, hshort, hkept, fun hp ↦ hlast hp pending p rfl⟩

/-- The window gives a stream with swapped neighbours back in sending order, and keeps no
marker. -/
theorem releases_arrival {sent arrived pending : List (RtpPacket β)} {seq : UInt16}
    (harrival : Arrival sent arrived) (hseq : Consecutive seq (pending ++ sent))
    (hlength : pending.length < REASSEMBLER_WINDOW_SIZE)
    (hmarker : ∀ x ∈ pending, x.marker = false) :
    (releases pending arrived).1 ++ (releases pending arrived).2 = pending ++ sent ∧
      ∀ x ∈ (releases pending arrived).2, x.marker = false := by
  induction harrival generalizing pending seq with
  | nil => exact ⟨by simp [releases], by simpa [releases] using hmarker⟩
  | @keep p sent arrived _ ih =>
    have hinsert : insertSorted pending p = pending ++ [p] := by
      refine insertSorted_append fun init last hlast ↦ ?_
      rw [hlast, List.append_assoc] at hseq
      rw [hseq.adjacent, Serial.diff_succ]
      decide
    obtain ⟨hall, hshort, hkept, -⟩ := windowStep_last hinsert hlength hmarker
    have hafter : Consecutive seq ((windowStep pending p).1 ++
        ((windowStep pending p).2 ++ sent)) := by
      rw [← List.append_assoc, hall, List.append_assoc]
      exact hseq
    obtain ⟨seq', hseq'⟩ := hafter.of_append
    have hrest := ih hseq' hshort hkept
    refine ⟨?_, hrest.2⟩
    rw [releases_cons hall hrest.1, List.append_assoc]
    rfl
  | @swap p q hq sent arrived _ ih =>
    -- `q` comes first: its distance to the last packet of the window is two.
    have hinsertq : insertSorted pending q = pending ++ [q] := by
      refine insertSorted_append fun init last hlast ↦ ?_
      have hp : p.seq = last.seq + 1 := by
        rw [hlast, List.append_assoc] at hseq
        exact hseq.adjacent
      have hpq : q.seq = p.seq + 1 := hseq.adjacent
      rw [hpq, hp, Serial.diff_succ_succ]
      decide
    obtain ⟨-, hshortq, hkeptq, hlastq⟩ := windowStep_last hinsertq hlength hmarker
    obtain ⟨kept, hkept, hflushed⟩ := hlastq hq
    -- Then `p`, which goes in front of `q` and behind what the window has kept before it.
    have hinsertp : insertSorted (windowStep pending q).2 p = kept ++ [p, q] := by
      have hpq : q.seq = p.seq + 1 := hseq.adjacent
      have hbefore : Serial.diff p.seq q.seq < 0 := by
        rw [hpq, Serial.diff_pred]
        decide
      rw [hkept, insertSorted_of_lt hbefore, insertSorted_append, List.append_assoc]
      · rfl
      · intro init last hlast
        rw [← hflushed, hlast] at hseq
        simp only [List.append_assoc, List.cons_append, List.nil_append] at hseq
        rw [← List.append_assoc] at hseq
        rw [hseq.adjacent, Serial.diff_succ]
        decide
    have hmarkersp : p.marker = false → ∀ x ∈ kept ++ [p, q], x.marker = false := by
      intro hp x hx
      simp only [List.mem_append, List.mem_cons, List.not_mem_nil, or_false] at hx
      rcases hx with hx | hx | hx
      · exact hkeptq x (hkept ▸ List.mem_append_left _ hx)
      · exact hx ▸ hp
      · exact hx ▸ hq
    have hlengthp : (kept ++ [p, q]).length ≤ REASSEMBLER_WINDOW_SIZE := by
      rw [hkept] at hshortq
      simp only [List.length_append, List.length_cons, List.length_nil] at hshortq ⊢
      omega
    obtain ⟨hall, hshort, hmarked, -⟩ := windowStep_spec hinsertp hlengthp hmarkersp
    have hsent : (windowStep pending q).1 ++ (kept ++ [p, q] ++ sent) =
        pending ++ p :: q :: sent := by
      rw [List.append_assoc kept, ← List.append_assoc, hflushed]
      rfl
    obtain ⟨seq', hseq'⟩ := (hsent ▸ hseq).of_append
    rw [← hall, List.append_assoc] at hseq'
    obtain ⟨seq'', hseq''⟩ := hseq'.of_append
    have hrest := ih hseq'' hshort hmarked
    refine ⟨?_, hrest.2⟩
    rw [← hsent]
    have hsecond := releases_cons hall hrest.1
    generalize hwindow : (windowStep pending q).2 = window at hsecond
    simp only [releases, hwindow] at hsecond ⊢
    simp only [List.append_assoc] at hsecond ⊢
    rw [hsecond]

/-- Packets in serial order: none comes before its predecessor, unless that is a marker, behind
which the window is empty. -/
def InOrder (ps : List (RtpPacket β)) : Prop :=
  ps.IsChain fun a b ↦ a.marker = true ∨ 0 ≤ Serial.diff b.seq a.seq

/-- Packets that arrive in serial order are released in that order. -/
theorem releases_inOrder {pending arrived : List (RtpPacket β)}
    (horder : InOrder (pending ++ arrived))
    (hlength : pending.length < REASSEMBLER_WINDOW_SIZE)
    (hmarker : ∀ x ∈ pending, x.marker = false) :
    (releases pending arrived).1 ++ (releases pending arrived).2 = pending ++ arrived ∧
      ∀ x ∈ (releases pending arrived).2, x.marker = false := by
  induction arrived generalizing pending with
  | nil => exact ⟨by simp [releases], by simpa [releases] using hmarker⟩
  | cons p arrived ih =>
    have hinsert : insertSorted pending p = pending ++ [p] := by
      refine insertSorted_append fun init last hlast ↦ ?_
      rw [InOrder, hlast, List.append_assoc] at horder
      have hunmarked : last.marker = false := hmarker last (by simp [hlast])
      apply (List.isChain_append_cons_cons.mp horder).2.1.resolve_left
      rw [hunmarked]
      exact Bool.false_ne_true
    obtain ⟨hall, hshort, hkept, -⟩ := windowStep_last hinsert hlength hmarker
    have hafter : InOrder ((windowStep pending p).1 ++ ((windowStep pending p).2 ++ arrived)) := by
      rw [← List.append_assoc, hall, List.append_assoc]
      exact horder
    have hrest := ih (List.IsChain.right_of_append hafter) hshort hkept
    refine ⟨?_, hrest.2⟩
    rw [releases_cons hall hrest.1, List.append_assoc]
    rfl

/-! ### The frames of a stream -/

theorem framesFrom_append (acc first second : List (RtpPacket β)) :
    framesFrom acc (first ++ second) =
      framesFrom acc first ++ framesFrom (unfinished acc first) second := by
  induction first generalizing acc with
  | nil => rfl
  | cons p first ih =>
    simp only [List.cons_append, framesFrom, unfinished]
    split_ifs
    · rw [ih, List.cons_append]
    · exact ih _

theorem unfinished_append (acc first second : List (RtpPacket β)) :
    unfinished acc (first ++ second) = unfinished (unfinished acc first) second := by
  induction first generalizing acc with
  | nil => rfl
  | cons p first ih =>
    simp only [List.cons_append, unfinished]
    split_ifs
    · exact ih _
    · exact ih _

theorem framesFrom_of_unmarked (acc : List (RtpPacket β)) {ps : List (RtpPacket β)}
    (h : ∀ x ∈ ps, x.marker = false) : framesFrom acc ps = [] := by
  induction ps generalizing acc with
  | nil => rfl
  | cons p ps ih =>
    have hp : p.marker = false := h p List.mem_cons_self
    simp only [framesFrom, hp]
    exact ih _ fun x hx ↦ h x (List.mem_cons_of_mem p hx)

theorem unfinished_of_unmarked (acc : List (RtpPacket β)) {ps : List (RtpPacket β)}
    (h : ∀ x ∈ ps, x.marker = false) : unfinished acc ps = acc ++ ps := by
  induction ps generalizing acc with
  | nil => rw [unfinished, List.append_nil]
  | cons p ps ih =>
    have hp : p.marker = false := h p List.mem_cons_self
    have hps := ih (acc ++ [p]) fun x hx ↦ h x (List.mem_cons_of_mem p hx)
    simp only [unfinished, hp, Bool.false_eq_true, if_false]
    rw [hps, List.append_assoc]
    rfl

/-- A stream is its complete frames and then packets without a marker. -/
theorem exists_unfinished_split (ps : List (RtpPacket β)) :
    ∃ body tail, ps = body ++ tail ∧ unfinished [] body = [] ∧ ∀ x ∈ tail, x.marker = false := by
  induction ps using List.reverseRecOn with
  | nil =>
    refine ⟨[], [], rfl, rfl, ?_⟩
    simp
  | append_singleton ps p ih =>
    obtain ⟨body, tail, hps, hbody, htail⟩ := ih
    by_cases hp : p.marker = true
    · refine ⟨ps ++ [p], [], by simp, ?_, by simp⟩
      rw [unfinished_append, unfinished, if_pos hp]
      rfl
    · refine ⟨body, tail ++ [p], by rw [hps, List.append_assoc], hbody, ?_⟩
      intro x hx
      rcases List.mem_append.mp hx with hx | hx
      · exact htail x hx
      · rw [List.mem_singleton.mp hx]
        exact eq_false_of_ne_true hp

/-- What has been gathered of a frame is no longer than the frame it becomes part of. -/
theorem gathered_le {limit : ℕ} {acc ps : List (RtpPacket β)}
    (hframes : ∀ f ∈ framesFrom acc ps, (frameBytes f).length ≤ limit)
    (hrest : (frameBytes (unfinished acc ps)).length ≤ limit) :
    (frameBytes acc).length ≤ limit := by
  induction ps generalizing acc with
  | nil => exact hrest
  | cons p ps ih =>
    have hnext : (frameBytes acc).length ≤ (frameBytes (acc ++ [p])).length := by
      simp [frameBytes]
    simp only [framesFrom, unfinished] at hframes hrest
    by_cases hp : p.marker = true
    · rw [if_pos hp] at hframes
      exact Nat.le_trans hnext (hframes _ List.mem_cons_self)
    · rw [if_neg hp] at hframes hrest
      exact Nat.le_trans hnext (ih hframes hrest)

/-! ### The buffer -/

/-- The buffer has gathered the packets `acc` of a frame, and `next` is the number that follows. -/
structure Gathered (r : FrameReassembler β) (acc : List (RtpPacket β)) (next : UInt16) : Prop where
  bytes : r.frameBuf = frameBytes acc
  fresh : acc = [] → r.expectSeqSet = false
  begun : acc ≠ [] → r.expectSeqSet = true ∧ r.expectSeq = next ∧ r.frameTimestamp = frameStamp acc

theorem Gathered.appendPacket {r : FrameReassembler β} {acc : List (RtpPacket β)}
    {p : RtpPacket β} (h : Gathered r acc p.seq)
    (hfits : (frameBytes (acc ++ [p])).length ≤ FRAME_MAX_BYTES) :
    Gathered (appendPacket r p) (acc ++ [p]) (p.seq + 1) ∧
      (Video.appendPacket r p).stats = r.stats := by
  have hbytes : frameBytes (acc ++ [p]) = r.frameBuf ++ p.payload := by
    rw [h.bytes]
    simp [frameBytes]
  have hroom : r.frameBuf.length + p.payload.length ≤ FRAME_MAX_BYTES := by
    rw [← List.length_append, ← hbytes]
    exact hfits
  by_cases hacc : acc = []
  · have hbegun : (beginFrame r p p.seq).frameBuf.length + p.payload.length ≤ FRAME_MAX_BYTES :=
      hroom
    rw [appendPacket_fresh (h.fresh hacc), appendPayload_of_le hbegun]
    refine ⟨⟨hbytes.symm, ?_, ?_⟩, rfl⟩
    · simp
    · intro _
      refine ⟨rfl, rfl, ?_⟩
      rw [hacc]
      rfl
  · obtain ⟨hset, hexpect, hstamp⟩ := h.begun hacc
    have hgap : Serial.diff p.seq r.expectSeq = 0 := by rw [hexpect, Serial.diff_self]
    rw [appendPacket_tolerated hset (by rw [hgap]) (by rw [hgap]; decide),
      appendPayload_of_le hroom]
    refine ⟨⟨hbytes.symm, ?_, ?_⟩, rfl⟩
    · simp
    · intro _
      refine ⟨hset, rfl, ?_⟩
      cases acc with
      | nil => exact absurd rfl hacc
      | cons => exact hstamp

variable (extract : List β → UInt32 → List ν)

theorem Gathered.cutFrame {r : FrameReassembler β} {acc : List (RtpPacket β)} {next : UInt16}
    (h : Gathered r acc next) (hacc : acc ≠ []) (hsome : 0 < (frameBytes acc).length) :
    (cutFrame extract r).2 = extract (frameBytes acc) (frameStamp acc) ∧
    Gathered (Video.cutFrame extract r).1 [] next ∧
    (Video.cutFrame extract r).1.stats.frames = r.stats.frames + 1 ∧
    (Video.cutFrame extract r).1.stats.droppedFrames = r.stats.droppedFrames := by
  have hbuf : r.frameBuf.isEmpty = false := by
    rw [h.bytes]
    simpa [List.isEmpty_iff, List.length_pos_iff] using hsome
  obtain ⟨-, -, hstamp⟩ := h.begun hacc
  have hcut : (Video.cutFrame extract r).2 = extract r.frameBuf r.frameTimestamp := by
    simp [Video.cutFrame, hbuf]
  refine ⟨by rw [hcut, h.bytes, hstamp], ⟨?_, ?_, ?_⟩, ?_, ?_⟩
  · simp [Video.cutFrame, hbuf, frameBytes]
  · simp [Video.cutFrame, hbuf]
  · intro hnil
    exact absurd rfl hnil
  · simp [Video.cutFrame, hbuf]
  · simp [Video.cutFrame, hbuf]

/-- Consecutive packets through the buffer: the units of each frame in turn, and no frame is
dropped. -/
theorem feedAll_frames {r : FrameReassembler β} {acc ps : List (RtpPacket β)} {seq : UInt16}
    (h : Gathered r acc seq) (hseq : Consecutive seq ps)
    (hframes : ∀ f ∈ framesFrom acc ps,
      0 < (frameBytes f).length ∧ (frameBytes f).length ≤ FRAME_MAX_BYTES)
    (hrest : (frameBytes (unfinished acc ps)).length ≤ FRAME_MAX_BYTES) :
    (feedAll extract r ps).2.1 =
        (framesFrom acc ps).flatMap (fun f ↦ extract (frameBytes f) (frameStamp f)) ∧
    (feedAll extract r ps).1.stats.frames = r.stats.frames + (framesFrom acc ps).length ∧
    (feedAll extract r ps).1.stats.droppedFrames = r.stats.droppedFrames := by
  induction ps generalizing r acc seq with
  | nil => exact ⟨rfl, rfl, rfl⟩
  | cons p ps ih =>
    obtain ⟨hp, hps⟩ := hseq
    rw [← hp] at h
    simp only [framesFrom, unfinished, feedAll] at hframes hrest ⊢
    by_cases hmarker : p.marker = true
    · simp only [if_pos hmarker] at hframes hrest ⊢
      obtain ⟨hsome, hfits⟩ := hframes _ List.mem_cons_self
      obtain ⟨hgathered, hstats⟩ := h.appendPacket hfits
      obtain ⟨hnals, hcut, hcount, hdropped⟩ :=
        hgathered.cutFrame extract (by simp) hsome
      rw [hp] at hcut
      obtain ⟨ihnals, ihcount, ihdropped⟩ :=
        ih hcut hps (fun f hf ↦ hframes f (List.mem_cons_of_mem _ hf)) hrest
      refine ⟨?_, ?_, ?_⟩
      · rw [ihnals, hnals, List.flatMap_cons]
      · rw [ihcount, hcount, hstats, List.length_cons]
        omega
      · rw [ihdropped, hdropped, hstats]
    · simp only [if_neg hmarker] at hframes hrest ⊢
      have hfits := gathered_le (fun f hf ↦ (hframes f hf).2) hrest
      obtain ⟨hgathered, hstats⟩ := h.appendPacket hfits
      rw [hp] at hgathered
      rw [← hstats]
      exact ih hgathered hps hframes hrest

theorem appendPacket_frames (r : FrameReassembler β) (p : RtpPacket β) :
    (appendPacket r p).stats.frames = r.stats.frames := by
  have hdrop : ∀ (reason : DropReason) (r : FrameReassembler β),
      (dropFrame reason r).stats.frames = r.stats.frames := by
    intro reason r
    unfold dropFrame
    split_ifs
    · rfl
    · rfl
  have hpayload : ∀ r : FrameReassembler β,
      (appendPayload r p).stats.frames = r.stats.frames := by
    intro r
    simp only [appendPayload, beginFrame]
    split_ifs
    · exact hdrop _ _
    · rfl
  simp only [appendPacket]
  split_ifs
  · exact hpayload _
  · rfl
  · rw [hpayload]
    exact hdrop _ _
  · exact hpayload _

/-- Without a marker nothing is cut. -/
theorem feedAll_of_unmarked (r : FrameReassembler β) {ps : List (RtpPacket β)}
    (h : ∀ x ∈ ps, x.marker = false) :
    (feedAll extract r ps).2.1 = [] ∧
      (feedAll extract r ps).1.stats.frames = r.stats.frames := by
  induction ps generalizing r with
  | nil => exact ⟨rfl, rfl⟩
  | cons p ps ih =>
    have hp : p.marker = false := h p List.mem_cons_self
    simp only [feedAll, hp, Bool.false_eq_true, if_false]
    rw [← appendPacket_frames r p]
    exact ih _ fun x hx ↦ h x (List.mem_cons_of_mem p hx)

/-- A run over packets in serial order gives what the buffer alone gives. -/
theorem pushAll_inOrder {arrived : List (RtpPacket β)} (horder : InOrder arrived) :
    (pushAll extract .new arrived).2 = (feedAll extract .new arrived).2.1 := by
  have hnil : InOrder ([] ++ arrived) := horder
  obtain ⟨hreleased, hkept⟩ := releases_inOrder hnil (Nat.zero_lt_succ 7) (by simp)
  have hall := (feedAll_append extract .new (releases [] arrived).1 (releases [] arrived).2).2
  rw [hreleased, List.nil_append, (feedAll_of_unmarked extract _ hkept).1, List.append_nil] at hall
  rw [pushAll_eq, hall]
  rfl

theorem gathered_new (seq : UInt16) : Gathered (FrameReassembler.new : FrameReassembler β) [] seq :=
  ⟨rfl, fun _ ↦ rfl, fun h ↦ absurd rfl h⟩

/-- **Reassembly restores the sender's frames.** For a consecutively numbered stream whose frames
are not empty and fit the cap, and any arrival order with disjoint neighbours swapped that brings no
marker forward, the units returned over the run are those of each complete frame in order. As many
frames are cut as the sender has completed, and none is dropped unless it is an unfinished one that
does not fit the cap. -/
theorem pushAll_arrival (start : UInt16) (sent arrived : List (RtpPacket UInt8))
    (hseq : Consecutive start sent)
    (hframes : ∀ f ∈ framesFrom [] sent,
      0 < (frameBytes f).length ∧ (frameBytes f).length ≤ FRAME_MAX_BYTES)
    (harrival : Arrival sent arrived) :
    (pushAll extractNalsAnnexb .new arrived).2 =
        (framesFrom [] sent).flatMap
          (fun f ↦ extractNalsAnnexb (frameBytes f) (frameStamp f)) ∧
    (pushAll extractNalsAnnexb .new arrived).1.stats.frames = (framesFrom [] sent).length ∧
    ((frameBytes (unfinished [] sent)).length ≤ FRAME_MAX_BYTES →
      (pushAll extractNalsAnnexb .new arrived).1.stats.droppedFrames = 0) := by
  have hsent : Consecutive start ([] ++ sent) := hseq
  obtain ⟨hreleased, hkept⟩ := releases_arrival harrival hsent (by decide) (by simp)
  rw [List.nil_append] at hreleased
  rw [pushAll_eq]
  show (feedAll extractNalsAnnexb .new (releases [] arrived).1).2.1 = _ ∧
    (feedAll extractNalsAnnexb .new (releases [] arrived).1).1.stats.frames = _ ∧
    (_ → (feedAll extractNalsAnnexb .new (releases [] arrived).1).1.stats.droppedFrames = 0)
  generalize (releases [] arrived).1 = released at hreleased ⊢
  generalize (releases [] arrived).2 = kept at hreleased hkept
  -- What the window keeps at the end has no marker and completes no frame.
  have hsame : framesFrom [] released = framesFrom [] sent := by
    rw [← hreleased, framesFrom_append, framesFrom_of_unmarked _ hkept, List.append_nil]
  rw [← hsame] at hframes ⊢
  rw [← hreleased] at hseq
  refine and_assoc.mp ⟨?_, ?_⟩
  · -- The packets behind the last marker may be too many for the buffer, but give nothing.
    obtain ⟨body, tail, hsplit, hbody, htail⟩ := exists_unfinished_split released
    have hbodyFrames : framesFrom [] released = framesFrom [] body := by
      rw [hsplit, framesFrom_append, framesFrom_of_unmarked _ htail, List.append_nil]
    rw [hbodyFrames] at hframes ⊢
    have hbodySeq : Consecutive start body := by
      rw [hsplit, List.append_assoc] at hseq
      exact hseq.left
    obtain ⟨hnals, hcount, -⟩ := feedAll_frames extractNalsAnnexb (gathered_new start)
      hbodySeq hframes (by rw [hbody]; decide)
    obtain ⟨htailNals, htailCount⟩ := feedAll_of_unmarked extractNalsAnnexb
      (feedAll extractNalsAnnexb .new body).1 htail
    have happend := feedAll_append extractNalsAnnexb .new body tail
    rw [hsplit, happend.1, happend.2, htailNals, htailCount, hnals, hcount, List.append_nil]
    exact ⟨rfl, Nat.zero_add _⟩
  · intro hrest
    have hfits : (frameBytes (unfinished [] released)).length ≤ FRAME_MAX_BYTES := by
      refine Nat.le_trans ?_ hrest
      rw [← hreleased, unfinished_append, unfinished_of_unmarked _ hkept]
      simp [frameBytes]
    exact (feedAll_frames extractNalsAnnexb (gathered_new start) hseq.left hframes hfits).2.2

/-- A frame of three packets whose numbers wrap. -/
def wrappingFrame : List (RtpPacket UInt8) :=
  [⟨false, 96, 65535, 9000, 7, START_CODE ++ [0x65]⟩, ⟨false, 96, 0, 9000, 7, [1, 2]⟩,
    ⟨true, 96, 1, 9000, 7, [3]⟩]

/-- The same packets with the first two swapped. -/
def wrappingFrameSwapped : List (RtpPacket UInt8) :=
  [⟨false, 96, 0, 9000, 7, [1, 2]⟩, ⟨false, 96, 65535, 9000, 7, START_CODE ++ [0x65]⟩,
    ⟨true, 96, 1, 9000, 7, [3]⟩]

theorem pushAll_wrappingFrameSwapped :
    Arrival wrappingFrame wrappingFrameSwapped ∧
      (pushAll extractNalsAnnexb .new wrappingFrameSwapped).2 =
        [⟨NAL_TYPE_IDR, [0x65, 1, 2, 3], 9000, 0⟩] := by
  have harrival : Arrival wrappingFrame wrappingFrameSwapped :=
    .swap _ _ rfl (.keep _ .nil)
  have hseq : Consecutive 65535 wrappingFrame := ⟨rfl, rfl, rfl, trivial⟩
  have hframes : framesFrom [] wrappingFrame = [wrappingFrame] := rfl
  have hbytes : frameBytes wrappingFrame = START_CODE ++ [0x65, 1, 2, 3] := rfl
  have hstamp : frameStamp wrappingFrame = 9000 := rfl
  refine ⟨harrival, ?_⟩
  rw [(pushAll_arrival 65535 wrappingFrame wrappingFrameSwapped hseq ?_ harrival).1, hframes,
    List.flatMap_singleton, hbytes, hstamp]
  · have htype : (0x65 : UInt8) &&& 0x1f = NAL_TYPE_IDR := by decide
    simp [extractNalsAnnexb, findStartCode, START_CODE, nalsAfter, nalOf, htype]
  · rw [hframes]
    intro f hf
    rw [List.mem_singleton.mp hf, hbytes]
    exact ⟨by decide, by decide⟩

end Reorder

end DoorAccess.Video
