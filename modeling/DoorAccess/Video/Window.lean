import DoorAccess.Video.Reorder
import Mathlib.Data.List.TakeWhile

/-!
# The sorting window over any packets

What the window does whatever the sequence numbers are. The comparison of two numbers by their
16-bit difference is no order, so nothing is said here about how the window is sorted: a packet goes
in front of the last `overtakes` packets, those that it is directly older than, and the window
releases from its front. Nothing is lost or made up (`windowStep_append`, `insertSorted_perm`), at
most seven packets stay, and none of them is a marker.
-/

set_option autoImplicit false
set_option relaxedAutoImplicit false

namespace DoorAccess.Video

section Window

variable {β ν : Type*} {pending : List (RtpPacket β)} {pkt : RtpPacket β}

/-- How many packets of the window a packet is sorted in front of. -/
def overtakes (pending : List (RtpPacket β)) (pkt : RtpPacket β) : ℕ :=
  (pending.reverse.takeWhile fun q ↦ Serial.diff pkt.seq q.seq < 0).length

theorem insertFromLast_eq (pkt : RtpPacket β) (rev : List (RtpPacket β)) :
    insertFromLast pkt rev =
      (rev.takeWhile fun q ↦ Serial.diff pkt.seq q.seq < 0) ++
        pkt :: rev.dropWhile fun q ↦ Serial.diff pkt.seq q.seq < 0 := by
  induction rev with
  | nil => rfl
  | cons last earlier ih =>
    by_cases hlater : Serial.diff pkt.seq last.seq < 0
    · simp only [insertFromLast, if_neg (not_le.mpr hlater), ih, List.takeWhile_cons,
        List.dropWhile_cons, decide_eq_true hlater, if_true, List.cons_append]
    · simp only [insertFromLast, if_pos (not_lt.mp hlater), List.takeWhile_cons,
        List.dropWhile_cons, decide_eq_false hlater, Bool.false_eq_true, if_false, List.nil_append]

/-- The window in two parts: the packet goes between them, in front of the last `overtakes`. -/
theorem exists_insertSorted (pending : List (RtpPacket β)) (pkt : RtpPacket β) :
    ∃ earlier later, pending = earlier ++ later ∧
      insertSorted pending pkt = earlier ++ pkt :: later ∧ later.length = overtakes pending pkt ∧
      (∀ q ∈ later, Serial.diff pkt.seq q.seq < 0) ∧
      ∀ init last, earlier = init ++ [last] → 0 ≤ Serial.diff pkt.seq last.seq := by
  refine ⟨(pending.reverse.dropWhile fun q ↦ Serial.diff pkt.seq q.seq < 0).reverse,
    (pending.reverse.takeWhile fun q ↦ Serial.diff pkt.seq q.seq < 0).reverse, ?_, ?_, ?_, ?_, ?_⟩
  · rw [← List.reverse_append, List.takeWhile_append_dropWhile, List.reverse_reverse]
  · rw [insertSorted, insertFromLast_eq, List.reverse_append, List.reverse_cons]
    simp
  · rw [List.length_reverse, overtakes]
  · intro q hq
    rw [List.mem_reverse] at hq
    have hlater := List.mem_takeWhile_imp hq
    simpa using hlater
  · intro init last hlast
    have hrev := congrArg List.reverse hlast
    rw [List.reverse_reverse, List.reverse_append, List.reverse_singleton,
      List.singleton_append] at hrev
    have hhead := List.head?_dropWhile_not
      (fun q : RtpPacket β ↦ decide (Serial.diff pkt.seq q.seq < 0)) pending.reverse
    rw [hrev] at hhead
    simpa using hhead

theorem insertSorted_perm (pending : List (RtpPacket β)) (pkt : RtpPacket β) :
    (insertSorted pending pkt).Perm (pkt :: pending) := by
  obtain ⟨earlier, later, hsplit, hinsert, -⟩ := exists_insertSorted pending pkt
  rw [hinsert, hsplit]
  exact List.perm_middle

theorem length_insertSorted (pending : List (RtpPacket β)) (pkt : RtpPacket β) :
    (insertSorted pending pkt).length = pending.length + 1 :=
  (insertSorted_perm pending pkt).length_eq

theorem insertSorted_ne_nil (pending : List (RtpPacket β)) (pkt : RtpPacket β) :
    insertSorted pending pkt ≠ [] := by
  intro hnil
  have hlength := length_insertSorted pending pkt
  rw [hnil] at hlength
  exact absurd hlength (by simp)

/-- What is released and what stays make up the window with the packet sorted in. -/
theorem windowStep_append (pending : List (RtpPacket β)) (pkt : RtpPacket β) :
    (windowStep pending pkt).1 ++ (windowStep pending pkt).2 = insertSorted pending pkt := by
  simp only [windowStep]
  split_ifs
  · rfl
  · exact List.take_append_drop _ _

theorem windowStep_perm (pending : List (RtpPacket β)) (pkt : RtpPacket β) :
    ((windowStep pending pkt).1 ++ (windowStep pending pkt).2).Perm (pkt :: pending) := by
  rw [windowStep_append]
  exact insertSorted_perm pending pkt

/-- A marker packet empties the window. -/
theorem windowStep_marker (pending : List (RtpPacket β)) (h : pkt.marker = true) :
    windowStep pending pkt = (insertSorted pending pkt, []) := by
  simp [windowStep, h, popCount]

/-- Below its size the window only takes the packet in. -/
theorem windowStep_room (h : pkt.marker = false)
    (hroom : pending.length + 1 < REASSEMBLER_WINDOW_SIZE) :
    windowStep pending pkt = ([], insertSorted pending pkt) := by
  simp [windowStep, h, length_insertSorted, hroom]

/-- A full window keeps its last packet. -/
theorem windowStep_full (h : pkt.marker = false)
    (hfull : pending.length + 1 = REASSEMBLER_WINDOW_SIZE) :
    ∃ init last, insertSorted pending pkt = init ++ [last] ∧
      windowStep pending pkt = (init, [last]) := by
  obtain ⟨init, last, hconcat⟩ := (List.eq_nil_or_concat (insertSorted pending pkt)).resolve_left
    (insertSorted_ne_nil pending pkt)
  rw [List.concat_eq_append] at hconcat
  refine ⟨init, last, hconcat, ?_⟩
  have hlength := length_insertSorted pending pkt
  rw [hfull, hconcat] at hlength
  have hinit : REASSEMBLER_WINDOW_SIZE - 1 = init.length := by
    rw [← hlength, List.length_append]
    rfl
  simp [windowStep, hconcat, hlength, h, popCount, hinit]

/-- A packet without a marker leaves at least one packet in the window. -/
theorem windowStep_ne_nil (pending : List (RtpPacket β)) (h : pkt.marker = false) :
    (windowStep pending pkt).2 ≠ [] := by
  have hlength := length_insertSorted pending pkt
  by_cases hroom : (insertSorted pending pkt).length < REASSEMBLER_WINDOW_SIZE
  · have hstep : (windowStep pending pkt).2 = insertSorted pending pkt := by
      simp [windowStep, h, hroom]
    rw [hstep]
    exact insertSorted_ne_nil pending pkt
  · have hstep : (windowStep pending pkt).2 =
        (insertSorted pending pkt).drop ((insertSorted pending pkt).length - 1) := by
      simp [windowStep, h, hroom, popCount]
    rw [hstep]
    intro hnil
    have hdrop := congrArg List.length hnil
    rw [List.length_drop, hlength, List.length_nil] at hdrop
    omega

/-- At most seven packets stay. -/
theorem windowStep_length (h : pending.length < REASSEMBLER_WINDOW_SIZE) :
    (windowStep pending pkt).2.length < REASSEMBLER_WINDOW_SIZE := by
  by_cases hmarker : pkt.marker = true
  · rw [windowStep_marker pending hmarker]
    exact Nat.zero_lt_succ 7
  · have hunmarked := eq_false_of_ne_true hmarker
    by_cases hroom : pending.length + 1 < REASSEMBLER_WINDOW_SIZE
    · rw [windowStep_room hunmarked hroom, length_insertSorted]
      exact hroom
    · obtain ⟨init, last, -, hstep⟩ :=
        windowStep_full hunmarked
          (show pending.length + 1 = REASSEMBLER_WINDOW_SIZE by omega)
      rw [hstep]
      exact Nat.one_lt_succ_succ 6

/-- None of the packets that stay is a marker. -/
theorem windowStep_unmarked (h : ∀ q ∈ pending, q.marker = false) :
    ∀ q ∈ (windowStep pending pkt).2, q.marker = false := by
  by_cases hmarker : pkt.marker = true
  · rw [windowStep_marker pending hmarker]
    simp
  · intro q hq
    have hmem : q ∈ insertSorted pending pkt := by
      rw [← windowStep_append]
      exact List.mem_append_right _ hq
    rcases List.mem_cons.mp ((insertSorted_perm pending pkt).mem_iff.mp hmem) with rfl | hold
    · exact eq_false_of_ne_true hmarker
    · exact h q hold

/-! ### Runs -/

theorem releases_length {arrived : List (RtpPacket β)}
    (h : pending.length < REASSEMBLER_WINDOW_SIZE) :
    (releases pending arrived).2.length < REASSEMBLER_WINDOW_SIZE := by
  induction arrived generalizing pending with
  | nil => exact h
  | cons pkt arrived ih => exact ih (windowStep_length h)

theorem releases_unmarked {arrived : List (RtpPacket β)} (h : ∀ q ∈ pending, q.marker = false) :
    ∀ q ∈ (releases pending arrived).2, q.marker = false := by
  induction arrived generalizing pending with
  | nil => exact h
  | cons pkt arrived ih => exact ih (windowStep_unmarked h)

theorem releases_append (pending first second : List (RtpPacket β)) :
    releases pending (first ++ second) =
      ((releases pending first).1 ++ (releases (releases pending first).2 second).1,
        (releases (releases pending first).2 second).2) := by
  induction first generalizing pending with
  | nil => rfl
  | cons pkt first ih =>
    simp only [List.cons_append, releases, ih, List.append_assoc]

/-- The packets that the window hands out over a run, those it still holds at the end included. -/
def handedOut (pending arrived : List (RtpPacket β)) : List (RtpPacket β) :=
  (releases pending arrived).1 ++ (releases pending arrived).2

theorem handedOut_cons (pending arrived : List (RtpPacket β)) (pkt : RtpPacket β) :
    handedOut pending (pkt :: arrived) =
      (windowStep pending pkt).1 ++ handedOut (windowStep pending pkt).2 arrived := by
  simp only [handedOut, releases, List.append_assoc]

theorem handedOut_append (pending first second : List (RtpPacket β)) :
    handedOut pending (first ++ second) =
      (releases pending first).1 ++ handedOut (releases pending first).2 second := by
  simp only [handedOut, releases_append, List.append_assoc]

theorem handedOut_perm (pending arrived : List (RtpPacket β)) :
    (handedOut pending arrived).Perm (pending ++ arrived) := by
  induction arrived generalizing pending with
  | nil =>
    rw [List.append_nil]
    exact List.Perm.refl _
  | cons pkt arrived ih =>
    rw [handedOut_cons]
    have hstep := (windowStep_perm pending pkt).append_right arrived
    rw [List.append_assoc] at hstep
    exact ((ih _).append_left _).trans (hstep.trans List.perm_middle.symm)

variable (extract : List β → UInt32 → List ν)

theorem pushAll_pending (arrived : List (RtpPacket β)) :
    (pushAll extract .new arrived).1.pending = (releases [] arrived).2 := by
  rw [pushAll_eq]
  rfl

/-- The units of a run are those of the buffer on all that the window hands out: what it still holds
at the end completes no frame. -/
theorem pushAll_handedOut (arrived : List (RtpPacket β)) :
    (pushAll extract .new arrived).2 = (feedAll extract .new (handedOut [] arrived)).2.1 := by
  have hkept : ∀ q ∈ (releases [] arrived).2, q.marker = false := releases_unmarked (by simp)
  rw [handedOut, (feedAll_append extract .new _ _).2, (feedAll_of_unmarked extract _ hkept).1,
    List.append_nil, pushAll_eq]
  rfl

end Window

end DoorAccess.Video
