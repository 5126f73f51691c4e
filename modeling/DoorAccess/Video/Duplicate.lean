import DoorAccess.Video.Window
import DoorAccess.Video.Survivors

/-!
# A packet delivered twice

The buffer ignores a packet that repeats the one before it (`appendPacket_twice`), so a copy matters
only through the window and the cut. A copy of a marker packet begins a frame of its own. A copy of
any other packet takes a place in the window and makes it release its packets earlier, up to the
next marker, which empties the window in any case. `Twice` relates what the window hands out in the
two runs: the same packets in the same order, with the copy right behind the packet. It is kept as
long as no packet that arrives after the window has filled up goes in front of another
(`handedOut_twice`).
-/

set_option autoImplicit false
set_option relaxedAutoImplicit false

namespace DoorAccess.Video

section Duplicate

variable {β ν : Type*} {p x : RtpPacket β}

/-- From here on and up to the next marker packet, that one included, every packet that arrives
when the window has no room left goes to its end. -/
def Orderly : ℕ → List (RtpPacket β) → List (RtpPacket β) → Prop
  | _, _, [] => True
  | room, pending, x :: arrived =>
    (room = 0 → overtakes pending x = 0) ∧
      (x.marker = false → Orderly (room - 1) (windowStep pending x).2 arrived)

/-- How many packets the window takes in, besides a copy, before it is full. -/
def roomBeside (pending : List (RtpPacket β)) : ℕ :=
  REASSEMBLER_WINDOW_SIZE - 1 - pending.length

/-- The packet and those that follow it up to the next marker packet are in order, as far as the
window is full when they arrive. -/
def InTurn (pending : List (RtpPacket β)) (p : RtpPacket β) (arrived : List (RtpPacket β)) :
    Prop :=
  (pending.length + 1 = REASSEMBLER_WINDOW_SIZE → overtakes pending p = 0) ∧
    Orderly (roomBeside (windowStep pending p).2) (windowStep pending p).2 arrived

/-- The same packets, but for a copy of `p` right behind it. -/
def Twice (p : RtpPacket β) (once twice : List (RtpPacket β)) : Prop :=
  ∃ earlier later, once = earlier ++ p :: later ∧ twice = earlier ++ p :: p :: later

theorem Twice.prepend {once twice : List (RtpPacket β)} (h : Twice p once twice)
    (front : List (RtpPacket β)) : Twice p (front ++ once) (front ++ twice) := by
  obtain ⟨earlier, later, rfl, rfl⟩ := h
  exact ⟨front ++ earlier, later, by rw [List.append_assoc], by rw [List.append_assoc]⟩

theorem Twice.append {once twice : List (RtpPacket β)} (h : Twice p once twice)
    (back : List (RtpPacket β)) : Twice p (once ++ back) (twice ++ back) := by
  obtain ⟨earlier, later, rfl, rfl⟩ := h
  exact ⟨earlier, later ++ back, by rw [List.append_assoc]; rfl, by rw [List.append_assoc]; rfl⟩

theorem Twice.length_eq {once twice : List (RtpPacket β)} (h : Twice p once twice) :
    twice.length = once.length + 1 := by
  obtain ⟨earlier, later, rfl, rfl⟩ := h
  simp only [List.length_append, List.length_cons]
  omega

/-- The two end with the same packet. -/
theorem Twice.last_eq {front front' init init' : List (RtpPacket β)} {last last' : RtpPacket β}
    (h : Twice p (front ++ (init ++ [last])) (front' ++ (init' ++ [last']))) : last' = last := by
  obtain ⟨earlier, later, honce, htwice⟩ := h
  rcases List.eq_nil_or_concat later with rfl | ⟨later, newest, rfl⟩
  · rw [← List.append_assoc] at honce
    have hsplit : front' ++ init' ++ [last'] = earlier ++ [p] ++ [p] := by
      rw [List.append_assoc, htwice, List.append_assoc]
      rfl
    have hlast := (List.append_inj' honce rfl).2
    have hlast' := (List.append_inj' hsplit rfl).2
    rw [(List.cons.inj hlast).1, (List.cons.inj hlast').1]
  · rw [List.concat_eq_append] at honce htwice
    have hsplit : front ++ init ++ [last] = earlier ++ p :: later ++ [newest] := by
      rw [List.append_assoc, honce, List.append_assoc]
      rfl
    have hsplit' : front' ++ init' ++ [last'] = earlier ++ p :: p :: later ++ [newest] := by
      rw [List.append_assoc, htwice, List.append_assoc]
      rfl
    have hlast := (List.append_inj' hsplit rfl).2
    have hlast' := (List.append_inj' hsplit' rfl).2
    rw [(List.cons.inj hlast).1, (List.cons.inj hlast').1]

/-! ### The window -/

/-- A copy in the window does not change where another packet goes. -/
theorem Twice.insertSorted {once twice : List (RtpPacket β)} (h : Twice p once twice)
    (x : RtpPacket β) : Twice p (insertSorted once x) (insertSorted twice x) := by
  obtain ⟨earlier, later, rfl, rfl⟩ := h
  induction later using List.reverseRecOn with
  | nil =>
    have htwice : earlier ++ [p, p] = earlier ++ [p] ++ [p] := by rw [List.append_assoc]; rfl
    by_cases hlater : Serial.diff x.seq p.seq < 0
    · rw [htwice, insertSorted_of_lt hlater, insertSorted_of_lt hlater, insertSorted_of_lt hlater]
      exact ⟨Video.insertSorted earlier x, [], rfl, by rw [List.append_assoc]; rfl⟩
    · rw [htwice, insertSorted_of_le (not_lt.mp hlater), insertSorted_of_le (not_lt.mp hlater)]
      exact ⟨earlier, [x], rfl, by rw [List.append_assoc]; rfl⟩
  | append_singleton later last ih =>
    have honce : earlier ++ p :: (later ++ [last]) = earlier ++ p :: later ++ [last] := by
      rw [List.append_assoc]
      rfl
    have htwice : earlier ++ p :: p :: (later ++ [last]) =
        earlier ++ p :: p :: later ++ [last] := by
      rw [List.append_assoc]
      rfl
    rw [honce, htwice]
    by_cases hlater : Serial.diff x.seq last.seq < 0
    · rw [insertSorted_of_lt hlater, insertSorted_of_lt hlater]
      exact ih.append [last]
    · rw [insertSorted_of_le (not_lt.mp hlater), insertSorted_of_le (not_lt.mp hlater)]
      exact ⟨earlier, later ++ [last, x], by rw [List.append_assoc]; rfl,
        by rw [List.append_assoc]; rfl⟩

/-- A packet goes right behind its copy. -/
theorem twice_insertSorted (pending : List (RtpPacket β)) (p : RtpPacket β) :
    Twice p (insertSorted pending p) (insertSorted (insertSorted pending p) p) := by
  obtain ⟨earlier, later, -, hinsert, -, hlater, -⟩ := exists_insertSorted pending p
  rw [hinsert]
  clear hinsert
  induction later using List.reverseRecOn with
  | nil =>
    have hself : 0 ≤ Serial.diff p.seq p.seq := by rw [Serial.diff_self]
    rw [insertSorted_of_le hself]
    exact ⟨earlier, [], rfl, rfl⟩
  | append_singleton later last ih =>
    have hlast := hlater last (by simp)
    have hsplit : earlier ++ p :: (later ++ [last]) = earlier ++ p :: later ++ [last] := by
      rw [List.append_assoc]
      rfl
    rw [hsplit, insertSorted_of_lt hlast]
    exact (ih fun q hq ↦ hlater q (List.mem_append_left _ hq)).append [last]

theorem diff_last_of_overtakes {init : List (RtpPacket β)} {last : RtpPacket β}
    (h : overtakes (init ++ [last]) x = 0) : 0 ≤ Serial.diff x.seq last.seq := by
  by_contra hnot
  have hlater : decide (Serial.diff x.seq last.seq < 0) = true := by simpa using hnot
  rw [overtakes, List.reverse_append, List.reverse_singleton, List.singleton_append,
    List.takeWhile_cons, hlater] at h
  exact absurd h (by simp)

/-- Packets that go to the end of both windows keep what is handed out alike. -/
theorem handedOut_twice_inOrder (front : List (RtpPacket β))
    {front' pending pending' arrived : List (RtpPacket β)}
    (h : Twice p (front ++ pending) (front' ++ pending')) (hpending : pending ≠ [])
    (hpending' : pending' ≠ []) (horderly : Orderly 0 pending arrived) :
    Twice p (front ++ handedOut pending arrived) (front' ++ handedOut pending' arrived) := by
  induction arrived generalizing front front' pending pending' with
  | nil => exact h
  | cons x arrived ih =>
    obtain ⟨hlast, hrest⟩ := horderly
    obtain ⟨init, last, rfl⟩ := (List.eq_nil_or_concat pending).resolve_left hpending
    obtain ⟨init', last', rfl⟩ := (List.eq_nil_or_concat pending').resolve_left hpending'
    rw [List.concat_eq_append] at hpending hlast hrest h
    rw [List.concat_eq_append] at hpending' h
    rw [List.concat_eq_append, List.concat_eq_append]
    have hdiff := diff_last_of_overtakes (hlast rfl)
    have hinsert : insertSorted (init ++ [last]) x = init ++ [last] ++ [x] := by
      rw [insertSorted_of_le hdiff, List.append_assoc]
      rfl
    have hinsert' : insertSorted (init' ++ [last']) x = init' ++ [last'] ++ [x] := by
      rw [← h.last_eq] at hdiff
      rw [insertSorted_of_le hdiff, List.append_assoc]
      rfl
    have hnext : Twice p (front ++ insertSorted (init ++ [last]) x)
        (front' ++ insertSorted (init' ++ [last']) x) := by
      rw [hinsert, hinsert', ← List.append_assoc, ← List.append_assoc front']
      exact h.append [x]
    rw [handedOut_cons, handedOut_cons, ← List.append_assoc, ← List.append_assoc front']
    by_cases hmarker : x.marker = true
    · rw [windowStep_marker _ hmarker, windowStep_marker _ hmarker]
      exact hnext.append (handedOut [] arrived)
    · have hunmarked := eq_false_of_ne_true hmarker
      refine ih _ ?_ (windowStep_ne_nil _ hunmarked) (windowStep_ne_nil _ hunmarked)
        (hrest hunmarked)
      rwa [List.append_assoc, windowStep_append, List.append_assoc, windowStep_append]

/-- As long as there is room beside the copy, packets may come in any order. -/
theorem handedOut_twice {pending pending' arrived : List (RtpPacket β)}
    (h : Twice p pending pending') (hroom : pending.length + 1 < REASSEMBLER_WINDOW_SIZE)
    (horderly : Orderly (roomBeside pending) pending arrived) :
    Twice p (handedOut pending arrived) (handedOut pending' arrived) := by
  induction arrived generalizing pending pending' with
  | nil => exact h
  | cons x arrived ih =>
    obtain ⟨-, hrest⟩ := horderly
    have hnext := h.insertSorted x
    rw [handedOut_cons, handedOut_cons]
    by_cases hmarker : x.marker = true
    · rw [windowStep_marker _ hmarker, windowStep_marker _ hmarker]
      exact hnext.append (handedOut [] arrived)
    · have hunmarked := eq_false_of_ne_true hmarker
      have horderly' := hrest hunmarked
      have hless : roomBeside pending - 1 = roomBeside (insertSorted pending x) := by
        simp only [roomBeside, length_insertSorted]
        omega
      rw [windowStep_room hunmarked hroom] at horderly' ⊢
      rw [hless] at horderly'
      by_cases hroom' : pending'.length + 1 < REASSEMBLER_WINDOW_SIZE
      · rw [windowStep_room hunmarked hroom']
        refine ih hnext ?_ horderly'
        rwa [length_insertSorted, ← h.length_eq]
      · -- The copy has made the window full one packet too early.
        have hlength := h.length_eq
        obtain ⟨init, last, hinsert, hstep⟩ :=
          windowStep_full hunmarked
            (show pending'.length + 1 = REASSEMBLER_WINDOW_SIZE by omega)
        have hzero : roomBeside (insertSorted pending x) = 0 := by
          simp only [roomBeside, length_insertSorted, REASSEMBLER_WINDOW_SIZE] at *
          omega
        rw [hzero] at horderly'
        rw [hstep]
        refine handedOut_twice_inOrder [] ?_ ?_ (by simp) horderly'
        · rwa [← hinsert]
        · exact insertSorted_ne_nil pending x

/-- A packet and its copy through the window: what is handed out differs by the copy only. -/
theorem handedOut_duplicate {pending arrived : List (RtpPacket β)}
    (hlength : pending.length < REASSEMBLER_WINDOW_SIZE) (hmarker : p.marker = false)
    (hturn : InTurn pending p arrived) :
    Twice p (handedOut pending (p :: arrived)) (handedOut pending (p :: p :: arrived)) := by
  obtain ⟨hnewest, horderly⟩ := hturn
  rw [handedOut_cons, handedOut_cons]
  apply Twice.prepend
  by_cases hroom : pending.length + 1 < REASSEMBLER_WINDOW_SIZE
  · have htwice := twice_insertSorted pending p
    rw [windowStep_room hmarker hroom] at horderly ⊢
    rw [handedOut_cons]
    by_cases hroom' : (insertSorted pending p).length + 1 < REASSEMBLER_WINDOW_SIZE
    · rw [windowStep_room hmarker hroom']
      exact handedOut_twice htwice hroom' horderly
    · have hlength' := length_insertSorted pending p
      obtain ⟨init, last, hinsert, hstep⟩ :=
        windowStep_full hmarker
          (show (insertSorted pending p).length + 1 = REASSEMBLER_WINDOW_SIZE by omega)
      have hzero : roomBeside (insertSorted pending p) = 0 := by
        simp only [roomBeside, length_insertSorted, REASSEMBLER_WINDOW_SIZE] at *
        omega
      rw [hzero] at horderly
      rw [hstep]
      refine handedOut_twice_inOrder [] ?_ ?_ (by simp) horderly
      · rwa [← hinsert]
      · exact insertSorted_ne_nil pending p
  · -- The window is full: the packet is the newest and stays.
    have hfull : pending.length + 1 = REASSEMBLER_WINDOW_SIZE := by omega
    obtain ⟨init, last, hinsert, hstep⟩ := windowStep_full hmarker hfull
    have hlast : last = p := by
      obtain ⟨earlier, later, -, hinsert', hovertakes, -⟩ := exists_insertSorted pending p
      rw [hnewest hfull, List.length_eq_zero_iff] at hovertakes
      rw [hinsert, hovertakes] at hinsert'
      exact (List.cons.inj (List.append_inj' hinsert' rfl).2).1
    rw [hstep, hlast] at horderly ⊢
    have hone : ([p] : List (RtpPacket β)).length + 1 < REASSEMBLER_WINDOW_SIZE := by
      simp [REASSEMBLER_WINDOW_SIZE]
    have htwice : insertSorted [p] p = [p, p] := by
      change insertSorted ([] ++ [p]) p = [] ++ [p, p]
      apply insertSorted_of_le
      rw [Serial.diff_self]
    rw [handedOut_cons, windowStep_room hmarker hone, htwice]
    exact handedOut_twice ⟨[], [], rfl, rfl⟩ hone horderly

/-! ### The buffer -/

/-- The buffer ignores a packet that repeats the one before it. -/
theorem appendPacket_twice (r : FrameReassembler β) (p : RtpPacket β) :
    appendPacket (appendPacket r p) p = appendPacket r p := by
  rcases appendPacket_cases r p with ⟨hsame, -⟩ | ⟨hset, hexpect, -⟩
  · rw [hsame, hsame]
  · have hpast : Serial.diff p.seq (appendPacket r p).expectSeq < 0 := by
      rw [hexpect, Serial.diff_pred]
      decide
    rw [appendPacket]
    simp only [hset, Bool.not_true, Bool.false_eq_true, if_false, if_pos hpast]

variable (extract : List β → UInt32 → List ν)

theorem feedAll_twice {once twice : List (RtpPacket β)} (h : Twice p once twice)
    (hmarker : p.marker = false) (r : FrameReassembler β) :
    (feedAll extract r twice).2.1 = (feedAll extract r once).2.1 := by
  obtain ⟨earlier, later, rfl, rfl⟩ := h
  rw [(feedAll_append extract r _ _).2, (feedAll_append extract r _ _).2]
  simp only [feedAll, hmarker, Bool.false_eq_true, if_false, appendPacket_twice]

/-- **A packet delivered twice.** A packet that is not a marker packet may be delivered twice in a
row without any change of the output, if it and the packets that follow it, up to and including the
next marker packet, go to the end of the window whenever they find it full. -/
theorem pushAll_duplicate (before after : List (RtpPacket UInt8)) (p : RtpPacket UInt8)
    (hmarker : p.marker = false)
    (hturn : InTurn (pushAll extractNalsAnnexb .new before).1.pending p after) :
    (pushAll extractNalsAnnexb .new (before ++ p :: p :: after)).2 =
      (pushAll extractNalsAnnexb .new (before ++ p :: after)).2 := by
  rw [pushAll_pending] at hturn
  have hlength : (releases [] before).2.length < REASSEMBLER_WINDOW_SIZE :=
    releases_length (Nat.zero_lt_succ 7)
  have htwice := (handedOut_duplicate hlength hmarker hturn).prepend (releases [] before).1
  rw [pushAll_handedOut, pushAll_handedOut, handedOut_append, handedOut_append]
  exact feedAll_twice extractNalsAnnexb htwice hmarker .new

/-- A packet of one byte, its number. -/
def numbered (seq : UInt16) (marker : Bool) : RtpPacket UInt8 :=
  ⟨marker, 96, seq, 9000, 7, [UInt8.ofNat seq.toNat]⟩

/-- The seventh packet of a frame, delivered twice: the copy fills the window. -/
theorem pushAll_duplicate_seventh :
    (pushAll extractNalsAnnexb .new
      ([1, 3, 2, 4, 5, 6].map (numbered · false) ++ numbered 7 false :: numbered 7 false ::
        [numbered 8 false, numbered 9 true])).2 =
      (pushAll extractNalsAnnexb .new
        ([1, 3, 2, 4, 5, 6].map (numbered · false) ++ numbered 7 false ::
          [numbered 8 false, numbered 9 true])).2 :=
  pushAll_duplicate _ _ _ rfl
    ⟨fun hfull ↦ absurd hfull (by decide), fun _ ↦ by decide,
      fun _ ↦ ⟨fun _ ↦ by decide, by simp [numbered]⟩⟩

/-- The copy of a marker packet is cut as a frame of its own; the copy of the packet before the last
one makes the window release it, so that a neighbour that comes one place too late is dropped. -/
theorem pushAll_duplicate_differs :
    (pushAll extractNalsAnnexb .new [numbered 1 true, numbered 1 true]).2 ≠
        (pushAll extractNalsAnnexb .new [numbered 1 true]).2 ∧
      (pushAll extractNalsAnnexb .new
        ([1, 2, 3, 4, 5, 6].map (numbered · false) ++ numbered 8 false :: numbered 8 false ::
          [numbered 7 false, numbered 9 true])).2 ≠
        (pushAll extractNalsAnnexb .new
          ([1, 2, 3, 4, 5, 6].map (numbered · false) ++ numbered 8 false ::
            [numbered 7 false, numbered 9 true])).2 := by
  decide

end Duplicate

end DoorAccess.Video
