import DoorAccess.Video.Survivors

/-!
# Bridges between the frames of a lossy stream

What a lost marker packet does to the frames that the reassembler cuts. The comments of
`reassembler.rs` promise that no bytes are mixed across a frame boundary, since a lost marker leaves
a sequence gap. Only a gap of more than eight drops the buffer. A shorter one is taken for packets
that are merely late, and the bytes of two frames are cut as one.

The gap is a difference of 16-bit numbers, read as a signed one, behind the last packet taken in.
Negative, the packet is ignored, but a marker still cuts. Which packet was taken in last depends on
the payloads, since a cut forgets it only if there are bytes to cut. `NoBridge` goes through the
ways this can turn out: nothing is expected at the beginning, and may be behind any marker. Where
there is no bridge, every frame that is cut is one of the sender (`feedAll_oneFrame`).
-/

set_option autoImplicit false
set_option relaxedAutoImplicit false

namespace DoorAccess.Video

/-! ### Bridges -/

/-- The gap of `append_packet` at the survivor `y` when `x` is the last one taken in: how many
packets are missing between them, in 16-bit numbers. -/
def gap (x y : Survivor) : ℤ :=
  Serial.diff (Serial.number 0 y.index) (Serial.number 0 (x.index + 1))

/-- Behind the last survivor taken in, if any, `y` seems to come too late and is ignored. -/
def Late : Option Survivor → Survivor → Prop
  | none, _ => False
  | some x, y => gap x y < 0

instance (last : Option Survivor) (y : Survivor) : Decidable (Late last y) :=
  match last with
  | none => inferInstanceAs (Decidable False)
  | some x => inferInstanceAs (Decidable (gap x y < 0))

/-- The last survivor taken in once `y` has come. -/
def takeIn (last : Option Survivor) (y : Survivor) : Option Survivor :=
  if Late last y then last else some y

/-- The survivor `y`, if it is taken in, begins the buffer anew: nothing is expected, or the gap is
more than eight. -/
def Begins : Option Survivor → Survivor → Prop
  | none, _ => True
  | some x, y => REASSEMBLER_WINDOW_SIZE < gap x y

instance (last : Option Survivor) (y : Survivor) : Decidable (Begins last y) :=
  match last with
  | none => inferInstanceAs (Decidable True)
  | some x => inferInstanceAs (Decidable ((REASSEMBLER_WINDOW_SIZE : ℤ) < gap x y))

/-- What `x` has left in the buffer meets a marker before a gap of more than eight. The marker may
be that of a late survivor. -/
def Reaches : Survivor → List Survivor → Prop
  | _, [] => False
  | x, y :: rest =>
    if gap x y < 0 then y.marker = true ∨ Reaches x rest
    else ¬ Begins (some x) y ∧ (y.marker = true ∨ Reaches y rest)

/-- Before a marker comes, the survivor taken in next behind `x` is of another frame, behind a gap
of at most eight, and from there a marker is met. -/
def Joins : Survivor → List Survivor → Prop
  | _, [] => False
  | x, y :: rest =>
    if gap x y < 0 then y.marker = false ∧ Joins x rest
    else ¬ Begins (some x) y ∧ x.frame ≠ y.frame ∧ (y.marker = true ∨ Reaches y rest)

/-- As long as no bytes are cut, no survivor without a marker that is taken in is joined by one of
another frame. -/
def Clear : Option Survivor → List Survivor → Prop
  | _, [] => True
  | last, y :: rest =>
    (¬ Late last y → y.marker = false → ¬ Joins y rest) ∧ Clear (takeIn last y) rest

def ClearBehindMarkers : List Survivor → Prop
  | [] => True
  | y :: rest => (y.marker = true → Clear none rest) ∧ ClearBehindMarkers rest

/-- Neither from the beginning nor from behind a marker, where nothing is expected, do two survivors
of different frames join. -/
def NoBridge (ss : List Survivor) : Prop :=
  Clear none ss ∧ ClearBehindMarkers ss

instance decidableReaches : ∀ (x : Survivor) (ss : List Survivor), Decidable (Reaches x ss)
  | _, [] => inferInstanceAs (Decidable False)
  | x, y :: rest =>
    have := decidableReaches x rest
    have := decidableReaches y rest
    inferInstanceAs (Decidable (if gap x y < 0 then y.marker = true ∨ Reaches x rest
      else ¬ Begins (some x) y ∧ (y.marker = true ∨ Reaches y rest)))

instance decidableJoins : ∀ (x : Survivor) (ss : List Survivor), Decidable (Joins x ss)
  | _, [] => inferInstanceAs (Decidable False)
  | x, y :: rest =>
    have := decidableJoins x rest
    inferInstanceAs (Decidable (if gap x y < 0 then y.marker = false ∧ Joins x rest
      else ¬ Begins (some x) y ∧ x.frame ≠ y.frame ∧ (y.marker = true ∨ Reaches y rest)))

instance decidableClear : ∀ (last : Option Survivor) (ss : List Survivor),
    Decidable (Clear last ss)
  | _, [] => inferInstanceAs (Decidable True)
  | last, y :: rest =>
    have := decidableClear (takeIn last y) rest
    inferInstanceAs (Decidable (_ ∧ _))

instance decidableClearBehindMarkers : ∀ ss : List Survivor, Decidable (ClearBehindMarkers ss)
  | [] => inferInstanceAs (Decidable True)
  | _ :: rest =>
    have := decidableClearBehindMarkers rest
    inferInstanceAs (Decidable (_ ∧ _))

instance (ss : List Survivor) : Decidable (NoBridge ss) :=
  inferInstanceAs (Decidable (_ ∧ _))

section Bridges

variable {start : UInt16} {β : Type*}

/-- What the buffer expects: nothing, and then it is empty, or the number behind the last survivor
taken in. -/
def Expects (start : UInt16) (r : FrameReassembler β) : Option Survivor → Prop
  | none => r.expectSeqSet = false ∧ r.frameBuf = []
  | some x => r.expectSeqSet = true ∧ r.expectSeq = Serial.number start (x.index + 1)

theorem expects_new : Expects start (.new : FrameReassembler β) none :=
  ⟨rfl, rfl⟩

theorem gap_eq {x y : Survivor} {p : RtpPacket β} {seq : UInt16}
    (hseq : p.seq = Serial.number start y.index)
    (hexpect : seq = Serial.number start (x.index + 1)) : Serial.diff p.seq seq = gap x y := by
  rw [hseq, hexpect, Serial.diff_number_start]
  rfl

/-- What a survivor that is taken in finds in the buffer. -/
def held (r : FrameReassembler β) (last : Option Survivor) (y : Survivor) : List β :=
  if Begins last y then [] else r.frameBuf

/-- A survivor through the buffer. A late one changes nothing. Any other is the last one taken in
afterwards, and its payload is put behind what it finds in the buffer, unless that is too much. -/
theorem Expects.appendPacket {r : FrameReassembler β} {last : Option Survivor} {y : Survivor}
    {p : RtpPacket β} (h : Expects start r last) (hseq : p.seq = Serial.number start y.index) :
    (Late last y ∧ Video.appendPacket r p = r) ∨
    (¬ Late last y ∧ Expects start (Video.appendPacket r p) (some y) ∧
      ((Video.appendPacket r p).frameBuf = [] ∧
          FRAME_MAX_BYTES < (held r last y).length + p.payload.length ∨
        (Video.appendPacket r p).frameBuf = held r last y ++ p.payload)) := by
  -- In each case the payload goes behind what some buffer `r'` holds.
  have hpayload : ∀ r' : FrameReassembler β, r'.expectSeqSet = true →
      r'.frameBuf = held r last y → Video.appendPacket r p = appendPayload r' p →
      Expects start (Video.appendPacket r p) (some y) ∧
        ((Video.appendPacket r p).frameBuf = [] ∧
            FRAME_MAX_BYTES < (held r last y).length + p.payload.length ∨
          (Video.appendPacket r p).frameBuf = held r last y ++ p.payload) := by
    intro r' hset' hheld happend
    obtain ⟨hset, hexpect, hbuf⟩ := appendPayload_fields r' p hset'
    rw [hheld] at hbuf
    rw [hseq, ← Serial.number_succ] at hexpect
    rw [happend]
    exact ⟨⟨hset, hexpect⟩, hbuf⟩
  cases last with
  | none => exact Or.inr ⟨id, hpayload (beginFrame r p p.seq) rfl h.2 (appendPacket_fresh h.1 p)⟩
  | some x =>
    have hgap := gap_eq hseq h.2
    by_cases hlate : gap x y < 0
    · exact Or.inl ⟨hlate, appendPacket_late h.1 (hgap.trans_lt hlate)⟩
    · refine Or.inr ⟨hlate, ?_⟩
      by_cases hbegins : Begins (some x) y
      · refine hpayload (beginFrame (dropFrame .seqGap r) p p.seq) rfl ?_
          (appendPacket_far h.1 (hgap ▸ hbegins))
        rw [held, if_pos hbegins]
        exact dropFrame_frameBuf .seqGap r
      · refine hpayload r h.1 (if_neg hbegins).symm (appendPacket_tolerated h.1 ?_ ?_)
        · rw [hgap]
          exact not_lt.mp hlate
        · rw [hgap]
          exact not_lt.mp hbegins

/-- A cut of bytes forgets what was expected; a cut of nothing does not. -/
theorem Expects.cutFrame {ν : Type*} (extract : List β → UInt32 → List ν) {r : FrameReassembler β}
    {last : Option Survivor} (h : Expects start r last) :
    Expects start (cutFrame extract r).1 (if r.frameBuf = [] then last else none) := by
  by_cases hempty : r.frameBuf = []
  · have hisEmpty : r.frameBuf.isEmpty = true := List.isEmpty_iff.mpr hempty
    simp only [Video.cutFrame, if_pos hisEmpty, if_pos hempty]
    exact h
  · have hisEmpty : ¬ r.frameBuf.isEmpty = true := fun hnil ↦ hempty (List.isEmpty_iff.mp hnil)
    simp only [Video.cutFrame, if_neg hisEmpty, if_neg hempty]
    exact ⟨rfl, rfl⟩

/-! ### Without a bridge every cut frame is of one frame -/

/-- What is in the buffer when `rest` is still to come was left by the last survivor taken in, which
has no marker, none joins it, and if it is going to be cut it is of one frame. -/
def Unmixed (r : FrameReassembler (UInt8 × ℕ)) (last : Option Survivor) (rest : List Survivor) :
    Prop :=
  r.frameBuf ≠ [] → ∃ x, last = some x ∧ ¬ Joins x rest ∧
    (Reaches x rest → ∀ b ∈ r.frameBuf, b.2 = x.frame)

/-- The next survivor keeps the buffer unmixed, up to the cut at its own marker. -/
theorem Unmixed.appendPacket {r : FrameReassembler (UInt8 × ℕ)} {last : Option Survivor}
    {y : Survivor} {rest : List Survivor} {p : RtpPacket (UInt8 × ℕ)}
    (h : Unmixed r last (y :: rest)) (hclear : Clear last (y :: rest))
    (hcarries : Carries start y p) (hexpects : Expects start r last) :
    Expects start (appendPacket r p) (takeIn last y) ∧
      ((appendPacket r p).frameBuf ≠ [] → ∃ x, takeIn last y = some x ∧
        (y.marker = false → ¬ Joins x rest) ∧
        (y.marker = true ∨ Reaches x rest → ∀ b ∈ (appendPacket r p).frameBuf, b.2 = x.frame)) := by
  rcases hexpects.appendPacket hcarries.seq with
    ⟨hlate, hsame⟩ | ⟨htaken, hexpects', hbuf⟩
  · rw [takeIn, if_pos hlate, hsame]
    refine ⟨hexpects, ?_⟩
    intro hsome
    obtain ⟨x, rfl, hjoins, hone⟩ := h hsome
    have hgap : gap x y < 0 := hlate
    rw [Joins, if_pos hgap] at hjoins
    rw [Reaches, if_pos hgap] at hone
    exact ⟨x, rfl, fun hmarker hrest ↦ hjoins ⟨hmarker, hrest⟩, hone⟩
  · rw [takeIn, if_neg htaken]
    refine ⟨hexpects', ?_⟩
    intro hsome
    refine ⟨y, rfl, hclear.1 htaken, ?_⟩
    intro hcut b hb
    rcases hbuf with ⟨hempty, -⟩ | hbuf
    · exact absurd hempty hsome
    rw [hbuf] at hb
    rcases List.mem_append.mp hb with hkept | hown
    · by_cases hbegins : Begins last y
      · rw [held, if_pos hbegins] at hkept
        exact absurd hkept List.not_mem_nil
      · rw [held, if_neg hbegins] at hkept
        obtain ⟨x, rfl, hjoins, hone⟩ := h (List.ne_nil_of_mem hkept)
        have hgap : ¬ gap x y < 0 := htaken
        rw [Joins, if_neg hgap] at hjoins
        rw [Reaches, if_neg hgap] at hone
        have hframe : x.frame = y.frame := by
          by_contra hne
          exact hjoins ⟨hbegins, hne, hcut⟩
        rw [← hframe]
        exact hone ⟨hbegins, hcut⟩ b hkept
    · exact hcarries.payload b hown

theorem feedAll_oneFrame {r : FrameReassembler (UInt8 × ℕ)} {last : Option Survivor}
    {ss : List Survivor} {ps : List (RtpPacket (UInt8 × ℕ))}
    (hcarries : List.Forall₂ (Carries start) ss ps) (hexpects : Expects start r last)
    (hunmixed : Unmixed r last ss) (hclear : Clear last ss) (hmarkers : ClearBehindMarkers ss) :
    ∀ cut ∈ (feedAll (fun buf timestamp ↦ [(buf, timestamp)]) r ps).2.1, OneFrame cut := by
  induction hcarries generalizing r last with
  | nil =>
    intro cut hcut
    exact absurd hcut List.not_mem_nil
  | @cons y p ss ps hp _ ih =>
    obtain ⟨hexpects', hheld⟩ := hunmixed.appendPacket hclear hp hexpects
    simp only [feedAll, hp.marker]
    by_cases hmarker : y.marker = true
    · simp only [if_pos hmarker]
      have hcutExpects := hexpects'.cutFrame (fun buf timestamp ↦ [(buf, timestamp)])
      obtain ⟨hcleared, hnals⟩ := cutFrame_fields
        (fun buf timestamp ↦ [(buf, timestamp)]) (appendPacket r p)
      have hunmixed' : ∀ last, Unmixed
          (cutFrame (fun buf timestamp ↦ [(buf, timestamp)]) (appendPacket r p)).1 last ss :=
        fun _ hsome ↦ absurd hcleared hsome
      intro cut hcut
      rcases List.mem_append.mp hcut with hcut | hcut
      · -- The frame cut here: its bytes all carry one number.
        rw [hnals] at hcut
        split_ifs at hcut with hempty
        · exact absurd hcut List.not_mem_nil
        · obtain rfl := List.mem_singleton.mp hcut
          obtain ⟨x, -, -, hone⟩ := hheld hempty
          have htags := hone (Or.inl hmarker)
          intro a ha b hb
          rw [htags a ha, htags b hb]
      · -- Nothing is expected behind a cut of bytes, and what was expected is behind a cut of none.
        split_ifs at hcutExpects with hempty
        · exact ih hcutExpects (hunmixed' _) hclear.2 hmarkers.2 cut hcut
        · exact ih hcutExpects (hunmixed' _) (hmarkers.1 hmarker) hmarkers.2 cut hcut
    · simp only [if_neg hmarker]
      refine ih hexpects' ?_ hclear.2 hmarkers.2
      intro hsome
      obtain ⟨x, hx, hjoins, hone⟩ := hheld hsome
      exact ⟨x, hx, hjoins (eq_false_of_ne_true hmarker), fun hreaches ↦ hone (Or.inr hreaches)⟩

end Bridges

end DoorAccess.Video
