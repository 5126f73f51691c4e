import DoorAccess.Video.Oversize

/-!
# The timestamp of a frame

`append_packet` takes over the timestamp of a packet only when no expected number is set. A buffer
that is cut or dropped clears the number; a buffer that is empty at the marker does not, and the
packet behind it is gathered under the timestamp of an earlier frame. `ownStamps_iff` says for which
streams, complete and in order, every frame within the limit gets its own timestamp, in terms of the
payload sizes and timestamps of the packets.
-/

set_option autoImplicit false
set_option relaxedAutoImplicit false

namespace DoorAccess.Video

section Stamps

variable {β : Type*}

/-! ### What a frame leaves to the next -/

/-- The running size of a frame, which begins anew behind a packet that takes it over the limit, and
the timestamp of the last such packet. -/
def running (f : List (RtpPacket β)) : ℕ × Option UInt32 :=
  f.foldl (fun acc p ↦
    if FRAME_MAX_BYTES < acc.1 + p.payload.length then (0, some p.timestamp)
    else (acc.1 + p.payload.length, acc.2)) (0, none)

/-- The timestamp that a frame hands on when it leaves nothing to cut: that of its last packet over
the limit, or the one it was handed itself, or its own. -/
def handedOn (stamp : Option UInt32) (f : List (RtpPacket β)) : Option UInt32 :=
  if (running f).1 = 0 then some ((running f).2.getD (stamp.getD (frameStamp f))) else none

/-- The timestamp that stands behind frames, if there is one. -/
def standing (frames : List (List (RtpPacket β))) : Option UInt32 :=
  frames.foldl handedOn none

theorem gather_append (stamp : Option UInt32) (f : List (RtpPacket β)) (p : RtpPacket β) :
    gather stamp (f ++ [p]) = (gather stamp f).add p := by
  rw [gather, gather, List.foldl_append]
  rfl

theorem running_append (f : List (RtpPacket β)) (p : RtpPacket β) :
    running (f ++ [p]) =
      if FRAME_MAX_BYTES < (running f).1 + p.payload.length then (0, some p.timestamp)
      else ((running f).1 + p.payload.length, (running f).2) := by
  rw [running, running, List.foldl_append]
  rfl

/-- What is gathered, in terms of sizes and timestamps. -/
theorem gather_running (stamp : Option UInt32) (f : List (RtpPacket β)) :
    (gather stamp f).held.length = (running f).1 ∧
      (gather stamp f).stamp =
        if f.isEmpty then stamp
        else some ((running f).2.getD (stamp.getD (frameStamp f))) := by
  induction f using List.reverseRecOn with
  | nil => exact ⟨rfl, rfl⟩
  | append_singleton f p ih =>
    obtain ⟨hheld, hstamp⟩ := ih
    rw [gather_append, running_append, Gathering.add, hheld, hstamp]
    by_cases hlimit : FRAME_MAX_BYTES < (running f).1 + p.payload.length
    · rw [if_pos hlimit, if_pos hlimit]
      exact ⟨rfl, by simp⟩
    · rw [if_neg hlimit, if_neg hlimit]
      refine ⟨by rw [List.length_append, hheld], ?_⟩
      cases f with
      | nil => rfl
      | cons q f => simp [frameStamp]

theorem cut_gather (stamp : Option UInt32) {f : List (RtpPacket β)} (hf : f ≠ []) :
    (gather stamp f).cut.stamp = handedOn stamp f := by
  obtain ⟨hheld, hstamp⟩ := gather_running stamp f
  have hempty : f.isEmpty = false := by simpa using hf
  rw [hempty] at hstamp
  unfold Gathering.cut handedOn
  by_cases hnil : (gather stamp f).held = []
  · rw [if_pos (List.isEmpty_iff.mpr hnil), if_pos (by rw [← hheld, hnil]; rfl)]
    exact hstamp
  · have hsize : (running f).1 ≠ 0 := by
      rw [← hheld]
      exact fun hzero ↦ hnil (List.length_eq_zero_iff.mp hzero)
    rw [if_neg (fun hisEmpty ↦ hnil (List.isEmpty_iff.mp hisEmpty)), if_neg hsize]

/-! ### The units of one frame -/

theorem output_append {ν : Type*} (extract : List β → UInt32 → List ν) (stamp : Option UInt32)
    {frames : List (List (RtpPacket β))} (hframes : ∀ f ∈ frames, f ≠ [])
    (last : List (List (RtpPacket β))) :
    output extract stamp (frames ++ last) =
      output extract stamp frames ++ output extract (frames.foldl handedOn stamp) last := by
  induction frames generalizing stamp with
  | nil => rfl
  | cons f frames ih =>
    have hcut := cut_gather stamp (hframes f List.mem_cons_self)
    have hrest := ih (gather stamp f).cut.stamp fun f' hf' ↦ hframes f' (List.mem_cons_of_mem f hf')
    rw [List.cons_append, output, output, hrest, hcut, List.append_assoc, List.foldl_cons]

theorem pushAll_append {ν : Type*} (extract : List β → UInt32 → List ν) (r : FrameReassembler β)
    (first second : List (RtpPacket β)) :
    (pushAll extract r (first ++ second)).2 =
      (pushAll extract r first).2 ++ (pushAll extract (pushAll extract r first).1 second).2 := by
  induction first generalizing r with
  | nil => rfl
  | cons p first ih =>
    simp only [List.cons_append, pushAll]
    rw [ih, List.append_assoc]

/-- The units returned while the packets of a complete frame are pushed: those of the bytes it
gathers, under the timestamp that stands behind the frames before it. -/
theorem pushAll_frame {ν : Type*} (extract : List β → UInt32 → List ν) {start : UInt16}
    {before f : List (RtpPacket β)} (hseq : Consecutive start (before ++ f))
    (hbefore : unfinished [] before = []) (hframe : framesFrom [] f = [f]) :
    (pushAll extract (pushAll extract .new before).1 f).2 =
      (gather (standing (framesFrom [] before)) f).units extract := by
  have hframes : framesFrom [] (before ++ f) = framesFrom [] before ++ [f] := by
    rw [framesFrom_append, hbefore, hframe]
  have hall := pushAll_frames extract hseq
  rw [hframes, output_append extract none (fun _ hf ↦ ne_nil_of_mem_framesFrom hf),
    ← pushAll_frames extract hseq.left, pushAll_append] at hall
  rw [List.append_cancel_left hall, output, output, List.append_nil]
  rfl

/-! ### Frames under their own timestamp -/

/-- Every unit that `push` returns while the packets of a frame within the limit go in carries the
timestamp of its first packet, the one behind the marker of the frame before. -/
def OwnStamps (sent : List (RtpPacket UInt8)) : Prop :=
  ∀ before f after, sent = before ++ (f ++ after) → unfinished [] before = [] →
    framesFrom [] f = [f] → (frameBytes f).length ≤ FRAME_MAX_BYTES →
    ∀ unit ∈ (pushAll extractNalsAnnexb (pushAll extractNalsAnnexb .new before).1 f).2,
      unit.timestamp = frameStamp f

/-- No timestamp stands when a frame within the limit begins that has a unit, unless it is the one
of that frame. -/
def Fresh (sent : List (RtpPacket UInt8)) : Prop :=
  ∀ before f after, sent = before ++ (f ++ after) → unfinished [] before = [] →
    framesFrom [] f = [f] → (frameBytes f).length ≤ FRAME_MAX_BYTES →
    extractNalsAnnexb (frameBytes f) 0 = [] ∨
      ∀ stamp, standing (framesFrom [] before) = some stamp → stamp = frameStamp f

theorem forall_unit_timestamp_iff (bytes : List UInt8) (stamp own : UInt32) :
    (∀ unit ∈ extractNalsAnnexb bytes stamp, unit.timestamp = own) ↔
      extractNalsAnnexb bytes 0 = [] ∨ stamp = own := by
  rw [extractNalsAnnexb_stamp bytes stamp]
  cases extractNalsAnnexb bytes 0 with
  | nil => simp
  | cons n nals =>
    constructor
    · intro h
      exact Or.inr (h _ List.mem_cons_self)
    · rintro (hnil | hstamp) unit hunit
      · exact absurd hnil (by simp)
      · obtain ⟨n', -, rfl⟩ := List.mem_map.mp hunit
        exact hstamp

/-- A stream whose frames all leave bytes to cut is fresh. -/
theorem fresh_of_running {sent : List (RtpPacket UInt8)}
    (h : ∀ f ∈ framesFrom [] sent, (running f).1 ≠ 0) : Fresh sent := by
  intro before f after hsplit _ _ _
  right
  intro stamp hstanding
  rw [hsplit, framesFrom_append] at h
  generalize framesFrom [] before = frames at h hstanding
  cases frames using List.reverseRecOn with
  | nil => exact absurd hstanding (by simp [standing])
  | append_singleton frames last =>
    have hlast : (running last).1 ≠ 0 := h last (by simp)
    rw [standing, List.foldl_append, List.foldl_cons, List.foldl_nil, handedOn, if_neg hlast]
      at hstanding
    exact absurd hstanding (by simp)

/-- **The timestamps of a stream.** Of a stream that arrives complete and in order, with payloads of
any size, every unit of a frame within the limit carries the timestamp of that frame exactly when no
frame within the limit that has a unit begins while another timestamp stands. -/
theorem ownStamps_iff {start : UInt16} {sent : List (RtpPacket UInt8)}
    (hseq : Consecutive start sent) : OwnStamps sent ↔ Fresh sent := by
  have hframe : ∀ before f after, sent = before ++ (f ++ after) → unfinished [] before = [] →
      framesFrom [] f = [f] → (frameBytes f).length ≤ FRAME_MAX_BYTES →
      ((∀ unit ∈ (pushAll extractNalsAnnexb (pushAll extractNalsAnnexb .new before).1 f).2,
          unit.timestamp = frameStamp f) ↔
        extractNalsAnnexb (frameBytes f) 0 = [] ∨
          ∀ stamp, standing (framesFrom [] before) = some stamp → stamp = frameStamp f) := by
    intro before f after hsplit hbefore hf hfits
    rw [hsplit, ← List.append_assoc] at hseq
    have hmem : f ∈ framesFrom [] f := by
      rw [hf]
      exact List.mem_singleton_self f
    have hne : f ≠ [] := ne_nil_of_mem_framesFrom hmem
    rw [pushAll_frame extractNalsAnnexb hseq.left hbefore hf, units_eq, gather_of_fits hne hfits,
      Option.getD_some, forall_unit_timestamp_iff]
    cases standing (framesFrom [] before) with
    | none => simp
    | some stamp => simp
  constructor
  · intro hown before f after hsplit hbefore hf hfits
    exact (hframe before f after hsplit hbefore hf hfits).mp
      (hown before f after hsplit hbefore hf hfits)
  · intro hfresh before f after hsplit hbefore hf hfits
    exact (hframe before f after hsplit hbefore hf hfits).mpr
      (hfresh before f after hsplit hbefore hf hfits)

/-- Two frames of one packet each, both with a unit. -/
theorem ownStamps_two_frames :
    Consecutive 0 [⟨true, 98, 0, 100, 7, START_CODE ++ [0x67]⟩,
        ⟨true, 98, 1, 200, 7, START_CODE ++ [0x65]⟩] ∧
      OwnStamps [⟨true, 98, 0, 100, 7, START_CODE ++ [0x67]⟩,
        ⟨true, 98, 1, 200, 7, START_CODE ++ [0x65]⟩] := by
  have hseq : Consecutive 0 [(⟨true, 98, 0, 100, 7, START_CODE ++ [0x67]⟩ : RtpPacket UInt8),
      ⟨true, 98, 1, 200, 7, START_CODE ++ [0x65]⟩] := ⟨rfl, rfl, trivial⟩
  refine ⟨hseq, (ownStamps_iff hseq).mpr (fresh_of_running ?_)⟩
  intro f hf
  rcases List.mem_cons.mp hf with rfl | hf
  · decide
  · rw [List.mem_singleton.mp hf]
    decide

/-- A marker packet without payload, and a frame behind it. -/
def emptyThenUnit : List (RtpPacket UInt8) :=
  [⟨true, 98, 0, 100, 7, []⟩, ⟨true, 98, 1, 200, 7, START_CODE ++ [0x65]⟩]

/-- The unit of the second frame carries the timestamp of the first. -/
theorem emptyThenUnit_not_ownStamps :
    Consecutive 0 emptyThenUnit ∧
      (pushAll extractNalsAnnexb .new emptyThenUnit).2 = [⟨NAL_TYPE_IDR, [0x65], 100, 0⟩] ∧
      ¬ OwnStamps emptyThenUnit := by
  have hseq : Consecutive 0 emptyThenUnit := ⟨rfl, rfl, trivial⟩
  have hunits :
      extractNalsAnnexb (START_CODE ++ [0x65]) 100 = [⟨NAL_TYPE_IDR, [0x65], 100, 0⟩] := by
    have htype : (0x65 : UInt8) &&& 0x1f = NAL_TYPE_IDR := by decide
    simp [extractNalsAnnexb, findStartCode, START_CODE, nalsAfter, nalOf, htype]
  have hsecond : (pushAll extractNalsAnnexb
      (pushAll extractNalsAnnexb .new (emptyThenUnit.take 1)).1 (emptyThenUnit.drop 1)).2 =
      [⟨NAL_TYPE_IDR, [0x65], 100, 0⟩] := by
    rw [pushAll_frame extractNalsAnnexb hseq rfl rfl, ← hunits]
    rfl
  refine ⟨hseq, ?_, ?_⟩
  · have hall := pushAll_append extractNalsAnnexb .new (emptyThenUnit.take 1) (emptyThenUnit.drop 1)
    rw [hsecond] at hall
    exact hall
  · intro hown
    have hstamp := hown (emptyThenUnit.take 1) (emptyThenUnit.drop 1) [] rfl rfl rfl (by decide)
    rw [hsecond] at hstamp
    exact absurd (hstamp _ (List.mem_singleton_self _)) (by decide)

end Stamps

end DoorAccess.Video
