import DoorAccess.Video.Survivors

/-!
# Frames over the limit

Of a stream that arrives complete and in order the buffer sees consecutive numbers only, so that
nothing but the size limit makes it drop anything. `Gathering` is what is left of the buffer then:
the bytes held and the timestamp they will be cut with. A packet that exceeds the limit empties it
and the packets behind it are gathered anew, so at the marker the buffer holds what came behind the
last such packet (`pushAll_frames`). A buffer that is empty at the marker is not cut and keeps the
timestamp for the next frame. `output_eq_expected_iff` compares this, frame by frame, with what the
limit is meant to do.
-/

set_option autoImplicit false
set_option relaxedAutoImplicit false

namespace DoorAccess.Video

/-- The bytes in the buffer and, unless the next packet begins a frame, their timestamp. -/
structure Gathering (β : Type*) where
  held : List β
  stamp : Option UInt32

section Oversize

variable {β ν : Type*}

/-- A packet is appended: when it exceeds the limit it is dropped with the bytes held, and the next
one is gathered under its timestamp. -/
def Gathering.add (g : Gathering β) (p : RtpPacket β) : Gathering β :=
  if FRAME_MAX_BYTES < g.held.length + p.payload.length then ⟨[], some p.timestamp⟩
  else ⟨g.held ++ p.payload, some (g.stamp.getD p.timestamp)⟩

/-- The buffer behind a marker: only one that holds bytes is cut. -/
def Gathering.cut (g : Gathering β) : Gathering β :=
  if g.held.isEmpty then g else ⟨[], none⟩

/-- What is gathered of a frame up to its marker. -/
def gather (stamp : Option UInt32) (frame : List (RtpPacket β)) : Gathering β :=
  frame.foldl Gathering.add ⟨[], stamp⟩

/-- The units of a gathering. -/
def Gathering.units (extract : List β → UInt32 → List ν) (g : Gathering β) : List ν :=
  if g.held.isEmpty then [] else extract g.held (g.stamp.getD 0)

/-- The units of the frames of a stream, each gathered under the timestamp that the one before has
left. -/
def output (extract : List β → UInt32 → List ν) :
    Option UInt32 → List (List (RtpPacket β)) → List ν
  | _, [] => []
  | stamp, f :: frames =>
    (gather stamp f).units extract ++ output extract (gather stamp f).cut.stamp frames

/-! ### The buffer and the gathering -/

/-- The buffer holds a gathering, and `next` is the number that follows. -/
structure Keeps (r : FrameReassembler β) (g : Gathering β) (next : UInt16) : Prop where
  held : r.frameBuf = g.held
  unset : g.stamp = none → r.expectSeqSet = false
  set : ∀ stamp, g.stamp = some stamp →
    r.expectSeqSet = true ∧ r.expectSeq = next ∧ r.frameTimestamp = stamp

theorem Keeps.appendPayload {r : FrameReassembler β} {g : Gathering β} {p : RtpPacket β}
    (hheld : r.frameBuf = g.held) (hset : r.expectSeqSet = true)
    (hstamp : r.frameTimestamp = g.stamp.getD p.timestamp) :
    Keeps (appendPayload r p) (g.add p) (p.seq + 1) := by
  unfold Video.appendPayload Gathering.add
  rw [hheld]
  split_ifs
  · refine ⟨dropFrame_frameBuf .oversize r, ?_, ?_⟩
    · simp
    · rintro stamp hsome
      exact ⟨rfl, rfl, Option.some.inj hsome⟩
  · refine ⟨rfl, ?_, ?_⟩
    · simp
    · rintro stamp hsome
      exact ⟨hset, rfl, hstamp.trans (Option.some.inj hsome)⟩

theorem Keeps.appendPacket {r : FrameReassembler β} {g : Gathering β} {p : RtpPacket β}
    (h : Keeps r g p.seq) : Keeps (appendPacket r p) (g.add p) (p.seq + 1) := by
  cases hstamp : g.stamp with
  | none =>
    rw [appendPacket_fresh (h.unset hstamp)]
    refine .appendPayload h.held rfl ?_
    rw [hstamp]
    rfl
  | some stamp =>
    obtain ⟨hset, hexpect, htimestamp⟩ := h.set stamp hstamp
    have hgap : Serial.diff p.seq r.expectSeq = 0 := by rw [hexpect, Serial.diff_self]
    rw [appendPacket_tolerated hset (by rw [hgap]) (by rw [hgap]; decide)]
    refine .appendPayload h.held hset ?_
    rw [htimestamp, hstamp]
    rfl

variable (extract : List β → UInt32 → List ν)

theorem Keeps.cutFrame {r : FrameReassembler β} {g : Gathering β} {next : UInt16}
    (h : Keeps r g next) (hsome : g.stamp ≠ none) :
    Keeps (cutFrame extract r).1 g.cut next ∧
      (Video.cutFrame extract r).2 = g.units extract := by
  unfold Video.cutFrame Gathering.cut Gathering.units
  rw [h.held]
  split_ifs
  · exact ⟨h, rfl⟩
  · obtain ⟨stamp, hstamp⟩ := Option.ne_none_iff_exists'.mp hsome
    refine ⟨⟨rfl, fun _ ↦ rfl, ?_⟩, ?_⟩
    · rintro _ hnone
      exact absurd hnone (by simp)
    · rw [hstamp, (h.set stamp hstamp).2.2]
      rfl

/-- Behind a marker nothing is held. -/
theorem Gathering.cut_eq (g : Gathering β) : g.cut = gather g.cut.stamp [] := by
  obtain ⟨held, stamp⟩ := g
  cases held with
  | nil => rfl
  | cons b held => rfl

theorem add_stamp_ne_none (g : Gathering β) (p : RtpPacket β) : (g.add p).stamp ≠ none := by
  unfold Gathering.add
  split_ifs
  · simp
  · simp

/-- Consecutive packets through the buffer, behind the packets `acc` of a frame already begun. -/
theorem Keeps.feedAll {r : FrameReassembler β} {stamp : Option UInt32}
    {acc ps : List (RtpPacket β)} {seq : UInt16} (h : Keeps r (gather stamp acc) seq)
    (hseq : Consecutive seq ps) :
    (feedAll extract r ps).2.1 = output extract stamp (framesFrom acc ps) := by
  induction ps generalizing r stamp acc seq with
  | nil => rfl
  | cons p ps ih =>
    obtain ⟨hp, hps⟩ := hseq
    rw [← hp] at h
    have happend := h.appendPacket
    have hgather : (gather stamp acc).add p = gather stamp (acc ++ [p]) := by
      rw [gather, gather, List.foldl_append]
      rfl
    rw [hgather, hp] at happend
    simp only [Video.feedAll, framesFrom]
    by_cases hmarker : p.marker = true
    · have hstamp : (gather stamp (acc ++ [p])).stamp ≠ none := by
        rw [← hgather]
        exact add_stamp_ne_none _ p
      obtain ⟨hcut, hunits⟩ := happend.cutFrame extract hstamp
      rw [(gather stamp (acc ++ [p])).cut_eq] at hcut
      simp only [if_pos hmarker, output]
      rw [hunits, ih hcut hps]
    · simp only [if_neg hmarker]
      exact ih happend hps

theorem inOrder_of_consecutive {seq : UInt16} {ps : List (RtpPacket β)}
    (h : Consecutive seq ps) : InOrder ps := by
  rw [InOrder, List.isChain_iff_forall_rel_of_append_cons_cons]
  intro a b init rest hsplit
  rw [hsplit] at h
  right
  rw [h.adjacent, Serial.diff_succ]
  decide

/-- The units of a stream that arrives complete and in order are those of its frames, as far as they
are gathered. -/
theorem pushAll_frames {start : UInt16} {sent : List (RtpPacket β)}
    (hseq : Consecutive start sent) :
    (pushAll extract .new sent).2 = output extract none (framesFrom [] sent) := by
  have hnew : Keeps (.new : FrameReassembler β) (gather none []) start :=
    ⟨rfl, fun _ ↦ rfl, fun _ hsome ↦ absurd hsome (by simp [gather])⟩
  rw [pushAll_inOrder extract (inOrder_of_consecutive hseq)]
  exact hnew.feedAll extract hseq

/-! ### Within the limit -/

/-- Packets that fit are gathered whole. -/
theorem foldl_add_of_fits {g : Gathering β} {ps : List (RtpPacket β)}
    (h : g.held.length + (frameBytes ps).length ≤ FRAME_MAX_BYTES) :
    ps.foldl Gathering.add g = ⟨g.held ++ frameBytes ps,
      if ps.isEmpty then g.stamp else some (g.stamp.getD (frameStamp ps))⟩ := by
  induction ps generalizing g with
  | nil => simp [frameBytes]
  | cons p ps ih =>
    have hbytes : frameBytes (p :: ps) = p.payload ++ frameBytes ps := List.flatMap_cons
    rw [hbytes, List.length_append] at h
    have hadd : g.add p = ⟨g.held ++ p.payload, some (g.stamp.getD p.timestamp)⟩ := by
      rw [Gathering.add, if_neg (by omega)]
    rw [List.foldl_cons, hadd, ih (by simp only [List.length_append]; omega), hbytes]
    simp [frameStamp]

theorem gather_of_fits {stamp : Option UInt32} {f : List (RtpPacket β)} (hf : f ≠ [])
    (h : (frameBytes f).length ≤ FRAME_MAX_BYTES) :
    gather stamp f = ⟨frameBytes f, some (stamp.getD (frameStamp f))⟩ := by
  rw [gather, foldl_add_of_fits (by simpa using h)]
  simp [hf]

theorem ne_nil_of_mem_framesFrom {acc ps f : List (RtpPacket β)} (h : f ∈ framesFrom acc ps) :
    f ≠ [] := by
  induction ps generalizing acc with
  | nil => exact absurd h List.not_mem_nil
  | cons p ps ih =>
    unfold framesFrom at h
    split_ifs at h
    · rcases List.mem_cons.mp h with rfl | hrest
      · simp
      · exact ih hrest
    · exact ih h

/-! ### What the limit is meant to do -/

/-- The units that a frame is to give: none when it exceeds the limit, else its own. -/
def expectedUnits (f : List (RtpPacket UInt8)) : List NalUnit :=
  if (frameBytes f).length ≤ FRAME_MAX_BYTES then
    extractNalsAnnexb (frameBytes f) (frameStamp f)
  else []

/-- No frame over the limit has a unit behind the last packet with which it exceeds it, the size
being counted anew behind each; and no frame within the limit that has a unit is gathered under
another timestamp than its own, which a frame that leaves nothing to cut hands on to the next. -/
def Clean : Option UInt32 → List (List (RtpPacket UInt8)) → Prop
  | _, [] => True
  | stamp, f :: frames =>
    (if (frameBytes f).length ≤ FRAME_MAX_BYTES then
      extractNalsAnnexb (frameBytes f) 0 = [] ∨ stamp.getD (frameStamp f) = frameStamp f
    else extractNalsAnnexb (gather stamp f).held 0 = []) ∧
      Clean (gather stamp f).cut.stamp frames

theorem nalOf_stamp (ts : UInt32) (bytes : List UInt8) :
    nalOf ts bytes = (nalOf 0 bytes).map fun n ↦ { n with timestamp := ts } := by
  cases bytes with
  | nil => rfl
  | cons b rest => rfl

theorem nalsAfter_stamp (ts : UInt32) (rest : List UInt8) :
    nalsAfter ts rest = (nalsAfter 0 rest).map fun n ↦ { n with timestamp := ts } := by
  induction rest using nalsAfter.induct with
  | case1 rest hnone =>
    rw [nalsAfter, nalsAfter]
    split
    · exact nalOf_stamp ts rest
    · rename_i next hsome
      exact absurd (hnone.symm.trans hsome) (by simp)
  | case2 rest next hsome ih =>
    rw [nalsAfter, nalsAfter]
    split
    · rename_i hnone
      exact absurd (hnone.symm.trans hsome) (by simp)
    · rename_i next' hsome'
      obtain rfl : next' = next := Option.some.inj (hsome'.symm.trans hsome)
      rw [List.map_append, ← nalOf_stamp, ih]

/-- The timestamp does not change how a buffer is split. -/
theorem extractNalsAnnexb_stamp (bytes : List UInt8) (ts : UInt32) :
    extractNalsAnnexb bytes ts =
      (extractNalsAnnexb bytes 0).map fun n ↦ { n with timestamp := ts } := by
  unfold extractNalsAnnexb
  split
  · exact nalOf_stamp ts bytes
  · rw [List.map_append, ← nalOf_stamp, ← nalsAfter_stamp]

theorem extractNalsAnnexb_eq_iff (bytes : List UInt8) (ts ts' : UInt32) :
    extractNalsAnnexb bytes ts = extractNalsAnnexb bytes ts' ↔
      extractNalsAnnexb bytes 0 = [] ∨ ts = ts' := by
  rw [extractNalsAnnexb_stamp bytes ts, extractNalsAnnexb_stamp bytes ts']
  cases extractNalsAnnexb bytes 0 with
  | nil => simp
  | cons n nals =>
    constructor
    · intro h
      rw [List.map_cons, List.map_cons] at h
      exact Or.inr (NalUnit.mk.inj (List.cons.inj h).1).2.2.1
    · rintro (hnil | rfl)
      · exact absurd hnil (by simp)
      · rfl

theorem units_eq (g : Gathering UInt8) :
    g.units extractNalsAnnexb = extractNalsAnnexb g.held (g.stamp.getD 0) := by
  unfold Gathering.units
  split_ifs with hempty
  · rw [List.isEmpty_iff.mp hempty]
    rfl
  · rfl

/-- One frame gives at least the units that it is to give, and exactly these under the condition. -/
theorem units_gather (stamp : Option UInt32) {f : List (RtpPacket UInt8)} (hf : f ≠ []) :
    (expectedUnits f).length ≤ ((gather stamp f).units extractNalsAnnexb).length ∧
      ((gather stamp f).units extractNalsAnnexb = expectedUnits f ↔
        if (frameBytes f).length ≤ FRAME_MAX_BYTES then
          extractNalsAnnexb (frameBytes f) 0 = [] ∨ stamp.getD (frameStamp f) = frameStamp f
        else extractNalsAnnexb (gather stamp f).held 0 = []) := by
  rw [units_eq]
  by_cases hfits : (frameBytes f).length ≤ FRAME_MAX_BYTES
  · rw [gather_of_fits hf hfits, expectedUnits, if_pos hfits, if_pos hfits]
    refine ⟨?_, extractNalsAnnexb_eq_iff _ _ _⟩
    rw [extractNalsAnnexb_stamp, extractNalsAnnexb_stamp _ (Option.getD _ _)]
    simp
  · rw [expectedUnits, if_neg hfits, if_neg hfits]
    refine ⟨Nat.zero_le _, ?_⟩
    rw [extractNalsAnnexb_stamp, List.map_eq_nil_iff]

theorem output_length_le (stamp : Option UInt32) {frames : List (List (RtpPacket UInt8))}
    (hframes : ∀ f ∈ frames, f ≠ []) :
    (frames.flatMap expectedUnits).length ≤ (output extractNalsAnnexb stamp frames).length := by
  induction frames generalizing stamp with
  | nil => exact Nat.le_refl _
  | cons f frames ih =>
    have hunits := (units_gather stamp (hframes f List.mem_cons_self)).1
    have hrest := ih (gather stamp f).cut.stamp fun f' hf' ↦ hframes f' (List.mem_cons_of_mem f hf')
    rw [List.flatMap_cons, output, List.length_append, List.length_append]
    omega

/-- No frame gives less than it is to give, so that the units of all frames are the expected ones
exactly when those of each frame are. -/
theorem output_eq_expected_iff (stamp : Option UInt32) {frames : List (List (RtpPacket UInt8))}
    (hframes : ∀ f ∈ frames, f ≠ []) :
    output extractNalsAnnexb stamp frames = frames.flatMap expectedUnits ↔ Clean stamp frames := by
  induction frames generalizing stamp with
  | nil => exact iff_of_true rfl trivial
  | cons f frames ih =>
    have hrest : ∀ f' ∈ frames, f' ≠ [] := fun f' hf' ↦ hframes f' (List.mem_cons_of_mem f hf')
    obtain ⟨hlength, hunits⟩ := units_gather stamp (hframes f List.mem_cons_self)
    have hlength' := output_length_le (gather stamp f).cut.stamp hrest
    rw [Clean, ← hunits, ← ih _ hrest, List.flatMap_cons, output]
    constructor
    · intro h
      have htotal := congrArg List.length h
      rw [List.length_append, List.length_append] at htotal
      exact List.append_inj h (by omega)
    · rintro ⟨hfirst, hothers⟩
      rw [hfirst, hothers]

/-- **The limit on the size of a frame.** For a stream that arrives complete and in order, the units
returned are those of the frames within the limit, each cut whole under the timestamp of its first
packet, and nothing of the others, exactly when no frame over the limit has a unit behind the last
packet with which it exceeds it and every frame with a unit is gathered under its own timestamp. -/
theorem pushAll_expected_iff (start : UInt16) (sent : List (RtpPacket UInt8))
    (hseq : Consecutive start sent) :
    (pushAll extractNalsAnnexb .new sent).2 = (framesFrom [] sent).flatMap expectedUnits ↔
      Clean none (framesFrom [] sent) := by
  rw [pushAll_frames extractNalsAnnexb hseq]
  exact output_eq_expected_iff none fun f hf ↦ ne_nil_of_mem_framesFrom hf

/-! ### Frames of equal packets -/

/-- The payload of a packet in a long frame. -/
def longPayload : List UInt8 := List.replicate 2000 0x42

/-- A frame of `n` packets with 2000 bytes each, numbered from `seq`. -/
def longFrame : ℕ → UInt16 → List (RtpPacket UInt8)
  | 0, _ => []
  | n + 1, seq => ⟨decide (n = 0), 98, seq, 300, 7, longPayload⟩ :: longFrame n (seq + 1)

theorem consecutive_longFrame (n : ℕ) (seq : UInt16) : Consecutive seq (longFrame n seq) := by
  induction n generalizing seq with
  | zero => trivial
  | succ n ih => exact ⟨rfl, ih (seq + 1)⟩

theorem framesFrom_longFrame (acc rest : List (RtpPacket UInt8)) (n : ℕ) (seq : UInt16) :
    framesFrom acc (longFrame (n + 1) seq ++ rest) =
      (acc ++ longFrame (n + 1) seq) :: framesFrom [] rest := by
  induction n generalizing acc seq with
  | zero => rfl
  | succ n ih =>
    rw [longFrame, List.cons_append, framesFrom, if_neg (by simp), ih, List.append_assoc]
    rfl

theorem frameBytes_longFrame (n : ℕ) (seq : UInt16) :
    frameBytes (longFrame n seq) = List.replicate (2000 * n) 0x42 := by
  induction n generalizing seq with
  | zero => rfl
  | succ n ih =>
    have hbytes : frameBytes (longFrame (n + 1) seq) =
        longPayload ++ frameBytes (longFrame n (seq + 1)) := List.flatMap_cons
    rw [hbytes, ih, longPayload, List.replicate_append_replicate]
    congr 1
    omega

/-- Every 132nd packet exceeds the limit. -/
theorem foldl_add_longFrame (n : ℕ) (seq : UInt16) {k : ℕ} (hk : k < 132) :
    (longFrame n seq).foldl Gathering.add ⟨List.replicate (2000 * k) 0x42, some 300⟩ =
      ⟨List.replicate (2000 * ((k + n) % 132)) 0x42, some 300⟩ := by
  induction n generalizing seq k with
  | zero =>
    rw [longFrame, List.foldl_nil, Nat.add_zero, Nat.mod_eq_of_lt hk]
  | succ n ih =>
    rw [longFrame, List.foldl_cons, Gathering.add]
    simp only [longPayload, List.length_replicate, Option.getD_some,
      List.replicate_append_replicate]
    by_cases hlimit : k = 131
    · have hnext := ih (seq + 1) (Nat.zero_lt_succ 131)
      rw [Nat.mul_zero, List.replicate_zero, Nat.zero_add] at hnext
      have hcount : (k + (n + 1)) % 132 = n % 132 := by omega
      rw [if_pos (by rw [hlimit]; decide), hnext, hcount]
    · have hfits : ¬ FRAME_MAX_BYTES < 2000 * k + 2000 := by
        unfold FRAME_MAX_BYTES
        omega
      have hcount : k + 1 + n = k + (n + 1) := by omega
      have hsize : 2000 * k + 2000 = 2000 * (k + 1) := by omega
      rw [if_neg hfits, hsize, ih (seq + 1) (by omega), hcount]

theorem gather_longFrame (n : ℕ) (seq : UInt16) :
    gather none (longFrame (n + 1) seq) =
      ⟨List.replicate (2000 * ((n + 1) % 132)) 0x42, some 300⟩ := by
  have hfirst : (⟨[], none⟩ : Gathering UInt8).add
      ⟨decide (n = 0), 98, seq, 300, 7, longPayload⟩ =
      ⟨List.replicate (2000 * 1) 0x42, some 300⟩ := by
    have hlength : longPayload.length = 2000 := List.length_replicate
    rw [Gathering.add, hlength, if_neg (by decide)]
    rfl
  rw [gather, longFrame, List.foldl_cons, hfirst, foldl_add_longFrame n _ (by decide),
    Nat.add_comm 1 n]

/-- A frame that exceeds the limit with its marker packet, and a frame behind it. -/
theorem pushAll_dropped_at_marker :
    Consecutive 0 (longFrame 132 0 ++ longFrame 1 132) ∧
      (pushAll extractNalsAnnexb .new (longFrame 132 0 ++ longFrame 1 132)).2 =
        (framesFrom [] (longFrame 132 0 ++ longFrame 1 132)).flatMap expectedUnits := by
  have hseq : Consecutive 0 (longFrame 132 0 ++ longFrame 1 132) := by
    have hsplit : ∀ (n m : ℕ) (seq : UInt16),
        Consecutive seq (longFrame n seq ++ longFrame m (seq + UInt16.ofNat n)) := by
      intro n m
      induction n with
      | zero =>
        intro seq
        have hzero : seq + UInt16.ofNat 0 = seq := UInt16.add_zero seq
        rw [hzero]
        exact consecutive_longFrame m seq
      | succ n ih =>
        intro seq
        have hnext : seq + UInt16.ofNat (n + 1) = seq + 1 + UInt16.ofNat n := by
          rw [UInt16.ofNat_add, UInt16.add_comm (UInt16.ofNat n), ← UInt16.add_assoc]
          rfl
        rw [hnext]
        exact ⟨rfl, ih (seq + 1)⟩
    exact hsplit 132 1 0
  refine ⟨hseq, (pushAll_expected_iff 0 _ hseq).mpr ?_⟩
  have hframes : framesFrom [] (longFrame 132 0 ++ longFrame 1 132) =
      [longFrame 132 0, longFrame 1 132] := by
    rw [framesFrom_longFrame]
    rfl
  rw [hframes, Clean, frameBytes_longFrame, List.length_replicate, if_neg (by decide),
    gather_longFrame 131 0]
  refine ⟨rfl, ?_, trivial⟩
  rw [frameBytes_longFrame, List.length_replicate, if_pos (by decide)]
  exact Or.inr rfl

theorem findStartCode_replicate (n : ℕ) : findStartCode (List.replicate n 0x42) = none := by
  induction n with
  | zero => rfl
  | succ n ih =>
    rw [List.replicate_succ, findStartCode, ih, if_neg]
    · rfl
    · simp [START_CODE]

/-- Of a frame of 133 packets of 2000 bytes the marker packet is cut as a unit, although the frame
exceeds the limit. -/
theorem pushAll_longFrame :
    framesFrom [] (longFrame 133 0) = [longFrame 133 0] ∧
      FRAME_MAX_BYTES < (frameBytes (longFrame 133 0)).length ∧
      (pushAll extractNalsAnnexb .new (longFrame 133 0)).2 =
        [⟨2, longPayload, 300, 0⟩] ∧
      (pushAll extractNalsAnnexb .new (longFrame 133 0)).2 ≠
        (framesFrom [] (longFrame 133 0)).flatMap expectedUnits := by
  have hframes : framesFrom [] (longFrame 133 0) = [longFrame 133 0] := by
    have happend := framesFrom_longFrame [] [] 132 0
    rwa [List.append_nil] at happend
  have hlong : FRAME_MAX_BYTES < (frameBytes (longFrame 133 0)).length := by
    rw [frameBytes_longFrame, List.length_replicate]
    decide
  have hout : (pushAll extractNalsAnnexb .new (longFrame 133 0)).2 =
      [⟨2, longPayload, 300, 0⟩] := by
    have hbytes : 2000 * ((132 + 1) % 132) = 2000 := rfl
    rw [pushAll_frames extractNalsAnnexb (consecutive_longFrame 133 0), hframes, output, output,
      List.append_nil, units_eq, gather_longFrame 132 0, hbytes]
    simp only [extractNalsAnnexb, findStartCode_replicate]
    rfl
  refine ⟨hframes, hlong, hout, ?_⟩
  rw [hout, hframes, List.flatMap_singleton, expectedUnits, if_neg (Nat.not_le.mpr hlong)]
  simp

end Oversize

end DoorAccess.Video
