import DoorAccess.Video.Reassembler
import DoorAccess.Video.Transmux

/-!
# The written stream as a container

A reader of FLV that knows only the container: thirteen bytes of header, then tags, each with its
data size in 24 bits, its timestamp in 24 and 8 bits and its own size behind it. The bytes of a run
are read back to the last one, and the tags found are the ones of `runTags`.

The encoders cut the data size to 24 bits, so this rests on the sizes of the units: the fields hold
no parameter set longer than a unit may be, and then no tag body reaches `2^24`.
-/

set_option autoImplicit false
set_option relaxedAutoImplicit false

namespace DoorAccess.Video

open Records

/-! ### The reader -/

/-- A tag as it is read. -/
structure ReadTag where
  tagType : UInt8
  dataSize : ℕ
  timestamp : ℕ
  data : List UInt8
  previousTagSize : ℕ
  deriving DecidableEq

/-- Reads the eleven bytes of a tag header, as much data as they say, and four bytes more. -/
def readTag (input : List UInt8) : Option (ReadTag × List UInt8) := do
  let (tagType, rest) ← cut 1 input
  let (size, rest) ← cut 3 rest
  let (low, rest) ← cut 3 rest
  let (high, rest) ← cut 1 rest
  let (_streamId, rest) ← cut 3 rest
  let (data, rest) ← cut (value size) rest
  let (previous, rest) ← cut 4 rest
  return (⟨tagType.headD 0, value size, value (high ++ low), data, value previous⟩, rest)

/-- The header block and the tags, when they fill the bytes exactly. -/
def readFlv (bytes : List UInt8) : Option (List UInt8 × List ReadTag) := do
  let (header, rest) ← cut 13 bytes
  let tags ← readAll readTag rest.length rest
  return (header, tags)

/-- The AVC packet type is the second byte of the data. -/
def ReadTag.avcPacketType (t : ReadTag) : Option UInt8 :=
  t.data[1]?

/-- The frame type byte of the data of a NALU tag and the one unit in it, behind its length of four
bytes. -/
def naluOf (data : List UInt8) : Option (UInt8 × List UInt8) := do
  let (head, rest) ← cut 5 data
  let (size, nal) ← cut 4 rest
  if value size = nal.length then some (head.headD 0, nal) else none

/-! ### Reading a tag back -/

/-- What the reader makes of a tag. -/
def Tag.read (t : Tag) : ReadTag where
  tagType := FLV_TAG_TYPE_VIDEO
  dataSize := t.body.length
  timestamp := t.timestamp.toNat
  data := t.body
  previousTagSize := FLV_TAG_HEADER_SIZE.toNat + t.body.length

/-- The 24-bit field and the extension byte together are the timestamp. -/
theorem value_timestamp (ts : UInt32) :
    value ([((ts >>> 24) &&& 0xff).toUInt8] ++ lowBytes24 (ts &&& 0x00ffffff)) = ts.toNat := by
  have hext : ((ts >>> 24) &&& 0xff).toUInt8.toNat = ts.toNat / 2 ^ 24 := by
    have hmask : ts.toNat >>> 24 &&& 255 = (ts.toNat >>> 24) % 2 ^ 8 :=
      Nat.and_two_pow_sub_one_eq_mod (ts.toNat >>> 24) 8
    have hlt := ts.toNat_lt
    rw [UInt32.toNat_toUInt8, UInt32.toNat_and, UInt32.toNat_shiftRight]
    show (ts.toNat >>> 24 &&& 255) % 2 ^ 8 = _
    rw [hmask, Nat.shiftRight_eq_div_pow]
    omega
  have hlow : (ts &&& 0x00ffffff).toNat = ts.toNat % 2 ^ 24 := by
    rw [UInt32.toNat_and]
    exact Nat.and_two_pow_sub_one_eq_mod ts.toNat 24
  rw [List.singleton_append, value_cons, hext, value_lowBytes24, hlow, length_lowBytes24]
  omega

theorem readTag_bytes (t : Tag) (h : t.body.length < 2 ^ 24) (rest : List UInt8) :
    readTag (t.bytes ++ rest) = some (t.read, rest) := by
  have hsize : (UInt32.ofNat t.body.length).toNat = t.body.length := by
    rw [UInt32.toNat_ofNat']
    omega
  have hvalue : value (lowBytes24 (UInt32.ofNat t.body.length)) = t.body.length := by
    rw [value_lowBytes24, hsize, Nat.mod_eq_of_lt h]
  have hprevious : (FLV_TAG_HEADER_SIZE + UInt32.ofNat t.body.length).toNat =
      FLV_TAG_HEADER_SIZE.toNat + t.body.length := by
    rw [UInt32.toNat_add, hsize, Nat.mod_eq_of_lt]
    show 11 + t.body.length < 2 ^ 32
    omega
  have hbytes : t.bytes ++ rest =
      [FLV_TAG_TYPE_VIDEO] ++ (lowBytes24 (UInt32.ofNat t.body.length) ++
      (lowBytes24 (t.timestamp &&& 0x00ffffff) ++ ([((t.timestamp >>> 24) &&& 0xff).toUInt8] ++
        ([0, 0, 0] ++ (t.body ++
          (toBeBytes32 (FLV_TAG_HEADER_SIZE + UInt32.ofNat t.body.length) ++ rest)))))) := by
    simp only [Tag.bytes, wrapTag, List.append_assoc, List.cons_append, List.nil_append]
  rw [hbytes]
  unfold readTag
  rw [cut_append (by rfl)]
  dsimp only [bind, Option.bind]
  rw [cut_append (by rfl)]
  dsimp only [bind, Option.bind]
  rw [cut_append (by rfl)]
  dsimp only [bind, Option.bind]
  rw [cut_append (by rfl)]
  dsimp only [bind, Option.bind]
  rw [cut_append (by rfl)]
  dsimp only [bind, Option.bind]
  rw [hvalue, cut_append (by rfl)]
  dsimp only [bind, Option.bind]
  rw [cut_append (by rfl)]
  dsimp only [bind, Option.bind]
  rw [value_timestamp, value_toBeBytes32, hprevious]
  rfl

theorem bytes_ne_nil (t : Tag) : t.bytes ≠ [] := by
  simp [Tag.bytes, wrapTag]

theorem length_le_length_flatMap_bytes (tags : List Tag) :
    tags.length ≤ (tags.flatMap Tag.bytes).length := by
  induction tags with
  | nil => exact Nat.le_refl 0
  | cons t tags ih =>
    have hpos : 0 < t.bytes.length := List.length_pos_iff.mpr (bytes_ne_nil t)
    rw [List.flatMap_cons, List.length_append, List.length_cons]
    omega

/-- A header block and tags of moderate size are read back. -/
theorem readFlv_bytes (tags : List Tag) (h : ∀ t ∈ tags, t.body.length < 2 ^ 24) :
    readFlv (flvHeader ++ tags.flatMap Tag.bytes) = some (flvHeader, tags.map Tag.read) := by
  have hall : readAll readTag (tags.flatMap Tag.bytes).length (tags.flatMap Tag.bytes) =
      some (tags.map Tag.read) :=
    readAll_flatMap tags _ (fun t _ ↦ bytes_ne_nil t)
      (fun t ht rest ↦ readTag_bytes t (h t ht) rest) (length_le_length_flatMap_bytes tags)
  unfold readFlv
  rw [cut_append (by rfl)]
  dsimp only [bind, Option.bind]
  rw [hall]
  rfl

/-! ### The tags of a run -/

/-- The body is the sequence header of two parameter sets. -/
def Tag.IsSeqHeader (t : Tag) : Prop :=
  ∃ sps pps cfg, packAvcDecoderConfig sps pps = some cfg ∧ t.body = seqHeaderBody cfg

/-- The second byte of the body says that this is a NALU tag. -/
def Tag.isNalu (t : Tag) : Bool :=
  t.body[1]? = some FLV_AVC_NALU

theorem isSeqHeader_of_mem {sps pps : List UInt8} {ts : UInt32} {t : Tag}
    (h : t ∈ seqHeader sps pps ts) : t.IsSeqHeader := by
  obtain ⟨cfg, hcfg, rfl⟩ := Option.map_eq_some_iff.mp (Option.mem_toList.mp h)
  exact ⟨sps, pps, cfg, hcfg, rfl⟩

theorem Tag.IsSeqHeader.isNalu {t : Tag} (h : t.IsSeqHeader) : t.isNalu = false := by
  obtain ⟨_, _, cfg, _, hbody⟩ := h
  rw [Tag.isNalu, hbody]
  rfl

@[simp] theorem isNalu_naluBody (ts : UInt32) (nals : List NalUnit) :
    Tag.isNalu ⟨ts, naluBody nals⟩ = true :=
  rfl

theorem length_config {sps pps cfg : List UInt8} (h : packAvcDecoderConfig sps pps = some cfg) :
    cfg.length = 11 + sps.length + pps.length := by
  unfold packAvcDecoderConfig at h
  split at h
  · split_ifs at h
    obtain rfl := Option.some.inj h
    simp [toBeBytes16]
    omega
  · exact absurd h (by simp)

/-- A parameter set is no longer than a unit may be. -/
def Fits (data : Option (List UInt8)) : Prop :=
  ∀ d ∈ data, d.length ≤ FRAME_MAX_BYTES

theorem seqHeader_length {sps pps : List UInt8} {ts : UInt32} (hsps : sps.length ≤ FRAME_MAX_BYTES)
    (hpps : pps.length ≤ FRAME_MAX_BYTES) : ∀ t ∈ seqHeader sps pps ts, t.body.length < 2 ^ 24 := by
  intro t ht
  obtain ⟨cfg, hcfg, rfl⟩ := Option.map_eq_some_iff.mp (Option.mem_toList.mp ht)
  have hlength := length_config hcfg
  simp only [seqHeaderBody, List.length_append, List.length_cons, List.length_nil, hlength]
  unfold FRAME_MAX_BYTES at hsps hpps
  omega

theorem naluBody_length {n : NalUnit} (h : n.data.length ≤ FRAME_MAX_BYTES) :
    (naluBody [n]).length < 2 ^ 24 := by
  unfold FRAME_MAX_BYTES at h
  simp [naluBody, lengthPrefixed]
  omega

namespace Segment

/-- Both parameter sets of the segment fit. -/
def SetsFit (seg : Segment) : Prop :=
  Fits seg.segSps ∧ Fits seg.segPps

variable {seg : Segment} {n : NalUnit}

theorem changeSegment_sets (seg : Segment) (n : NalUnit) :
    (seg.changeSegment n).segSps = seg.segSps ∧ (seg.changeSegment n).segPps = seg.segPps := by
  unfold changeSegment
  split_ifs
  · exact ⟨rfl, rfl⟩
  · exact ⟨rfl, rfl⟩

theorem relativeFlvTimestamp_sets (seg : Segment) (ts : UInt32) :
    (seg.relativeFlvTimestamp ts).2.segSps = seg.segSps ∧
      (seg.relativeFlvTimestamp ts).2.segPps = seg.segPps := by
  unfold relativeFlvTimestamp
  dsimp only
  split_ifs
  · exact ⟨rfl, rfl⟩
  · exact ⟨rfl, rfl⟩
  · exact ⟨rfl, rfl⟩

theorem next_setsFit (h : seg.SetsFit) (hn : n.data.length ≤ FRAME_MAX_BYTES) :
    (seg.next n).SetsFit := by
  obtain ⟨hsps, hpps⟩ := changeSegment_sets seg n
  have hnew : Fits (some n.data) := by
    intro d hd
    obtain rfl := Option.some.inj hd
    exact hn
  unfold next
  dsimp only
  split_ifs
  · exact ⟨hnew, by rw [hpps]; exact h.2⟩
  · exact ⟨by rw [hsps]; exact h.1, hnew⟩
  · obtain ⟨hsps', hpps'⟩ := relativeFlvTimestamp_sets { seg.changeSegment n with
      pendingSeqHeader := (seg.changeSegment n).pendingSeqHeader &&
        !decide (n.nalType = NAL_TYPE_IDR) } n.timestamp
    refine ⟨?_, ?_⟩
    · rw [hsps', hsps]
      exact h.1
    · rw [hpps', hpps]
      exact h.2

theorem headerTags_isSeqHeader (seg : Segment) (n : NalUnit) :
    ∀ t ∈ seg.headerTags n, t.IsSeqHeader := by
  intro t ht
  unfold headerTags at ht
  split_ifs at ht
  · exact isSeqHeader_of_mem ht
  · exact absurd ht List.not_mem_nil

theorem headerTags_length (h : seg.SetsFit) (n : NalUnit) :
    ∀ t ∈ seg.headerTags n, t.body.length < 2 ^ 24 := by
  have hgetD : ∀ data : Option (List UInt8), Fits data →
      (data.getD []).length ≤ FRAME_MAX_BYTES := by
    intro data hdata
    cases data with
    | none => exact Nat.zero_le _
    | some d => exact hdata d rfl
  intro t ht
  unfold headerTags at ht
  split_ifs at ht
  · exact seqHeader_length (hgetD _ h.1) (hgetD _ h.2) t ht
  · exact absurd ht List.not_mem_nil

theorem tags_length (h : seg.SetsFit) (hn : n.data.length ≤ FRAME_MAX_BYTES) :
    ∀ t ∈ seg.tags n, t.body.length < 2 ^ 24 := by
  intro t ht
  by_cases hset : n.isParameterSet = true
  · rw [tags_of_parameterSet seg hset] at ht
    exact absurd ht List.not_mem_nil
  · rw [tags_of_picture seg (eq_false_of_ne_true hset)] at ht
    rcases List.mem_append.mp ht with hheader | hnalu
    · have hsets := changeSegment_sets seg n
      refine headerTags_length ⟨?_, ?_⟩ n t hheader
      · rw [hsets.1]
        exact h.1
      · rw [hsets.2]
        exact h.2
    · rw [List.mem_singleton.mp hnalu]
      exact naluBody_length hn

theorem tagsAll_length (nals : List NalUnit) (h : seg.SetsFit)
    (hnals : ∀ n ∈ nals, n.data.length ≤ FRAME_MAX_BYTES) :
    ∀ t ∈ seg.tagsAll nals, t.body.length < 2 ^ 24 := by
  induction nals generalizing seg with
  | nil => exact fun t ht ↦ absurd ht List.not_mem_nil
  | cons n nals ih =>
    have hn := hnals n List.mem_cons_self
    intro t ht
    rcases List.mem_append.mp ht with hfirst | hrest
    · exact tags_length h hn t hfirst
    · exact ih (next_setsFit h hn) (fun m hm ↦ hnals m (List.mem_cons_of_mem n hm)) t hrest

/-- The NALU tags among the tags of one unit: the unit itself unless it is a parameter set. -/
theorem tags_nalus (seg : Segment) (n : NalUnit) :
    ((seg.tags n).filter Tag.isNalu).map Tag.body =
      ([n].filter fun n ↦ !n.isParameterSet).map fun n ↦ naluBody [n] := by
  by_cases hset : n.isParameterSet = true
  · rw [tags_of_parameterSet seg hset]
    simp [hset]
  · have hpicture := eq_false_of_ne_true hset
    have hnone : ((seg.changeSegment n).headerTags n).filter Tag.isNalu = [] := by
      rw [List.filter_eq_nil_iff]
      intro t ht
      rw [(headerTags_isSeqHeader _ n t ht).isNalu]
      exact Bool.false_ne_true
    rw [tags_of_picture seg hpicture, List.filter_append, hnone,
      List.filter_cons_of_pos (isNalu_naluBody _ _),
      List.filter_cons_of_pos (by rw [hpicture]; rfl)]
    rfl

theorem tagsAll_nalus (seg : Segment) (nals : List NalUnit) :
    ((seg.tagsAll nals).filter Tag.isNalu).map Tag.body =
      (nals.filter fun n ↦ !n.isParameterSet).map fun n ↦ naluBody [n] := by
  induction nals generalizing seg with
  | nil => rfl
  | cons n nals ih =>
    show ((seg.tags n ++ (seg.next n).tagsAll nals).filter Tag.isNalu).map Tag.body = _
    rw [List.filter_append, List.map_append, tags_nalus, ih, ← List.map_append,
      ← List.filter_append, List.singleton_append]

theorem tagsAll_others (seg : Segment) (nals : List NalUnit) :
    ∀ t ∈ seg.tagsAll nals, t.isNalu = false → t.IsSeqHeader := by
  induction nals generalizing seg with
  | nil => exact fun t ht ↦ absurd ht List.not_mem_nil
  | cons n nals ih =>
    intro t ht hother
    rcases List.mem_append.mp ht with hfirst | hrest
    · by_cases hset : n.isParameterSet = true
      · rw [tags_of_parameterSet seg hset] at hfirst
        exact absurd hfirst List.not_mem_nil
      · rw [tags_of_picture seg (eq_false_of_ne_true hset)] at hfirst
        rcases List.mem_append.mp hfirst with hheader | hnalu
        · exact headerTags_isSeqHeader _ n t hheader
        · rw [List.mem_singleton.mp hnalu] at hother
          exact absurd hother (by simp)
    · exact ih (seg.next n) t hrest hother

end Segment

namespace StreamWriter

variable {sps pps idr : NalUnit} {nals : List NalUnit}

theorem runTags_length
    (hfits : ∀ n ∈ sps :: pps :: idr :: nals, n.data.length ≤ FRAME_MAX_BYTES) :
    ∀ t ∈ runTags sps pps idr nals, t.body.length < 2 ^ 24 := by
  have hsps := hfits sps List.mem_cons_self
  have hpps := hfits pps (List.mem_cons_of_mem _ List.mem_cons_self)
  have hrest : ∀ n ∈ idr :: nals, n.data.length ≤ FRAME_MAX_BYTES := by
    intro n hn
    exact hfits n (List.mem_cons_of_mem _ (List.mem_cons_of_mem _ hn))
  have hsets : (seeded sps pps idr).SetsFit := by
    constructor
    · intro d hd
      obtain rfl := Option.some.inj hd
      exact hsps
    · intro d hd
      obtain rfl := Option.some.inj hd
      exact hpps
  intro t ht
  rcases List.mem_append.mp ht with hseed | hreceived
  · rcases List.mem_append.mp hseed with hheader | hidr
    · exact seqHeader_length hsps hpps t hheader
    · rw [List.mem_singleton.mp hidr]
      exact naluBody_length (hrest idr List.mem_cons_self)
  · exact Segment.tagsAll_length nals hsets
      (fun n hn ↦ hrest n (List.mem_cons_of_mem idr hn)) t hreceived

theorem runTags_nalus (sps pps idr : NalUnit) (nals : List NalUnit) :
    ((runTags sps pps idr nals).filter Tag.isNalu).map Tag.body =
      (idr :: nals.filter fun n ↦ !n.isParameterSet).map fun n ↦ naluBody [n] := by
  have hnone : (seqHeader sps.data pps.data 0).filter Tag.isNalu = [] := by
    rw [List.filter_eq_nil_iff]
    intro t ht
    rw [(isSeqHeader_of_mem ht).isNalu]
    exact Bool.false_ne_true
  unfold runTags
  rw [List.filter_append, List.filter_append, hnone, List.map_append, Segment.tagsAll_nalus]
  rfl

theorem runTags_others (sps pps idr : NalUnit) (nals : List NalUnit) :
    ∀ t ∈ runTags sps pps idr nals, t.isNalu = false → t.IsSeqHeader := by
  intro t ht hother
  rcases List.mem_append.mp ht with hseed | hreceived
  · rcases List.mem_append.mp hseed with hheader | hidr
    · exact isSeqHeader_of_mem hheader
    · rw [List.mem_singleton.mp hidr] at hother
      exact absurd hother (by simp)
  · exact Segment.tagsAll_others _ nals t hreceived hother

end StreamWriter

/-! ### The container -/

/-- The unit of a NALU tag is found behind its length. -/
theorem naluOf_naluBody {n : NalUnit} (hn : n.data.length ≤ FRAME_MAX_BYTES) :
    naluOf (naluBody [n]) = some (frameTypeByte (n.nalType = NAL_TYPE_IDR), n.data) := by
  have hsize : value (toBeBytes32 (UInt32.ofNat n.data.length)) = n.data.length := by
    unfold FRAME_MAX_BYTES at hn
    rw [value_toBeBytes32, UInt32.toNat_ofNat']
    omega
  have hbody : naluBody [n] = [frameTypeByte (n.nalType = NAL_TYPE_IDR), FLV_AVC_NALU, 0, 0, 0] ++
      (toBeBytes32 (UInt32.ofNat n.data.length) ++ n.data) := by
    simp [naluBody, lengthPrefixed]
  unfold naluOf
  rw [hbody, cut_append (by rfl)]
  dsimp only [bind, Option.bind]
  rw [cut_append (by rfl)]
  dsimp only [bind, Option.bind]
  rw [if_pos hsize]
  rfl

open StreamWriter in
/-- With a writer that takes all bytes, the bytes of a run are the header block and tags that the
reader walks through to the end, each followed by its own size; the NALU tags carry the seed IDR and
then every unit received that is not a parameter set, marked as keyframes exactly for an IDR, and
all other tags are sequence headers. -/
theorem run_readFlv {ε : Type*} {writer : Writer ε} (hwriter : Accepts writer)
    (sps pps idr : NalUnit) (received : List Recv)
    (hfits : ∀ n ∈ sps :: pps :: idr :: received.filterMap Recv.nal?,
      n.data.length ≤ FRAME_MAX_BYTES) :
    ∃ s tags, new.run writer (some (sps, pps, idr)) received = .ok s ∧
      readFlv s.written.flatten = some (flvHeader, tags) ∧
      (∀ t ∈ tags, t.tagType = FLV_TAG_TYPE_VIDEO ∧ t.previousTagSize = 11 + t.dataSize) ∧
      ((tags.filter fun t ↦ t.avcPacketType = some FLV_AVC_NALU).map fun t ↦ naluOf t.data) =
        ((idr :: (received.filterMap Recv.nal?).filter fun n ↦
          !(n.nalType = NAL_TYPE_SPS || n.nalType = NAL_TYPE_PPS)).map fun n ↦
            some (if n.nalType = NAL_TYPE_IDR then 0x17 else 0x27, n.data)) ∧
      ∀ t ∈ tags, t.avcPacketType ≠ some FLV_AVC_NALU →
        ∃ sps pps cfg, packAvcDecoderConfig sps pps = some cfg ∧
          t.data = [0x17, FLV_AVC_SEQ_HEADER, 0, 0, 0] ++ cfg := by
  obtain ⟨s, hrun, hwritten⟩ := hwriter.run sps pps idr received
  have hlength := runTags_length hfits
  refine ⟨s, (runTags sps pps idr (received.filterMap Recv.nal?)).map Tag.read, hrun, ?_, ?_, ?_,
    ?_⟩
  · rw [hwritten, List.flatten_cons, ← List.flatMap_def]
    exact readFlv_bytes _ hlength
  · intro t ht
    obtain ⟨u, _, rfl⟩ := List.mem_map.mp ht
    exact ⟨rfl, rfl⟩
  · have hnalus := runTags_nalus sps pps idr (received.filterMap Recv.nal?)
    have hread : ∀ n ∈ idr :: (received.filterMap Recv.nal?).filter (fun n ↦ !n.isParameterSet),
        naluOf (naluBody [n]) =
          some (if n.nalType = NAL_TYPE_IDR then 0x17 else 0x27, n.data) := by
      intro n hn
      have hmem : n ∈ sps :: pps :: idr :: received.filterMap Recv.nal? := by
        apply List.mem_cons_of_mem
        apply List.mem_cons_of_mem
        rcases List.mem_cons.mp hn with rfl | hfiltered
        · exact List.mem_cons_self
        · exact List.mem_cons_of_mem idr (List.mem_filter.mp hfiltered).1
      rw [naluOf_naluBody (hfits n hmem)]
      by_cases hidr : n.nalType = NAL_TYPE_IDR
      · simp only [hidr]
        rfl
      · simp only [hidr]
        rfl
    rw [List.filter_map, List.map_map]
    calc (((runTags sps pps idr (received.filterMap Recv.nal?)).filter Tag.isNalu).map
          fun t ↦ naluOf t.body)
        = (((runTags sps pps idr (received.filterMap Recv.nal?)).filter Tag.isNalu).map
            Tag.body).map naluOf := by rw [List.map_map]; rfl
      _ = ((idr :: (received.filterMap Recv.nal?).filter fun n ↦ !n.isParameterSet).map
            fun n ↦ naluOf (naluBody [n])) := by rw [hnalus, List.map_map]; rfl
      _ = _ := List.map_congr_left hread
  · intro t ht hother
    obtain ⟨u, hu, rfl⟩ := List.mem_map.mp ht
    have hseq := runTags_others sps pps idr _ u hu (by
      rw [Tag.isNalu]
      exact decide_eq_false hother)
    exact hseq

open StreamWriter in
/-- The seed and one picture, with an idle period before it. -/
theorem run_readFlv_seed :
    ∃ s tags, new.run vec (some (seedSps, seedPps, seedIdr)) [.timeout, .nal (interUnit 90090 0)] =
        .ok s ∧
      readFlv s.written.flatten = some (flvHeader, tags) ∧
      ((tags.filter fun t ↦ t.avcPacketType = some FLV_AVC_NALU).map fun t ↦ naluOf t.data) =
        [some (0x17, [0x65, 0xaa]), some (0x27, [0x61, 0x01])] := by
  have hfits : ∀ n ∈ [seedSps, seedPps, seedIdr, interUnit 90090 0],
      n.data.length ≤ FRAME_MAX_BYTES := by
    decide
  obtain ⟨s, tags, hrun, hread, _, hnalus, _⟩ := run_readFlv accepts_vec seedSps seedPps seedIdr
    [.timeout, .nal (interUnit 90090 0)] hfits
  exact ⟨s, tags, hrun, hread, hnalus⟩

end DoorAccess.Video
