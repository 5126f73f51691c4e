import DoorAccess.Lib.Records
import DoorAccess.Video.Rtp

/-!
# From NAL units to an FLV stream

The four encoders of `transmux.rs` and its `StreamWriter`, which writes the units of one
subscription as FLV tags. The output is any writer: it is asked call by call and may refuse one,
which ends the run, so a run ends with the writer's state or with an error and the state it had
reached.

What the loop does to its own fields does not depend on the output. `Segment` holds those fields,
`Segment.next` and `Segment.tags` are what one received unit makes of them and which tags it is
worth, and `run_writes` says that the bytes of exactly these tags are written, as far as the writer
takes them.
-/

set_option autoImplicit false
set_option relaxedAutoImplicit false

namespace DoorAccess.Video

open Records

/-! ### Encoders -/

def FLV_HEADER_SIZE : UInt32 := 9

def FLV_TAG_HEADER_SIZE : UInt32 := 11

def FLV_TAG_TYPE_VIDEO : UInt8 := 0x09

def FLV_VIDEO_CODEC_H264 : UInt8 := 0x07

def FLV_AVC_SEQ_HEADER : UInt8 := 0x00

def FLV_AVC_NALU : UInt8 := 0x01

def FLV_FRAME_TYPE_KEY : UInt8 := 0x10

def FLV_FRAME_TYPE_INTER : UInt8 := 0x20

def SEGMENT_GAP_MS : UInt32 := 40

def FLV_SIGNATURE : List UInt8 := Codec.ascii "FLV"

def FLV_VERSION : UInt8 := 0x01

def FLV_FLAGS_VIDEO : UInt8 := 0x01

/-- `flv_header`: the header and the size of the tag before the first, which is 0. -/
def flvHeader : List UInt8 :=
  FLV_SIGNATURE ++ [FLV_VERSION, FLV_FLAGS_VIDEO] ++ toBeBytes32 FLV_HEADER_SIZE ++ [0, 0, 0, 0]

/-- `pack_avc_decoder_config`: refused for less than four bytes of SPS or an empty PPS. The two
lengths are cut to 16 bits. -/
def packAvcDecoderConfig (sps pps : List UInt8) : Option (List UInt8) :=
  match sps with
  | _ :: profile :: compat :: level :: _ =>
    if pps.isEmpty then none
    else
      some ([1, profile, compat, level, 0xff, 0xe1] ++ toBeBytes16 (UInt16.ofNat sps.length) ++
        sps ++ [1] ++ toBeBytes16 (UInt16.ofNat pps.length) ++ pps)
  | _ => none

/-- `wrap_tag`. -/
def wrapTag (tagType : UInt8) (timestamp : UInt32) (body : List UInt8) : List UInt8 :=
  let dataSize := UInt32.ofNat body.length
  let ts24 := timestamp &&& 0x00ffffff
  let tsExt := ((timestamp >>> 24) &&& 0xff).toUInt8
  [tagType] ++ lowBytes24 dataSize ++ lowBytes24 ts24 ++ [tsExt, 0, 0, 0] ++ body ++
    toBeBytes32 (FLV_TAG_HEADER_SIZE + dataSize)

/-- The body of the tag that `build_avc_sequence_header_tag` builds. -/
def seqHeaderBody (cfg : List UInt8) : List UInt8 :=
  [FLV_FRAME_TYPE_KEY ||| FLV_VIDEO_CODEC_H264, FLV_AVC_SEQ_HEADER, 0, 0, 0] ++ cfg

def buildAvcSequenceHeaderTag (sps pps : List UInt8) (ts : UInt32) : Option (List UInt8) :=
  (packAvcDecoderConfig sps pps).map fun cfg ↦ wrapTag FLV_TAG_TYPE_VIDEO ts (seqHeaderBody cfg)

/-- The first byte of the body of a NALU tag. -/
def frameTypeByte (keyframe : Bool) : UInt8 :=
  (if keyframe then FLV_FRAME_TYPE_KEY else FLV_FRAME_TYPE_INTER) ||| FLV_VIDEO_CODEC_H264

/-- A unit behind its length. -/
def lengthPrefixed (data : List UInt8) : List UInt8 :=
  toBeBytes32 (UInt32.ofNat data.length) ++ data

/-- The body of the tag that `build_avc_nalu_tag` builds. -/
def naluBody (nals : List NalUnit) : List UInt8 :=
  [frameTypeByte (nals.any fun n ↦ n.nalType = NAL_TYPE_IDR), FLV_AVC_NALU, 0, 0, 0] ++
    nals.flatMap fun n ↦ lengthPrefixed n.data

def buildAvcNaluTag (nals : List NalUnit) (ts : UInt32) : Option (List UInt8) :=
  if nals.isEmpty then none else some (wrapTag FLV_TAG_TYPE_VIDEO ts (naluBody nals))

/-- `u32::saturating_add`. -/
def saturatingAdd (a b : UInt32) : UInt32 :=
  if a.toNat + b.toNat < 2 ^ 32 then a + b else UInt32.ofNat (2 ^ 32 - 1)

theorem toNat_saturatingAdd (a b : UInt32) :
    (saturatingAdd a b).toNat = min (a.toNat + b.toNat) (2 ^ 32 - 1) := by
  unfold saturatingAdd
  split_ifs with hlt
  · rw [UInt32.toNat_add, Nat.mod_eq_of_lt hlt]
    omega
  · rw [UInt32.toNat_ofNat']
    omega

/-! ### The fields of the writer -/

/-- The fields of `StreamWriter` apart from its output. -/
structure Segment where
  baseRtpTimestamp : UInt32
  baseRtpSet : Bool
  currentEpoch : UInt32
  segmentBaseFlv : UInt32
  lastFlvTs : UInt32
  segSps : Option (List UInt8)
  segPps : Option (List UInt8)
  pendingSeqHeader : Bool
  deriving DecidableEq

namespace Segment

/-- The assignments of `run` between reading the seed and writing it. -/
def primed (sps pps idr : NalUnit) (seg : Segment) : Segment :=
  { seg with
    baseRtpTimestamp := idr.timestamp
    baseRtpSet := true
    currentEpoch := idr.streamEpoch
    segmentBaseFlv := 0
    lastFlvTs := 0
    segSps := some sps.data
    segPps := some pps.data }

/-- The first branch of the loop: a unit of another epoch begins a segment. -/
def changeSegment (seg : Segment) (n : NalUnit) : Segment :=
  if n.streamEpoch ≠ seg.currentEpoch then
    { seg with
      currentEpoch := n.streamEpoch
      baseRtpTimestamp := n.timestamp
      baseRtpSet := true
      segmentBaseFlv := saturatingAdd seg.lastFlvTs SEGMENT_GAP_MS
      lastFlvTs := saturatingAdd seg.lastFlvTs SEGMENT_GAP_MS
      pendingSeqHeader := true }
  else seg

/-- `relative_flv_timestamp`. -/
def relativeFlvTimestamp (seg : Segment) (rtpTs : UInt32) : UInt32 × Segment :=
  if seg.baseRtpSet = false then
    (seg.segmentBaseFlv, { seg with baseRtpTimestamp := rtpTs, baseRtpSet := true })
  else
    let within := (rtpTs - seg.baseRtpTimestamp) / 90
    let out := saturatingAdd seg.segmentBaseFlv within
    (out, if seg.lastFlvTs < out then { seg with lastFlvTs := out } else seg)

/-- The sequence header that would go before an IDR now. -/
def seqHeaderTag (seg : Segment) : Option (List UInt8) :=
  match seg.segSps, seg.segPps with
  | some sps, some pps => buildAvcSequenceHeaderTag sps pps seg.segmentBaseFlv
  | _, _ => none

end Segment

/-! ### The writer -/

/-- A call on the output. -/
inductive Call
  | writeAll (bytes : List UInt8)
  | flush
  deriving DecidableEq

/-- The output: what the next call fails with, if it fails, after the calls made so far. -/
abbrev Writer (ε : Type*) := List Call → Call → Option ε

inductive StreamError (ε : Type*)
  /-- The seed units are missing. -/
  | closed
  | io (e : ε)

structure StreamWriter extends Segment where
  /-- The calls made on the output, a write only if it went through. -/
  w : List Call

/-- A method that may fail leaves the writer behind either way. -/
abbrev StreamM (ε : Type*) := Except (StreamError ε × StreamWriter)

/-- What one `recv_timeout` returns while the channel is connected. -/
inductive Recv
  | nal (n : NalUnit)
  | timeout
  deriving DecidableEq

/-- The units among the results of `recv_timeout`. -/
def Recv.nal? : Recv → Option NalUnit
  | .nal n => some n
  | .timeout => none

namespace StreamWriter

variable {ε : Type*} (writer : Writer ε)

def new : StreamWriter where
  baseRtpTimestamp := 0
  baseRtpSet := false
  currentEpoch := 0
  segmentBaseFlv := 0
  lastFlvTs := 0
  segSps := none
  segPps := none
  pendingSeqHeader := false
  w := []

/-- The pieces written so far. -/
def written (s : StreamWriter) : List (List UInt8) :=
  s.w.filterMap fun call ↦
    match call with
    | .writeAll bytes => some bytes
    | .flush => none

/-- `write_all(..)?`. -/
def writeAll (s : StreamWriter) (bytes : List UInt8) : StreamM ε StreamWriter :=
  match writer s.w (.writeAll bytes) with
  | some e => .error (.io e, s)
  | none => .ok { s with w := s.w ++ [.writeAll bytes] }

/-- `if let Some(bytes) = .. { write_all(bytes)? }`. -/
def writeSome (s : StreamWriter) : Option (List UInt8) → StreamM ε StreamWriter
  | none => .ok s
  | some bytes => s.writeAll writer bytes

/-- `flush`, which swallows an error. -/
def flush (s : StreamWriter) : StreamWriter :=
  { s with w := s.w ++ [.flush] }

/-- `w.flush()?`, when no unit has come in time. -/
def probe (s : StreamWriter) : StreamM ε StreamWriter :=
  match writer s.w .flush with
  | some e => .error (.io e, s.flush)
  | none => .ok s.flush

/-- The sequence header before the first IDR of a segment. -/
def resendSeqHeader (s : StreamWriter) (n : NalUnit) : StreamM ε StreamWriter :=
  if s.pendingSeqHeader = true ∧ n.nalType = NAL_TYPE_IDR then do
    let s ← s.writeSome writer s.seqHeaderTag
    return { s with pendingSeqHeader := false }
  else .ok s

/-- The end of the loop body: the tag of the unit itself. -/
def writeNalu (s : StreamWriter) (n : NalUnit) : StreamM ε StreamWriter := do
  let (ts, seg) := s.relativeFlvTimestamp n.timestamp
  let s ← { s with toSegment := seg }.writeSome writer (buildAvcNaluTag [n] ts)
  return s.flush

/-- The loop body for a received unit: parameter sets are only remembered. -/
def onNal (s : StreamWriter) (n : NalUnit) : StreamM ε StreamWriter :=
  let s := { s with toSegment := s.changeSegment n }
  if n.nalType = NAL_TYPE_SPS then .ok { s with segSps := some n.data }
  else if n.nalType = NAL_TYPE_PPS then .ok { s with segPps := some n.data }
  else do
    let s ← s.resendSeqHeader writer n
    s.writeNalu writer n

/-- The loop of `run`, until the channel is found disconnected. -/
def loop : StreamWriter → List Recv → StreamM ε StreamWriter
  | s, [] => .ok s
  | s, .timeout :: rest => do
    let s ← s.probe writer
    loop s rest
  | s, .nal n :: rest => do
    let s ← s.onNal writer n
    loop s rest

/-- `run`, with what `latest_idr` returns and what the subscription delivers. -/
def run (s : StreamWriter) (latestIdr : Option (NalUnit × NalUnit × NalUnit))
    (received : List Recv) : StreamM ε StreamWriter := do
  let s ← s.writeAll writer flvHeader
  let s := s.flush
  match latestIdr with
  | none => .error (.closed, s)
  | some (sps, pps, idr) =>
    let s := { s with toSegment := s.toSegment.primed sps pps idr }
    let s ← s.writeSome writer (buildAvcSequenceHeaderTag sps.data pps.data 0)
    let s ← s.writeSome writer (buildAvcNaluTag [idr] 0)
    loop writer s.flush received

end StreamWriter

/-! ### Tags -/

/-- A video tag before it is wrapped. -/
structure Tag where
  timestamp : UInt32
  body : List UInt8
  deriving DecidableEq

def Tag.bytes (t : Tag) : List UInt8 :=
  wrapTag FLV_TAG_TYPE_VIDEO t.timestamp t.body

/-- The sequence header of two parameter sets, none if they cannot be packed. -/
def seqHeader (sps pps : List UInt8) (ts : UInt32) : List Tag :=
  ((packAvcDecoderConfig sps pps).map fun cfg ↦ ⟨ts, seqHeaderBody cfg⟩).toList

theorem seqHeader_map_bytes (sps pps : List UInt8) (ts : UInt32) :
    (seqHeader sps pps ts).map Tag.bytes = (buildAvcSequenceHeaderTag sps pps ts).toList := by
  unfold seqHeader buildAvcSequenceHeaderTag
  cases packAvcDecoderConfig sps pps with
  | none | some => rfl

/-- An SPS or a PPS, which is remembered and not written. -/
def NalUnit.isParameterSet (n : NalUnit) : Bool :=
  n.nalType = NAL_TYPE_SPS || n.nalType = NAL_TYPE_PPS

namespace Segment

/-- The sequence header before the unit `n` of the segment, if one is due. -/
def headerTags (seg : Segment) (n : NalUnit) : List Tag :=
  if seg.pendingSeqHeader = true ∧ n.nalType = NAL_TYPE_IDR then
    seqHeader (seg.segSps.getD []) (seg.segPps.getD []) seg.segmentBaseFlv
  else []

/-- The fields after the loop body for a received unit. -/
def next (seg : Segment) (n : NalUnit) : Segment :=
  let seg := seg.changeSegment n
  if n.nalType = NAL_TYPE_SPS then { seg with segSps := some n.data }
  else if n.nalType = NAL_TYPE_PPS then { seg with segPps := some n.data }
  else
    let pending := seg.pendingSeqHeader && !decide (n.nalType = NAL_TYPE_IDR)
    ({ seg with pendingSeqHeader := pending }.relativeFlvTimestamp n.timestamp).2

/-- The tags that the loop body writes for a received unit. -/
def tags (seg : Segment) (n : NalUnit) : List Tag :=
  let seg := seg.changeSegment n
  if n.nalType = NAL_TYPE_SPS then []
  else if n.nalType = NAL_TYPE_PPS then []
  else seg.headerTags n ++ [⟨(seg.relativeFlvTimestamp n.timestamp).1, naluBody [n]⟩]

/-- The fields after a list of units. -/
def after (seg : Segment) (nals : List NalUnit) : Segment :=
  nals.foldl next seg

/-- The tags of a list of units. -/
def tagsAll : Segment → List NalUnit → List Tag
  | _, [] => []
  | seg, n :: nals => seg.tags n ++ (seg.next n).tagsAll nals

theorem after_append (seg : Segment) (nals more : List NalUnit) :
    seg.after (nals ++ more) = (seg.after nals).after more :=
  List.foldl_append

theorem tagsAll_append (seg : Segment) (nals more : List NalUnit) :
    seg.tagsAll (nals ++ more) = seg.tagsAll nals ++ (seg.after nals).tagsAll more := by
  induction nals generalizing seg with
  | nil => rfl
  | cons n nals ih =>
    show seg.tags n ++ (seg.next n).tagsAll (nals ++ more) = _
    rw [ih, ← List.append_assoc]
    rfl

theorem tags_of_parameterSet (seg : Segment) {n : NalUnit} (h : n.isParameterSet = true) :
    seg.tags n = [] := by
  unfold tags
  dsimp only
  split_ifs with hsps hpps
  · rfl
  · rfl
  · simp [NalUnit.isParameterSet, hsps, hpps] at h

theorem tags_of_picture (seg : Segment) {n : NalUnit} (h : n.isParameterSet = false) :
    seg.tags n = (seg.changeSegment n).headerTags n ++
      [⟨((seg.changeSegment n).relativeFlvTimestamp n.timestamp).1, naluBody [n]⟩] := by
  unfold tags
  dsimp only
  split_ifs with hsps hpps
  · simp [NalUnit.isParameterSet, hsps] at h
  · simp [NalUnit.isParameterSet, hpps] at h
  · rfl

/-- The parameter sets are there once the seed has been read. -/
def Cached (seg : Segment) : Prop :=
  seg.segSps.isSome ∧ seg.segPps.isSome ∧ seg.baseRtpSet = true

theorem changeSegment_cached {seg : Segment} (h : seg.Cached) (n : NalUnit) :
    (seg.changeSegment n).Cached := by
  unfold changeSegment
  split_ifs
  · exact ⟨h.1, h.2.1, rfl⟩
  · exact h

theorem relativeFlvTimestamp_cached {seg : Segment} (h : seg.Cached) (ts : UInt32) :
    (seg.relativeFlvTimestamp ts).2.Cached := by
  unfold relativeFlvTimestamp
  dsimp only
  split_ifs
  · exact ⟨h.1, h.2.1, rfl⟩
  · exact h
  · exact h

theorem next_cached {seg : Segment} (h : seg.Cached) (n : NalUnit) : (seg.next n).Cached := by
  have hchanged := changeSegment_cached h n
  unfold next
  dsimp only
  split_ifs
  · exact ⟨rfl, hchanged.2⟩
  · exact ⟨hchanged.1, rfl, hchanged.2.2⟩
  · apply relativeFlvTimestamp_cached
    exact hchanged

theorem after_cached {seg : Segment} (h : seg.Cached) (nals : List NalUnit) :
    (seg.after nals).Cached := by
  induction nals generalizing seg with
  | nil => exact h
  | cons n nals ih => exact ih (next_cached h n)

theorem headerTags_map_bytes {seg : Segment} (h : seg.Cached) (n : NalUnit) :
    (seg.headerTags n).map Tag.bytes =
      if seg.pendingSeqHeader = true ∧ n.nalType = NAL_TYPE_IDR then seg.seqHeaderTag.toList
      else [] := by
  obtain ⟨sps, hsps⟩ := Option.isSome_iff_exists.mp h.1
  obtain ⟨pps, hpps⟩ := Option.isSome_iff_exists.mp h.2.1
  unfold headerTags seqHeaderTag
  split_ifs
  · rw [hsps, hpps]
    exact seqHeader_map_bytes sps pps seg.segmentBaseFlv
  · rfl

/-- The pending flag has no part in the time. -/
theorem relativeFlvTimestamp_pending (seg : Segment) (pending : Bool) (ts : UInt32) :
    { seg with pendingSeqHeader := pending }.relativeFlvTimestamp ts =
      ((seg.relativeFlvTimestamp ts).1,
        { (seg.relativeFlvTimestamp ts).2 with pendingSeqHeader := pending }) := by
  unfold relativeFlvTimestamp
  dsimp only
  split_ifs
  · rfl
  · rfl
  · rfl

end Segment

/-! ### What a run writes -/

/-- The outcome `r` of a method: it has written `pieces` after `start` and left `seg`, or it has
failed after an initial part of them. -/
def Writes {ε : Type*} (start : List (List UInt8)) (r : StreamM ε StreamWriter) (seg : Segment)
    (pieces : List (List UInt8)) : Prop :=
  match r with
  | .ok s => s.toSegment = seg ∧ s.written = start ++ pieces
  | .error (_, s) => ∃ part, part <+: pieces ∧ s.written = start ++ part

/-- The writer that a method leaves behind. -/
def final {ε : Type*} : StreamM ε StreamWriter → StreamWriter
  | .ok s => s
  | .error (_, s) => s

namespace StreamWriter

variable {ε : Type*} {s : StreamWriter}

theorem Writes.final {start : List (List UInt8)} {r : StreamM ε StreamWriter} {seg : Segment}
    {pieces : List (List UInt8)} (h : Writes start r seg pieces) :
    ∃ part, part <+: pieces ∧ (final r).written = start ++ part := by
  match r with
  | .ok s => exact ⟨pieces, List.prefix_rfl, h.2⟩
  | .error (_, s) => exact h

theorem Writes.bind {start : List (List UInt8)} {r : StreamM ε StreamWriter}
    {f : StreamWriter → StreamM ε StreamWriter} {seg seg' : Segment}
    {pieces more : List (List UInt8)} (hr : Writes start r seg pieces)
    (hf : ∀ s : StreamWriter, s.toSegment = seg → s.written = start ++ pieces →
      Writes (start ++ pieces) (f s) seg' more) :
    Writes start (r >>= f) seg' (pieces ++ more) := by
  match r with
  | .ok s =>
    have hnext := hf s hr.1 hr.2
    show Writes start (f s) seg' (pieces ++ more)
    match hfs : f s with
    | .ok s' =>
      rw [hfs] at hnext
      exact ⟨hnext.1, by rw [hnext.2, List.append_assoc]⟩
    | .error (_, s') =>
      rw [hfs] at hnext
      obtain ⟨part, hpart, hwritten⟩ := hnext
      refine ⟨pieces ++ part, ?_, by rw [hwritten, List.append_assoc]⟩
      exact (List.prefix_append_right_inj pieces).mpr hpart
  | .error (_, s) =>
    obtain ⟨part, hpart, hwritten⟩ := hr
    exact ⟨part, hpart.trans (List.prefix_append pieces more), hwritten⟩

variable (writer : Writer ε)

@[simp] theorem written_flush (s : StreamWriter) : s.flush.written = s.written := by
  simp [written, flush]

theorem writeAll_writes (s : StreamWriter) (bytes : List UInt8) :
    Writes s.written (s.writeAll writer bytes) s.toSegment [bytes] := by
  unfold writeAll
  split
  · exact ⟨[], List.nil_prefix, (List.append_nil _).symm⟩
  · exact ⟨rfl, by simp [written]⟩

theorem writeSome_writes (s : StreamWriter) (bytes : Option (List UInt8)) :
    Writes s.written (s.writeSome writer bytes) s.toSegment bytes.toList := by
  cases bytes with
  | none => exact ⟨rfl, (List.append_nil _).symm⟩
  | some bytes => exact writeAll_writes writer s bytes

theorem probe_writes (s : StreamWriter) : Writes s.written (s.probe writer) s.toSegment [] := by
  unfold probe
  split
  · refine ⟨[], List.nil_prefix, ?_⟩
    rw [written_flush, List.append_nil]
  · refine ⟨rfl, ?_⟩
    rw [written_flush, List.append_nil]

theorem resendSeqHeader_writes (n : NalUnit) (h : s.Cached) :
    Writes s.written (s.resendSeqHeader writer n)
      { s.toSegment with
        pendingSeqHeader := s.pendingSeqHeader && !decide (n.nalType = NAL_TYPE_IDR) }
      ((s.headerTags n).map Tag.bytes) := by
  rw [Segment.headerTags_map_bytes h]
  unfold resendSeqHeader
  split_ifs with hdue
  · rw [← List.append_nil s.seqHeaderTag.toList]
    refine Writes.bind (writeSome_writes writer s s.seqHeaderTag) fun s' hseg hwritten ↦ ⟨?_, ?_⟩
    · show { s'.toSegment with pendingSeqHeader := false } = _
      rw [hseg, hdue.2]
      simp
    · rw [List.append_nil]
      exact hwritten
  · refine ⟨?_, (List.append_nil _).symm⟩
    have hpending : (s.pendingSeqHeader && !decide (n.nalType = NAL_TYPE_IDR)) =
        s.pendingSeqHeader := by
      by_cases hidr : n.nalType = NAL_TYPE_IDR
      · have hnot : s.pendingSeqHeader = false := by
          simpa [hidr] using hdue
        rw [hnot]
        rfl
      · simp [hidr]
    rw [hpending]

theorem writeNalu_writes (s : StreamWriter) (n : NalUnit) :
    Writes s.written (s.writeNalu writer n) (s.relativeFlvTimestamp n.timestamp).2
      [Tag.bytes ⟨(s.relativeFlvTimestamp n.timestamp).1, naluBody [n]⟩] := by
  unfold writeNalu
  have hwrites := writeSome_writes writer
    { s with toSegment := (s.relativeFlvTimestamp n.timestamp).2 }
    (buildAvcNaluTag [n] (s.relativeFlvTimestamp n.timestamp).1)
  rw [← List.append_nil [Tag.bytes _]]
  refine Writes.bind hwrites fun s' hseg hwritten ↦ ⟨hseg, ?_⟩
  rw [written_flush, hwritten]
  exact (List.append_nil _).symm

theorem onNal_writes (n : NalUnit) (h : s.Cached) :
    Writes s.written (s.onNal writer n) (s.next n) ((s.tags n).map Tag.bytes) := by
  unfold onNal Segment.next Segment.tags
  dsimp only
  split_ifs with hsps hpps
  · exact ⟨rfl, (List.append_nil _).symm⟩
  · exact ⟨rfl, (List.append_nil _).symm⟩
  · have hresend := resendSeqHeader_writes writer
      (s := { s with toSegment := s.changeSegment n }) n (Segment.changeSegment_cached h n)
    rw [List.map_append]
    refine Writes.bind hresend fun s' hseg hwritten ↦ ?_
    have hnalu := writeNalu_writes writer s' n
    rw [hseg, hwritten] at hnalu
    rwa [Segment.relativeFlvTimestamp_pending] at hnalu ⊢

theorem loop_writes (received : List Recv) (h : s.Cached) :
    Writes s.written (loop writer s received) (s.after (received.filterMap Recv.nal?))
      ((s.tagsAll (received.filterMap Recv.nal?)).map Tag.bytes) := by
  induction received generalizing s with
  | nil => exact ⟨rfl, (List.append_nil _).symm⟩
  | cons recv received ih =>
    cases recv with
    | timeout =>
      rw [← List.nil_append ((s.tagsAll _).map Tag.bytes)]
      refine Writes.bind (probe_writes writer s) fun s' hseg hwritten ↦ ?_
      have hrest := ih (s := s') (by rw [hseg]; exact h)
      rwa [hseg, hwritten] at hrest
    | nal n =>
      show Writes _ _ _ ((s.tags n ++ (s.next n).tagsAll _).map Tag.bytes)
      rw [List.map_append]
      refine Writes.bind (onNal_writes writer n h) fun s' hseg hwritten ↦ ?_
      have hrest := ih (s := s') (by rw [hseg]; exact Segment.next_cached h n)
      rwa [hseg, hwritten] at hrest

theorem loop_append (s : StreamWriter) (received more : List Recv) :
    loop writer s (received ++ more) = loop writer s received >>= fun s ↦ loop writer s more := by
  induction received generalizing s with
  | nil => rfl
  | cons recv received ih =>
    cases recv with
    | timeout =>
      show (s.probe writer >>= fun s ↦ loop writer s (received ++ more)) =
        (s.probe writer >>= fun s ↦ loop writer s received) >>= fun s ↦ loop writer s more
      rw [bind_assoc]
      exact congrArg (s.probe writer >>= ·) (funext fun s ↦ ih s)
    | nal n =>
      show (s.onNal writer n >>= fun s ↦ loop writer s (received ++ more)) =
        (s.onNal writer n >>= fun s ↦ loop writer s received) >>= fun s ↦ loop writer s more
      rw [bind_assoc]
      exact congrArg (s.onNal writer n >>= ·) (funext fun s ↦ ih s)

/-- A run on more units goes on from where the run on the first ones ended. -/
theorem run_append (s : StreamWriter) (seed : Option (NalUnit × NalUnit × NalUnit))
    (received more : List Recv) :
    s.run writer seed (received ++ more) =
      s.run writer seed received >>= fun s ↦ loop writer s more := by
  match seed with
  | none =>
    unfold run
    rw [bind_assoc]
    rfl
  | some (sps, pps, idr) =>
    unfold run
    simp only [loop_append, bind_assoc]

/-- The fields when the loop begins. -/
def seeded (sps pps idr : NalUnit) : Segment :=
  new.toSegment.primed sps pps idr

theorem seeded_cached (sps pps idr : NalUnit) : (seeded sps pps idr).Cached :=
  ⟨rfl, rfl, rfl⟩

/-- The tags of a whole run: the seed and then the units received. -/
def runTags (sps pps idr : NalUnit) (nals : List NalUnit) : List Tag :=
  seqHeader sps.data pps.data 0 ++ [⟨0, naluBody [idr]⟩] ++ (seeded sps pps idr).tagsAll nals

/-- A run writes the FLV header and its tags, as far as the writer takes them. -/
theorem run_writes (sps pps idr : NalUnit) (received : List Recv) :
    Writes [] (new.run writer (some (sps, pps, idr)) received)
      ((seeded sps pps idr).after (received.filterMap Recv.nal?))
      (flvHeader :: (runTags sps pps idr (received.filterMap Recv.nal?)).map Tag.bytes) := by
  have hpieces : flvHeader :: (runTags sps pps idr (received.filterMap Recv.nal?)).map Tag.bytes =
      [flvHeader] ++ ((buildAvcSequenceHeaderTag sps.data pps.data 0).toList ++
        ((buildAvcNaluTag [idr] 0).toList ++
          ((seeded sps pps idr).tagsAll (received.filterMap Recv.nal?)).map Tag.bytes)) := by
    simp only [runTags, List.map_append, seqHeader_map_bytes, List.append_assoc]
    rfl
  rw [hpieces]
  unfold run
  refine Writes.bind (writeAll_writes writer new flvHeader) fun s hseg hwritten ↦ ?_
  -- The first write leaves the fields as `new` has them, and the seed sets them all but one.
  have hprimed : s.toSegment.primed sps pps idr = seeded sps pps idr := by
    rw [hseg]
    rfl
  have hheader := writeSome_writes writer ⟨s.toSegment.primed sps pps idr, s.flush.w⟩
    (buildAvcSequenceHeaderTag sps.data pps.data 0)
  have hstart : StreamWriter.written ⟨s.toSegment.primed sps pps idr, s.flush.w⟩ =
      [] ++ [flvHeader] := by
    show s.flush.written = _
    rw [written_flush, hwritten]
  rw [hstart] at hheader
  refine Writes.bind hheader fun s hseg hwritten ↦ ?_
  rw [hprimed] at hseg
  have hidr := writeSome_writes writer s (buildAvcNaluTag [idr] 0)
  rw [hseg, hwritten] at hidr
  refine Writes.bind hidr fun s hseg hwritten ↦ ?_
  have hloop := loop_writes writer (s := s.flush) received (by
    rw [show s.flush.toSegment = seeded sps pps idr from hseg]
    exact seeded_cached sps pps idr)
  rwa [written_flush, hwritten, show s.flush.toSegment = seeded sps pps idr from hseg] at hloop

/-! ### A writer that takes everything -/

/-- Every call goes through. -/
def Accepts (writer : Writer ε) : Prop :=
  ∀ calls call, writer calls call = none

variable {writer}

theorem Accepts.writeSome (h : Accepts writer) (s : StreamWriter) (bytes : Option (List UInt8)) :
    ∃ s', s.writeSome writer bytes = .ok s' := by
  cases bytes with
  | none => exact ⟨s, rfl⟩
  | some bytes =>
    show ∃ s', s.writeAll writer bytes = .ok s'
    unfold StreamWriter.writeAll
    rw [h]
    exact ⟨_, rfl⟩

theorem Accepts.onNal (h : Accepts writer) (s : StreamWriter) (n : NalUnit) :
    ∃ s', s.onNal writer n = .ok s' := by
  have hnalu : ∀ s : StreamWriter, ∃ s', s.writeNalu writer n = .ok s' := by
    intro s
    obtain ⟨s', hs'⟩ := h.writeSome { s with toSegment := (s.relativeFlvTimestamp n.timestamp).2 }
      (buildAvcNaluTag [n] (s.relativeFlvTimestamp n.timestamp).1)
    unfold writeNalu
    dsimp only
    rw [hs']
    exact ⟨s'.flush, rfl⟩
  unfold StreamWriter.onNal resendSeqHeader
  dsimp only
  split_ifs
  · exact ⟨_, rfl⟩
  · exact ⟨_, rfl⟩
  · obtain ⟨s', hs'⟩ := h.writeSome { s with toSegment := s.changeSegment n }
      (s.changeSegment n).seqHeaderTag
    rw [hs']
    exact hnalu _
  · exact hnalu _

theorem Accepts.loop (h : Accepts writer) (s : StreamWriter) (received : List Recv) :
    ∃ s', StreamWriter.loop writer s received = .ok s' := by
  induction received generalizing s with
  | nil => exact ⟨s, rfl⟩
  | cons recv received ih =>
    unfold StreamWriter.loop
    cases recv with
    | timeout =>
      unfold probe
      dsimp only
      rw [h]
      exact ih s.flush
    | nal n =>
      obtain ⟨s', hs'⟩ := h.onNal s n
      dsimp only
      rw [hs']
      exact ih s'

/-- The run of a writer that takes everything ends well, with the header and all tags written. -/
theorem Accepts.run (h : Accepts writer) (sps pps idr : NalUnit) (received : List Recv) :
    ∃ s, new.run writer (some (sps, pps, idr)) received = .ok s ∧
      s.written =
        flvHeader :: (runTags sps pps idr (received.filterMap Recv.nal?)).map Tag.bytes := by
  have hok : ∃ s, new.run writer (some (sps, pps, idr)) received = .ok s := by
    unfold StreamWriter.run StreamWriter.writeAll
    rw [h]
    dsimp only [bind, Except.bind]
    obtain ⟨s, hs⟩ := h.writeSome _ (buildAvcSequenceHeaderTag sps.data pps.data 0)
    rw [hs]
    dsimp only [bind, Except.bind]
    obtain ⟨s', hs'⟩ := h.writeSome s (buildAvcNaluTag [idr] 0)
    rw [hs']
    exact h.loop s'.flush received
  obtain ⟨s, hs⟩ := hok
  have hwrites := run_writes writer sps pps idr received
  rw [hs] at hwrites
  exact ⟨s, hs, hwrites.2⟩

/-- A writer that takes everything. -/
def vec : Writer Empty :=
  fun _ _ ↦ none

theorem accepts_vec : Accepts vec :=
  fun _ _ ↦ rfl

end StreamWriter

/-! ### The seed of the module's tests -/

def seedSps : NalUnit :=
  ⟨NAL_TYPE_SPS, [0x67, 0x64, 0xc0, 0x16], 90000, 0⟩

def seedPps : NalUnit :=
  ⟨NAL_TYPE_PPS, [0x68, 0xee, 0x31], 90000, 0⟩

def seedIdr : NalUnit :=
  ⟨NAL_TYPE_IDR, [0x65, 0xaa], 90000, 0⟩

/-- A unit of another picture. -/
def interUnit (timestamp streamEpoch : UInt32) : NalUnit :=
  ⟨NAL_TYPE_NON_IDR, [0x61, 0x01], timestamp, streamEpoch⟩

end DoorAccess.Video
