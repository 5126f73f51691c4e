import DoorAccess.Lib.Serial
import DoorAccess.Video.Rtp
import Mathlib.Data.List.Basic

/-!
# The frame reassembler

`FrameReassembler` of `reassembler.rs`: a sorting window of eight packets in front of a buffer to
which released packets are appended in order, and which is cut at every marker packet. `push` is
the whole of it, over packets with any kind of bytes and any way `extract` of turning a cut buffer
into units; the source has bytes and `extract_nals_annexb`. The log lines are left out.

The window does not look at the buffer and the buffer does not look at the window. `pushAll_eq`
says so: a run gives what `feedAll` gives on the packets that the window releases.
-/

set_option autoImplicit false
set_option relaxedAutoImplicit false

namespace DoorAccess.Video

def REASSEMBLER_WINDOW_SIZE : ℕ := 8

def FRAME_MAX_BYTES : ℕ := 256 * 1024

/-- The values of `last_drop_reason`. -/
inductive DropReason
  | seqGap
  | oversize
  deriving DecidableEq, Repr

structure ReassemblerStats where
  packets : ℕ
  nals : ℕ
  frames : ℕ
  droppedFrames : ℕ
  maxFrameBytes : ℕ
  lastDropReason : Option DropReason
  deriving DecidableEq, Repr

structure FrameReassembler (β : Type*) where
  frameBuf : List β
  frameTimestamp : UInt32
  pending : List (RtpPacket β)
  expectSeq : UInt16
  expectSeqSet : Bool
  frameFirstSeq : UInt16
  frameLastSeq : UInt16
  stats : ReassemblerStats

section Reassembler

variable {β ν : Type*}

/-- `FrameReassembler::new`. -/
def FrameReassembler.new : FrameReassembler β where
  frameBuf := []
  frameTimestamp := 0
  pending := []
  expectSeq := 0
  expectSeqSet := false
  frameFirstSeq := 0
  frameLastSeq := 0
  stats := ⟨0, 0, 0, 0, 0, none⟩

/-! ### The sorting window -/

/-- The loop of `insert_sorted`, from the last packet to the first. -/
def insertFromLast (pkt : RtpPacket β) : List (RtpPacket β) → List (RtpPacket β)
  | [] => [pkt]
  | last :: earlier =>
    if 0 ≤ Serial.diff pkt.seq last.seq then pkt :: last :: earlier
    else last :: insertFromLast pkt earlier

/-- `insert_sorted`. -/
def insertSorted (pending : List (RtpPacket β)) (pkt : RtpPacket β) : List (RtpPacket β) :=
  (insertFromLast pkt pending.reverse).reverse

/-- The `pop_count` of `pop_pending_prefix`. -/
def popCount (markerInBatch : Bool) (pending : List (RtpPacket β)) : ℕ :=
  if markerInBatch then pending.length else pending.length - 1

/-- What one packet does to the window: the packets released and those that stay. -/
def windowStep (pending : List (RtpPacket β)) (pkt : RtpPacket β) :
    List (RtpPacket β) × List (RtpPacket β) :=
  let pending := insertSorted pending pkt
  if pending.length < REASSEMBLER_WINDOW_SIZE ∧ pkt.marker = false then ([], pending)
  else
    let count := popCount pkt.marker pending
    (pending.take count, pending.drop count)

/-! ### The frame buffer -/

/-- `drop_frame`. -/
def dropFrame (reason : DropReason) (r : FrameReassembler β) : FrameReassembler β :=
  if r.frameBuf.isEmpty then r
  else { r with
    stats := { r.stats with
      droppedFrames := r.stats.droppedFrames + 1
      lastDropReason := some reason }
    frameBuf := []
    expectSeqSet := false }

/-- The assignments with which `append_packet` begins a frame at a packet. -/
def beginFrame (r : FrameReassembler β) (p : RtpPacket β) (expectSeq : UInt16) :
    FrameReassembler β :=
  { r with
    expectSeq := expectSeq
    expectSeqSet := true
    frameTimestamp := p.timestamp
    frameFirstSeq := p.seq
    frameLastSeq := p.seq }

/-- The second half of `append_packet`: the cap, then the payload. -/
def appendPayload (r : FrameReassembler β) (p : RtpPacket β) : FrameReassembler β :=
  if FRAME_MAX_BYTES < r.frameBuf.length + p.payload.length then
    beginFrame (dropFrame .oversize r) p (p.seq + 1)
  else { r with
    frameBuf := r.frameBuf ++ p.payload
    expectSeq := p.seq + 1
    frameLastSeq := p.seq }

/-- `append_packet`. -/
def appendPacket (r : FrameReassembler β) (p : RtpPacket β) : FrameReassembler β :=
  if !r.expectSeqSet then appendPayload (beginFrame r p p.seq) p
  else
    let gap := Serial.diff p.seq r.expectSeq
    if gap < 0 then r
    else if REASSEMBLER_WINDOW_SIZE < gap then
      appendPayload (beginFrame (dropFrame .seqGap r) p p.seq) p
    else appendPayload r p

/-- Below the cap the payload is appended. -/
theorem appendPayload_of_le {r : FrameReassembler β} {p : RtpPacket β}
    (h : r.frameBuf.length + p.payload.length ≤ FRAME_MAX_BYTES) :
    appendPayload r p = { r with
      frameBuf := r.frameBuf ++ p.payload
      expectSeq := p.seq + 1
      frameLastSeq := p.seq } := by
  rw [appendPayload, if_neg (Nat.not_lt.mpr h)]

/-- A packet between frames begins one. -/
theorem appendPacket_fresh {r : FrameReassembler β} (h : r.expectSeqSet = false)
    (p : RtpPacket β) : appendPacket r p = appendPayload (beginFrame r p p.seq) p := by
  simp [appendPacket, h]

/-- A packet in front of the expected number is ignored. -/
theorem appendPacket_late {r : FrameReassembler β} (h : r.expectSeqSet = true)
    {p : RtpPacket β} (hlow : Serial.diff p.seq r.expectSeq < 0) : appendPacket r p = r := by
  simp [appendPacket, h, hlow]

/-- A packet at a distance from zero to eight from the expected number goes into the frame. -/
theorem appendPacket_tolerated {r : FrameReassembler β} (h : r.expectSeqSet = true)
    {p : RtpPacket β} (hlow : 0 ≤ Serial.diff p.seq r.expectSeq)
    (hhigh : Serial.diff p.seq r.expectSeq ≤ REASSEMBLER_WINDOW_SIZE) :
    appendPacket r p = appendPayload r p := by
  simp [appendPacket, h, not_lt.mpr hlow, not_lt.mpr hhigh]

/-- A packet at a distance of more than eight drops the frame and begins one. -/
theorem appendPacket_far {r : FrameReassembler β} (h : r.expectSeqSet = true)
    {p : RtpPacket β} (hfar : REASSEMBLER_WINDOW_SIZE < Serial.diff p.seq r.expectSeq) :
    appendPacket r p = appendPayload (beginFrame (dropFrame .seqGap r) p p.seq) p := by
  have hlow : ¬ Serial.diff p.seq r.expectSeq < 0 :=
    not_lt.mpr ((Int.natCast_nonneg _).trans hfar.le)
  simp [appendPacket, h, hlow, hfar]

/-- `cut_frame`. -/
def cutFrame (extract : List β → UInt32 → List ν) (r : FrameReassembler β) :
    FrameReassembler β × List ν :=
  if r.frameBuf.isEmpty then (r, [])
  else
    let nals := extract r.frameBuf r.frameTimestamp
    ({ r with
      stats := { r.stats with
        maxFrameBytes := max r.stats.maxFrameBytes r.frameBuf.length
        nals := r.stats.nals + nals.length
        frames := r.stats.frames + 1 }
      frameBuf := []
      expectSeqSet := false }, nals)

/-- The loop of `push` over the released packets: the units cut, and whether a marker was among
the packets. -/
def feedAll (extract : List β → UInt32 → List ν) :
    FrameReassembler β → List (RtpPacket β) → FrameReassembler β × List ν × Bool
  | r, [] => (r, [], false)
  | r, p :: ps =>
    let r := appendPacket r p
    if p.marker then
      let (r, fnals) := cutFrame extract r
      let (r, nals, _) := feedAll extract r ps
      (r, fnals ++ nals, true)
    else feedAll extract r ps

/-- `FrameReassembler::push`. -/
def push (extract : List β → UInt32 → List ν) (r : FrameReassembler β) (pkt : RtpPacket β) :
    FrameReassembler β × List ν × Bool :=
  let r := { r with stats := { r.stats with packets := r.stats.packets + 1 } }
  let (flushed, pending) := windowStep r.pending pkt
  feedAll extract { r with pending := pending } flushed

/-- `reset_stream`. -/
def resetStream (r : FrameReassembler β) : FrameReassembler β :=
  { r with pending := [], frameBuf := [], expectSeqSet := false }

/-- Successive calls of `push`, with the units of all of them. -/
def pushAll (extract : List β → UInt32 → List ν) :
    FrameReassembler β → List (RtpPacket β) → FrameReassembler β × List ν
  | r, [] => (r, [])
  | r, pkt :: pkts =>
    let (r, nals, _) := push extract r pkt
    let (r, rest) := pushAll extract r pkts
    (r, nals ++ rest)

/-! ### The window and the buffer are independent -/

/-- The packets that the window releases over a run, and those that stay. -/
def releases : List (RtpPacket β) → List (RtpPacket β) → List (RtpPacket β) × List (RtpPacket β)
  | pending, [] => ([], pending)
  | pending, pkt :: pkts =>
    let (flushed, pending) := windowStep pending pkt
    let (rest, pending) := releases pending pkts
    (flushed ++ rest, pending)

/-- The same buffer behind another window and packet count. -/
def FrameReassembler.withWindow (r : FrameReassembler β) (pending : List (RtpPacket β))
    (packets : ℕ) : FrameReassembler β :=
  { r with pending := pending, stats := { r.stats with packets := packets } }

variable (extract : List β → UInt32 → List ν)

theorem dropFrame_withWindow (reason : DropReason) (r : FrameReassembler β)
    (pending : List (RtpPacket β)) (packets : ℕ) :
    dropFrame reason (r.withWindow pending packets) =
      (dropFrame reason r).withWindow pending packets := by
  obtain ⟨frameBuf, _, _, _, _, _, _, _⟩ := r
  cases frameBuf with
  | nil | cons => rfl

theorem appendPayload_withWindow (r : FrameReassembler β) (p : RtpPacket β)
    (pending : List (RtpPacket β)) (packets : ℕ) :
    appendPayload (r.withWindow pending packets) p =
      (appendPayload r p).withWindow pending packets := by
  have hbuf : (r.withWindow pending packets).frameBuf = r.frameBuf := rfl
  simp only [appendPayload, hbuf, dropFrame_withWindow]
  split_ifs
  · rfl
  · rfl

theorem appendPacket_withWindow (r : FrameReassembler β) (p : RtpPacket β)
    (pending : List (RtpPacket β)) (packets : ℕ) :
    appendPacket (r.withWindow pending packets) p =
      (appendPacket r p).withWindow pending packets := by
  have hset : (r.withWindow pending packets).expectSeqSet = r.expectSeqSet := rfl
  have hexpect : (r.withWindow pending packets).expectSeq = r.expectSeq := rfl
  simp only [appendPacket, hset, hexpect, dropFrame_withWindow]
  split_ifs
  · exact appendPayload_withWindow (beginFrame r p p.seq) p pending packets
  · rfl
  · exact appendPayload_withWindow (beginFrame (dropFrame .seqGap r) p p.seq) p pending packets
  · exact appendPayload_withWindow r p pending packets

theorem cutFrame_withWindow (r : FrameReassembler β) (pending : List (RtpPacket β))
    (packets : ℕ) :
    cutFrame extract (r.withWindow pending packets) =
      ((cutFrame extract r).1.withWindow pending packets, (cutFrame extract r).2) := by
  obtain ⟨frameBuf, _, _, _, _, _, _, _⟩ := r
  cases frameBuf with
  | nil | cons => rfl

theorem feedAll_withWindow (r : FrameReassembler β) (ps pending : List (RtpPacket β))
    (packets : ℕ) :
    feedAll extract (r.withWindow pending packets) ps =
      ((feedAll extract r ps).1.withWindow pending packets, (feedAll extract r ps).2) := by
  induction ps generalizing r with
  | nil => rfl
  | cons p ps ih =>
    simp only [feedAll, appendPacket_withWindow, cutFrame_withWindow, ih]
    split_ifs
    · rfl
    · rfl

theorem feedAll_append (r : FrameReassembler β) (first second : List (RtpPacket β)) :
    (feedAll extract r (first ++ second)).1 =
        (feedAll extract (feedAll extract r first).1 second).1 ∧
      (feedAll extract r (first ++ second)).2.1 =
        (feedAll extract r first).2.1 ++
          (feedAll extract (feedAll extract r first).1 second).2.1 := by
  induction first generalizing r with
  | nil => exact ⟨rfl, rfl⟩
  | cons p first ih =>
    simp only [List.cons_append, feedAll]
    split_ifs
    · exact ⟨(ih _).1, by rw [(ih _).2, List.append_assoc]⟩
    · exact ih _

/-- A run of `push` is a run of the buffer over the packets that the window releases. -/
theorem pushAll_eq (r : FrameReassembler β) (pkts : List (RtpPacket β)) :
    pushAll extract r pkts =
      ((feedAll extract r (releases r.pending pkts).1).1.withWindow (releases r.pending pkts).2
          (r.stats.packets + pkts.length),
        (feedAll extract r (releases r.pending pkts).1).2.1) := by
  induction pkts generalizing r with
  | nil => rfl
  | cons pkt pkts ih =>
    have hpush : push extract r pkt =
        feedAll extract (r.withWindow (windowStep r.pending pkt).2 (r.stats.packets + 1))
          (windowStep r.pending pkt).1 := rfl
    rw [feedAll_withWindow] at hpush
    simp only [pushAll, hpush, ih, releases, feedAll_append, feedAll_withWindow,
      List.length_cons]
    simp only [FrameReassembler.withWindow, Nat.add_assoc, Nat.add_comm 1]

end Reassembler

end DoorAccess.Video
