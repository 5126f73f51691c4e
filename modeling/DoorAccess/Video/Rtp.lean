import DoorAccess.Codec

/-!
# RTP packets and Annex-B NAL units

The packet record of `rtp.rs` and its splitter of a byte stream into NAL units at the start codes
`00 00 00 01`. The bytes of a payload are a parameter of the packet: the reassembler moves them
about without looking at them, and a byte that also carries where it came from is reassembled like
any other.
-/

set_option autoImplicit false
set_option relaxedAutoImplicit false

namespace DoorAccess.Video

/-- `RtpPacket`, over bytes of type `β`. -/
structure RtpPacket (β : Type*) where
  marker : Bool
  pt : UInt8
  seq : UInt16
  timestamp : UInt32
  ssrc : UInt32
  payload : List β
  deriving DecidableEq

/-- A packet with its payload bytes replaced one by one. -/
def RtpPacket.map {β γ : Type*} (f : β → γ) (p : RtpPacket β) : RtpPacket γ where
  marker := p.marker
  pt := p.pt
  seq := p.seq
  timestamp := p.timestamp
  ssrc := p.ssrc
  payload := p.payload.map f

def NAL_TYPE_NON_IDR : UInt8 := 1

def NAL_TYPE_IDR : UInt8 := 5

def NAL_TYPE_SPS : UInt8 := 7

def NAL_TYPE_PPS : UInt8 := 8

structure NalUnit where
  nalType : UInt8
  data : List UInt8
  timestamp : UInt32
  streamEpoch : UInt32
  deriving DecidableEq

def START_CODE : List UInt8 := [0x00, 0x00, 0x00, 0x01]

/-- `find_start_code`: the first position at which a start code stands. -/
def findStartCode : List UInt8 → Option ℕ
  | [] => none
  | b :: rest =>
    if (b :: rest).take START_CODE.length = START_CODE then some 0
    else (findStartCode rest).map (· + 1)

theorem findStartCode_le {hay : List UInt8} {i : ℕ} (h : findStartCode hay = some i) :
    i + START_CODE.length ≤ hay.length := by
  induction hay generalizing i with
  | nil => simp [findStartCode] at h
  | cons b rest ih =>
    unfold findStartCode at h
    split_ifs at h with hstart
    · obtain rfl := Option.some.inj h
      have hlength := congrArg List.length hstart
      rw [List.length_take] at hlength
      omega
    · obtain ⟨j, hj, rfl⟩ := Option.map_eq_some_iff.mp h
      have hle := ih hj
      simp only [List.length_cons]
      omega

/-- The NAL unit of a run of bytes: none when it is empty, its type the low five bits of its first
byte. -/
def nalOf (ts : UInt32) : List UInt8 → List NalUnit
  | [] => []
  | b :: rest => [⟨b &&& 0x1f, b :: rest, ts, 0⟩]

/-- The loop of `extract_nals_annexb` over what follows a start code. -/
def nalsAfter (ts : UInt32) (rest : List UInt8) : List NalUnit :=
  match _hnext : findStartCode rest with
  | none => nalOf ts rest
  | some next => nalOf ts (rest.take next) ++ nalsAfter ts (rest.drop (next + START_CODE.length))
termination_by rest.length
decreasing_by
  have hle := findStartCode_le _hnext
  simp only [List.length_drop, START_CODE, List.length_cons, List.length_nil] at hle ⊢
  omega

/-- `extract_nals_annexb`: what stands before the first start code is a unit of its own. -/
def extractNalsAnnexb (payload : List UInt8) (ts : UInt32) : List NalUnit :=
  match findStartCode payload with
  | none => nalOf ts payload
  | some idx => nalOf ts (payload.take idx) ++ nalsAfter ts (payload.drop (idx + START_CODE.length))

end DoorAccess.Video
