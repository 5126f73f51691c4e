import DoorAccess.Codec

/-!
# Frames seen on TCP port 18022

The record that `listen18022.rs` hands to its subscribers, the depth of a subscription channel, and
the filter of the bye watch that an unlock subscribes with.
-/

set_option autoImplicit false
set_option relaxedAutoImplicit false

namespace DoorAccess.Listen18022

/-- `DetectedFrame`. -/
structure DetectedFrame where
  req : ℤ
  body : List UInt8
  srcIp : Octets
  dstIp : Octets
  srcPort : UInt16
  dstPort : UInt16
  deriving DecidableEq

/-- `SubFilter`. -/
abbrev SubFilter := DetectedFrame → Bool

/-- The buffer depth of a subscription channel. -/
def SUB_CHAN_DEPTH : ℕ := 8

/-- `filter_req708_for_target`: a bye in either direction of the target, or any bye when the target
address did not parse. -/
def filterReq708ForTarget : Option Octets → SubFilter
  | none => fun d ↦ d.req == 708
  | some ip => fun d ↦ d.req == 708 && (d.srcIp == ip || d.dstIp == ip)

end DoorAccess.Listen18022
