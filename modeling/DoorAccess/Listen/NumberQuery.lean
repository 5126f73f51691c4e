import DoorAccess.Codec

/-!
# Number queries on UDP port 6672

`listen6672.rs` hears the frames with which the stations of a building ask each other for the
address of a number, and answers those that ask for its own. This module has the frame, its
classification, the response, and `dispatch`, which hands a frame to the callback of its kind.
-/

set_option autoImplicit false
set_option relaxedAutoImplicit false

namespace DoorAccess.Listen6672

def FRAME_SIZE : ℕ := 21

/-- `Frame`: the fields of 21 bytes. -/
structure Frame where
  flag : UInt8
  targetBcd : Octets
  selfOrIp : Octets
  reserved : Octets
  eventFlag : UInt32
  magic : UInt8 × UInt8
  subtype : UInt8
  eventId : UInt8
  raw : List UInt8
  deriving DecidableEq

inductive ParseError
  | frameSize (got : ℕ)
  | frameMagic (a b : UInt8)
  deriving DecidableEq

/-- `u32::from_le_bytes`. -/
def fromLeBytes (a b c d : UInt8) : UInt32 :=
  UInt32.ofNat (a.toNat + 256 * b.toNat + 65536 * c.toNat + 16777216 * d.toNat)

/-- `u32::to_le_bytes`. -/
def toLeBytes (n : UInt32) : List UInt8 :=
  [n.toUInt8, (n >>> 8).toUInt8, (n >>> 16).toUInt8, (n >>> 24).toUInt8]

def parseFrame (payload : List UInt8) : Except ParseError Frame :=
  match payload with
  | [b0, b1, b2, b3, b4, b5, b6, b7, b8, b9, b10, b11, b12, b13, b14, b15, b16, b17, b18, b19,
      b20] =>
    if b17 ≠ 0x00 ∨ b18 ≠ 0x40 then .error (.frameMagic b17 b18)
    else .ok {
      flag := b0
      targetBcd := octets b1 b2 b3 b4
      selfOrIp := octets b5 b6 b7 b8
      reserved := octets b9 b10 b11 b12
      eventFlag := fromLeBytes b13 b14 b15 b16
      magic := (b17, b18)
      subtype := b19
      eventId := b20
      raw := payload }
  | _ => .error (.frameSize payload.length)

inductive EventKind
  | unknown
  | ring
  | elevatorKey
  | keepAlive
  | numberQuery
  | numberResponse
  deriving DecidableEq

def classify (f : Frame) : EventKind :=
  if f.flag = 0x01 then .numberResponse
  else if f.flag ≠ 0x00 then .unknown
  else if f.eventFlag = 0 then .numberQuery
  else if f.eventFlag = 1 then
    if f.subtype = 0x8c ∨ f.subtype = 0x94 ∨ f.subtype = 0x95 then .ring
    else if f.subtype = 0x90 then .elevatorKey
    else if f.subtype = 0x00 then .keepAlive
    else .unknown
  else .unknown

/-- The response to a query: it says that the number has our address. -/
def buildNumberQueryResponse (reqFrame : Frame) (ourIp : Octets) : List UInt8 :=
  0x01 :: reqFrame.targetBcd.toList ++ ourIp.toList ++ [0, 0, 0, 0] ++
    toLeBytes reqFrame.eventFlag ++ [0x00, 0x40, reqFrame.subtype, reqFrame.eventId]

/-- `FrameCallback`, with what it does as the result. -/
abbrev FrameCallback (α : Type) := Octets → Frame → α

structure Callbacks (α : Type) where
  onRing : Option (FrameCallback α)
  onElevatorKey : Option (FrameCallback α)
  onNumberQuery : Option (FrameCallback α)
  onNumberResponse : Option (FrameCallback α)

/-- The callback of a kind. -/
def Callbacks.of {α : Type} (callbacks : Callbacks α) : EventKind → Option (FrameCallback α)
  | .ring => callbacks.onRing
  | .elevatorKey => callbacks.onElevatorKey
  | .numberQuery => callbacks.onNumberQuery
  | .numberResponse => callbacks.onNumberResponse
  | .keepAlive | .unknown => none

/-- `dispatch`: what the callback does with the frame, if there is one for it. -/
def dispatch {α : Type} (callbacks : Callbacks α) (srcIp : Octets) (payload : List UInt8) :
    Option α :=
  match parseFrame payload with
  | .error _ => none
  | .ok f => (callbacks.of (classify f)).map fun callback ↦ callback srcIp f

/-! ### The response -/

theorem fromLeBytes_toLeBytes (n : UInt32) :
    fromLeBytes n.toUInt8 (n >>> 8).toUInt8 (n >>> 16).toUInt8 (n >>> 24).toUInt8 = n := by
  have hn := n.toNat_lt
  rw [← UInt32.toNat_inj, fromLeBytes, UInt32.toNat_ofNat']
  simp only [UInt32.toNat_toUInt8, UInt32.toNat_shiftRight, Nat.shiftRight_eq_div_pow]
  have h8 : (8 : UInt32).toNat % 32 = 8 := rfl
  have h16 : (16 : UInt32).toNat % 32 = 16 := rfl
  have h24 : (24 : UInt32).toNat % 32 = 24 := rfl
  rw [h8, h16, h24]
  omega

/-- A response is a frame that gives the number of the query our address. -/
theorem parseFrame_buildNumberQueryResponse (reqFrame : Frame) (ourIp : Octets) :
    ∃ f, parseFrame (buildNumberQueryResponse reqFrame ourIp) = .ok f ∧
      classify f = .numberResponse ∧ f.targetBcd = reqFrame.targetBcd ∧ f.selfOrIp = ourIp ∧
      f.eventFlag = reqFrame.eventFlag := by
  rw [buildNumberQueryResponse, octets_toList reqFrame.targetBcd, octets_toList ourIp]
  exact ⟨_, rfl, rfl, octets_eta _, octets_eta _, fromLeBytes_toLeBytes _⟩

end DoorAccess.Listen6672
