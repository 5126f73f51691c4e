import DoorAccess.Codec

/-!
# Wire frames of TCP port 18022

The frame builders and the response parser of `wire18022.rs`. A frame is `07 b8`, a 16-bit
little-endian body length, two zero bytes and the body `req=N&query` with the separator `=` or `*`
and a binary payload. The parser looks at nothing behind the declared body, so whether a prefix of
a response is accepted depends only on whether it reaches that far:
`validateResponse_prefix_iff`.
-/

set_option autoImplicit false
set_option relaxedAutoImplicit false

namespace DoorAccess.Wire18022

def MAGIC_HI : UInt8 := 0x07

def MAGIC_LO : UInt8 := 0xb8

def HEADER_SIZE : ℕ := 6

/-- The reasons of `FrameError`. -/
inductive FrameError
  | tooShort
  | badMagic
  | reserved
  | declaredLength
  | bodyTooShort
  | noReqPrefix
  | noSeparator
  | emptyReq
  | reqTooLong
  | reqNonDigit
  | reqOutOfRange
  deriving DecidableEq, Repr

/-- `RESP_711_BODY`. -/
def RESP_711_BODY : List UInt8 := [0x00, 0x00, 0x01, 0x00, 0x00, 0x00, 0x03, 0x00, 0x00, 0x00]

/-- `RESP_519_BODY`. -/
def RESP_519_BODY : List UInt8 := [0, 0, 0, 0, 0, 0, 0, 0, 0, 0]

/-- The text `req=`. -/
def REQ_PREFIX : List UInt8 := [0x72, 0x65, 0x71, 0x3d]

/-- The text `&query`, to which `=` or `*` is added. -/
def QUERY : List UInt8 := [0x26, 0x71, 0x75, 0x65, 0x72, 0x79]

/-- The length of both separators. -/
def QUERY_SEP_LEN : ℕ := 7

/-! ### Builders -/

/-- `assemble_frame`: the length field is `body.len() as u16`, little-endian. -/
def assembleFrame (body : List UInt8) : List UInt8 :=
  [MAGIC_HI, MAGIC_LO, UInt8.ofNat body.length, UInt8.ofNat (body.length / 256), 0, 0] ++ body

/-- `build_preview_frame`: nothing in it depends on the parties. -/
def buildPreviewFrame : List UInt8 :=
  assembleFrame (REQ_PREFIX ++ [0x37, 0x30, 0x35] ++ QUERY ++ [0x3d] ++
    [0x00, 0x00, 0x01, 0x00, 0x00, 0x00, 0x03, 0x00, 0x00, 0x01])

/-- `build_unlock_a_frame`. -/
def buildUnlockAFrame (fromBcd toBcd : Octets) : List UInt8 :=
  assembleFrame (REQ_PREFIX ++ [0x37, 0x31, 0x30] ++ QUERY ++ [0x3d] ++ fromBcd.toList ++
    toBcd.toList ++ [0x01, 0x00, 0x00, 0x00, 0x03, 0x00, 0x00, 0x00])

/-- `unlock_b_checksum_of`: the sum of the first 29 bytes and the seed `m`, modulo 256. -/
def unlockBChecksumOf (frame : List UInt8) : UInt8 :=
  UInt8.ofNat (((frame.take 29).map UInt8.toNat).sum + 0x6d)

/-- `build_unlock_b_frame`: the header with length 24 is summed into the checksum. -/
def buildUnlockBFrame (fromBcd toBcd : Octets) : List UInt8 :=
  let frame := [MAGIC_HI, MAGIC_LO, 24, 0, 0, 0] ++ REQ_PREFIX ++ [0x35, 0x31, 0x38] ++ QUERY ++
    [0x3d] ++ [0x22] ++ fromBcd.toList ++ toBcd.toList
  frame ++ [unlockBChecksumOf frame]

/-- `unlock_b_checksum`: the checksum byte of the frame. -/
def unlockBChecksum (fromBcd toBcd : Octets) : UInt8 :=
  (buildUnlockBFrame fromBcd toBcd).getD 29 0

/-- `build_bye_frame`: the self-addressed bye. -/
def buildByeFrame (fromBcd toBcd : Octets) : List UInt8 :=
  assembleFrame (REQ_PREFIX ++ [0x37, 0x30, 0x38] ++ QUERY ++ [0x3d] ++ fromBcd.toList ++
    toBcd.toList ++ [0x01, 0x00, 0x00, 0x00, 0x03, 0x00, 0x00, 0x00])

/-- `build_start_frame`: the callee is the door station. -/
def buildStartFrame (calleeBcd callerBcd : Octets) : List UInt8 :=
  assembleFrame (REQ_PREFIX ++ [0x37, 0x30, 0x34] ++ QUERY ++ [0x2a] ++ calleeBcd.toList ++
    callerBcd.toList ++ [0x80, 0x00, 0x00, 0x00, 0x02, 0x00, 0x00, 0x01])

/-- `build_stop_frame`: the preview stop, addressed to the door station. -/
def buildStopFrame (outdoorBcd monitorBcd : Octets) : List UInt8 :=
  assembleFrame (REQ_PREFIX ++ [0x37, 0x30, 0x38] ++ QUERY ++ [0x3d] ++ outdoorBcd.toList ++
    monitorBcd.toList ++ [0x80, 0x00, 0x00, 0x00, 0x02, 0x00, 0x00, 0x01])

/-- `build_appoint_frame`: of the number only the last two bytes are sent. -/
def buildAppointFrame (fromBcd : Octets) : List UInt8 :=
  assembleFrame (REQ_PREFIX ++ [0x35, 0x31, 0x38] ++ QUERY ++ [0x3d] ++ [0xed] ++
    [0x00, 0x01, 0x00, 0x00] ++ fromBcd.toList.drop 2 ++ [0x00, 0x07])

/-! ### The response parser -/

/-- The search for the first separator: what stands before it and behind it. -/
def findQuerySep : List UInt8 → Option (List UInt8 × List UInt8)
  | [] => none
  | c :: rest =>
    let window := (c :: rest).take QUERY_SEP_LEN
    if window = QUERY ++ [0x3d] ∨ window = QUERY ++ [0x2a] then
      some ([], (c :: rest).drop QUERY_SEP_LEN)
    else (findQuerySep rest).map fun (before, after) ↦ (c :: before, after)

/-- `parse_req_num`: one to ten decimal digits, at most `i32::MAX`. -/
def parseReqNum (s : List UInt8) : Except FrameError ℤ :=
  if s.isEmpty then .error .emptyReq
  else if 10 < s.length then .error .reqTooLong
  else if ¬ s.all Codec.isDigit then .error .reqNonDigit
  else if 2 ^ 31 - 1 < Codec.digitsValue s then .error .reqOutOfRange
  else .ok (Codec.digitsValue s)

/-- The part of `parse_response_frame` that reads the declared body. -/
def parseBody (frameBody : List UInt8) : Except FrameError (ℤ × List UInt8) :=
  if frameBody.length < REQ_PREFIX.length + 1 + QUERY_SEP_LEN then .error .bodyTooShort
  else if frameBody.take REQ_PREFIX.length ≠ REQ_PREFIX then .error .noReqPrefix
  else match findQuerySep (frameBody.drop REQ_PREFIX.length) with
    | none => .error .noSeparator
    | some (reqBytes, body) => do
      let req ← parseReqNum reqBytes
      return (req, body)

/-- `parse_response_frame`. -/
def parseResponseFrame : List UInt8 → Except FrameError (ℤ × List UInt8)
  | m0 :: m1 :: l0 :: l1 :: r0 :: r1 :: rest =>
    if m0 ≠ MAGIC_HI ∨ m1 ≠ MAGIC_LO then .error .badMagic
    else if r0 ≠ 0 ∨ r1 ≠ 0 then .error .reserved
    else
      let length := l0.toNat + 256 * l1.toNat
      if rest.length < length then .error .declaredLength
      else parseBody (rest.take length)
  | _ => .error .tooShort

/-- `validate_response`. -/
def validateResponse (resp : List UInt8) (wantReq : ℤ) : Bool :=
  match parseResponseFrame resp with
  | .error _ => false
  | .ok (req, body) =>
    if req ≠ wantReq then false
    else if wantReq = 711 then body == RESP_711_BODY
    else if wantReq = 519 then body == RESP_519_BODY
    else true

/-! ### The declared frame -/

/-- The bytes that a response announces with its header: the header and the declared body. -/
def frameSize : List UInt8 → ℕ
  | _ :: _ :: l0 :: l1 :: _ => HEADER_SIZE + (l0.toNat + 256 * l1.toNat)
  | _ => HEADER_SIZE

theorem HEADER_SIZE_le_frameSize (resp : List UInt8) : HEADER_SIZE ≤ frameSize resp := by
  unfold frameSize
  split
  · exact Nat.le_add_right _ _
  · exact Nat.le_refl _

/-- A response shorter than the frame it announces is not parsed. -/
theorem frameSize_le_of_parse {resp : List UInt8} {v : ℤ × List UInt8}
    (h : parseResponseFrame resp = .ok v) : frameSize resp ≤ resp.length := by
  match resp, h with
  | m0 :: m1 :: l0 :: l1 :: r0 :: r1 :: rest, h =>
    simp only [parseResponseFrame] at h
    split_ifs at h with hmagic hreserved hlength
    simp only [frameSize, HEADER_SIZE, List.length_cons]
    omega

/-- Bytes behind the announced frame do not change what is parsed. -/
theorem parseResponseFrame_append {resp : List UInt8} (extra : List UInt8)
    (h : frameSize resp ≤ resp.length) :
    parseResponseFrame (resp ++ extra) = parseResponseFrame resp := by
  match resp, h with
  | m0 :: m1 :: l0 :: l1 :: r0 :: r1 :: rest, h =>
    simp only [frameSize, HEADER_SIZE, List.length_cons] at h
    have hlength : l0.toNat + 256 * l1.toNat ≤ rest.length := by omega
    simp only [List.cons_append, parseResponseFrame, List.length_append,
      List.take_append_of_le_length hlength]
    rw [if_neg (by omega : ¬ rest.length + extra.length < l0.toNat + 256 * l1.toNat),
      if_neg (by omega : ¬ rest.length < l0.toNat + 256 * l1.toNat)]
  | [], h | [_], h | [_, _], h | [_, _, _], h | [_, _, _, _], h | [_, _, _, _, _], h =>
    simp [frameSize, HEADER_SIZE] at h
    try omega

/-- The announced size is read from the first four bytes. -/
theorem frameSize_append {resp : List UInt8} (extra : List UInt8) (h : 4 ≤ resp.length) :
    frameSize (resp ++ extra) = frameSize resp := by
  match resp, h with
  | _ :: _ :: _ :: _ :: _, _ => rfl

theorem findQuerySep_length {s before after : List UInt8}
    (h : findQuerySep s = some (before, after)) : s.length ≤ before.length + 7 + after.length := by
  induction s generalizing before with
  | nil => simp [findQuerySep] at h
  | cons c rest ih =>
    simp only [findQuerySep] at h
    split_ifs at h with hwindow
    · obtain ⟨rfl, rfl⟩ : [] = before ∧ List.drop QUERY_SEP_LEN (c :: rest) = after := by
        simpa using h
      simp only [QUERY_SEP_LEN, List.length_drop, List.length_nil]
      omega
    · obtain ⟨⟨before', after'⟩, hrest, hpair⟩ := Option.map_eq_some_iff.mp h
      obtain ⟨rfl, rfl⟩ : c :: before' = before ∧ after' = after := by simpa using hpair
      have hle := ih hrest
      simp only [List.length_cons]
      omega

theorem parseReqNum_length {s : List UInt8} {req : ℤ} (h : parseReqNum s = .ok req) :
    s.length ≤ 10 := by
  unfold parseReqNum at h
  split_ifs at h with hempty hlong hdigit hrange
  omega

theorem parseBody_length {frameBody body : List UInt8} {req : ℤ}
    (h : parseBody frameBody = .ok (req, body)) : frameBody.length ≤ 21 + body.length := by
  unfold parseBody at h
  split_ifs at h with hshort hreq
  split at h
  · simp at h
  · rename_i reqBytes body' hsep
    cases hnum : parseReqNum reqBytes with
    | error e => simp [hnum, bind, Except.bind] at h
    | ok n =>
      simp only [hnum, bind, Except.bind, pure, Except.pure, Except.ok.injEq,
        Prod.mk.injEq] at h
      obtain ⟨rfl, rfl⟩ := h
      have hdigits := parseReqNum_length hnum
      have hsplit := findQuerySep_length hsep
      simp only [List.length_drop, REQ_PREFIX, List.length_cons, List.length_nil] at hsplit
      omega

/-- A response shorter than the frame it announces is not accepted. -/
theorem frameSize_le_length_of_validate {resp : List UInt8} {wantReq : ℤ}
    (h : validateResponse resp wantReq = true) : frameSize resp ≤ resp.length := by
  unfold validateResponse at h
  split at h
  · simp at h
  · rename_i hparse
    exact frameSize_le_of_parse hparse

/-- The two acknowledgements of the handshake fit into one read of 256 bytes. -/
theorem frameSize_le_of_validate {resp : List UInt8} {wantReq : ℤ}
    (hreq : wantReq = 711 ∨ wantReq = 519) (h : validateResponse resp wantReq = true) :
    frameSize resp ≤ 37 := by
  unfold validateResponse at h
  split at h
  · simp at h
  · rename_i req body hparse
    have hbody : body.length = 10 := by
      rcases hreq with rfl | rfl
      · have hbytes : req = 711 ∧ body = RESP_711_BODY := by simpa using h
        rw [hbytes.2]
        rfl
      · have hbytes : req = 519 ∧ body = RESP_519_BODY := by simpa using h
        rw [hbytes.2]
        rfl
    match resp, hparse with
    | m0 :: m1 :: l0 :: l1 :: r0 :: r1 :: rest, hparse =>
      simp only [parseResponseFrame] at hparse
      split_ifs at hparse with hmagic hreserved hlength
      have hle := parseBody_length hparse
      rw [List.length_take] at hle
      simp only [frameSize, HEADER_SIZE]
      omega

/-- A prefix of a response is accepted exactly when the response is and the prefix reaches the end
of the announced frame. -/
theorem validateResponse_prefix_iff {seg whole : List UInt8} (hleft : seg <+: whole)
    (wantReq : ℤ) :
    validateResponse seg wantReq = true ↔
      validateResponse whole wantReq = true ∧ frameSize whole ≤ seg.length := by
  obtain ⟨extra, rfl⟩ := hleft
  by_cases hreach : frameSize seg ≤ seg.length
  · have hheader : HEADER_SIZE ≤ seg.length :=
      Nat.le_trans (HEADER_SIZE_le_frameSize seg) hreach
    have hfour : 4 ≤ seg.length := Nat.le_trans (by decide) hheader
    rw [frameSize_append extra hfour]
    simp only [validateResponse, parseResponseFrame_append extra hreach, hreach, and_true]
  · have hseg : ¬ validateResponse seg wantReq = true := fun hvalid ↦
      hreach (frameSize_le_length_of_validate hvalid)
    apply iff_of_false hseg
    rintro ⟨-, hwhole⟩
    by_cases hfour : 4 ≤ seg.length
    · rw [frameSize_append extra hfour] at hwhole
      exact hreach hwhole
    · have hheader := HEADER_SIZE_le_frameSize (seg ++ extra)
      simp only [HEADER_SIZE] at hheader
      omega

end DoorAccess.Wire18022
