import DoorAccess.WireSender
import DoorAccess.Wire18022.Grammar

/-!
# The preview client

`preview.rs` starts and stops the video stream of a door station with one frame each on a short
connection of its own, and takes one `read` of at most 64 bytes for the acknowledgement. Of this it
looks at the magic and at the first bytes of the body only.

So an acknowledgement may come in any number of pieces as long as the first one holds these thirteen
bytes (`exchange_split`), and no acknowledgement ends both a start and a stop.
-/

set_option autoImplicit false
set_option relaxedAutoImplicit false

namespace DoorAccess.Video.Preview

open Wire18022
open WireSender (IoError IoErrorKind)

def PREVIEW_HEADER_SIZE : ℕ := 6

def ACK_READ_BUF : ℕ := 64

/-! ### Errors -/

inductive PreviewError
  | badAck (msg : String)
  | silentFin
  | timeout (stage : String)
  | io (stage : String) (source : IoError)
  deriving DecidableEq, Repr

/-- The `Display` of `PreviewError`. -/
def PreviewError.display : PreviewError → String
  | .badAck msg => "preview: ack frame invalid: " ++ msg
  | .silentFin => "preview: empty response (silent FIN)"
  | .timeout stage => stage ++ ": preview: socket timeout"
  | .io stage source => stage ++ ": " ++ source.message

/-- `wrap_timeout`. -/
def wrapTimeout (err : IoError) (stage : String) : PreviewError :=
  match err.kind with
  | .timedOut | .wouldBlock => .timeout stage
  | _ => .io stage err

/-! ### Acknowledgements -/

/-- A byte as two small hexadecimal digits. -/
def hexByte (b : UInt8) : String :=
  String.ofList ((Nat.toDigits 16 (b.toNat / 16)) ++ (Nat.toDigits 16 (b.toNat % 16)))

/-- `validate_preview_ack`, with the text as a string and as the bytes it is compared with. -/
def validatePreviewAck (b : List UInt8) (wantText : String) (want : List UInt8) :
    Except PreviewError Unit :=
  if b.length < PREVIEW_HEADER_SIZE + want.length then
    .error (.badAck ("too short (" ++ toString b.length ++ ")"))
  else if b.getD 0 0 ≠ MAGIC_HI ∨ b.getD 1 0 ≠ MAGIC_LO then
    .error (.badAck ("magic " ++ hexByte (b.getD 0 0) ++ " " ++ hexByte (b.getD 1 0) ++
      " != 07b8"))
  else if (b.drop PREVIEW_HEADER_SIZE).take want.length ≠ want then
    .error (.badAck ("missing \"" ++ wantText ++ "\" at offset 6"))
  else .ok ()

/-- The text `req=705`. -/
def START_ACK : List UInt8 := REQ_PREFIX ++ [0x37, 0x30, 0x35]

/-- The text `req=709`. -/
def STOP_ACK : List UInt8 := REQ_PREFIX ++ [0x37, 0x30, 0x39]

def validateStartAck (b : List UInt8) : Except PreviewError Unit :=
  validatePreviewAck b "req=705" START_ACK

def validateStopAck (b : List UInt8) : Except PreviewError Unit :=
  validatePreviewAck b "req=709" STOP_ACK

/-! ### One connection -/

/-- One connection as `dial_and_exchange` meets it. An answer to a call that is not made does not
matter. -/
structure Link where
  /-- The failure to parse the address or to connect within the timeout. -/
  dial : Option PreviewError
  setWriteTimeout : Option IoError
  writeAll : Option IoError
  /-- `remaining.is_zero()` behind the write. -/
  deadlinePassed : Bool
  setReadTimeout : Option IoError
  /-- The response, as delivered to successive reads. -/
  segments : List (List UInt8)
  segments_ne : ∀ segment ∈ segments, segment ≠ []
  /-- How reading ends once the segments are used up: an error, or the end of the stream. -/
  readEnd : Option IoError

namespace Link

/-- A `read` into a buffer of `ACK_READ_BUF`: bytes of the next segment, or the end. -/
def read (link : Link) : Except IoError (List UInt8) :=
  match link.segments, link.readEnd with
  | segment :: _, _ => .ok (segment.take ACK_READ_BUF)
  | [], some err => .error err
  | [], none => .ok []

/-- `PreviewClient::dial_and_exchange`. -/
def dialAndExchange (link : Link) : Except PreviewError (List UInt8) :=
  match link.dial with
  | some err => .error err
  | none =>
  match link.setWriteTimeout with
  | some err => .error (.io "set_write_timeout" err)
  | none =>
  match link.writeAll with
  | some err => .error (wrapTimeout err "write")
  | none =>
  if link.deadlinePassed then .error (.timeout "read")
  else match link.setReadTimeout with
  | some err => .error (.io "set_read_timeout" err)
  | none =>
  match link.read with
  | .error err => .error (wrapTimeout err "read")
  | .ok buf => if buf.length = 0 then .error .silentFin else .ok buf

/-- All bytes of the response. -/
def response (link : Link) : List UInt8 :=
  link.segments.flatten

/-- The same connection with the response delivered in one segment. -/
def unsplit (link : Link) : Link :=
  { link with
    segments := if link.response = [] then [] else [link.response]
    segments_ne := by
      split_ifs with hempty
      · simp
      · simpa using hempty }

/-- The frame goes out in time and some bytes come back. -/
def Responds (link : Link) : Prop :=
  link.dial = none ∧ link.setWriteTimeout = none ∧ link.writeAll = none ∧
    link.deadlinePassed = false ∧ link.setReadTimeout = none ∧ link.segments ≠ []

/-- What one read takes. -/
def firstRead (link : Link) : List UInt8 :=
  (link.segments.headD []).take ACK_READ_BUF

end Link

/-- `start_preview` or `stop_preview`, by the acknowledgement it waits for. -/
def exchange (validate : List UInt8 → Except PreviewError Unit) (link : Link) :
    Except PreviewError Unit := do
  let resp ← link.dialAndExchange
  validate resp

/-- `start_preview`: the frame it writes and what comes of it on a connection. -/
def startPreview (calleeBcd callerBcd : Octets) (link : Link) :
    List UInt8 × Except PreviewError Unit :=
  (buildStartFrame calleeBcd callerBcd, exchange validateStartAck link)

/-- `stop_preview`. -/
def stopPreview (outdoorBcd monitorBcd : Octets) (link : Link) :
    List UInt8 × Except PreviewError Unit :=
  (buildStopFrame outdoorBcd monitorBcd, exchange validateStopAck link)

/-! ### What is accepted -/

/-- An acknowledgement: the magic, four bytes of any kind, and a body that begins with the text. -/
def Acks (want b : List UInt8) : Prop :=
  ∃ length rest : List UInt8, length.length = 4 ∧ b = [MAGIC_HI, MAGIC_LO] ++ length ++ want ++ rest

theorem validatePreviewAck_ok_iff (b : List UInt8) (wantText : String) (want : List UInt8) :
    validatePreviewAck b wantText want = .ok () ↔ Acks want b := by
  constructor
  · intro h
    unfold validatePreviewAck at h
    split_ifs at h with hshort hmagic htext
    rw [not_or, not_not, not_not] at hmagic
    rw [not_not] at htext
    rw [PREVIEW_HEADER_SIZE] at hshort htext
    obtain ⟨m0, m1, tail, rfl⟩ : ∃ m0 m1 tail, b = m0 :: m1 :: tail := by
      match b, hshort with
      | m0 :: m1 :: tail, _ => exact ⟨m0, m1, tail, rfl⟩
      | [_], h => exact absurd h (by simp; omega)
      | [], h => exact absurd h (by simp)
    refine ⟨tail.take 4, tail.drop (4 + want.length), ?_, ?_⟩
    · rw [List.length_take]
      simp only [List.length_cons] at hshort
      omega
    · have hdrop : tail.drop 4 = want ++ tail.drop (4 + want.length) := by
        rw [← List.drop_drop]
        conv_lhs => rw [← List.take_append_drop want.length (tail.drop 4)]
        rw [show (tail.drop 4).take want.length = want from htext]
      have hm : m0 = MAGIC_HI ∧ m1 = MAGIC_LO := hmagic
      rw [hm.1, hm.2, List.append_assoc, List.append_assoc, ← hdrop, List.take_append_drop]
      rfl
  · rintro ⟨length, rest, hlength, rfl⟩
    obtain ⟨a, b, c, d, rfl⟩ : ∃ a b c d, length = [a, b, c, d] :=
      List.length_eq_four.mp hlength
    have hlong : ¬([MAGIC_HI, MAGIC_LO] ++ [a, b, c, d] ++ want ++ rest).length <
        PREVIEW_HEADER_SIZE + want.length := by
      simp only [List.length_append, List.length_cons, List.length_nil, PREVIEW_HEADER_SIZE]
      omega
    have htext : (([MAGIC_HI, MAGIC_LO] ++ [a, b, c, d] ++ want ++ rest).drop
        PREVIEW_HEADER_SIZE).take want.length = want := by
      rw [List.append_assoc]
      exact List.take_left
    unfold validatePreviewAck
    rw [if_neg hlong, if_neg (by simp [MAGIC_HI, MAGIC_LO]), if_neg (not_not_intro htext)]

/-- Whether a beginning of the response is accepted depends on its reaching the thirteen bytes. -/
theorem acks_prefix_iff {want seg whole : List UInt8} (h : seg <+: whole) :
    Acks want seg ↔ Acks want whole ∧ PREVIEW_HEADER_SIZE + want.length ≤ seg.length := by
  obtain ⟨more, rfl⟩ := h
  constructor
  · rintro ⟨length, rest, hlength, rfl⟩
    refine ⟨⟨length, rest ++ more, hlength, by rw [List.append_assoc _ rest]⟩, ?_⟩
    simp only [List.length_append, List.length_cons, List.length_nil, PREVIEW_HEADER_SIZE]
    omega
  · rintro ⟨⟨length, rest, hlength, heq⟩, hlong⟩
    have hsize : ([MAGIC_HI, MAGIC_LO] ++ length ++ want).length =
        PREVIEW_HEADER_SIZE + want.length := by
      simp only [List.length_append, List.length_cons, List.length_nil, PREVIEW_HEADER_SIZE]
      omega
    have hbegins : [MAGIC_HI, MAGIC_LO] ++ length ++ want <+: seg :=
      List.prefix_of_prefix_length_le (heq ▸ List.prefix_append _ rest)
        (List.prefix_append seg more) (by omega)
    obtain ⟨rest', hseg⟩ := hbegins
    exact ⟨length, rest', hlength, hseg.symm⟩

/-! ### What an exchange returns -/

theorem dialAndExchange_of_responds {link : Link} (h : link.Responds) :
    link.dialAndExchange = .ok link.firstRead := by
  obtain ⟨hdial, hwt, hwrite, hdeadline, hrt, hsegments⟩ := h
  obtain ⟨segment, rest, hcons⟩ := List.exists_cons_of_ne_nil hsegments
  have hsegment : segment ≠ [] := link.segments_ne segment (by simp [hcons])
  have hlength : ¬(segment.take ACK_READ_BUF).length = 0 := by simp [ACK_READ_BUF, hsegment]
  simp only [Link.dialAndExchange, Link.read, Link.firstRead, hdial, hwt, hwrite, hdeadline, hrt,
    hcons, Bool.false_eq_true, if_false, if_neg hlength, List.headD_cons]

theorem dialAndExchange_of_not_responds {link : Link} (h : ¬link.Responds) :
    ∃ err, link.dialAndExchange = .error err := by
  obtain ⟨dial, setWriteTimeout, writeAll, deadlinePassed, setReadTimeout, segments, hne,
    readEnd⟩ := link
  rcases dial with _ | err
  swap
  · exact ⟨err, rfl⟩
  rcases setWriteTimeout with _ | err
  swap
  · exact ⟨_, rfl⟩
  rcases writeAll with _ | err
  swap
  · exact ⟨_, rfl⟩
  cases deadlinePassed
  swap
  · exact ⟨_, rfl⟩
  rcases setReadTimeout with _ | err
  swap
  · exact ⟨_, rfl⟩
  obtain rfl : segments = [] := by
    by_contra hsegments
    exact h ⟨rfl, rfl, rfl, rfl, rfl, hsegments⟩
  rcases readEnd with _ | err
  · exact ⟨_, rfl⟩
  · exact ⟨_, rfl⟩

theorem exchange_ok_iff (link : Link) (wantText : String) (want : List UInt8) :
    exchange (validatePreviewAck · wantText want) link = .ok () ↔
      link.Responds ∧ Acks want link.firstRead := by
  unfold exchange
  by_cases h : link.Responds
  · rw [dialAndExchange_of_responds h]
    exact (validatePreviewAck_ok_iff _ wantText want).trans (and_iff_right h).symm
  · obtain ⟨err, herr⟩ := dialAndExchange_of_not_responds h
    rw [herr]
    exact iff_of_false (fun hok ↦ by cases hok) fun hok ↦ h hok.1

theorem response_ne_nil {link : Link} (h : link.segments ≠ []) : link.response ≠ [] := by
  obtain ⟨segment, rest, hcons⟩ := List.exists_cons_of_ne_nil h
  have hsegment : segment ≠ [] := link.segments_ne segment (by simp [hcons])
  simp [Link.response, hcons, hsegment]

theorem unsplit_responds_iff (link : Link) : link.unsplit.Responds ↔ link.Responds := by
  have hsegments : link.unsplit.segments ≠ [] ↔ link.segments ≠ [] := by
    constructor
    · intro h hnil
      simp [Link.unsplit, Link.response, hnil] at h
    · intro h
      simp [Link.unsplit, response_ne_nil h]
  unfold Link.Responds
  rw [hsegments]
  exact Iff.rfl

theorem headD_prefix_response (link : Link) : link.segments.headD [] <+: link.response := by
  unfold Link.response
  cases link.segments with
  | nil => exact List.prefix_refl _
  | cons segment rest => exact List.prefix_append _ _

/-- What one read sees of a response decides as the whole response would, if it is as long as the
text that is waited for. -/
theorem acks_firstRead_iff (link : Link) {want : List UInt8} (hwant : want.length = 7) :
    Acks want link.firstRead ↔
      Acks want link.response ∧ 13 ≤ (link.segments.headD []).length := by
  have hread := (List.take_prefix ACK_READ_BUF _).trans (headD_prefix_response link)
  rw [Link.firstRead, acks_prefix_iff hread, hwant, PREVIEW_HEADER_SIZE, List.length_take,
    ACK_READ_BUF]
  exact and_congr_right fun _ ↦ by omega

theorem acks_firstRead_unsplit_iff {link : Link} (h : link.segments ≠ []) {want : List UInt8}
    (hwant : want.length = 7) : Acks want link.unsplit.firstRead ↔ Acks want link.response := by
  have hhead : link.unsplit.segments.headD [] = link.response := by
    simp [Link.unsplit, response_ne_nil h]
  have hresponse : link.unsplit.response = link.response := by
    have hresp : link.response ≠ [] := response_ne_nil h
    rw [Link.response, Link.unsplit]
    simp only [if_neg hresp, List.flatten_cons, List.flatten_nil, List.append_nil]
  rw [acks_firstRead_iff _ hwant, hhead, hresponse]
  refine and_iff_left_of_imp ?_
  rintro ⟨length, rest, hlength, hacks⟩
  rw [hacks]
  simp only [List.length_append, List.length_cons, List.length_nil]
  omega

/-- Of a piece of the response only the first is looked at. -/
theorem exchange_ok_split_iff (link : Link) (wantText : String) {want : List UInt8}
    (hwant : want.length = 7) :
    exchange (validatePreviewAck · wantText want) link = .ok () ↔
      exchange (validatePreviewAck · wantText want) link.unsplit = .ok () ∧
        13 ≤ (link.segments.headD []).length := by
  rw [exchange_ok_iff, exchange_ok_iff, unsplit_responds_iff, acks_firstRead_iff _ hwant, and_assoc]
  refine and_congr_right fun h ↦ ?_
  rw [acks_firstRead_unsplit_iff h.2.2.2.2.2 hwant]

theorem not_acks_both {b : List UInt8} : ¬(Acks START_ACK b ∧ Acks STOP_ACK b) := by
  rintro ⟨⟨length, rest, hlength, rfl⟩, length', rest', hlength', heq⟩
  obtain ⟨a, b, c, d, rfl⟩ := List.length_eq_four.mp hlength
  obtain ⟨a', b', c', d', rfl⟩ := List.length_eq_four.mp hlength'
  have htext : (START_ACK ++ rest).take 7 = (STOP_ACK ++ rest').take 7 := by
    have hdrop := congrArg (fun b ↦ (b.drop 6).take 7) heq
    exact hdrop
  have hne : START_ACK = STOP_ACK := htext
  exact absurd hne (by decide)

/-- The two signals of the preview, for every connection: the frame that goes out is read as request
704 or 708 with both numbers by the parser of the port, the call succeeds exactly if it would with
the whole response in one piece and the first piece holds the thirteen bytes it looks at, which are
the magic, four bytes of any kind and the text of the acknowledgement, and no response ends both
calls. -/
theorem exchange_split (calleeBcd callerBcd : Octets) (link : Link) :
    let start := startPreview calleeBcd callerBcd
    let stop := stopPreview calleeBcd callerBcd
    (∃ rest, parseResponseFrame (start link).1 =
      .ok (704, calleeBcd.toList ++ (callerBcd.toList ++ rest))) ∧
    (∃ rest, parseResponseFrame (stop link).1 =
      .ok (708, calleeBcd.toList ++ (callerBcd.toList ++ rest))) ∧
    ((start link).2 = .ok () ↔
      (start link.unsplit).2 = .ok () ∧ 13 ≤ (link.segments.headD []).length) ∧
    ((stop link).2 = .ok () ↔
      (stop link.unsplit).2 = .ok () ∧ 13 ≤ (link.segments.headD []).length) ∧
    ((start link.unsplit).2 = .ok () ↔ link.Responds ∧ Acks START_ACK link.response) ∧
    ((stop link.unsplit).2 = .ok () ↔ link.Responds ∧ Acks STOP_ACK link.response) ∧
    ¬((start link).2 = .ok () ∧ (stop link).2 = .ok ()) := by
  intro start stop
  have hunsplit (wantText : String) {want : List UInt8} (hwant : want.length = 7) :
      exchange (validatePreviewAck · wantText want) link.unsplit = .ok () ↔
        link.Responds ∧ Acks want link.response := by
    rw [exchange_ok_iff, unsplit_responds_iff]
    exact and_congr_right fun h ↦ acks_firstRead_unsplit_iff h.2.2.2.2.2 hwant
  have hstart := @parse_buildStartFrame calleeBcd callerBcd []
  have hstop := @parse_buildStopFrame calleeBcd callerBcd []
  rw [List.append_nil] at hstart hstop
  refine ⟨⟨_, hstart⟩, ⟨_, hstop⟩, exchange_ok_split_iff link "req=705" rfl,
    exchange_ok_split_iff link "req=709" rfl, hunsplit "req=705" rfl, hunsplit "req=709" rfl, ?_⟩
  rintro ⟨hok, hok'⟩
  have hacks := ((exchange_ok_iff link "req=705" START_ACK).mp hok).2
  have hacks' := ((exchange_ok_iff link "req=709" STOP_ACK).mp hok').2
  exact not_acks_both ⟨hacks, hacks'⟩

end DoorAccess.Video.Preview
