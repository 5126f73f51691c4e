import DoorAccess.Unlock.Retry
import DoorAccess.Wire18022
import Mathlib.Data.List.Infix

/-!
# Sending one wire frame and reading its response

`wire_sender.rs` opens a short connection for every frame, writes the frame and reads the response
with a single `read` of at most 256 bytes. A `Link` is what one such connection does: the answers
of the system calls and of the cancel flag, and the response as the non-empty segments in which
TCP delivers it. `tryOnce` is the two-step handshake of `sender.rs` on top of it, over a network
whose answers may depend on everything sent before.

`Link.unsplit` is the same connection with the response delivered in one piece. One read sees one
segment, so a response is accepted as if it were whole exactly when the first segment reaches the
end of the frame that the response announces: `tryOnce_eq_unsplit_iff`.
-/

set_option autoImplicit false
set_option relaxedAutoImplicit false

namespace DoorAccess.WireSender

open Wire18022 Unlock

/-- `DEFAULT_TIMEOUT`, in milliseconds. -/
def DEFAULT_TIMEOUT : ℕ := 5000

def MAX_RECV_BYTES : ℕ := 256

/-! ### Errors -/

/-- The kinds of `io::ErrorKind` that the sender tells apart. -/
inductive IoErrorKind
  | timedOut
  | wouldBlock
  | connectionReset
  | brokenPipe
  | other
  deriving DecidableEq, Repr

structure IoError where
  kind : IoErrorKind
  message : String
  deriving DecidableEq, Repr

inductive WireError
  | silentFin
  | timeout (stage : String)
  | canceled (stage : String)
  | io (stage : String) (source : IoError)
  | iface (msg : String)
  deriving DecidableEq, Repr

/-- The `Display` of `WireError`. -/
def WireError.display : WireError → String
  | .silentFin => "wire18022: peer closed without response (likely ring state mismatch)"
  | .timeout stage => stage ++ ": wire18022: socket timeout"
  | .canceled stage => stage ++ ": canceled"
  | .io stage source => stage ++ ": " ++ source.message
  | .iface msg => "iface: " ++ msg

/-- `str::contains`. -/
def contains (text part : String) : Bool :=
  decide (part.toList <:+: text.toList)

/-- `wrap_timeout`. -/
def wrapTimeout (err : IoError) (stage : String) : WireError :=
  match err.kind with
  | .timedOut | .wouldBlock => .timeout stage
  | _ => .io stage err

/-- `classify_io`, with the value that the cancel flag reads. -/
def classifyIo (err : IoError) (stage : String) (cancel : Bool) : WireError :=
  if cancel then .canceled stage else wrapTimeout err stage

/-- `is_retryable_error`. -/
def isRetryableError (err : WireError) : Bool :=
  match err with
  | .silentFin => true
  | .timeout _ => true
  | .io _ ⟨.timedOut, _⟩ | .io _ ⟨.wouldBlock, _⟩ => true
  | .io _ ⟨.connectionReset, _⟩ | .io _ ⟨.brokenPipe, _⟩ => true
  | err => contains err.display "connection reset" || contains err.display "broken pipe"

/-- `map_wire_kind`. -/
def mapWireKind (err : WireError) : WireKind :=
  match err with
  | .silentFin => .silentFin
  | .timeout _ => .timeout
  | err => if isRetryableError err then .retryable else .other

/-! ### One connection -/

/-- One connection as the sender meets it. The values of the cancel flag and of the clock are those
read at the places named; a place that is not reached does not matter. -/
structure Link where
  /-- The failure of `get_iface_ip`, `parse_target` or `connect`. -/
  connect : Option WireError
  setWriteTimeout : Option IoError
  cancelBeforeWrite : Bool
  writeAll : Option IoError
  /-- The cancel flag as read by `classify_io` after a failed write. -/
  cancelAfterWrite : Bool
  setReadTimeout : Option IoError
  /-- The response, as delivered to successive reads. -/
  segments : List (List UInt8)
  segments_ne : ∀ segment ∈ segments, segment ≠ []
  /-- How reading ends once the segments are used up: an error, or the end of the stream. -/
  readEnd : Option IoError
  /-- The cancel flag as read after a read without bytes. -/
  cancelAfterRead : Bool
  /-- `Instant::now() >= deadline` after the end of the stream. -/
  deadlinePassed : Bool

namespace Link

/-- A `read` into a buffer of `MAX_RECV_BYTES`: bytes of the next segment, or the end. -/
def read (link : Link) : Except IoError (List UInt8) :=
  match link.segments, link.readEnd with
  | segment :: _, _ => .ok (segment.take MAX_RECV_BYTES)
  | [], some err => .error err
  | [], none => .ok []

/-- `Sender::write_then_read`. -/
def writeThenRead (link : Link) (wantRecv : Bool) : Except WireError (Option (List UInt8)) :=
  match link.setWriteTimeout with
  | some err => .error (.io "set_write_timeout" err)
  | none =>
  if link.cancelBeforeWrite then .error (.canceled "write")
  else match link.writeAll with
  | some err => .error (classifyIo err "write" link.cancelAfterWrite)
  | none =>
  if !wantRecv then .ok none
  else match link.setReadTimeout with
  | some err => .error (.io "set_read_timeout" err)
  | none =>
  match link.read with
  | .error err => .error (classifyIo err "read" link.cancelAfterRead)
  | .ok buf =>
    if buf.length = 0 then
      if link.cancelAfterRead then .error (.canceled "read")
      -- The watcher shuts the socket down at the deadline, which also reads as the end.
      else if link.deadlinePassed then .error (.timeout "read")
      else .error .silentFin
    else .ok (some buf)

/-- `Sender::send_context`. -/
def sendContext (link : Link) (wantRecv : Bool) : Except WireError (Option (List UInt8)) :=
  match link.connect with
  | some err => .error err
  | none => link.writeThenRead wantRecv

/-- All bytes of the response. -/
def response (link : Link) : List UInt8 :=
  link.segments.flatten

/-- The same connection with the response delivered in one segment. -/
def unsplit (link : Link) : Link :=
  { link with
    segments := if link.response = [] then [] else [link.response]
    segments_ne := by
      split_ifs with hempty
      · simp
      · simpa using hempty }

/-- The request goes out and some bytes come back. -/
def Responds (link : Link) : Prop :=
  link.connect = none ∧ link.setWriteTimeout = none ∧ link.cancelBeforeWrite = false ∧
    link.writeAll = none ∧ link.setReadTimeout = none ∧ link.segments ≠ []

/-- The request goes out and the bytes that come back hold a valid response. -/
def Acknowledges (link : Link) (wantReq : ℤ) : Prop :=
  link.Responds ∧ validateResponse link.response wantReq = true

/-- The first segment holds the whole frame that the response announces. -/
def FrameInFirstSegment (link : Link) : Prop :=
  frameSize link.response ≤ (link.segments.headD []).length

end Link

/-! ### What a send returns -/

namespace Link

variable {link : Link}

theorem sendContext_of_responds (hlink : link.Responds) :
    link.sendContext true = .ok (some ((link.segments.headD []).take MAX_RECV_BYTES)) := by
  obtain ⟨hconnect, hwrite, hcancel, hall, hread, hsegments⟩ := hlink
  obtain ⟨segment, rest, hcons⟩ := List.exists_cons_of_ne_nil hsegments
  have hsegment : segment ≠ [] := link.segments_ne segment (by simp [hcons])
  have hlength : ¬ (segment.take MAX_RECV_BYTES).length = 0 := by
    simp [MAX_RECV_BYTES, hsegment]
  simp only [sendContext, writeThenRead, read, hconnect, hwrite, hcancel, hall, hread, hcons,
    Bool.false_eq_true, Bool.not_true, if_false, if_neg hlength, List.headD_cons]

theorem sendContext_of_not_responds (hlink : ¬ link.Responds) :
    ∃ err, link.sendContext true = .error err ∧ link.unsplit.sendContext true = .error err := by
  obtain ⟨connect, setWriteTimeout, cancelBeforeWrite, writeAll, cancelAfterWrite, setReadTimeout,
    segments, hne, readEnd, cancelAfterRead, deadlinePassed⟩ := link
  rcases connect with _ | err
  swap
  · exact ⟨err, rfl, rfl⟩
  rcases setWriteTimeout with _ | err
  swap
  · exact ⟨_, rfl, rfl⟩
  cases cancelBeforeWrite
  swap
  · exact ⟨_, rfl, rfl⟩
  rcases writeAll with _ | err
  swap
  · exact ⟨_, rfl, rfl⟩
  rcases setReadTimeout with _ | err
  swap
  · exact ⟨_, rfl, rfl⟩
  -- Everything went out, so nothing came back.
  obtain rfl : segments = [] := by
    by_contra hsegments
    exact hlink ⟨rfl, rfl, rfl, rfl, rfl, hsegments⟩
  rcases readEnd with _ | err
  · cases cancelAfterRead <;> cases deadlinePassed <;> exact ⟨_, rfl, rfl⟩
  · exact ⟨_, rfl, rfl⟩

theorem response_ne_nil (hlink : link.Responds) : link.response ≠ [] := by
  obtain ⟨segment, rest, hcons⟩ := List.exists_cons_of_ne_nil hlink.2.2.2.2.2
  have hsegment : segment ≠ [] := link.segments_ne segment (by simp [hcons])
  simp [response, hcons, hsegment]

theorem unsplit_responds (hlink : link.Responds) : link.unsplit.Responds := by
  obtain ⟨hconnect, hwrite, hcancel, hall, hread, -⟩ := id hlink
  refine ⟨hconnect, hwrite, hcancel, hall, hread, ?_⟩
  simp [unsplit, response_ne_nil hlink]

theorem headD_prefix_response (link : Link) : link.segments.headD [] <+: link.response := by
  unfold response
  cases link.segments with
  | nil => exact List.prefix_refl _
  | cons segment rest => exact List.prefix_append _ _

/-- What one read takes from the first segment is accepted exactly when the response is valid and
the first segment reaches the end of its frame. -/
theorem validate_firstRead_iff (link : Link) {wantReq : ℤ}
    (hreq : wantReq = 711 ∨ wantReq = 519) :
    validateResponse ((link.segments.headD []).take MAX_RECV_BYTES) wantReq = true ↔
      validateResponse link.response wantReq = true ∧ link.FrameInFirstSegment := by
  have hleft := (List.take_prefix MAX_RECV_BYTES _).trans link.headD_prefix_response
  rw [validateResponse_prefix_iff hleft]
  refine and_congr_right fun hvalid ↦ ?_
  have hsize := frameSize_le_of_validate hreq hvalid
  simp only [FrameInFirstSegment, List.length_take, MAX_RECV_BYTES]
  omega

/-- An unsplit response is accepted exactly when it is valid. -/
theorem validate_firstRead_unsplit_iff (hlink : link.Responds) {wantReq : ℤ}
    (hreq : wantReq = 711 ∨ wantReq = 519) :
    validateResponse ((link.unsplit.segments.headD []).take MAX_RECV_BYTES) wantReq = true ↔
      validateResponse link.response wantReq = true := by
  have hhead : link.unsplit.segments.headD [] = link.response := by
    simp [unsplit, response_ne_nil hlink]
  rw [hhead, validateResponse_prefix_iff (List.take_prefix _ _), and_iff_left_iff_imp]
  intro hvalid
  have hsize := frameSize_le_of_validate hreq hvalid
  have hlength := frameSize_le_length_of_validate hvalid
  simp only [List.length_take, MAX_RECV_BYTES]
  omega

end Link

/-! ### The handshake -/

section Handshake

variable {σ : Type*}

/-- The network and the clock: what is left of the total cap, and the connection that a send with
the given timeout, target and frame meets. -/
structure Network (σ : Type*) where
  remaining : σ → Option ℕ × σ
  send : (timeout : ℕ) → Str → UInt16 → (frame : List UInt8) → σ → Link × σ

/-- The network in which every response arrives in one piece. -/
def Network.unsplit (net : Network σ) : Network σ :=
  { net with
    send := fun timeout targetIp targetPort frame s ↦
      ((net.send timeout targetIp targetPort frame s).1.unsplit,
        (net.send timeout targetIp targetPort frame s).2) }

/-- `op_timeout`: the cap of one step, or what is left of the total cap if that is less. -/
def opTimeout (perAttemptCap remaining : Option ℕ) : ℕ :=
  let cap := perAttemptCap.getD DEFAULT_TIMEOUT
  match remaining with
  | some remaining => min cap remaining
  | none => cap

/-- One send of the handshake, with `op_timeout` computed just before it. -/
def sendStep (net : Network σ) (args : UnlockArgs) (frame : List UInt8) (s : σ) : Link × σ :=
  let (remaining, s) := net.remaining s
  net.send (opTimeout args.perAttemptTimeout remaining) args.targetIp args.targetPort frame s

/-- The connection of the 710 step. -/
def stepA (net : Network σ) (args : UnlockArgs) (s : σ) : Link × σ :=
  sendStep net args (buildUnlockAFrame args.callerBcd args.calleeBcd) s

/-- The connection of the 518 step. -/
def stepB (net : Network σ) (args : UnlockArgs) (s : σ) : Link × σ :=
  sendStep net args (buildUnlockBFrame args.callerBcd args.calleeBcd) s

/-- `WireSenderAdapter::try_once`. -/
def tryOnce (net : Network σ) (args : UnlockArgs) (s : σ) : AttemptOutcome × σ :=
  let (linkA, s) := stepA net args s
  match linkA.sendContext true with
  | .error err => (.wireErr .unlockA (mapWireKind err), s)
  | .ok respA =>
  if !validateResponse (respA.getD []) 711 then (.businessErr .unlockA, s)
  else
    let (linkB, s) := stepB net args s
    match linkB.sendContext true with
    | .error err => (.wireErr .unlockB (mapWireKind err), s)
    | .ok respB =>
    if !validateResponse (respB.getD []) 519 then (.businessErr .unlockB, s)
    else (.ok, s)

/-! ### Split and unsplit delivery -/

/-- The part of the handshake that one connection decides, with the outcome `next` that follows
an acknowledgement. -/
def stepOutcome (link : Link) (stage : UnlockStage) (wantReq : ℤ) (next : AttemptOutcome) :
    AttemptOutcome :=
  match link.sendContext true with
  | .error err => .wireErr stage (mapWireKind err)
  | .ok resp => if !validateResponse (resp.getD []) wantReq then .businessErr stage else next

theorem tryOnce_fst (net : Network σ) (args : UnlockArgs) (s : σ) :
    (tryOnce net args s).1 =
      stepOutcome (stepA net args s).1 .unlockA 711
        (stepOutcome (stepB net args (stepA net args s).2).1 .unlockB 519 .ok) := by
  simp only [tryOnce, stepOutcome]
  split
  · rfl
  · split_ifs with hA
    · rfl
    · split
      · rfl
      · split_ifs with hB
        · rfl
        · rfl

theorem tryOnce_unsplit_fst (net : Network σ) (args : UnlockArgs) (s : σ) :
    (tryOnce net.unsplit args s).1 =
      stepOutcome (stepA net args s).1.unsplit .unlockA 711
        (stepOutcome (stepB net args (stepA net args s).2).1.unsplit .unlockB 519 .ok) :=
  tryOnce_fst net.unsplit args s

section StepOutcome

variable {link : Link} {wantReq : ℤ}

theorem stepOutcome_of_responds (hlink : link.Responds) (stage : UnlockStage)
    (next : AttemptOutcome) :
    stepOutcome link stage wantReq next =
      if validateResponse ((link.segments.headD []).take MAX_RECV_BYTES) wantReq = true then next
      else .businessErr stage := by
  simp only [stepOutcome, Link.sendContext_of_responds hlink, Option.getD_some]
  by_cases hvalid : validateResponse ((link.segments.headD []).take MAX_RECV_BYTES) wantReq = true
  · rw [if_pos hvalid, if_neg (by rw [hvalid]; decide)]
  · have hfalse := eq_false_of_ne_true hvalid
    rw [if_neg hvalid, if_pos (by rw [hfalse]; rfl)]

/-- An acknowledgement within the first segment is accepted. -/
theorem stepOutcome_of_frameInFirstSegment (hreq : wantReq = 711 ∨ wantReq = 519)
    (hlink : link.Acknowledges wantReq) (hfirst : link.FrameInFirstSegment)
    (stage : UnlockStage) (next : AttemptOutcome) :
    stepOutcome link stage wantReq next = next := by
  rw [stepOutcome_of_responds hlink.1, if_pos]
  exact (link.validate_firstRead_iff hreq).mpr ⟨hlink.2, hfirst⟩

/-- A response that is not valid, or is cut before the end of its frame, is a business error. -/
theorem stepOutcome_of_not_accepted (hreq : wantReq = 711 ∨ wantReq = 519)
    (hlink : link.Responds)
    (hcut : ¬ (validateResponse link.response wantReq = true ∧ link.FrameInFirstSegment))
    (stage : UnlockStage) (next : AttemptOutcome) :
    stepOutcome link stage wantReq next = .businessErr stage := by
  rw [stepOutcome_of_responds hlink, if_neg]
  exact mt (link.validate_firstRead_iff hreq).mp hcut

/-- An acknowledgement delivered in one segment is accepted. -/
theorem stepOutcome_unsplit (hreq : wantReq = 711 ∨ wantReq = 519)
    (hlink : link.Acknowledges wantReq) (stage : UnlockStage) (next : AttemptOutcome) :
    stepOutcome link.unsplit stage wantReq next = next := by
  rw [stepOutcome_of_responds (Link.unsplit_responds hlink.1), if_pos]
  exact (Link.validate_firstRead_unsplit_iff hlink.1 hreq).mpr hlink.2

/-- A connection that does not acknowledge decides the outcome, and splitting changes nothing. -/
theorem stepOutcome_of_not_acknowledges (hreq : wantReq = 711 ∨ wantReq = 519)
    (hlink : ¬ link.Acknowledges wantReq) (stage : UnlockStage) :
    ∃ outcome, ∀ next, stepOutcome link stage wantReq next = outcome ∧
      stepOutcome link.unsplit stage wantReq next = outcome := by
  by_cases hresponds : link.Responds
  · have hvalid : ¬ validateResponse link.response wantReq = true := fun h ↦ hlink ⟨hresponds, h⟩
    refine ⟨.businessErr stage, fun next ↦ ⟨?_, ?_⟩⟩
    · exact stepOutcome_of_not_accepted hreq hresponds (fun h ↦ hvalid h.1) stage next
    · rw [stepOutcome_of_responds (Link.unsplit_responds hresponds), if_neg]
      exact mt (Link.validate_firstRead_unsplit_iff hresponds hreq).mp hvalid
  · obtain ⟨err, hsplit, hunsplit⟩ := Link.sendContext_of_not_responds hresponds
    refine ⟨.wireErr stage (mapWireKind err), fun next ↦ ⟨?_, ?_⟩⟩
    · simp only [stepOutcome, hsplit]
    · simp only [stepOutcome, hunsplit]

/-- The second connection never gives an outcome of the first stage. -/
theorem stepOutcome_unlockB_ne (link : Link) (wantReq : ℤ) :
    stepOutcome link .unlockB wantReq .ok ≠ .businessErr .unlockA := by
  unfold stepOutcome
  split
  · simp
  · split_ifs
    · simp
    · simp

end StepOutcome

/-- The handshake gives the outcome of unsplit delivery, accepting every acknowledgement that is
delivered, exactly when each acknowledgement that it gets to lies within the first segment of its
response. -/
theorem tryOnce_eq_unsplit_iff (net : Network σ) (args : UnlockArgs) (s : σ) :
    ((tryOnce net args s).1 = (tryOnce net.unsplit args s).1 ∧
        ((stepA net args s).1.Acknowledges 711 →
          (tryOnce net args s).1 ≠ .businessErr .unlockA ∧
            ((stepB net args (stepA net args s).2).1.Acknowledges 519 →
              (tryOnce net args s).1 = .ok))) ↔
      ((stepA net args s).1.Acknowledges 711 →
        (stepA net args s).1.FrameInFirstSegment ∧
          ((stepB net args (stepA net args s).2).1.Acknowledges 519 →
            (stepB net args (stepA net args s).2).1.FrameInFirstSegment)) := by
  rw [tryOnce_unsplit_fst, tryOnce_fst]
  generalize (stepB net args (stepA net args s).2).1 = linkB
  generalize (stepA net args s).1 = linkA
  by_cases hA : linkA.Acknowledges 711
  swap
  · obtain ⟨outcome, houtcome⟩ := stepOutcome_of_not_acknowledges (.inl rfl) hA .unlockA
    simp [hA, (houtcome _).1, (houtcome _).2]
  by_cases hfirstA : linkA.FrameInFirstSegment
  swap
  · rw [stepOutcome_of_not_accepted (.inl rfl) hA.1 (fun h ↦ hfirstA h.2)]
    simp [hA, hfirstA]
  rw [stepOutcome_of_frameInFirstSegment (.inl rfl) hA hfirstA,
    stepOutcome_unsplit (.inl rfl) hA]
  by_cases hB : linkB.Acknowledges 519
  swap
  · obtain ⟨outcome, houtcome⟩ := stepOutcome_of_not_acknowledges (.inr rfl) hB .unlockB
    have hne := stepOutcome_unlockB_ne linkB 519
    rw [(houtcome _).1] at hne
    simp [hA, hB, hfirstA, (houtcome _).1, (houtcome _).2, hne]
  rw [stepOutcome_unsplit (.inr rfl) hB]
  by_cases hfirstB : linkB.FrameInFirstSegment
  · rw [stepOutcome_of_frameInFirstSegment (.inr rfl) hB hfirstB]
    simp [hfirstA, hfirstB]
  · rw [stepOutcome_of_not_accepted (.inr rfl) hB.1 (fun h ↦ hfirstB h.2)]
    simp [hA, hB, hfirstB]

end Handshake

/-! ### A split acknowledgement -/

/-- The 30-byte response 711 of the door station. -/
def response711 : List UInt8 :=
  assembleFrame (REQ_PREFIX ++ [0x37, 0x31, 0x31] ++ QUERY ++ [0x2a] ++ RESP_711_BODY)

/-- The 30-byte response 519 of the door station. -/
def response519 : List UInt8 :=
  assembleFrame (REQ_PREFIX ++ [0x35, 0x31, 0x39] ++ QUERY ++ [0x2a] ++ RESP_519_BODY)

/-- A connection without failures that delivers the given segments and then ends. -/
def deliver (segments : List (List UInt8)) (hne : ∀ segment ∈ segments, segment ≠ []) : Link where
  connect := none
  setWriteTimeout := none
  cancelBeforeWrite := false
  writeAll := none
  cancelAfterWrite := false
  setReadTimeout := none
  segments := segments
  segments_ne := hne
  readEnd := none
  cancelAfterRead := false
  deadlinePassed := false

/-- A door station that acknowledges both steps, the second in one segment and the first in a
segment of ten bytes and one of twenty. The state counts the connections. -/
def splitStation : Network ℕ where
  remaining := fun s ↦ (some 10000, s)
  send := fun _ _ _ _ s ↦
    (if s = 0 then deliver [response711.take 10, response711.drop 10] (by decide)
      else deliver [response519] (by decide), s + 1)

def splitArgs : UnlockArgs where
  callerBcd := stationBcd
  calleeBcd := indoorBcd
  targetIp := Codec.ipv4Str stationIp
  targetPort := 18022
  perAttemptTimeout := none
  retryInterval := UNLOCK_RETRY_INTERVAL

/-- The split acknowledgement is a business error, and unsplit it opens the door. -/
theorem tryOnce_splitStation :
    validateResponse response711 711 = true ∧
      (tryOnce splitStation splitArgs 0).1 = .businessErr .unlockA ∧
      (tryOnce splitStation.unsplit splitArgs 0).1 = .ok := by
  decide

end DoorAccess.WireSender
