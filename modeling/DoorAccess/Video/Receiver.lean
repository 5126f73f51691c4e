import DoorAccess.Lib.Records
import DoorAccess.Video.Survivors
import DoorAccess.Video.Window
import Mathlib.Data.List.Perm.Subperm

/-!
# The receiver

`parse_rtp` and the read loop `run_with_conn` of `rtp.rs`. Each turn of the loop finds the stop flag
set, an idle socket, a broken one or a datagram. Datagrams from another source and those that do not
parse are passed over; a packet with another SSRC begins a new stream epoch and empties the
reassembler. The log lines and the test hook are left out.

Bytes stay in the window and in the partial frame from one packet to the next. `Holds` says which
packets they are from: those of the present run of one SSRC, each at most once.
-/

set_option autoImplicit false
set_option relaxedAutoImplicit false

namespace DoorAccess.Video

/-! ### Packets -/

def RTP_HEADER_LEN : ℕ := 12

def RECV_BUF_LEN : ℕ := 2048

/-- The reasons of `RtpError`. -/
inductive RtpError
  | tooShort (length : ℕ)
  | version (v : UInt8)
  | csrcCount (cc : UInt8)
  | extension
  deriving DecidableEq, Repr

def RtpError.reason : RtpError → String
  | .tooShort length => "too short (" ++ toString length ++ " < " ++ toString RTP_HEADER_LEN ++ ")"
  | .version v => "version=" ++ toString v ++ ", want 2"
  | .csrcCount cc => "CSRC count=" ++ toString cc ++ " not supported"
  | .extension => "extension header not supported"

/-- `parse_rtp`. -/
def parseRtp : List UInt8 → Except RtpError (RtpPacket UInt8)
  | b0 :: b1 :: b2 :: b3 :: b4 :: b5 :: b6 :: b7 :: b8 :: b9 :: b10 :: b11 :: payload =>
    if (b0 >>> 6) &&& 0x03 ≠ 2 then .error (.version ((b0 >>> 6) &&& 0x03))
    else if b0 &&& 0x0f ≠ 0 then .error (.csrcCount (b0 &&& 0x0f))
    else if (b0 >>> 4) &&& 0x01 ≠ 0 then .error .extension
    else .ok {
      marker := b1 >>> 7 = 1
      pt := b1 &&& 0x7f
      seq := UInt16.ofNat (Records.value [b2, b3])
      timestamp := UInt32.ofNat (Records.value [b4, b5, b6, b7])
      ssrc := UInt32.ofNat (Records.value [b8, b9, b10, b11])
      payload := payload }
  | b => .error (.tooShort b.length)

/-! ### The loop -/

/-- What a turn of the loop finds: the stop flag, or what `recv_from` returns. -/
inductive Turn
  | stopped
  | timedOut
  | failed
  | received (src : Str) (datagram : List UInt8)
  deriving DecidableEq

/-- The local variables of `run_with_conn`. -/
structure RtpReceiver where
  reasm : FrameReassembler UInt8
  lockedSsrc : Option UInt32
  streamEpoch : UInt32
  /-- The calls of the SSRC sink. -/
  sunk : List UInt32

namespace RtpReceiver

def new : RtpReceiver where
  reasm := .new
  lockedSsrc := none
  streamEpoch := 0
  sunk := []

/-- The SSRC is locked with the first packet, and again whenever it changes. -/
def lock (r : RtpReceiver) (pkt : RtpPacket UInt8) : RtpReceiver :=
  if r.lockedSsrc = some pkt.ssrc then r
  else
    let r := if r.lockedSsrc.isSome then
        { r with streamEpoch := r.streamEpoch + 1, reasm := resetStream r.reasm }
      else r
    { r with lockedSsrc := some pkt.ssrc, sunk := r.sunk ++ [pkt.ssrc] }

/-- A packet that has been accepted, with the units that are pushed into the buffer for it. -/
def handle (r : RtpReceiver) (pkt : RtpPacket UInt8) : RtpReceiver × List NalUnit :=
  let r := r.lock pkt
  let (reasm, nals, _) := push extractNalsAnnexb r.reasm pkt
  ({ r with reasm := reasm }, nals.map fun nal ↦ { nal with streamEpoch := r.streamEpoch })

end RtpReceiver

/-- The packet of a datagram, when it comes from the expected source (any, if none is given) and
parses. A datagram is cut off at the length of the receive buffer. -/
def acceptedPacket (expectSrcIp src : Str) (datagram : List UInt8) : Option (RtpPacket UInt8) :=
  if expectSrcIp ≠ [] ∧ src ≠ expectSrcIp then none
  else
    match parseRtp (datagram.take RECV_BUF_LEN) with
    | .ok pkt => some pkt
    | .error _ => none

/-- How `run_with_conn` returns. -/
inductive Exit
  | ok
  | err
  deriving DecidableEq

/-- `run_with_conn`, as far as the turns go: the units pushed, in one list for each packet that is
accepted, and how the loop was left, if it was. -/
def runWithConn (expectSrcIp : Str) :
    RtpReceiver → List Turn → RtpReceiver × List (List NalUnit) × Option Exit
  | r, [] => (r, [], none)
  | r, .stopped :: _ => (r, [], some .ok)
  | r, .failed :: _ => (r, [], some .err)
  | r, .timedOut :: turns => runWithConn expectSrcIp r turns
  | r, .received src datagram :: turns =>
    match acceptedPacket expectSrcIp src datagram with
    | none => runWithConn expectSrcIp r turns
    | some pkt =>
      let (r, nals) := r.handle pkt
      let (r, batches, exit) := runWithConn expectSrcIp r turns
      (r, nals :: batches, exit)

/-- The packets that a run accepts, in their order. -/
def acceptedPackets (expectSrcIp : Str) : List Turn → List (RtpPacket UInt8)
  | [] => []
  | .stopped :: _ => []
  | .failed :: _ => []
  | .timedOut :: turns => acceptedPackets expectSrcIp turns
  | .received src datagram :: turns =>
    match acceptedPacket expectSrcIp src datagram with
    | none => acceptedPackets expectSrcIp turns
    | some pkt => pkt :: acceptedPackets expectSrcIp turns

/-- Every accepted packet is that of a datagram from the expected source which parses. -/
theorem exists_datagram_of_mem {expectSrcIp : Str} {turns : List Turn} {pkt : RtpPacket UInt8}
    (h : pkt ∈ acceptedPackets expectSrcIp turns) :
    ∃ src datagram, .received src datagram ∈ turns ∧ (expectSrcIp = [] ∨ src = expectSrcIp) ∧
      parseRtp (datagram.take RECV_BUF_LEN) = .ok pkt := by
  induction turns with
  | nil => exact absurd h List.not_mem_nil
  | cons turn turns ih =>
    have hlater : pkt ∈ acceptedPackets expectSrcIp turns →
        ∃ src datagram, .received src datagram ∈ turn :: turns ∧
          (expectSrcIp = [] ∨ src = expectSrcIp) ∧
          parseRtp (datagram.take RECV_BUF_LEN) = .ok pkt := by
      intro hmem
      obtain ⟨src, datagram, hturn, hrest⟩ := ih hmem
      exact ⟨src, datagram, List.mem_cons_of_mem turn hturn, hrest⟩
    cases turn with
    | stopped => exact absurd h List.not_mem_nil
    | failed => exact absurd h List.not_mem_nil
    | timedOut => exact hlater h
    | received src datagram =>
      unfold acceptedPackets at h
      cases hpacket : acceptedPacket expectSrcIp src datagram with
      | none =>
        rw [hpacket] at h
        exact hlater h
      | some first =>
        rw [hpacket] at h
        rcases List.mem_cons.mp h with rfl | hrest
        · refine ⟨src, datagram, List.mem_cons_self, ?_⟩
          unfold acceptedPacket at hpacket
          split_ifs at hpacket with hsource
          split at hpacket
          · rename_i parsed hparsed
            obtain rfl := Option.some.inj hpacket
            refine ⟨?_, hparsed⟩
            by_cases hany : expectSrcIp = []
            · exact Or.inl hany
            · exact Or.inr (not_ne_iff.mp fun hne ↦ hsource ⟨hany, hne⟩)
          · exact absurd hpacket (by simp)
        · exact hlater hrest

/-! ### Where the bytes of the reassembler are from -/

section Holds

variable {β ν : Type*}

/-- The bytes of a list of packets. -/
def payloads (ps : List (RtpPacket β)) : List β :=
  ps.flatMap RtpPacket.payload

theorem payloads_append (ps qs : List (RtpPacket β)) :
    payloads (ps ++ qs) = payloads ps ++ payloads qs :=
  List.flatMap_append

/-- The buffer is made of packets which, with those of the window, are packets of `run`, each taken
at most once. -/
def Holds (run : List (RtpPacket β)) (r : FrameReassembler β) : Prop :=
  ∃ framed, r.frameBuf = payloads framed ∧ (framed ++ r.pending).Subperm run

theorem holds_nil {r : FrameReassembler β} (hbuf : r.frameBuf = []) (hpending : r.pending = []) :
    Holds [] r :=
  ⟨[], hbuf, by rw [hpending]; exact List.Subperm.refl []⟩

/-- A packet fed to the buffer leaves it with bytes of the packets it had and this one. -/
theorem appendPacket_framed {r : FrameReassembler β} {framed : List (RtpPacket β)}
    (h : r.frameBuf = payloads framed) (p : RtpPacket β) :
    ∃ kept : List (RtpPacket β), kept.Sublist (framed ++ [p]) ∧
      (appendPacket r p).frameBuf = payloads kept := by
  have hone : payloads [p] = p.payload := List.append_nil _
  rcases appendPacket_cases r p with ⟨hsame, -⟩ | ⟨-, -, held, hbuf, hheld⟩
  · exact ⟨framed, List.sublist_append_left framed [p], by rw [hsame, h]⟩
  · rcases hbuf with ⟨hempty, -⟩ | hbuf
    · exact ⟨[], List.nil_sublist _, hempty⟩
    · rcases hheld with rfl | ⟨rfl, -⟩
      · exact ⟨[p], List.sublist_append_right framed [p], by rw [hbuf, hone, List.nil_append]⟩
      · exact ⟨framed ++ [p], List.Sublist.refl _, by rw [hbuf, payloads_append, hone, h]⟩

theorem appendPacket_pending (r : FrameReassembler β) (p : RtpPacket β) :
    (appendPacket r p).pending = r.pending := by
  have hpayload : ∀ r : FrameReassembler β, (appendPayload r p).pending = r.pending := by
    intro r
    unfold appendPayload dropFrame
    split_ifs
    · rfl
    · rfl
    · rfl
  unfold appendPacket
  dsimp only
  split_ifs
  · exact hpayload _
  · rfl
  · rw [hpayload]
    unfold beginFrame dropFrame
    dsimp only
    split_ifs
    · rfl
    · rfl
  · exact hpayload r

theorem cutFrame_empties (extract : List β → UInt32 → List ν) (r : FrameReassembler β) :
    (cutFrame extract r).1.frameBuf = [] ∧ (cutFrame extract r).1.pending = r.pending ∧
      ∀ nal ∈ (cutFrame extract r).2, nal ∈ extract r.frameBuf r.frameTimestamp := by
  unfold cutFrame
  split_ifs with hempty
  · exact ⟨List.isEmpty_iff.mp hempty, rfl, fun nal hnal ↦ absurd hnal List.not_mem_nil⟩
  · exact ⟨rfl, rfl, fun nal hnal ↦ hnal⟩

/-- A unit cut from the payloads of packets of the run. -/
def CutFrom (extract : List β → UInt32 → List ν) (run : List (RtpPacket β)) (nal : ν) : Prop :=
  ∃ ps timestamp, ps.Subperm run ∧ nal ∈ extract (payloads ps) timestamp

variable (extract : List β → UInt32 → List ν)

/-- Released packets of the run are fed to the buffer: what it holds and what is cut are of the
run. -/
theorem feedAll_holds {run : List (RtpPacket β)} (ps : List (RtpPacket β)) (r : FrameReassembler β)
    (h : ∃ framed, r.frameBuf = payloads framed ∧ (framed ++ (ps ++ r.pending)).Subperm run) :
    Holds run (feedAll extract r ps).1 ∧
      ∀ nal ∈ (feedAll extract r ps).2.1, CutFrom extract run nal := by
  induction ps generalizing r with
  | nil => exact ⟨h, fun nal hnal ↦ absurd hnal List.not_mem_nil⟩
  | cons p ps ih =>
    obtain ⟨framed, hbuf, hrun⟩ := h
    obtain ⟨kept, hkept, hkeptBuf⟩ := appendPacket_framed hbuf p
    have hpending := appendPacket_pending r p
    have hall : (kept ++ (ps ++ r.pending)).Subperm run := by
      refine List.Subperm.trans (hkept.append_right (ps ++ r.pending)).subperm ?_
      rw [List.append_assoc]
      exact hrun
    unfold feedAll
    dsimp only
    split_ifs
    · obtain ⟨hempty, hcutPending, hcut⟩ := cutFrame_empties extract (appendPacket r p)
      have hrest := ih (cutFrame extract (appendPacket r p)).1 ⟨[], hempty, by
        rw [hcutPending, hpending]
        exact (List.sublist_append_right kept _).subperm.trans hall⟩
      refine ⟨hrest.1, fun nal hnal ↦ ?_⟩
      rcases List.mem_append.mp hnal with hfirst | hlater
      · refine ⟨kept, (appendPacket r p).frameTimestamp, ?_, ?_⟩
        · exact (List.sublist_append_left kept _).subperm.trans hall
        · rw [← hkeptBuf]
          exact hcut nal hfirst
      · exact hrest.2 nal hlater
    · exact ih (appendPacket r p) ⟨kept, hkeptBuf, by rw [hpending]; exact hall⟩

/-- One packet of the run. -/
theorem push_holds {run : List (RtpPacket β)} {r : FrameReassembler β} (h : Holds run r)
    (p : RtpPacket β) :
    Holds (run ++ [p]) (push extract r p).1 ∧
      ∀ nal ∈ (push extract r p).2.1, CutFrom extract (run ++ [p]) nal := by
  obtain ⟨framed, hbuf, hrun⟩ := h
  unfold push
  refine feedAll_holds extract _ _ ⟨framed, hbuf, ?_⟩
  have hwindow : (framed ++ ((windowStep r.pending p).1 ++ (windowStep r.pending p).2)).Perm
      (framed ++ r.pending ++ [p]) := by
    refine ((windowStep_perm r.pending p).append_left framed).trans ?_
    rw [List.append_assoc]
    exact (List.perm_append_singleton p r.pending).symm.append_left framed
  exact hwindow.subperm.trans ((List.subperm_append_right [p]).mpr hrun)

end Holds

/-! ### Runs of one SSRC -/

/-- The number of SSRC changes between consecutive packets. -/
def ssrcChanges : List (RtpPacket UInt8) → ℕ
  | p :: q :: rest => (if p.ssrc = q.ssrc then 0 else 1) + ssrcChanges (q :: rest)
  | _ => 0

theorem ssrcChanges_append (before : List (RtpPacket UInt8)) (p : RtpPacket UInt8)
    (after : List (RtpPacket UInt8)) :
    ssrcChanges (before ++ p :: after) =
      ssrcChanges (before ++ [p]) + ssrcChanges (p :: after) := by
  induction before with
  | nil => exact (Nat.zero_add _).symm
  | cons first rest ih =>
    cases rest with
    | nil =>
      simp only [List.cons_append, List.nil_append, ssrcChanges]
      omega
    | cons second rest =>
      simp only [List.cons_append, ssrcChanges] at ih ⊢
      omega

/-- There is no change exactly when all packets have the SSRC of the first. -/
theorem ssrcChanges_eq_zero_iff (p : RtpPacket UInt8) (after : List (RtpPacket UInt8)) :
    ssrcChanges (p :: after) = 0 ↔ ∀ q ∈ after, q.ssrc = p.ssrc := by
  induction after generalizing p with
  | nil => exact iff_of_true rfl fun q hq ↦ absurd hq List.not_mem_nil
  | cons q after ih =>
    unfold ssrcChanges
    rw [Nat.add_eq_zero_iff, ih, List.forall_mem_cons]
    constructor
    · rintro ⟨hchange, hrest⟩
      have hsame : p.ssrc = q.ssrc := by
        by_contra hne
        rw [if_neg hne] at hchange
        exact Nat.one_ne_zero hchange
      exact ⟨hsame.symm, fun u hu ↦ (hrest u hu).trans hsame.symm⟩
    · rintro ⟨hsame, hrest⟩
      exact ⟨if_pos hsame.symm, fun u hu ↦ (hrest u hu).trans hsame.symm⟩

/-- The packets end with a maximal run of one SSRC. -/
structure EndsWithRun (accepted earlier run : List (RtpPacket UInt8)) : Prop where
  split : accepted = earlier ++ run
  nonempty : run ≠ []
  same : ∀ p ∈ run, ∀ q ∈ run, p.ssrc = q.ssrc
  maximal : ∀ p ∈ earlier.getLast?, ∀ q ∈ run, p.ssrc ≠ q.ssrc

theorem endsWithRun_singleton (p : RtpPacket UInt8) : EndsWithRun [p] [] [p] where
  split := rfl
  nonempty := List.cons_ne_nil p []
  same := by
    intro a ha b hb
    rw [List.mem_singleton.mp ha, List.mem_singleton.mp hb]
  maximal := fun a ha ↦ absurd ha (by simp)

variable {accepted earlier run : List (RtpPacket UInt8)} {last pkt : RtpPacket UInt8}

/-- A packet with the SSRC of the last one goes on with its run. -/
theorem EndsWithRun.extend (h : EndsWithRun accepted earlier run) (hlast : last ∈ accepted.getLast?)
    (hsame : last.ssrc = pkt.ssrc) : EndsWithRun (accepted ++ [pkt]) earlier (run ++ [pkt]) := by
  have hlastRun : last ∈ run := by
    rw [h.split, List.getLast?_append_of_ne_nil _ h.nonempty] at hlast
    exact List.mem_of_getLast? hlast
  have hssrc : ∀ q ∈ run ++ [pkt], q.ssrc = last.ssrc := by
    intro q hq
    rcases List.mem_append.mp hq with hold | hnew
    · exact h.same q hold last hlastRun
    · rw [List.mem_singleton.mp hnew, hsame]
  refine ⟨by rw [h.split, List.append_assoc], by simp, ?_, ?_⟩
  · intro p hp q hq
    rw [hssrc p hp, hssrc q hq]
  · intro p hp q hq
    rw [hssrc q hq]
    exact h.maximal p hp last hlastRun

/-- A packet with another SSRC begins a run. -/
theorem endsWithRun_of_change (hlast : last ∈ accepted.getLast?) (hchange : last.ssrc ≠ pkt.ssrc) :
    EndsWithRun (accepted ++ [pkt]) accepted [pkt] where
  split := rfl
  nonempty := List.cons_ne_nil pkt []
  same := (endsWithRun_singleton pkt).same
  maximal := by
    intro p hp q hq
    rw [List.mem_singleton.mp hq, Option.mem_unique hp hlast]
    exact hchange

/-! ### The loop keeps to the run -/

/-- The local variables agree with the packets accepted so far. -/
structure RtpReceiver.Follows (r : RtpReceiver) (accepted : List (RtpPacket UInt8)) : Prop where
  locked : r.lockedSsrc = accepted.getLast?.map RtpPacket.ssrc
  epoch : r.streamEpoch = UInt32.ofNat (ssrcChanges accepted)
  holds : ∃ earlier run, (accepted = [] ∧ run = [] ∨ EndsWithRun accepted earlier run) ∧
    Holds run r.reasm

theorem RtpReceiver.follows_new : RtpReceiver.new.Follows [] :=
  ⟨rfl, rfl, [], [], Or.inl ⟨rfl, rfl⟩, holds_nil rfl rfl⟩

/-- What holds of a unit pushed with the last of the accepted packets: its epoch counts the changes,
and it is cut from payloads of the present run. -/
def PushedWith (accepted : List (RtpPacket UInt8)) (nal : NalUnit) : Prop :=
  nal.streamEpoch = UInt32.ofNat (ssrcChanges accepted) ∧
    ∃ earlier run ps timestamp, EndsWithRun accepted earlier run ∧ ps.Subperm run ∧
      ∃ cut ∈ extractNalsAnnexb (payloads ps) timestamp,
        nal = { cut with streamEpoch := nal.streamEpoch }

namespace RtpReceiver

/-- After locking, the reassembler holds nothing from before the run of the packet. -/
theorem Follows.lock {r : RtpReceiver} (h : r.Follows accepted) (pkt : RtpPacket UInt8) :
    (r.lock pkt).lockedSsrc = some pkt.ssrc ∧
      (r.lock pkt).streamEpoch = UInt32.ofNat (ssrcChanges (accepted ++ [pkt])) ∧
      ∃ earlier run, EndsWithRun (accepted ++ [pkt]) earlier (run ++ [pkt]) ∧
        Holds run (r.lock pkt).reasm := by
  obtain ⟨earlier, run, hrun, hholds⟩ := h.holds
  have hlocked := h.locked
  rcases hrun with ⟨rfl, rfl⟩ | hrun
  · -- The first packet of all.
    have hnone : r.lockedSsrc = none := hlocked
    unfold lock
    rw [hnone]
    exact ⟨rfl, h.epoch, [], [], endsWithRun_singleton pkt, hholds⟩
  · obtain ⟨front, last, rfl⟩ : ∃ front last, accepted = front ++ [last] := by
      rcases List.eq_nil_or_concat accepted with rfl | hconcat
      · have hsplit := hrun.split
        exact absurd (List.append_eq_nil_iff.mp hsplit.symm).2 hrun.nonempty
      · obtain ⟨front, last, hconcat⟩ := hconcat
        exact ⟨front, last, by rw [hconcat, List.concat_eq_append]⟩
    have hlast : last ∈ (front ++ [last]).getLast? := by simp
    have hsome : r.lockedSsrc = some last.ssrc := by
      rw [hlocked, List.getLast?_concat]
      rfl
    have hcount : ssrcChanges (front ++ [last] ++ [pkt]) =
        ssrcChanges (front ++ [last]) + if last.ssrc = pkt.ssrc then 0 else 1 := by
      rw [List.append_assoc, List.singleton_append, ssrcChanges_append]
      rfl
    by_cases hsame : last.ssrc = pkt.ssrc
    · have hkeep : r.lock pkt = r := if_pos (by rw [hsome, hsame])
      rw [hkeep, hcount, if_pos hsame]
      refine ⟨by rw [hsome, hsame], h.epoch, earlier, run, hrun.extend hlast hsame, hholds⟩
    · unfold lock
      rw [if_neg (by rw [hsome]; exact fun heq ↦ hsame (Option.some.inj heq)), hsome, hcount,
        if_neg hsame]
      refine ⟨rfl, ?_, front ++ [last], [], endsWithRun_of_change hlast hsame, holds_nil rfl rfl⟩
      show r.streamEpoch + 1 = _
      rw [h.epoch, UInt32.ofNat_add]
      rfl

theorem Follows.handle {r : RtpReceiver} (h : r.Follows accepted) (pkt : RtpPacket UInt8) :
    (r.handle pkt).1.Follows (accepted ++ [pkt]) ∧
      ∀ nal ∈ (r.handle pkt).2, PushedWith (accepted ++ [pkt]) nal := by
  obtain ⟨hlocked, hepoch, earlier, run, hrun, hholds⟩ := h.lock pkt
  have hpush := push_holds extractNalsAnnexb hholds pkt
  refine ⟨⟨?_, hepoch, earlier, run ++ [pkt], Or.inr hrun, hpush.1⟩, ?_⟩
  · rw [List.getLast?_concat]
    exact hlocked
  · intro nal hnal
    obtain ⟨cut, hcut, rfl⟩ := List.mem_map.mp hnal
    obtain ⟨ps, timestamp, hps, hmem⟩ := hpush.2 cut hcut
    exact ⟨hepoch, earlier, run ++ [pkt], ps, timestamp, hrun, hps, cut, hmem, rfl⟩

end RtpReceiver

/-- The batches of a run, one for each accepted packet, each with the packets accepted by then. -/
theorem runWithConn_batches (expectSrcIp : Str) (turns : List Turn) {r : RtpReceiver}
    {before : List (RtpPacket UInt8)} (h : r.Follows before) :
    (runWithConn expectSrcIp r turns).2.1.length = (acceptedPackets expectSrcIp turns).length ∧
      ∀ k, ∀ batch ∈ (runWithConn expectSrcIp r turns).2.1[k]?, ∀ nal ∈ batch,
        PushedWith (before ++ (acceptedPackets expectSrcIp turns).take (k + 1)) nal := by
  induction turns generalizing r before with
  | nil => exact ⟨rfl, fun k batch hbatch ↦ absurd hbatch (by simp [runWithConn])⟩
  | cons turn turns ih =>
    cases turn with
    | stopped => exact ⟨rfl, fun k batch hbatch ↦ absurd hbatch (by simp [runWithConn])⟩
    | failed => exact ⟨rfl, fun k batch hbatch ↦ absurd hbatch (by simp [runWithConn])⟩
    | timedOut => exact ih h
    | received src datagram =>
      unfold runWithConn acceptedPackets
      cases hpacket : acceptedPacket expectSrcIp src datagram with
      | none => exact ih h
      | some pkt =>
        obtain ⟨hfollows, hpushed⟩ := h.handle pkt
        obtain ⟨hlength, hbatches⟩ := ih hfollows
        refine ⟨congrArg (· + 1) hlength, ?_⟩
        intro k batch hbatch nal hnal
        cases k with
        | zero =>
          obtain rfl := Option.some.inj hbatch
          exact hpushed nal hnal
        | succ k =>
          have hlater := hbatches k batch hbatch nal hnal
          rwa [List.append_assoc, List.singleton_append] at hlater

theorem ofNat_eq_ofNat_iff {a b : ℕ} (ha : a < 2 ^ 32) (hb : b < 2 ^ 32) :
    UInt32.ofNat a = UInt32.ofNat b ↔ a = b := by
  rw [← UInt32.toNat_inj, UInt32.toNat_ofNat', UInt32.toNat_ofNat', Nat.mod_eq_of_lt ha,
    Nat.mod_eq_of_lt hb]

/-- Between the packets `i` and `j` the count stands still exactly when they are of one SSRC. -/
theorem ssrcChanges_take_eq_iff (accepted : List (RtpPacket UInt8)) {i j : ℕ} (hij : i ≤ j)
    (hj : j < accepted.length) :
    ssrcChanges (accepted.take (i + 1)) = ssrcChanges (accepted.take (j + 1)) ↔
      ∀ p ∈ (accepted.take (j + 1)).drop i, ∀ q ∈ (accepted.take (j + 1)).drop i,
        p.ssrc = q.ssrc := by
  have hlt : i < (accepted.take (j + 1)).length := by
    rw [List.length_take]
    omega
  obtain ⟨p, rest, hrest⟩ : ∃ p rest, (accepted.take (j + 1)).drop i = p :: rest :=
    List.exists_cons_of_ne_nil (by rw [Ne, List.drop_eq_nil_iff]; omega)
  have hwhole : accepted.take (j + 1) = accepted.take i ++ p :: rest := by
    have hsplit := List.take_append_drop i (accepted.take (j + 1))
    rw [hrest, List.take_take, Nat.min_eq_left (by omega)] at hsplit
    exact hsplit.symm
  have hfirst : accepted.take (i + 1) = accepted.take i ++ [p] := by
    have htake : accepted.take (i + 1) = (accepted.take (j + 1)).take (i + 1) := by
      rw [List.take_take, Nat.min_eq_left (by omega)]
    have hlength : (accepted.take i).length = i := by
      rw [List.length_take]
      omega
    rw [htake, hwhole, List.take_append, hlength]
    simp [List.take_of_length_le (Nat.le_trans (Nat.le_of_eq hlength) (Nat.le_succ i))]
  have hcounts := ssrcChanges_append (accepted.take i) p rest
  rw [hrest, hfirst, hwhole, hcounts]
  constructor
  · intro hcount
    have hzero := (ssrcChanges_eq_zero_iff p rest).mp (by omega)
    have hall : ∀ q ∈ p :: rest, q.ssrc = p.ssrc := List.forall_mem_cons.mpr ⟨rfl, hzero⟩
    intro a ha b hb
    rw [hall a ha, hall b hb]
  · intro hall
    have hzero := (ssrcChanges_eq_zero_iff p rest).mpr fun q hq ↦
      hall q (List.mem_cons_of_mem p hq) p List.mem_cons_self
    omega

theorem ssrcChanges_take_le (accepted : List (RtpPacket UInt8)) {k : ℕ} (hk : k < accepted.length) :
    ssrcChanges (accepted.take (k + 1)) ≤ ssrcChanges accepted := by
  have hsplit : accepted = accepted.take k ++ accepted[k] :: accepted.drop (k + 1) := by
    rw [List.getElem_cons_drop, List.take_append_drop]
  have htake : accepted.take (k + 1) = accepted.take k ++ [accepted[k]] :=
    List.take_succ_eq_append_getElem hk
  calc ssrcChanges (accepted.take (k + 1)) = ssrcChanges (accepted.take k ++ [accepted[k]]) := by
        rw [htake]
    _ ≤ ssrcChanges (accepted.take k ++ accepted[k] :: accepted.drop (k + 1)) := by
        rw [ssrcChanges_append (accepted.take k) accepted[k] (accepted.drop (k + 1))]
        exact Nat.le_add_right _ _
    _ = ssrcChanges accepted := by rw [← hsplit]

/-- The units that a run of the receiver pushes, in one batch for each accepted packet. Each unit is
cut from the payloads of packets that came from the expected source, parse, and are of the run of
one SSRC that is going on when it is pushed; its epoch is the number of SSRC changes up to then.
Below `2^32` changes two units have the same epoch exactly when no change lies between them. -/
theorem runWithConn_pushes (expectSrcIp : Str) (turns : List Turn) :
    (∀ k, ∀ batch ∈ (runWithConn expectSrcIp .new turns).2.1[k]?, ∀ nal ∈ batch,
      nal.streamEpoch =
        UInt32.ofNat (ssrcChanges ((acceptedPackets expectSrcIp turns).take (k + 1))) ∧
      ∃ earlier run ps timestamp,
        EndsWithRun ((acceptedPackets expectSrcIp turns).take (k + 1)) earlier run ∧
        List.Subperm ps run ∧
        (∀ p ∈ ps, ∃ src datagram, .received src datagram ∈ turns ∧
          (expectSrcIp = [] ∨ src = expectSrcIp) ∧
          parseRtp (datagram.take RECV_BUF_LEN) = .ok p) ∧
        ∃ cut ∈ extractNalsAnnexb (List.flatMap RtpPacket.payload ps) timestamp,
          nal = { cut with streamEpoch := nal.streamEpoch }) ∧
    (ssrcChanges (acceptedPackets expectSrcIp turns) < 2 ^ 32 → ∀ i j, i ≤ j →
      ∀ first ∈ (runWithConn expectSrcIp .new turns).2.1[i]?,
      ∀ second ∈ (runWithConn expectSrcIp .new turns).2.1[j]?,
      ∀ u ∈ first, ∀ v ∈ second,
        (u.streamEpoch = v.streamEpoch ↔
          ∀ p ∈ ((acceptedPackets expectSrcIp turns).take (j + 1)).drop i,
          ∀ q ∈ ((acceptedPackets expectSrcIp turns).take (j + 1)).drop i, p.ssrc = q.ssrc)) := by
  obtain ⟨hlength, hbatches⟩ := runWithConn_batches expectSrcIp turns RtpReceiver.follows_new
  simp only [List.nil_append] at hbatches
  constructor
  · intro k batch hbatch nal hnal
    obtain ⟨hepoch, earlier, run, ps, timestamp, hrun, hps, hcut⟩ :=
      hbatches k batch hbatch nal hnal
    refine ⟨hepoch, earlier, run, ps, timestamp, hrun, hps, ?_, hcut⟩
    intro p hp
    apply exists_datagram_of_mem
    have hmem : p ∈ (acceptedPackets expectSrcIp turns).take (k + 1) := by
      rw [hrun.split]
      exact List.mem_append_right earlier (hps.subset hp)
    exact List.mem_of_mem_take hmem
  · intro hchanges i j hij first hfirst second hsecond u hu v hv
    have hj : j < (acceptedPackets expectSrcIp turns).length := by
      rw [← hlength]
      exact (List.getElem?_eq_some_iff.mp hsecond).1
    have hi := Nat.lt_of_le_of_lt hij hj
    rw [(hbatches i first hfirst u hu).1, (hbatches j second hsecond v hv).1,
      ofNat_eq_ofNat_iff (Nat.lt_of_le_of_lt (ssrcChanges_take_le _ hi) hchanges)
        (Nat.lt_of_le_of_lt (ssrcChanges_take_le _ hj) hchanges),
      ssrcChanges_take_eq_iff _ hij hj]

end DoorAccess.Video
