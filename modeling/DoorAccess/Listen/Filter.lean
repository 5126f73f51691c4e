import DoorAccess.Lib.Bpf
import DoorAccess.Codec

/-!
# The socket filters of the listeners

`BPF_6672` and `BPF_18022` as the words of `bpf.rs`, and what they accept as a condition on the
frame: an unfragmented IPv4 packet of the right protocol with the right port behind an IP header of
the length that it declares (`accepts_BPF_6672_iff`, `accepts_BPF_18022_iff`).
-/

set_option autoImplicit false
set_option relaxedAutoImplicit false

namespace DoorAccess.Listen

open Bpf

/-! ### The programs -/

/-- `ins`. -/
def ins (code : UInt16) (jt jf : UInt8) (k : UInt32) : SockFilter := ⟨code, jt, jf, k⟩

/-- The filter `udp dst port 6672`. -/
def BPF_6672 : List SockFilter := [
  ins 0x0028 0 0 0x0000000c,
  ins 0x0015 0 8 0x00000800,
  ins 0x0030 0 0 0x00000017,
  ins 0x0015 0 6 0x00000011,
  ins 0x0028 0 0 0x00000014,
  ins 0x0045 4 0 0x00003fff,
  ins 0x00b1 0 0 0x0000000e,
  ins 0x0048 0 0 0x00000010,
  ins 0x0015 0 1 0x00001a10,
  ins 0x0006 0 0 0x0000ffff,
  ins 0x0006 0 0 0x00000000]

/-- The filter `tcp port 18022`. -/
def BPF_18022 : List SockFilter := [
  ins 0x0028 0 0 0x0000000c,
  ins 0x0015 0 10 0x00000800,
  ins 0x0030 0 0 0x00000017,
  ins 0x0015 0 8 0x00000006,
  ins 0x0028 0 0 0x00000014,
  ins 0x0045 6 0 0x00003fff,
  ins 0x00b1 0 0 0x0000000e,
  ins 0x0048 0 0 0x0000000e,
  ins 0x0015 2 0 0x00004666,
  ins 0x0048 0 0 0x00000010,
  ins 0x0015 0 1 0x00004666,
  ins 0x0006 0 0 0x0000ffff,
  ins 0x0006 0 0 0x00000000]

/-! ### What they accept -/

/-- Where the header behind an IP header that begins with the byte `b` stands in the frame. -/
def transport (b : UInt8) : ℕ :=
  14 + 4 * (b &&& 0x0f).toNat

/-- The packet is not a fragment: it has neither an offset nor more fragments behind it. -/
def Unfragmented (frame : List UInt8) : Prop :=
  ∃ flags, half frame 20 = some flags ∧ flags &&& 0x3fff = 0

/-- The half word at an offset behind the IP header. -/
def PortAt (frame : List UInt8) (off port : ℕ) : Prop :=
  ∃ b, frame[14]? = some b ∧ half frame (transport b + off) = some port

section Filters

variable {frame : List UInt8}

theorem decode_BPF_6672 : BPF_6672.mapM SockFilter.decode = some [
    .ldAbs .half 12, .jump .eq 0x0800 0 8, .ldAbs .byte 23, .jump .eq 17 0 6, .ldAbs .half 20,
    .jump .set 0x3fff 4 0, .ldxMsh 14, .ldInd .half 16, .jump .eq 6672 0 1, .ret 0xffff,
    .ret 0] := by
  decide

theorem decode_BPF_18022 : BPF_18022.mapM SockFilter.decode = some [
    .ldAbs .half 12, .jump .eq 0x0800 0 10, .ldAbs .byte 23, .jump .eq 6 0 8, .ldAbs .half 20,
    .jump .set 0x3fff 6 0, .ldxMsh 14, .ldInd .half 14, .jump .eq 18022 2 0, .ldInd .half 16,
    .jump .eq 18022 0 1, .ret 0xffff, .ret 0] := by
  decide

/-- The common beginning of both programs, in front of a rest in which a skip of `drop` rejects: the
checks of the type, of the protocol and of the fragment bits, and the length of the IP header. -/
theorem accepts_prologue (proto : UInt8) (drop : ℕ) {rest : List Instr} {a x : ℕ}
    (hdrop : ∀ a x, ¬ Accepts frame rest drop a x) :
    Accepts frame (.ldAbs .half 12 :: .jump .eq 0x0800 0 (drop + 5) :: .ldAbs .byte 23 ::
        .jump .eq proto.toNat 0 (drop + 3) :: .ldAbs .half 20 :: .jump .set 0x3fff (drop + 1) 0 ::
        .ldxMsh 14 :: rest) 0 a x ↔
      half frame 12 = some 0x0800 ∧ frame[23]? = some proto ∧
        ∃ flags, half frame 20 = some flags ∧ flags &&& 0x3fff = 0 ∧
          ∃ b, frame[14]? = some b ∧ Accepts frame rest 0 flags (4 * (b &&& 0x0f).toNat) := by
  simp only [accepts_ldAbs, accepts_jump, accepts_ldxMsh, accepts_skip, hdrop, Test.holds, load,
    and_false, or_false, false_or, decide_eq_true_eq, decide_eq_false_iff_not, not_not,
    Option.map_eq_some_iff]
  constructor
  · rintro ⟨_, htype, rfl, _, ⟨c, hproto, rfl⟩, hc, hrest⟩
    rw [UInt8.toNat_inj] at hc
    exact ⟨htype, hc ▸ hproto, hrest⟩
  · rintro ⟨htype, hproto, hrest⟩
    exact ⟨_, htype, rfl, _, ⟨proto, hproto, rfl⟩, rfl, hrest⟩

/-- The offsets at which the ports are loaded do not overflow. -/
theorem load_source (b : UInt8) : (4 * (b &&& 0x0f).toNat + 14) % 2 ^ 32 = transport b := by
  have hb := (b &&& 0x0f).toNat_lt
  unfold transport
  omega

theorem load_destination (b : UInt8) :
    (4 * (b &&& 0x0f).toNat + 16) % 2 ^ 32 = transport b + 2 := by
  have hb := (b &&& 0x0f).toNat_lt
  unfold transport
  omega

/-- **The filter of port 6672.** It accepts an unfragmented UDP packet whose destination port is
there and is 6672. -/
theorem accepts_BPF_6672_iff : accepts BPF_6672 frame = true ↔
    half frame 12 = some 0x0800 ∧ frame[23]? = some 17 ∧ Unfragmented frame ∧
      PortAt frame 2 6672 := by
  rw [accepts_iff_of_decode decode_BPF_6672]
  refine (accepts_prologue 17 3 (by simp)).trans ?_
  have hport : ∀ flags b, Accepts frame [.ldInd .half 16, .jump .eq 6672 0 1, .ret 0xffff, .ret 0]
      0 flags (4 * (b &&& 0x0f).toNat) ↔ half frame (transport b + 2) = some 6672 := by
    intro flags b
    simp only [accepts_ldInd, load_destination, accepts_jump, accepts_skip, accepts_ret,
      Test.holds, load]
    simp
  simp only [hport]
  constructor
  · rintro ⟨htype, hproto, flags, hflags, hwhole, hthere⟩
    exact ⟨htype, hproto, ⟨flags, hflags, hwhole⟩, hthere⟩
  · rintro ⟨htype, hproto, ⟨flags, hflags, hwhole⟩, hthere⟩
    exact ⟨htype, hproto, flags, hflags, hwhole, hthere⟩

/-- **The filter of port 18022.** It accepts an unfragmented TCP packet of which one of the ports is
there and is 18022. -/
theorem accepts_BPF_18022_iff : accepts BPF_18022 frame = true ↔
    half frame 12 = some 0x0800 ∧ frame[23]? = some 6 ∧ Unfragmented frame ∧
      (PortAt frame 0 18022 ∨ PortAt frame 2 18022) := by
  rw [accepts_iff_of_decode decode_BPF_18022]
  refine (accepts_prologue 6 5 (by simp)).trans ?_
  have hport : ∀ flags b, Accepts frame [.ldInd .half 14, .jump .eq 18022 2 0, .ldInd .half 16,
      .jump .eq 18022 0 1, .ret 0xffff, .ret 0] 0 flags (4 * (b &&& 0x0f).toNat) ↔
        half frame (transport b) = some 18022 ∨ half frame (transport b + 2) = some 18022 := by
    intro flags b
    simp only [accepts_ldInd, load_source, load_destination, accepts_jump, accepts_skip,
      accepts_ret, Test.holds, load]
    constructor
    · rintro ⟨source, hsource, ⟨heq, -⟩ | ⟨-, destination, hdestination, hend⟩⟩
      · rw [decide_eq_true_eq] at heq
        exact Or.inl (heq ▸ hsource)
      · have heq : destination = 18022 := by simpa using hend
        exact Or.inr (heq ▸ hdestination)
    · rintro (hsource | hdestination)
      · exact ⟨18022, hsource, Or.inl ⟨rfl, by decide⟩⟩
      · -- The source port, which is loaded first, is there because the destination port is.
        have hlength := (half_eq_some_iff.mp hdestination).1
        refine ⟨_, half_of_lt (by omega), ?_⟩
        by_cases heq : 256 * (frame.getD (transport b) 0).toNat +
            (frame.getD (transport b + 1) 0).toNat = 18022
        · exact Or.inl ⟨decide_eq_true heq, by decide⟩
        · exact Or.inr ⟨decide_eq_false heq, 18022, hdestination, Or.inl ⟨rfl, by decide⟩⟩
  simp only [hport]
  constructor
  · rintro ⟨htype, hproto, flags, hflags, hwhole, b, hb, hsource | hdestination⟩
    · exact ⟨htype, hproto, ⟨flags, hflags, hwhole⟩, Or.inl ⟨b, hb, hsource⟩⟩
    · exact ⟨htype, hproto, ⟨flags, hflags, hwhole⟩, Or.inr ⟨b, hb, hdestination⟩⟩
  · rintro ⟨htype, hproto, ⟨flags, hflags, hwhole⟩, ⟨b, hb, hsource⟩ | ⟨b, hb, hdestination⟩⟩
    · exact ⟨htype, hproto, flags, hflags, hwhole, b, hb, Or.inl hsource⟩
    · exact ⟨htype, hproto, flags, hflags, hwhole, b, hb, Or.inr hdestination⟩

end Filters

end DoorAccess.Listen
