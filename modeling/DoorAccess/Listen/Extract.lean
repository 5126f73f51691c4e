import DoorAccess.Listen.Filter

/-!
# The payload of a captured frame

`extract_udp_payload` and `extract_tcp_payload` check the same fields as the socket filters, and
more lengths. `filters_match_extractors` puts the two side by side: what the extractor takes apart,
on an unfragmented packet with the right port, the filter has let through, and both read the
transport header at the same place.
-/

set_option autoImplicit false
set_option relaxedAutoImplicit false

namespace DoorAccess.Listen

open Bpf

/-! ### The extractors -/

/-- `u16::from_be_bytes` of two bytes in a row. -/
def be16 (s : List UInt8) (i : ℕ) : UInt16 :=
  UInt16.ofNat (256 * (s.getD i 0).toNat + (s.getD (i + 1) 0).toNat)

/-- Four bytes in a row, an IPv4 address. -/
def octets (s : List UInt8) (i : ℕ) : Octets :=
  #v[s.getD i 0, s.getD (i + 1) 0, s.getD (i + 2) 0, s.getD (i + 3) 0]

/-- `ip_hdr`: what follows the Ethernet header. -/
def ipHdr (frame : List UInt8) : List UInt8 :=
  frame.drop 14

/-- `ihl`: the declared length of the IP header. -/
def ihl (frame : List UInt8) : ℕ :=
  ((ipHdr frame).getD 0 0 &&& 0x0f).toNat * 4

/-- `udp_hdr` and `tcp_hdr`: what follows the IP header. -/
def transportHdr (frame : List UInt8) : List UInt8 :=
  (ipHdr frame).drop (ihl frame)

/-- `extract_udp_payload`. Every byte is read behind the check of the length that makes it safe. -/
def extractUdpPayload (frame : List UInt8) : Option (List UInt8 × Octets × UInt16) :=
  if frame.length < 14 + 20 + 8 then none
  else if be16 frame 12 ≠ 0x0800 then none
  else if ihl frame < 20 ∨ (ipHdr frame).length < ihl frame + 8 then none
  else if (ipHdr frame).getD 9 0 ≠ 17 then none
  else
    let udpHdr := transportHdr frame
    let udpLen := (be16 udpHdr 4).toNat
    if udpLen < 8 ∨ udpHdr.length < udpLen then none
    else some ((udpHdr.take udpLen).drop 8, octets (ipHdr frame) 12, be16 udpHdr 0)

/-- `extract_tcp_payload`. -/
def extractTcpPayload (frame : List UInt8) :
    Option (List UInt8 × Octets × Octets × UInt16 × UInt16) :=
  if frame.length < 14 + 20 + 20 then none
  else if be16 frame 12 ≠ 0x0800 then none
  else if ihl frame < 20 ∨ (ipHdr frame).length < ihl frame + 20 then none
  else if (ipHdr frame).getD 9 0 ≠ 6 then none
  else
    let tcpHdr := transportHdr frame
    let dataOff := (tcpHdr.getD 12 0 >>> 4).toNat * 4
    if dataOff < 20 ∨ tcpHdr.length < dataOff then none
    else some (tcpHdr.drop dataOff, octets (ipHdr frame) 12, octets (ipHdr frame) 16,
      be16 tcpHdr 0, be16 tcpHdr 2)

/-! ### Where they read -/

section Offsets

variable {frame : List UInt8} {i : ℕ}

theorem be16_toNat (s : List UInt8) (i : ℕ) :
    (be16 s i).toNat = 256 * (s.getD i 0).toNat + (s.getD (i + 1) 0).toNat := by
  have hhi := (s.getD i 0).toNat_lt
  have hlo := (s.getD (i + 1) 0).toNat_lt
  rw [be16, UInt16.toNat_ofNat', Nat.mod_eq_of_lt (by omega)]

theorem half_eq_be16 (h : i + 1 < frame.length) : half frame i = some (be16 frame i).toNat := by
  rw [half_of_lt h, be16_toNat]

theorem ipHdr_getD (i : ℕ) : (ipHdr frame).getD i 0 = frame.getD (14 + i) 0 := by
  simp [ipHdr, List.getD_eq_getElem?_getD]

theorem drop_be16 (k i : ℕ) : be16 (frame.drop k) i = be16 frame (k + i) := by
  simp [be16, List.getD_eq_getElem?_getD, Nat.add_assoc]

theorem getElem?_of_getD {b : UInt8} (h : i < frame.length) (hb : frame.getD i 0 = b) :
    frame[i]? = some b := by
  rw [List.getElem?_eq_getElem h, ← hb, List.getD_eq_getElem?_getD, List.getElem?_eq_getElem h]
  rfl

/-- The IP header ends where the filters look for the ports. -/
theorem transport_eq (frame : List UInt8) : transport (frame.getD 14 0) = 14 + ihl frame := by
  rw [transport, ihl, ipHdr_getD, Nat.mul_comm]

theorem transportHdr_eq (frame : List UInt8) :
    transportHdr frame = frame.drop (transport (frame.getD 14 0)) := by
  rw [transportHdr, ipHdr, List.drop_drop, transport_eq]

end Offsets

/-! ### What they check -/

/-- What both extractors have checked of a frame when they come to the transport header, which has
at least `least` bytes. -/
structure Checked (frame : List UInt8) (proto : UInt8) (least : ℕ) : Prop where
  type : half frame 12 = some 0x0800
  version : frame[14]? = some (frame.getD 14 0)
  proto : frame[23]? = some proto
  whole : transport (frame.getD 14 0) + least ≤ frame.length

section Checked

variable {frame payload : List UInt8} {proto : UInt8} {least : ℕ} {srcIp dstIp : Octets}
  {srcPort dstPort : UInt16}

theorem checked_of_guards (hlength : ¬ frame.length < 14 + 20 + least)
    (htype : ¬ be16 frame 12 ≠ 0x0800)
    (hihl : ¬ (ihl frame < 20 ∨ (ipHdr frame).length < ihl frame + least))
    (hproto : ¬ (ipHdr frame).getD 9 0 ≠ proto) : Checked frame proto least where
  type := by
    rw [not_not] at htype
    rw [half_eq_be16 (by omega), htype]
    rfl
  version := getElem?_of_getD (by omega) rfl
  proto := by
    rw [not_not, ipHdr_getD] at hproto
    exact getElem?_of_getD (by omega) hproto
  whole := by
    rw [ipHdr, List.length_drop] at hihl
    rw [transport_eq]
    omega

/-- A half word of the transport header. -/
theorem Checked.half_at (h : Checked frame proto least) {i : ℕ} (hi : i + 2 ≤ least) :
    half frame (transport (frame.getD 14 0) + i) = some (be16 (transportHdr frame) i).toNat := by
  have hwhole := h.whole
  rw [transportHdr_eq, drop_be16, half_eq_be16 (by omega)]

theorem extractUdpPayload_spec (h : extractUdpPayload frame = some (payload, srcIp, srcPort)) :
    Checked frame 17 8 ∧ srcPort = be16 (transportHdr frame) 0 ∧
      payload = ((transportHdr frame).take (be16 (transportHdr frame) 4).toNat).drop 8 := by
  unfold extractUdpPayload at h
  split_ifs at h with hlength htype hihl hproto
  simp only at h
  split_ifs at h
  obtain ⟨rfl, -, rfl⟩ : _ = payload ∧ _ = srcIp ∧ _ = srcPort := by simpa using h
  exact ⟨checked_of_guards hlength htype hihl hproto, rfl, rfl⟩

theorem extractTcpPayload_spec
    (h : extractTcpPayload frame = some (payload, srcIp, dstIp, srcPort, dstPort)) :
    Checked frame 6 20 ∧ srcPort = be16 (transportHdr frame) 0 ∧
      dstPort = be16 (transportHdr frame) 2 ∧
      payload = (transportHdr frame).drop (((transportHdr frame).getD 12 0 >>> 4).toNat * 4) := by
  unfold extractTcpPayload at h
  split_ifs at h with hlength htype hihl hproto
  simp only at h
  split_ifs at h
  obtain ⟨rfl, -, -, rfl, rfl⟩ :
      _ = payload ∧ _ = srcIp ∧ _ = dstIp ∧ _ = srcPort ∧ _ = dstPort := by simpa using h
  exact ⟨checked_of_guards hlength htype hihl hproto, rfl, rfl, rfl⟩

/-- The port that both read. -/
theorem Checked.portAt (h : Checked frame proto least) {i : ℕ} {port : UInt16}
    (hi : i + 2 ≤ least) (hport : be16 (transportHdr frame) i = port) :
    PortAt frame i port.toNat := by
  refine ⟨frame.getD 14 0, h.version, ?_⟩
  rw [h.half_at hi, hport]

/-- The filter found the port where the extractor reads it. -/
theorem Checked.port_eq (h : Checked frame proto least) {i port : ℕ} (hi : i + 2 ≤ least)
    (hport : PortAt frame i port) : (be16 (transportHdr frame) i).toNat = port := by
  obtain ⟨b, hb, hhalf⟩ := hport
  rw [h.version, Option.some.injEq] at hb
  rw [← hb, h.half_at hi, Option.some.injEq] at hhalf
  exact hhalf

end Checked

/-! ### Filters and extractors -/

/-- **The filters and the extractors agree.** For every frame: the two filters accept exactly the
unfragmented packets of their protocol with the port behind the IP header. A frame that an extractor
takes apart is accepted if it is unfragmented and has the port. And where both succeed, the ports
and the payload that the extractor returns come from the header at the offset at which the filter
has tested the ports. -/
theorem filters_match_extractors (frame : List UInt8) :
    (accepts BPF_6672 frame = true ↔ half frame 12 = some 0x0800 ∧ frame[23]? = some 17 ∧
      Unfragmented frame ∧ PortAt frame 2 6672) ∧
    (accepts BPF_18022 frame = true ↔ half frame 12 = some 0x0800 ∧ frame[23]? = some 6 ∧
      Unfragmented frame ∧ (PortAt frame 0 18022 ∨ PortAt frame 2 18022)) ∧
    (∀ payload srcIp srcPort, extractUdpPayload frame = some (payload, srcIp, srcPort) →
      (Unfragmented frame → be16 (transportHdr frame) 2 = 6672 →
        accepts BPF_6672 frame = true) ∧
      (accepts BPF_6672 frame = true → ∃ b udpLen, frame[14]? = some b ∧
        half frame (transport b) = some srcPort.toNat ∧
        half frame (transport b + 2) = some 6672 ∧ half frame (transport b + 4) = some udpLen ∧
        payload = ((frame.drop (transport b)).take udpLen).drop 8)) ∧
    ∀ payload srcIp dstIp srcPort dstPort,
      extractTcpPayload frame = some (payload, srcIp, dstIp, srcPort, dstPort) →
      (Unfragmented frame → srcPort = 18022 ∨ dstPort = 18022 →
        accepts BPF_18022 frame = true) ∧
      (accepts BPF_18022 frame = true → ∃ b c, frame[14]? = some b ∧
        half frame (transport b) = some srcPort.toNat ∧
        half frame (transport b + 2) = some dstPort.toNat ∧
        (srcPort = 18022 ∨ dstPort = 18022) ∧ frame[transport b + 12]? = some c ∧
        payload = (frame.drop (transport b)).drop ((c >>> 4).toNat * 4)) := by
  refine ⟨accepts_BPF_6672_iff, accepts_BPF_18022_iff, ?_, ?_⟩
  · intro payload srcIp srcPort hextract
    obtain ⟨hchecked, rfl, rfl⟩ := extractUdpPayload_spec hextract
    refine ⟨?_, ?_⟩
    · intro hwhole hport
      exact accepts_BPF_6672_iff.mpr ⟨hchecked.type, hchecked.proto, hwhole,
        hchecked.portAt (by decide) hport⟩
    · intro haccepts
      obtain ⟨-, -, -, hport⟩ := accepts_BPF_6672_iff.mp haccepts
      refine ⟨frame.getD 14 0, _, hchecked.version, hchecked.half_at (i := 0) (by decide), ?_,
        hchecked.half_at (i := 4) (by decide), ?_⟩
      · rw [hchecked.half_at (by decide), hchecked.port_eq (by decide) hport]
      · rw [← transportHdr_eq]
  · intro payload srcIp dstIp srcPort dstPort hextract
    obtain ⟨hchecked, rfl, rfl, rfl⟩ := extractTcpPayload_spec hextract
    refine ⟨?_, ?_⟩
    · rintro hwhole (hport | hport)
      · exact accepts_BPF_18022_iff.mpr ⟨hchecked.type, hchecked.proto, hwhole,
          Or.inl (hchecked.portAt (by decide) hport)⟩
      · exact accepts_BPF_18022_iff.mpr ⟨hchecked.type, hchecked.proto, hwhole,
          Or.inr (hchecked.portAt (by decide) hport)⟩
    · intro haccepts
      obtain ⟨-, -, -, hport⟩ := accepts_BPF_18022_iff.mp haccepts
      have hwhole := hchecked.whole
      refine ⟨frame.getD 14 0, frame.getD (transport (frame.getD 14 0) + 12) 0, hchecked.version,
        hchecked.half_at (i := 0) (by decide), hchecked.half_at (by decide), ?_,
        getElem?_of_getD (by omega) rfl, ?_⟩
      · rcases hport with hsource | hdestination
        · exact Or.inl (UInt16.toNat_inj.mp (hchecked.port_eq (by decide) hsource))
        · exact Or.inr (UInt16.toNat_inj.mp (hchecked.port_eq (by decide) hdestination))
      · rw [← transportHdr_eq, transportHdr_eq frame]
        simp [List.getD_eq_getElem?_getD]

/-- A UDP packet of one byte to port 6672, which must not be fragmented. -/
def oneByte : List UInt8 :=
  [1, 0, 0x5e, 0, 0, 1, 2, 0, 0, 0, 0, 1, 0x08, 0x00] ++
    [0x45, 0, 0, 29, 0, 0, 0x40, 0, 64, 17, 0, 0, 10, 0, 0, 1, 10, 0, 0, 2] ++
    [0x1a, 0x10, 0x1a, 0x10, 0, 9, 0, 0, 0xaa]

theorem filters_match_extractors_oneByte :
    extractUdpPayload oneByte = some ([0xaa], #v[10, 0, 0, 1], 6672) ∧
      accepts BPF_6672 oneByte = true := by
  have hextract : extractUdpPayload oneByte = some ([0xaa], #v[10, 0, 0, 1], 6672) := by decide
  refine ⟨hextract, ?_⟩
  obtain ⟨-, -, hudp, -⟩ := filters_match_extractors oneByte
  exact (hudp _ _ _ hextract).1 ⟨0x4000, by decide, by decide⟩ (by decide)

end DoorAccess.Listen
