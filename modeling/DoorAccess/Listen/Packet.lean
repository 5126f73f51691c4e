import DoorAccess.Lib.Records
import DoorAccess.Listen.Dedup
import DoorAccess.Listen.Extract

/-!
# From a packet on the wire to a capture

What another device sends to or from port 18022 is a payload behind the headers of TCP, IPv4 and
Ethernet, each of the first two with options of any length that they may have. `Packet` is such a
packet, `captureOf` is what `run_slave` makes of the bytes of a frame: the filter of the socket, the
buffer of 1514 bytes and `extract_tcp_payload`. An unfragmented packet that fits into the buffer is
captured with its addresses, its ports and its payload (`captureOf_bytes`).
-/

set_option autoImplicit false
set_option relaxedAutoImplicit false

namespace DoorAccess.Listen

open Bpf Records

/-- The buffer of `run_slave`: an Ethernet header and the largest packet. -/
def BUFFER_SIZE : ℕ := 1514

/-- What `run_slave` hands to `dispatch_with_dedup` at the time `nowMs` for a frame on the wire. -/
def captureOf (nowMs : ℕ) (frame : List UInt8) : Option Listen18022.Capture :=
  if accepts BPF_18022 frame then
    (extractTcpPayload (frame.take BUFFER_SIZE)).map
      fun (payload, srcIp, dstIp, srcPort, dstPort) ↦
        ⟨nowMs, srcIp, dstIp, srcPort, dstPort, payload⟩
  else none

/-! ### Packets -/

/-- The options of a header, in words. -/
structure Options where
  bytes : List UInt8
  words : ℕ
  length_eq : bytes.length = 4 * words
  words_le : words ≤ 10

/-- An unfragmented TCP packet in an Ethernet frame. What the listeners do not look at are the
fields that only have a name here. -/
structure Packet where
  macs : List UInt8
  macs_length : macs.length = 12
  service : UInt8
  totalLength : UInt16
  identification : UInt16
  dontFragment : Bool
  ttl : UInt8
  ipChecksum : UInt16
  srcIp : Octets
  dstIp : Octets
  ipOptions : Options
  srcPort : UInt16
  dstPort : UInt16
  sequence : UInt32
  acknowledgement : UInt32
  flags : UInt8
  window : UInt16
  tcpChecksum : UInt16
  urgent : UInt16
  tcpOptions : Options
  payload : List UInt8

namespace Packet

def tcp (p : Packet) : List UInt8 :=
  toBeBytes16 p.srcPort ++ (toBeBytes16 p.dstPort ++ (toBeBytes32 p.sequence ++
    (toBeBytes32 p.acknowledgement ++ ([UInt8.ofNat (16 * (5 + p.tcpOptions.words)), p.flags] ++
      (toBeBytes16 p.window ++ (toBeBytes16 p.tcpChecksum ++ (toBeBytes16 p.urgent ++
        (p.tcpOptions.bytes ++ p.payload))))))))

def ip (p : Packet) : List UInt8 :=
  [UInt8.ofNat (64 + (5 + p.ipOptions.words)), p.service] ++ (toBeBytes16 p.totalLength ++
    (toBeBytes16 p.identification ++ ([if p.dontFragment then 0x40 else 0, 0, p.ttl, 6] ++
      (toBeBytes16 p.ipChecksum ++ (p.srcIp.toList ++ (p.dstIp.toList ++
        (p.ipOptions.bytes ++ p.tcp)))))))

def bytes (p : Packet) : List UInt8 :=
  p.macs ++ (toBeBytes16 0x0800 ++ p.ip)

/-! ### Where the fields stand -/

theorem be16_append {n : UInt16} {rest : List UInt8} : be16 (toBeBytes16 n ++ rest) 0 = n := by
  rw [← UInt16.toNat_inj, be16_toNat]
  have hvalue := value_toBeBytes16 n
  simpa [value, toBeBytes16] using hvalue

theorem octets_append {ip : Octets} {rest : List UInt8} :
    octets (ip.toList ++ rest) 0 = ip := by
  rw [octets_toList]
  exact octets_eta ip

theorem getD_drop (s : List UInt8) (i j : ℕ) : (s.drop i).getD j 0 = s.getD (i + j) 0 := by
  simp [List.getD_eq_getElem?_getD]

theorem octets_drop (s : List UInt8) (i j : ℕ) : octets (s.drop i) j = octets s (i + j) := by
  simp only [octets, getD_drop, Nat.add_assoc]

variable (p : Packet)

theorem ipHdr_bytes : ipHdr p.bytes = p.ip := by
  have hlength : (p.macs ++ toBeBytes16 0x0800).length = 14 := by
    rw [List.length_append, p.macs_length]
    rfl
  rw [ipHdr, bytes, ← List.append_assoc, List.drop_left' hlength]

theorem ihl_bytes : ihl p.bytes = 20 + 4 * p.ipOptions.words := by
  have hwords := p.ipOptions.words_le
  have hbyte : (ipHdr p.bytes).getD 0 0 = UInt8.ofNat (64 + (5 + p.ipOptions.words)) := by
    rw [ipHdr_bytes]
    rfl
  have hall : ∀ words ≤ 10, (UInt8.ofNat (64 + (5 + words)) &&& 0x0f).toNat = 5 + words := by
    decide
  rw [ihl, hbyte, hall _ hwords]
  omega

theorem drop_ip : p.ip.drop (20 + 4 * p.ipOptions.words) = p.tcp := by
  have hlength : ([UInt8.ofNat (64 + (5 + p.ipOptions.words)), p.service] ++
      (toBeBytes16 p.totalLength ++ (toBeBytes16 p.identification ++
        ([if p.dontFragment then 0x40 else 0, 0, p.ttl, 6] ++ (toBeBytes16 p.ipChecksum ++
          (p.srcIp.toList ++ (p.dstIp.toList ++ p.ipOptions.bytes))))))).length =
      20 + 4 * p.ipOptions.words := by
    simp [toBeBytes16, p.ipOptions.length_eq]
    omega
  rw [ip]
  refine Eq.trans ?_ (List.drop_left' hlength)
  simp only [List.append_assoc]

theorem transportHdr_bytes : transportHdr p.bytes = p.tcp := by
  rw [transportHdr, ihl_bytes, ipHdr_bytes, drop_ip]

theorem length_tcp :
    p.tcp.length = 20 + 4 * p.tcpOptions.words + p.payload.length := by
  simp [tcp, toBeBytes16, toBeBytes32, p.tcpOptions.length_eq]
  omega

theorem length_ip : p.ip.length = 20 + 4 * p.ipOptions.words + p.tcp.length := by
  have hdrop := congrArg List.length (drop_ip p)
  have hfixed : 20 + 4 * p.ipOptions.words ≤ p.ip.length := by
    simp [ip, toBeBytes16, p.ipOptions.length_eq]
    omega
  rw [List.length_drop] at hdrop
  omega

theorem length_bytes : p.bytes.length = 14 + p.ip.length := by
  rw [bytes, List.length_append, List.length_append, p.macs_length]
  exact (Nat.add_assoc 12 2 p.ip.length).symm

theorem drop_tcp : p.tcp.drop (20 + 4 * p.tcpOptions.words) = p.payload := by
  have hlength : (toBeBytes16 p.srcPort ++ (toBeBytes16 p.dstPort ++ (toBeBytes32 p.sequence ++
      (toBeBytes32 p.acknowledgement ++ ([UInt8.ofNat (16 * (5 + p.tcpOptions.words)), p.flags] ++
        (toBeBytes16 p.window ++ (toBeBytes16 p.tcpChecksum ++ (toBeBytes16 p.urgent ++
          p.tcpOptions.bytes)))))))).length = 20 + 4 * p.tcpOptions.words := by
    simp [toBeBytes16, toBeBytes32, p.tcpOptions.length_eq]
    omega
  rw [tcp]
  refine Eq.trans ?_ (List.drop_left' hlength)
  simp only [List.append_assoc]

theorem dataOff_tcp : (p.tcp.getD 12 0 >>> 4).toNat * 4 = 20 + 4 * p.tcpOptions.words := by
  have hbyte : p.tcp.getD 12 0 = UInt8.ofNat (16 * (5 + p.tcpOptions.words)) := rfl
  have hall : ∀ words ≤ 10, (UInt8.ofNat (16 * (5 + words)) >>> 4).toNat = 5 + words := by decide
  rw [hbyte, hall _ p.tcpOptions.words_le]
  omega

theorem octets_srcIp : octets p.ip 12 = p.srcIp := by
  rw [← Nat.add_zero 12, ← octets_drop]
  exact octets_append

theorem octets_dstIp : octets p.ip 16 = p.dstIp := by
  have hdrop : p.ip.drop 16 = p.dstIp.toList ++ (p.ipOptions.bytes ++ p.tcp) := by
    show (p.srcIp.toList ++ (p.dstIp.toList ++ (p.ipOptions.bytes ++ p.tcp))).drop 4 = _
    rw [octets_toList]
    rfl
  rw [← Nat.add_zero 16, ← octets_drop, hdrop]
  exact octets_append

/-- A packet is taken apart into what it was made of. -/
theorem extractTcpPayload_bytes : extractTcpPayload p.bytes =
    some (p.payload, p.srcIp, p.dstIp, p.srcPort, p.dstPort) := by
  have htcp := length_tcp p
  have hip := length_ip p
  have hbytes := length_bytes p
  have htype : be16 p.bytes 12 = 0x0800 := by
    have hdrop : p.bytes.drop 12 = toBeBytes16 0x0800 ++ p.ip := List.drop_left' p.macs_length
    rw [← Nat.add_zero 12, ← drop_be16, hdrop]
    exact be16_append
  have hdst : be16 p.tcp 2 = p.dstPort := by
    rw [← Nat.add_zero 2, ← drop_be16]
    exact be16_append
  rw [extractTcpPayload, if_neg (by omega), if_neg (by rw [htype, not_not]),
    if_neg (by rw [ihl_bytes, ipHdr_bytes]; omega),
    if_neg (by rw [ipHdr_bytes, not_not]; rfl), transportHdr_bytes, ipHdr_bytes]
  simp only [dataOff_tcp]
  rw [if_neg (by omega), drop_tcp, octets_srcIp, octets_dstIp, hdst]
  rw [show be16 p.tcp 0 = p.srcPort from be16_append]

theorem unfragmented_bytes : Unfragmented p.bytes := by
  have hip := length_ip p
  have hbytes := length_bytes p
  have hflags : (be16 p.bytes 20).toNat = if p.dontFragment then 0x4000 else 0 := by
    have hdrop : p.bytes.drop 14 = p.ip := ipHdr_bytes p
    rw [show (20 : ℕ) = 14 + 6 from rfl, ← drop_be16, hdrop, be16_toNat]
    show 256 * (if p.dontFragment then (0x40 : UInt8) else 0).toNat + (0 : UInt8).toNat = _
    cases p.dontFragment <;> rfl
  refine ⟨_, half_eq_be16 (by omega), ?_⟩
  rw [hflags]
  cases p.dontFragment <;> decide

/-- A packet of port 18022 that fits into the buffer is captured as what it was made of. -/
theorem captureOf_bytes (hport : p.srcPort = 18022 ∨ p.dstPort = 18022)
    (hlength : p.bytes.length ≤ BUFFER_SIZE) (nowMs : ℕ) : captureOf nowMs p.bytes =
      some ⟨nowMs, p.srcIp, p.dstIp, p.srcPort, p.dstPort, p.payload⟩ := by
  have hextract := extractTcpPayload_bytes p
  obtain ⟨hchecked, hsrc, hdst, -⟩ := extractTcpPayload_spec hextract
  have haccepts : accepts BPF_18022 p.bytes = true := by
    refine accepts_BPF_18022_iff.mpr
      ⟨hchecked.type, hchecked.proto, unfragmented_bytes p, hport.imp (fun h ↦ ?_) fun h ↦ ?_⟩
    · exact hchecked.portAt (by decide) (hsrc.symm.trans h)
    · exact hchecked.portAt (by decide) (hdst.symm.trans h)
  rw [captureOf, if_pos haccepts, List.take_of_length_le hlength, hextract]
  rfl

end Packet

end DoorAccess.Listen
