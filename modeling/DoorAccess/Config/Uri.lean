import DoorAccess.Config.Ipv4
import Mathlib.Data.List.Basic

/-!
# The two readers of a SIP URI

`validate_uri` scans a URI when the configuration is loaded, byte by byte and with 32-bit counters;
`parse_uri` takes it apart with the standard library wherever it is used. They are written
independently of each other. `parseUri_of_scanUri` says that what passes the first is read by the
second, with the same name, address and port, and `scanUri_ne_overflow` that no counter overflows.
-/

set_option autoImplicit false
set_option relaxedAutoImplicit false

namespace DoorAccess.Config

open Codec

/-! ### The validator -/

/-- The texts of the errors of `validate_uri`, with what they quote. -/
inductive UriReject
  | missingAt
  | nameLength (name : Str)
  /-- The character is named by its first byte. -/
  | nameHex (name : Str) (byte : UInt8)
  | missingPort
  | notIpv4 (ip : Str)
  | fourOctets (ip : Str)
  | portNotNumeric (port : Str)
  | portRange (port : Str)
  /-- A sum that no `u32` holds: no text of the source, but what a build with overflow checks would
  stop at. -/
  | overflow
  deriving DecidableEq

/-- `char::is_ascii_hexdigit`. -/
def isAsciiHexdigit (c : UInt8) : Bool :=
  isDigit c || (97 ≤ c && c ≤ 102) || (65 ≤ c && c ≤ 70)

/-- `cur * 10 + (c - b'0') as u32`, if a `u32` holds it. -/
def accumulate (cur : ℕ) (c : UInt8) : Option ℕ :=
  if cur * 10 + (c.toNat - 48) < 4294967296 then some (cur * 10 + (c.toNat - 48)) else none

/-- The locals of the loop over the address. -/
structure OctetScan where
  parts : ℕ
  cur : ℕ
  octetLen : ℕ
  leadingZero : Bool
  deriving DecidableEq

/-- The state at the beginning of an octet. -/
def OctetScan.fresh (parts : ℕ) : OctetScan where
  parts := parts
  cur := 0
  octetLen := 0
  leadingZero := false

/-- The check at the end of an octet. -/
def OctetScan.bad (s : OctetScan) : Prop :=
  s.octetLen = 0 ∨ 255 < s.cur ∨ s.leadingZero = true

instance (s : OctetScan) : Decidable s.bad :=
  inferInstanceAs (Decidable (_ ∨ _))

/-- One turn of the loop over the address. -/
def octetStep (ip : Str) (s : OctetScan) (c : UInt8) : Except UriReject OctetScan :=
  if c = 46 then
    if s.bad then .error (.notIpv4 ip) else .ok (.fresh (s.parts + 1))
  else if ¬isDigit c then .error (.notIpv4 ip)
  else
    let leadingZero := s.leadingZero || (s.octetLen == 1 && s.cur == 0)
    match accumulate s.cur c with
    | none => .error .overflow
    | some cur =>
      if 255 < cur then .error (.notIpv4 ip)
      else .ok { s with cur, octetLen := s.octetLen + 1, leadingZero }

/-- The part of `validate_uri` about the address. -/
def scanIp (ip : Str) : Except UriReject Unit := do
  let s ← ip.foldlM (octetStep ip) (.fresh 0)
  if s.bad then .error (.notIpv4 ip)
  else if s.parts ≠ 3 then .error (.fourOctets ip)
  else .ok ()

/-- One turn of the loop over the port. -/
def portStep (portStr : Str) (port : ℕ) (c : UInt8) : Except UriReject ℕ :=
  if ¬isDigit c then .error (.portNotNumeric portStr)
  else
    match accumulate port c with
    | none => .error .overflow
    | some port => if 65535 < port then .error (.portRange portStr) else .ok port

/-- The part of `validate_uri` about the port. -/
def scanPort (portStr : Str) : Except UriReject ℕ := do
  let port ← portStr.foldlM (portStep portStr) 0
  if port < 1 then .error (.portRange portStr) else .ok port

/-- `validate_uri`, with the name, the address and the port as it has scanned them. -/
def scanUri (uri : Str) : Except UriReject (Str × Str × ℕ) :=
  match uri.idxOf? 64 with
  | none => .error .missingAt
  | some at_ =>
    if at_ = 0 ∨ at_ = uri.length - 1 then .error .missingAt
    else
      let name := uri.take at_
      let ipPort := uri.drop (at_ + 1)
      if name.length ≠ 8 then .error (.nameLength name)
      else match name.find? fun c ↦ !isAsciiHexdigit c with
        | some c => .error (.nameHex name c)
        | none =>
          match rfind 58 ipPort with
          | none => .error .missingPort
          | some colon =>
            if colon = 0 ∨ colon = ipPort.length - 1 then .error .missingPort
            else do
              let ip := ipPort.take colon
              let portStr := ipPort.drop (colon + 1)
              scanIp ip
              let port ← scanPort portStr
              return (name, ip, port)

def validateUri (uri : Str) : Except UriReject Unit := do
  let _ ← scanUri uri
  return ()

/-! ### The loop over the address -/

theorem digitsValue_le_concat (s : Str) (c : UInt8) : digitsValue s ≤ digitsValue (s ++ [c]) := by
  rw [digitsValue_concat]
  omega

theorem accumulate_of_le {cur : ℕ} (hcur : cur ≤ 65535) (c : UInt8) :
    accumulate cur c = some (cur * 10 + (c.toNat - 48)) := by
  have hc := c.toNat_lt
  rw [accumulate, if_pos (by omega)]

/-- What the digits of one octet leave behind. -/
def OctetScan.after (parts : ℕ) (p : Str) : OctetScan where
  parts := parts
  cur := digitsValue p
  octetLen := p.length
  leadingZero := decide (2 ≤ p.length ∧ p.head? = some 48)

theorem digitsValue_singleton (c : UInt8) : digitsValue [c] = c.toNat - 48 :=
  Nat.zero_add _

/-- The flag for a leading zero comes up at the second digit. -/
theorem OctetScan.leadingZero_concat (parts : ℕ) {p : Str} {c : UInt8}
    (hdigits : ∀ d ∈ p, isDigit d = true) :
    (OctetScan.after parts (p ++ [c])).leadingZero =
      ((OctetScan.after parts p).leadingZero || (p.length == 1 && digitsValue p == 0)) := by
  match p with
  | [] => simp [OctetScan.after]
  | [d] =>
    have hd := (isDigit_iff d).mp (hdigits d List.mem_cons_self)
    have hzero : d = 48 ↔ d.toNat - 48 = 0 := by
      rw [← UInt8.toNat_inj]
      exact ⟨fun h ↦ by rw [h]; rfl, fun h ↦ le_antisymm (Nat.sub_eq_zero_iff_le.mp h) hd.1⟩
    rw [Bool.eq_iff_iff]
    simpa [OctetScan.after, digitsValue_singleton] using hzero
  | d :: e :: p => simp [OctetScan.after]

theorem octetStep_after (ip : Str) (parts : ℕ) {p : Str} {c : UInt8}
    (hdigits : ∀ d ∈ p, isDigit d = true) (hvalue : digitsValue p ≤ 255) (hdot : c ≠ 46) :
    octetStep ip (.after parts p) c =
      if isDigit c = true ∧ digitsValue (p ++ [c]) ≤ 255 then .ok (.after parts (p ++ [c]))
      else .error (.notIpv4 ip) := by
  have hacc : accumulate (digitsValue p) c = some (digitsValue (p ++ [c])) := by
    rw [accumulate_of_le (by omega), digitsValue_concat]
  have hnext : { OctetScan.after parts p with
      cur := digitsValue (p ++ [c])
      octetLen := p.length + 1
      leadingZero := (OctetScan.after parts p).leadingZero ||
        (p.length == 1 && digitsValue p == 0) } = OctetScan.after parts (p ++ [c]) := by
    have hlength : p.length + 1 = (p ++ [c]).length := by simp
    rw [← OctetScan.leadingZero_concat parts hdigits, hlength]
    rfl
  rw [octetStep, if_neg hdot]
  by_cases hc : isDigit c = true
  · rw [if_neg (not_not.mpr hc)]
    by_cases hle : digitsValue (p ++ [c]) ≤ 255
    · rw [if_pos ⟨hc, hle⟩, ← hnext]
      simp only [OctetScan.after, hacc, if_neg (Nat.not_lt.mpr hle)]
    · rw [if_neg fun h ↦ hle h.2]
      simp only [OctetScan.after, hacc, if_pos (Nat.lt_of_not_le hle)]
  · rw [if_pos hc, if_neg fun h ↦ hc h.1]

/-- The loop over one octet comes to its end if it is made of digits and its value is in range. -/
theorem foldlM_octetStep (ip : Str) (parts : ℕ) {p : Str} (hdot : 46 ∉ p) :
    p.foldlM (octetStep ip) (.fresh parts) =
      if p.all isDigit = true ∧ digitsValue p ≤ 255 then .ok (.after parts p)
      else .error (.notIpv4 ip) := by
  induction p using List.reverseRecOn with
  | nil => rfl
  | append_singleton p c ih =>
    rw [List.mem_append, List.mem_singleton, not_or] at hdot
    have hmono := digitsValue_le_concat p c
    rw [List.foldlM_append, ih hdot.1]
    by_cases hp : p.all isDigit = true ∧ digitsValue p ≤ 255
    · have hstep :=
        octetStep_after ip parts (List.all_eq_true.mp hp.1) hp.2 (Ne.symm hdot.2)
      have hiff : ((p ++ [c]).all isDigit = true ∧ digitsValue (p ++ [c]) ≤ 255) ↔
          isDigit c = true ∧ digitsValue (p ++ [c]) ≤ 255 := by
        rw [List.all_append, hp.1, Bool.true_and, List.all_cons, List.all_nil, Bool.and_true]
      rw [if_pos hp, if_congr hiff rfl rfl, ← hstep]
      exact bind_pure (octetStep ip (.after parts p) c)
    · rw [if_neg hp, if_neg]
      · rfl
      · rintro ⟨hdigits, hle⟩
        rw [List.all_append, Bool.and_eq_true] at hdigits
        exact hp ⟨hdigits.1, hmono.trans hle⟩

theorem OctetScan.bad_after (parts : ℕ) (p : Str) :
    (OctetScan.after parts p).bad ↔ p = [] ∨ 255 < digitsValue p ∨ 2 ≤ p.length ∧
      p.head? = some 48 := by
  simp [OctetScan.bad, OctetScan.after]

theorem parseOctet_isSome_iff_after (parts : ℕ) (p : Str) : (parseOctet p).isSome = true ↔
    (p.all isDigit = true ∧ digitsValue p ≤ 255) ∧ ¬(OctetScan.after parts p).bad := by
  rw [parseOctet_isSome_iff, OctetScan.bad_after]
  constructor
  · intro h
    refine ⟨⟨List.all_eq_true.mpr h.digits, h.value_le⟩, ?_⟩
    rintro (hnil | hlarge | ⟨hlength, hzero⟩)
    · exact h.ne_nil hnil
    · exact absurd h.value_le (Nat.not_le.mpr hlarge)
    · exact h.noLeadingZero.elim (fun hone ↦ by omega) fun hne ↦ hne hzero
  · rintro ⟨⟨hdigits, hvalue⟩, hgood⟩
    simp only [not_or, not_and] at hgood
    have hlength := List.length_pos_iff.mpr hgood.1
    refine ⟨hgood.1, List.all_eq_true.mp hdigits, ?_, hvalue⟩
    by_cases hone : p.length = 1
    · exact .inl hone
    · exact .inr (hgood.2.2 (by omega))

/-- The check that follows the loop, with the number of dots that it has seen. -/
def OctetScan.finish (ip : Str) (s : OctetScan) : Except UriReject ℕ :=
  if s.bad then .error (.notIpv4 ip) else .ok s.parts

/-- One octet, from its first byte to the check at its end. -/
theorem foldlM_octetStep_bind (ip : Str) (parts : ℕ) {p : Str} (hdot : 46 ∉ p) {α : Type}
    (f : OctetScan → Except UriReject α) :
    (p.foldlM (octetStep ip) (.fresh parts) >>= fun s ↦
      if s.bad then .error (.notIpv4 ip) else f s) =
      if (parseOctet p).isSome then f (.after parts p) else .error (.notIpv4 ip) := by
  rw [foldlM_octetStep ip parts hdot]
  have htext := parseOctet_isSome_iff_after parts p
  by_cases hp : p.all isDigit = true ∧ digitsValue p ≤ 255
  · rw [if_pos hp]
    by_cases hbad : (OctetScan.after parts p).bad
    · rw [if_neg fun h ↦ (htext.mp h).2 hbad]
      exact if_pos hbad
    · rw [if_pos (htext.mpr ⟨hp, hbad⟩)]
      exact if_neg hbad
  · rw [if_neg hp, if_neg fun h ↦ hp (htext.mp h).1]
    rfl

/-- The loop over octets with dots between them, by induction on the octets. -/
theorem foldlM_octetStep_intercalate (ip : Str) {octets : List Str} (hne : octets ≠ [])
    (hdot : ∀ p ∈ octets, 46 ∉ p) (parts : ℕ) :
    ([46].intercalate octets).foldlM (octetStep ip) (.fresh parts) >>= OctetScan.finish ip =
      if octets.all (fun p ↦ (parseOctet p).isSome) then .ok (parts + (octets.length - 1))
      else .error (.notIpv4 ip) := by
  induction octets generalizing parts with
  | nil => exact absurd rfl hne
  | cons p rest ih =>
    rw [List.forall_mem_cons] at hdot
    cases rest with
    | nil =>
      rw [List.intercalate_singleton]
      refine (foldlM_octetStep_bind ip parts hdot.1 _).trans ?_
      simp [OctetScan.after]
    | cons q rest =>
      have hrest := ih (List.cons_ne_nil q rest) hdot.2 (parts + 1)
      have hturn (s : OctetScan) : (46 :: [46].intercalate (q :: rest)).foldlM (octetStep ip) s >>=
          OctetScan.finish ip = if s.bad then .error (.notIpv4 ip) else
            ([46].intercalate (q :: rest)).foldlM (octetStep ip) (.fresh (s.parts + 1)) >>=
              OctetScan.finish ip := by
        rw [List.foldlM_cons, octetStep, if_pos rfl]
        split_ifs
        · rfl
        · rfl
      rw [List.intercalate_cons_cons, List.append_assoc, List.foldlM_append, bind_assoc]
      simp only [List.singleton_append, hturn]
      rw [foldlM_octetStep_bind ip parts hdot.1]
      simp only [OctetScan.after, hrest, List.all_cons (a := p), List.length_cons]
      by_cases hp : (parseOctet p).isSome = true
      · rw [if_pos hp, hp, Bool.true_and, show parts + 1 + (rest.length + 1 - 1) =
          parts + (rest.length + 1 + 1 - 1) by omega]
      · rw [if_neg hp, Bool.eq_false_of_not_eq_true hp]
        rfl

/-- No part of a split has the separator in it. -/
theorem dot_not_mem_of_mem_splitOn {s p : Str} (hp : p ∈ s.splitOn 46) : 46 ∉ p := by
  rw [List.splitOn_eq_splitOnP] at hp
  induction s generalizing p with
  | nil =>
    rw [List.splitOnP_nil, List.mem_singleton] at hp
    exact hp ▸ List.not_mem_nil
  | cons c s ih =>
    rw [List.splitOnP_cons_eq_if_modifyHead] at hp
    by_cases hc : c = 46
    · rw [if_pos (beq_iff_eq.mpr hc)] at hp
      rcases List.mem_cons.mp hp with rfl | hp
      · exact List.not_mem_nil
      · exact ih hp
    · rw [if_neg (by simpa using hc)] at hp
      cases hsplit : s.splitOnP (· == 46) with
      | nil => exact absurd hsplit (List.splitOnP_ne_nil _ s)
      | cons q rest =>
        rw [hsplit, List.modifyHead_cons, List.mem_cons] at hp
        rw [hsplit] at ih
        rcases hp with rfl | hp
        · rw [List.mem_cons, not_or]
          exact ⟨Ne.symm hc, ih List.mem_cons_self⟩
        · exact ih (List.mem_cons_of_mem q hp)

theorem scanIp_eq (ip : Str) : scanIp ip =
    if (ip.splitOn 46).all fun p ↦ (parseOctet p).isSome then
      if (ip.splitOn 46).length = 4 then .ok () else .error (.fourOctets ip)
    else .error (.notIpv4 ip) := by
  have hlength := List.length_pos_iff.mpr (List.splitOn_ne_nil 46 ip)
  have hfold := foldlM_octetStep_intercalate ip (List.splitOn_ne_nil 46 ip)
    (fun p hp ↦ dot_not_mem_of_mem_splitOn hp) 0
  rw [List.intercalate_splitOn] at hfold
  have hscan : scanIp ip = ip.foldlM (octetStep ip) (.fresh 0) >>= OctetScan.finish ip >>=
      fun parts ↦ if parts = 3 then .ok () else .error (.fourOctets ip) := by
    rw [bind_assoc]
    refine bind_congr fun s ↦ ?_
    by_cases hbad : s.bad
    · simp only [OctetScan.finish, if_pos hbad]
      rfl
    · simp only [OctetScan.finish, if_neg hbad, ite_not]
      rfl
  have hthree : 0 + ((ip.splitOn 46).length - 1) = 3 ↔ (ip.splitOn 46).length = 4 := by omega
  rw [hscan, hfold]
  by_cases hall : (ip.splitOn 46).all (fun p ↦ (parseOctet p).isSome) = true
  · rw [if_pos hall, if_pos hall, ← if_congr hthree rfl rfl]
    rfl
  · rw [if_neg hall, if_neg hall]
    rfl

/-- The address is accepted exactly if the parser of addresses accepts it. -/
theorem scanIp_ok_iff (ip : Str) : scanIp ip = .ok () ↔ (parseIpv4 ip).isSome := by
  have hscan : scanIp ip = .ok () ↔
      (ip.splitOn 46).all (fun p ↦ (parseOctet p).isSome) = true ∧ (ip.splitOn 46).length = 4 := by
    rw [scanIp_eq]
    split_ifs with hall hlength
    · exact iff_of_true rfl ⟨hall, hlength⟩
    · exact iff_of_false (nomatch ·) fun h ↦ hlength h.2
    · exact iff_of_false (nomatch ·) fun h ↦ hall h.1
  rw [hscan, Option.isSome_iff_exists]
  constructor
  · rintro ⟨hall, hlength⟩
    obtain ⟨a, b, c, d, hsplit⟩ := List.length_eq_four.mp hlength
    simp only [hsplit, List.all_cons, List.all_nil, Bool.and_true, Bool.and_eq_true,
      Option.isSome_iff_exists] at hall
    obtain ⟨⟨w, hw⟩, ⟨x, hx⟩, ⟨y, hy⟩, ⟨z, hz⟩⟩ := hall
    exact ⟨#v[w, x, y, z], (parseIpv4_eq_some_iff ip _).mpr ⟨a, b, c, d, hsplit, hw, hx, hy, hz⟩⟩
  · rintro ⟨v, hv⟩
    obtain ⟨a, b, c, d, hsplit, ha, hb, hc, hd⟩ := (parseIpv4_eq_some_iff ip v).mp hv
    simp [hsplit, ha, hb, hc, hd]

theorem scanIp_ne_overflow (ip : Str) : scanIp ip ≠ .error .overflow := by
  rw [scanIp_eq]
  split_ifs
  · exact (nomatch ·)
  · exact (nomatch ·)
  · exact (nomatch ·)

/-! ### The loop over the port -/

theorem portStep_of_le (portStr : Str) {port : ℕ} (hport : port ≤ 65535) (c : UInt8) :
    portStep portStr port c =
      if ¬isDigit c then .error (.portNotNumeric portStr)
      else if 65535 < port * 10 + (c.toNat - 48) then .error (.portRange portStr)
      else .ok (port * 10 + (c.toNat - 48)) := by
  rw [portStep, accumulate_of_le hport]

/-- The loop over the port ends with the value of the digits, or with one of its two errors. -/
theorem foldlM_portStep (portStr s : Str) :
    ((∀ c ∈ s, isDigit c = true) ∧ digitsValue s ≤ 65535 ∧
      s.foldlM (portStep portStr) 0 = .ok (digitsValue s)) ∨
    (¬((∀ c ∈ s, isDigit c = true) ∧ digitsValue s ≤ 65535) ∧
      ∃ err, err ≠ .overflow ∧ s.foldlM (portStep portStr) 0 = .error err) := by
  induction s using List.reverseRecOn with
  | nil => exact .inl ⟨List.forall_mem_nil _, Nat.zero_le _, rfl⟩
  | append_singleton s c ih =>
    rw [List.foldlM_append, List.forall_mem_append, List.forall_mem_singleton]
    rcases ih with ⟨hdigits, hle, hfold⟩ | ⟨hbad, err, herr, hfold⟩
    · have hstep :
          s.foldlM (portStep portStr) 0 >>= (fun port ↦ [c].foldlM (portStep portStr) port) =
          portStep portStr (digitsValue s) c := by
        rw [hfold]
        exact bind_pure (portStep portStr (digitsValue s) c)
      rw [hstep, portStep_of_le portStr hle, ← digitsValue_concat]
      split_ifs with hc hlarge
      · exact .inr ⟨fun h ↦ absurd h.2 (Nat.not_le.mpr hlarge), .portRange portStr, by simp, rfl⟩
      · exact .inl ⟨⟨hdigits, hc⟩, Nat.not_lt.mp hlarge, rfl⟩
      · exact .inr ⟨fun h ↦ hc h.1.2, .portNotNumeric portStr, by simp, rfl⟩
    · refine .inr ⟨fun h ↦ hbad ⟨h.1.1, (digitsValue_le_concat s c).trans h.2⟩, err, herr, ?_⟩
      rw [hfold]
      rfl

theorem scanPort_ok_iff (portStr : Str) (port : ℕ) : scanPort portStr = .ok port ↔
    (∀ c ∈ portStr, isDigit c = true) ∧ digitsValue portStr = port ∧ 1 ≤ port ∧ port ≤ 65535 := by
  rw [scanPort]
  rcases foldlM_portStep portStr portStr with ⟨hdigits, hle, hfold⟩ | ⟨hbad, err, -, hfold⟩
  · rw [hfold]
    by_cases hlow : digitsValue portStr < 1
    · refine iff_of_false ?_ fun h ↦ by omega
      simp [bind, Except.bind, hlow]
    · simp only [bind, Except.bind, if_neg hlow, Except.ok.injEq]
      exact ⟨fun h ↦ ⟨hdigits, h, by omega, by omega⟩, fun h ↦ h.2.1⟩
  · rw [hfold]
    refine iff_of_false (nomatch ·) fun h ↦ hbad ⟨h.1, by omega⟩

theorem scanPort_ne_overflow (portStr : Str) : scanPort portStr ≠ .error .overflow := by
  rw [scanPort]
  rcases foldlM_portStep portStr portStr with ⟨-, -, hfold⟩ | ⟨-, err, herr, hfold⟩
  · rw [hfold]
    by_cases hlow : digitsValue portStr < 1
    · simp [bind, Except.bind, hlow]
    · simp [bind, Except.bind, hlow]
  · rw [hfold]
    exact fun h ↦ herr (Except.error.inj h)

/-! ### The name -/

theorem isAsciiHexdigit_eq (c : UInt8) : isAsciiHexdigit c = (hexNibble c).isSome := by
  have hall : ∀ k < 256, isAsciiHexdigit (UInt8.ofNat k) = (hexNibble (UInt8.ofNat k)).isSome := by
    decide +kernel
  obtain ⟨k, hk, rfl⟩ := ofNat_surjective c
  exact hall k hk

theorem encodePair_ok {hi lo : UInt8} (index : ℕ) (hhi : isAsciiHexdigit hi = true)
    (hlo : isAsciiHexdigit lo = true) : ∃ b, encodePair hi lo index = .ok b := by
  rw [isAsciiHexdigit_eq, Option.isSome_iff_exists] at hhi hlo
  obtain ⟨h, hhi⟩ := hhi
  obtain ⟨l, hlo⟩ := hlo
  exact ⟨h <<< 4 ||| l, by rw [encodePair, hhi, hlo]⟩

/-- Eight hexadecimal digits are a number. -/
theorem encodeBcd_ok {name : Str} (hlength : name.length = 8)
    (hhex : ∀ c ∈ name, isAsciiHexdigit c = true) : ∃ bcd, encodeBcd name = .ok bcd := by
  match name, hlength with
  | [c0, c1, c2, c3, c4, c5, c6, c7], _ =>
    obtain ⟨b0, h0⟩ := encodePair_ok 0 (hhex c0 (by simp)) (hhex c1 (by simp))
    obtain ⟨b1, h1⟩ := encodePair_ok 2 (hhex c2 (by simp)) (hhex c3 (by simp))
    obtain ⟨b2, h2⟩ := encodePair_ok 4 (hhex c4 (by simp)) (hhex c5 (by simp))
    obtain ⟨b3, h3⟩ := encodePair_ok 6 (hhex c6 (by simp)) (hhex c7 (by simp))
    refine ⟨#v[b0, b1, b2, b3], ?_⟩
    rw [encodeBcd, h0, h1, h2, h3]
    rfl

/-! ### The two readers -/

theorem parseI64_of_digits {s : Str} (hne : s ≠ []) (h : ∀ c ∈ s, isDigit c = true)
    (hmax : digitsValue s < 2 ^ 63) : parseI64 s = some (digitsValue s : ℤ) := by
  cases s with
  | nil => exact absurd rfl hne
  | cons c s =>
    have hplus : c ≠ 43 := by
      rintro rfl
      exact absurd (h 43 List.mem_cons_self) (by decide)
    have hminus : c ≠ 45 := by
      rintro rfl
      exact absurd (h 45 List.mem_cons_self) (by decide)
    have hall : (c :: s).all isDigit = true := List.all_eq_true.mpr h
    have hrange : digitsValue (c :: s) < 9223372036854775808 := hmax
    simp [parseI64, hplus, hminus, hall, hrange]

/-- What is accepted as a port is read as that number. -/
theorem parseI64_of_scanPort {portStr : Str} {port : ℕ} (h : scanPort portStr = .ok port) :
    parseI64 portStr = some (port : ℤ) := by
  obtain ⟨hdigits, rfl, hlow, hhigh⟩ := (scanPort_ok_iff portStr _).mp h
  have hne : portStr ≠ [] := by
    rintro rfl
    exact absurd hlow (by decide)
  exact parseI64_of_digits hne hdigits (by omega)

/-- A text that is read as an address has no colon. -/
theorem colon_not_mem {ip : Str} (h : (parseIpv4 ip).isSome) : 58 ∉ ip := by
  obtain ⟨v, hv⟩ := Option.isSome_iff_exists.mp h
  have hdecimal (n : UInt8) : 58 ∉ decimal n := fun hmem ↦
    absurd
      (((parseOctet_isSome_iff (decimal n)).mp (by rw [parseOctet_decimal]; rfl)).digits 58 hmem)
      (by decide)
  rw [← ipv4Str_of_parseIpv4 hv]
  simp [ipv4Str, hdecimal]

/-- The ways through the validator: one of its errors, or every check passed. -/
theorem scanUri_cases (uri : Str) :
    (∃ err, err ≠ .overflow ∧ scanUri uri = .error err) ∨
    ∃ name ip portStr port at_ colon, uri.idxOf? 64 = some at_ ∧ at_ ≠ 0 ∧ at_ ≠ uri.length - 1 ∧
      name = uri.take at_ ∧ name.length = 8 ∧ (∀ c ∈ name, isAsciiHexdigit c = true) ∧
      rfind 58 (uri.drop (at_ + 1)) = some colon ∧ colon ≠ 0 ∧
      colon ≠ (uri.drop (at_ + 1)).length - 1 ∧ ip = (uri.drop (at_ + 1)).take colon ∧
      portStr = (uri.drop (at_ + 1)).drop (colon + 1) ∧ scanIp ip = .ok () ∧
      scanPort portStr = .ok port ∧ scanUri uri = .ok (name, ip, port) := by
  unfold scanUri
  cases hat : uri.idxOf? 64 with
  | none => exact .inl ⟨.missingAt, by simp, rfl⟩
  | some at_ =>
    by_cases hplace : at_ = 0 ∨ at_ = uri.length - 1
    · exact .inl ⟨.missingAt, by simp, if_pos hplace⟩
    simp only [if_neg hplace]
    by_cases hlength : (uri.take at_).length = 8
    · rw [if_neg (not_not.mpr hlength)]
      cases hhex : (uri.take at_).find? fun c ↦ !isAsciiHexdigit c with
      | some c => exact .inl ⟨.nameHex (uri.take at_) c, by simp, rfl⟩
      | none =>
        cases hcolon : rfind 58 (uri.drop (at_ + 1)) with
        | none => exact .inl ⟨.missingPort, by simp, rfl⟩
        | some colon =>
          by_cases hport : colon = 0 ∨ colon = (uri.drop (at_ + 1)).length - 1
          · exact .inl ⟨.missingPort, by simp, if_pos hport⟩
          simp only [if_neg hport]
          cases hip : scanIp ((uri.drop (at_ + 1)).take colon) with
          | error err => exact .inl ⟨err, fun h ↦ scanIp_ne_overflow _ (h ▸ hip), rfl⟩
          | ok u =>
            cases hnumber : scanPort ((uri.drop (at_ + 1)).drop (colon + 1)) with
            | error err => exact .inl ⟨err, fun h ↦ scanPort_ne_overflow _ (h ▸ hnumber), rfl⟩
            | ok port =>
              rw [not_or] at hplace hport
              refine .inr ⟨_, _, _, port, at_, colon, rfl, hplace.1, hplace.2, rfl, hlength, ?_,
                hcolon, hport.1, hport.2, rfl, rfl, hip, hnumber, rfl⟩
              intro c hc
              simpa using List.find?_eq_none.mp hhex c hc
    · exact .inl ⟨.nameLength _, by simp, if_pos hlength⟩

/-- A URI that the validator accepts is read by `parse_uri` as the validator has scanned it, and its
name is a number. -/
theorem parseUri_of_scanUri {uri name ip : Str} {port : ℕ}
    (h : scanUri uri = .ok (name, ip, port)) :
    parseUri uri = .ok (name, ip, UInt16.ofNat port) ∧ 1 ≤ port ∧ port ≤ 65535 ∧
      ∃ bcd, encodeBcd name = .ok bcd := by
  rcases scanUri_cases uri with ⟨err, -, herror⟩ | ⟨name', ip', portStr, port', at_, colon, hat,
    hfirst, hlast, hname, hlength, hhex, hcolon, hstart, hend, hip, hportStr, hscanIp, hscanPort,
    hok⟩
  · exact nomatch herror.symm.trans h
  obtain ⟨rfl, rfl, rfl⟩ : name' = name ∧ ip' = ip ∧ port' = port := by
    simpa using hok.symm.trans h
  have haddress := (scanIp_ok_iff ip').mp hscanIp
  have hnumber := parseI64_of_scanPort hscanPort
  obtain ⟨-, -, hlow, hhigh⟩ := (scanPort_ok_iff portStr port').mp hscanPort
  have hipv4 : ¬(ip'.contains 58 = true ∨ parseIpv4 ip' = none) := by
    rw [List.contains_iff_mem, not_or, ← ne_eq, Option.ne_none_iff_isSome]
    exact ⟨colon_not_mem haddress, haddress⟩
  have hrange : (1 : ℤ) ≤ port' ∧ (port' : ℤ) ≤ 65535 := by omega
  refine ⟨?_, hlow, hhigh, encodeBcd_ok hlength hhex⟩
  subst hname hip hportStr
  simp only [parseUri, hat, hcolon, hnumber, if_pos (And.intro (Nat.pos_of_ne_zero hfirst) hlast),
    if_pos (And.intro (Nat.pos_of_ne_zero hstart) hend), if_neg (not_not.mpr hlength),
    if_neg hipv4, if_pos hrange, Int.toNat_natCast]

/-- The address that `parse_uri` returns is the text of an address. -/
theorem ipv4Str_of_parseUri {uri name ip : Str} {port : UInt16}
    (h : parseUri uri = .ok (name, ip, port)) :
    ∃ octets, parseIpv4 ip = some octets ∧ ipv4Str octets = ip := by
  unfold parseUri at h
  cases hat : uri.idxOf? 64 with
  | none => simp [hat] at h
  | some at_ =>
    cases hcolon : rfind 58 (uri.drop (at_ + 1)) with
    | none => simp [hat, hcolon] at h
    | some colon =>
      simp only [hat, hcolon] at h
      split_ifs at h with hplace hport hlength hipv4
      rw [not_or, ← ne_eq (parseIpv4 _), Option.ne_none_iff_exists'] at hipv4
      obtain ⟨octets, hoctets⟩ := hipv4.2
      split at h
      · split_ifs at h
        obtain ⟨-, rfl, -⟩ : _ ∧ _ ∧ _ := by simpa using h
        exact ⟨octets, hoctets, ipv4Str_of_parseIpv4 hoctets⟩
      · exact nomatch h

theorem scanUri_ne_overflow (uri : Str) : scanUri uri ≠ .error .overflow := by
  rcases scanUri_cases uri with ⟨err, herr, herror⟩ | ⟨_, _, _, _, _, _, -, -, -, -, -, -, -, -, -,
    -, -, -, -, hok⟩
  · rw [herror]
    exact fun h ↦ herr (Except.error.inj h)
  · rw [hok]
    exact (nomatch ·)

end DoorAccess.Config
