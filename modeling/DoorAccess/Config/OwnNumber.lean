import DoorAccess.Config.Consumers

/-!
# Queries for the own number

The number of the monitor is a text in the configuration and four bytes in a query, and the callback
compares the query's bytes, written out again, with the text. `encode_bcd` reads the letters `A` to
`F` in both cases and `decode_bcd` writes lower case, so that the callback knows its own number
exactly if the configuration has it in lower case (`answersOwnNumber_iff`).
-/

set_option autoImplicit false
set_option relaxedAutoImplicit false

namespace DoorAccess

open Codec

/-! ### Numbers and their texts -/

namespace Codec

/-- The letters `A` to `F`. -/
def isUpperHex (c : UInt8) : Prop :=
  65 ≤ c ∧ c ≤ 70

instance (c : UInt8) : Decidable (isUpperHex c) :=
  inferInstanceAs (Decidable (_ ∧ _))

/-- The two digits of a byte. -/
def hexPair (v : UInt8) : Str :=
  [HEX.getD (v >>> 4).toNat 0, HEX.getD (v &&& 0x0f).toNat 0]

theorem decodeBcd_eq (b : Octets) :
    decodeBcd b =
      hexPair (b.get 0) ++ hexPair (b.get 1) ++ hexPair (b.get 2) ++ hexPair (b.get 3) := by
  rw [decodeBcd, octets_toList]
  rfl

theorem encodePair_hexPair (v : UInt8) (index : ℕ) :
    encodePair (HEX.getD (v >>> 4).toNat 0) (HEX.getD (v &&& 0x0f).toNat 0) index = .ok v := by
  have hall : ∀ k < 256, hexNibble (HEX.getD (UInt8.ofNat k >>> 4).toNat 0) =
      some (UInt8.ofNat k >>> 4) ∧ hexNibble (HEX.getD (UInt8.ofNat k &&& 0x0f).toNat 0) =
      some (UInt8.ofNat k &&& 0x0f) ∧
      (UInt8.ofNat k >>> 4) <<< 4 ||| (UInt8.ofNat k &&& 0x0f) = UInt8.ofNat k := by
    decide +kernel
  obtain ⟨k, hk, rfl⟩ := ofNat_surjective v
  obtain ⟨hhi, hlo, hjoin⟩ := hall k hk
  rw [encodePair, hhi, hlo]
  exact congrArg Except.ok hjoin

/-- What is written out is read back. -/
theorem encodeBcd_decodeBcd (b : Octets) : encodeBcd (decodeBcd b) = .ok b := by
  rw [decodeBcd_eq]
  simp only [hexPair, List.cons_append, List.nil_append, encodeBcd, encodePair_hexPair]
  exact congrArg Except.ok (octets_eta b)

theorem decodeBcd_injective : Function.Injective decodeBcd := by
  intro a b h
  have hok := encodeBcd_decodeBcd a
  rw [h, encodeBcd_decodeBcd] at hok
  exact (Except.ok.inj hok).symm

theorem not_isUpperHex_of_mem_decodeBcd {b : Octets} {c : UInt8} (h : c ∈ decodeBcd b) :
    ¬isUpperHex c := by
  -- With `List.all`: the quantifier over the digits may be decided by trying all bytes.
  have hall : ∀ k < 256, (hexPair (UInt8.ofNat k)).all (fun c ↦ ¬isUpperHex c) = true := by
    decide +kernel
  have hpair (v : UInt8) : ∀ c ∈ hexPair v, ¬isUpperHex c := by
    obtain ⟨k, hk, rfl⟩ := ofNat_surjective v
    exact List.all_iff_forall_prop.mp (hall k hk)
  rw [decodeBcd_eq] at h
  simp only [List.mem_append] at h
  rcases h with ((h | h) | h) | h
  · exact hpair _ c h
  · exact hpair _ c h
  · exact hpair _ c h
  · exact hpair _ c h

theorem hexNibble_lower {c n : UInt8} (h : hexNibble c = some n) (hlower : ¬isUpperHex c) :
    n < 16 ∧ HEX.getD n.toNat 0 = c := by
  have hall : ∀ k < 256, ¬isUpperHex (UInt8.ofNat k) → (hexNibble (UInt8.ofNat k)).all
      (fun n ↦ n < 16 ∧ HEX.getD n.toNat 0 = UInt8.ofNat k) = true := by
    decide +kernel
  obtain ⟨k, hk, rfl⟩ := ofNat_surjective c
  have hsome := hall k hk hlower
  rw [h, Option.all_some] at hsome
  exact of_decide_eq_true hsome

theorem nibbles_of_join {h l : UInt8} (hh : h < 16) (hl : l < 16) :
    (h <<< 4 ||| l) >>> 4 = h ∧ (h <<< 4 ||| l) &&& 0x0f = l := by
  have hall : ∀ i < 16, ∀ j < 16,
      (UInt8.ofNat i <<< 4 ||| UInt8.ofNat j) >>> 4 = UInt8.ofNat i ∧
        (UInt8.ofNat i <<< 4 ||| UInt8.ofNat j) &&& 0x0f = UInt8.ofNat j := by
    decide +kernel
  have h' := hall h.toNat (UInt8.lt_iff_toNat_lt.mp hh) l.toNat (UInt8.lt_iff_toNat_lt.mp hl)
  rwa [UInt8.ofNat_toNat, UInt8.ofNat_toNat] at h'

theorem hexPair_of_encodePair {hi lo v : UInt8} {index : ℕ} (h : encodePair hi lo index = .ok v)
    (hhi : ¬isUpperHex hi) (hlo : ¬isUpperHex lo) : hexPair v = [hi, lo] := by
  unfold encodePair at h
  cases hhigh : hexNibble hi with
  | none => simp [hhigh] at h
  | some a =>
    cases hlow : hexNibble lo with
    | none => simp [hhigh, hlow] at h
    | some b =>
      simp only [hhigh, hlow] at h
      obtain rfl := Except.ok.inj h
      obtain ⟨ha, hfirst⟩ := hexNibble_lower hhigh hhi
      obtain ⟨hb, hsecond⟩ := hexNibble_lower hlow hlo
      obtain ⟨hshift, hmask⟩ := nibbles_of_join ha hb
      rw [hexPair, hshift, hmask, hfirst, hsecond]

/-- A number without upper-case letters is written out as it was. -/
theorem decodeBcd_of_encodeBcd {name : Str} {b : Octets} (h : encodeBcd name = .ok b)
    (hlower : ∀ c ∈ name, ¬isUpperHex c) : decodeBcd b = name := by
  unfold encodeBcd at h
  split at h
  · rename_i c0 c1 c2 c3 c4 c5 c6 c7
    obtain ⟨b0, h0, h⟩ := Fallible.bind_eq_ok.mp h
    obtain ⟨b1, h1, h⟩ := Fallible.bind_eq_ok.mp h
    obtain ⟨b2, h2, h⟩ := Fallible.bind_eq_ok.mp h
    obtain ⟨b3, h3, h⟩ := Fallible.bind_eq_ok.mp h
    obtain rfl := Except.ok.inj h
    rw [decodeBcd_eq]
    simp only [List.forall_mem_cons] at hlower
    obtain ⟨l0, l1, l2, l3, l4, l5, l6, l7, -⟩ := hlower
    have hfirst := hexPair_of_encodePair h0 l0 l1
    have hsecond := hexPair_of_encodePair h1 l2 l3
    have hthird := hexPair_of_encodePair h2 l4 l5
    have hfourth := hexPair_of_encodePair h3 l6 l7
    exact congrArg₂ (· ++ ·) (congrArg₂ (· ++ ·) (congrArg₂ (· ++ ·) hfirst hsecond) hthird)
      hfourth
  · exact nomatch h

end Codec

/-! ### The callback -/

namespace Config

open Listen6672

/-- The name in the configured URI of the monitor. -/
def ownName (cfg : Config) : Option Str :=
  match parseUri (sipStr cfg.sip) with
  | .ok (name, _, _) => some name
  | .error _ => none

/-- The callback recognises the queries for the own number and no others, and answers them when the
interface has an address. -/
def AnswersOwnNumber (getIfaceIp : Text → Option Octets) (cfg : Config) : Prop :=
  ∃ callback name own, buildNumberQueryCallback getIfaceIp cfg = some callback ∧
    ownName cfg = some name ∧ encodeBcd name = .ok own ∧
    ∀ srcIp frame, classify frame = .numberQuery →
      (callback srcIp frame ≠ .notAddressed ↔ frame.targetBcd = own) ∧
      ∀ ip, frame.targetBcd = own → ourIp getIfaceIp cfg = some ip →
        callback srcIp frame = .replied srcIp (buildNumberQueryResponse frame ip)

theorem numberQueryCallback_recognises_iff (myNum : Str) (ourIp : Option Octets) (srcIp : Octets)
    (frame : Frame) : numberQueryCallback myNum ourIp srcIp frame ≠ .notAddressed ↔
      decodeBcd frame.targetBcd = myNum := by
  unfold numberQueryCallback
  by_cases h : decodeBcd frame.targetBcd = myNum
  · rw [if_neg (not_not.mpr h)]
    cases ourIp with
    | none => exact iff_of_true (by simp) h
    | some ip => exact iff_of_true (by simp) h
  · rw [if_pos h]
    exact iff_of_false (fun hne ↦ hne rfl) h

theorem numberQueryCallback_replied {myNum : Str} {frame : Frame}
    (h : decodeBcd frame.targetBcd = myNum) (ip srcIp : Octets) :
    numberQueryCallback myNum (some ip) srcIp frame =
      .replied srcIp (buildNumberQueryResponse frame ip) :=
  if_neg (not_not.mpr h)

/-- A configuration that has been loaded has an own number, and the callback is the one for it. -/
theorem exists_callback {cfg : Config} (h : Accepted cfg) (getIfaceIp : Text → Option Octets) :
    ∃ name own, ownName cfg = some name ∧ encodeBcd name = .ok own ∧
      buildNumberQueryCallback getIfaceIp cfg =
        some (numberQueryCallback name (ourIp getIfaceIp cfg)) := by
  obtain ⟨name, ip, port, own, octets, hparse, hown, -, -⟩ := exists_of_validateUri h.sip
  refine ⟨name, own, ?_, hown, ?_⟩
  · rw [ownName, hparse]
  · rw [buildNumberQueryCallback, hparse]

/-- A query for a number. -/
def queryFor (number : Octets) : Frame where
  flag := 0
  targetBcd := number
  selfOrIp := #v[0, 0, 0, 0]
  reserved := #v[0, 0, 0, 0]
  eventFlag := 0
  magic := (0x00, 0x40)
  subtype := 0
  eventId := 0
  raw := 0 :: number.toList ++ [0, 0, 0, 0, 0, 0, 0, 0, 0, 0, 0, 0, 0x00, 0x40, 0, 0]

/-- A number that is recognised has been written out as it is configured. -/
theorem not_isUpperHex_of_answers {getIfaceIp : Text → Option Octets} {cfg : Config}
    (h : AnswersOwnNumber getIfaceIp cfg) {name : Str} (hname : ownName cfg = some name) :
    ∀ c ∈ name, ¬isUpperHex c := by
  obtain ⟨callback, name', own, hcallback, hname', -, hanswers⟩ := h
  obtain rfl := Option.some.inj (hname'.symm.trans hname)
  have hquery := (hanswers #v[0, 0, 0, 0] (queryFor own) rfl).1.mpr rfl
  unfold ownName at hname
  unfold buildNumberQueryCallback at hcallback
  cases hparse : parseUri (sipStr cfg.sip) with
  | error err => simp [hparse] at hname
  | ok parts =>
    simp only [hparse, Option.some.injEq] at hname hcallback
    rw [← hcallback, numberQueryCallback_recognises_iff, hname] at hquery
    intro c hc
    rw [← hquery] at hc
    exact not_isUpperHex_of_mem_decodeBcd hc

/-- On a configuration that has been loaded the callback does what it is for exactly if the number
of the monitor has no upper-case letter. -/
theorem answersOwnNumber_iff (path : String)
    (read : Except AutomationState.ReadError (List UInt8)) (cfg : Config)
    (h : loadConfig path read = .ok cfg) (getIfaceIp : Text → Option Octets) :
    AnswersOwnNumber getIfaceIp cfg ↔
      ∀ name, ownName cfg = some name → ∀ c ∈ name, ¬isUpperHex c := by
  constructor
  · intro hanswers name hname
    exact not_isUpperHex_of_answers hanswers hname
  · intro hlower
    obtain ⟨name, own, hname, hown, hcallback⟩ :=
      exists_callback (accepted_of_loadConfig h) getIfaceIp
    have htext := decodeBcd_of_encodeBcd hown (hlower name hname)
    refine ⟨_, name, own, hcallback, hname, hown, fun srcIp frame _ ↦ ⟨?_, ?_⟩⟩
    · rw [numberQueryCallback_recognises_iff, ← htext, decodeBcd_injective.eq_iff]
    · rintro ip rfl hip
      rw [hip]
      exact numberQueryCallback_replied htext ip srcIp

/-- With a number in lower case the callback answers. -/
theorem answersOwnNumber_oneStationConfig :
    ∃ cfg, loadConfig "config.ini" (.ok oneStationConfig) = .ok cfg ∧
      AnswersOwnNumber (fun _ ↦ some #v[172, 16, 106, 202]) cfg := by
  have hname : (loadConfig "config.ini" (.ok oneStationConfig)).toOption.map ownName =
      some (some (ascii "06020001")) := by
    decide +kernel
  cases hload : loadConfig "config.ini" (.ok oneStationConfig) with
  | error err =>
    rw [hload] at hname
    exact nomatch hname
  | ok cfg =>
    rw [hload] at hname
    refine ⟨cfg, rfl, (answersOwnNumber_iff _ _ cfg hload _).mpr fun name hsame ↦ ?_⟩
    obtain rfl := Option.some.inj (hsame.symm.trans (Option.some.inj hname))
    exact List.all_iff_forall_prop.mp (by decide)

/-- A monitor whose number has an upper-case letter. -/
def upperCaseConfig : List UInt8 :=
  ascii "sip=0602000A@172.16.106.152:18022\n[station \"1\"]\nsip=06021103@172.16.106.91:18022\n"

/-- It does not answer, on any interface. -/
theorem not_answersOwnNumber_upperCaseConfig :
    ∃ cfg, loadConfig "config.ini" (.ok upperCaseConfig) = .ok cfg ∧
      ∀ getIfaceIp, ¬AnswersOwnNumber getIfaceIp cfg := by
  have hname : (loadConfig "config.ini" (.ok upperCaseConfig)).toOption.map ownName =
      some (some (ascii "0602000A")) := by
    decide +kernel
  cases hload : loadConfig "config.ini" (.ok upperCaseConfig) with
  | error err =>
    rw [hload] at hname
    exact nomatch hname
  | ok cfg =>
    rw [hload] at hname
    refine ⟨cfg, rfl, fun getIfaceIp hanswers ↦ ?_⟩
    exact not_isUpperHex_of_answers hanswers (Option.some.inj hname) 65 (by decide) (by decide)

end Config

end DoorAccess
