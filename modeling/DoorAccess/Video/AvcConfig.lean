import DoorAccess.Video.Reassembler
import DoorAccess.Video.Transmux

/-!
# The record of the parameter sets

`pack_avc_decoder_config` writes an `AVCDecoderConfigurationRecord` with one SPS and one PPS, each
behind its length in two bytes. A reader gets both back exactly if the two lengths fit
(`recovered_iff`). The reassembler delivers units of up to 256 KiB.
-/

set_option autoImplicit false
set_option relaxedAutoImplicit false

namespace DoorAccess.Video

open Records

/-- A reader of the record: six bytes, one SPS, the number of the PPS, which is one, the PPS, and
nothing after it. -/
def readAvcDecoderConfig : List UInt8 → Option (List UInt8 × List UInt8)
  | 1 :: _ :: _ :: _ :: 0xff :: 0xe1 :: rest =>
    match readPrefixed16 rest with
    | some (sps, 1 :: rest) =>
      match readPrefixed16 rest with
      | some (pps, []) => some (sps, pps)
      | _ => none
    | _ => none
  | _ => none

/-- There is no record, or one from which both parameter sets are recovered. -/
def Recovered (sps pps : List UInt8) : Prop :=
  packAvcDecoderConfig sps pps = none ∨
    ∃ record, packAvcDecoderConfig sps pps = some record ∧
      readAvcDecoderConfig record = some (sps, pps)

variable {sps pps : List UInt8}

/-- Two lengths, each of its own two bytes, are all that can go wrong. -/
theorem packAvcDecoderConfig_cases (sps pps : List UInt8) :
    ((sps.length < 4 ∨ pps = []) ∧ packAvcDecoderConfig sps pps = none) ∨
      (¬(sps.length < 4 ∨ pps = []) ∧ ∃ profile compat level,
        packAvcDecoderConfig sps pps =
          some ([1, profile, compat, level, 0xff, 0xe1] ++
            (prefixed16 sps ++ 1 :: (prefixed16 pps ++ [])))) := by
  match sps with
  | [] | [_] | [_, _] | [_, _, _] => exact .inl ⟨.inl (by simp), rfl⟩
  | a :: profile :: compat :: level :: sps =>
    cases pps with
    | nil => exact .inl ⟨.inr rfl, rfl⟩
    | cons b pps =>
      refine .inr ⟨by simp, profile, compat, level, ?_⟩
      rw [packAvcDecoderConfig]
      simp [prefixed16]

theorem readAvcDecoderConfig_packed (profile compat level : UInt8) (sps pps : List UInt8) :
    readAvcDecoderConfig ([1, profile, compat, level, 0xff, 0xe1] ++
        (prefixed16 sps ++ 1 :: (prefixed16 pps ++ []))) = some (sps, pps) ↔
      sps.length < 65536 ∧ pps.length < 65536 := by
  simp only [List.cons_append, List.nil_append, readAvcDecoderConfig]
  constructor
  · intro h
    split at h
    · rename_i s rest hsps
      split at h
      · rename_i p hpps
        obtain ⟨rfl, rfl⟩ := Prod.mk.inj (Option.some.inj h)
        obtain ⟨hfirst, hrest⟩ := (readPrefixed16_eq_some_iff _ _ _).mp hsps
        obtain ⟨-, rfl⟩ := List.cons.inj hrest
        exact ⟨hfirst, ((readPrefixed16_eq_some_iff _ _ _).mp hpps).1⟩
      · exact nomatch h
    · exact nomatch h
  · rintro ⟨hsps, hpps⟩
    rw [(readPrefixed16_eq_some_iff _ _ _).mpr ⟨hsps, rfl⟩]
    simp only
    rw [(readPrefixed16_eq_some_iff _ _ _).mpr ⟨hpps, rfl⟩]

/-- **Both parameter sets are recovered** exactly if their lengths fit into two bytes, where there
is a record at all. -/
theorem recovered_iff (sps pps : List UInt8) :
    Recovered sps pps ↔
      (sps.length < 4 ∨ pps = []) ∨ (sps.length < 65536 ∧ pps.length < 65536) := by
  rcases packAvcDecoderConfig_cases sps pps with
    ⟨hsmall, hnone⟩ | ⟨hlarge, profile, compat, level, hsome⟩
  · exact iff_of_true (.inl hnone) (.inl hsmall)
  · rw [or_iff_right hlarge, ← readAvcDecoderConfig_packed profile compat level sps pps]
    constructor
    · rintro (hnone | ⟨record, hrecord, hread⟩)
      · exact nomatch hnone.symm.trans hsome
      · obtain rfl := Option.some.inj (hrecord.symm.trans hsome)
        exact hread
    · exact fun hread ↦ .inr ⟨_, hsome, hread⟩

/-- A unit of 64 KiB. -/
def longSps : List UInt8 :=
  [0x67, 0x42, 0xc0, 0x1f] ++ List.replicate 65532 0xaa

/-- The reassembler delivers it, and its record begins with the length 0. -/
theorem longSps_not_recovered :
    START_CODE.length + longSps.length ≤ FRAME_MAX_BYTES ∧ ¬Recovered longSps [0x68] := by
  have hlength : longSps.length = 65536 := by
    rw [longSps, List.length_append, List.length_replicate]
    rfl
  refine ⟨by rw [hlength]; decide, ?_⟩
  rcases packAvcDecoderConfig_cases longSps [0x68] with
    ⟨hsmall, -⟩ | ⟨-, profile, compat, level, hsome⟩
  · rw [hlength] at hsmall
    exact absurd hsmall (by decide)
  · rintro (hnone | ⟨record, hrecord, hread⟩)
    · exact nomatch hnone.symm.trans hsome
    · obtain rfl := Option.some.inj (hrecord.symm.trans hsome)
      have hfits := ((readAvcDecoderConfig_packed _ _ _ _ _).mp hread).1
      rw [hlength] at hfits
      exact absurd hfits (by decide)

end DoorAccess.Video
