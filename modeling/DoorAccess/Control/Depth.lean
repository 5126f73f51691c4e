import DoorAccess.Control.Extract
import DoorAccess.Lib.JsonDepth

/-!
# How deep a request body is recursed into

Neither the two checkers of a body nor the functions that skip a value on the way to a field have a
limit for the depth of a document: each opening bracket is two calls more. The counting versions
below have the results of the functions they count for, and `depth_below_iff` is the exact condition
on a body under which fewer than 100000 calls are under way at any time.
-/

set_option autoImplicit false
set_option relaxedAutoImplicit false

namespace DoorAccess.Control

open Codec (ascii)
open Json Fallible

/-! ### The checkers -/

/-- `validate_json_syntax`, counted. -/
def countedValidate (raw : List UInt8) : Counted JsonError Unit :=
  let trimmed := trimAsciiWhitespace raw
  if trimmed.isEmpty then return ()
  else do
    let _ ← JsonParser.scanner.countedDocument trimmed
    return ()

/-- `go_json_syntax_check`, counted. -/
def countedGoCheck (raw : List UInt8) : Counted GoError Unit := do
  let _ ← GoJsonScan.scanner.countedDocument raw
  return ()

theorem countedGoCheck_result (raw : List UInt8) :
    (countedGoCheck raw).result = goJsonSyntaxCheck raw := by
  rw [countedGoCheck, goJsonSyntaxCheck, Counted.bind_result, Scanner.countedDocument_result,
    map_unit_eq_bind]
  rfl

theorem countedValidate_result (raw : List UInt8) :
    validateJsonSyntax raw = match (countedValidate raw).result with
      | .ok _ => .ok ()
      | .error e => .error (ascii "parse JSON body: " ++ e.text) := by
  rw [validateJsonSyntax, countedValidate]
  split_ifs with hempty
  · rfl
  · rw [Counted.bind_result, Scanner.countedDocument_result, parseJsonValue, map_unit_eq_bind]
    rfl

/-! ### The extractors -/

/-- `skip_json_value`, counted. -/
def countedSkipJsonValue (s : List UInt8) : Counted JsonError (List UInt8) := do
  let (_, s) ← skipper.countedValue (s.length + 1) s
  return s

theorem countedSkipJsonValue_result (s : List UInt8) :
    (countedSkipJsonValue s).result = skipJsonValue s := by
  rw [countedSkipJsonValue, skipJsonValue, Counted.bind_result, Scanner.countedValue_result]
  rfl

section Extractor

variable {α : Type} (read : List UInt8 → Except JsonError (α × List UInt8)) (wantKey : Str)

/-- The value of one member, counted: what is wanted is read without a further call. -/
def countedExtractValue (key : Str) (last : Option α) (s : List UInt8) :
    Counted JsonError (Option α × List UInt8) :=
  if eqIgnoreAsciiCase key wantKey then do
    let (v, s) ← Counted.lift (read s)
    return (some v, s)
  else do
    let s ← countedSkipJsonValue s
    return (last, s)

/-- The loop over the members of the top-level object, counted. -/
def countedExtractLoop : ℕ → Option α → List UInt8 → Counted JsonError α
  | 0, _, _ => .lift (.error .exhausted)
  | k + 1, last, s => do
    let (key, s) ← Counted.lift (readJsonString (skipper.skip s))
    let s ← Counted.lift (skipper.colon s)
    let (last, s) ← countedExtractValue read wantKey key last (skipper.skip s)
    let (more, s) ← Counted.lift (skipper.separator 125 (fun _ ↦ .expectedCommaOrBrace) s)
    if more then countedExtractLoop k last s else .lift (orMissing last)

/-- The extractors, counted. -/
def countedExtractField (input : List UInt8) : Counted JsonError α :=
  match trimAsciiWhitespace input with
  | 123 :: s =>
    match skipper.skip s with
    | 125 :: _ => .lift (.error .missingField)
    | r => countedExtractLoop read wantKey (s.length + 1) none r
  | _ => .lift (.error .expectedObject)

variable {read wantKey}

theorem countedExtractValue_result (key : Str) (last : Option α) (s : List UInt8) :
    (countedExtractValue read wantKey key last s).result =
      extractValue read wantKey key last s := by
  rw [countedExtractValue, extractValue]
  split_ifs
  · rw [Counted.bind_result]
    rfl
  · rw [Counted.bind_result, countedSkipJsonValue_result]
    rfl

theorem countedExtractLoop_result (k : ℕ) (last : Option α) (s : List UInt8) :
    (countedExtractLoop read wantKey k last s).result = extractLoop read wantKey k last s := by
  induction k generalizing last s with
  | zero => rfl
  | succ k ih =>
    rw [countedExtractLoop, extractLoop]
    simp only [Counted.bind_result, Counted.lift_result, countedExtractValue_result]
    refine bind_congr fun key ↦ bind_congr fun s₁ ↦ bind_congr fun v ↦ bind_congr fun m ↦ ?_
    split_ifs
    · exact ih v.1 m.2
    · rfl

/-- Counting does not change what is extracted. -/
theorem countedExtractField_result (input : List UInt8) :
    (countedExtractField read wantKey input).result = extractField read wantKey input := by
  by_cases hobject : ∃ s, trimAsciiWhitespace input = 123 :: s
  · obtain ⟨s, hinput⟩ := hobject
    by_cases hempty : ∃ r, skipper.skip s = 125 :: r
    · obtain ⟨r, hskip⟩ := hempty
      simp only [countedExtractField, extractField, hinput, hskip]
      rfl
    · have hne := not_exists.mp hempty
      simp only [countedExtractField, extractField, hinput]
      exact countedExtractLoop_result _ _ _
  · have hne := not_exists.mp hobject
    simp only [countedExtractField, extractField]
    rfl

/-! ### Where the extractors come to open brackets -/

variable (val : Written → Option α) (wantKey)

/-- The members lead the extraction of a field to an unwanted one in whose value this number of
brackets is open. -/
inductive MemberOpens : ℕ → List UInt8 → Prop
  | here {w key w₁ s : List UInt8} {n : ℕ} : plainTokens.Spaces w → plainTokens.string key →
      plainTokens.Spaces w₁ → eqIgnoreAsciiCase key wantKey = false →
      Opens plainTokens .value n s → MemberOpens n (w ++ 34 :: key ++ 34 :: w₁ ++ 58 :: s)
  | later {w key w₁ w₂ v w' s : List UInt8} {t : Written} {n : ℕ} : plainTokens.Spaces w →
      plainTokens.string key → plainTokens.Spaces w₁ → plainTokens.Spaces w₂ →
      Reads plainTokens v (.value t) →
      (eqIgnoreAsciiCase key wantKey = true → ∃ a, val t = some a) → plainTokens.Spaces w' →
      MemberOpens n s →
      MemberOpens n (w ++ 34 :: key ++ 34 :: w₁ ++ 58 :: w₂ ++ v ++ w' ++ 44 :: s)

/-- The same of a whole body. -/
def FieldOpens (n : ℕ) (input : List UInt8) : Prop :=
  ∃ s, trimAsciiWhitespace input = 123 :: s ∧ MemberOpens wantKey val n s

variable {val wantKey} {s r : List UInt8} {d k : ℕ} {last : Option α}

theorem memberOpens_head (hopen : MemberOpens wantKey val d s) :
    ∃ r, skipper.skip s = 34 :: r := by
  cases hopen with
  | here hw _ _ _ _ =>
    simp only [List.append_assoc, List.cons_append]
    exact ⟨_, skipper_recognises.skip_spaces_cons hw (by decide) _⟩
  | later hw _ _ _ _ _ _ _ =>
    simp only [List.append_assoc, List.cons_append]
    exact ⟨_, skipper_recognises.skip_spaces_cons hw (by decide) _⟩

/-- White space in front of the members does not count. -/
theorem memberOpens_skip :
    MemberOpens wantKey val d (skipper.skip s) ↔ MemberOpens wantKey val d s := by
  constructor
  · obtain ⟨w, hsplit, hw⟩ := skipper_recognises.skip_eq s
    generalize skipper.skip s = t at hsplit
    intro hopen
    subst hsplit
    cases hopen with
    | here hw₀ hplain hw₁ hne hopen =>
      have hhere : MemberOpens wantKey val d _ := .here (hw.append hw₀) hplain hw₁ hne hopen
      simpa using hhere
    | later hw₀ hplain hw₁ hw₂ hv ht hw' hrest =>
      have hlater := MemberOpens.later (hw.append hw₀) hplain hw₁ hw₂ hv ht hw' hrest
      simpa using hlater
  · intro hopen
    cases hopen with
    | here hw₀ hplain hw₁ hne hopen =>
      simp only [List.append_assoc, List.cons_append]
      rw [skipper_recognises.skip_spaces_cons hw₀ (by decide)]
      have hhere : MemberOpens wantKey val d _ :=
        .here plainTokens.spaces_nil hplain hw₁ hne hopen
      simpa using hhere
    | later hw₀ hplain hw₁ hw₂ hv ht hw' hrest =>
      simp only [List.append_assoc, List.cons_append]
      rw [skipper_recognises.skip_spaces_cons hw₀ (by decide)]
      have hlater := MemberOpens.later plainTokens.spaces_nil hplain hw₁ hw₂ hv ht hw' hrest
      simpa using hlater

theorem le_skipJsonValue_depth_iff :
    2 * (d + 1) ≤ (countedSkipJsonValue s).depth ↔ Opens plainTokens .value (d + 1) s := by
  rw [countedSkipJsonValue, Counted.le_bind_depth_iff,
    skipper_recognises.le_depth_iff (Nat.lt_succ_self _)]
  refine or_iff_left ?_
  rintro ⟨⟨t, rest⟩, -, hdepth⟩
  rw [Counted.pure_depth] at hdepth
  omega

theorem le_extractValue_depth_iff {key : Str} :
    2 * (d + 1) ≤ (countedExtractValue read wantKey key last s).depth ↔
      eqIgnoreAsciiCase key wantKey = false ∧ Opens plainTokens .value (d + 1) s := by
  rw [countedExtractValue]
  split_ifs with hkey
  · rw [hkey]
    refine iff_of_false ?_ (fun h ↦ nomatch h.1)
    rw [Counted.le_bind_depth_iff, Counted.lift_depth]
    rintro (hdepth | ⟨⟨v, rest⟩, -, hdepth⟩)
    · omega
    · rw [Counted.pure_depth] at hdepth
      omega
  · rw [Counted.le_bind_depth_iff, le_skipJsonValue_depth_iff]
    simp only [Bool.not_eq_true] at hkey
    simp only [hkey, true_and, Counted.pure_depth]
    exact or_iff_left fun ⟨_, _, hdepth⟩ ↦ absurd hdepth (by omega)

theorem opens_value_skip :
    Opens plainTokens .value (d + 1) (skipper.skip s) ↔ Opens plainTokens .value (d + 1) s := by
  rw [skipper_recognises.opens_value_succ_iff, skipper_recognises.opens_value_succ_iff,
    Scanner.Recognises.skip_skip]

/-- A wanted value that was read is there. -/
theorem extractValue_wanted {key : Str} {last' : Option α} {rest : List UInt8}
    (h : extractValue read wantKey key last s = .ok (last', rest))
    (hkey : eqIgnoreAsciiCase key wantKey = true) : ∃ a, last' = some a := by
  rw [extractValue, if_pos hkey] at h
  obtain ⟨⟨a, rest'⟩, -, h⟩ := bind_eq_ok.mp h
  obtain ⟨rfl, -⟩ := Prod.mk.inj (Except.ok.inj h)
  exact ⟨a, rfl⟩

theorem memberOpens_of_depth (hread : ReadsValue read val) (hk : s.length < k)
    (hdepth : 2 * (d + 1) ≤ (countedExtractLoop read wantKey k last s).depth) :
    MemberOpens wantKey val (d + 1) s := by
  induction k generalizing last s with
  | zero => exact absurd hk (Nat.not_lt_zero _)
  | succ k ih =>
    obtain ⟨w, hskip, hw⟩ := skipper_recognises.skip_eq s
    simp only [countedExtractLoop, Counted.le_bind_depth_iff, Prod.exists, Counted.lift_depth,
      Counted.lift_result, countedExtractValue_result, le_extractValue_depth_iff] at hdepth
    rcases hdepth with hdepth | ⟨key, s₁, hkey, hdepth | ⟨s₂, hcolon, hdepth⟩⟩
    · omega
    · omega
    · obtain ⟨hs, hplain⟩ := (readJsonString_ok_iff _ _ _).mp hkey
      obtain ⟨w₁, rfl, hw₁⟩ := skipper_recognises.colon_sound hcolon
      rw [hs] at hskip
      rw [hskip] at hk ⊢
      simp only [List.length_append, List.length_cons] at hk
      rcases hdepth with ⟨hne, hopen⟩ | ⟨last', s₃, hvalue, hdepth | ⟨more, s₄, hmore, hdepth⟩⟩
      · have hhere : MemberOpens wantKey val (d + 1) _ :=
          .here hw hplain hw₁ hne (opens_value_skip.mp hopen)
        simpa using hhere
      · omega
      · obtain ⟨w₂, v, t, rfl, hw₂, hv, hlast⟩ := extractValue_sound hread hvalue
        obtain ⟨w', rfl, hw'⟩ := skipper_recognises.separator_sound hmore
        cases more with
        | false =>
          simp only [Bool.false_eq_true, if_false, Counted.lift_depth] at hdepth
          omega
        | true =>
          simp only [if_true, List.length_append, List.length_cons] at hk hdepth
          have hwanted : eqIgnoreAsciiCase key wantKey = true → ∃ a, val t = some a := by
            intro hkey
            obtain ⟨a, ha⟩ := extractValue_wanted hvalue hkey
            rw [if_pos hkey] at hlast
            exact ⟨a, hlast.symm.trans ha⟩
          have hlater := MemberOpens.later hw hplain hw₁ hw₂ hv hwanted hw'
            (ih (by omega) hdepth)
          simpa using hlater

theorem depth_of_memberOpens (hread : ReadsValue read val) (hk : s.length < k)
    (hopen : MemberOpens wantKey val (d + 1) s) :
    2 * (d + 1) ≤ (countedExtractLoop read wantKey k last s).depth := by
  have hkey : ∀ {raw s : List UInt8}, plainTokens.string raw →
      readJsonString (34 :: (raw ++ 34 :: s)) = .ok (raw, s) :=
    fun hraw ↦ (readJsonString_ok_iff _ _ _).mpr ⟨by simp, hraw⟩
  induction k generalizing last s with
  | zero => exact absurd hk (Nat.not_lt_zero _)
  | succ k ih =>
    cases hopen with
    | here hw hplain hw₁ hne hopen =>
      simp only [List.append_assoc, List.cons_append]
      rw [countedExtractLoop, skipper_recognises.skip_spaces_cons hw (by decide), hkey hplain]
      simp only [Counted.le_bind_depth_iff, Prod.exists, Counted.lift_depth, Counted.lift_result,
        le_extractValue_depth_iff]
      exact Or.inr ⟨_, _, rfl, Or.inr ⟨_, skipper_recognises.colon_complete hw₁ _,
        Or.inl ⟨hne, opens_value_skip.mpr hopen⟩⟩⟩
    | later hw hplain hw₁ hw₂ hv ht hw' hrest =>
      rename_i w key w₁ w₂ v w' r t
      have hvalue := extractValue_complete hread last hw₂ hv
        (plainTokens_lawful.stops_append hw' (stops_cons (c := 44) (by decide) r)) ht
      simp only [List.append_assoc, List.cons_append, List.length_append, List.length_cons]
        at hk hvalue ⊢
      rw [countedExtractLoop, skipper_recognises.skip_spaces_cons hw (by decide), hkey hplain]
      simp only [Counted.le_bind_depth_iff, Prod.exists, Counted.lift_depth, Counted.lift_result,
        countedExtractValue_result]
      refine Or.inr ⟨_, _, rfl, Or.inr ⟨_, skipper_recognises.colon_complete hw₁ _,
        Or.inr ⟨_, _, hvalue, Or.inr ⟨true, r, skipper_recognises.separator_more hw' _ _ _, ?_⟩⟩⟩⟩
      rw [if_pos rfl]
      exact ih (by omega) hrest

theorem le_extractField_depth_iff (hread : ReadsValue read val) (input : List UInt8) :
    2 * (d + 1) ≤ (countedExtractField read wantKey input).depth ↔
      FieldOpens wantKey val (d + 1) input := by
  rw [countedExtractField, FieldOpens]
  split
  · rename_i s hinput
    have hmembers : (∃ s', trimAsciiWhitespace input = 123 :: s' ∧
        MemberOpens wantKey val (d + 1) s') ↔ MemberOpens wantKey val (d + 1) s := by
      simp [hinput]
    rw [hmembers]
    split
    · rename_i r hskip
      rw [Counted.lift_depth]
      refine iff_of_false (by omega) fun hopen ↦ ?_
      obtain ⟨r', hhead⟩ := memberOpens_head hopen
      rw [hskip] at hhead
      exact absurd (List.cons.inj hhead).1 (by decide)
    · have hle : (skipper.skip s).length ≤ s.length := List.length_dropWhile_le _ _
      constructor
      · intro hdepth
        exact memberOpens_skip.mp (memberOpens_of_depth hread (by omega) hdepth)
      · intro hopen
        exact depth_of_memberOpens hread (by omega) (memberOpens_skip.mpr hopen)
  · rename_i hopen
    rw [Counted.lift_depth]
    refine iff_of_false (by omega) ?_
    rintro ⟨s, hinput, -⟩
    exact hopen s hinput

end Extractor

/-! ### Whole bodies -/

theorem le_validate_depth_iff {d : ℕ} (body : List UInt8) :
    2 * (d + 1) ≤ (countedValidate body).depth ↔
      Opens minimalTokens .value (d + 1) (trimAsciiWhitespace body) := by
  rw [countedValidate]
  split_ifs with hempty
  · rw [Counted.pure_depth]
    refine iff_of_false (by omega) fun hopen ↦ ?_
    have hlength := hopen.le_length
    rw [List.isEmpty_iff.mp hempty, List.length_nil] at hlength
    omega
  · rw [Counted.le_bind_depth_iff, JsonParser.recognises.le_document_depth_iff]
    exact or_iff_left fun ⟨_, _, hdepth⟩ ↦ absurd hdepth (by rw [Counted.pure_depth]; omega)

theorem le_goCheck_depth_iff {d : ℕ} (body : List UInt8) :
    2 * (d + 1) ≤ (countedGoCheck body).depth ↔ Opens rfcTokens .value (d + 1) body := by
  rw [countedGoCheck, Counted.le_bind_depth_iff, GoJsonScan.recognises.le_document_depth_iff]
  exact or_iff_left fun ⟨_, _, hdepth⟩ ↦ absurd hdepth (by rw [Counted.pure_depth]; omega)

/-- Fewer than 100000 calls are under way at any time, in each of the checkers and extractors, on
exactly the bodies that lead it nowhere with 50000 brackets open. -/
theorem depth_below_iff (body : List UInt8) :
    ((countedValidate body).depth < 100000 ↔
      ¬Opens minimalTokens .value 50000 (trimAsciiWhitespace body)) ∧
    ((countedGoCheck body).depth < 100000 ↔ ¬Opens rfcTokens .value 50000 body) ∧
    (∀ key, (countedExtractField readJsonString key body).depth < 100000 ↔
      ¬FieldOpens key stringOf 50000 body) ∧
    ∀ key, (countedExtractField readJsonBool key body).depth < 100000 ↔
      ¬FieldOpens key boolOf 50000 body := by
  have hlimit (n : ℕ) : n < 100000 ↔ ¬2 * (49999 + 1) ≤ n := by omega
  refine ⟨?_, ?_, fun key ↦ ?_, fun key ↦ ?_⟩
  · rw [hlimit, le_validate_depth_iff]
  · rw [hlimit, le_goCheck_depth_iff]
  · rw [hlimit, le_extractField_depth_iff readJsonString_reads]
  · rw [hlimit, le_extractField_depth_iff readJsonBool_reads]

/-- Opening brackets, and a field with these for its value. -/
def deepBody : List UInt8 :=
  List.replicate 50000 91

def deepField : List UInt8 :=
  ascii "\x7b\"a\":" ++ deepBody

theorem trim_append_brackets (s : List UInt8) (n : ℕ)
    (hs : (s ++ List.replicate (n + 1) 91).dropWhile isAsciiWhitespace =
      s ++ List.replicate (n + 1) 91) :
    trimAsciiWhitespace (s ++ List.replicate (n + 1) 91) = s ++ List.replicate (n + 1) 91 := by
  rw [trimAsciiWhitespace, hs, List.replicate_succ', ← List.append_assoc,
    List.rdropWhile_concat_neg _ _ _ (by decide)]

/-- Bodies far below the limit of the parser that are recursed into. -/
theorem deepBody_depth :
    deepBody.length ≤ 1048576 ∧ ¬(countedValidate deepBody).depth < 100000 ∧
    ¬(countedGoCheck deepBody).depth < 100000 ∧ deepField.length ≤ 1048576 ∧
    ¬(countedExtractField readJsonString (ascii "to") deepField).depth < 100000 := by
  have hbody := opens_replicate minimalTokens 50000
  have htrim : trimAsciiWhitespace deepBody = deepBody := by
    refine trim_append_brackets [] 49999 ?_
    rw [List.nil_append, List.replicate_succ, List.dropWhile_cons_of_neg (by decide)]
  have hfield : trimAsciiWhitespace deepField = deepField := by
    refine trim_append_brackets (ascii "\x7b\"a\":") 49999 ?_
    rfl
  have hkey : plainTokens.string [97] :=
    ⟨.plain (by decide) (by decide) (by decide) .nil, by decide, by decide +kernel⟩
  have hmember : MemberOpens (ascii "to") stringOf 50000
      ([] ++ 34 :: [97] ++ 34 :: [] ++ 58 :: deepBody) :=
    .here plainTokens.spaces_nil hkey plainTokens.spaces_nil (by decide)
      (opens_replicate plainTokens 50000)
  have hlimit {n : ℕ} (h : 2 * (49999 + 1) ≤ n) : ¬n < 100000 := by omega
  refine ⟨?_, ?_, ?_, ?_, ?_⟩
  · rw [deepBody, List.length_replicate]
    decide
  · refine hlimit ((le_validate_depth_iff deepBody).mpr ?_)
    rw [htrim]
    exact hbody
  · exact hlimit ((le_goCheck_depth_iff deepBody).mpr (opens_replicate rfcTokens 50000))
  · rw [deepField, deepBody, List.length_append, List.length_replicate]
    decide
  · refine hlimit ((le_extractField_depth_iff readJsonString_reads deepField).mpr ?_)
    exact ⟨_, hfield.trans rfl, hmember⟩

end DoorAccess.Control
