import DoorAccess.Video.Rtp

/-!
# Cutting at start codes

`extract_nals_annexb` looks for the first start code, then for the first one behind it, and so on.
A start code overlaps no other, so that there is one way to cut a payload at all of them
(`CutAt.unique`), and the units are the pieces that are not empty. The zeros at the end of a piece
stay with it: the start code found is the one that ends at the next `01` behind three zeros.
-/

set_option autoImplicit false
set_option relaxedAutoImplicit false

namespace DoorAccess.Video

/-- No start code stands in the bytes. -/
def CodeFree (p : List UInt8) : Prop :=
  ¬START_CODE <:+: p

/-- A payload and its pieces between consecutive start codes. -/
structure CutAt (payload : List UInt8) (pieces : List (List UInt8)) : Prop where
  joined : START_CODE.intercalate pieces = payload
  nonempty : pieces ≠ []
  codeFree : ∀ p ∈ pieces, CodeFree p

/-- The unit of bytes that are not empty. -/
def unitOf (ts : UInt32) (data : List UInt8) : NalUnit :=
  ⟨data.headD 0 &&& 31, data, ts, 0⟩

variable {p q rest payload : List UInt8} {pieces : List (List UInt8)} {b : UInt8} {i : ℕ}

/-! ### The first start code -/

theorem CodeFree.of_cons (h : CodeFree (b :: p)) : CodeFree p :=
  fun hsub ↦ h (hsub.trans (List.infix_cons (List.infix_refl p)))

/-- A start code does not begin in a piece and end in the next start code. -/
theorem take_ne_of_codeFree (h : CodeFree (b :: p)) (rest : List UInt8) :
    (b :: (p ++ START_CODE ++ rest)).take START_CODE.length ≠ START_CODE := by
  intro htake
  match p with
  | [] => simp [START_CODE] at htake
  | [c] => simp [START_CODE] at htake
  | [c, d] => simp [START_CODE] at htake
  | c :: d :: e :: p =>
    have hstart : (b :: c :: d :: e :: p).take START_CODE.length = START_CODE := htake
    exact h (hstart ▸ (List.take_prefix _ _).isInfix)

theorem findStartCode_append (h : CodeFree p) (rest : List UInt8) :
    findStartCode (p ++ START_CODE ++ rest) = some p.length := by
  induction p with
  | nil => rfl
  | cons b p ih =>
    rw [List.cons_append, List.cons_append, findStartCode, if_neg (take_ne_of_codeFree h rest),
      ih h.of_cons]
    rfl

theorem findStartCode_eq_none (h : CodeFree p) : findStartCode p = none := by
  induction p with
  | nil => rfl
  | cons b p ih =>
    have htake : (b :: p).take START_CODE.length ≠ START_CODE := fun htake ↦
      h (htake ▸ (List.take_prefix _ _).isInfix)
    rw [findStartCode, if_neg htake, ih h.of_cons]
    rfl

/-- Where no start code begins with the first byte, the first one is in the rest. -/
theorem codeFree_cons (htake : (b :: p).take START_CODE.length ≠ START_CODE) (h : CodeFree p) :
    CodeFree (b :: p) := by
  intro hsub
  rcases List.infix_cons_iff.mp hsub with hstart | hsub
  · exact htake (List.prefix_iff_eq_take.mp hstart).symm
  · exact h hsub

theorem codeFree_nil : CodeFree [] :=
  fun hsub ↦ nomatch List.eq_nil_of_infix_nil hsub

/-- What no start code is found in is free of them. -/
theorem codeFree_of_findStartCode (h : findStartCode p = none) : CodeFree p := by
  induction p with
  | nil => exact codeFree_nil
  | cons b p ih =>
    rw [findStartCode] at h
    split_ifs at h with htake
    exact codeFree_cons htake (ih (Option.map_eq_none_iff.mp h))

/-- The start code that is found is the first one. -/
theorem split_of_findStartCode (h : findStartCode payload = some i) :
    payload = payload.take i ++ START_CODE ++ payload.drop (i + START_CODE.length) ∧
      CodeFree (payload.take i) := by
  induction payload generalizing i with
  | nil => exact nomatch h
  | cons b rest ih =>
    rw [findStartCode] at h
    split_ifs at h with htake
    · obtain rfl := Option.some.inj h
      refine ⟨?_, codeFree_nil⟩
      rw [List.take_zero, List.nil_append, Nat.zero_add]
      nth_rewrite 1 [← htake]
      exact (List.take_append_drop _ _).symm
    · obtain ⟨j, hj, rfl⟩ := Option.map_eq_some_iff.mp h
      obtain ⟨hrest, hfree⟩ := ih hj
      refine ⟨?_, codeFree_cons ?_ hfree⟩
      · rw [List.take_succ_cons, Nat.add_right_comm, List.drop_succ_cons, List.cons_append,
          List.cons_append, ← hrest]
      · intro hcode
        refine htake ?_
        have hstart : START_CODE <+: b :: rest.take j := hcode ▸ List.take_prefix _ _
        have hwhole : START_CODE <+: b :: rest :=
          hstart.trans ((List.prefix_cons_inj b).mpr (List.take_prefix j rest))
        exact (List.prefix_iff_eq_take.mp hwhole).symm

/-! ### All start codes -/

theorem nalsAfter_of_none (ts : UInt32) (h : findStartCode payload = none) :
    nalsAfter ts payload = nalOf ts payload := by
  rw [nalsAfter, h]

theorem nalsAfter_of_some (ts : UInt32) (h : findStartCode payload = some i) :
    nalsAfter ts payload =
      nalOf ts (payload.take i) ++ nalsAfter ts (payload.drop (i + START_CODE.length)) := by
  rw [nalsAfter, h]

/-- The loop over what follows a start code is the whole of `extract_nals_annexb`. -/
theorem extractNalsAnnexb_eq (payload : List UInt8) (ts : UInt32) :
    extractNalsAnnexb payload ts = nalsAfter ts payload := by
  rw [nalsAfter, extractNalsAnnexb]
  cases findStartCode payload with
  | none | some i => rfl

theorem nalOf_eq (ts : UInt32) (data : List UInt8) :
    nalOf ts data = if data.isEmpty then [] else [unitOf ts data] := by
  cases data with
  | nil | cons b rest => rfl

theorem CutAt.cons (h : CutAt rest pieces) (hp : CodeFree p) :
    CutAt (p ++ START_CODE ++ rest) (p :: pieces) where
  joined := by
    rw [List.intercalate_cons_of_ne_nil h.nonempty, h.joined]
  nonempty := List.cons_ne_nil p pieces
  codeFree := List.forall_mem_cons.mpr ⟨hp, h.codeFree⟩

theorem cutAt_singleton (hp : CodeFree p) : CutAt p [p] where
  joined := List.intercalate_singleton
  nonempty := List.cons_ne_nil p []
  codeFree := List.forall_mem_singleton.mpr hp

/-- A payload is cut at the start codes as the loop finds them. -/
theorem exists_cutAt (payload : List UInt8) : ∃ pieces, CutAt payload pieces := by
  induction hn : payload.length using Nat.strong_induction_on generalizing payload with
  | _ n ih =>
    cases hfind : findStartCode payload with
    | none => exact ⟨[payload], cutAt_singleton (codeFree_of_findStartCode hfind)⟩
    | some i =>
      obtain ⟨hsplit, hfree⟩ := split_of_findStartCode hfind
      have hle := findStartCode_le hfind
      have hcode : START_CODE.length = 4 := rfl
      have hlength : (payload.drop (i + START_CODE.length)).length < n := by
        rw [List.length_drop]
        omega
      obtain ⟨pieces, hpieces⟩ := ih _ hlength _ rfl
      have hcut := hpieces.cons hfree
      rw [← hsplit] at hcut
      exact ⟨_, hcut⟩

/-- The first piece ends where the first start code is found, and the others are those of what
follows it. -/
theorem CutAt.step (h : CutAt payload pieces) :
    (findStartCode payload = none ∧ pieces = [payload]) ∨
      ∃ i others, findStartCode payload = some i ∧ pieces = payload.take i :: others ∧
        CutAt (payload.drop (i + START_CODE.length)) others := by
  match pieces, h with
  | [], h => exact absurd rfl h.nonempty
  | [p], h =>
    have hjoined := h.joined
    rw [List.intercalate_singleton] at hjoined
    obtain rfl := hjoined
    exact .inl ⟨findStartCode_eq_none (h.codeFree p List.mem_cons_self), rfl⟩
  | p :: q :: others, h =>
    obtain ⟨hp, hrest⟩ := List.forall_mem_cons.mp h.codeFree
    have hjoined := h.joined
    rw [List.intercalate_cons_cons] at hjoined
    have hfind := findStartCode_append hp (START_CODE.intercalate (q :: others))
    have htake : payload.take p.length = p := by
      rw [← hjoined, List.append_assoc]
      exact List.take_left
    have hdrop : payload.drop (p.length + START_CODE.length) =
        START_CODE.intercalate (q :: others) := by
      rw [← hjoined, ← List.length_append]
      exact List.drop_left
    refine .inr ⟨p.length, q :: others, hjoined ▸ hfind, by rw [htake], ?_⟩
    exact ⟨hdrop.symm, List.cons_ne_nil q others, hrest⟩

/-- The units are the pieces, as far as they hold bytes. -/
theorem CutAt.extract_eq (ts : UInt32) (h : CutAt payload pieces) :
    extractNalsAnnexb payload ts = pieces.flatMap (nalOf ts) := by
  rw [extractNalsAnnexb_eq]
  induction pieces generalizing payload with
  | nil => exact absurd rfl h.nonempty
  | cons p pieces ih =>
    rcases h.step with ⟨hnone, hpieces⟩ | ⟨i, others, hsome, hpieces, hothers⟩
    · rw [nalsAfter_of_none ts hnone, hpieces, List.flatMap_singleton]
    · obtain ⟨rfl, rfl⟩ := List.cons.inj hpieces
      rw [nalsAfter_of_some ts hsome, ih hothers, List.flatMap_cons]

/-- There is one way to cut a payload. -/
theorem CutAt.unique {other : List (List UInt8)} (h : CutAt payload pieces)
    (hother : CutAt payload other) : other = pieces := by
  induction pieces generalizing payload other with
  | nil => exact absurd rfl h.nonempty
  | cons p pieces ih =>
    rcases h.step with ⟨hnone, hpieces⟩ | ⟨i, rest, hsome, hpieces, hrest⟩
    · rcases hother.step with ⟨-, hother⟩ | ⟨i, _, hsome, -⟩
      · rw [hother, hpieces]
      · exact nomatch hnone.symm.trans hsome
    · obtain ⟨rfl, rfl⟩ := List.cons.inj hpieces
      rcases hother.step with ⟨hnone, -⟩ | ⟨j, rest, hfound, hother, hothers⟩
      · exact nomatch hnone.symm.trans hsome
      · obtain rfl := Option.some.inj (hsome.symm.trans hfound)
        rw [hother, ih hrest hothers]

/-! ### What comes out -/

theorem flatMap_nalOf (ts : UInt32) (pieces : List (List UInt8)) :
    pieces.flatMap (nalOf ts) = (pieces.filter fun p ↦ !p.isEmpty).map (unitOf ts) := by
  induction pieces with
  | nil => rfl
  | cons p pieces ih =>
    rw [List.flatMap_cons, ih, nalOf_eq]
    cases p with
    | nil | cons b p => rfl

/-- Pieces behind start codes, with a beginning that is one of them if it is there. -/
theorem cutAt_units (fragment : Option (List UInt8)) (nals : List (List UInt8))
    (hfragment : ∀ f ∈ fragment, CodeFree f) (hnals : ∀ n ∈ nals, CodeFree n) :
    CutAt (fragment.getD [] ++ nals.flatMap (START_CODE ++ ·)) (fragment.getD [] :: nals) where
  joined := by
    induction nals generalizing fragment with
    | nil => rw [List.intercalate_singleton, List.flatMap_nil, List.append_nil]
    | cons n nals ih =>
      rw [List.intercalate_cons_cons, List.flatMap_cons, List.append_assoc]
      have hrest := ih (some n) (fun f hf ↦ Option.some.inj hf ▸ hnals n List.mem_cons_self)
        fun m hm ↦ hnals m (List.mem_cons_of_mem n hm)
      rw [Option.getD_some] at hrest
      rw [hrest, List.append_assoc]
  nonempty := List.cons_ne_nil _ nals
  codeFree := by
    refine List.forall_mem_cons.mpr ⟨?_, hnals⟩
    cases fragment with
    | none => exact codeFree_nil
    | some f => exact hfragment f rfl

/-- **The units are the pieces between the start codes**: those that were put there, and in any
payload the ones that hold bytes, in order. -/
theorem extractNalsAnnexb_pieces (ts : UInt32) :
    (∀ (fragment : Option (List UInt8)) (nals : List (List UInt8)),
      (∀ f ∈ fragment, f ≠ [] ∧ CodeFree f) → (∀ n ∈ nals, n ≠ [] ∧ CodeFree n) →
      extractNalsAnnexb (fragment.getD [] ++ nals.flatMap (START_CODE ++ ·)) ts =
        (fragment.toList ++ nals).map (unitOf ts)) ∧
    ∀ payload, (∀ unit ∈ extractNalsAnnexb payload ts, unit.data ≠ [] ∧ CodeFree unit.data) ∧
      ∃ pieces, CutAt payload pieces ∧ (∀ other, CutAt payload other → other = pieces) ∧
        extractNalsAnnexb payload ts = (pieces.filter fun p ↦ !p.isEmpty).map (unitOf ts) := by
  constructor
  · intro fragment nals hfragment hnals
    have hcut := cutAt_units fragment nals (fun f hf ↦ (hfragment f hf).2)
      fun n hn ↦ (hnals n hn).2
    have hkeep : nals.filter (fun p ↦ !p.isEmpty) = nals :=
      List.filter_eq_self.mpr fun n hn ↦ by simpa using (hnals n hn).1
    rw [hcut.extract_eq, flatMap_nalOf, List.filter_cons, hkeep]
    cases fragment with
    | none => rfl
    | some f =>
      have hne : (!f.isEmpty) = true := by simpa using (hfragment f rfl).1
      rw [Option.getD_some, if_pos hne]
      rfl
  · intro payload
    obtain ⟨pieces, hcut⟩ := exists_cutAt payload
    have hunits : extractNalsAnnexb payload ts =
        (pieces.filter fun p ↦ !p.isEmpty).map (unitOf ts) := by
      rw [hcut.extract_eq, flatMap_nalOf]
    refine ⟨fun unit hunit ↦ ?_, pieces, hcut, fun other ↦ hcut.unique, hunits⟩
    rw [hunits] at hunit
    obtain ⟨p, hp, rfl⟩ := List.mem_map.mp hunit
    obtain ⟨hmem, hne⟩ := List.mem_filter.mp hp
    have hdata : p ≠ [] := by simpa using hne
    exact ⟨hdata, hcut.codeFree p hmem⟩

/-- A fragment and two units that end in zeros. -/
theorem extractNalsAnnexb_zeros :
    extractNalsAnnexb [1, 0, 0, 0, 1, 0x67, 0, 0, 0, 0, 0, 1, 0x65, 0] 90000 =
      [⟨1, [1], 90000, 0⟩, ⟨7, [0x67, 0, 0], 90000, 0⟩, ⟨5, [0x65, 0], 90000, 0⟩] := by
  have hfragment : ∀ f ∈ some [(1 : UInt8)], f ≠ [] ∧ CodeFree f := by
    rintro f ⟨⟩
    exact ⟨List.cons_ne_nil _ _, codeFree_of_findStartCode rfl⟩
  have hnals : ∀ n ∈ [[(0x67 : UInt8), 0, 0], [0x65, 0]], n ≠ [] ∧ CodeFree n := by
    rw [List.forall_mem_cons, List.forall_mem_singleton]
    exact ⟨⟨List.cons_ne_nil _ _, codeFree_of_findStartCode rfl⟩, List.cons_ne_nil _ _,
      codeFree_of_findStartCode rfl⟩
  exact (extractNalsAnnexb_pieces 90000).1 _ _ hfragment hnals

end DoorAccess.Video
