import DoorAccess.Lib.JsonScan

/-!
# How deep a recursive descent goes

The functions of a `Scanner` call each other once for each bracket that is open, and this module
counts the calls that are under way at once. A `Counted` computation carries the largest number of
them beside its result, and the counting functions have the results of the plain ones
(`countedValue_result`). `Opens` says of a text alone that brackets are open at a place to which the
grammar leads, and `le_depth_iff` that these brackets are what the depth of a descent comes from:
two calls for each of them.
-/

set_option autoImplicit false
set_option relaxedAutoImplicit false

namespace DoorAccess.Json

/-! ### Counted computations -/

/-- A result and the largest number of calls that were under way at once. -/
structure Counted (E α : Type) where
  result : Except E α
  depth : ℕ

namespace Counted

variable {E α β : Type}

/-- A computation that calls nothing that is counted. -/
def lift (x : Except E α) : Counted E α :=
  ⟨x, 0⟩

/-- A call that is counted. -/
def call (m : Counted E α) : Counted E α :=
  ⟨m.result, m.depth + 1⟩

def andThen (m : Counted E α) (f : α → Counted E β) : Counted E β :=
  match m.result with
  | .error e => ⟨.error e, m.depth⟩
  | .ok a => ⟨(f a).result, max m.depth (f a).depth⟩

instance : Monad (Counted E) where
  pure a := lift (.ok a)
  bind := andThen

@[simp] theorem lift_result (x : Except E α) : (lift x).result = x := rfl

@[simp] theorem lift_depth (x : Except E α) : (lift x).depth = 0 := rfl

@[simp] theorem call_result (m : Counted E α) : m.call.result = m.result := rfl

@[simp] theorem call_depth (m : Counted E α) : m.call.depth = m.depth + 1 := rfl

@[simp] theorem pure_result (a : α) : (pure a : Counted E α).result = .ok a := rfl

@[simp] theorem pure_depth (a : α) : (pure a : Counted E α).depth = 0 := rfl

theorem bind_result (m : Counted E α) (f : α → Counted E β) :
    (m >>= f).result = m.result >>= fun a ↦ (f a).result := by
  change (andThen m f).result = _
  rw [andThen]
  cases m.result with
  | error e => rfl
  | ok a => rfl

/-- A composition goes as deep as one of its parts. -/
theorem le_bind_depth_iff {m : Counted E α} {f : α → Counted E β} {d : ℕ} :
    d ≤ (m >>= f).depth ↔ d ≤ m.depth ∨ ∃ a, m.result = .ok a ∧ d ≤ (f a).depth := by
  change d ≤ (andThen m f).depth ↔ _
  rw [andThen]
  cases m.result with
  | error e => simp
  | ok a => simp

end Counted

/-! ### The counting functions -/

namespace Scanner

variable {E : Type} (sc : Scanner E)

/-- `Scanner.items`, counted. The loop is part of the call for the array. -/
def countedItems (value : List UInt8 → Counted E (Written × List UInt8)) :
    ℕ → List UInt8 → Counted E (List Written × List UInt8)
  | 0, _ => .lift (.error sc.exhausted)
  | k + 1, s => do
    let (t, s) ← value s
    let (more, s) ← Counted.lift (sc.separator 93 sc.noItemEnd s)
    if more then do
      let (ts, s) ← countedItems value k s
      return (t :: ts, s)
    else return ([t], s)

/-- `Scanner.array`, counted. -/
def countedArray (value : List UInt8 → Counted E (Written × List UInt8)) (s : List UInt8) :
    Counted E (Written × List UInt8) :=
  Counted.call <|
    match sc.skip s with
    | 93 :: r => return (.array [], r)
    | r => do
      let (ts, r) ← sc.countedItems value (s.length + 1) r
      return (.array ts, r)

/-- `Scanner.members`, counted. -/
def countedMembers (value : List UInt8 → Counted E (Written × List UInt8)) :
    ℕ → List UInt8 → Counted E (List (List UInt8 × Written) × List UInt8)
  | 0, _ => .lift (.error sc.exhausted)
  | k + 1, s =>
    match sc.skip s with
    | [] => .lift (.error (sc.noKey none))
    | c :: s =>
      if c = 34 then do
        let (key, s) ← Counted.lift (sc.string s)
        let s ← Counted.lift (sc.colon s)
        let (t, s) ← value s
        let (more, s) ← Counted.lift (sc.separator 125 sc.noMemberEnd s)
        if more then do
          let (ms, s) ← countedMembers value k s
          return ((key, t) :: ms, s)
        else return ([(key, t)], s)
      else .lift (.error (sc.noKey (some c)))

/-- `Scanner.object`, counted. -/
def countedObject (value : List UInt8 → Counted E (Written × List UInt8)) (s : List UInt8) :
    Counted E (Written × List UInt8) :=
  Counted.call <|
    match sc.skip s with
    | 125 :: r => return (.object [], r)
    | r => do
      let (ms, r) ← sc.countedMembers value (s.length + 1) r
      return (.object ms, r)

/-- The values that take no further call, each from its first byte on. -/
def scalar (c : UInt8) (s : List UInt8) : Except E (Written × List UInt8) :=
  if c = 34 then do
    let (raw, s) ← sc.string s
    return (.string raw, s)
  else if c = 116 then do
    let s ← sc.literal literalTrue (c :: s)
    return (.bool true, s)
  else if c = 102 then do
    let s ← sc.literal literalFalse (c :: s)
    return (.bool false, s)
  else if c = 110 then do
    let s ← sc.literal literalNull (c :: s)
    return (.null, s)
  else if startsNumber c then do
    let (text, s) ← sc.number (c :: s)
    return (.number text, s)
  else .error (sc.noValue (some c))

/-- `Scanner.value`, counted. -/
def countedValue : ℕ → List UInt8 → Counted E (Written × List UInt8)
  | 0, _ => .lift (.error sc.exhausted)
  | n + 1, s =>
    Counted.call <|
      match sc.skip s with
      | [] => .lift (.error (sc.noValue none))
      | c :: s =>
        if c = 123 then sc.countedObject (countedValue n) s
        else if c = 91 then sc.countedArray (countedValue n) s
        else .lift (sc.scalar c s)

/-- `Scanner.document`, counted. -/
def countedDocument (s : List UInt8) : Counted E Written := do
  let (t, rest) ← sc.countedValue (s.length + 1) s
  match sc.skip rest with
  | [] => return t
  | c :: _ => .lift (.error (sc.trailing c))

/-! ### The results -/

variable {sc}

theorem countedItems_result {value : List UInt8 → Except E (Written × List UInt8)}
    {counted : List UInt8 → Counted E (Written × List UInt8)}
    (h : ∀ s, (counted s).result = value s) (k : ℕ) (s : List UInt8) :
    (sc.countedItems counted k s).result = sc.items value k s := by
  induction k generalizing s with
  | zero => rfl
  | succ k ih =>
    rw [countedItems, items]
    simp only [Counted.bind_result, Counted.lift_result, h]
    refine bind_congr fun p ↦ bind_congr fun q ↦ ?_
    split_ifs
    · simp only [Counted.bind_result, ih, Counted.pure_result]
      rfl
    · rfl

theorem countedMembers_result {value : List UInt8 → Except E (Written × List UInt8)}
    {counted : List UInt8 → Counted E (Written × List UInt8)}
    (h : ∀ s, (counted s).result = value s) (k : ℕ) (s : List UInt8) :
    (sc.countedMembers counted k s).result = sc.members value k s := by
  induction k generalizing s with
  | zero => rfl
  | succ k ih =>
    rw [countedMembers, members]
    cases sc.skip s with
    | nil => rfl
    | cons c r =>
      simp only
      split_ifs
      · simp only [Counted.bind_result, Counted.lift_result, h]
        refine bind_congr fun p ↦ bind_congr fun q ↦ bind_congr fun t ↦ bind_congr fun m ↦ ?_
        split_ifs
        · simp only [Counted.bind_result, ih, Counted.pure_result]
          rfl
        · rfl
      · rfl

theorem countedArray_result {value : List UInt8 → Except E (Written × List UInt8)}
    {counted : List UInt8 → Counted E (Written × List UInt8)}
    (h : ∀ s, (counted s).result = value s) (s : List UInt8) :
    (sc.countedArray counted s).result = sc.array value s := by
  rw [countedArray, array, Counted.call_result]
  generalize sc.skip s = t
  split
  · rfl
  · simp only [Counted.bind_result, countedItems_result h, Counted.pure_result]
    rfl

theorem countedObject_result {value : List UInt8 → Except E (Written × List UInt8)}
    {counted : List UInt8 → Counted E (Written × List UInt8)}
    (h : ∀ s, (counted s).result = value s) (s : List UInt8) :
    (sc.countedObject counted s).result = sc.object value s := by
  rw [countedObject, object, Counted.call_result]
  generalize sc.skip s = t
  split
  · rfl
  · simp only [Counted.bind_result, countedMembers_result h, Counted.pure_result]
    rfl

/-- Counting does not change what is read. -/
theorem countedValue_result (n : ℕ) (s : List UInt8) :
    (sc.countedValue n s).result = sc.value n s := by
  induction n generalizing s with
  | zero => rfl
  | succ n ih =>
    rw [countedValue, value, Counted.call_result]
    cases sc.skip s with
    | nil => rfl
    | cons c r =>
      simp only
      by_cases hobject : c = 123
      · rw [if_pos hobject, if_pos hobject]
        exact countedObject_result ih r
      · by_cases harray : c = 91
        · rw [if_neg hobject, if_pos harray, if_neg hobject, if_pos harray]
          exact countedArray_result ih r
        · rw [if_neg hobject, if_neg harray, if_neg hobject, if_neg harray]
          rfl

theorem countedDocument_result (s : List UInt8) :
    (sc.countedDocument s).result = sc.document s := by
  rw [countedDocument, document, Counted.bind_result, countedValue_result]
  refine bind_congr fun p ↦ ?_
  obtain ⟨t, rest⟩ := p
  dsimp only
  cases sc.skip rest with
  | nil => rfl
  | cons c r => rfl

end Scanner

/-! ### Open brackets -/

/-- What a text goes on with: a value, or the items or members behind a bracket. -/
inductive Place
  | value
  | items
  | members

/-- The text leads the grammar to a place where this number of brackets is open, of those that open
in it. -/
inductive Opens (T : Tokens) : Place → ℕ → List UInt8 → Prop
  | none {p : Place} {s : List UInt8} : Opens T p 0 s
  | array {w s : List UInt8} {n : ℕ} : T.Spaces w → Opens T .items n s →
      Opens T .value (n + 1) (w ++ 91 :: s)
  | object {w s : List UInt8} {n : ℕ} : T.Spaces w → Opens T .members n s →
      Opens T .value (n + 1) (w ++ 123 :: s)
  | item {s : List UInt8} {n : ℕ} : Opens T .value n s → Opens T .items n s
  | laterItem {w v w' s : List UInt8} {t : Written} {n : ℕ} : T.Spaces w → Reads T v (.value t) →
      T.Spaces w' → Opens T .items n s → Opens T .items n (w ++ v ++ w' ++ 44 :: s)
  | member {w key w₁ s : List UInt8} {n : ℕ} : T.Spaces w → T.string key → T.Spaces w₁ →
      Opens T .value n s → Opens T .members n (w ++ 34 :: key ++ 34 :: w₁ ++ 58 :: s)
  | laterMember {w key w₁ w₂ v w' s : List UInt8} {t : Written} {n : ℕ} : T.Spaces w →
      T.string key → T.Spaces w₁ → T.Spaces w₂ → Reads T v (.value t) → T.Spaces w' →
      Opens T .members n s →
      Opens T .members n (w ++ 34 :: key ++ 34 :: w₁ ++ 58 :: w₂ ++ v ++ w' ++ 44 :: s)

/-- Each open bracket is a byte of the text. -/
theorem Opens.le_length {T : Tokens} {p : Place} {n : ℕ} {s : List UInt8} (h : Opens T p n s) :
    n ≤ s.length := by
  induction h with
  | none => exact Nat.zero_le _
  | item _ ih => exact ih
  | array _ _ ih | object _ _ ih =>
    rw [List.length_append, List.length_cons]
    omega
  | laterItem _ _ _ _ ih | member _ _ _ _ ih | laterMember _ _ _ _ _ _ _ ih =>
    rw [List.length_append, List.length_cons]
    omega

/-- Brackets one behind the other. -/
theorem opens_replicate (T : Tokens) (n : ℕ) : Opens T .value n (List.replicate n 91) := by
  induction n with
  | zero => exact .none
  | succ n ih => exact .array T.spaces_nil (.item ih)

namespace Scanner.Recognises

variable {E : Type} {sc : Scanner E} {T : Tokens} {s r : List UInt8} {n d k : ℕ}

theorem opens_value_succ_iff (h : sc.Recognises T) :
    Opens T .value (d + 1) s ↔
      (∃ r, sc.skip s = 91 :: r ∧ Opens T .items d r) ∨
      ∃ r, sc.skip s = 123 :: r ∧ Opens T .members d r := by
  constructor
  · intro hopen
    cases hopen with
    | array hw hitems => exact Or.inl ⟨_, h.skip_spaces_cons hw (by decide) _, hitems⟩
    | object hw hmembers => exact Or.inr ⟨_, h.skip_spaces_cons hw (by decide) _, hmembers⟩
  · obtain ⟨w, hsplit, hw⟩ := h.skip_eq s
    rintro (⟨r, hskip, hitems⟩ | ⟨r, hskip, hmembers⟩)
    · rw [hsplit, hskip]
      exact .array hw hitems
    · rw [hsplit, hskip]
      exact .object hw hmembers

/-- White space in front of items does not count. -/
theorem opens_items_skip (h : sc.Recognises T) :
    Opens T .items d (sc.skip s) ↔ Opens T .items d s := by
  cases d with
  | zero => exact iff_of_true .none .none
  | succ d =>
    constructor
    · obtain ⟨w, hsplit, hw⟩ := h.skip_eq s
      generalize sc.skip s = t at hsplit
      intro hopen
      subst hsplit
      cases hopen with
      | item hvalue =>
        refine .item ((h.opens_value_succ_iff).mpr ?_)
        rw [h.skip_spaces hw]
        exact (h.opens_value_succ_iff).mp hvalue
      | laterItem hw₁ hv hw' hrest =>
        have hlater := Opens.laterItem (hw.append hw₁) hv hw' hrest
        simpa using hlater
    · intro hopen
      cases hopen with
      | item hvalue =>
        refine .item ((h.opens_value_succ_iff).mpr ?_)
        rw [skip_skip]
        exact (h.opens_value_succ_iff).mp hvalue
      | laterItem hw hv hw' hrest =>
        obtain ⟨c, tail, rfl, hc, -⟩ := h.lawful.value_head hv
        simp only [List.append_assoc, List.cons_append]
        rw [h.skip_spaces_cons hw hc]
        have hlater := Opens.laterItem T.spaces_nil hv hw' hrest
        simpa using hlater

/-- White space in front of members does not count. -/
theorem opens_members_skip (h : sc.Recognises T) :
    Opens T .members d (sc.skip s) ↔ Opens T .members d s := by
  constructor
  · obtain ⟨w, hsplit, hw⟩ := h.skip_eq s
    generalize sc.skip s = t at hsplit
    intro hopen
    subst hsplit
    cases hopen with
    | none => exact .none
    | member hw₀ hkey hw₁ hvalue =>
      have hmember := Opens.member (hw.append hw₀) hkey hw₁ hvalue
      simpa using hmember
    | laterMember hw₀ hkey hw₁ hw₂ hv hw' hrest =>
      have hlater := Opens.laterMember (hw.append hw₀) hkey hw₁ hw₂ hv hw' hrest
      simpa using hlater
  · intro hopen
    cases hopen with
    | none => exact .none
    | member hw₀ hkey hw₁ hvalue =>
      simp only [List.append_assoc, List.cons_append]
      rw [h.skip_spaces_cons hw₀ (by decide)]
      have hmember := Opens.member T.spaces_nil hkey hw₁ hvalue
      simpa using hmember
    | laterMember hw₀ hkey hw₁ hw₂ hv hw' hrest =>
      simp only [List.append_assoc, List.cons_append]
      rw [h.skip_spaces_cons hw₀ (by decide)]
      have hlater := Opens.laterMember T.spaces_nil hkey hw₁ hw₂ hv hw' hrest
      simpa using hlater

/-- Nothing is open any more in items that a bracket ends at once. -/
theorem not_opens_items_close (h : sc.Recognises T) (hskip : sc.skip s = 93 :: r) :
    ¬Opens T .items (d + 1) s := by
  intro hopen
  cases hopen with
  | item hvalue =>
    rcases (h.opens_value_succ_iff).mp hvalue with ⟨r', hskip', -⟩ | ⟨r', hskip', -⟩
    · rw [hskip] at hskip'
      exact absurd (List.cons.inj hskip').1 (by decide)
    · rw [hskip] at hskip'
      exact absurd (List.cons.inj hskip').1 (by decide)
  | laterItem hw hv hw' hrest =>
    obtain ⟨c, tail, rfl, hc, hne⟩ := h.lawful.value_head hv
    simp only [List.append_assoc, List.cons_append, h.skip_spaces_cons hw hc] at hskip
    exact hne (List.cons.inj hskip).1

theorem opens_members_head (h : sc.Recognises T) (hopen : Opens T .members (d + 1) s) :
    ∃ r, sc.skip s = 34 :: r := by
  cases hopen with
  | member hw _ _ _ =>
    simp only [List.append_assoc, List.cons_append]
    exact ⟨_, h.skip_spaces_cons hw (by decide) _⟩
  | laterMember hw _ _ _ _ _ _ =>
    simp only [List.append_assoc, List.cons_append]
    exact ⟨_, h.skip_spaces_cons hw (by decide) _⟩

/-! ### The depth of a descent -/

/-- What the loop over the items adds to the descent, if the values are counted right. -/
theorem le_items_depth_iff (h : sc.Recognises T)
    (hvalue : ∀ s, s.length < n → (2 * (d + 1) ≤ (sc.countedValue n s).depth ↔
      Opens T .value (d + 1) s)) (hk : s.length < k) (hn : s.length < n) :
    2 * (d + 1) ≤ (sc.countedItems (sc.countedValue n) k s).depth ↔ Opens T .items (d + 1) s := by
  induction k generalizing s with
  | zero => exact absurd hk (Nat.not_lt_zero _)
  | succ k ih =>
    rw [countedItems]
    simp only [Counted.le_bind_depth_iff, Prod.exists, Counted.lift_depth, Counted.lift_result,
      countedValue_result]
    constructor
    · rintro (hdepth | ⟨t, s₁, ht, hdepth | ⟨more, s₂, hmore, hdepth⟩⟩)
      · exact .item ((hvalue s hn).mp hdepth)
      · omega
      · obtain ⟨w, v, rfl, hw, hv⟩ := h.value_sound n _ _ _ ht
        obtain ⟨w', rfl, hw'⟩ := h.separator_sound hmore
        cases more with
        | false =>
          simp only [Bool.false_eq_true, if_false, Counted.pure_depth] at hdepth
          omega
        | true =>
          simp only [if_true, Counted.le_bind_depth_iff, Counted.pure_depth] at hdepth
          simp only [if_true, List.length_append, List.length_cons] at hk hn
          rcases hdepth with hdepth | ⟨_, _, hdepth⟩
          · have hlater := Opens.laterItem hw hv hw' ((ih (by omega) (by omega)).mp hdepth)
            simpa using hlater
          · omega
    · intro hopen
      cases hopen with
      | item hopen => exact Or.inl ((hvalue s hn).mpr hopen)
      | laterItem hw hv hw' hrest =>
        rename_i w v w' r t
        simp only [List.length_append, List.length_cons] at hk hn
        have ht := h.complete hv n w (w' ++ 44 :: r) (by omega) hw
          (h.lawful.stops_append hw' (stops_cons (by decide) _))
        refine Or.inr ⟨t, w' ++ 44 :: r, by rwa [List.append_assoc _ w'], Or.inr ⟨true, r,
          h.separator_more hw' _ _ _, ?_⟩⟩
        simp only [if_true, Counted.le_bind_depth_iff]
        exact Or.inl ((ih (by omega) (by omega)).mpr hrest)

/-- The loop over the members comes to open brackets only where the text leads to them. -/
theorem opens_of_members_depth (h : sc.Recognises T)
    (hvalue : ∀ s, s.length < n → (2 * (d + 1) ≤ (sc.countedValue n s).depth ↔
      Opens T .value (d + 1) s)) (hk : s.length < k) (hn : s.length < n)
    (hdepth : 2 * (d + 1) ≤ (sc.countedMembers (sc.countedValue n) k s).depth) :
    Opens T .members (d + 1) s := by
  induction k generalizing s with
  | zero => exact absurd hk (Nat.not_lt_zero _)
  | succ k ih =>
    obtain ⟨w, hsplit, hw⟩ := h.skip_eq s
    rw [countedMembers] at hdepth
    split at hdepth
    · rw [Counted.lift_depth] at hdepth
      omega
    · rename_i c r hskip
      split_ifs at hdepth with hquote
      · subst hquote
        rw [hskip] at hsplit
        have hlength := congrArg List.length hsplit
        simp only [List.length_append, List.length_cons] at hlength
        simp only [Counted.le_bind_depth_iff, Prod.exists, Counted.lift_depth, Counted.lift_result,
          countedValue_result] at hdepth
        rcases hdepth with hdepth | ⟨key, s₁, hstring, hdepth | ⟨s₂, hcolon, hdepth⟩⟩
        · omega
        · omega
        · obtain ⟨rfl, hkey⟩ := (h.string _ _ _).mp hstring
          obtain ⟨w₁, rfl, hw₁⟩ := h.colon_sound hcolon
          simp only [List.length_append, List.length_cons] at hlength
          rw [hsplit]
          rcases hdepth with hdepth | ⟨t, s₃, ht, hdepth | ⟨more, s₄, hmore, hdepth⟩⟩
          · have hmember := Opens.member hw hkey hw₁ ((hvalue _ (by omega)).mp hdepth)
            simpa using hmember
          · omega
          · obtain ⟨w₂, v, rfl, hw₂, hv⟩ := h.value_sound n _ _ _ ht
            obtain ⟨w', rfl, hw'⟩ := h.separator_sound hmore
            cases more with
            | false =>
              simp only [Bool.false_eq_true, if_false, Counted.pure_depth] at hdepth
              omega
            | true =>
              simp only [if_true, Counted.le_bind_depth_iff, Counted.pure_depth] at hdepth
              simp only [if_true, List.length_append, List.length_cons] at hlength
              rcases hdepth with hdepth | ⟨_, _, hdepth⟩
              · have hlater := Opens.laterMember hw hkey hw₁ hw₂ hv hw'
                  (ih (by omega) (by omega) hdepth)
                simpa using hlater
              · omega
      · rw [Counted.lift_depth] at hdepth
        omega

/-- The loop over the members comes to every place with open brackets to which the text leads. -/
theorem members_depth_of_opens (h : sc.Recognises T)
    (hvalue : ∀ s, s.length < n → (2 * (d + 1) ≤ (sc.countedValue n s).depth ↔
      Opens T .value (d + 1) s)) (hk : s.length < k) (hn : s.length < n)
    (hopen : Opens T .members (d + 1) s) :
    2 * (d + 1) ≤ (sc.countedMembers (sc.countedValue n) k s).depth := by
  induction k generalizing s with
  | zero => exact absurd hk (Nat.not_lt_zero _)
  | succ k ih =>
    cases hopen with
    | member hw hkey hw₁ hopen =>
      rename_i w key w₁ r
      simp only [List.append_assoc, List.cons_append, List.length_append, List.length_cons]
        at hk hn ⊢
      rw [countedMembers, h.skip_spaces_cons hw (by decide)]
      simp only [if_true, Counted.le_bind_depth_iff, Prod.exists, Counted.lift_depth,
        Counted.lift_result]
      exact Or.inr ⟨key, _, (h.string _ _ _).mpr ⟨rfl, hkey⟩, Or.inr ⟨r,
        h.colon_complete hw₁ _, Or.inl ((hvalue _ (by omega)).mpr hopen)⟩⟩
    | laterMember hw hkey hw₁ hw₂ hv hw' hrest =>
      rename_i w key w₁ w₂ v w' r t
      simp only [List.append_assoc, List.cons_append, List.length_append, List.length_cons]
        at hk hn ⊢
      have ht := h.complete hv n w₂ (w' ++ 44 :: r) (by omega) hw₂
        (h.lawful.stops_append hw' (stops_cons (by decide) _))
      rw [List.append_assoc] at ht
      rw [countedMembers, h.skip_spaces_cons hw (by decide)]
      simp only [if_true, Counted.le_bind_depth_iff, Prod.exists, Counted.lift_depth,
        Counted.lift_result, countedValue_result]
      refine Or.inr ⟨key, _, (h.string _ _ _).mpr ⟨rfl, hkey⟩, Or.inr ⟨_,
        h.colon_complete hw₁ _, Or.inr ⟨t, _, ht, Or.inr ⟨true, r,
          h.separator_more hw' _ _ _, ?_⟩⟩⟩⟩
      simp only [if_true, Counted.le_bind_depth_iff]
      exact Or.inl (ih (by omega) (by omega) hrest)

theorem le_array_depth_iff (h : sc.Recognises T)
    (hvalue : ∀ d s, s.length < n → (2 * (d + 1) ≤ (sc.countedValue n s).depth ↔
      Opens T .value (d + 1) s)) (hn : s.length < n) :
    2 * d + 1 ≤ (sc.countedArray (sc.countedValue n) s).depth ↔ Opens T .items d s := by
  have hle : (sc.skip s).length ≤ s.length := List.length_dropWhile_le _ _
  cases d with
  | zero =>
    rw [countedArray, Counted.call_depth]
    exact iff_of_true (by omega) .none
  | succ d =>
    rw [countedArray, Counted.call_depth, Nat.add_le_add_iff_right]
    split
    · rename_i r hskip
      rw [Counted.pure_depth]
      exact iff_of_false (by omega) (h.not_opens_items_close hskip)
    · simp only [Counted.le_bind_depth_iff, Counted.pure_depth]
      rw [h.le_items_depth_iff (hvalue d) (by omega) (by omega), h.opens_items_skip]
      exact or_iff_left fun ⟨_, _, hdepth⟩ ↦ absurd hdepth (by omega)

theorem le_object_depth_iff (h : sc.Recognises T)
    (hvalue : ∀ d s, s.length < n → (2 * (d + 1) ≤ (sc.countedValue n s).depth ↔
      Opens T .value (d + 1) s)) (hn : s.length < n) :
    2 * d + 1 ≤ (sc.countedObject (sc.countedValue n) s).depth ↔ Opens T .members d s := by
  have hle : (sc.skip s).length ≤ s.length := List.length_dropWhile_le _ _
  cases d with
  | zero =>
    rw [countedObject, Counted.call_depth]
    exact iff_of_true (by omega) .none
  | succ d =>
    rw [countedObject, Counted.call_depth, Nat.add_le_add_iff_right]
    split
    · rename_i r hskip
      rw [Counted.pure_depth]
      refine iff_of_false (by omega) fun hopen ↦ ?_
      obtain ⟨r', hhead⟩ := h.opens_members_head hopen
      rw [hskip] at hhead
      exact absurd (List.cons.inj hhead).1 (by decide)
    · simp only [Counted.le_bind_depth_iff, Counted.pure_depth]
      rw [← h.opens_members_skip]
      constructor
      · rintro (hdepth | ⟨_, _, hdepth⟩)
        · exact h.opens_of_members_depth (hvalue d) (by omega) (by omega) hdepth
        · omega
      · exact fun hopen ↦ Or.inl (h.members_depth_of_opens (hvalue d) (by omega) (by omega) hopen)

/-- A descent is as deep as twice the number of brackets that the text leaves open at once. -/
theorem le_depth_iff (h : sc.Recognises T) (hn : s.length < n) :
    2 * d ≤ (sc.countedValue n s).depth ↔ Opens T .value d s := by
  cases d with
  | zero => exact iff_of_true (Nat.zero_le _) .none
  | succ d =>
    -- The number of brackets goes down with the bound on the descent.
    induction n generalizing d s with
    | zero => exact absurd hn (Nat.not_lt_zero _)
    | succ n ih =>
      have hle : (sc.skip s).length ≤ s.length := List.length_dropWhile_le _ _
      rw [h.opens_value_succ_iff, countedValue, Counted.call_depth]
      have hstep (m : ℕ) : 2 * (d + 1) ≤ m + 1 ↔ 2 * d + 1 ≤ m := by omega
      rw [hstep]
      cases hskip : sc.skip s with
      | nil => simp
      | cons c r =>
        rw [hskip, List.length_cons] at hle
        simp only [List.cons.injEq]
        by_cases hobject : c = 123
        · subst hobject
          rw [if_pos rfl, h.le_object_depth_iff (fun d s hs ↦ ih hs d) (by omega)]
          simp
        · by_cases harray : c = 91
          · subst harray
            rw [if_neg hobject, if_pos rfl,
              h.le_array_depth_iff (fun d s hs ↦ ih hs d) (by omega)]
            simp
          · rw [if_neg hobject, if_neg harray, Counted.lift_depth]
            simp [hobject, harray]

theorem le_document_depth_iff (h : sc.Recognises T) :
    2 * d ≤ (sc.countedDocument s).depth ↔ Opens T .value d s := by
  cases d with
  | zero => exact iff_of_true (Nat.zero_le _) .none
  | succ d =>
    rw [countedDocument, Counted.le_bind_depth_iff, h.le_depth_iff (Nat.lt_succ_self _)]
    refine or_iff_left ?_
    rintro ⟨⟨t, rest⟩, -, hdepth⟩
    dsimp only at hdepth
    cases hskip : sc.skip rest with
    | nil =>
      simp only [hskip, Counted.pure_depth] at hdepth
      omega
    | cons c r =>
      simp only [hskip, Counted.lift_depth] at hdepth
      omega

end Scanner.Recognises

end DoorAccess.Json
