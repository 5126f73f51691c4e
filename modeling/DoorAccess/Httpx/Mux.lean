import DoorAccess.Httpx.Response
import DoorAccess.Lib.Ranked
import Mathlib.Data.List.Infix

/-!
# The request router

`ServeMux` keeps the patterns that end in a slash, which stand for all paths they begin, in a list
that falls in length, and all others, which stand for themselves, in a map. A request goes to the
map first and then to the first pattern of the list that begins its path. What that comes to has
nothing to do with either: the request goes to the longest registered pattern that covers its path
(`registerAll_spec`), in whatever order the patterns were registered.
-/

set_option autoImplicit false
set_option relaxedAutoImplicit false

namespace DoorAccess.Httpx

open Ranked

/-- A handler of the server: the calls it makes on the response writer and what it does to the
state it works on. -/
abbrev Handler (σ : Type*) := Request → σ → List Call × σ

/-- The panics of `ServeMux::handle`. -/
inductive MuxPanic
  /-- `httpx: empty pattern` -/
  | emptyPattern
  /-- `httpx: nil handler` -/
  | nilHandler
  /-- `httpx: duplicate pattern: {pattern}` -/
  | duplicatePattern (pattern : Text)
  deriving DecidableEq

/-- The patterns with their handlers. -/
structure ServeMux (α : Type*) where
  exact : AList fun _ : Text ↦ α
  prefixes : List (Text × α)

/-- `http404`. -/
def http404 : List Call :=
  [.set "Content-Type".toList "text/plain; charset=utf-8".toList, .set "Content-Length".toList
    "9".toList, .writeHeader 404, .write (Codec.ascii "Not Found")]

namespace ServeMux

variable {α : Type*}

def new : ServeMux α where
  exact := ∅
  prefixes := []

/-- Whether a pattern stands for every path that it begins. -/
def isSubtree (pattern : Text) : Bool :=
  pattern.getLast? == some '/'

def handle (mux : ServeMux α) (pattern : Text) (handler : Option α) :
    Except MuxPanic (ServeMux α) :=
  if pattern = [] then .error .emptyPattern
  else
    match handler with
    | none => .error .nilHandler
    | some handler =>
      if isSubtree pattern then
        if mux.prefixes.any fun e ↦ e.1 == pattern then .error (.duplicatePattern pattern)
        else .ok { mux with
          prefixes := rise (fun e ↦ byteLength e.1) (mux.prefixes ++ [(pattern, handler)])
            mux.prefixes.length }
      else if pattern ∈ mux.exact then .error (.duplicatePattern pattern)
      else .ok { mux with exact := mux.exact.insert pattern handler }

def matchHandler (mux : ServeMux α) (path : Text) : Option α :=
  match mux.exact.lookup path with
  | some handler => some handler
  | none => (mux.prefixes.find? fun e ↦ e.1.isPrefixOf path).map Prod.snd

def serveHttp {σ : Type*} (mux : ServeMux (Handler σ)) : Handler σ := fun r s ↦
  match mux.matchHandler r.url.path with
  | some handler => handler r s
  | none => (http404, s)

/-- The registrations of a server one after the other. -/
def registerAll (mux : ServeMux α) (regs : List (Text × α)) : Except MuxPanic (ServeMux α) :=
  regs.foldlM (fun mux reg ↦ mux.handle reg.1 (some reg.2)) mux

/-! ### What a pattern covers -/

/-- The paths that a pattern stands for. -/
def Covers (pattern path : Text) : Prop :=
  if isSubtree pattern then pattern <+: path else pattern = path

instance (pattern path : Text) : Decidable (Covers pattern path) :=
  inferInstanceAs (Decidable (if isSubtree pattern = true then pattern <+: path
    else pattern = path))

theorem Covers.isPrefix {pattern path : Text} (h : Covers pattern path) : pattern <+: path := by
  unfold Covers at h
  split_ifs at h
  · exact h
  · rw [h]

/-- Of two beginnings of a path the one with fewer bytes begins the other. -/
theorem isPrefix_of_byteLength_le {p q path : Text} (hp : p <+: path) (hq : q <+: path)
    (hle : byteLength q ≤ byteLength p) : q <+: p := by
  rcases List.prefix_or_prefix_of_prefix hq hp with h | ⟨rest, rfl⟩
  · exact h
  · rw [byteLength, byteLength, Utf8.encode_append, List.length_append] at hle
    cases rest with
    | nil => rw [List.append_nil]
    | cons c rest =>
      have hpos := List.length_pos_iff.mpr (Utf8.encodeChar_ne_nil c)
      rw [Utf8.encode_cons, List.length_append] at hle
      omega

/-! ### The invariant of the router -/

/-- The router holds these registrations. -/
structure Holds (regs : List (Text × α)) (mux : ServeMux α) : Prop where
  nodup : (regs.map Prod.fst).Nodup
  nonempty : ∀ reg ∈ regs, reg.1 ≠ []
  exact : ∀ pattern handler, mux.exact.lookup pattern = some handler ↔
    (pattern, handler) ∈ regs ∧ isSubtree pattern = false
  prefixes : ∀ reg, reg ∈ mux.prefixes ↔ reg ∈ regs ∧ isSubtree reg.1 = true
  falling : Falling (fun e ↦ byteLength e.1) mux.prefixes

theorem holds_new : Holds [] (new : ServeMux α) where
  nodup := List.nodup_nil
  nonempty := fun _ hreg ↦ absurd hreg List.not_mem_nil
  exact := fun pattern _ ↦ iff_of_false
    (fun h ↦ Option.some_ne_none _ (h.symm.trans (AList.lookup_empty pattern)))
    (fun h ↦ absurd h.1 List.not_mem_nil)
  prefixes := fun _ ↦ iff_of_false List.not_mem_nil (fun h ↦ absurd h.1 List.not_mem_nil)
  falling := List.Pairwise.nil

variable {regs : List (Text × α)} {mux mux' : ServeMux α} {pattern : Text} {handler : α}

theorem Holds.any_prefixes (h : Holds regs mux) (hsub : isSubtree pattern = true) :
    (mux.prefixes.any fun e ↦ e.1 == pattern) = true ↔ pattern ∈ regs.map Prod.fst := by
  rw [List.any_eq_true, List.mem_map]
  constructor
  · rintro ⟨reg, hreg, heq⟩
    exact ⟨reg, ((h.prefixes reg).mp hreg).1, eq_of_beq heq⟩
  · rintro ⟨reg, hreg, rfl⟩
    exact ⟨reg, (h.prefixes reg).mpr ⟨hreg, hsub⟩, beq_self_eq_true _⟩

theorem Holds.mem_exact (h : Holds regs mux) (hsub : isSubtree pattern = false) :
    pattern ∈ mux.exact ↔ pattern ∈ regs.map Prod.fst := by
  rw [← AList.lookup_isSome, Option.isSome_iff_exists, List.mem_map]
  constructor
  · rintro ⟨handler, hlookup⟩
    exact ⟨(pattern, handler), ((h.exact _ _).mp hlookup).1, rfl⟩
  · rintro ⟨reg, hreg, rfl⟩
    exact ⟨reg.2, (h.exact _ _).mpr ⟨hreg, hsub⟩⟩

theorem nodup_concat {regs : List (Text × α)} (h : (regs.map Prod.fst).Nodup)
    (hnew : pattern ∉ regs.map Prod.fst) :
    ((regs ++ [(pattern, handler)]).map Prod.fst).Nodup := by
  rw [List.map_append, List.nodup_append]
  refine ⟨h, List.nodup_singleton _, fun p hp q hq heq ↦ hnew ?_⟩
  have hpattern : q = pattern := List.mem_singleton.mp hq
  rwa [← hpattern, ← heq]

/-- A registration that the router takes. -/
theorem Holds.handle (h : Holds regs mux) (hok : mux.handle pattern (some handler) = .ok mux') :
    pattern ≠ [] ∧ pattern ∉ regs.map Prod.fst ∧ Holds (regs ++ [(pattern, handler)]) mux' := by
  unfold ServeMux.handle at hok
  split_ifs at hok with hne hsub hdup hdup
  · have hnew : pattern ∉ regs.map Prod.fst := fun hmem ↦ hdup ((h.any_prefixes hsub).mpr hmem)
    have hmux : mux' = { mux with
        prefixes := rise (fun e ↦ byteLength e.1) (mux.prefixes ++ [(pattern, handler)])
          mux.prefixes.length } := (Except.ok.inj hok).symm
    subst hmux
    refine ⟨hne, hnew, nodup_concat h.nodup hnew, ?_, fun p a ↦ ?_, fun reg ↦ ?_, ?_⟩
    · intro reg hreg
      rcases List.mem_append.mp hreg with hreg | hreg
      · exact h.nonempty reg hreg
      · rwa [List.mem_singleton.mp hreg]
    · rw [h.exact, List.mem_append, List.mem_singleton, Prod.mk.injEq]
      refine ⟨fun hp ↦ ⟨Or.inl hp.1, hp.2⟩, fun hp ↦ ⟨hp.1.resolve_right ?_, hp.2⟩⟩
      rintro ⟨rfl, -⟩
      rw [hsub] at hp
      cases hp.2
    · rw [(rise_perm mux.prefixes (pattern, handler)).mem_iff, List.mem_cons, h.prefixes,
        List.mem_append, List.mem_singleton]
      constructor
      · rintro (rfl | hreg)
        · exact ⟨Or.inr rfl, hsub⟩
        · exact ⟨Or.inl hreg.1, hreg.2⟩
      · rintro ⟨hreg | rfl, hsubreg⟩
        · exact Or.inr ⟨hreg, hsubreg⟩
        · exact Or.inl rfl
    · exact h.falling.rise (pattern, handler)
  · have hsub : isSubtree pattern = false := Bool.eq_false_iff.mpr hsub
    have hnew : pattern ∉ regs.map Prod.fst := fun hmem ↦ hdup ((h.mem_exact hsub).mpr hmem)
    have hmux : mux' = { mux with exact := mux.exact.insert pattern handler } :=
      (Except.ok.inj hok).symm
    subst hmux
    refine ⟨hne, hnew, nodup_concat h.nodup hnew, ?_, fun p a ↦ ?_, fun reg ↦ ?_, h.falling⟩
    · intro reg hreg
      rcases List.mem_append.mp hreg with hreg | hreg
      · exact h.nonempty reg hreg
      · rwa [List.mem_singleton.mp hreg]
    · rw [List.mem_append, List.mem_singleton, Prod.mk.injEq]
      by_cases hp : p = pattern
      · subst hp
        have hold : (p, a) ∉ regs := fun hmem ↦ hnew (List.mem_map_of_mem hmem)
        simp only [AList.lookup_insert, Option.some.injEq, hold, true_and, false_or, hsub,
          and_true]
        exact eq_comm
      · rw [AList.lookup_insert_ne hp, h.exact]
        simp only [hp, false_and, or_false]
    · rw [h.prefixes, List.mem_append, List.mem_singleton]
      refine ⟨fun hreg ↦ ⟨Or.inl hreg.1, hreg.2⟩, fun hreg ↦ ⟨hreg.1.resolve_right ?_, hreg.2⟩⟩
      rintro rfl
      rw [hsub] at hreg
      cases hreg.2

/-- The registrations that a router with others takes. -/
theorem Holds.handle_ok (h : Holds regs mux) (hne : pattern ≠ [])
    (hnew : pattern ∉ regs.map Prod.fst) :
    ∃ mux', mux.handle pattern (some handler) = .ok mux' := by
  unfold ServeMux.handle
  rw [if_neg hne]
  cases hsub : isSubtree pattern with
  | true =>
    have hdup : ¬(mux.prefixes.any fun e ↦ e.1 == pattern) = true := fun hany ↦
      hnew ((h.any_prefixes hsub).mp hany)
    simp only [if_true, hdup]
    exact ⟨_, rfl⟩
  | false =>
    have hdup : pattern ∉ mux.exact := fun hmem ↦ hnew ((h.mem_exact hsub).mp hmem)
    simp only [Bool.false_eq_true, if_false, if_neg hdup]
    exact ⟨_, rfl⟩

theorem Holds.registerAll {more : List (Text × α)} (h : Holds regs mux)
    (hok : mux.registerAll more = .ok mux') : Holds (regs ++ more) mux' := by
  induction more generalizing regs mux with
  | nil =>
    obtain rfl : mux = mux' := Except.ok.inj hok
    rwa [List.append_nil]
  | cons reg more ih =>
    rw [ServeMux.registerAll, List.foldlM_cons] at hok
    cases hstep : mux.handle reg.1 (some reg.2) with
    | error e =>
      rw [hstep] at hok
      cases hok
    | ok next =>
      rw [hstep] at hok
      have hnext := ih (h.handle hstep).2.2 hok
      rwa [List.append_assoc, List.singleton_append] at hnext

theorem Holds.registerAll_ok {more : List (Text × α)} (h : Holds regs mux)
    (hne : ∀ reg ∈ more, reg.1 ≠ []) (hnodup : ((regs ++ more).map Prod.fst).Nodup) :
    ∃ mux', mux.registerAll more = .ok mux' := by
  induction more generalizing regs mux with
  | nil => exact ⟨mux, rfl⟩
  | cons reg more ih =>
    rw [List.forall_mem_cons] at hne
    have hnew : reg.1 ∉ regs.map Prod.fst := by
      rw [List.map_append, List.nodup_append] at hnodup
      exact fun hmem ↦ hnodup.2.2 _ hmem _ List.mem_cons_self rfl
    obtain ⟨next, hstep⟩ : ∃ next, mux.handle reg.1 reg.2 = .ok next := h.handle_ok hne.1 hnew
    have hholds := (h.handle hstep).2.2
    obtain ⟨mux', hmore⟩ := ih hholds hne.2
      (by rwa [List.append_assoc, List.singleton_append])
    refine ⟨mux', ?_⟩
    rw [ServeMux.registerAll, List.foldlM_cons, hstep]
    exact hmore

/-! ### Where a request goes -/

/-- The registration of the longest pattern that covers a path: all others that cover it begin this
pattern. -/
def Best (regs : List (Text × α)) (path : Text) (reg : Text × α) : Prop :=
  reg ∈ regs ∧ Covers reg.1 path ∧ ∀ other ∈ regs, Covers other.1 path → other.1 <+: reg.1

theorem Best.eq (hnodup : (regs.map Prod.fst).Nodup) {path : Text} {a b : Text × α}
    (ha : Best regs path a) (hb : Best regs path b) : a = b := by
  have hle := ha.2.2 b hb.1 hb.2.1
  have hge := hb.2.2 a ha.1 ha.2.1
  exact List.inj_on_of_nodup_map hnodup ha.1 hb.1
    (hge.eq_of_length_le hle.length_le)

theorem Holds.best_of_exact (h : Holds regs mux) {path : Text}
    (hlookup : mux.exact.lookup path = some handler) : Best regs path (path, handler) := by
  obtain ⟨hmem, hsub⟩ := (h.exact _ _).mp hlookup
  refine ⟨hmem, ?_, fun other _ hcovers ↦ hcovers.isPrefix⟩
  unfold Covers
  rw [hsub]
  rfl

/-- Without a pattern for the path alone, only patterns of subtrees cover it. -/
theorem Holds.isSubtree_of_covers (h : Holds regs mux) {path : Text}
    (hlookup : mux.exact.lookup path = none) {reg : Text × α} (hreg : reg ∈ regs)
    (hcovers : Covers reg.1 path) : isSubtree reg.1 = true := by
  by_contra hsub
  rw [Bool.not_eq_true] at hsub
  have hpath : reg.1 = path := by
    unfold Covers at hcovers
    rwa [hsub, if_neg Bool.false_ne_true] at hcovers
  have hsome := (h.exact reg.1 reg.2).mpr ⟨hreg, hsub⟩
  rw [hpath, hlookup] at hsome
  cases hsome

theorem Holds.covers_of_mem (h : Holds regs mux) {path : Text} {reg : Text × α}
    (hreg : reg ∈ mux.prefixes) : Covers reg.1 path ↔ reg.1.isPrefixOf path = true := by
  unfold Covers
  rw [((h.prefixes reg).mp hreg).2, if_pos rfl, List.isPrefixOf_iff_prefix]

theorem Holds.best_of_find (h : Holds regs mux) {path : Text}
    (hlookup : mux.exact.lookup path = none) {reg : Text × α}
    (hfind : (mux.prefixes.find? fun e ↦ e.1.isPrefixOf path) = some reg) :
    Best regs path reg := by
  have hmem := List.mem_of_find?_eq_some hfind
  have hbegins : reg.1.isPrefixOf path = true :=
    List.find?_some (p := fun e : Text × α ↦ e.1.isPrefixOf path) hfind
  have hcovers := (h.covers_of_mem hmem).mpr hbegins
  refine ⟨((h.prefixes reg).mp hmem).1, hcovers, fun other hother hcov ↦ ?_⟩
  have hin := (h.prefixes other).mpr ⟨hother, h.isSubtree_of_covers hlookup hother hcov⟩
  exact isPrefix_of_byteLength_le hcovers.isPrefix hcov.isPrefix
    (h.falling.le_of_find? hfind hin ((h.covers_of_mem hin).mp hcov))

/-- A request goes to the longest pattern that covers its path. -/
theorem Holds.matchHandler_iff (h : Holds regs mux) (path : Text) (handler : α) :
    mux.matchHandler path = some handler ↔ ∃ pattern, Best regs path (pattern, handler) := by
  unfold matchHandler
  cases hlookup : mux.exact.lookup path with
  | some exactHandler =>
    have hbest := h.best_of_exact hlookup
    simp only [Option.some.injEq]
    refine ⟨fun heq ↦ ⟨path, heq ▸ hbest⟩, fun ⟨pattern, hpattern⟩ ↦ ?_⟩
    exact congrArg Prod.snd (hbest.eq h.nodup hpattern)
  | none =>
    simp only [Option.map_eq_some_iff]
    constructor
    · rintro ⟨reg, hfind, rfl⟩
      exact ⟨reg.1, h.best_of_find hlookup hfind⟩
    · rintro ⟨pattern, hbest⟩
      have hin : (pattern, handler) ∈ mux.prefixes :=
        (h.prefixes _).mpr ⟨hbest.1, h.isSubtree_of_covers hlookup hbest.1 hbest.2.1⟩
      obtain ⟨reg, hfind⟩ : ∃ reg, (mux.prefixes.find? fun e ↦ e.1.isPrefixOf path) = some reg :=
        Option.isSome_iff_exists.mp
          (List.find?_isSome.mpr ⟨_, hin, (h.covers_of_mem hin).mp hbest.2.1⟩)
      exact ⟨reg, hfind, congrArg Prod.snd ((h.best_of_find hlookup hfind).eq h.nodup hbest)⟩

theorem Holds.matchHandler_isSome (h : Holds regs mux) (path : Text) :
    (mux.matchHandler path).isSome = true ↔ ∃ reg ∈ regs, Covers reg.1 path := by
  rw [Option.isSome_iff_exists]
  constructor
  · rintro ⟨handler, hmatch⟩
    obtain ⟨pattern, hbest⟩ := (h.matchHandler_iff path handler).mp hmatch
    exact ⟨_, hbest.1, hbest.2.1⟩
  · rintro ⟨reg, hreg, hcovers⟩
    unfold matchHandler
    cases hlookup : mux.exact.lookup path with
    | some exactHandler => exact ⟨_, rfl⟩
    | none =>
      have hin : reg ∈ mux.prefixes :=
        (h.prefixes _).mpr ⟨hreg, h.isSubtree_of_covers hlookup hreg hcovers⟩
      obtain ⟨found, hfind⟩ : ∃ found, (mux.prefixes.find? fun e ↦ e.1.isPrefixOf path) =
          some found :=
        Option.isSome_iff_exists.mp
          (List.find?_isSome.mpr ⟨reg, hin, (h.covers_of_mem hin).mp hcovers⟩)
      exact ⟨found.2, by simp only [hfind, Option.map_some]⟩

/-- For every sequence of registrations: they go through without a panic exactly if no pattern is
empty or comes twice, and then a request goes to the longest pattern that covers its path, to none
exactly if no pattern covers it, and to the same one in whatever order the registrations were
made. -/
theorem registerAll_spec (regs : List (Text × α)) :
    ((∃ mux, registerAll new regs = .ok mux) ↔
      (∀ reg ∈ regs, reg.1 ≠ []) ∧ (regs.map Prod.fst).Nodup) ∧
    ∀ mux : ServeMux α, registerAll new regs = .ok mux →
      (∀ path handler, mux.matchHandler path = some handler ↔
        ∃ pattern, Best regs path (pattern, handler)) ∧
      (∀ path, mux.matchHandler path = none ↔ ∀ reg ∈ regs, ¬Covers reg.1 path) ∧
      ∀ regs' : List (Text × α), regs'.Perm regs → ∃ mux', registerAll new regs' = .ok mux' ∧
        ∀ path, mux'.matchHandler path = mux.matchHandler path := by
  have hall (regs : List (Text × α)) (mux : ServeMux α) (hok : registerAll new regs = .ok mux) :
      Holds regs mux := holds_new.registerAll hok
  refine ⟨⟨fun ⟨mux, hok⟩ ↦ ⟨(hall regs mux hok).nonempty, (hall regs mux hok).nodup⟩,
    fun ⟨hne, hnodup⟩ ↦ holds_new.registerAll_ok hne hnodup⟩, fun mux hok ↦ ?_⟩
  have hmux := hall regs mux hok
  refine ⟨hmux.matchHandler_iff, fun path ↦ ?_, fun regs' hperm ↦ ?_⟩
  · rw [← Option.not_isSome_iff_eq_none, hmux.matchHandler_isSome]
    exact ⟨fun h reg hreg hcovers ↦ h ⟨reg, hreg, hcovers⟩,
      fun h ⟨reg, hreg, hcovers⟩ ↦ h reg hreg hcovers⟩
  · obtain ⟨mux', hok'⟩ : ∃ mux', registerAll new regs' = .ok mux' := holds_new.registerAll_ok
      (fun reg hreg ↦ hmux.nonempty reg (hperm.mem_iff.mp hreg))
      ((hperm.map Prod.fst).nodup_iff.mpr hmux.nodup)
    have hmux' := hall regs' mux' hok'
    refine ⟨mux', hok', fun path ↦ Option.ext fun handler ↦ ?_⟩
    rw [hmux'.matchHandler_iff, hmux.matchHandler_iff]
    refine exists_congr fun pattern ↦ ?_
    simp only [Best, hperm.mem_iff]

/-- A path with a pattern of its own, and one below the same subtree without. -/
theorem registerAll_spec_subtree :
    let regs := [("/video/".toList, 0), ("/video/start".toList, 1), ("/".toList, 2)]
    ∃ mux, registerAll new regs = .ok mux ∧ mux.matchHandler "/video/start".toList = some 1 ∧
      mux.matchHandler "/video/x".toList = some 0 := by
  intro regs
  obtain ⟨mux, hok⟩ := (registerAll_spec regs).1.mpr ⟨by decide, by decide⟩
  have hmatch := ((registerAll_spec regs).2 mux hok).1
  refine ⟨mux, hok, (hmatch _ _).mpr ⟨"/video/start".toList, ?_⟩,
    (hmatch _ _).mpr ⟨"/video/".toList, ?_⟩⟩
  · exact ⟨by decide, by decide, by decide⟩
  · exact ⟨by decide, by decide, by decide⟩

end ServeMux

end DoorAccess.Httpx
