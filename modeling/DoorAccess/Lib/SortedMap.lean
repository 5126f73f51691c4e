import Mathlib.Data.List.Sort
import Mathlib.Order.Basic

/-!
# Maps in the order of their keys

A `SortedMap` is a finite map as the list of its entries in the order of their keys, each key once,
which is how an ordered tree is seen by whoever goes through it. Maps with the same values under all
keys are equal (`SortedMap.ext_lookup`). In a map that is filled from a list, of a key that comes
twice the last value stays (`lookup_insertAll`).
-/

set_option autoImplicit false
set_option relaxedAutoImplicit false

namespace DoorAccess

/-- A map as its entries in the strict order of their keys. -/
structure SortedMap (κ α : Type*) [LinearOrder κ] where
  entries : List (κ × α)
  sorted : entries.Pairwise fun a b ↦ a.1 < b.1

namespace SortedMap

variable {κ α β : Type*} [LinearOrder κ]

def empty : SortedMap κ α where
  entries := []
  sorted := .nil

def lookup (k : κ) (m : SortedMap κ α) : Option α :=
  m.entries.lookup k

/-- The entries with a value under a key, which replaces the one that may be there. -/
def insertEntry (k : κ) (v : α) : List (κ × α) → List (κ × α)
  | [] => [(k, v)]
  | (k', v') :: rest =>
    if k < k' then (k, v) :: (k', v') :: rest
    else if k = k' then (k, v) :: rest
    else (k', v') :: insertEntry k v rest

theorem mem_insertEntry {k : κ} {v : α} {l : List (κ × α)} {e : κ × α}
    (h : e ∈ insertEntry k v l) : e = (k, v) ∨ e ∈ l := by
  induction l with
  | nil => exact Or.inl (List.mem_singleton.mp h)
  | cons head rest ih =>
    obtain ⟨k', v'⟩ := head
    rw [insertEntry] at h
    split_ifs at h
    · exact List.mem_cons.mp h
    · rcases List.mem_cons.mp h with h | h
      · exact Or.inl h
      · exact Or.inr (List.mem_cons_of_mem _ h)
    · rcases List.mem_cons.mp h with h | h
      · exact Or.inr (h ▸ List.mem_cons_self)
      · exact (ih h).imp_right (List.mem_cons_of_mem _)

theorem pairwise_insertEntry (k : κ) (v : α) {l : List (κ × α)}
    (h : l.Pairwise fun a b ↦ a.1 < b.1) :
    (insertEntry k v l).Pairwise fun a b ↦ a.1 < b.1 := by
  induction l with
  | nil => exact List.pairwise_singleton _ _
  | cons head rest ih =>
    obtain ⟨k', v'⟩ := head
    obtain ⟨hhead, hrest⟩ := List.pairwise_cons.mp h
    rw [insertEntry]
    split_ifs with hlt heq
    · refine List.pairwise_cons.mpr ⟨fun e he ↦ ?_, h⟩
      rcases List.mem_cons.mp he with rfl | he
      · exact hlt
      · exact lt_trans hlt (hhead e he)
    · subst heq
      exact List.pairwise_cons.mpr ⟨hhead, hrest⟩
    · refine List.pairwise_cons.mpr ⟨fun e he ↦ ?_, ih hrest⟩
      rcases mem_insertEntry he with rfl | he
      · exact lt_of_le_of_ne (not_lt.mp hlt) (Ne.symm heq)
      · exact hhead e he

def insert (m : SortedMap κ α) (k : κ) (v : α) : SortedMap κ α where
  entries := insertEntry k v m.entries
  sorted := pairwise_insertEntry k v m.sorted

/-- The entries of a list one after the other. -/
def insertAll (m : SortedMap κ α) (l : List (κ × α)) : SortedMap κ α :=
  l.foldl (fun m e ↦ m.insert e.1 e.2) m

/-- The value of the last entry of a list under a key. -/
def lastValue (l : List (κ × α)) (k : κ) : Option α :=
  l.reverse.lookup k

/-! ### What a map holds -/

theorem lookup_cons (k' : κ) (v : α) (l : List (κ × α)) (k : κ) :
    ((k', v) :: l).lookup k = if k = k' then some v else l.lookup k := by
  rw [List.lookup_cons]
  by_cases hk : k = k'
  · simp [hk]
  · have hbeq : (k == k') = false := by simpa using hk
    simp [hk, hbeq]

theorem lookup_insertEntry (k : κ) (v : α) (l : List (κ × α)) (k' : κ) :
    (insertEntry k v l).lookup k' = if k' = k then some v else l.lookup k' := by
  induction l with
  | nil => exact lookup_cons k v [] k'
  | cons head rest ih =>
    obtain ⟨key, value⟩ := head
    rw [insertEntry]
    by_cases hlt : k < key
    · rw [if_pos hlt, lookup_cons]
    · rw [if_neg hlt]
      by_cases heq : k = key
      · rw [if_pos heq, lookup_cons, lookup_cons, ← heq]
        split_ifs <;> rfl
      · rw [if_neg heq, lookup_cons, lookup_cons, ih]
        by_cases hk : k' = k
        · rw [if_pos hk, if_pos hk, if_neg (fun h ↦ heq (hk.symm.trans h))]
        · rw [if_neg hk, if_neg hk]

theorem lookup_insert (m : SortedMap κ α) (k : κ) (v : α) (k' : κ) :
    (m.insert k v).lookup k' = if k' = k then some v else m.lookup k' :=
  lookup_insertEntry k v m.entries k'

/-- Of the values under one key the last one stays. -/
theorem lookup_insertAll (m : SortedMap κ α) (l : List (κ × α)) (k : κ) :
    (m.insertAll l).lookup k = (lastValue l k).or (m.lookup k) := by
  induction l generalizing m with
  | nil => rfl
  | cons e l ih =>
    obtain ⟨key, value⟩ := e
    rw [insertAll, List.foldl_cons]
    change ((m.insert key value).insertAll l).lookup k = _
    rw [ih, lookup_insert, lastValue, lastValue, List.reverse_cons, List.lookup_append, lookup_cons,
      Option.or_assoc]
    split_ifs <;> rfl

/-- In a list without a key twice a key has the value it stands beside. -/
theorem lookup_eq_some_iff_mem {l : List (κ × α)} (h : (l.map Prod.fst).Nodup) {k : κ} {v : α} :
    l.lookup k = some v ↔ (k, v) ∈ l := by
  induction l with
  | nil => simp
  | cons head rest ih =>
    obtain ⟨k', v'⟩ := head
    obtain ⟨hhead, hrest⟩ := List.nodup_cons.mp h
    rw [lookup_cons, List.mem_cons, Prod.mk.injEq]
    by_cases hk : k = k'
    · subst hk
      have hnot : (k, v) ∉ rest := fun hmem ↦ hhead (List.mem_map.mpr ⟨_, hmem, rfl⟩)
      simp [hnot, eq_comm]
    · simp [hk, ih hrest]

theorem nodup_keys (m : SortedMap κ α) : (m.entries.map Prod.fst).Nodup :=
  List.pairwise_map.mpr (m.sorted.imp fun hlt ↦ ne_of_lt hlt)

theorem lookup_eq_some_iff (m : SortedMap κ α) {k : κ} {v : α} :
    m.lookup k = some v ↔ (k, v) ∈ m.entries :=
  lookup_eq_some_iff_mem m.nodup_keys

/-- A map is what it holds. -/
theorem ext_lookup {m m' : SortedMap κ α} (h : ∀ k, m.lookup k = m'.lookup k) : m = m' := by
  have hmem : ∀ e, e ∈ m.entries ↔ e ∈ m'.entries := fun ⟨k, v⟩ ↦ by
    rw [← m.lookup_eq_some_iff, ← m'.lookup_eq_some_iff, h]
  have hperm : m.entries.Perm m'.entries :=
    (List.perm_ext_iff_of_nodup m.nodup_keys.of_map m'.nodup_keys.of_map).mpr hmem
  have heq : m.entries = m'.entries :=
    hperm.eq_of_pairwise (fun a b _ _ hab hba ↦ absurd hba (lt_asymm hab)) m.sorted m'.sorted
  cases m
  cases m'
  cases heq
  rfl

theorem lookup_perm {l l' : List (κ × α)} (h : l.Perm l') (hnodup : (l.map Prod.fst).Nodup)
    (k : κ) : l.lookup k = l'.lookup k := by
  refine Option.ext fun v ↦ ?_
  rw [lookup_eq_some_iff_mem hnodup, lookup_eq_some_iff_mem ((h.map Prod.fst).nodup_iff.mp hnodup),
    h.mem_iff]

/-- The entries of a map in another one. -/
theorem lookup_insertAll_entries (m m' : SortedMap κ α) (k : κ) :
    (m.insertAll m'.entries).lookup k = (m'.lookup k).or (m.lookup k) := by
  rw [lookup_insertAll, lastValue, ← lookup_perm m'.entries.reverse_perm.symm m'.nodup_keys]
  rfl

/-- The same keys with other values. -/
def map (f : α → β) (m : SortedMap κ α) : SortedMap κ β where
  entries := m.entries.map fun e ↦ (e.1, f e.2)
  sorted := List.pairwise_map.mpr m.sorted

theorem lookup_map (f : α → β) (m : SortedMap κ α) (k : κ) :
    (m.map f).lookup k = (m.lookup k).map f := by
  obtain ⟨l, hl⟩ := m
  change (l.map fun e ↦ (e.1, f e.2)).lookup k = (l.lookup k).map f
  clear hl
  induction l with
  | nil => rfl
  | cons head rest ih =>
    rw [List.map_cons, List.lookup_cons, List.lookup_cons, ih]
    cases k == head.1 <;> rfl

end SortedMap

end DoorAccess
