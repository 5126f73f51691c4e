import Mathlib.Data.List.Basic
import Mathlib.Data.List.Induction
import Mathlib.Data.List.Pairwise

/-!
# Lists kept in the order of a rank

An element that is put at the end of a list and swapped towards the front while it ranks higher than
its neighbour comes to stand behind everything that ranks at least as high (`rise_append`). So a
list that is built this way falls in rank, and the first of its elements with a property is one of
the highest rank with it (`Falling.le_of_find?`).
-/

set_option autoImplicit false
set_option relaxedAutoImplicit false

namespace DoorAccess.Ranked

variable {α : Type*} (rank : α → ℕ)

/-- The swaps of the element at a position with its neighbours in front. -/
def rise (l : List α) : ℕ → List α
  | 0 => l
  | i + 1 =>
    match l[i + 1]?, l[i]? with
    | some e, some b => if rank b < rank e then rise ((l.set (i + 1) b).set i e) i else l
    | _, _ => l

/-- No element ranks higher than one in front of it. -/
def Falling (l : List α) : Prop :=
  l.Pairwise fun a b ↦ rank b ≤ rank a

variable {rank}

theorem rise_concat (front : List α) (b e : α) (back : List α) :
    rise rank (front ++ b :: e :: back) (front.length + 1) =
      if rank b < rank e then rise rank (front ++ e :: b :: back) front.length
      else front ++ b :: e :: back := by
  have he : (front ++ b :: e :: back)[front.length + 1]? = some e := by
    rw [List.getElem?_append_right (by omega), Nat.add_sub_cancel_left]
    rfl
  have hb : (front ++ b :: e :: back)[front.length]? = some b := by
    rw [List.getElem?_append_right (Nat.le_refl _), Nat.sub_self]
    rfl
  have hset : ((front ++ b :: e :: back).set (front.length + 1) b).set front.length e =
      front ++ e :: b :: back := by
    rw [List.set_append_right _ _ (by omega), Nat.add_sub_cancel_left,
      List.set_append_right _ _ (Nat.le_refl _), Nat.sub_self]
    rfl
  rw [rise, he, hb]
  simp only
  rw [hset]

/-- Where an element comes to stand: behind the last one in front of it that ranks as high. -/
theorem rise_append (front : List α) (e : α) (back : List α) :
    ∃ kept passed, front = kept ++ passed ∧
      rise rank (front ++ e :: back) front.length = kept ++ e :: (passed ++ back) ∧
      (∀ b ∈ passed, rank b < rank e) ∧ ∀ b, kept.getLast? = some b → rank e ≤ rank b := by
  induction front using List.reverseRecOn generalizing back with
  | nil => exact ⟨[], [], rfl, rfl, fun b hb ↦ absurd hb List.not_mem_nil, fun b hb ↦ by cases hb⟩
  | append_singleton front b ih =>
    rw [List.append_assoc, List.singleton_append, List.length_append, List.length_singleton,
      rise_concat]
    split_ifs with hlt
    · obtain ⟨kept, passed, hfront, hrise, hpassed, hkept⟩ := ih (b :: back)
      refine ⟨kept, passed ++ [b], ?_, ?_, ?_, hkept⟩
      · rw [hfront, List.append_assoc]
      · rw [hrise, List.append_assoc, List.singleton_append]
      · intro c hc
        rcases List.mem_append.mp hc with hc | hc
        · exact hpassed c hc
        · rwa [List.mem_singleton.mp hc]
    · refine ⟨front ++ [b], [], (List.append_nil _).symm, ?_,
        fun c hc ↦ absurd hc List.not_mem_nil, fun c hc ↦ ?_⟩
      · rw [List.append_assoc]
        rfl
      · rw [List.getLast?_concat, Option.some.injEq] at hc
        rw [← hc]
        exact Nat.le_of_not_lt hlt

theorem rise_perm (front : List α) (e : α) :
    (rise rank (front ++ [e]) front.length).Perm (e :: front) := by
  obtain ⟨kept, passed, hfront, hrise, _⟩ := @rise_append _ rank front e []
  rw [hrise, List.append_nil, hfront]
  exact List.perm_middle

/-- The list stays in order. -/
theorem Falling.rise {front : List α} (h : Falling rank front) (e : α) :
    Falling rank (rise rank (front ++ [e]) front.length) := by
  obtain ⟨kept, passed, hfront, hrise, hpassed, hkept⟩ := @rise_append _ rank front e []
  rw [hfront] at h
  obtain ⟨hk, hp, hkp⟩ := List.pairwise_append.mp h
  have hall : ∀ b ∈ kept, rank e ≤ rank b := by
    intro b hb
    obtain ⟨last, hlast⟩ : ∃ last, kept.getLast? = some last :=
      Option.isSome_iff_exists.mp (List.getLast?_isSome.mpr (List.ne_nil_of_mem hb))
    refine Nat.le_trans (hkept last hlast) ?_
    obtain ⟨init, rfl⟩ := List.getLast?_eq_some_iff.mp hlast
    rcases List.mem_append.mp hb with hb | hb
    · exact (List.pairwise_append.mp hk).2.2 b hb last (List.mem_singleton_self last)
    · exact Nat.le_of_eq (congrArg rank (List.mem_singleton.mp hb).symm)
  rw [hrise, List.append_nil]
  refine List.pairwise_append.mpr ⟨hk, List.pairwise_cons.mpr ⟨?_, hp⟩, ?_⟩
  · exact fun b hb ↦ Nat.le_of_lt (hpassed b hb)
  · intro b hb c hc
    rcases List.mem_cons.mp hc with rfl | hc
    · exact hall b hb
    · exact hkp b hb c hc

/-- The first element with a property ranks as high as any with it. -/
theorem Falling.le_of_find? {l : List α} (h : Falling rank l) {p : α → Bool} {a : α}
    (ha : l.find? p = some a) {b : α} (hb : b ∈ l) (hp : p b = true) : rank b ≤ rank a := by
  obtain ⟨_, front, back, rfl, hfront⟩ := List.find?_eq_some_iff_append.mp ha
  rcases List.mem_append.mp hb with hb | hb
  · have hno := hfront b hb
    rw [hp] at hno
    cases hno
  · rcases List.mem_cons.mp hb with rfl | hb
    · exact Nat.le_refl _
    · exact (List.pairwise_cons.mp (List.pairwise_append.mp h).2.1).1 b hb

end DoorAccess.Ranked
