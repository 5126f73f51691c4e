import Mathlib.Data.List.Basic
import Mathlib.Logic.Relation

/-!
# Programs that read a finite stream

A `Reader` is a program that takes bytes off the front of a finite stream. It is run with a number
of turns that each of its loops may make; a run that needs more is `running`, and more turns never
change a run that is over (the field `stable`), so that what a program yields on a stream does not
depend on the number (`Yields.unique`). A program returns on a stream if with enough turns it comes
to a value or an error.

`yields_bind_iff` and `yields_loop_iff` say what a composition and a loop yield, and
`returns_loop_iff` when a loop returns whose every turn takes bytes off the stream: unless one of
the turns it comes to does not return. What a loop does on the way is said of the turns it `Visits`,
and with which errors a program can end by `FailsIn`, part by part.
-/

set_option autoImplicit false
set_option relaxedAutoImplicit false

namespace DoorAccess.ByteStream

/-- How a run stands: it came to a value, with the bytes that are left, or to an error, it ended
the process, or it has used up its turns. -/
inductive Outcome (ε α : Type)
  | ok (a : α) (rest : List UInt8)
  | error (e : ε)
  | aborted
  | running
  deriving DecidableEq

structure Reader (ε α : Type) where
  run : ℕ → List UInt8 → Outcome ε α
  stable : ∀ {n m s}, n ≤ m → run n s ≠ .running → run m s = run n s

variable {ε ε' α β : Type}

theorem idxOf?_of_not_mem {γ : Type} [DecidableEq γ] {stop : γ} {line : List γ} (h : stop ∉ line)
    (rest : List γ) : (line ++ stop :: rest).idxOf? stop = some line.length := by
  induction line with
  | nil => simp [List.idxOf?_cons]
  | cons c line ih =>
    rw [List.mem_cons, not_or] at h
    rw [List.cons_append, List.idxOf?_cons, if_neg (by simpa using Ne.symm h.1), ih h.2]
    rfl

namespace Reader

/-! ### Programs without loops -/

/-- A program without loops. -/
def straight (f : List UInt8 → Outcome ε α) : Reader ε α where
  run _ s := f s
  stable _ _ := rfl

def fail (e : ε) : Reader ε α :=
  straight fun _ ↦ .error e

/-- The end of the process. -/
def abort : Reader ε α :=
  straight fun _ ↦ .aborted

/-- A result that is already there. -/
def liftExcept (g : ε' → ε) : Except ε' α → Reader ε α
  | .ok a => straight fun s ↦ .ok a s
  | .error e => fail (g e)

/-- `BufRead::read_until`: the bytes up to the first `stop`, which is one of them, or all that are
left. -/
def readUntil (stop : UInt8) : Reader ε (List UInt8) :=
  straight fun s ↦
    match s.idxOf? stop with
    | some i => .ok (s.take (i + 1)) (s.drop (i + 1))
    | none => .ok s []

/-- `Read::read_exact`. -/
def readExact (n : ℕ) (e : ε) : Reader ε (List UInt8) :=
  straight fun s ↦ if n ≤ s.length then .ok (s.take n) (s.drop n) else .error e

/-! ### Composition -/

def andThen (r : Reader ε α) (f : α → Reader ε β) : Reader ε β where
  run n s :=
    match r.run n s with
    | .ok a rest => (f a).run n rest
    | .error e => .error e
    | .aborted => .aborted
    | .running => .running
  stable {n m s} hnm h := by
    have hr : r.run n s ≠ .running := by
      intro hr
      rw [hr] at h
      exact h rfl
    rw [r.stable hnm hr]
    cases hrun : r.run n s with
    | ok a rest =>
      rw [hrun] at h
      exact (f a).stable hnm h
    | error e => rfl
    | aborted => rfl
    | running => exact absurd hrun hr

instance : Monad (Reader ε) where
  pure a := straight fun s ↦ .ok a s
  bind := andThen

def mapError (g : ε → ε') (r : Reader ε α) : Reader ε' α where
  run n s :=
    match r.run n s with
    | .ok a rest => .ok a rest
    | .error e => .error (g e)
    | .aborted => .aborted
    | .running => .running
  stable {n m s} hnm h := by
    have hr : r.run n s ≠ .running := by
      intro hr
      rw [hr] at h
      exact h rfl
    rw [r.stable hnm hr]

/-! ### Loops -/

/-- At most `k` turns of a loop, which goes on with the left values of its body and ends with the
right ones. -/
def turns (body : β → Reader ε (β ⊕ α)) (n : ℕ) : ℕ → β → List UInt8 → Outcome ε α
  | 0, _, _ => .running
  | k + 1, b, s =>
    match (body b).run n s with
    | .ok (.inl b) rest => turns body n k b rest
    | .ok (.inr a) rest => .ok a rest
    | .error e => .error e
    | .aborted => .aborted
    | .running => .running

theorem turns_stable (body : β → Reader ε (β ⊕ α)) {n m k l : ℕ} (hnm : n ≤ m) (hkl : k ≤ l)
    {b : β} {s : List UInt8} (h : turns body n k b s ≠ .running) :
    turns body m l b s = turns body n k b s := by
  induction k generalizing l b s with
  | zero => exact absurd rfl h
  | succ k ih =>
    obtain ⟨l, rfl⟩ : ∃ j, l = j + 1 := ⟨l - 1, by omega⟩
    rw [turns] at h
    have hbody : (body b).run n s ≠ .running := by
      intro hrun
      rw [hrun] at h
      exact h rfl
    rw [turns, turns, (body b).stable hnm hbody]
    cases hrun : (body b).run n s with
    | ok next rest =>
      rw [hrun] at h
      cases next with
      | inl b' => exact ih (Nat.le_of_succ_le_succ hkl) h
      | inr a => rfl
    | error e => rfl
    | aborted => rfl
    | running => exact absurd hrun hbody

def loop (body : β → Reader ε (β ⊕ α)) (b : β) : Reader ε α where
  run n s := turns body n n b s
  stable hnm h := turns_stable body hnm hnm h

/-! ### What a program yields -/

/-- With enough turns the program comes to `o` on the stream. -/
def Yields (r : Reader ε α) (s : List UInt8) (o : Outcome ε α) : Prop :=
  o ≠ .running ∧ ∃ n, r.run n s = o

theorem Yields.unique {r : Reader ε α} {s : List UInt8} {o o' : Outcome ε α} (h : r.Yields s o)
    (h' : r.Yields s o') : o = o' := by
  obtain ⟨hne, n, rfl⟩ := h
  obtain ⟨hne', m, rfl⟩ := h'
  rcases Nat.le_total n m with hnm | hmn
  · exact (r.stable hnm hne).symm
  · exact r.stable hmn hne'

/-- The program comes to a value or an error. -/
def Returns (r : Reader ε α) (s : List UInt8) : Prop :=
  (∃ a rest, r.Yields s (.ok a rest)) ∨ ∃ e, r.Yields s (.error e)

theorem Returns.of_ok {r : Reader ε α} {s : List UInt8} {a : α} {rest : List UInt8}
    (h : r.Yields s (.ok a rest)) : r.Returns s :=
  Or.inl ⟨a, rest, h⟩

theorem Returns.of_error {r : Reader ε α} {s : List UInt8} {e : ε} (h : r.Yields s (.error e)) :
    r.Returns s :=
  Or.inr ⟨e, h⟩

@[simp] theorem yields_straight (f : List UInt8 → Outcome ε α) (s : List UInt8)
    (o : Outcome ε α) : (straight f).Yields s o ↔ o ≠ .running ∧ f s = o :=
  and_congr_right fun _ ↦ ⟨fun ⟨_, h⟩ ↦ h, fun h ↦ ⟨0, h⟩⟩

@[simp] theorem yields_pure (a : α) (s : List UInt8) (o : Outcome ε α) :
    (pure a : Reader ε α).Yields s o ↔ o = .ok a s := by
  refine (yields_straight _ _ _).trans ⟨fun h ↦ h.2.symm, ?_⟩
  rintro rfl
  exact ⟨nofun, rfl⟩

@[simp] theorem yields_fail (e : ε) (s : List UInt8) (o : Outcome ε α) :
    (fail e : Reader ε α).Yields s o ↔ o = .error e := by
  refine (yields_straight _ _ _).trans ⟨fun h ↦ h.2.symm, ?_⟩
  rintro rfl
  exact ⟨nofun, rfl⟩

theorem liftExcept_ok_iff (g : ε' → ε) (x : Except ε' α) (s rest : List UInt8) (a : α) :
    (liftExcept g x).Yields s (.ok a rest) ↔ x = .ok a ∧ s = rest := by
  cases x with
  | ok a' =>
    refine (yields_pure a' s _).trans ?_
    rw [Outcome.ok.injEq, Except.ok.injEq, eq_comm, @eq_comm _ rest]
  | error e => simp [liftExcept]

@[simp] theorem yields_abort (s : List UInt8) (o : Outcome ε α) :
    (abort : Reader ε α).Yields s o ↔ o = .aborted := by
  refine (yields_straight _ _ _).trans ⟨fun h ↦ h.2.symm, ?_⟩
  rintro rfl
  exact ⟨nofun, rfl⟩

theorem yields_readUntil_stop {stop : UInt8} {line : List UInt8} (h : stop ∉ line)
    (rest : List UInt8) :
    (readUntil stop : Reader ε _).Yields (line ++ stop :: rest) (.ok (line ++ [stop]) rest) := by
  refine (yields_straight _ _ _).mpr ⟨nofun, ?_⟩
  simp only [idxOf?_of_not_mem h rest]
  rw [List.take_length_add_append, List.drop_length_add_append]
  rfl

theorem yields_readUntil_end {stop : UInt8} {s : List UInt8} (h : stop ∉ s) :
    (readUntil stop : Reader ε _).Yields s (.ok s []) := by
  have hidx : s.idxOf? stop = none := List.idxOf?_eq_none_iff.mpr h
  refine (yields_straight _ _ _).mpr ⟨nofun, ?_⟩
  simp only [hidx]

theorem yields_readExact (n : ℕ) (e : ε) (s : List UInt8) (o : Outcome ε (List UInt8)) :
    (readExact n e).Yields s o ↔
      (if n ≤ s.length then .ok (s.take n) (s.drop n) else .error e) = o := by
  refine (yields_straight _ _ _).trans ⟨fun h ↦ h.2, fun h ↦ ⟨?_, h⟩⟩
  rw [← h]
  split_ifs <;> exact nofun

theorem yields_readExact_append (e : ε) (bytes rest : List UInt8) :
    (readExact bytes.length e).Yields (bytes ++ rest) (.ok bytes rest) := by
  rw [yields_readExact, if_pos (by simp), List.take_left, List.drop_left]

theorem readExact_ok {n : ℕ} {e : ε} {s bytes rest : List UInt8}
    (h : (readExact n e).Yields s (.ok bytes rest)) : s = bytes ++ rest ∧ bytes.length = n := by
  rw [yields_readExact] at h
  split_ifs at h with hn
  obtain ⟨rfl, rfl⟩ := Outcome.ok.inj h
  exact ⟨(List.take_append_drop n s).symm, List.length_take_of_le hn⟩

theorem yields_bind_iff (r : Reader ε α) (f : α → Reader ε β) (s : List UInt8)
    (o : Outcome ε β) :
    (r >>= f).Yields s o ↔
      (∃ a rest, r.Yields s (.ok a rest) ∧ (f a).Yields rest o) ∨
      (∃ e, r.Yields s (.error e) ∧ o = .error e) ∨ (r.Yields s .aborted ∧ o = .aborted) := by
  constructor
  · rintro ⟨hne, n, h⟩
    change (andThen r f).run n s = o at h
    rw [andThen] at h
    cases hrun : r.run n s with
    | ok a rest =>
      simp only [hrun] at h
      exact Or.inl ⟨a, rest, ⟨nofun, n, hrun⟩, hne, n, h⟩
    | error e =>
      simp only [hrun] at h
      exact Or.inr (Or.inl ⟨e, ⟨nofun, n, hrun⟩, h.symm⟩)
    | aborted =>
      simp only [hrun] at h
      exact Or.inr (Or.inr ⟨⟨nofun, n, hrun⟩, h.symm⟩)
    | running =>
      simp only [hrun] at h
      exact absurd h.symm hne
  · rintro (⟨a, rest, ⟨_, n, hr⟩, hne, m, hf⟩ | ⟨e, ⟨_, n, hr⟩, rfl⟩ | ⟨⟨_, n, hr⟩, rfl⟩)
    · refine ⟨hne, max n m, ?_⟩
      change (andThen r f).run (max n m) s = o
      have hr' : r.run (max n m) s = .ok a rest := by
        rw [r.stable (Nat.le_max_left n m) (by rw [hr]; exact nofun), hr]
      have hf' : (f a).run (max n m) rest = o := by
        rw [(f a).stable (Nat.le_max_right n m) (by rw [hf]; exact hne), hf]
      simp only [andThen, hr', hf']
    · refine ⟨nofun, n, ?_⟩
      change (andThen r f).run n s = .error e
      simp only [andThen, hr]
    · refine ⟨nofun, n, ?_⟩
      change (andThen r f).run n s = .aborted
      simp only [andThen, hr]

/-- The value of a composition is the one of its second part. -/
theorem yields_bind_ok_iff (r : Reader ε α) (f : α → Reader ε β) (s rest : List UInt8) (b : β) :
    (r >>= f).Yields s (.ok b rest) ↔
      ∃ a mid, r.Yields s (.ok a mid) ∧ (f a).Yields mid (.ok b rest) := by
  rw [yields_bind_iff]
  constructor
  · rintro (h | ⟨e, _, h⟩ | ⟨_, h⟩)
    · exact h
    · exact nomatch h
    · exact nomatch h
  · exact Or.inl

theorem yields_bind_of_ok {r : Reader ε α} {s mid : List UInt8} {a : α}
    (hr : r.Yields s (.ok a mid)) (f : α → Reader ε β) (o : Outcome ε β) :
    (r >>= f).Yields s o ↔ (f a).Yields mid o := by
  rw [yields_bind_iff]
  constructor
  · rintro (⟨a', mid', hr', hf⟩ | ⟨e, hr', _⟩ | ⟨hr', _⟩)
    · obtain ⟨rfl, rfl⟩ := Outcome.ok.inj (hr.unique hr')
      exact hf
    · exact nomatch hr.unique hr'
    · exact nomatch hr.unique hr'
  · exact fun hf ↦ Or.inl ⟨a, mid, hr, hf⟩

theorem yields_bind_of_error {r : Reader ε α} {s : List UInt8} {e : ε}
    (hr : r.Yields s (.error e)) (f : α → Reader ε β) : (r >>= f).Yields s (.error e) :=
  (yields_bind_iff r f s _).mpr (Or.inr (Or.inl ⟨e, hr, rfl⟩))

theorem yields_mapError_ok_iff (g : ε → ε') (r : Reader ε α) (s rest : List UInt8) (a : α) :
    (mapError g r).Yields s (.ok a rest) ↔ r.Yields s (.ok a rest) := by
  constructor
  all_goals
    rintro ⟨_, n, h⟩
    refine ⟨nofun, n, ?_⟩
  · rw [mapError] at h
    cases hrun : r.run n s <;> simp_all
  · simp only [mapError, h]

theorem yields_mapError_error_iff (g : ε → ε') (r : Reader ε α) (s : List UInt8) (e' : ε') :
    (mapError g r).Yields s (.error e') ↔ ∃ e, r.Yields s (.error e) ∧ g e = e' := by
  constructor
  · rintro ⟨_, n, h⟩
    rw [mapError] at h
    cases hrun : r.run n s with
    | error e =>
      simp only [hrun, Outcome.error.injEq] at h
      exact ⟨e, ⟨nofun, n, hrun⟩, h⟩
    | ok a rest => simp [hrun] at h
    | aborted => simp [hrun] at h
    | running => simp [hrun] at h
  · rintro ⟨e, ⟨_, n, h⟩, rfl⟩
    exact ⟨nofun, n, by simp only [mapError, h]⟩

/-- One turn of a loop and then the rest of it. -/
theorem yields_loop_iff (body : β → Reader ε (β ⊕ α)) (b : β) (s : List UInt8)
    (o : Outcome ε α) :
    (loop body b).Yields s o ↔ (body b >>= Sum.elim (loop body) pure).Yields s o := by
  rw [yields_bind_iff]
  constructor
  · rintro ⟨hne, n, h⟩
    change turns body n n b s = o at h
    cases n with
    | zero => exact absurd h.symm hne
    | succ n =>
      rw [turns] at h
      cases hrun : (body b).run (n + 1) s with
      | ok next rest =>
        simp only [hrun] at h
        refine Or.inl ⟨next, rest, ⟨nofun, n + 1, hrun⟩, ?_⟩
        cases next with
        | inl b' =>
          refine ⟨hne, n + 1, ?_⟩
          have h' : turns body (n + 1) n b' rest = o := h
          change turns body (n + 1) (n + 1) b' rest = o
          rw [turns_stable body (Nat.le_refl (n + 1)) (Nat.le_succ n) (by rw [h']; exact hne), h']
        | inr a => exact (yields_pure a rest o).mpr h.symm
      | error e =>
        simp only [hrun] at h
        exact Or.inr (Or.inl ⟨e, ⟨nofun, n + 1, hrun⟩, h.symm⟩)
      | aborted =>
        simp only [hrun] at h
        exact Or.inr (Or.inr ⟨⟨nofun, n + 1, hrun⟩, h.symm⟩)
      | running =>
        simp only [hrun] at h
        exact absurd h.symm hne
  · have hturn {n : ℕ} {o' : Outcome ε (β ⊕ α)} (hne : o' ≠ .running)
        (h : (body b).run n s = o') : (body b).run (n + 1) s = o' := by
      rw [(body b).stable (Nat.le_succ n) (by rw [h]; exact hne), h]
    rintro (⟨next, rest, ⟨_, n, hr⟩, hnext⟩ | ⟨e, ⟨_, n, hr⟩, rfl⟩ | ⟨⟨_, n, hr⟩, rfl⟩)
    · cases next with
      | inl b' =>
        obtain ⟨hne, m, h⟩ := hnext
        change turns body m m b' rest = o at h
        refine ⟨hne, max n m + 1, ?_⟩
        have hn : n ≤ max n m + 1 := Nat.le_succ_of_le (Nat.le_max_left n m)
        have hm : m ≤ max n m := Nat.le_max_right n m
        have hr' : (body b).run (max n m + 1) s = .ok (.inl b') rest := by
          rw [(body b).stable hn (by rw [hr]; exact nofun), hr]
        have hrest : turns body (max n m + 1) (max n m) b' rest = o := by
          rw [turns_stable body (Nat.le_succ_of_le hm) hm (by rw [h]; exact hne), h]
        simp only [loop, turns, hr', hrest]
      | inr a =>
        rw [(yields_pure a rest o).mp hnext]
        exact ⟨nofun, n + 1, by simp only [loop, turns, hturn (by exact nofun) hr]⟩
    · exact ⟨nofun, n + 1, by simp only [loop, turns, hturn (by exact nofun) hr]⟩
    · exact ⟨nofun, n + 1, by simp only [loop, turns, hturn (by exact nofun) hr]⟩

theorem yields_loop_of_next {body : β → Reader ε (β ⊕ α)} {b b' : β} {s rest : List UInt8}
    (h : (body b).Yields s (.ok (.inl b') rest)) (o : Outcome ε α) :
    (loop body b).Yields s o ↔ (loop body b').Yields rest o :=
  (yields_loop_iff body b s o).trans (yields_bind_of_ok h _ o)

theorem yields_loop_of_done {body : β → Reader ε (β ⊕ α)} {b : β} {s rest : List UInt8} {a : α}
    (h : (body b).Yields s (.ok (.inr a) rest)) : (loop body b).Yields s (.ok a rest) :=
  (yields_loop_iff body b s _).mpr ((yields_bind_of_ok h _ _).mpr ((yields_pure a rest _).mpr rfl))

theorem yields_loop_of_error {body : β → Reader ε (β ⊕ α)} {b : β} {s : List UInt8} {e : ε}
    (h : (body b).Yields s (.error e)) : (loop body b).Yields s (.error e) :=
  (yields_loop_iff body b s _).mpr (yields_bind_of_error h _)

/-- What holds where the last turn of a loop starts, and before a turn if it holds behind it, holds
where the loop starts. -/
theorem loop_induction {body : β → Reader ε (β ⊕ α)} {a : α} {rest : List UInt8}
    {P : β → List UInt8 → Prop}
    (hdone : ∀ b s, (body b).Yields s (.ok (.inr a) rest) → P b s)
    (hnext : ∀ b b' s mid, (body b).Yields s (.ok (.inl b') mid) → P b' mid → P b s)
    {b : β} {s : List UInt8} (h : (loop body b).Yields s (.ok a rest)) : P b s := by
  obtain ⟨_, n, hrun⟩ := h
  suffices hturns : ∀ k b s, turns body n k b s = .ok a rest → P b s from hturns n b s hrun
  intro k
  induction k with
  | zero => exact fun b s h ↦ nomatch h
  | succ k ih =>
    intro b s h
    rw [turns] at h
    cases hbody : (body b).run n s with
    | ok next mid =>
      simp only [hbody] at h
      cases next with
      | inl b' => exact hnext b b' s mid ⟨nofun, n, hbody⟩ (ih b' mid h)
      | inr a' =>
        obtain ⟨rfl, rfl⟩ := Outcome.ok.inj h
        exact hdone b s ⟨nofun, n, hbody⟩
    | error e => simp [hbody] at h
    | aborted => simp [hbody] at h
    | running => simp [hbody] at h

/-- The turns that a loop comes to, each by the value it starts from and the stream before it. -/
def Visits (body : β → Reader ε (β ⊕ α)) : β × List UInt8 → β × List UInt8 → Prop :=
  Relation.ReflTransGen fun p q ↦ (body p.1).Yields p.2 (.ok (.inl q.1) q.2)

/-! ### Whether a program returns -/

theorem returns_straight (f : List UInt8 → Outcome ε α) (s : List UInt8) (hrun : f s ≠ .running)
    (habort : f s ≠ .aborted) : (straight f).Returns s := by
  cases h : f s with
  | ok a rest => exact Returns.of_ok ((yields_straight _ _ _).mpr ⟨nofun, h⟩)
  | error e => exact Returns.of_error ((yields_straight _ _ _).mpr ⟨nofun, h⟩)
  | aborted => exact absurd h habort
  | running => exact absurd h hrun

@[simp] theorem returns_pure (a : α) (s : List UInt8) : (pure a : Reader ε α).Returns s :=
  Returns.of_ok ((yields_pure a s _).mpr rfl)

@[simp] theorem returns_fail (e : ε) (s : List UInt8) : (fail e : Reader ε α).Returns s :=
  Returns.of_error ((yields_fail e s _).mpr rfl)

@[simp] theorem not_returns_abort (s : List UInt8) : ¬(abort : Reader ε α).Returns s := by
  rintro (⟨a, rest, h⟩ | ⟨e, h⟩)
  · exact nomatch (yields_abort s _).mp h
  · exact nomatch (yields_abort s _).mp h

@[simp] theorem returns_readExact (n : ℕ) (e : ε) (s : List UInt8) : (readExact n e).Returns s := by
  refine returns_straight _ _ ?_ ?_ <;> split_ifs <;> exact nofun

@[simp] theorem returns_liftExcept (g : ε' → ε) (x : Except ε' α) (s : List UInt8) :
    (liftExcept g x).Returns s := by
  cases x with
  | ok a => exact returns_pure a s
  | error e => exact returns_fail (g e) s

theorem returns_mapError_iff (g : ε → ε') (r : Reader ε α) (s : List UInt8) :
    (mapError g r).Returns s ↔ r.Returns s := by
  simp only [Returns, yields_mapError_ok_iff, yields_mapError_error_iff]
  exact or_congr_right ⟨fun ⟨_, e, h, _⟩ ↦ ⟨e, h⟩, fun ⟨e, h⟩ ↦ ⟨_, e, h, rfl⟩⟩

/-- A composition returns if its first part does, and the second one from wherever the first one
comes to a value. -/
theorem returns_bind_iff (r : Reader ε α) (f : α → Reader ε β) (s : List UInt8) :
    (r >>= f).Returns s ↔
      r.Returns s ∧ ∀ a rest, r.Yields s (.ok a rest) → (f a).Returns rest := by
  constructor
  · rintro (⟨b, rest, h⟩ | ⟨e, h⟩)
    · obtain ⟨a, mid, hr, hf⟩ := (yields_bind_ok_iff r f s rest b).mp h
      refine ⟨Returns.of_ok hr, fun a' mid' hr' ↦ ?_⟩
      obtain ⟨rfl, rfl⟩ := Outcome.ok.inj (hr.unique hr')
      exact Returns.of_ok hf
    · rcases (yields_bind_iff r f s _).mp h with ⟨a, mid, hr, hf⟩ | ⟨e', hr, _⟩ | ⟨_, h⟩
      · refine ⟨Returns.of_ok hr, fun a' mid' hr' ↦ ?_⟩
        obtain ⟨rfl, rfl⟩ := Outcome.ok.inj (hr.unique hr')
        exact Returns.of_error hf
      · exact ⟨Returns.of_error hr, fun a' mid' hr' ↦ nomatch hr.unique hr'⟩
      · exact nomatch h
  · rintro ⟨⟨a, mid, hr⟩ | ⟨e, hr⟩, hf⟩
    · rcases hf a mid hr with ⟨b, rest, h⟩ | ⟨e, h⟩
      · exact Returns.of_ok ((yields_bind_iff r f s _).mpr (Or.inl ⟨a, mid, hr, h⟩))
      · exact Returns.of_error ((yields_bind_iff r f s _).mpr (Or.inl ⟨a, mid, hr, h⟩))
    · exact Returns.of_error (yields_bind_of_error hr f)

/-- The loop comes to a turn that does not return. -/
inductive Stuck (body : β → Reader ε (β ⊕ α)) : β → List UInt8 → Prop
  | here {b : β} {s : List UInt8} (h : ¬(body b).Returns s) : Stuck body b s
  | next {b b' : β} {s rest : List UInt8} (h : (body b).Yields s (.ok (.inl b') rest))
      (hrest : Stuck body b' rest) : Stuck body b s

theorem returns_loop_step (body : β → Reader ε (β ⊕ α)) (b : β) (s : List UInt8) :
    (loop body b).Returns s ↔ (body b).Returns s ∧
      ∀ b' rest, (body b).Yields s (.ok (.inl b') rest) → (loop body b').Returns rest := by
  have hstep : (loop body b).Returns s ↔ (body b >>= Sum.elim (loop body) pure).Returns s := by
    simp only [Returns, yields_loop_iff body b s]
  rw [hstep, returns_bind_iff]
  refine and_congr_right fun _ ↦ ⟨fun h b' rest hr ↦ h (.inl b') rest hr, fun h next rest hr ↦ ?_⟩
  cases next with
  | inl b' => exact h b' rest hr
  | inr a => exact returns_pure a rest

/-- A loop that takes bytes off the stream in every turn it goes on from returns unless it gets
stuck in a turn. -/
theorem returns_loop_iff (body : β → Reader ε (β ⊕ α))
    (hbody : ∀ b b' s rest, (body b).Yields s (.ok (.inl b') rest) → rest.length < s.length)
    (b : β) (s : List UInt8) : (loop body b).Returns s ↔ ¬Stuck body b s := by
  constructor
  · intro h hstuck
    induction hstuck with
    | here hturn => exact hturn ((returns_loop_step body _ _).mp h).1
    | next hturn _ ih => exact ih (((returns_loop_step body _ _).mp h).2 _ _ hturn)
  · intro hstuck
    induction hs : s.length using Nat.strongRecOn generalizing b s with
    | ind k ih =>
      refine (returns_loop_step body b s).mpr ⟨?_, fun b' rest hturn ↦ ?_⟩
      · by_contra hturn
        exact hstuck (.here hturn)
      · exact ih rest.length (hs ▸ hbody b b' s rest hturn) b' rest
          (fun hrest ↦ hstuck (.next hturn hrest)) rfl

/-- A loop that can go on forever does. -/
theorem run_loop_of_invariant (body : β → Reader ε (β ⊕ α)) (I : β → List UInt8 → Prop)
    (hbody : ∀ b s, I b s → ∃ b' rest, (body b).Yields s (.ok (.inl b') rest) ∧ I b' rest)
    {b : β} {s : List UInt8} (h : I b s) (n : ℕ) : (loop body b).run n s = .running := by
  suffices hturns : ∀ k b s, I b s → turns body n k b s = .running from hturns n b s h
  intro k
  induction k with
  | zero => exact fun _ _ _ ↦ rfl
  | succ k ih =>
    intro b s hI
    obtain ⟨b', rest, hturn, hI'⟩ := hbody b s hI
    rw [turns]
    cases hrun : (body b).run n s with
    | ok next rest' =>
      obtain ⟨rfl, rfl⟩ := Outcome.ok.inj (hturn.unique ⟨nofun, n, hrun⟩)
      exact ih b' rest hI'
    | error e =>
      have h : (body b).Yields s (.error e) := ⟨nofun, n, hrun⟩
      exact nomatch hturn.unique h
    | aborted =>
      have h : (body b).Yields s .aborted := ⟨nofun, n, hrun⟩
      exact nomatch hturn.unique h
    | running => rfl

/-! ### How a program fails -/

/-- A program that does not come to a value comes to an error in `P`, if it comes to an end. -/
def FailsIn (r : Reader ε α) (P : ε → Prop) : Prop :=
  ∀ s o, r.Yields s o → (∃ a rest, o = .ok a rest) ∨ ∃ e, o = .error e ∧ P e

section FailsIn

variable {P : ε → Prop}

theorem failsIn_pure (a : α) : (pure a : Reader ε α).FailsIn P :=
  fun s _ h ↦ Or.inl ⟨a, s, (yields_pure _ _ _).mp h⟩

theorem failsIn_fail {e : ε} (h : P e) : (fail e : Reader ε α).FailsIn P :=
  fun _ _ ho ↦ Or.inr ⟨e, (yields_fail _ _ _).mp ho, h⟩

theorem failsIn_liftExcept {g : ε' → ε} {x : Except ε' α} (h : ∀ e, x = .error e → P (g e)) :
    (liftExcept g x).FailsIn P := by
  cases x with
  | ok a => exact failsIn_pure a
  | error e => exact failsIn_fail (h e rfl)

theorem failsIn_readUntil (stop : UInt8) :
    (readUntil stop : Reader ε (List UInt8)).FailsIn P := by
  intro s o h
  obtain ⟨-, rfl⟩ := (yields_straight _ _ _).mp h
  left
  cases s.idxOf? stop with
  | some i => exact ⟨_, _, rfl⟩
  | none => exact ⟨_, _, rfl⟩

theorem failsIn_readExact (n : ℕ) {e : ε} (h : P e) : (readExact n e).FailsIn P := by
  intro s o ho
  rw [yields_readExact] at ho
  subst ho
  split_ifs
  · exact Or.inl ⟨_, _, rfl⟩
  · exact Or.inr ⟨e, rfl, h⟩

theorem FailsIn.bind {r : Reader ε α} {f : α → Reader ε β} (hr : r.FailsIn P)
    (hf : ∀ a, (f a).FailsIn P) : (r >>= f).FailsIn P := by
  intro s o h
  rcases (yields_bind_iff r f s o).mp h with ⟨a, rest, -, hrest⟩ | ⟨e, he, rfl⟩ | ⟨habort, -⟩
  · exact hf a rest o hrest
  · rcases hr s _ he with ⟨_, _, hok⟩ | ⟨e', herror, hP⟩
    · cases hok
    · rw [Outcome.error.inj herror]
      exact Or.inr ⟨e', rfl, hP⟩
  · rcases hr s _ habort with ⟨_, _, hok⟩ | ⟨_, herror, -⟩
    · cases hok
    · cases herror

/-- A loop fails as its body does. -/
theorem failsIn_loop {body : β → Reader ε (β ⊕ α)} (h : ∀ b, (body b).FailsIn P) (b : β) :
    (loop body b).FailsIn P := by
  rintro s o ⟨hne, n, hrun⟩
  suffices hturns : ∀ k b s, turns body n k b s = o →
      (∃ a rest, o = .ok a rest) ∨ ∃ e, o = .error e ∧ P e from hturns n b s hrun
  intro k
  induction k with
  | zero => exact fun b s h ↦ absurd h.symm hne
  | succ k ih =>
    intro b s hturn
    rw [turns] at hturn
    cases hbody : (body b).run n s with
    | ok next rest =>
      simp only [hbody] at hturn
      cases next with
      | inl b' => exact ih b' rest hturn
      | inr a => exact Or.inl ⟨a, rest, hturn.symm⟩
    | error e =>
      simp only [hbody] at hturn
      have hyields : (body b).Yields s (.error e) := ⟨nofun, n, hbody⟩
      rcases h b s _ hyields with ⟨_, _, hok⟩ | ⟨e', herror, hP⟩
      · cases hok
      · rw [← hturn, Outcome.error.inj herror]
        exact Or.inr ⟨e', rfl, hP⟩
    | aborted =>
      have hyields : (body b).Yields s .aborted := ⟨nofun, n, hbody⟩
      rcases h b s _ hyields with ⟨_, _, hok⟩ | ⟨_, herror, -⟩
      · cases hok
      · cases herror
    | running =>
      simp only [hbody] at hturn
      exact absurd hturn.symm hne

/-- A program that fails in some way and does not return runs forever. -/
theorem FailsIn.run_of_not_returns {r : Reader ε α} (h : r.FailsIn P) {s : List UInt8}
    (hnot : ¬r.Returns s) (n : ℕ) : r.run n s = .running := by
  by_contra hrun
  have hyields : r.Yields s (r.run n s) := ⟨hrun, n, rfl⟩
  rcases h s _ hyields with ⟨a, rest, hok⟩ | ⟨e, herror, -⟩
  · exact hnot (.of_ok (hok ▸ hyields))
  · exact hnot (.of_error (herror ▸ hyields))

end FailsIn

end Reader

end DoorAccess.ByteStream
