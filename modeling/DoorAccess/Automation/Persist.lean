import DoorAccess.Lib.Transition
import DoorAccess.Automation.State

/-!
# The automation flags and their file under any interleaving

Every request to `/auto_unlock` or `/auto_hangup` stores its flag, persists, and answers with the
flag as it then is. `persist` holds the lock of the persister from its first read of a flag to its
end: it reads the two flags one after the other, skips a pair that is the last one written, and
otherwise writes a temporary file and renames it. The stores are not under that lock, so they fall
between any two of these steps.

A step of the machine is one access to what other threads or a restart can see: a flag, the lock, or
one of the two files. What the lock protects, `hasWrote` and `last`, changes with its release. Every
write and every rename may fail, as often as it likes.

`Fresh` carries the argument about the end of a run: a stored flag that no persist has read yet
still has a request before its persist, and a persist under way has read the flags as they are.
-/

set_option autoImplicit false
set_option relaxedAutoImplicit false

namespace DoorAccess.AutomationState.Persister

open Transition

inductive Flag
  | autoUnlock
  | autoHangup
  deriving DecidableEq

def Flag.load (st : State) : Flag → Bool
  | .autoUnlock => st.autoUnlock
  | .autoHangup => st.autoHangup

def Flag.store (st : State) (on : Bool) : Flag → State
  | .autoUnlock => { st with autoUnlock := on }
  | .autoHangup => { st with autoHangup := on }

/-- How far a request is. From `locked` to `renamed` it holds the lock. -/
inductive Phase
  /-- The body is parsed, the flag not yet stored. -/
  | parsed (flag : Flag) (on : Bool)
  | stored (flag : Flag)
  | locked (flag : Flag)
  | readUnlock (flag : Flag) (autoUnlock : Bool)
  | read (flag : Flag) (cur : State)
  /-- In `write_atomic`. -/
  | writing (flag : Flag) (cur : State)
  | wroteTemp (flag : Flag) (cur : State)
  | renamed (flag : Flag) (cur : State)
  | persisted (flag : Flag)
  | answered (flag : Flag) (cur : Bool)
  deriving DecidableEq

def Phase.holdsLock : Phase → Bool
  | .locked _ | .readUnlock _ _ | .read _ _ | .writing _ _ | .wroteTemp _ _ | .renamed _ _ => true
  | _ => false

def Phase.finished : Phase → Bool
  | .answered _ _ => true
  | _ => false

/-- How a call of `persist` ended. -/
inductive Outcome
  | wrote
  | duplicate
  | failed
  deriving DecidableEq

structure Machine where
  /-- The two flags in memory. -/
  flags : State
  holder : Option ℕ
  hasWrote : Bool
  last : State
  /-- The state file, `none` while there is none. -/
  file : Option ByteArray
  temp : Option ByteArray
  requests : List Phase
  /-- History: the outcome of the persist that ran last. -/
  outcome : Option Outcome

/-- The machine after `Persister::new`. A temporary file may be left from an earlier run. -/
def Machine.init (flags : State) (file temp : Option ByteArray) : Machine where
  flags := flags
  holder := none
  hasWrote := false
  last := ⟨false, false⟩
  file := file
  temp := temp
  requests := []
  outcome := none

/-- What a request does next. -/
inductive Act
  | store
  | lock
  | loadAutoUnlock
  | loadAutoHangup
  | dedup
  | writeTemp
  /-- The write fails and leaves the temporary file in any state. -/
  | writeTempFails (left : Option ByteArray)
  | rename
  /-- The rename fails; the temporary file is removed if that works. -/
  | renameFails (removed : Bool)
  /-- `last` and `has_wrote` are set and the guard is dropped. -/
  | record
  | respond

inductive Label
  /-- A request arrives with a body that parses. -/
  | request (flag : Flag) (on : Bool)
  | act (c : ℕ) (a : Act)

/-- `persist` returns and its guard is dropped. -/
def Machine.release (s : Machine) (o : Outcome) : Machine :=
  { s with holder := none, outcome := some o }

/-- The next step of the request `c` in its phase: its new phase, and the rest of the machine. -/
def turn (s : Machine) (c : ℕ) : Act → Phase → Option (Phase × Machine)
  | .store, .parsed flag on => some (.stored flag, { s with flags := flag.store s.flags on })
  | .lock, .stored flag =>
    if s.holder = none then some (.locked flag, { s with holder := some c }) else none
  | .loadAutoUnlock, .locked flag => some (.readUnlock flag s.flags.autoUnlock, s)
  | .loadAutoHangup, .readUnlock flag au => some (.read flag ⟨au, s.flags.autoHangup⟩, s)
  | .dedup, .read flag cur =>
    if s.hasWrote = true ∧ cur = s.last then some (.persisted flag, s.release .duplicate)
    else some (.writing flag cur, s)
  | .writeTemp, .writing flag cur =>
    some (.wroteTemp flag cur, { s with temp := some (render cur) })
  | .writeTempFails left, .writing flag _ =>
    some (.persisted flag, { s.release .failed with temp := left })
  | .rename, .wroteTemp flag cur =>
    s.temp.map fun raw ↦ (.renamed flag cur, { s with file := some raw, temp := none })
  | .renameFails removed, .wroteTemp flag _ =>
    some (.persisted flag, { s.release .failed with temp := if removed then none else s.temp })
  | .record, .renamed flag cur =>
    some (.persisted flag, { s.release .wrote with last := cur, hasWrote := true })
  | .respond, .persisted flag => some (.answered flag (flag.load s.flags), s)
  | _, _ => none

def Machine.move (s : Machine) (c : ℕ) (p : Phase) : Machine :=
  { s with requests := s.requests.set c p }

def step (s : Machine) : Label → Option Machine
  | .request flag on => some { s with requests := s.requests ++ [.parsed flag on] }
  | .act c a =>
    s.requests[c]?.bind fun p ↦ (turn s c a p).map fun next ↦ next.2.move c next.1

/-- What a start of the daemon gets from the state file. -/
def Machine.readFile (s : Machine) : Except ReadError ByteArray :=
  match s.file with
  | some raw => .ok raw
  | none => .error .notFound

/-- The phase of the request that holds the lock. -/
def Machine.held (s : Machine) : Option Phase :=
  s.holder.bind fun c ↦ s.requests[c]?

/-! ### One inversion for all steps -/

variable {s t u : Machine} {l : Label} {a : Act} {c : ℕ} {p q : Phase}

/-- The turns of `turn`, one by one. -/
inductive Turn (s : Machine) (c : ℕ) : Act → Phase → Phase → Machine → Prop
  | store (flag : Flag) (on : Bool) :
    Turn s c .store (.parsed flag on) (.stored flag) { s with flags := flag.store s.flags on }
  | lock (flag : Flag) (hfree : s.holder = none) :
    Turn s c .lock (.stored flag) (.locked flag) { s with holder := some c }
  | loadAutoUnlock (flag : Flag) :
    Turn s c .loadAutoUnlock (.locked flag) (.readUnlock flag s.flags.autoUnlock) s
  | loadAutoHangup (flag : Flag) (au : Bool) :
    Turn s c .loadAutoHangup (.readUnlock flag au) (.read flag ⟨au, s.flags.autoHangup⟩) s
  | duplicate (flag : Flag) (hwrote : s.hasWrote = true) :
    Turn s c .dedup (.read flag s.last) (.persisted flag) (s.release .duplicate)
  | differs (flag : Flag) (cur : State) : Turn s c .dedup (.read flag cur) (.writing flag cur) s
  | writeTemp (flag : Flag) (cur : State) :
    Turn s c .writeTemp (.writing flag cur) (.wroteTemp flag cur)
      { s with temp := some (render cur) }
  | writeTempFails (flag : Flag) (cur : State) (left : Option ByteArray) :
    Turn s c (.writeTempFails left) (.writing flag cur) (.persisted flag)
      { s.release .failed with temp := left }
  | rename (flag : Flag) (cur : State) (raw : ByteArray) (htemp : s.temp = some raw) :
    Turn s c .rename (.wroteTemp flag cur) (.renamed flag cur)
      { s with file := some raw, temp := none }
  | renameFails (flag : Flag) (cur : State) (removed : Bool) :
    Turn s c (.renameFails removed) (.wroteTemp flag cur) (.persisted flag)
      { s.release .failed with temp := if removed then none else s.temp }
  | record (flag : Flag) (cur : State) :
    Turn s c .record (.renamed flag cur) (.persisted flag)
      { s.release .wrote with last := cur, hasWrote := true }
  | respond (flag : Flag) :
    Turn s c .respond (.persisted flag) (.answered flag (flag.load s.flags)) s

theorem turn_cases (h : turn s c a p = some (q, u)) : Turn s c a p q u := by
  unfold turn at h
  split at h
  case h_2 => 
    split_ifs at h with hfree
    obtain ⟨rfl, rfl⟩ := Prod.mk.inj (Option.some.inj h)
    exact .lock _ hfree
  case h_5 =>
    split_ifs at h with hdup
    · obtain ⟨rfl, rfl⟩ := Prod.mk.inj (Option.some.inj h)
      rw [hdup.2]
      exact .duplicate _ hdup.1
    · obtain ⟨rfl, rfl⟩ := Prod.mk.inj (Option.some.inj h)
      exact .differs _ _
  case h_8 =>
    obtain ⟨raw, htemp, hnext⟩ := Option.map_eq_some_iff.mp h
    obtain ⟨rfl, rfl⟩ := Prod.mk.inj hnext
    exact .rename _ _ raw htemp
  case h_12 => exact absurd h (by simp)
  all_goals
    obtain ⟨rfl, rfl⟩ := Prod.mk.inj (Option.some.inj h)
    constructor

/-- A step is an arrival or a turn of one request. -/
theorem step_cases (h : step s l = some t) :
    (∃ flag on, l = .request flag on ∧
      t = { s with requests := s.requests ++ [.parsed flag on] }) ∨
    ∃ c a p q u, l = .act c a ∧ s.requests[c]? = some p ∧ Turn s c a p q u ∧ t = u.move c q := by
  cases l with
  | request flag on => exact .inl ⟨flag, on, rfl, (Option.some.inj h).symm⟩
  | act c a =>
    obtain ⟨p, hp, hnext⟩ := Option.bind_eq_some_iff.mp h
    obtain ⟨⟨q, u⟩, hturn, rfl⟩ := Option.map_eq_some_iff.mp hnext
    exact .inr ⟨c, a, p, q, u, rfl, hp, turn_cases hturn, rfl⟩

theorem Turn.requests (h : Turn s c a p q u) : u.requests = s.requests := by
  cases h <;> rfl

theorem Turn.getElem?_move (h : Turn s c a p q u) (hp : s.requests[c]? = some p) (k : ℕ) :
    (u.move c q).requests[k]? = if c = k then some q else s.requests[k]? := by
  have hlt : c < s.requests.length := (List.getElem?_eq_some_iff.mp hp).1
  simp only [Machine.move, h.requests, List.getElem?_set, if_pos hlt]

/-! ### The lock -/

/-- The request that holds the lock is the one between its acquisition and its release. -/
structure LockInv (s : Machine) : Prop where
  holds_iff : ∀ (c : ℕ) p, s.requests[c]? = some p → (p.holdsLock = true ↔ s.holder = some c)
  arrived : ∀ c, s.holder = some c → c < s.requests.length

theorem lockInv_init (flags : State) (file temp : Option ByteArray) :
    LockInv (.init flags file temp) where
  holds_iff := fun c p h ↦ absurd h (by simp [Machine.init])
  arrived := fun c h ↦ absurd h (by simp [Machine.init])

theorem LockInv.held_eq (hinv : LockInv s) (hp : s.requests[c]? = some p)
    (hlock : p.holdsLock = true) : s.held = some p := by
  rw [Machine.held, (hinv.holds_iff c p hp).mp hlock]
  exact hp

theorem LockInv.held_eq_some (hinv : LockInv s) (h : s.held = some p) :
    ∃ c : ℕ, s.requests[c]? = some p ∧ p.holdsLock = true := by
  obtain ⟨c, hc, hp⟩ := Option.bind_eq_some_iff.mp h
  exact ⟨c, hp, (hinv.holds_iff c p hp).mpr hc⟩

/-- A turn keeps the lock as it is, takes it, or releases it. -/
theorem Turn.lock_cases (h : Turn s c a p q u) :
    (u.holder = s.holder ∧ q.holdsLock = p.holdsLock) ∨
    (s.holder = none ∧ u.holder = some c ∧ q.holdsLock = true) ∨
    (u.holder = none ∧ p.holdsLock = true ∧ q.holdsLock = false) := by
  cases h with
  | lock flag hfree => exact .inr (.inl ⟨hfree, rfl, rfl⟩)
  | duplicate | writeTempFails | renameFails | record => exact .inr (.inr ⟨rfl, rfl, rfl⟩)
  | _ => exact .inl ⟨rfl, rfl⟩

theorem LockInv.turn (hinv : LockInv s) (hp : s.requests[c]? = some p) (h : Turn s c a p q u) :
    LockInv (u.move c q) := by
  have hlt : c < s.requests.length := (List.getElem?_eq_some_iff.mp hp).1
  have hown := hinv.holds_iff c p hp
  constructor
  · intro k r hr
    rw [h.getElem?_move hp] at hr
    change r.holdsLock = true ↔ u.holder = some k
    split_ifs at hr with hk
    · obtain rfl := Option.some.inj hr
      subst hk
      rcases h.lock_cases with ⟨hsame, hlock⟩ | ⟨_, hheld, hlock⟩ | ⟨hfree, _, hlock⟩
      · rw [hsame, hlock]
        exact hown
      · simp only [hheld, hlock]
      · simp [hfree, hlock]
    · have hother := hinv.holds_iff k r hr
      rcases h.lock_cases with ⟨hsame, _⟩ | ⟨hfree, hheld, _⟩ | ⟨hfree, hlock, _⟩
      · rw [hsame]
        exact hother
      · rw [hother, hfree, hheld]
        simp [hk]
      · rw [hother, hown.mp hlock, hfree]
        simp [hk]
  · intro k hk
    change u.holder = some k at hk
    change k < (u.requests.set c q).length
    rw [List.length_set, h.requests]
    rcases h.lock_cases with ⟨hsame, _⟩ | ⟨_, hheld, _⟩ | ⟨hfree, _, _⟩
    · exact hinv.arrived k (hsame ▸ hk)
    · obtain rfl := Option.some.inj (hheld.symm.trans hk)
      exact hlt
    · exact absurd (hfree.symm.trans hk) (by simp)

theorem LockInv.request (hinv : LockInv s) (flag : Flag) (on : Bool) :
    LockInv { s with requests := s.requests ++ [.parsed flag on] } := by
  constructor
  · intro c p hp
    change (s.requests ++ [.parsed flag on])[c]? = some p at hp
    by_cases hc : c < s.requests.length
    · rw [List.getElem?_append_left hc] at hp
      exact hinv.holds_iff c p hp
    · rw [List.getElem?_append_right (Nat.le_of_not_lt hc), List.getElem?_singleton] at hp
      split_ifs at hp
      obtain rfl := Option.some.inj hp
      exact ⟨fun h ↦ absurd h Bool.false_ne_true, fun h ↦ absurd (hinv.arrived c h) hc⟩
  · intro c hc
    change c < (s.requests ++ [_]).length
    rw [List.length_append]
    exact Nat.lt_add_right _ (hinv.arrived c hc)

theorem step_lockInv (hinv : LockInv s) (h : step s l = some t) : LockInv t := by
  obtain ⟨flag, on, _, rfl⟩ | ⟨c, a, p, q, u, _, hp, hturn, rfl⟩ := step_cases h
  · exact hinv.request flag on
  · exact hinv.turn hp hturn

/-- An arrival does not touch the critical section. -/
theorem LockInv.held_request (hinv : LockInv s) (flag : Flag) (on : Bool) :
    Machine.held { s with requests := s.requests ++ [.parsed flag on] } = s.held := by
  unfold Machine.held
  cases hholder : s.holder with
  | none => rfl
  | some c => exact List.getElem?_append_left (hinv.arrived c hholder)

/-- Nor does a turn outside of it. -/
theorem LockInv.held_outside (hinv : LockInv s) (hp : s.requests[c]? = some p)
    (h : Turn s c a p q u) (hout : p.holdsLock = false) (hholder : u.holder = s.holder) :
    (u.move c q).held = s.held := by
  have hne : s.holder ≠ some c := by
    rw [Ne, ← hinv.holds_iff c p hp, hout]
    simp
  unfold Machine.held
  change u.holder.bind _ = _
  rw [hholder]
  cases hs : s.holder with
  | none => rfl
  | some k =>
    change (u.move c q).requests[k]? = s.requests[k]?
    rw [h.getElem?_move hp, if_neg]
    rintro rfl
    exact hne hs

/-! ### The file -/

/-- Once a persist has written, the file is what it wrote. -/
def Machine.InStep (s : Machine) : Prop :=
  s.hasWrote = true → s.file = some (render s.last)

/-- The two files while the critical section is in a phase. -/
def FileInv (s : Machine) : Option Phase → Prop
  | some (.wroteTemp _ cur) => s.temp = some (render cur) ∧ s.InStep
  | some (.renamed _ cur) => s.file = some (render cur)
  | _ => s.InStep

/-- The file is in step with `last` but between a rename and its record. -/
theorem FileInv.inStep {phase : Option Phase} (h : FileInv s phase)
    (hphase : ∀ flag cur, phase ≠ some (.renamed flag cur)) : s.InStep := by
  unfold FileInv at h
  split at h
  · exact h.2
  · exact absurd rfl (hphase _ _)
  · exact h

/-- The invariant depends on the files and what the lock protects. -/
theorem FileInv.congr {phase : Option Phase} (h : FileInv s phase) (htemp : t.temp = s.temp)
    (hfile : t.file = s.file) (hwrote : t.hasWrote = s.hasWrote) (hlast : t.last = s.last) :
    FileInv t phase := by
  unfold FileInv Machine.InStep at *
  rw [htemp, hfile, hwrote, hlast]
  exact h

theorem FileInv.turn (hlock : LockInv s) (hfile : FileInv s s.held)
    (hp : s.requests[c]? = some p) (h : Turn s c a p q u) :
    FileInv (u.move c q) (u.move c q).held := by
  have hafter := hlock.turn hp h
  have hnew : (u.move c q).requests[c]? = some q := by
    rw [h.getElem?_move hp, if_pos rfl]
  have hbefore : p.holdsLock = true → FileInv s (some p) := by
    intro hin
    rw [← hlock.held_eq hp hin]
    exact hfile
  cases h with
  | store flag on =>
    rw [hlock.held_outside hp (.store flag on) rfl rfl]
    exact hfile.congr rfl rfl rfl rfl
  | respond flag =>
    rw [hlock.held_outside hp (.respond flag) rfl rfl]
    exact hfile.congr rfl rfl rfl rfl
  | lock flag hfree =>
    rw [hafter.held_eq hnew rfl]
    have hheld : s.held = none := by rw [Machine.held, hfree]; rfl
    rw [hheld] at hfile
    exact hfile
  | loadAutoUnlock flag =>
    rw [hafter.held_eq hnew rfl]
    exact hbefore rfl
  | loadAutoHangup flag au =>
    rw [hafter.held_eq hnew rfl]
    exact hbefore rfl
  | duplicate flag hwrote => exact hbefore rfl
  | differs flag cur =>
    rw [hafter.held_eq hnew rfl]
    exact hbefore rfl
  | writeTemp flag cur =>
    rw [hafter.held_eq hnew rfl]
    exact ⟨rfl, hbefore rfl⟩
  | writeTempFails flag cur left => exact hbefore rfl
  | rename flag cur raw htemp =>
    rw [hafter.held_eq hnew rfl]
    exact htemp.symm.trans (hbefore rfl).1
  | renameFails flag cur removed => exact (hbefore rfl).2
  | record flag cur => exact fun _ ↦ hbefore rfl

/-! ### The flags -/

/-- What a persist under way has read is what the flags are, and after a persist that wrote or had
nothing to write, they are the last pair written. -/
def Fresh (s : Machine) : Option Phase → Prop
  | none =>
    s.outcome = some .wrote ∨ s.outcome = some .duplicate → s.hasWrote = true ∧ s.last = s.flags
  | some (.readUnlock _ au) => au = s.flags.autoUnlock
  | some (.read _ cur) | some (.writing _ cur) | some (.wroteTemp _ cur)
  | some (.renamed _ cur) => cur = s.flags
  | some _ => True

/-- A request has stored its flag and is still before its persist. -/
def Pending (s : Machine) : Prop :=
  ∃ (c : ℕ) (flag : Flag), s.requests[c]? = some (.stored flag)

/-- The step lemma of the flags: a store leaves its own request pending, and only the request that
takes the lock is pending no more, with both reads before it. -/
theorem fresh_turn (hlock : LockInv s) (hfresh : Pending s ∨ Fresh s s.held)
    (hp : s.requests[c]? = some p) (h : Turn s c a p q u) :
    Pending (u.move c q) ∨ Fresh (u.move c q) (u.move c q).held := by
  have hafter := hlock.turn hp h
  have hnew : (u.move c q).requests[c]? = some q := by
    rw [h.getElem?_move hp, if_pos rfl]
  -- Another request that is pending still is.
  have hpending : Pending s → (∀ flag, p ≠ .stored flag) → Pending (u.move c q) := by
    rintro ⟨k, flag, hk⟩ hother
    refine ⟨k, flag, ?_⟩
    rw [h.getElem?_move hp, if_neg]
    · exact hk
    · rintro rfl
      exact hother flag (Option.some.inj (hp.symm.trans hk))
  have hbefore : p.holdsLock = true → (∀ flag, p ≠ .stored flag) →
      Pending (u.move c q) ∨ Fresh s (some p) := by
    intro hin hother
    rw [← hlock.held_eq hp hin]
    exact hfresh.imp_left fun hs ↦ hpending hs hother
  have hfailed : ¬(some Outcome.failed = some .wrote ∨ some Outcome.failed = some .duplicate) := by
    decide
  cases h with
  | store flag on => exact .inl ⟨c, flag, hnew⟩
  | lock flag hfree =>
    rw [hafter.held_eq hnew rfl]
    exact .inr trivial
  | respond flag =>
    rw [hlock.held_outside hp (.respond flag) rfl rfl]
    exact hfresh.imp_left fun hs ↦ hpending hs (by simp)
  | loadAutoUnlock flag =>
    rw [hafter.held_eq hnew rfl]
    exact .inr rfl
  | loadAutoHangup flag au =>
    rw [hafter.held_eq hnew rfl]
    refine (hbefore rfl (by simp)).imp_right fun hread ↦ ?_
    change au = s.flags.autoUnlock at hread
    rw [hread]
    rfl
  | duplicate flag hwrote =>
    exact (hbefore rfl (by simp)).imp_right fun hread _ ↦ ⟨hwrote, hread⟩
  | differs flag cur =>
    rw [hafter.held_eq hnew rfl]
    exact hbefore rfl (by simp)
  | writeTemp flag cur =>
    rw [hafter.held_eq hnew rfl]
    exact hbefore rfl (by simp)
  | writeTempFails flag cur left => exact .inr fun houtcome ↦ absurd houtcome hfailed
  | rename flag cur raw htemp =>
    rw [hafter.held_eq hnew rfl]
    exact hbefore rfl (by simp)
  | renameFails flag cur removed => exact .inr fun houtcome ↦ absurd houtcome hfailed
  | record flag cur => exact (hbefore rfl (by simp)).imp_right fun hread _ ↦ ⟨rfl, hread⟩

/-! ### Reachable machines -/

structure Inv (file : Option ByteArray) (s : Machine) : Prop where
  lock : LockInv s
  /-- The file is never half written. -/
  whole : s.file = file ∨ ∃ st, s.file = some (render st)
  files : FileInv s s.held
  fresh : Pending s ∨ Fresh s s.held

theorem inv_init (flags : State) (file temp : Option ByteArray) :
    Inv file (.init flags file temp) where
  lock := lockInv_init flags file temp
  whole := .inl rfl
  files := fun h ↦ absurd h Bool.false_ne_true
  fresh := .inr fun h ↦ absurd h (by simp [Machine.init])

theorem Inv.whole_turn {file : Option ByteArray} (hinv : Inv file s)
    (hp : s.requests[c]? = some p) (h : Turn s c a p q u) :
    u.file = file ∨ ∃ st, u.file = some (render st) := by
  cases h with
  | rename flag cur raw htemp =>
    have hfiles := hinv.files
    rw [hinv.lock.held_eq hp rfl] at hfiles
    exact .inr ⟨cur, htemp.symm.trans hfiles.1⟩
  | _ => exact hinv.whole

theorem Inv.step {file : Option ByteArray} (hinv : Inv file s) (h : step s l = some t) :
    Inv file t := by
  obtain ⟨flag, on, _, rfl⟩ | ⟨c, a, p, q, u, _, hp, hturn, rfl⟩ := step_cases h
  · refine ⟨hinv.lock.request flag on, hinv.whole, ?_, ?_⟩
    · rw [hinv.lock.held_request]
      exact hinv.files.congr rfl rfl rfl rfl
    · rw [hinv.lock.held_request]
      refine hinv.fresh.imp_left ?_
      rintro ⟨c, other, hc⟩
      have hlt := (List.getElem?_eq_some_iff.mp hc).1
      exact ⟨c, other, (List.getElem?_append_left hlt).trans hc⟩
  · have hwhole := hinv.whole_turn hp hturn
    exact ⟨hinv.lock.turn hp hturn, hwhole, hinv.files.turn hinv.lock hp hturn,
      fresh_turn hinv.lock hinv.fresh hp hturn⟩

theorem reachable_inv {flags : State} {file temp : Option ByteArray}
    (hreach : Reachable Persister.step (.init flags file temp) s) : Inv file s :=
  hreach.invariant (inv_init flags file temp) Inv.step

/-! ### A failed write -/

def Act.fails : Act → Bool
  | .writeTempFails _ | .renameFails _ => true
  | _ => false

/-- What `persist` is about is the same in both machines. -/
def SameStore (s t : Machine) : Prop :=
  t.file = s.file ∧ t.last = s.last ∧ t.hasWrote = s.hasWrote

/-- A request in `write_atomic`, or past it. -/
def Phase.Attempts : Phase → Prop
  | .writing _ _ | .wroteTemp _ _ => True
  | _ => False

def Phase.Past : Phase → Prop
  | .renamed _ _ | .persisted _ | .answered _ _ => True
  | _ => False

theorem Turn.sameStore_of_outside (h : Turn s c a p q u) (hout : p.holdsLock = false) :
    SameStore s u := by
  cases h with
  | rename | record => exact absurd hout Bool.true_eq_false.mp
  | _ => exact ⟨rfl, rfl, rfl⟩

theorem Turn.attempts (h : Turn s c a p q u) (hp : p.Attempts) :
    q.Past ∨ (q.Attempts ∧ a.fails = false ∧ SameStore s u) := by
  cases h with
  | writeTemp => exact .inr ⟨trivial, rfl, rfl, rfl, rfl⟩
  | writeTempFails | rename | renameFails => exact .inl trivial
  | _ => exact hp.elim

theorem Turn.past (h : Turn s c a p q u) (hp : p.Past) : q.Past ∧ a.fails = false := by
  cases h with
  | record | respond => exact ⟨trivial, rfl⟩
  | _ => exact hp.elim

/-- While a request is in `write_atomic`, nothing else touches the file or what the lock
protects. -/
def Attempt (s : Machine) (c : ℕ) (t : Machine) : Prop :=
  LockInv t ∧ ∃ p, t.requests[c]? = some p ∧ (p.Past ∨ (p.Attempts ∧ SameStore s t))

theorem Phase.Attempts.holdsLock (h : p.Attempts) : p.holdsLock = true := by
  cases p with
  | writing | wroteTemp => rfl
  | _ => exact h.elim

theorem Attempt.step (hattempt : Attempt s c t) (h : Persister.step t l = some u) :
    Attempt s c u := by
  obtain ⟨hlock, r, hr, hphase⟩ := hattempt
  refine ⟨step_lockInv hlock h, ?_⟩
  obtain ⟨flag, on, _, rfl⟩ | ⟨k, a, p, q, v, _, hp, hturn, rfl⟩ := step_cases h
  · have hlt := (List.getElem?_eq_some_iff.mp hr).1
    exact ⟨r, (List.getElem?_append_left hlt).trans hr, hphase⟩
  · have hget := hturn.getElem?_move hp c
    by_cases hk : k = c
    · subst hk
      obtain rfl := Option.some.inj (hp.symm.trans hr)
      rw [if_pos rfl] at hget
      refine ⟨q, hget, ?_⟩
      rcases hphase with hpast | ⟨hin, hfile, hlast, hwrote⟩
      · exact .inl (hturn.past hpast).1
      · refine (hturn.attempts hin).imp_right ?_
        rintro ⟨hq, -, hfile', hlast', hwrote'⟩
        exact ⟨hq, hfile'.trans hfile, hlast'.trans hlast, hwrote'.trans hwrote⟩
    · rw [if_neg hk] at hget
      refine ⟨r, hget.trans hr, hphase.imp_right ?_⟩
      rintro ⟨hin, hfile, hlast, hwrote⟩
      -- The request `c` holds the lock, so the turn is one outside of it.
      have hholder := (hlock.holds_iff c r hr).mp hin.holdsLock
      have hout : p.holdsLock = false := by
        rw [Bool.eq_false_iff, Ne, hlock.holds_iff k p hp, hholder, Option.some.injEq]
        exact fun h ↦ hk h.symm
      obtain ⟨hfile', hlast', hwrote'⟩ := hturn.sameStore_of_outside hout
      exact ⟨hin, hfile'.trans hfile, hlast'.trans hlast, hwrote'.trans hwrote⟩

/-- The turn with which a write fails changes nothing either. -/
theorem Turn.sameStore_of_fails (h : Turn s c a p q u) (hfails : a.fails = true) :
    p.Attempts ∧ SameStore s u := by
  cases h with
  | writeTempFails | renameFails => exact ⟨trivial, rfl, rfl, rfl⟩
  | _ => exact absurd hfails Bool.false_ne_true

/-- From the call of `write_atomic` to its failure the file and what the lock protects are the same,
whatever other requests do in between. -/
theorem failed_write_keeps (hlock : LockInv s) (hp : s.requests[c]? = some p) (hin : p.Attempts)
    {labels : List Label} (hfails : a.fails = true)
    (hrun : exec step s (labels ++ [.act c a]) = some t) : SameStore s t := by
  obtain ⟨v, hleft, hlast⟩ := exec_snoc_eq_some.mp hrun
  have hreach : Reachable step s v := ⟨labels, hleft⟩
  have hattempt : Attempt s c v :=
    hreach.invariant ⟨hlock, p, hp, .inr ⟨hin, rfl, rfl, rfl⟩⟩ Attempt.step
  obtain ⟨-, r, hr, hphase⟩ := hattempt
  obtain ⟨flag, on, hl, -⟩ | ⟨k, b, r', q, u, hl, hr', hturn, rfl⟩ := step_cases hlast
  · exact absurd hl (by simp)
  · obtain ⟨rfl, rfl⟩ := Label.act.inj hl
    obtain rfl := Option.some.inj (hr'.symm.trans hr)
    obtain ⟨hstill, hfile, hlast, hwrote⟩ := hturn.sameStore_of_fails hfails
    rcases hphase with hpast | ⟨-, hfile', hlast', hwrote'⟩
    · exact absurd (hturn.past hpast).2 (by simp [hfails])
    · exact ⟨hfile.trans hfile', hlast.trans hlast', hwrote.trans hwrote'⟩

/-! ### Every interleaving -/

theorem LockInv.held_of_finished (hlock : LockInv s) (hdone : ∀ p ∈ s.requests, p.finished = true) :
    s.held = none := by
  rw [Option.eq_none_iff_forall_ne_some]
  intro p hheld
  obtain ⟨c, hp, hin⟩ := hlock.held_eq_some hheld
  have hfinished := hdone p (List.mem_of_getElem? hp)
  cases p with
  | answered => exact absurd hin Bool.false_ne_true
  | _ => exact absurd hfinished Bool.false_ne_true

/-- With every request answered and the last persist not failed, the file is the flags. -/
theorem Inv.file_eq_of_finished {file : Option ByteArray} (hinv : Inv file s)
    (hdone : ∀ p ∈ s.requests, p.finished = true)
    (houtcome : s.outcome = some .wrote ∨ s.outcome = some .duplicate) :
    s.file = some (render s.flags) := by
  have hheld := hinv.lock.held_of_finished hdone
  have hpending : ¬Pending s := by
    rintro ⟨c, flag, hc⟩
    exact absurd (hdone _ (List.mem_of_getElem? hc)) Bool.false_ne_true
  have hfresh := hinv.fresh.resolve_left hpending
  rw [hheld] at hfresh
  obtain ⟨hwrote, hlast⟩ := hfresh houtcome
  have hstep := hinv.files.inStep fun flag cur ↦ by simp [hheld]
  rw [← hlast]
  exact hstep hwrote

/-- Over every run of toggles with any failures: the file is never half written; once a persist has
written it is the last pair written, but from a rename to the record that follows it under the lock,
where it is the pair being recorded; a failed write changes neither; and after all requests, if the
last persist did not fail, the next start recovers the flags as they were. -/
theorem toggles_persist (flags : State) (file temp : Option ByteArray) (path : String)
    {labels : List Label} (hrun : exec step (.init flags file temp) labels = some s) :
    (s.file = file ∨ ∃ st, s.file = some (render st)) ∧
    (s.hasWrote = true → (∀ flag cur, s.held ≠ some (.renamed flag cur)) →
      s.file = some (render s.last)) ∧
    (∀ flag cur, s.held = some (.renamed flag cur) → s.file = some (render cur)) ∧
    (∀ (c : ℕ) p, s.requests[c]? = some p → p.Attempts → ∀ more a t, a.fails = true →
      exec step s (more ++ [.act c a]) = some t → SameStore s t) ∧
    ((∀ p ∈ s.requests, p.finished = true) →
      s.outcome = some .wrote ∨ s.outcome = some .duplicate →
      s.file = some (render s.flags) ∧ loadStateFile path s.readFile = .ok (some s.flags)) := by
  have hinv : Inv file s := reachable_inv ⟨labels, hrun⟩
  refine ⟨hinv.whole, ?_, ?_, ?_, ?_⟩
  · intro hwrote hphase
    exact hinv.files.inStep hphase hwrote
  · intro flag cur hheld
    have hfiles := hinv.files
    rw [hheld] at hfiles
    exact hfiles
  · intro c p hp hin more a t hfails hmore
    exact failed_write_keeps hinv.lock hp hin hfails hmore
  · intro hdone houtcome
    have hfile := hinv.file_eq_of_finished hdone houtcome
    refine ⟨hfile, ?_⟩
    unfold Machine.readFile
    rw [hfile]
    exact loadStateFile_render path s.flags

/-- The acts of a request from its store to its answer, if its write works. -/
def persisting (c : ℕ) : List Label :=
  [.act c .store, .act c .lock, .act c .loadAutoUnlock, .act c .loadAutoHangup, .act c .dedup,
    .act c .writeTemp, .act c .rename]

/-- Both flags are switched on at once; the first persist fails, and the second writes both. -/
def crossingToggles : List Label :=
  [.request .autoUnlock true, .request .autoHangup true, .act 0 .store, .act 0 .lock,
    .act 0 .loadAutoUnlock, .act 1 .store, .act 0 .loadAutoHangup, .act 0 .dedup, .act 0 .writeTemp,
    .act 0 (.renameFails true), .act 0 .respond, .act 1 .lock, .act 1 .loadAutoUnlock,
    .act 1 .loadAutoHangup, .act 1 .dedup, .act 1 .writeTemp, .act 1 .rename, .act 1 .record,
    .act 1 .respond]

theorem toggles_persist_crossing :
    ∃ s, exec step (.init ⟨false, false⟩ none none) crossingToggles = some s ∧
      s.flags = ⟨true, true⟩ ∧ s.file = some (render ⟨true, true⟩) ∧
      loadStateFile "/etc/dooraccess-go/automation.state" s.readFile = .ok (some ⟨true, true⟩) := by
  have hrun : ((exec step (.init ⟨false, false⟩ none none) crossingToggles).map fun s ↦
      (s.flags, s.requests.all Phase.finished, s.outcome)) =
      some (⟨true, true⟩, true, some .wrote) := by decide
  obtain ⟨s, hs, hend⟩ := Option.map_eq_some_iff.mp hrun
  simp only [Prod.mk.injEq, List.all_eq_true] at hend
  obtain ⟨hflags, hdone, houtcome⟩ := hend
  obtain ⟨-, -, -, -, hlast⟩ :=
    toggles_persist _ _ _ "/etc/dooraccess-go/automation.state" hs
  obtain ⟨hfile, hload⟩ := hlast hdone (.inl houtcome)
  rw [hflags] at hfile hload
  exact ⟨s, hs, hflags, hfile, hload⟩

/-- Between the rename of a second pair and its record, the file is ahead of `last`. -/
theorem rename_before_record :
    ∃ s, exec step (.init ⟨false, false⟩ none none)
        ([.request .autoUnlock true, .request .autoHangup true] ++ persisting 0 ++
          [.act 0 .record] ++ persisting 1) = some s ∧
      s.hasWrote = true ∧ s.file ≠ some (render s.last) := by
  have hrun : ((exec step (.init ⟨false, false⟩ none none)
      ([.request .autoUnlock true, .request .autoHangup true] ++ persisting 0 ++
        [.act 0 .record] ++ persisting 1)).map fun s ↦ (s.hasWrote, s.last, s.file)) =
      some (true, ⟨true, false⟩, some (render ⟨true, true⟩)) := by rfl
  obtain ⟨s, hs, hend⟩ := Option.map_eq_some_iff.mp hrun
  simp only [Prod.mk.injEq] at hend
  obtain ⟨hwrote, hlast, hfile⟩ := hend
  refine ⟨s, hs, hwrote, ?_⟩
  rw [hlast, hfile]
  intro hsame
  exact absurd (render_injective (Option.some.inj hsame)) (by decide)

end DoorAccess.AutomationState.Persister
