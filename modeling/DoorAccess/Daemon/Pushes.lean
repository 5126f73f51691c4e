import DoorAccess.Lib.Transition
import Mathlib.Data.List.Perm.Subperm

/-!
# The threads of the pushes

Every push to Home Assistant runs in a thread of its own. `PushTracker` has the handles of these
threads: whoever spawns one registers it, which first drops the handles of the threads that have
finished, and `join_all` takes what is left at the end of the daemon and joins it.

`pushes_joined` is about every interleaving of the threads with those that spawn them, the shutdown
flag, the clock and `join_all`: no running thread is lost, right behind a registration the tracker
holds no more than one handle beside those of the threads that run, a push comes once for a thread
at most and not before its time to settle, behind the flag only those threads begin one that have
taken their last look at it before, and behind `join_all` nothing runs, if nothing was spawned since.
-/

set_option autoImplicit false
set_option relaxedAutoImplicit false

namespace DoorAccess.Daemon.Pushes

open Transition

/-- Where a push thread is. Those of `spawn_push` start at the last look at the flag. -/
inductive Phase
  /-- In `spawn_diagnosis_push`, before it sets its deadline. -/
  | starting
  /-- In its loop, before it loads the flag. -/
  | settling (deadline : ℕ)
  /-- In its loop, before it looks at the clock. -/
  | settlingClock (deadline : ℕ)
  | sleeping (deadline : ℕ)
  /-- Before the last load of the flag. -/
  | checking
  /-- Behind the last load of the flag, before `client.push`. -/
  | ready
  /-- In `client.push`. -/
  | pushing
  | finished
  deriving DecidableEq

structure Thread where
  spawned : ℕ
  /-- The time before the push, `0` for `spawn_push`. -/
  settle : ℕ
  phase : Phase
  deriving DecidableEq

/-- `!h.is_finished()`. -/
def Thread.runs (thread : Thread) : Bool :=
  thread.phase ≠ .finished

/-- Where `join_all` is, with the handles that it still has to join. -/
inductive Joiner
  | idle
  | joining (rest : List ℕ)
  | returned
  deriving DecidableEq

def Joiner.rest : Joiner → List ℕ
  | joining rest => rest
  | _ => []

/-- A thread is known by its number. -/
structure State where
  now : ℕ
  shutdown : Bool
  threads : List Thread
  /-- The handles between the spawn of a thread and its registration. -/
  held : List ℕ
  /-- The handles of the tracker. -/
  handles : List ℕ
  joiner : Joiner
  /-- The pushes that have begun, with the number of the thread and the time. -/
  pushed : List (ℕ × ℕ)
  deriving DecidableEq

def State.init : State where
  now := 0
  shutdown := false
  threads := []
  held := []
  handles := []
  joiner := .idle
  pushed := []

inductive Label
  | tick (duration : ℕ)
  | setShutdown
  /-- `spawn_push`, or `spawn_diagnosis_push` with its time to settle. -/
  | spawn (settle : Option ℕ)
  | register (i : ℕ)
  | thread (i : ℕ)
  /-- `join_all` takes the handles. -/
  | drain
  | join
  deriving DecidableEq

def Label.isSpawn : Label → Bool
  | spawn _ => true
  | _ => false

/-- The body of a push thread. -/
def Thread.step (now : ℕ) (shutdown : Bool) (thread : Thread) : Option Thread :=
  match thread.phase with
  | .starting => some { thread with phase := .settling (now + thread.settle) }
  | .settling deadline =>
    some { thread with phase := if shutdown then .finished else .settlingClock deadline }
  | .settlingClock deadline =>
    some { thread with phase := if deadline ≤ now then .checking else .sleeping deadline }
  | .sleeping deadline => some { thread with phase := .settling deadline }
  | .checking => some { thread with phase := if shutdown then .finished else .ready }
  | .ready => some { thread with phase := .pushing }
  | .pushing => some { thread with phase := .finished }
  | .finished => none

/-- The thread that a spawn starts. -/
def Thread.spawn (now : ℕ) (settle : Option ℕ) : Thread where
  spawned := now
  settle := settle.getD 0
  phase := if settle.isSome then .starting else .checking

/-- The handles in the tracker of threads that still run. -/
def State.retained (s : State) : List ℕ :=
  s.handles.filter fun i ↦ s.threads[i]?.any Thread.runs

def step (s : State) : Label → Option State
  | .tick duration => some { s with now := s.now + duration }
  | .setShutdown => some { s with shutdown := true }
  | .spawn settle => some { s with
      threads := s.threads ++ [.spawn s.now settle]
      held := s.threads.length :: s.held }
  | .register i =>
    if i ∈ s.held then some { s with
      held := s.held.erase i
      handles := s.retained ++ [i] }
    else none
  | .thread i => do
    let thread ← s.threads[i]?
    let thread' ← thread.step s.now s.shutdown
    some { s with
      threads := s.threads.set i thread'
      pushed := if thread'.phase = .pushing then s.pushed ++ [(i, s.now)] else s.pushed }
  | .drain =>
    match s.joiner with
    | .idle => some { s with handles := [], joiner := .joining s.handles }
    | _ => none
  | .join =>
    match s.joiner with
    | .joining (i :: rest) =>
      if s.threads[i]?.any Thread.runs then none else some { s with joiner := .joining rest }
    | .joining [] => some { s with joiner := .returned }
    | _ => none

/-! ### One thread -/

variable {s t : State} {now : ℕ} {shutdown : Bool} {thread thread' : Thread}

/-- What the phase of a thread says about the clock. -/
def Thread.Timely (now : ℕ) (thread : Thread) : Prop :=
  match thread.phase with
  | .starting => thread.spawned ≤ now
  | .settling deadline | .settlingClock deadline | .sleeping deadline =>
    thread.spawned + thread.settle ≤ deadline
  | .checking | .ready | .pushing => thread.spawned + thread.settle ≤ now
  | .finished => True

theorem Thread.Timely.later {later : ℕ} (h : thread.Timely now) (hlater : now ≤ later) :
    thread.Timely later := by
  unfold Thread.Timely at h ⊢
  cases hphase : thread.phase <;> rw [hphase] at h <;> simp only at h ⊢ <;> omega

theorem timely_spawn (now : ℕ) (settle : Option ℕ) : (Thread.spawn now settle).Timely now := by
  cases settle with
  | none => exact Nat.le_refl _
  | some settle => exact Nat.le_refl _

/-- One step of the body of a thread. -/
structure Thread.Steps (now : ℕ) (shutdown : Bool) (thread thread' : Thread) : Prop where
  spawned : thread'.spawned = thread.spawned
  settle : thread'.settle = thread.settle
  timely : thread.Timely now → thread'.Timely now
  runs : thread.runs = true
  pushing : thread'.phase = .pushing → thread.phase = .ready
  ready : thread'.phase = .ready → shutdown = false
  finished : thread.phase = .pushing → thread'.phase = .finished

theorem Thread.steps (h : thread.step now shutdown = some thread') :
    thread.Steps now shutdown thread' := by
  obtain ⟨spawned, settle, phase⟩ := thread
  cases phase with
  | starting =>
    cases Option.some.inj h
    exact ⟨rfl, rfl, fun htimely ↦ Nat.add_le_add_right htimely _, rfl, (fun h ↦ by cases h),
      (fun h ↦ by cases h), fun h ↦ by cases h⟩
  | settling deadline =>
    cases Option.some.inj h
    cases shutdown
    · exact ⟨rfl, rfl, id, rfl, (fun h ↦ by cases h), (fun _ ↦ rfl), fun h ↦ by cases h⟩
    · exact ⟨rfl, rfl, fun _ ↦ trivial, rfl, (fun h ↦ by cases h), (fun h ↦ by cases h),
        fun h ↦ by cases h⟩
  | settlingClock deadline =>
    cases Option.some.inj h
    by_cases hdeadline : deadline ≤ now
    · simp only [if_pos hdeadline]
      exact ⟨rfl, rfl, fun htimely ↦ Nat.le_trans htimely hdeadline, rfl,
        (fun h ↦ by cases h), (fun h ↦ by cases h), fun h ↦ by cases h⟩
    · simp only [if_neg hdeadline]
      exact ⟨rfl, rfl, id, rfl, (fun h ↦ by cases h), (fun h ↦ by cases h), fun h ↦ by cases h⟩
  | sleeping deadline =>
    cases Option.some.inj h
    exact ⟨rfl, rfl, id, rfl, (fun h ↦ by cases h), (fun h ↦ by cases h), fun h ↦ by cases h⟩
  | checking =>
    cases Option.some.inj h
    cases shutdown
    · exact ⟨rfl, rfl, id, rfl, (fun h ↦ by cases h), (fun _ ↦ rfl), fun h ↦ by cases h⟩
    · exact ⟨rfl, rfl, fun _ ↦ trivial, rfl, (fun h ↦ by cases h), (fun h ↦ by cases h),
        fun h ↦ by cases h⟩
  | ready =>
    cases Option.some.inj h
    exact ⟨rfl, rfl, id, rfl, (fun _ ↦ rfl), (fun h ↦ by cases h), fun h ↦ by cases h⟩
  | pushing =>
    cases Option.some.inj h
    exact ⟨rfl, rfl, fun _ ↦ trivial, rfl, (fun h ↦ by cases h), (fun h ↦ by cases h),
      fun _ ↦ rfl⟩
  | finished => cases h

/-! ### The tracker -/

/-- What holds in every state. -/
structure Inv (s : State) : Prop where
  heldNodup : s.held.Nodup
  handlesNodup : s.handles.Nodup
  disjoint : ∀ i ∈ s.held, i ∉ s.handles
  known : ∀ i, i ∈ s.held ∨ i ∈ s.handles → i < s.threads.length
  accounted : ∀ i thread, s.threads[i]? = some thread → thread.runs = true →
    i ∈ s.held ∨ i ∈ s.handles ∨ i ∈ s.joiner.rest
  timely : ∀ thread ∈ s.threads, thread.Timely s.now
  pushedNodup : (s.pushed.map Prod.fst).Nodup
  pushed : ∀ e ∈ s.pushed, ∃ thread, s.threads[e.1]? = some thread ∧
    thread.spawned + thread.settle ≤ e.2 ∧ (thread.phase = .pushing ∨ thread.phase = .finished)

theorem inv_init : Inv .init where
  heldNodup := List.nodup_nil
  handlesNodup := List.nodup_nil
  disjoint i h := by cases h
  known i h := by rcases h with h | h <;> cases h
  accounted i thread h := by cases h
  timely thread h := by cases h
  pushedNodup := List.nodup_nil
  pushed e h := by cases h

theorem Inv.spawn (h : Inv s) (settle : Option ℕ) : Inv { s with
    threads := s.threads ++ [.spawn s.now settle]
    held := s.threads.length :: s.held } where
  heldNodup := List.nodup_cons.mpr ⟨fun hheld ↦ Nat.lt_irrefl _ (h.known _ (.inl hheld)),
    h.heldNodup⟩
  handlesNodup := h.handlesNodup
  disjoint i hi hhandles := by
    rcases List.mem_cons.mp hi with rfl | hheld
    · exact Nat.lt_irrefl _ (h.known _ (.inr hhandles))
    · exact h.disjoint i hheld hhandles
  known i hi := by
    rw [List.length_append, List.length_singleton]
    rcases hi with hi | hi
    · rcases List.mem_cons.mp hi with rfl | hheld
      · exact Nat.lt_succ_self _
      · exact Nat.lt_succ_of_lt (h.known _ (.inl hheld))
    · exact Nat.lt_succ_of_lt (h.known _ (.inr hi))
  accounted i thread hthread hruns := by
    rcases Nat.lt_or_ge i s.threads.length with hi | hi
    · rw [List.getElem?_append_left hi] at hthread
      exact (h.accounted i thread hthread hruns).imp_left (List.mem_cons_of_mem _)
    · obtain ⟨hlt, -⟩ := List.getElem?_eq_some_iff.mp hthread
      rw [List.length_append, List.length_singleton] at hlt
      exact .inl (List.mem_cons.mpr (.inl (by omega)))
  timely thread hthread := by
    rcases List.mem_append.mp hthread with hold | hnew
    · exact h.timely thread hold
    · rw [List.mem_singleton.mp hnew]
      exact timely_spawn _ _
  pushedNodup := h.pushedNodup
  pushed e he := by
    obtain ⟨thread, hthread, htime⟩ := h.pushed e he
    obtain ⟨hlt, -⟩ := List.getElem?_eq_some_iff.mp hthread
    exact ⟨thread, by rw [List.getElem?_append_left hlt]; exact hthread, htime⟩

theorem mem_retained {i : ℕ} : i ∈ s.retained ↔
    i ∈ s.handles ∧ ∃ thread, s.threads[i]? = some thread ∧ thread.runs = true := by
  rw [State.retained, List.mem_filter]
  refine and_congr_right fun _ ↦ ?_
  cases s.threads[i]? <;> simp

theorem Inv.register (h : Inv s) {i : ℕ} (hi : i ∈ s.held) : Inv { s with
    held := s.held.erase i
    handles := s.retained ++ [i] } where
  heldNodup := h.heldNodup.erase i
  handlesNodup := by
    refine List.nodup_append.mpr ⟨h.handlesNodup.filter _, by simp, ?_⟩
    intro j hj k hk
    rw [List.mem_singleton.mp hk]
    rintro rfl
    exact h.disjoint j hi (mem_retained.mp hj).1
  disjoint j hj hhandles := by
    obtain ⟨hne, hheld⟩ := h.heldNodup.mem_erase_iff.mp hj
    rcases List.mem_append.mp hhandles with hold | hnew
    · exact h.disjoint j hheld (mem_retained.mp hold).1
    · exact hne (List.mem_singleton.mp hnew)
  known j hj := by
    rcases hj with hj | hj
    · exact h.known j (.inl (List.mem_of_mem_erase hj))
    · rcases List.mem_append.mp hj with hold | hnew
      · exact h.known j (.inr (mem_retained.mp hold).1)
      · rw [List.mem_singleton.mp hnew]
        exact h.known i (.inl hi)
  accounted j thread hthread hruns := by
    rcases h.accounted j thread hthread hruns with hheld | hhandles | hrest
    · by_cases hj : j = i
      · exact .inr (.inl (List.mem_append_right _ (List.mem_singleton.mpr hj)))
      · exact .inl ((List.mem_erase_of_ne hj).mpr hheld)
    · exact .inr (.inl (List.mem_append_left _ (mem_retained.mpr ⟨hhandles, thread, hthread,
        hruns⟩)))
    · exact .inr (.inr hrest)
  timely := h.timely
  pushedNodup := h.pushedNodup
  pushed := h.pushed

/-- What a step of a thread does to the threads. -/
theorem getElem?_set_thread {i j : ℕ} {thread' : Thread} (hthread : s.threads[i]? = some thread) :
    (s.threads.set i thread')[j]? = if j = i then some thread' else s.threads[j]? := by
  obtain ⟨hlt, -⟩ := List.getElem?_eq_some_iff.mp hthread
  rw [List.getElem?_set]
  by_cases hj : j = i
  · rw [if_pos hj, if_pos hj.symm, if_pos hlt]
  · rw [if_neg hj, if_neg (Ne.symm hj)]

theorem Inv.move (h : Inv s) {i : ℕ} (hthread : s.threads[i]? = some thread)
    (hsteps : thread.Steps s.now s.shutdown thread') : Inv { s with
      threads := s.threads.set i thread'
      pushed := if thread'.phase = .pushing then s.pushed ++ [(i, s.now)] else s.pushed } where
  heldNodup := h.heldNodup
  handlesNodup := h.handlesNodup
  disjoint := h.disjoint
  known j hj := by
    rw [List.length_set]
    exact h.known j hj
  accounted j other hother hruns := by
    rw [getElem?_set_thread hthread] at hother
    split_ifs at hother with hj
    · rw [hj]
      exact h.accounted i thread hthread hsteps.runs
    · exact h.accounted j other hother hruns
  timely other hother := by
    rcases List.mem_or_eq_of_mem_set hother with hold | rfl
    · exact h.timely other hold
    · exact hsteps.timely (h.timely thread (List.mem_of_getElem? hthread))
  pushedNodup := by
    split_ifs with hpushing
    · rw [List.map_append, List.map_singleton]
      refine List.nodup_append.mpr ⟨h.pushedNodup, by simp, fun j hj k hk ↦ ?_⟩
      rw [List.mem_singleton.mp hk]
      rintro rfl
      -- A thread that has pushed is past the look at the flag that it is at now.
      obtain ⟨e, he, rfl⟩ := List.mem_map.mp hj
      obtain ⟨other, hother, -, hphase⟩ := h.pushed e he
      rw [hthread, Option.some.injEq] at hother
      rw [← hother, hsteps.pushing hpushing] at hphase
      rcases hphase with hphase | hphase <;> cases hphase
    · exact h.pushedNodup
  pushed e he := by
    have hset := @getElem?_set_thread s thread i e.1 thread' hthread
    have hold (he : e ∈ s.pushed) : ∃ other,
        (s.threads.set i thread')[e.1]? = some other ∧ other.spawned + other.settle ≤ e.2 ∧
          (other.phase = .pushing ∨ other.phase = .finished) := by
      obtain ⟨other, hother, htime, hphase⟩ := h.pushed e he
      by_cases hi : e.1 = i
      · rw [if_pos hi] at hset
        rw [hi, hthread, Option.some.injEq] at hother
        refine ⟨thread', hset, ?_, .inr ?_⟩
        · rw [hsteps.spawned, hsteps.settle, hother]
          exact htime
        · rcases hphase with hphase | hphase
          · exact hsteps.finished (hother ▸ hphase)
          · have hruns := hsteps.runs
            rw [hother, Thread.runs, hphase] at hruns
            cases hruns
      · rw [if_neg hi] at hset
        exact ⟨other, hset.trans hother, htime, hphase⟩
    split_ifs at he with hpushing
    · rcases List.mem_append.mp he with he | hnew
      · exact hold he
      · obtain rfl := List.mem_singleton.mp hnew
        rw [if_pos rfl] at hset
        refine ⟨thread', hset, ?_, .inl hpushing⟩
        have htimely := h.timely thread (List.mem_of_getElem? hthread)
        rw [Thread.Timely, hsteps.pushing hpushing] at htimely
        rw [hsteps.spawned, hsteps.settle]
        exact htimely
    · exact hold he

/-- What time, the flag and `join_all` do. -/
theorem Inv.aside (h : Inv s) (hnow : s.now ≤ t.now) (hthreads : t.threads = s.threads)
    (hheld : t.held = s.held) (hpushed : t.pushed = s.pushed) (hnodup : t.handles.Nodup)
    (hhandles : ∀ i ∈ t.handles, i ∈ s.handles)
    (haccounted : ∀ i thread, s.threads[i]? = some thread → thread.runs = true →
      i ∈ s.handles ∨ i ∈ s.joiner.rest → i ∈ t.handles ∨ i ∈ t.joiner.rest) : Inv t where
  heldNodup := hheld ▸ h.heldNodup
  handlesNodup := hnodup
  disjoint i hi hin := h.disjoint i (hheld ▸ hi) (hhandles i hin)
  known i hi := by
    rw [hthreads]
    rw [hheld] at hi
    exact h.known i (hi.imp_right (hhandles i))
  accounted i thread hthread hruns := by
    rw [hheld]
    rw [hthreads] at hthread
    exact (h.accounted i thread hthread hruns).imp_right (haccounted i thread hthread hruns)
  timely thread hthread := (h.timely thread (hthreads ▸ hthread)).later hnow
  pushedNodup := hpushed ▸ h.pushedNodup
  pushed := by
    rw [hpushed, hthreads]
    exact h.pushed

theorem Inv.step {label : Label} (h : Inv s) (hstep : step s label = some t) : Inv t := by
  cases label with
  | tick duration =>
    cases Option.some.inj hstep
    exact h.aside (Nat.le_add_right _ _) rfl rfl rfl h.handlesNodup (fun _ ↦ id)
      fun _ _ _ _ ↦ id
  | setShutdown =>
    cases Option.some.inj hstep
    exact h.aside (Nat.le_refl _) rfl rfl rfl h.handlesNodup (fun _ ↦ id) fun _ _ _ _ ↦ id
  | spawn settle =>
    cases Option.some.inj hstep
    exact h.spawn settle
  | register i =>
    simp only [Pushes.step] at hstep
    split_ifs at hstep with hi
    cases Option.some.inj hstep
    exact h.register hi
  | thread i =>
    obtain ⟨thread, hthread, hstep⟩ := Option.bind_eq_some_iff.mp hstep
    obtain ⟨thread', hthread', hstep⟩ := Option.bind_eq_some_iff.mp hstep
    cases Option.some.inj hstep
    exact h.move hthread (Thread.steps hthread')
  | drain =>
    cases hjoiner : s.joiner with
    | idle =>
      simp only [Pushes.step, hjoiner] at hstep
      cases Option.some.inj hstep
      refine h.aside (Nat.le_refl _) rfl rfl rfl List.nodup_nil (fun _ hi ↦ by cases hi)
        fun i thread _ _ hi ↦ ?_
      rw [hjoiner] at hi
      rcases hi with hi | hi
      · exact .inr hi
      · cases hi
    | joining rest =>
      simp only [Pushes.step, hjoiner] at hstep
      cases hstep
    | returned =>
      simp only [Pushes.step, hjoiner] at hstep
      cases hstep
  | join =>
    cases hjoiner : s.joiner with
    | idle =>
      simp only [Pushes.step, hjoiner] at hstep
      cases hstep
    | joining rest =>
      cases rest with
      | nil =>
        simp only [Pushes.step, hjoiner] at hstep
        cases Option.some.inj hstep
        refine h.aside (Nat.le_refl _) rfl rfl rfl h.handlesNodup (fun _ ↦ id)
          fun i thread _ _ hi ↦ ?_
        rwa [hjoiner] at hi
      | cons j rest =>
        simp only [Pushes.step, hjoiner] at hstep
        split_ifs at hstep with hruns
        cases Option.some.inj hstep
        refine h.aside (Nat.le_refl _) rfl rfl rfl h.handlesNodup (fun _ ↦ id)
          fun i thread hthread hi hin ↦ ?_
        rw [hjoiner] at hin
        refine hin.imp_right fun hin ↦ ?_
        rcases List.mem_cons.mp hin with rfl | hrest
        · rw [hthread] at hruns
          exact absurd hi hruns
        · exact hrest
    | returned =>
      simp only [Pushes.step, hjoiner] at hstep
      cases hstep

/-! ### Runs -/

/-- Numbers of threads with a property are no more than these threads. -/
theorem length_le_countP {threads : List Thread} {p : Thread → Bool} {numbers : List ℕ}
    (hnodup : numbers.Nodup)
    (h : ∀ i ∈ numbers, ∃ thread, threads[i]? = some thread ∧ p thread = true) :
    numbers.length ≤ threads.countP p := by
  have hsubset : numbers ⊆ (threads.zipIdx.filter fun e ↦ p e.1).map Prod.snd := by
    intro i hi
    obtain ⟨thread, hthread, hp⟩ := h i hi
    exact List.mem_map.mpr ⟨(thread, i),
      List.mem_filter.mpr ⟨List.mk_mem_zipIdx_iff_getElem?.mpr hthread, hp⟩, rfl⟩
  have hcount : threads.countP p = (threads.zipIdx.filter fun e ↦ p e.1).length := by
    rw [← List.countP_eq_length_filter]
    conv_lhs => rw [← List.zipIdx_map_fst 0 threads, List.countP_map]
    rfl
  rw [hcount]
  have hle := (List.subperm_of_subset hnodup hsubset).length_le
  rwa [List.length_map] at hle

/-- The thread is behind its last look at the flag, and has not pushed yet. -/
def State.Ready (s : State) (i : ℕ) : Prop :=
  ∃ thread, s.threads[i]? = some thread ∧ thread.phase = .ready

/-- From one state behind the flag to a later one: those that begin a push have taken their last
look at the flag before, and no others get that far. -/
structure Behind (s t : State) : Prop where
  shutdown : t.shutdown = true
  pushed : ∃ new, t.pushed = s.pushed ++ new ∧ ∀ e ∈ new, s.Ready e.1
  ready : ∀ i, t.Ready i → s.Ready i

theorem Behind.of_threads (hshutdown : t.shutdown = true) (hpushed : t.pushed = s.pushed)
    (hready : ∀ i, t.Ready i → s.Ready i) : Behind s t :=
  ⟨hshutdown, ⟨[], by rw [hpushed, List.append_nil], fun e he ↦ by cases he⟩, hready⟩

theorem Behind.trans {u : State} (h : Behind s t) (h' : Behind t u) : Behind s u where
  shutdown := h'.shutdown
  pushed := by
    obtain ⟨new, hnew, hall⟩ := h.pushed
    obtain ⟨new', hnew', hall'⟩ := h'.pushed
    refine ⟨new ++ new', by rw [hnew', hnew, List.append_assoc], fun e he ↦ ?_⟩
    rcases List.mem_append.mp he with he | he
    · exact hall e he
    · exact h.ready e.1 (hall' e he)
  ready i hi := h.ready i (h'.ready i hi)

/-- A thread that takes a step behind the flag. -/
theorem behind_move {i : ℕ} (hthread : s.threads[i]? = some thread)
    (hsteps : thread.Steps s.now s.shutdown thread') (h : s.shutdown = true) : Behind s { s with
      threads := s.threads.set i thread'
      pushed := if thread'.phase = .pushing then s.pushed ++ [(i, s.now)] else s.pushed } where
  shutdown := h
  pushed := by
    by_cases hpushing : thread'.phase = .pushing
    · refine ⟨[(i, s.now)], if_pos hpushing, fun e he ↦ ?_⟩
      rw [List.mem_singleton.mp he]
      exact ⟨thread, hthread, hsteps.pushing hpushing⟩
    · exact ⟨[], by rw [if_neg hpushing, List.append_nil], fun e he ↦ by cases he⟩
  ready j hj := by
    obtain ⟨other, hother, hphase⟩ := hj
    rw [getElem?_set_thread hthread] at hother
    split_ifs at hother with hji
    · obtain rfl := Option.some.inj hother
      have hflag := hsteps.ready hphase
      rw [h] at hflag
      cases hflag
    · exact ⟨other, hother, hphase⟩

theorem step_behind {label : Label} (hstep : step s label = some t) (h : s.shutdown = true) :
    Behind s t := by
  cases label with
  | tick duration =>
    cases Option.some.inj hstep
    exact .of_threads h rfl fun _ ↦ id
  | spawn settle =>
    cases Option.some.inj hstep
    refine .of_threads h rfl fun i hi ↦ ?_
    obtain ⟨thread, hthread, hphase⟩ := hi
    rw [List.getElem?_append] at hthread
    split_ifs at hthread
    · exact ⟨thread, hthread, hphase⟩
    · obtain rfl := List.mem_singleton.mp (List.mem_of_getElem? hthread)
      cases settle <;> cases hphase
  | setShutdown =>
    cases Option.some.inj hstep
    exact .of_threads rfl rfl fun _ ↦ id
  | register i =>
    simp only [step] at hstep
    split_ifs at hstep
    cases Option.some.inj hstep
    exact .of_threads h rfl fun _ ↦ id
  | thread i =>
    obtain ⟨thread, hthread, hstep⟩ := Option.bind_eq_some_iff.mp hstep
    obtain ⟨thread', hthread', hstep⟩ := Option.bind_eq_some_iff.mp hstep
    cases Option.some.inj hstep
    exact behind_move hthread (Thread.steps hthread') h
  | drain =>
    simp only [step] at hstep
    split at hstep
    · cases Option.some.inj hstep
      exact .of_threads h rfl fun _ ↦ id
    · cases hstep
  | join =>
    simp only [step] at hstep
    split at hstep
    · split_ifs at hstep
      cases Option.some.inj hstep
      exact .of_threads h rfl fun _ ↦ id
    · cases Option.some.inj hstep
      exact .of_threads h rfl fun _ ↦ id
    · cases hstep

theorem behind_exec {labels : List Label} (hrun : exec step s labels = some t)
    (h : s.shutdown = true) : Behind s t := by
  refine exec_relation (fun s t ↦ s.shutdown = true → Behind s t)
    (fun _ h ↦ .of_threads h rfl fun _ ↦ id) (fun {s t u} hst htu h ↦ ?_) step_behind hrun h
  have hfirst := hst h
  exact hfirst.trans (htu hfirst.shutdown)

/-- No handle is in the hands of a spawner or in the tracker. -/
def Drained (s : State) : Prop :=
  s.held = [] ∧ s.handles = []

theorem drained_step {label : Label} (h : Drained s) (hspawn : label.isSpawn = false)
    (hstep : step s label = some t) : Drained t := by
  cases label with
  | tick duration | setShutdown =>
    cases Option.some.inj hstep
    exact h
  | spawn settle => cases hspawn
  | register i =>
    simp only [step] at hstep
    split_ifs at hstep with hi
    rw [h.1] at hi
    cases hi
  | thread i =>
    obtain ⟨thread, -, hstep⟩ := Option.bind_eq_some_iff.mp hstep
    obtain ⟨thread', -, hstep⟩ := Option.bind_eq_some_iff.mp hstep
    cases Option.some.inj hstep
    exact h
  | drain =>
    simp only [step] at hstep
    split at hstep
    · cases Option.some.inj hstep
      exact ⟨h.1, rfl⟩
    · cases hstep
  | join =>
    simp only [step] at hstep
    split at hstep
    · split_ifs at hstep
      cases Option.some.inj hstep
      exact h
    · cases Option.some.inj hstep
      exact h
    · cases hstep

theorem drained_exec {labels : List Label} (h : Drained s)
    (hspawn : ∀ label ∈ labels, label.isSpawn = false) (hrun : exec step s labels = some t) :
    Drained t := by
  induction labels generalizing s with
  | nil =>
    cases Option.some.inj hrun
    exact h
  | cons label labels ih =>
    obtain ⟨u, hfirst, hrest⟩ := exec_cons_eq_some.mp hrun
    exact ih (drained_step h (hspawn label List.mem_cons_self) hfirst)
      (fun other hother ↦ hspawn other (List.mem_cons_of_mem _ hother)) hrest

/-- For every reachable state of the push threads, their spawners and `join_all`: the handle of
every thread that runs is with its spawner, in the tracker or with `join_all`, a registration leaves
at most one handle in the tracker beside those of the threads that run, every thread pushes at most
once and not before it has settled, behind the flag only threads begin a push in any run that had
taken their last look at it before, and when `join_all` has returned, no thread runs, if nobody was
about to register one when it took the handles and none has been spawned since. -/
theorem pushes_joined (h : Reachable step .init s) :
    (∀ i thread, s.threads[i]? = some thread → thread.runs = true →
      i ∈ s.held ∨ i ∈ s.handles ∨ i ∈ s.joiner.rest) ∧
    (∀ i t, step s (.register i) = some t →
      t.handles.length ≤ t.threads.countP Thread.runs + 1) ∧
    (s.pushed.map Prod.fst).Nodup ∧
    (∀ i time, (i, time) ∈ s.pushed → ∃ thread, s.threads[i]? = some thread ∧
      thread.spawned + thread.settle ≤ time) ∧
    (s.shutdown = true → ∀ labels t, exec step s labels = some t →
      ∃ new, t.pushed = s.pushed ++ new ∧ ∀ e ∈ new, ∃ thread,
        s.threads[e.1]? = some thread ∧ thread.phase = .ready) ∧
    (s.held = [] → ∀ labels t, exec step s (.drain :: labels) = some t →
      (∀ label ∈ labels, label.isSpawn = false) → t.joiner = .returned →
      ∀ thread ∈ t.threads, thread.phase = .finished) := by
  have hinv : Inv s := h.invariant inv_init Inv.step
  refine ⟨hinv.accounted, fun i t hstep ↦ ?_, hinv.pushedNodup, fun i time he ↦ ?_,
    fun hshutdown labels t hrun ↦ ?_, fun hheld labels t hrun hspawn hjoiner thread hthread ↦ ?_⟩
  · simp only [step] at hstep
    split_ifs at hstep
    cases Option.some.inj hstep
    have hle : s.retained.length ≤ s.threads.countP Thread.runs :=
      length_le_countP (hinv.handlesNodup.filter _) fun i hi ↦ (mem_retained.mp hi).2
    show (s.retained ++ [i]).length ≤ _
    rw [List.length_append]
    exact Nat.add_le_add_right hle 1
  · obtain ⟨thread, hthread, htime, -⟩ := hinv.pushed (i, time) he
    exact ⟨thread, hthread, htime⟩
  · exact (behind_exec hrun hshutdown).pushed
  · obtain ⟨u, hdrain, hrest⟩ := exec_cons_eq_some.mp hrun
    have hdrained : Drained u := by
      simp only [step] at hdrain
      split at hdrain
      · cases Option.some.inj hdrain
        exact ⟨hheld, rfl⟩
      · cases hdrain
    obtain ⟨hheld', hhandles⟩ := drained_exec hdrained hspawn hrest
    have hend : Inv t := (h.trans ⟨_, hrun⟩).invariant inv_init Inv.step
    obtain ⟨i, hi⟩ := List.mem_iff_getElem?.mp hthread
    by_contra hruns
    have hrest := hend.accounted i thread hi (by simpa [Thread.runs] using hruns)
    rw [hheld', hhandles, hjoiner] at hrest
    rcases hrest with h | h | h <;> cases h

/-- A push that is about to begin and a diagnosis that has not settled, when the flag is set. -/
def twoPushes : State where
  now := 0
  shutdown := true
  threads := [⟨0, 0, .ready⟩, ⟨0, 500, .starting⟩]
  held := []
  handles := [0, 1]
  joiner := .idle
  pushed := []

/-- The push comes and ends, the diagnosis sees the flag, and `join_all` takes both handles. -/
def drainedPushes : List Label :=
  [.thread 0, .thread 0, .thread 1, .thread 1, .join, .join, .join]

def bothFinished : State where
  now := 0
  shutdown := true
  threads := [⟨0, 0, .finished⟩, ⟨0, 500, .finished⟩]
  held := []
  handles := []
  joiner := .returned
  pushed := [(0, 0)]

theorem pushes_joined_twoPushes :
    exec step twoPushes (.drain :: drainedPushes) = some bothFinished ∧
      (∀ thread ∈ bothFinished.threads, thread.phase = .finished) ∧
      ∃ new, bothFinished.pushed = twoPushes.pushed ++ new ∧ ∀ e ∈ new, ∃ thread,
        twoPushes.threads[e.1]? = some thread ∧ thread.phase = .ready := by
  have hreach : Reachable step .init twoPushes :=
    ⟨[.spawn none, .register 0, .spawn (some 500), .thread 0, .register 1, .setShutdown],
      by decide⟩
  have hrun : exec step twoPushes (.drain :: drainedPushes) = some bothFinished := by decide
  obtain ⟨-, -, -, -, hquiet, hjoined⟩ := pushes_joined hreach
  exact ⟨hrun, hjoined rfl drainedPushes bothFinished hrun (by decide) rfl, hquiet rfl _ _ hrun⟩

end DoorAccess.Daemon.Pushes
