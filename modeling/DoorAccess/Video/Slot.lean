import DoorAccess.Video.Effect

/-!
# The slot and the teardown of its sessions

Four methods take the session out of `current`, by different keys, and run the teardown outside the
lock. This module follows the slot through all interleavings: a session goes in at most once, comes
out at most once, and the call that took it out is the only one to tear it down. `SlotInv` says so
and is carried over one effect at a time.
-/

set_option autoImplicit false
set_option relaxedAutoImplicit false

namespace DoorAccess.Video.Manager

open Transition

/-! ### The invariant of the slot -/

/-- Where a session stands: not yet in the slot, in it, taken out and being torn down, or torn down.
In the last two cases one call has taken it out, and all actions so far are its. -/
inductive SlotStatus (s : State) (p : ℕ) : Prop
  | outside (hcurrent : s.current ≠ some p) (hcommitted : ¬ Committed p s.trace)
      (hremovers : removers p s.trace = []) (htorn : tornBy p s.trace = [])
  | current (hcurrent : s.current = some p) (hcommitted : Committed p s.trace)
      (hremovers : removers p s.trace = []) (htorn : tornBy p s.trace = [])
  | tearing (c : ℕ) (reason : Reason) (deadline : ℕ) (phase : TeardownPhase) (sent : Bool)
      (hcurrent : s.current ≠ some p) (hcommitted : Committed p s.trace)
      (hremovers : removers p s.trace = [c])
      (hphase : (s.calls c).phase = .tearing p reason deadline phase)
      (htorn : tornBy p s.trace = (phase.before sent).map (Prod.mk c))
  | torn (c : ℕ) (sent : Bool) (hcurrent : s.current ≠ some p) (hcommitted : Committed p s.trace)
      (hremovers : removers p s.trace = [c])
      (hphase : ∀ reason deadline phase, (s.calls c).phase ≠ .tearing p reason deadline phase)
      (htorn : tornBy p s.trace = (wholeTeardown sent).map (Prod.mk c))

structure SlotInv (s : State) : Prop where
  /-- Exactly the `start`s past their checks hold the lock. -/
  holder : ∀ c, s.holder = some c ↔ ∃ outdoor phase, (s.calls c).phase = .starting outdoor phase
  free : s.holder ≠ none → s.current = none
  spawned : ∀ c outdoor p, (s.calls c).phase = .starting outdoor (.spawned p) →
    (∃ sess, s.sessions p = some sess ∧ sess.outdoor = outdoor) ∧ ¬ Committed p s.trace
  created : ∀ p, Committed p s.trace → ∃ sess, s.sessions p = some sess
  status : ∀ p, SlotStatus s p
  tearing : ∀ c p reason deadline phase, (s.calls c).phase = .tearing p reason deadline phase →
    removers p s.trace = [c]
  keys : ∀ c op p, .removed c op p ∈ s.trace → ∃ sess, s.sessions p = some sess ∧ op.Takes p sess

section SlotInv

variable {cfg : Config} {s t : State} {p : ℕ}

theorem slotInv_init : SlotInv .init := by
  have hnotCommitted : ∀ p, ¬ Committed p State.init.trace := by
    rintro p ⟨c, hc⟩
    exact absurd hc List.not_mem_nil
  constructor
  · intro c
    constructor
    · intro h
      exact absurd h (by simp [State.init])
    · rintro ⟨outdoor, phase, h⟩
      exact absurd h (by simp [State.init])
  · intro h
    exact absurd rfl h
  · intro c outdoor p h
    exact absurd h (by simp [State.init])
  · intro p h
    exact absurd h (hnotCommitted p)
  · intro p
    exact .outside (by simp [State.init]) (hnotCommitted p) rfl rfl
  · intro c p reason deadline phase h
    exact absurd h (by simp [State.init])
  · intro c op p h
    exact absurd h List.not_mem_nil

theorem SlotInv.filled (h : SlotInv s) : SlotFilled s := by
  intro p hcurrent
  cases h.status p with
  | current _ hcommitted => exact h.created p hcommitted
  | outside hnot => exact absurd hcurrent hnot
  | tearing _ _ _ _ _ hnot => exact absurd hcurrent hnot
  | torn _ _ hnot => exact absurd hcurrent hnot

/-- The status of a session that a step does not concern. -/
theorem SlotStatus.transfer (h : SlotStatus s p)
    (hcurrent : t.current = some p ↔ s.current = some p)
    (hcommitted : Committed p t.trace ↔ Committed p s.trace)
    (hremovers : removers p t.trace = removers p s.trace)
    (htorn : tornBy p t.trace = tornBy p s.trace)
    (hphase : ∀ c reason deadline phase, (t.calls c).phase = .tearing p reason deadline phase ↔
      (s.calls c).phase = .tearing p reason deadline phase) : SlotStatus t p := by
  cases h with
  | outside hnot hnotCommitted hnone hnil =>
    exact .outside (mt hcurrent.mp hnot) (mt hcommitted.mp hnotCommitted) (hremovers.trans hnone)
      (htorn.trans hnil)
  | current hin hcommitted' hnone hnil =>
    exact .current (hcurrent.mpr hin) (hcommitted.mpr hcommitted') (hremovers.trans hnone)
      (htorn.trans hnil)
  | tearing c reason deadline phase sent hnot hcommitted' hone hphase' hbefore =>
    exact .tearing c reason deadline phase sent (mt hcurrent.mp hnot) (hcommitted.mpr hcommitted')
      (hremovers.trans hone) ((hphase c reason deadline phase).mpr hphase') (htorn.trans hbefore)
  | torn c sent hnot hcommitted' hone hphase' hwhole =>
    refine .torn c sent (mt hcurrent.mp hnot) (hcommitted.mpr hcommitted') (hremovers.trans hone) ?_
      (htorn.trans hwhole)
    intro reason deadline phase
    exact mt (hphase c reason deadline phase).mp (hphase' reason deadline phase)

/-- Without an action of its own a session keeps its place in the trace. -/
theorem trace_eq_of_quiet {evs : List Event} (htrace : t.trace = s.trace ++ evs)
    (hremovers : removers p evs = []) (htorn : tornBy p evs = []) (hcommitted : ¬ Committed p evs) :
    (Committed p t.trace ↔ Committed p s.trace) ∧ removers p t.trace = removers p s.trace ∧
      tornBy p t.trace = tornBy p s.trace := by
  rw [htrace, committed_append, removers_append, tornBy_append, hremovers, htorn, List.append_nil,
    List.append_nil]
  exact ⟨or_iff_left hcommitted, rfl, rfl⟩

/-- A step that leaves the slot alone moves no call into or out of a `start` or a teardown. -/
theorem CallMove.phase_iff {evs : List Event} {c : ℕ} (h : CallMove s t evs c) {phase : Phase}
    (hbusy : phase.Busy) : (t.calls c).phase = phase ↔ (s.calls c).phase = phase := by
  cases h with
  | same hphase => rw [hphase]
  | pass hs ht =>
    constructor
    · rintro rfl
      exact absurd hbusy ht.not_busy
    · rintro rfl
      exact absurd hbusy hs.not_busy
  | answer reply hs ht =>
    constructor
    · rintro rfl
      rw [ht] at hbusy
      exact hbusy.elim
    · rintro rfl
      exact absurd hbusy hs.not_busy

/-- A call in `start` was there before the step, or it has only just claimed the slot. -/
theorem Effect.starting_cases (h : Effect s t) {k : ℕ} {outdoor : Outdoor} {phase : StartPhase}
    (hk : (t.calls k).phase = .starting outdoor phase) :
    (∃ outdoor' phase', (s.calls k).phase = .starting outdoor' phase') ∨ phase = .binding := by
  by_cases hmoved : (t.calls k).phase = (s.calls k).phase
  · exact Or.inl ⟨outdoor, phase, hmoved.symm.trans hk⟩
  cases h with
  | quiet evs _ _ _ _ _ hcalls =>
    exact Or.inl ⟨outdoor, phase, ((hcalls k).phase_iff (Phase.busy_starting outdoor phase)).mp hk⟩
  | claimed c outdoor' _ _ _ _ _ _ hphase hothers =>
    obtain rfl : k = c := by_contra fun hkc ↦ hmoved (hothers k hkc)
    exact Or.inr (Phase.starting.inj (hk.symm.trans hphase)).2
  | advanced c outdoor' phase' _ _ _ _ _ hphase _ _ hothers =>
    obtain rfl : k = c := by_contra fun hkc ↦ hmoved (hothers k hkc)
    exact Or.inl ⟨outdoor', phase', hphase⟩
  | failed c outdoor' phase' _ _ _ _ _ hphase _ _ hothers =>
    obtain rfl : k = c := by_contra fun hkc ↦ hmoved (hothers k hkc)
    exact Or.inl ⟨outdoor', phase', hphase⟩
  | committed c outdoor' p _ _ _ _ hphase _ hothers =>
    obtain rfl : k = c := by_contra fun hkc ↦ hmoved (hothers k hkc)
    exact Or.inl ⟨outdoor', .spawned p, hphase⟩
  | removed c _ _ _ _ _ _ _ _ _ _ _ _ hphase hothers =>
    obtain rfl : k = c := by_contra fun hkc ↦ hmoved (hothers k hkc)
    exact absurd (hphase.symm.trans hk) (by simp)
  | tore c _ _ _ _ _ _ _ _ _ _ hphase _ hothers =>
    obtain rfl : k = c := by_contra fun hkc ↦ hmoved (hothers k hkc)
    exact absurd (hphase.symm.trans hk) (by simp)
  | closed c _ _ _ _ _ _ _ _ hphase hothers =>
    obtain rfl : k = c := by_contra fun hkc ↦ hmoved (hothers k hkc)
    rcases hphase with ⟨hplain, -⟩ | ⟨hreturned, -⟩
    · rw [hk] at hplain
      exact hplain.elim
    · exact absurd (hreturned.symm.trans hk) (by simp)

/-- A step that changes nothing about the slot, the teardowns and their trace. -/
theorem SlotInv.calm (h : SlotInv s) {evs : List Event} (hcurrent : t.current = s.current)
    (hsessions : SameSessions s t) (htrace : t.trace = s.trace ++ evs)
    (hevs : ∀ e ∈ evs, e.Quiet)
    (htearing : ∀ c p reason deadline phase,
      (t.calls c).phase = .tearing p reason deadline phase ↔
        (s.calls c).phase = .tearing p reason deadline phase)
    (hholder : ∀ c, t.holder = some c ↔
      ∃ outdoor phase, (t.calls c).phase = .starting outdoor phase)
    (hfree : t.holder ≠ none → t.current = none)
    (hspawned : ∀ c outdoor p, (t.calls c).phase = .starting outdoor (.spawned p) →
      (∃ sess, t.sessions p = some sess ∧ sess.outdoor = outdoor) ∧ ¬ Committed p s.trace) :
    SlotInv t := by
  have hsame : ∀ p, (Committed p t.trace ↔ Committed p s.trace) ∧
      removers p t.trace = removers p s.trace ∧ tornBy p t.trace = tornBy p s.trace := by
    intro p
    obtain ⟨hremovers, htorn, hcommitted⟩ := quiet_trace (p := p) hevs
    exact trace_eq_of_quiet htrace hremovers htorn hcommitted
  refine ⟨hholder, hfree, ?_, ?_, ?_, ?_, ?_⟩
  · intro c outdoor p hphase
    obtain ⟨hsess, hnot⟩ := hspawned c outdoor p hphase
    exact ⟨hsess, mt (hsame p).1.mp hnot⟩
  · intro p hcommitted
    obtain ⟨sess, hsess⟩ := h.created p ((hsame p).1.mp hcommitted)
    obtain ⟨sess', hsess', -⟩ := hsessions p sess hsess
    exact ⟨sess', hsess'⟩
  · intro p
    obtain ⟨hcommitted, hremovers, htorn⟩ := hsame p
    exact (h.status p).transfer (by rw [hcurrent]) hcommitted hremovers htorn
      fun c reason deadline phase ↦ htearing c p reason deadline phase
  · intro c p reason deadline phase hphase
    rw [(hsame p).2.1]
    exact h.tearing c p reason deadline phase ((htearing c p reason deadline phase).mp hphase)
  · intro c op p hremoved
    have hold : .removed c op p ∈ s.trace := by
      rw [htrace] at hremoved
      rcases List.mem_append.mp hremoved with hremoved | hremoved
      · exact hremoved
      · exact (hevs _ hremoved).elim
    obtain ⟨sess, hsess, htakes⟩ := h.keys c op p hold
    obtain ⟨sess', hsess', hid, houtdoor⟩ := hsessions p sess hsess
    exact ⟨sess', hsess', htakes.of_same hid houtdoor⟩

/-- A `start` that holds the lock is the only one past its checks. -/
theorem SlotInv.starting_unique (h : SlotInv s) {c k : ℕ} {outdoor outdoor' : Outdoor}
    {phase phase' : StartPhase} (hc : (s.calls c).phase = .starting outdoor phase)
    (hk : (s.calls k).phase = .starting outdoor' phase') : k = c := by
  have hholder := (h.holder c).mpr ⟨outdoor, phase, hc⟩
  rw [(h.holder k).mpr ⟨outdoor', phase', hk⟩] at hholder
  exact Option.some.inj hholder

/-- Moving one call from a phase to another leaves every third phase alone. -/
theorem phase_iff_of_others {c : ℕ} (hothers : ∀ k, k ≠ c → (t.calls k).phase = (s.calls k).phase)
    {phase : Phase} (hs : (s.calls c).phase ≠ phase) (ht : (t.calls c).phase ≠ phase) (k : ℕ) :
    (t.calls k).phase = phase ↔ (s.calls k).phase = phase := by
  by_cases hk : k = c
  · rw [hk]
    exact iff_of_false ht hs
  · rw [hothers k hk]

theorem SlotInv.of_quiet (h : SlotInv s) {evs : List Event} (hcurrent : t.current = s.current)
    (hholder : t.holder = s.holder) (hsessions : SameSessions s t)
    (htrace : t.trace = s.trace ++ evs) (hevs : ∀ e ∈ evs, e.Quiet)
    (hcalls : ∀ c, CallMove s t evs c) : SlotInv t := by
  refine h.calm hcurrent hsessions htrace hevs ?_ ?_ ?_ ?_
  · exact fun c p reason deadline phase ↦ (hcalls c).phase_iff trivial
  · intro c
    rw [hholder, h.holder c]
    constructor
    · rintro ⟨outdoor, phase, hphase⟩
      exact ⟨outdoor, phase, ((hcalls c).phase_iff (Phase.busy_starting outdoor phase)).mpr hphase⟩
    · rintro ⟨outdoor, phase, hphase⟩
      exact ⟨outdoor, phase, ((hcalls c).phase_iff (Phase.busy_starting outdoor phase)).mp hphase⟩
  · rw [hholder, hcurrent]
    exact h.free
  · intro c outdoor p hphase
    have hold := ((hcalls c).phase_iff (Phase.busy_starting outdoor (.spawned p))).mp hphase
    obtain ⟨⟨sess, hsess, houtdoor⟩, hnot⟩ := h.spawned c outdoor p hold
    obtain ⟨sess', hsess', -, houtdoor'⟩ := hsessions p sess hsess
    exact ⟨⟨sess', hsess', houtdoor'.trans houtdoor⟩, hnot⟩

theorem SlotInv.of_claimed (h : SlotInv s) {c : ℕ} {outdoor : Outdoor} (hcurrent : s.current = none)
    (hcurrent' : t.current = none) (hholder : s.holder = none) (hholder' : t.holder = some c)
    (hsessions : t.sessions = s.sessions) (hplain : (s.calls c).phase.Plain)
    (hphase : (t.calls c).phase = .starting outdoor .binding)
    (hothers : ∀ k, k ≠ c → (t.calls k).phase = (s.calls k).phase)
    (htrace : t.trace = s.trace ++ [.entered c (.start outdoor) none]) : SlotInv t := by
  have hnone : ∀ k outdoor phase, (s.calls k).phase ≠ .starting outdoor phase := by
    intro k outdoor phase hstarting
    rw [(h.holder k).mpr ⟨outdoor, phase, hstarting⟩] at hholder
    exact absurd hholder (by simp)
  refine h.calm (hcurrent'.trans hcurrent.symm) (sameSessions_of_eq hsessions) htrace ?_ ?_ ?_ ?_ ?_
  · intro e he
    rw [List.mem_singleton.mp he]
    trivial
  · intro k p reason deadline phase
    refine phase_iff_of_others hothers ?_ ?_ k
    · intro htearing
      rw [htearing] at hplain
      exact hplain.elim
    · rw [hphase]
      simp
  · intro k
    rw [hholder']
    constructor
    · rintro ⟨rfl⟩
      exact ⟨outdoor, .binding, hphase⟩
    · rintro ⟨outdoor', phase', hstarting⟩
      by_cases hk : k = c
      · rw [hk]
      · rw [hothers k hk] at hstarting
        exact absurd hstarting (hnone k outdoor' phase')
  · exact fun _ ↦ hcurrent'
  · intro k outdoor' p hstarting
    by_cases hk : k = c
    · rw [hk, hphase] at hstarting
      cases hstarting
    · rw [hothers k hk] at hstarting
      exact absurd hstarting (hnone k outdoor' (.spawned p))

theorem SlotInv.of_advanced (h : SlotInv s) {c : ℕ} {outdoor : Outdoor} {phase phase' : StartPhase}
    {evs : List Event} (hcurrent : t.current = s.current) (hholder : t.holder = s.holder)
    (hsessions : SameSessions s t) (hphase : (s.calls c).phase = .starting outdoor phase)
    (hphase' : (t.calls c).phase = .starting outdoor phase')
    (hfresh : ∀ p, phase' = .spawned p →
      s.sessions p = none ∧ ∃ sess, t.sessions p = some sess ∧ sess.outdoor = outdoor)
    (hothers : ∀ k, k ≠ c → (t.calls k).phase = (s.calls k).phase)
    (htrace : t.trace = s.trace ++ evs) (hevs : ∀ e ∈ evs, e.Quiet ∧ ∀ k, ¬ e.About k) :
    SlotInv t := by
  refine h.calm hcurrent hsessions htrace (fun e he ↦ (hevs e he).1) ?_ ?_ ?_ ?_
  · intro k p reason deadline phase
    refine phase_iff_of_others hothers ?_ ?_ k
    · rw [hphase]
      simp
    · rw [hphase']
      simp
  · intro k
    rw [hholder, h.holder k]
    by_cases hk : k = c
    · rw [hk, hphase, hphase']
      exact iff_of_true ⟨_, _, rfl⟩ ⟨_, _, rfl⟩
    · rw [hothers k hk]
  · rw [hholder, hcurrent]
    exact h.free
  · intro k outdoor' p hstarting
    by_cases hk : k = c
    · rw [hk, hphase', Phase.starting.injEq] at hstarting
      obtain ⟨rfl, hspawned⟩ := hstarting
      obtain ⟨hnone, hsess⟩ := hfresh p hspawned
      refine ⟨hsess, fun hcommitted ↦ ?_⟩
      obtain ⟨sess, hsome⟩ := h.created p hcommitted
      rw [hnone] at hsome
      exact absurd hsome (by simp)
    · rw [hothers k hk] at hstarting
      exact absurd (h.starting_unique hphase hstarting) hk

/-- A `start` that lets go of the lock leaves no other behind. -/
theorem SlotInv.holder_of_done (h : SlotInv s) {c : ℕ} {outdoor : Outdoor} {phase : StartPhase}
    (hphase : (s.calls c).phase = .starting outdoor phase) {reply : Reply}
    (hphase' : (t.calls c).phase = .returned reply)
    (hothers : ∀ k, k ≠ c → (t.calls k).phase = (s.calls k).phase) (k : ℕ) (outdoor' : Outdoor)
    (phase' : StartPhase) : (t.calls k).phase ≠ .starting outdoor' phase' := by
  intro hstarting
  by_cases hk : k = c
  · rw [hk, hphase'] at hstarting
    cases hstarting
  · rw [hothers k hk] at hstarting
    exact hk (h.starting_unique hphase hstarting)

theorem SlotInv.of_failed (h : SlotInv s) {c : ℕ} {outdoor : Outdoor} {phase : StartPhase}
    {reply : Reply} {evs : List Event} (hcurrent : t.current = s.current)
    (hholder : t.holder = none)
    (hsessions : t.sessions = s.sessions) (hphase : (s.calls c).phase = .starting outdoor phase)
    (hphase' : (t.calls c).phase = .returned reply)
    (hothers : ∀ k, k ≠ c → (t.calls k).phase = (s.calls k).phase)
    (htrace : t.trace = s.trace ++ evs) (hevs : ∀ e ∈ evs, e.Quiet) : SlotInv t := by
  have hnone := h.holder_of_done hphase hphase' hothers
  refine h.calm hcurrent (sameSessions_of_eq hsessions) htrace hevs ?_ ?_ ?_ ?_
  · intro k p reason deadline phase
    refine phase_iff_of_others hothers ?_ ?_ k
    · rw [hphase]
      simp
    · rw [hphase']
      simp
  · intro k
    rw [hholder]
    apply iff_of_false (by simp)
    rintro ⟨outdoor', phase', hstarting⟩
    exact hnone k outdoor' phase' hstarting
  · intro hnot
    exact absurd hholder hnot
  · intro k outdoor' p hstarting
    exact absurd hstarting (hnone k outdoor' (.spawned p))

theorem SlotInv.of_committed (h : SlotInv s) {c p : ℕ} {outdoor : Outdoor} {reply : Reply}
    (hcurrent : t.current = some p) (hholder : t.holder = none)
    (hsessions : t.sessions = s.sessions)
    (hphase : (s.calls c).phase = .starting outdoor (.spawned p))
    (hphase' : (t.calls c).phase = .returned reply)
    (hothers : ∀ k, k ≠ c → (t.calls k).phase = (s.calls k).phase)
    (htrace : t.trace = s.trace ++ [.committed c p, .returned c reply]) : SlotInv t := by
  have hempty : s.current = none := by
    apply h.free
    rw [(h.holder c).mpr ⟨outdoor, _, hphase⟩]
    simp
  have hnone := h.holder_of_done hphase hphase' hothers
  obtain ⟨⟨sess, hsess, -⟩, hfresh⟩ := h.spawned c outdoor p hphase
  have hremovers : ∀ q, removers q t.trace = removers q s.trace := by
    intro q
    rw [htrace, removers_append]
    exact List.append_nil _
  have htorn : ∀ q, tornBy q t.trace = tornBy q s.trace := by
    intro q
    rw [htrace, tornBy_append]
    exact List.append_nil _
  have hcommitted : ∀ q, Committed q t.trace ↔ Committed q s.trace ∨ q = p := by
    intro q
    rw [htrace, committed_append]
    simp [Committed]
  have htearing : ∀ k q reason deadline phase,
      (t.calls k).phase = .tearing q reason deadline phase ↔
        (s.calls k).phase = .tearing q reason deadline phase := by
    intro k q reason deadline phase
    refine phase_iff_of_others hothers ?_ ?_ k
    · rw [hphase]
      simp
    · rw [hphase']
      simp
  refine ⟨?_, ?_, ?_, ?_, ?_, ?_, ?_⟩
  · intro k
    rw [hholder]
    apply iff_of_false (by simp)
    rintro ⟨outdoor', phase', hstarting⟩
    exact hnone k outdoor' phase' hstarting
  · intro hnot
    exact absurd hholder hnot
  · intro k outdoor' q hstarting
    exact absurd hstarting (hnone k outdoor' (.spawned q))
  · intro q hq
    rw [hsessions]
    rcases (hcommitted q).mp hq with hq | rfl
    · exact h.created q hq
    · exact ⟨sess, hsess⟩
  · intro q
    by_cases hq : q = p
    · rw [hq]
      cases h.status p with
      | outside _ _ hnil hnil' =>
        exact .current hcurrent ((hcommitted p).mpr (Or.inr rfl)) ((hremovers p).trans hnil)
          ((htorn p).trans hnil')
      | current _ hdone => exact absurd hdone hfresh
      | tearing _ _ _ _ _ _ hdone => exact absurd hdone hfresh
      | torn _ _ _ hdone => exact absurd hdone hfresh
    · refine (h.status q).transfer ?_ ?_ (hremovers q) (htorn q) (htearing · q)
      · rw [hcurrent, hempty]
        simp [Ne.symm hq]
      · rw [hcommitted q]
        exact or_iff_left hq
  · intro k q reason deadline phase hphase
    rw [hremovers q]
    exact h.tearing k q reason deadline phase ((htearing k q reason deadline phase).mp hphase)
  · intro k op q hremoved
    rw [hsessions]
    apply h.keys k op q
    rw [htrace] at hremoved
    simpa using hremoved

theorem SlotInv.of_removed (h : SlotInv s) {c p : ℕ} {op : Op} {sess : Session} {reason : Reason}
    {deadline : ℕ} (hcurrent : s.current = some p) (hsession : s.sessions p = some sess)
    (htakes : op.Takes p sess) (hcurrent' : t.current = none) (hholder : t.holder = s.holder)
    (hsessions : t.sessions = s.sessions) (hplain : (s.calls c).phase.Plain)
    (hphase : (t.calls c).phase = .tearing p reason deadline .stopPreview)
    (hothers : ∀ k, k ≠ c → (t.calls k).phase = (s.calls k).phase)
    (htrace : t.trace = s.trace ++ [.entered c op (some p), .removed c op p]) : SlotInv t := by
  have hstarting : ∀ k outdoor phase, (t.calls k).phase = .starting outdoor phase ↔
      (s.calls k).phase = .starting outdoor phase := by
    intro k outdoor phase
    refine phase_iff_of_others hothers ?_ ?_ k
    · intro hstart
      rw [hstart] at hplain
      exact hplain.elim
    · rw [hphase]
      simp
  have hremovers : ∀ q, removers q t.trace = removers q s.trace ++ if p = q then [c] else [] := by
    intro q
    rw [htrace, removers_append]
    by_cases hq : p = q
    · simp [removers, hq]
    · simp [removers, hq]
  have htorn : ∀ q, tornBy q t.trace = tornBy q s.trace := by
    intro q
    rw [htrace, tornBy_append]
    exact List.append_nil _
  have hcommitted : ∀ q, Committed q t.trace ↔ Committed q s.trace := by
    intro q
    rw [htrace, committed_append]
    simp [Committed]
  obtain ⟨hdone, hnil, hnil'⟩ : Committed p s.trace ∧ removers p s.trace = [] ∧
      tornBy p s.trace = [] := by
    cases h.status p with
    | current _ hdone hnil hnil' => exact ⟨hdone, hnil, hnil'⟩
    | outside hnot => exact absurd hcurrent hnot
    | tearing _ _ _ _ _ hnot => exact absurd hcurrent hnot
    | torn _ _ hnot => exact absurd hcurrent hnot
  refine ⟨?_, ?_, ?_, ?_, ?_, ?_, ?_⟩
  · intro k
    rw [hholder, h.holder k]
    simp only [hstarting]
  · exact fun _ ↦ hcurrent'
  · intro k outdoor q hspawned
    rw [hcommitted, hsessions]
    exact h.spawned k outdoor q ((hstarting k outdoor (.spawned q)).mp hspawned)
  · intro q hq
    rw [hsessions]
    exact h.created q ((hcommitted q).mp hq)
  · intro q
    by_cases hq : q = p
    · rw [hq]
      refine .tearing c reason deadline .stopPreview false (by simp [hcurrent'])
        ((hcommitted p).mpr hdone) ?_ hphase ((htorn p).trans hnil')
      rw [hremovers p, hnil, if_pos rfl]
      rfl
    · have hremovers' : removers q t.trace = removers q s.trace := by
        rw [hremovers q, if_neg (Ne.symm hq), List.append_nil]
      refine (h.status q).transfer ?_ (hcommitted q) hremovers' (htorn q) ?_
      · rw [hcurrent', hcurrent]
        simp [Ne.symm hq]
      · intro k reason' deadline' phase'
        refine phase_iff_of_others hothers ?_ ?_ k
        · intro htear
          rw [htear] at hplain
          exact hplain.elim
        · rw [hphase]
          simp [Ne.symm hq]
  · intro k q reason' deadline' phase' htear
    by_cases hk : k = c
    · rw [hk, hphase] at htear
      obtain ⟨rfl, -⟩ := Phase.tearing.inj htear
      rw [hremovers p, hnil, if_pos rfl, hk]
      rfl
    · rw [hothers k hk] at htear
      have hone := h.tearing k q reason' deadline' phase' htear
      have hq : p ≠ q := by
        rintro rfl
        rw [hnil] at hone
        exact absurd hone (by simp)
      rw [hremovers q, if_neg hq, List.append_nil]
      exact hone
  · intro k op' q hremoved
    rw [hsessions]
    rw [htrace] at hremoved
    rcases List.mem_append.mp hremoved with hremoved | hremoved
    · exact h.keys k op' q hremoved
    · simp only [List.mem_cons, reduceCtorEq, List.not_mem_nil, or_false, false_or,
        Event.removed.injEq] at hremoved
      obtain ⟨-, rfl, rfl⟩ := hremoved
      exact ⟨sess, hsession, htakes⟩

/-- An action of the teardown of `p`, once its own status is known. -/
theorem SlotInv.of_action (h : SlotInv s) {c p : ℕ} {reason : Reason} {deadline : ℕ}
    {phase : TeardownPhase} {evs : List Event} (hcurrent : t.current = s.current)
    (hholder : t.holder = s.holder) (hsessions : SameSessions s t)
    (hphase : (s.calls c).phase = .tearing p reason deadline phase)
    (hstarting : ∀ outdoor phase, (t.calls c).phase ≠ .starting outdoor phase)
    (htearing : ∀ q reason deadline phase, q ≠ p →
      (t.calls c).phase ≠ .tearing q reason deadline phase)
    (hothers : ∀ k, k ≠ c → (t.calls k).phase = (s.calls k).phase)
    (htrace : t.trace = s.trace ++ evs)
    (hevs : ∀ e ∈ evs, e.Quiet ∨ ∃ st, e = .tore c p st) (hstatus : SlotStatus t p) :
    SlotInv t := by
  have hnoRemoval : ∀ k op q, .removed k op q ∉ evs := by
    intro k op q hremoved
    rcases hevs _ hremoved with hquiet | ⟨st, heq⟩
    · exact hquiet
    · cases heq
  have hremovers : ∀ q, removers q t.trace = removers q s.trace := by
    intro q
    have hnil : removers q evs = [] := by
      refine List.eq_nil_iff_forall_not_mem.mpr fun k hk ↦ ?_
      obtain ⟨op, hremoved⟩ := mem_removers.mp hk
      exact hnoRemoval k op q hremoved
    rw [htrace, removers_append, hnil, List.append_nil]
  have hcommitted : ∀ q, Committed q t.trace ↔ Committed q s.trace := by
    intro q
    rw [htrace, committed_append]
    apply or_iff_left
    rintro ⟨k, hk⟩
    rcases hevs _ hk with hquiet | ⟨st, heq⟩
    · exact hquiet
    · cases heq
  have htorn : ∀ q, q ≠ p → tornBy q t.trace = tornBy q s.trace := by
    intro q hq
    have hnil : tornBy q evs = [] := by
      refine List.eq_nil_iff_forall_not_mem.mpr fun x hx ↦ ?_
      rcases hevs _ (mem_tornBy.mp hx) with hquiet | ⟨st, heq⟩
      · exact hquiet
      · cases heq
        exact hq rfl
    rw [htrace, tornBy_append, hnil, List.append_nil]
  have hstarting' : ∀ k outdoor phase, (t.calls k).phase = .starting outdoor phase ↔
      (s.calls k).phase = .starting outdoor phase := by
    intro k outdoor phase
    refine phase_iff_of_others hothers ?_ (hstarting outdoor phase) k
    rw [hphase]
    simp
  refine ⟨?_, ?_, ?_, ?_, ?_, ?_, ?_⟩
  · intro k
    rw [hholder, h.holder k]
    simp only [hstarting']
  · rw [hholder, hcurrent]
    exact h.free
  · intro k outdoor q hspawned
    obtain ⟨⟨sess, hsess, houtdoor⟩, hnot⟩ :=
      h.spawned k outdoor q ((hstarting' k outdoor (.spawned q)).mp hspawned)
    obtain ⟨sess', hsess', -, houtdoor'⟩ := hsessions q sess hsess
    exact ⟨⟨sess', hsess', houtdoor'.trans houtdoor⟩, mt (hcommitted q).mp hnot⟩
  · intro q hq
    obtain ⟨sess, hsess⟩ := h.created q ((hcommitted q).mp hq)
    obtain ⟨sess', hsess', -⟩ := hsessions q sess hsess
    exact ⟨sess', hsess'⟩
  · intro q
    by_cases hq : q = p
    · rw [hq]
      exact hstatus
    · apply (h.status q).transfer (by rw [hcurrent]) (hcommitted q) (hremovers q) (htorn q hq)
      intro k reason' deadline' phase'
      refine phase_iff_of_others hothers ?_ (htearing q reason' deadline' phase' hq) k
      rw [hphase]
      simp [Ne.symm hq]
  · intro k q reason' deadline' phase' htear
    rw [hremovers q]
    by_cases hk : k = c
    · have hq : q = p := by
        by_contra hq
        rw [hk] at htear
        exact htearing q reason' deadline' phase' hq htear
      rw [hk, hq]
      exact h.tearing c p reason deadline phase hphase
    · rw [hothers k hk] at htear
      exact h.tearing k q reason' deadline' phase' htear
  · intro k op q hremoved
    have hold : .removed k op q ∈ s.trace := by
      rw [htrace] at hremoved
      exact (List.mem_append.mp hremoved).resolve_right (hnoRemoval k op q)
    obtain ⟨sess, hsess, htakes⟩ := h.keys k op q hold
    obtain ⟨sess', hsess', hid, houtdoor⟩ := hsessions q sess hsess
    exact ⟨sess', hsess', htakes.of_same hid houtdoor⟩

/-- The status of a session whose teardown a call is in. -/
theorem SlotInv.status_of_tearing (h : SlotInv s) {c p : ℕ} {reason : Reason} {deadline : ℕ}
    {phase : TeardownPhase} (hphase : (s.calls c).phase = .tearing p reason deadline phase) :
    s.current ≠ some p ∧ Committed p s.trace ∧ removers p s.trace = [c] ∧
      ∃ sent, tornBy p s.trace = (phase.before sent).map (Prod.mk c) := by
  have hone := h.tearing c p reason deadline phase hphase
  cases h.status p with
  | outside _ _ hnil => exact absurd (hnil.symm.trans hone) (by simp)
  | current _ _ hnil => exact absurd (hnil.symm.trans hone) (by simp)
  | tearing k reason' deadline' phase' sent hnot hcommitted hone' hphase' htorn =>
    obtain rfl : k = c := by simpa using hone'.symm.trans hone
    rw [hphase] at hphase'
    obtain ⟨-, -, -, rfl⟩ := Phase.tearing.inj hphase'
    exact ⟨hnot, hcommitted, hone, sent, htorn⟩
  | torn k sent hnot hcommitted hone' hphase' htorn =>
    obtain rfl : k = c := by simpa using hone'.symm.trans hone
    exact absurd hphase (hphase' reason deadline phase)

theorem SlotInv.of_tore (h : SlotInv s) {c p : ℕ} {reason : Reason} {deadline : ℕ}
    {phase phase' : TeardownPhase} {st : TeardownStep} (hcurrent : t.current = s.current)
    (hholder : t.holder = s.holder) (hsessions : SameSessions s t)
    (hphase : (s.calls c).phase = .tearing p reason deadline phase)
    (hphase' : (t.calls c).phase = .tearing p reason deadline phase')
    (hbefore : ∀ sent, ∃ sent', phase.before sent ++ [st] = phase'.before sent')
    (hothers : ∀ k, k ≠ c → (t.calls k).phase = (s.calls k).phase)
    (htrace : t.trace = s.trace ++ [.tore c p st]) : SlotInv t := by
  obtain ⟨hnot, hcommitted, hone, sent, htorn⟩ := h.status_of_tearing hphase
  obtain ⟨sent', hnext⟩ := hbefore sent
  refine h.of_action hcurrent hholder hsessions hphase ?_ ?_ hothers htrace ?_ ?_
  · rw [hphase']
    simp
  · intro q reason' deadline' phase'' hq
    rw [hphase']
    simp [Ne.symm hq]
  · intro e he
    exact Or.inr ⟨st, List.mem_singleton.mp he⟩
  · refine .tearing c reason deadline phase' sent' (hcurrent ▸ hnot) ?_ ?_ hphase' ?_
    · rw [htrace, committed_append]
      exact Or.inl hcommitted
    · rw [htrace, removers_append, hone]
      rfl
    · rw [htrace, tornBy_append, htorn, ← hnext]
      simp [tornBy]

theorem SlotInv.of_closed (h : SlotInv s) {c p : ℕ} {reason : Reason} {deadline : ℕ}
    {evs : List Event} (hcurrent : t.current = s.current) (hholder : t.holder = s.holder)
    (hsessions : SameSessions s t)
    (hphase : (s.calls c).phase = .tearing p reason deadline .close)
    (hphase' : ¬ (t.calls c).phase.Busy) (hevs : evs = [] ∨ evs = [.returned c .done])
    (hothers : ∀ k, k ≠ c → (t.calls k).phase = (s.calls k).phase)
    (htrace : t.trace = s.trace ++ .tore c p .close :: evs) : SlotInv t := by
  obtain ⟨hnot, hcommitted, hone, sent, htorn⟩ := h.status_of_tearing hphase
  have hquiet : ∀ e ∈ evs, e.Quiet := by
    intro e he
    rcases hevs with rfl | rfl
    · exact absurd he List.not_mem_nil
    · rw [List.mem_singleton.mp he]
      trivial
  obtain ⟨hnoRemovers, hnoTorn, -⟩ := quiet_trace (p := p) hquiet
  have htearing : ∀ q reason deadline phase,
      (t.calls c).phase ≠ .tearing q reason deadline phase := by
    intro q reason' deadline' phase' htear
    rw [htear] at hphase'
    exact hphase' trivial
  have htrace' : t.trace = (s.trace ++ [.tore c p .close]) ++ evs := by
    rw [htrace, List.append_assoc]
    rfl
  refine h.of_action hcurrent hholder hsessions hphase ?_ ?_ hothers htrace ?_ ?_
  · intro outdoor phase' hstart
    rw [hstart] at hphase'
    exact hphase' trivial
  · exact fun q reason' deadline' phase' _ ↦ htearing q reason' deadline' phase'
  · intro e he
    rcases List.mem_cons.mp he with rfl | he
    · exact Or.inr ⟨_, rfl⟩
    · exact Or.inl (hquiet e he)
  · refine .torn c sent (hcurrent ▸ hnot) ?_ ?_ (htearing p) ?_
    · rw [htrace, committed_append]
      exact Or.inl hcommitted
    · rw [htrace', removers_append, removers_append, hnoRemovers, hone]
      rfl
    · rw [htrace', tornBy_append, tornBy_append, hnoTorn, htorn]
      simp [tornBy, wholeTeardown, TeardownPhase.before]

theorem Effect.slotInv (heffect : Effect s t) (h : SlotInv s) : SlotInv t := by
  cases heffect with
  | quiet evs hcurrent hholder hsessions htrace hevs hcalls =>
    exact h.of_quiet hcurrent hholder hsessions htrace hevs hcalls
  | claimed c outdoor hcurrent hcurrent' hholder hholder' hsessions hplain hphase hothers htrace =>
    exact h.of_claimed hcurrent hcurrent' hholder hholder' hsessions hplain hphase hothers htrace
  | advanced c outdoor phase phase' evs hcurrent hholder hsessions hphase hphase' hfresh hothers
      htrace hevs =>
    exact h.of_advanced hcurrent hholder hsessions hphase hphase' hfresh hothers htrace hevs
  | failed c outdoor phase error evs hcurrent hholder hsessions hphase hphase' herror hothers htrace
      hevs =>
    apply h.of_failed hcurrent hholder hsessions hphase hphase' hothers htrace
    intro e he
    rcases List.mem_append.mp he with he | he
    · exact (hevs e he).1
    · rw [List.mem_singleton.mp he]
      trivial
  | committed c outdoor p info hcurrent hholder hsessions hphase hphase' hothers htrace =>
    exact h.of_committed hcurrent hholder hsessions hphase hphase' hothers htrace
  | removed c op p sess reason deadline hcurrent hsession htakes hcurrent' hholder hsessions hplain
      hphase hothers htrace =>
    exact h.of_removed hcurrent hsession htakes hcurrent' hholder hsessions hplain hphase hothers
      htrace
  | tore c p reason deadline phase phase' st hcurrent hholder hsessions hphase hphase' hbefore
      hothers htrace =>
    exact h.of_tore hcurrent hholder hsessions hphase hphase' hbefore hothers htrace
  | closed c p reason deadline evs hcurrent hholder hsessions hphase hphase' hothers htrace =>
    refine h.of_closed hcurrent hholder hsessions hphase ?_ ?_ hothers htrace
    · rcases hphase' with ⟨hplain, -⟩ | ⟨hreturned, -⟩
      · exact hplain.not_busy
      · rw [hreturned]
        exact id
    · exact hphase'.imp And.right And.right

theorem reachable_slotInv (hreach : Reachable (step cfg) .init s) : SlotInv s :=
  hreach.invariant slotInv_init fun hinv hstep ↦ (step_effect hinv.filled hstep).slotInv hinv

end SlotInv

end DoorAccess.Video.Manager
