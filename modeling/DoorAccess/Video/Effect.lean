import DoorAccess.Video.Moves

/-!
# What a step does to the slot

The step function of the session manager has some thirty moves, of which few touch the slot. This
module says once what a step can do to the slot, to the calls that deal with it and to the trace
(`Effect`), and shows that every step does one of these things (`step_effect`). The invariants of
the slot are carried over one effect at a time and never look at the step function.
-/

set_option autoImplicit false
set_option relaxedAutoImplicit false

namespace DoorAccess.Video.Manager

open Transition

/-! ### Reading the trace -/

/-- The calls that have taken the session `p` out of the slot. -/
def removers (p : ℕ) (trace : List Event) : List ℕ :=
  trace.filterMap fun
    | .removed c _ q => if q = p then some c else none
    | _ => none

/-- The teardown of the session `p` so far, with the call behind each action. -/
def tornBy (p : ℕ) (trace : List Event) : List (ℕ × TeardownStep) :=
  trace.filterMap fun
    | .tore c q st => if q = p then some (c, st) else none
    | _ => none

/-- The session `p` has been put into the slot. -/
def Committed (p : ℕ) (trace : List Event) : Prop :=
  ∃ c, .committed c p ∈ trace

/-- An event that is not about the slot. -/
def Event.Quiet : Event → Prop
  | .committed _ _ => False
  | .removed _ _ _ => False
  | .tore _ _ _ => False
  | _ => True

/-- The acknowledged 704 of a `start`. -/
def Event.Previews : Event → Prop
  | .startPreview _ _ ok => ok = true
  | _ => False

/-- An event about the answer of the call `c` to a `start`. -/
def Event.About (c : ℕ) : Event → Prop
  | .entered k (.start _) _ => k = c
  | .returned k _ => k = c
  | _ => False

section Trace

variable {p : ℕ} {trace evs : List Event}

theorem removers_append : removers p (trace ++ evs) = removers p trace ++ removers p evs :=
  List.filterMap_append

theorem tornBy_append : tornBy p (trace ++ evs) = tornBy p trace ++ tornBy p evs :=
  List.filterMap_append

theorem committed_append :
    Committed p (trace ++ evs) ↔ Committed p trace ∨ Committed p evs := by
  simp only [Committed, List.mem_append, exists_or]

theorem mem_removers {c : ℕ} : c ∈ removers p trace ↔ ∃ op, .removed c op p ∈ trace := by
  simp only [removers, List.mem_filterMap]
  constructor
  · rintro ⟨e, he, hsome⟩
    cases e with
    | removed k op q =>
      simp only [Option.ite_none_right_eq_some, Option.some.injEq] at hsome
      obtain ⟨rfl, rfl⟩ := hsome
      exact ⟨op, he⟩
    | _ => cases hsome
  · rintro ⟨op, he⟩
    exact ⟨_, he, if_pos rfl⟩

theorem mem_tornBy {c : ℕ} {st : TeardownStep} :
    (c, st) ∈ tornBy p trace ↔ .tore c p st ∈ trace := by
  simp only [tornBy, List.mem_filterMap]
  constructor
  · rintro ⟨e, he, hsome⟩
    cases e with
    | tore k q st' =>
      simp only [Option.ite_none_right_eq_some, Option.some.injEq, Prod.mk.injEq] at hsome
      obtain ⟨rfl, rfl, rfl⟩ := hsome
      exact he
    | _ => cases hsome
  · intro he
    exact ⟨_, he, if_pos rfl⟩

/-- Quiet events change none of the three. -/
theorem quiet_trace (h : ∀ e ∈ evs, e.Quiet) :
    removers p evs = [] ∧ tornBy p evs = [] ∧ ¬ Committed p evs := by
  refine ⟨?_, ?_, ?_⟩
  · refine List.eq_nil_iff_forall_not_mem.mpr fun c hc ↦ ?_
    obtain ⟨op, he⟩ := mem_removers.mp hc
    exact h _ he
  · refine List.eq_nil_iff_forall_not_mem.mpr fun x hx ↦ ?_
    exact h _ (mem_tornBy.mp hx)
  · rintro ⟨c, he⟩
    exact h _ he

end Trace

/-! ### What a step can do -/

/-- A call that is neither inside `start` nor in a teardown and has not returned. -/
def Phase.Plain : Phase → Prop
  | .starting _ _ => False
  | .tearing _ _ _ _ => False
  | .returned _ => False
  | _ => True

/-- A call inside `start` or in a teardown. -/
def Phase.Busy : Phase → Prop
  | .starting _ _ => True
  | .tearing _ _ _ _ => True
  | _ => False

theorem Phase.busy_starting (outdoor : Outdoor) (phase : StartPhase) :
    (Phase.starting outdoor phase).Busy :=
  trivial

theorem Phase.Plain.not_busy {phase : Phase} (h : phase.Plain) : ¬ phase.Busy := by
  cases phase with
  | starting | tearing => exact h.elim
  | _ => exact id

/-- No session is lost, and none changes its id or its outdoor. -/
def SameSessions (s t : State) : Prop :=
  ∀ p sess, s.sessions p = some sess →
    ∃ sess', t.sessions p = some sess' ∧ sess'.id = sess.id ∧ sess'.outdoor = sess.outdoor

/-- The session that a method of the manager takes out, by its own key. -/
def Op.Takes (op : Op) (p : ℕ) (sess : Session) : Prop :=
  match op with
  | .stop uri => sess.outdoor.uri = uri
  | .stopById id => sess.id = id
  | .stopInternal q _ => p = q
  | .shutdown _ => True
  | _ => False

theorem Op.Takes.of_same {op : Op} {p : ℕ} {sess sess' : Session} (h : op.Takes p sess)
    (hid : sess'.id = sess.id) (houtdoor : sess'.outdoor = sess.outdoor) : op.Takes p sess' := by
  cases op with
  | stop uri =>
    rw [Op.Takes, houtdoor]
    exact h
  | stopById id => exact hid.trans h
  | _ => exact h

/-- The answer of a `start` that found `current` in the slot. -/
def Answers (s : State) (outdoor : Outdoor) (current : Option ℕ) (reply : Reply) : Prop :=
  match current with
  | none => ∀ active requested, reply ≠ .failed (.conflict active requested)
  | some p => ∃ sess, s.sessions p = some sess ∧
    if sess.outdoor.uri = outdoor.uri then ∃ info, reply = .started info ∧ info.id = sess.id
    else reply = .failed (.conflict sess.outdoor.uri outdoor.uri)

theorem answers_of_some {s : State} {outdoor : Outdoor} {current : Option ℕ} {reply : Reply} {p : ℕ}
    {sess : Session} (hcurrent : current = some p) (hsess : s.sessions p = some sess)
    (hreply : if sess.outdoor.uri = outdoor.uri then
        ∃ info, reply = .started info ∧ info.id = sess.id
      else reply = .failed (.conflict sess.outdoor.uri outdoor.uri)) :
    Answers s outdoor current reply := by
  rw [hcurrent]
  exact ⟨sess, hsess, hreply⟩

/-- The 704 of a `start` has been acknowledged. -/
def StartPhase.Past : StartPhase → Prop
  | .binding => False
  | .previewing => False
  | _ => True

/-- What a step that logs `evs` and leaves the slot alone does to a call. -/
inductive CallMove (s t : State) (evs : List Event) (c : ℕ) : Prop
  | same (hphase : (t.calls c).phase = (s.calls c).phase) (hevs : ∀ e ∈ evs, ¬ e.About c)
  | pass (hs : (s.calls c).phase.Plain) (ht : (t.calls c).phase.Plain)
      (hevs : ∀ e ∈ evs, ¬ e.About c)
  | answer (reply : Reply) (hs : (s.calls c).phase.Plain)
      (ht : (t.calls c).phase = .returned reply) (hreturned : ∀ r, .returned c r ∈ evs → r = reply)
      (hentered : ∀ outdoor current, .entered c (.start outdoor) current ∈ evs →
        Answers t outdoor current reply)

/-- The actions of a teardown before a phase, given whether the 708 was sent. -/
def TeardownPhase.before (sent : Bool) : TeardownPhase → List TeardownStep
  | .stopPreview => []
  | .bye => [.stopPreview sent]
  | .stopFlag => [.stopPreview sent, .bye]
  | .close => [.stopPreview sent, .bye, .stopFlag]

/-- The actions of a whole teardown. -/
def wholeTeardown (sent : Bool) : List TeardownStep :=
  [.stopPreview sent, .bye, .stopFlag, .close]

/-- Everything that a step can do to the slot. -/
inductive Effect (s t : State) : Prop
  | quiet (evs : List Event) (hcurrent : t.current = s.current) (hholder : t.holder = s.holder)
      (hsessions : SameSessions s t) (htrace : t.trace = s.trace ++ evs)
      (hevs : ∀ e ∈ evs, e.Quiet) (hcalls : ∀ c, CallMove s t evs c)
      (hunpreviewed : ∀ e ∈ evs, ¬ e.Previews)
  /-- A `start` finds the slot empty and keeps the lock. -/
  | claimed (c : ℕ) (outdoor : Outdoor) (hcurrent : s.current = none) (hcurrent' : t.current = none)
      (hholder : s.holder = none) (hholder' : t.holder = some c)
      (hsessions : t.sessions = s.sessions)
      (hplain : (s.calls c).phase.Plain) (hphase : (t.calls c).phase = .starting outdoor .binding)
      (hothers : ∀ k, k ≠ c → (t.calls k).phase = (s.calls k).phase)
      (htrace : t.trace = s.trace ++ [.entered c (.start outdoor) none])
  /-- A `start` goes on to its next phase. -/
  | advanced (c : ℕ) (outdoor : Outdoor) (phase phase' : StartPhase) (evs : List Event)
      (hcurrent : t.current = s.current) (hholder : t.holder = s.holder)
      (hsessions : SameSessions s t) (hphase : (s.calls c).phase = .starting outdoor phase)
      (hphase' : (t.calls c).phase = .starting outdoor phase')
      (hfresh : ∀ p, phase' = .spawned p →
        s.sessions p = none ∧ ∃ sess, t.sessions p = some sess ∧ sess.outdoor = outdoor)
      (hothers : ∀ k, k ≠ c → (t.calls k).phase = (s.calls k).phase)
      (htrace : t.trace = s.trace ++ evs) (hevs : ∀ e ∈ evs, e.Quiet ∧ ∀ k, ¬ e.About k)
      (hpast : phase.Past → phase'.Past)
      (hpreviews : ∀ k o ok, .startPreview k o ok ∈ evs → o = outdoor ∧ (ok = true → phase'.Past))
  /-- A `start` gives up. -/
  | failed (c : ℕ) (outdoor : Outdoor) (phase : StartPhase) (error : StartError) (evs : List Event)
      (hcurrent : t.current = s.current) (hholder : t.holder = none)
      (hsessions : t.sessions = s.sessions) (hphase : (s.calls c).phase = .starting outdoor phase)
      (hphase' : (t.calls c).phase = .returned (.failed error))
      (herror : ∀ active requested, error ≠ .conflict active requested)
      (hothers : ∀ k, k ≠ c → (t.calls k).phase = (s.calls k).phase)
      (htrace : t.trace = s.trace ++ (evs ++ [.returned c (.failed error)]))
      (hevs : ∀ e ∈ evs, e.Quiet ∧ ∀ k, ¬ e.About k)
      (hpast : phase.Past → .rollbackPreview c outdoor ∈ evs)
      (hunpreviewed : ∀ e ∈ evs, ¬ e.Previews)
  /-- A `start` puts its session into the slot. -/
  | committed (c : ℕ) (outdoor : Outdoor) (p : ℕ) (info : SessionInfo)
      (hcurrent : t.current = some p) (hholder : t.holder = none)
      (hsessions : t.sessions = s.sessions)
      (hphase : (s.calls c).phase = .starting outdoor (.spawned p))
      (hphase' : (t.calls c).phase = .returned (.started info))
      (hothers : ∀ k, k ≠ c → (t.calls k).phase = (s.calls k).phase)
      (htrace : t.trace = s.trace ++ [.committed c p, .returned c (.started info)])
  /-- A call takes the session out of the slot. -/
  | removed (c : ℕ) (op : Op) (p : ℕ) (sess : Session) (reason : Reason) (deadline : ℕ)
      (hcurrent : s.current = some p) (hsession : s.sessions p = some sess)
      (htakes : op.Takes p sess) (hcurrent' : t.current = none) (hholder : t.holder = s.holder)
      (hsessions : t.sessions = s.sessions) (hplain : (s.calls c).phase.Plain)
      (hphase : (t.calls c).phase = .tearing p reason deadline .stopPreview)
      (hothers : ∀ k, k ≠ c → (t.calls k).phase = (s.calls k).phase)
      (htrace : t.trace = s.trace ++ [.entered c op (some p), .removed c op p])
  /-- An action of a teardown before its last. -/
  | tore (c p : ℕ) (reason : Reason) (deadline : ℕ) (phase phase' : TeardownPhase)
      (st : TeardownStep) (hcurrent : t.current = s.current) (hholder : t.holder = s.holder)
      (hsessions : SameSessions s t)
      (hphase : (s.calls c).phase = .tearing p reason deadline phase)
      (hphase' : (t.calls c).phase = .tearing p reason deadline phase')
      (hbefore : ∀ sent, ∃ sent', phase.before sent ++ [st] = phase'.before sent')
      (hothers : ∀ k, k ≠ c → (t.calls k).phase = (s.calls k).phase)
      (htrace : t.trace = s.trace ++ [.tore c p st])
      (hst : st = teardownStep s.now deadline phase)
  /-- The close, with which a teardown ends. -/
  | closed (c p : ℕ) (reason : Reason) (deadline : ℕ) (evs : List Event)
      (hcurrent : t.current = s.current) (hholder : t.holder = s.holder)
      (hsessions : SameSessions s t)
      (hphase : (s.calls c).phase = .tearing p reason deadline .close)
      (hphase' : (t.calls c).phase.Plain ∧ evs = [] ∨
        (t.calls c).phase = .returned .done ∧ evs = [.returned c .done])
      (hothers : ∀ k, k ≠ c → (t.calls k).phase = (s.calls k).phase)
      (htrace : t.trace = s.trace ++ .tore c p .close :: evs)

section Effects

variable {cfg : Config} {s t : State} {c p : ℕ} {sess : Session}

/-- One event that is neither about the slot nor about an answer. -/
theorem aside_singleton {e : Event} (hquiet : e.Quiet) (habout : ∀ k, ¬ e.About k) :
    ∀ e' ∈ [e], e'.Quiet ∧ ∀ k, ¬ e'.About k := by
  intro e' he
  rw [List.mem_singleton.mp he]
  exact ⟨hquiet, habout⟩

/-- One event that is no acknowledged 704. -/
theorem unpreviewed_singleton {e : Event} (h : ¬ e.Previews) : ∀ e' ∈ [e], ¬ e'.Previews := by
  intro e' he
  rw [List.mem_singleton.mp he]
  exact h

theorem sameSessions_of_eq (h : t.sessions = s.sessions) : SameSessions s t := by
  intro p sess hsess
  exact ⟨sess, by rw [h, hsess], rfl, rfl⟩

/-- One session is replaced by another with the same id and outdoor. -/
theorem sameSessions_of_update {sess' : Session} (hsess : s.sessions p = some sess)
    (h : t.sessions = Function.update s.sessions p (some sess')) (hid : sess'.id = sess.id)
    (houtdoor : sess'.outdoor = sess.outdoor) : SameSessions s t := by
  intro q sessq hsessq
  rw [h]
  by_cases hq : q = p
  · rw [hq] at hsessq ⊢
    rw [Function.update_self]
    rw [hsess, Option.some.injEq] at hsessq
    rw [← hsessq]
    exact ⟨sess', rfl, hid, houtdoor⟩
  · rw [Function.update_of_ne hq]
    exact ⟨sessq, hsessq, rfl, rfl⟩

/-- A step that moves no call. -/
theorem Effect.aside (evs : List Event) (hcurrent : t.current = s.current)
    (hholder : t.holder = s.holder) (hsessions : SameSessions s t)
    (htrace : t.trace = s.trace ++ evs)
    (hevs : ∀ e ∈ evs, e.Quiet ∧ ∀ k, ¬ e.About k)
    (hunpreviewed : ∀ e ∈ evs, ¬ e.Previews)
    (hphases : ∀ k, (t.calls k).phase = (s.calls k).phase) : Effect s t :=
  .quiet evs hcurrent hholder hsessions htrace (fun e he ↦ (hevs e he).1)
    (fun k ↦ .same (hphases k) fun e he ↦ (hevs e he).2 k) hunpreviewed

/-- A step that moves one call between two plain phases. -/
theorem Effect.passes (evs : List Event) (hcurrent : t.current = s.current)
    (hholder : t.holder = s.holder) (hsessions : SameSessions s t)
    (htrace : t.trace = s.trace ++ evs)
    (hevs : ∀ e ∈ evs, e.Quiet ∧ ∀ k, ¬ e.About k) (hunpreviewed : ∀ e ∈ evs, ¬ e.Previews)
    (hs : (s.calls c).phase.Plain) (ht : (t.calls c).phase.Plain)
    (hothers : ∀ k, k ≠ c → (t.calls k).phase = (s.calls k).phase) : Effect s t := by
  refine .quiet evs hcurrent hholder hsessions htrace (fun e he ↦ (hevs e he).1) (fun k ↦ ?_)
    hunpreviewed
  by_cases hk : k = c
  · rw [hk]
    exact .pass hs ht fun e he ↦ (hevs e he).2 c
  · exact .same (hothers k hk) fun e he ↦ (hevs e he).2 k

/-- A step with which one call returns, perhaps just after it has entered. -/
theorem Effect.answers (evs : List Event) (reply : Reply) (hcurrent : t.current = s.current)
    (hholder : t.holder = s.holder) (hsessions : SameSessions s t)
    (htrace : t.trace = s.trace ++ (evs ++ [.returned c reply]))
    (hevs : ∀ e ∈ evs, ∃ op current, e = .entered c op current) (hs : (s.calls c).phase.Plain)
    (ht : (t.calls c).phase = .returned reply)
    (hothers : ∀ k, k ≠ c → (t.calls k).phase = (s.calls k).phase)
    (hentered : ∀ outdoor current, .entered c (.start outdoor) current ∈ evs →
      Answers t outdoor current reply) : Effect s t := by
  have hall : ∀ e ∈ evs ++ [.returned c reply],
      (∃ op current, e = .entered c op current) ∨ e = .returned c reply := by
    intro e he
    rcases List.mem_append.mp he with he | he
    · exact Or.inl (hevs e he)
    · exact Or.inr (List.mem_singleton.mp he)
  have hunpreviewed : ∀ e ∈ evs ++ [.returned c reply], ¬ e.Previews := by
    intro e he
    rcases hall e he with ⟨op, current, rfl⟩ | rfl
    · exact id
    · exact id
  refine .quiet _ hcurrent hholder hsessions htrace ?_ (fun k ↦ ?_) hunpreviewed
  · intro e he
    rcases hall e he with ⟨op, current, rfl⟩ | rfl
    · trivial
    · trivial
  · by_cases hk : k = c
    · rw [hk]
      refine .answer reply hs ht ?_ ?_
      · intro r hr
        rcases hall _ hr with ⟨op, current, heq⟩ | heq
        · cases heq
        · cases heq
          rfl
      · intro outdoor current he
        rcases List.mem_append.mp he with he | he
        · exact hentered outdoor current he
        · cases List.mem_singleton.mp he
    · refine .same (hothers k hk) ?_
      intro e he habout
      rcases hall e he with ⟨op, current, rfl⟩ | rfl
      · cases op with
        | start => exact hk habout.symm
        | _ => exact habout
      · exact hk habout.symm

/-- A step that changes one session, other than in its id and outdoor. -/
theorem Effect.setSession {sess' : Session} (hsess : s.sessions p = some sess)
    (hid : sess'.id = sess.id) (houtdoor : sess'.outdoor = sess.outdoor) :
    Effect s (s.setSession p sess') := by
  have hsessions : SameSessions s (s.setSession p sess') :=
    sameSessions_of_update hsess rfl hid houtdoor
  refine .aside [] rfl rfl hsessions ?_ ?_ (by simp) fun _ ↦ rfl
  · simp
  · simp

theorem spawnCleanup_effect {reason : Reason} (hsess : s.sessions p = some sess)
    (hidle : (s.calls c).phase = .idle) : Effect s (spawnCleanup s p sess c reason) := by
  have hsessions : SameSessions s (spawnCleanup s p sess c reason) :=
    sameSessions_of_update hsess rfl rfl rfl
  refine .passes [] (c := c) rfl rfl hsessions ?_ ?_ ?_ ?_ ?_ ?_
  · simp [spawnCleanup]
  · simp
  · simp
  · rw [hidle]
    trivial
  · simp only [spawnCleanup, State.setPhase_calls, Function.update_self]
    trivial
  · intro k hk
    simp only [spawnCleanup, State.setPhase_calls, Function.update_of_ne hk,
      State.setSession_calls]

theorem registerCleanup_effect (hsess : s.sessions p = some sess) :
    Effect s (registerCleanup s p sess c) := by
  have hsessions : SameSessions s (registerCleanup s p sess c) :=
    sameSessions_of_update hsess rfl rfl rfl
  refine .aside [] rfl rfl hsessions ?_ ?_ (by simp) fun _ ↦ rfl
  · simp [registerCleanup]
  · simp

theorem look_effect {sess' : Session} (hsess : s.sessions p = some sess)
    (h : look s sess = some sess') : Effect s (s.setSession p sess') := by
  unfold look at h
  split_ifs at h
  · obtain rfl := Option.some.inj h
    exact .setSession hsess rfl rfl
  · obtain rfl := Option.some.inj h
    exact .setSession hsess rfl rfl

theorem guardReinvite_effect {now : ℕ} (hsess : s.sessions p = some sess) :
    Effect s (s.setSession p (guardReinvite s p sess now)) := by
  unfold guardReinvite
  split_ifs
  · exact .setSession hsess rfl rfl
  · exact .setSession hsess rfl rfl

theorem reinvite_effect (hsess : s.sessions p = some sess) : Effect s (reinvite s p sess) := by
  have hsessions : SameSessions s (reinvite s p sess) := sameSessions_of_update hsess rfl rfl rfl
  refine .aside [.reinvited p] rfl rfl hsessions rfl ?_ (unpreviewed_singleton id) fun _ ↦ rfl
  exact aside_singleton trivial fun _ habout ↦ habout

/-- The refresh of a TTL leaves everything but one deadline as it is. -/
theorem refreshTtl_fields (cfg : Config) (s : State) (id : Str) :
    (refreshTtl cfg s id).1.current = s.current ∧ (refreshTtl cfg s id).1.holder = s.holder ∧
    (refreshTtl cfg s id).1.calls = s.calls ∧ (refreshTtl cfg s id).1.trace = s.trace ∧
    SameSessions s (refreshTtl cfg s id).1 := by
  unfold refreshTtl
  split
  · rename_i p sess hfound
    obtain ⟨-, hsess⟩ := State.currentSession_eq_some.mp hfound
    split_ifs
    · exact ⟨rfl, rfl, rfl, rfl, sameSessions_of_update hsess rfl rfl rfl⟩
    · exact ⟨rfl, rfl, rfl, rfl, sameSessions_of_eq rfl⟩
  · exact ⟨rfl, rfl, rfl, rfl, sameSessions_of_eq rfl⟩

/-- The calls, but for the threads of a handler. -/
theorem phases_of_update {calls : ℕ → Call} {call : Call} (hcall : call.phase = (calls c).phase)
    (k : ℕ) : (Function.update calls c call k).phase = (calls k).phase := by
  by_cases hk : k = c
  · rw [hk, Function.update_self, hcall]
  · rw [Function.update_of_ne hk]

theorem finClose_phases (k : ℕ) :
    ((finClose s c p sess).calls k).phase = (s.calls k).phase := by
  apply phases_of_update
  rfl

theorem refreshLoop_phases (k : ℕ) :
    ((refreshLoop s c sess cfg).calls k).phase = (s.calls k).phase := by
  obtain ⟨-, -, hcalls, -⟩ := refreshTtl_fields cfg s sess.id
  simp only [refreshLoop, hcalls]
  apply phases_of_update
  rfl

theorem finClose_effect (hsess : s.sessions p = some sess) : Effect s (finClose s c p sess) := by
  have hsessions : SameSessions s (finClose s c p sess) :=
    sameSessions_of_update hsess rfl rfl rfl
  refine .aside [.finClosed c p] rfl rfl hsessions rfl ?_ (unpreviewed_singleton id) finClose_phases
  exact aside_singleton trivial fun _ habout ↦ habout

theorem refreshLoop_effect : Effect s (refreshLoop s c sess cfg) := by
  obtain ⟨hcurrent, hholder, -, htrace, hsessions⟩ := refreshTtl_fields cfg s sess.id
  refine .aside [] hcurrent hholder hsessions ?_ (by simp) (by simp) refreshLoop_phases
  rw [List.append_nil]
  exact htrace

/-- A call that returns at once, with the session `p` perhaps replaced by one that is the same but
for its deadline. -/
theorem Effect.enterAnswers {op : Op} {reply : Reply} {u : State}
    (hplain : (s.calls c).phase.Plain) (hcurrent : u.current = s.current)
    (hholder : u.holder = s.holder) (hcalls : u.calls = s.calls)
    (htrace : u.trace = s.trace ++ [.entered c op s.current]) (hsessions : SameSessions s u)
    (hanswers : ∀ outdoor, op = .start outdoor →
      Answers (u.reply c reply) outdoor s.current reply) :
    Effect s (u.reply c reply) := by
  refine .answers [.entered c op s.current] reply hcurrent hholder hsessions ?_ ?_ hplain ?_ ?_ ?_
  · simp only [State.reply, State.log_trace, State.setPhase_trace, htrace, List.append_assoc]
  · intro e he
    exact ⟨op, s.current, List.mem_singleton.mp he⟩
  · simp only [State.reply, State.log_calls, State.setPhase_calls, Function.update_self]
  · intro k hk
    simp only [State.reply, State.log_calls, State.setPhase_calls, Function.update_of_ne hk, hcalls]
  · intro outdoor current he
    obtain ⟨-, hop, hcur⟩ := Event.entered.inj (List.mem_singleton.mp he)
    rw [hcur]
    exact hanswers outdoor hop.symm

theorem takeCurrent_effect {op : Op} {key : ℕ → Session → Bool} {reason : Reason} {deadline : ℕ}
    {otherwise : State} (hplain : (s.calls c).phase.Plain)
    (hkey : ∀ p sess, key p sess = true → op.Takes p sess) (hotherwise : Effect s otherwise) :
    Effect s
      (takeCurrent (s.log (.entered c op s.current)) c op key reason deadline otherwise) := by
  unfold takeCurrent
  split
  · rename_i p sess hfound
    obtain ⟨hcurrent, hsess⟩ := State.currentSession_eq_some.mp hfound
    rw [State.log_current] at hcurrent
    split_ifs with hmatch
    · refine .removed c op p sess reason deadline hcurrent hsess (hkey p sess hmatch) rfl rfl rfl
        hplain ?_ ?_ ?_
      · simp
      · intro k hk
        simp [hk]
      · simp [hcurrent]
    · exact hotherwise
  · exact hotherwise

theorem reuse_fields (cfg : Config) (hsess : s.sessions p = some sess) :
    (reuse cfg s p sess).current = s.current ∧ (reuse cfg s p sess).holder = s.holder ∧
    (reuse cfg s p sess).calls = s.calls ∧ (reuse cfg s p sess).trace = s.trace ∧
    SameSessions s (reuse cfg s p sess) := by
  unfold reuse
  split_ifs
  · exact ⟨rfl, rfl, rfl, rfl, sameSessions_of_update hsess rfl rfl rfl⟩
  · exact ⟨rfl, rfl, rfl, rfl, sameSessions_of_eq rfl⟩

/-- The session in the slot exists. -/
def SlotFilled (s : State) : Prop :=
  ∀ p, s.current = some p → ∃ sess, s.sessions p = some sess

theorem current_eq_none_of_currentSession (h : SlotFilled s) (hnone : s.currentSession = none) :
    s.current = none := by
  cases hcurrent : s.current with
  | none => rfl
  | some p =>
    obtain ⟨sess, hsess⟩ := h p hcurrent
    rw [State.currentSession_eq_some.mpr ⟨hcurrent, hsess⟩] at hnone
    exact absurd hnone (by simp)

theorem enter_effect {op : Op} (hfilled : SlotFilled s)
    (hphase : (s.calls c).phase = .calling op) (hholder : s.holder = none) :
    Effect s (enter cfg s c op) := by
  have hplain : (s.calls c).phase.Plain := by
    rw [hphase]
    trivial
  have hdone : ∀ reply, (∀ outdoor, op = .start outdoor →
      Answers ((s.log (.entered c op s.current)).reply c reply) outdoor s.current reply) →
      Effect s ((s.log (.entered c op s.current)).reply c reply) :=
    fun reply hanswers ↦ .enterAnswers hplain rfl rfl rfl rfl (sameSessions_of_eq rfl) hanswers
  cases op with
  | start outdoor =>
    simp only [enter, start]
    split
    · rename_i p sess hfound
      obtain ⟨hcurrent, hsess⟩ := State.currentSession_eq_some.mp hfound
      rw [State.log_current] at hcurrent
      rw [State.log_sessions] at hsess
      split_ifs with huri
      · obtain ⟨hcurrent', hholder', hcalls, htrace, hsessions⟩ :=
          reuse_fields cfg (s := s.log (.entered c (.start outdoor) s.current)) hsess
        refine .enterAnswers hplain hcurrent' hholder' hcalls htrace hsessions ?_
        rintro _ ⟨rfl⟩
        obtain ⟨sess', hsess', hid, houtdoor⟩ := hsessions p sess hsess
        apply answers_of_some hcurrent hsess'
        rw [houtdoor, if_pos huri]
        exact ⟨_, rfl, hid.symm⟩
      · apply hdone _
        rintro _ ⟨rfl⟩
        exact answers_of_some hcurrent hsess (by rw [if_neg huri])
    · rename_i hnone
      have hcurrent : s.current = none := current_eq_none_of_currentSession hfilled hnone
      refine .claimed c outdoor hcurrent hcurrent hholder rfl rfl hplain ?_ ?_ ?_
      · simp
      · intro k hk
        simp [hk]
      · simp [hcurrent]
  | stop uri =>
    refine takeCurrent_effect hplain (fun p sess hkey ↦ by simpa [Op.Takes] using hkey) ?_
    exact hdone _ (by simp)
  | stopById id =>
    refine takeCurrent_effect hplain (fun p sess hkey ↦ by simpa [Op.Takes] using hkey) ?_
    exact hdone _ (by simp)
  | refreshTtl id =>
    obtain ⟨hcurrent, hholder', hcalls, htrace, hsessions⟩ :=
      refreshTtl_fields cfg (s.log (.entered c (.refreshTtl id) s.current)) id
    refine .enterAnswers hplain hcurrent hholder' hcalls htrace hsessions ?_
    simp
  | stopInternal q reason =>
    refine takeCurrent_effect hplain (fun p sess hkey ↦ by simpa [Op.Takes] using hkey) ?_
    exact hdone _ (by simp)
  | shutdown overall =>
    refine takeCurrent_effect hplain (fun p sess hkey ↦ trivial) ?_
    refine .passes [.entered c (.shutdown overall) s.current] (c := c) rfl rfl
      (sameSessions_of_eq rfl) rfl ?_ (unpreviewed_singleton id) hplain ?_ ?_
    · exact aside_singleton trivial fun _ habout ↦ habout
    · simp only [State.setPhase_calls, Function.update_self]
      trivial
    · intro k hk
      simp [hk]
  | stream id =>
    simp only [enter, stream]
    split
    · split_ifs
      · refine .passes [.entered c (.stream id) s.current] (c := c) rfl rfl
          (sameSessions_of_eq rfl) rfl ?_ (unpreviewed_singleton not_false) hplain ?_ ?_
        · exact aside_singleton trivial fun _ habout ↦ habout
        · simp only [State.setPhase_calls, Function.update_self]
          trivial
        · intro k hk
          simp [hk]
      · exact hdone _ (by simp)
    · exact hdone _ (by simp)

/-- A call that goes from one plain phase to another without a log entry. -/
theorem Effect.setPhase {phase : Phase} (hs : (s.calls c).phase.Plain) (ht : phase.Plain) :
    Effect s (s.setPhase c phase) := by
  refine .passes [] (c := c) rfl rfl (sameSessions_of_eq rfl) (by simp) (by simp) (by simp) hs ?_ ?_
  · simpa using ht
  · intro k hk
    simp [hk]

/-- A call that returns from a plain phase. -/
theorem Effect.reply {reply : Reply} (hs : (s.calls c).phase.Plain) :
    Effect s (s.reply c reply) := by
  refine .answers [] reply rfl rfl (sameSessions_of_eq rfl) rfl (by simp) hs ?_ ?_ (by simp)
  · simp [State.reply]
  · intro k hk
    simp [State.reply, hk]

theorem Effect.leave {consumer : Option ℕ} {sess' : Session} (hs : (s.calls c).phase.Plain)
    (hsess : s.sessions p = some sess) (hid : sess'.id = sess.id)
    (houtdoor : sess'.outdoor = sess.outdoor) : Effect s (leave s c p sess' consumer) := by
  refine .passes [.left c p] (c := c) rfl rfl (sameSessions_of_update hsess rfl hid houtdoor) rfl ?_
    (unpreviewed_singleton id) hs ?_ ?_
  · exact aside_singleton trivial fun _ habout ↦ habout
  · simp only [Manager.leave, State.log_calls, State.setPhase_calls, Function.update_self]
    trivial
  · intro k hk
    simp [Manager.leave, hk]

/-- A `start` that goes on, with the events `evs` and perhaps a new session. -/
theorem Effect.startAdvances {outdoor : Outdoor} {phase phase' : StartPhase} {u : State}
    (evs : List Event) (hphase : (s.calls c).phase = .starting outdoor phase)
    (hcurrent : u.current = s.current) (hholder : u.holder = s.holder) (hcalls : u.calls = s.calls)
    (hsessions : SameSessions s u) (htrace : u.trace = s.trace ++ evs)
    (hevs : ∀ e ∈ evs, e.Quiet ∧ ∀ k, ¬ e.About k)
    (hfresh : ∀ p, phase' = .spawned p →
      s.sessions p = none ∧ ∃ sess, u.sessions p = some sess ∧ sess.outdoor = outdoor)
    (hpast : phase.Past → phase'.Past)
    (hpreviews : ∀ k o ok, .startPreview k o ok ∈ evs → o = outdoor ∧ (ok = true → phase'.Past)) :
    Effect s (u.setPhase c (.starting outdoor phase')) := by
  refine .advanced c outdoor phase phase' evs hcurrent hholder hsessions hphase ?_ hfresh ?_ htrace
    hevs hpast hpreviews
  · simp
  · intro k hk
    simp [hk, hcalls]

/-- A `start` that gives up, after the events `evs`. -/
theorem Effect.startFails {outdoor : Outdoor} {phase : StartPhase} {error : StartError} {u : State}
    (evs : List Event) (hphase : (s.calls c).phase = .starting outdoor phase)
    (hcurrent : u.current = s.current) (hcalls : u.calls = s.calls)
    (hsessions : u.sessions = s.sessions) (htrace : u.trace = s.trace ++ evs)
    (hevs : ∀ e ∈ evs, e.Quiet ∧ ∀ k, ¬ e.About k)
    (herror : ∀ active requested, error ≠ .conflict active requested)
    (hpast : phase.Past → .rollbackPreview c outdoor ∈ evs)
    (hunpreviewed : ∀ e ∈ evs, ¬ e.Previews) : Effect s (startFails u c error) := by
  refine .failed c outdoor phase error evs hcurrent rfl hsessions hphase ?_ herror ?_ ?_ hevs hpast
    hunpreviewed
  · simp [Manager.startFails, State.reply]
  · intro k hk
    simp [Manager.startFails, State.reply, hk, hcalls]
  · simp [Manager.startFails, State.reply, htrace]

theorem bindUdp_effect {outdoor : Outdoor} {ok : Bool}
    (hphase : (s.calls c).phase = .starting outdoor .binding) :
    Effect s (bindUdp s c outdoor ok) := by
  have hbound : ∀ e ∈ [Event.bound c ok], e.Quiet ∧ ∀ k, ¬ e.About k := by
    exact aside_singleton trivial fun _ habout ↦ habout
  unfold bindUdp
  split_ifs
  · exact .startAdvances [.bound c ok] hphase rfl rfl rfl (sameSessions_of_eq rfl) rfl hbound
      (by simp) False.elim (by simp)
  · exact .startFails [.bound c ok] hphase rfl rfl rfl rfl hbound (by simp) False.elim
      (unpreviewed_singleton id)

theorem startPreview_effect {outdoor : Outdoor} {ok : Bool}
    (hphase : (s.calls c).phase = .starting outdoor .previewing) :
    Effect s (startPreview s c outdoor ok) := by
  unfold startPreview
  split_ifs with hok
  · refine .startAdvances [.startPreview c outdoor ok] hphase rfl rfl rfl (sameSessions_of_eq rfl)
      rfl ?_ (by simp) False.elim ?_
    · exact aside_singleton trivial fun _ habout ↦ habout
    · intro k o ok' he
      obtain ⟨rfl, rfl, rfl⟩ := Event.startPreview.inj (List.mem_singleton.mp he)
      exact ⟨rfl, fun _ ↦ trivial⟩
  · refine .startFails [.startPreview c outdoor ok, .dropSocket c] hphase rfl rfl rfl (by simp) ?_
      (by simp) False.elim ?_
    · intro e he
      rcases List.mem_pair.mp he with rfl | rfl
      · exact ⟨trivial, fun _ habout ↦ habout⟩
      · exact ⟨trivial, fun _ habout ↦ habout⟩
    · intro e he
      rcases List.mem_pair.mp he with rfl | rfl
      · exact hok
      · exact id

theorem drawNumbers_effect {outdoor : Outdoor} {uuid : Option Str} {ssrc : Option UInt32}
    (hphase : (s.calls c).phase = .starting outdoor .drawing) (hfresh : s.sessions p = none) :
    Effect s (drawNumbers cfg s c outdoor uuid ssrc p) := by
  have hdrew : ∀ number ok e, e ∈ [Event.drew c number ok] → e.Quiet ∧ ∀ k, ¬ e.About k := by
    intro number ok
    exact aside_singleton trivial fun _ habout ↦ habout
  have hsocket : ∀ e ∈ [Event.dropSocket c], e.Quiet ∧ ∀ k, ¬ e.About k := by
    exact aside_singleton trivial fun _ habout ↦ habout
  unfold drawNumbers
  split
  · refine .startAdvances [.drew c .uuid false, .dropSocket c] hphase rfl rfl rfl
      (sameSessions_of_eq rfl) (by simp) ?_ (by simp) (fun _ ↦ trivial) (by simp)
    exact List.forall_mem_append.mpr ⟨hdrew _ _, hsocket⟩
  · refine .startAdvances [.drew c .uuid true, .drew c .ssrc false, .dropSocket c] hphase rfl rfl
      rfl (sameSessions_of_eq rfl) (by simp) ?_ (by simp) (fun _ ↦ trivial) (by simp)
    exact List.forall_mem_append.mpr
      ⟨hdrew _ _, List.forall_mem_append.mpr ⟨hdrew _ _, hsocket⟩⟩
  · refine .startAdvances [.drew c .uuid true, .drew c .ssrc true] hphase rfl rfl rfl ?_ (by simp) ?_
      ?_ (fun _ ↦ trivial) (by simp)
    · intro q sessq hsessq
      have hq : q ≠ p := by
        rintro rfl
        rw [hfresh] at hsessq
        exact absurd hsessq (by simp)
      exact ⟨sessq, by simp [hq, hsessq], rfl, rfl⟩
    · exact List.forall_mem_append.mpr ⟨hdrew _ _, hdrew _ _⟩
    · rintro _ ⟨rfl⟩
      exact ⟨hfresh, _, Function.update_self _ _ _, rfl⟩

theorem commit_effect {outdoor : Outdoor}
    (hphase : (s.calls c).phase = .starting outdoor (.spawned p)) :
    Effect s (commit cfg s c p sess) := by
  refine .committed c outdoor p (sess.info cfg.ttlValue) rfl rfl rfl hphase ?_ ?_ ?_
  · simp [commit, State.reply]
  · intro k hk
    simp [commit, State.reply, hk]
  · simp [commit, State.reply]

theorem teardown_effect {reason : Reason} {deadline : ℕ} {phase : TeardownPhase}
    (hphase : (s.calls c).phase = .tearing p reason deadline phase)
    (hsess : s.sessions p = some sess) : Effect s (teardown s c p sess reason deadline phase) := by
  have hsessions : ∀ phase, SameSessions s (s.setSession p (Session.tear sess phase)) := by
    intro phase
    refine sameSessions_of_update hsess rfl ?_ ?_
    · cases phase with
      | stopPreview | bye | stopFlag | close => rfl
    · cases phase with
      | stopPreview | bye | stopFlag | close => rfl
  have hothers : ∀ {u : State} {phase'}, u.calls = s.calls → ∀ k, k ≠ c →
      ((u.setPhase c phase').calls k).phase = (s.calls k).phase := by
    intro u phase' hcalls k hk
    simp [hk, hcalls]
  cases phase with
  | stopPreview =>
    refine .tore c p reason deadline .stopPreview .bye _ rfl rfl (hsessions _) hphase ?_ ?_ ?_ rfl
      rfl
    · simp [teardown]
    · exact fun _ ↦ ⟨_, rfl⟩
    · exact hothers rfl
  | bye =>
    refine .tore c p reason deadline .bye .stopFlag _ rfl rfl (hsessions _) hphase ?_ ?_ ?_ rfl
      rfl
    · simp [teardown]
    · exact fun sent ↦ ⟨sent, rfl⟩
    · exact hothers rfl
  | stopFlag =>
    refine .tore c p reason deadline .stopFlag .close _ rfl rfl (hsessions _) hphase ?_ ?_ ?_ rfl
      rfl
    · simp [teardown]
    · exact fun sent ↦ ⟨sent, rfl⟩
    · exact hothers rfl
  | close =>
    unfold teardown
    split_ifs
    · refine .closed c p reason deadline [] rfl rfl (hsessions _) hphase (Or.inl ⟨?_, rfl⟩) ?_ rfl
      · simp only [State.setPhase_calls, Function.update_self]
        trivial
      · exact hothers rfl
    · refine .closed c p reason deadline [.returned c .done] rfl rfl (hsessions _) hphase
        (Or.inr ⟨?_, rfl⟩) ?_ ?_
      · simp [State.reply]
      · exact hothers rfl
      · simp [State.reply, teardownStep]

theorem beginStream_effect {peek : Bool} (hphase : (s.calls c).phase = .ready p) :
    Effect s (beginStream s c p sess cfg peek) := by
  obtain ⟨hcurrent, hholder, hcalls, htrace, hsessions⟩ := refreshTtl_fields cfg s sess.id
  refine .passes [] (c := c) hcurrent hholder hsessions ?_ (by simp) (by simp) ?_ ?_ ?_
  · rw [List.append_nil]
    exact htrace
  · rw [hphase]
    trivial
  · simp only [beginStream, Function.update_self]
    trivial
  · intro k hk
    simp only [beginStream, Function.update_of_ne hk, hcalls]

theorem seed_effect {ok : Bool} (hphase : (s.calls c).phase = .seeding p)
    (hsess : s.sessions p = some sess) : Effect s (seed s c p sess ok) := by
  have hplain : (s.calls c).phase.Plain := by
    rw [hphase]
    trivial
  unfold seed
  split_ifs
  · exact .leave hplain hsess rfl rfl
  · refine .passes [] (c := c) rfl rfl (sameSessions_of_update hsess rfl rfl rfl) (by simp)
      (by simp) (by simp) hplain ?_ ?_
    · simp only [State.setPhase_calls, Function.update_self]
      trivial
    · intro k hk
      simp [hk]

theorem receive_effect {consumer : Option ℕ} {ok : Bool}
    (hphase : (s.calls c).phase = .streaming p consumer) (hsess : s.sessions p = some sess)
    (h : receive s c p sess consumer ok = some t) : Effect s t := by
  simp only [receive, Option.bind_eq_some_iff, Option.map_eq_some_iff] at h
  obtain ⟨k, -, ⟨n, fb⟩, -, rfl⟩ := h
  split_ifs
  · exact .setSession hsess rfl rfl
  · refine .leave ?_ hsess rfl rfl
    rw [hphase]
    trivial

theorem rollback_effect {outdoor : Outdoor} {missing : Drawn}
    (hphase : (s.calls c).phase = .starting outdoor (.rollingBack missing)) :
    Effect s (startFails (s.log (.rollbackPreview c outdoor)) c missing.error) := by
  refine .startFails [.rollbackPreview c outdoor] hphase rfl rfl rfl rfl ?_ ?_
    (fun _ ↦ List.mem_singleton.mpr rfl) (unpreviewed_singleton id)
  · exact aside_singleton trivial fun _ habout ↦ habout
  · cases missing with
    | uuid | ssrc => simp [Drawn.error]

theorem waitIdr_effect {deadline : ℕ} (hplain : (s.calls c).phase.Plain)
    (h : waitIdr s c p sess deadline = some t) : Effect s t := by
  unfold waitIdr at h
  split_ifs at h
  · obtain rfl := Option.some.inj h
    exact .reply hplain
  · obtain rfl := Option.some.inj h
    exact .setPhase hplain trivial
  · obtain rfl := Option.some.inj h
    exact .reply hplain

theorem checkReady_effect (hplain : (s.calls c).phase.Plain) :
    Effect s (checkReady s c p sess) := by
  unfold checkReady
  split_ifs
  · exact .reply hplain
  · exact .reply hplain
  · exact .setPhase hplain trivial

theorem joinThreads_effect (hplain : (s.calls c).phase.Plain) :
    Effect s (joinThreads s c sess) := by
  refine .passes [] (c := c) rfl rfl (sameSessions_of_eq rfl) (by simp [joinThreads]) (by simp)
    (by simp) hplain ?_ ?_
  · simp only [joinThreads, Function.update_self]
    trivial
  · intro k hk
    simp [joinThreads, hk]

theorem reconcile_effect {overall : ℕ} (hplain : (s.calls c).phase.Plain) :
    Effect s { s.setPhase c (.draining overall s.cleanups) with cleanups := [] } := by
  refine .passes [] (c := c) rfl rfl (sameSessions_of_eq rfl) (by simp) (by simp) (by simp) hplain
    ?_ ?_
  · simp only [State.setPhase_calls, Function.update_self]
    trivial
  · intro k hk
    simp [hk]

/-- Every step has one of the effects. -/
theorem step_effect {l : Label} (hfilled : SlotFilled s) (h : step cfg s l = some t) :
    Effect s t := by
  cases step_move h with
  | elapse d =>
    exact .aside [] rfl rfl (sameSessions_of_eq rfl) (by simp) (by simp) (by simp) fun _ ↦ rfl
  | call c op hphase => exact .setPhase (hphase ▸ trivial) trivial
  | enter c op hphase hfree => exact enter_effect hfilled hphase hfree
  | bindUdp c outdoor ok hphase => exact bindUdp_effect hphase
  | startPreview c outdoor ok hphase => exact startPreview_effect hphase
  | drawNumbers c outdoor uuid ssrc p hphase hfresh => exact drawNumbers_effect hphase hfresh
  | rollback c outdoor missing hphase => exact rollback_effect hphase
  | commit c outdoor p sess hphase => exact commit_effect hphase
  | teardown c p sess reason deadline phase hphase hsess => exact teardown_effect hphase hsess
  | reconcile c overall hphase => exact reconcile_effect (hphase ▸ trivial)
  | drained c overall handles hphase => exact .reply (hphase ▸ trivial)
  | waitIdr c p sess deadline t hphase hsess hwait =>
    exact waitIdr_effect (hphase ▸ trivial) hwait
  | checkReady c p sess hphase => exact checkReady_effect (hphase ▸ trivial)
  | beginStream c p sess peek hphase => exact beginStream_effect hphase
  | seed c p sess ok hphase hsess => exact seed_effect hphase hsess
  | receive c p sess consumer ok t hphase hsess hreceive =>
    exact receive_effect hphase hsess hreceive
  | flushFails c p sess consumer hphase hsess =>
    exact .leave (hphase ▸ trivial) hsess rfl rfl
  | hangUp c p sess consumer hphase hsess => exact .leave (hphase ▸ trivial) hsess rfl rfl
  | joinThreads c p sess hphase => exact joinThreads_effect (hphase ▸ trivial)
  | finClose c p sess hstreamed hsess => exact finClose_effect hsess
  | refreshLoop c p sess => exact refreshLoop_effect
  | packet p sess hsess => exact .setSession hsess rfl rfl
  | push p n sess hsess => exact .setSession hsess rfl rfl
  | send p sess fb hsess => exact .setSession hsess rfl rfl
  | look p sess sess' hsess hlook => exact look_effect hsess hlook
  | tick p sess now hsess => exact .setSession hsess rfl rfl
  | spawnCleanup p c sess reason hsess hmonitor hidle => exact spawnCleanup_effect hsess hidle
  | registerCleanup p c sess hsess => exact registerCleanup_effect hsess
  | guardReinvite p sess now hsess => exact guardReinvite_effect hsess
  | reinvite p sess hsess => exact reinvite_effect hsess

end Effects

/-! ### What a step leaves alone -/

section Frame

variable {cfg : Config} {s t : State} {l : Label} {c k p : ℕ} {sess : Session}

theorem setPhase_others {phase : Phase} (hk : k ≠ c) :
    (s.setPhase c phase).calls k = s.calls k :=
  Function.update_of_ne hk _ _

theorem reply_others {reply : Reply} (hk : k ≠ c) : (s.reply c reply).calls k = s.calls k :=
  setPhase_others hk

/-- A method that empties the slot moves its own call only. -/
theorem takeCurrent_others {op : Op} {key : ℕ → Session → Bool} {reason : Reason} {deadline : ℕ}
    {otherwise : State} (hk : k ≠ c) (hotherwise : otherwise.calls k = s.calls k) :
    (takeCurrent s c op key reason deadline otherwise).calls k = s.calls k := by
  unfold takeCurrent
  split
  · split_ifs
    · exact setPhase_others hk
    · exact hotherwise
  · exact hotherwise

theorem enter_others {op : Op} (hk : k ≠ c) : (enter cfg s c op).calls k = s.calls k := by
  cases op with
  | start outdoor =>
    simp only [enter, start]
    split
    · rename_i p sess hfound
      obtain ⟨-, hsess⟩ := State.currentSession_eq_some.mp hfound
      split_ifs
      · obtain ⟨-, -, hcalls, -⟩ := reuse_fields cfg hsess
        rw [reply_others hk, hcalls]
        rfl
      · exact reply_others hk
    · exact setPhase_others hk
  | stop uri => exact takeCurrent_others hk (reply_others hk)
  | stopById id => exact takeCurrent_others hk (reply_others hk)
  | refreshTtl id =>
    obtain ⟨-, -, hcalls, -⟩ :=
      refreshTtl_fields cfg (s.log (.entered c (.refreshTtl id) s.current)) id
    simp only [enter]
    rw [reply_others hk, hcalls]
    rfl
  | stopInternal q reason => exact takeCurrent_others hk (reply_others hk)
  | shutdown overall => exact takeCurrent_others hk (setPhase_others hk)
  | stream id =>
    simp only [enter, stream]
    split
    · split_ifs
      · exact setPhase_others hk
      · exact reply_others hk
    · exact reply_others hk

theorem startFails_others {error : StartError} (hk : k ≠ c) :
    (startFails s c error).calls k = s.calls k :=
  reply_others hk

theorem teardown_others {reason : Reason} {deadline : ℕ} {phase : TeardownPhase} (hk : k ≠ c) :
    (teardown s c p sess reason deadline phase).calls k = s.calls k := by
  cases phase with
  | stopPreview | bye | stopFlag => exact setPhase_others hk
  | close =>
    simp only [teardown]
    split_ifs
    · exact setPhase_others hk
    · exact reply_others hk

theorem leave_others {consumer : Option ℕ} (hk : k ≠ c) :
    (leave s c p sess consumer).calls k = s.calls k :=
  setPhase_others hk

theorem bindUdp_others {outdoor : Outdoor} {ok : Bool} (hk : k ≠ c) :
    (bindUdp s c outdoor ok).calls k = s.calls k := by
  unfold bindUdp
  split_ifs
  · exact setPhase_others hk
  · exact startFails_others hk

theorem startPreview_others {outdoor : Outdoor} {ok : Bool} (hk : k ≠ c) :
    (startPreview s c outdoor ok).calls k = s.calls k := by
  unfold startPreview
  split_ifs
  · exact setPhase_others hk
  · exact startFails_others hk

theorem drawNumbers_others {outdoor : Outdoor} {uuid : Option Str} {ssrc : Option UInt32}
    (hk : k ≠ c) : (drawNumbers cfg s c outdoor uuid ssrc p).calls k = s.calls k := by
  unfold drawNumbers
  split
  · exact setPhase_others hk
  · exact setPhase_others hk
  · exact setPhase_others hk

theorem waitIdr_others {deadline : ℕ} (h : waitIdr s c p sess deadline = some t) (hk : k ≠ c) :
    t.calls k = s.calls k := by
  unfold waitIdr at h
  split_ifs at h
  · obtain rfl := Option.some.inj h
    exact reply_others hk
  · obtain rfl := Option.some.inj h
    exact setPhase_others hk
  · obtain rfl := Option.some.inj h
    exact reply_others hk

theorem checkReady_others (hk : k ≠ c) : (checkReady s c p sess).calls k = s.calls k := by
  unfold checkReady
  split_ifs
  · exact reply_others hk
  · exact reply_others hk
  · exact setPhase_others hk

theorem beginStream_others {peek : Bool} (hk : k ≠ c) :
    (beginStream s c p sess cfg peek).calls k = s.calls k := by
  obtain ⟨-, -, hcalls, -⟩ := refreshTtl_fields cfg s sess.id
  simp only [beginStream, Function.update_of_ne hk, hcalls]

theorem seed_others {ok : Bool} (hk : k ≠ c) : (seed s c p sess ok).calls k = s.calls k := by
  unfold seed
  split_ifs
  · exact leave_others hk
  · exact setPhase_others hk

theorem receive_others {consumer : Option ℕ} {ok : Bool}
    (h : receive s c p sess consumer ok = some t) (hk : k ≠ c) : t.calls k = s.calls k := by
  simp only [receive, Option.bind_eq_some_iff, Option.map_eq_some_iff] at h
  obtain ⟨j, -, ⟨n, fb⟩, -, rfl⟩ := h
  split_ifs
  · rfl
  · exact leave_others hk

theorem joinThreads_others (hk : k ≠ c) : (joinThreads s c sess).calls k = s.calls k :=
  Function.update_of_ne hk _ _

/-- A step moves the call that makes it; of the others, only the clean-up that a monitor spawns. -/
theorem step_phases (h : step cfg s l = some t) (k : ℕ) :
    l.mover = .call k ∨ (t.calls k).phase = (s.calls k).phase ∨
      ∃ p reason, l = .spawnCleanup p k ∧ (s.calls k).phase = .idle ∧
        (t.calls k).phase = .calling (.stopInternal p reason) := by
  by_cases hcall : l.mover = .call k
  · exact Or.inl hcall
  refine Or.inr ?_
  -- A move of another call leaves this one as it is.
  have hother : ∀ {c : ℕ}, l.mover = .call c → (k ≠ c → t.calls k = s.calls k) →
      (t.calls k).phase = (s.calls k).phase := by
    intro c hmover hothers
    rw [hothers fun hk ↦ hcall (hk ▸ hmover)]
  cases step_move h with
  | elapse d => exact Or.inl rfl
  | call c op => exact Or.inl (hother rfl setPhase_others)
  | enter c op => exact Or.inl (hother rfl enter_others)
  | bindUdp c outdoor ok => exact Or.inl (hother rfl bindUdp_others)
  | startPreview c outdoor ok => exact Or.inl (hother rfl startPreview_others)
  | drawNumbers c outdoor uuid ssrc p => exact Or.inl (hother rfl drawNumbers_others)
  | rollback c outdoor missing => exact Or.inl (hother rfl startFails_others)
  | commit c outdoor p sess => exact Or.inl (hother rfl reply_others)
  | teardown c p sess reason deadline phase => exact Or.inl (hother rfl teardown_others)
  | reconcile c overall => exact Or.inl (hother rfl setPhase_others)
  | drained c overall handles => exact Or.inl (hother rfl reply_others)
  | waitIdr c p sess deadline t hphase hsess hwait =>
    exact Or.inl (hother rfl (waitIdr_others hwait))
  | checkReady c p sess => exact Or.inl (hother rfl checkReady_others)
  | beginStream c p sess peek => exact Or.inl (hother rfl beginStream_others)
  | seed c p sess ok => exact Or.inl (hother rfl seed_others)
  | receive c p sess consumer ok t hphase hsess hreceive =>
    exact Or.inl (hother rfl (receive_others hreceive))
  | flushFails c p sess consumer => exact Or.inl (hother rfl leave_others)
  | hangUp c p sess consumer => exact Or.inl (hother rfl leave_others)
  | joinThreads c p sess => exact Or.inl (hother rfl joinThreads_others)
  | finClose c p sess => exact Or.inl (finClose_phases k)
  | refreshLoop c p sess => exact Or.inl (refreshLoop_phases k)
  | packet p | push p | send p | look p | tick p | registerCleanup p | guardReinvite p
  | reinvite p => exact Or.inl rfl
  | spawnCleanup p c sess reason hsess hmonitor hidle =>
    by_cases hk : k = c
    · subst hk
      exact Or.inr ⟨p, reason, rfl, hidle, by simp [spawnCleanup]⟩
    · exact Or.inl (by simp [spawnCleanup, hk])

/-- The calls from some number on have not been made. -/
def BoundedCalls (s : State) : Prop :=
  ∃ bound, ∀ k, bound ≤ k → (s.calls k).phase = .idle

theorem step_boundedCalls (h : BoundedCalls s) (hstep : step cfg s l = some t) :
    BoundedCalls t := by
  obtain ⟨bound, hidle⟩ := h
  -- The step moves one call at most.
  have hone : ∃ c, ∀ k, k ≠ c → (s.calls k).phase = .idle → (t.calls k).phase = .idle := by
    cases hmover : l.mover with
    | call c =>
      refine ⟨c, fun k hk hsame ↦ ?_⟩
      rcases step_phases hstep k with hcall | hkept | ⟨p, reason, rfl, -, -⟩
      · exact absurd (Mover.call.inj (hmover.symm.trans hcall)).symm hk
      · rw [hkept, hsame]
      · exact absurd hmover (by simp [Label.mover])
    | clock d | helper d | session d =>
      by_cases hspawn : ∃ p c, l = .spawnCleanup p c
      · obtain ⟨p, c, rfl⟩ := hspawn
        refine ⟨c, fun k hk hsame ↦ ?_⟩
        rcases step_phases hstep k with hcall | hkept | ⟨q, reason, hspawned, -, -⟩
        · rw [hmover] at hcall
          exact absurd hcall (by simp)
        · rw [hkept, hsame]
        · exact absurd (Label.spawnCleanup.inj hspawned).2.symm hk
      · refine ⟨0, fun k _ hsame ↦ ?_⟩
        rcases step_phases hstep k with hcall | hkept | ⟨q, reason, hspawned, -, -⟩
        · rw [hmover] at hcall
          exact absurd hcall (by simp)
        · rw [hkept, hsame]
        · exact absurd ⟨q, k, hspawned⟩ hspawn
  obtain ⟨c, hothers⟩ := hone
  exact ⟨max bound (c + 1), fun k hk ↦ hothers k (by omega) (hidle k (by omega))⟩

theorem reachable_boundedCalls (hreach : Reachable (step cfg) .init s) : BoundedCalls s :=
  hreach.invariant ⟨0, fun _ _ ↦ rfl⟩ step_boundedCalls

/-- A call that is under way is moved by its own moves only. -/
theorem step_others (h : step cfg s l = some t) (hmover : l.mover ≠ .call k)
    (hbusy : (s.calls k).phase ≠ .idle) : (t.calls k).phase = (s.calls k).phase := by
  rcases step_phases h k with hcall | hsame | ⟨p, reason, -, hidle, -⟩
  · exact absurd hcall hmover
  · exact hsame
  · exact absurd hidle hbusy

end Frame

end DoorAccess.Video.Manager
