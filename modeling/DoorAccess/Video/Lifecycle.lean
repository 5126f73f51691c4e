import DoorAccess.Video.Slot

/-!
# The life of a session

What the invariant of the slot means for the sessions and for the callers. `AnswerInv` follows the
answers of `start` through all interleavings, and `session_lifecycle` puts the two together: one
removal, one teardown by the call that removed, keys that are respected, and the answers of `start`
as the slot was when it looked.
-/

set_option autoImplicit false
set_option relaxedAutoImplicit false

namespace DoorAccess.Video.Manager

open Transition Codec

/-! ### The answers of `start` -/

/-- A call of which the trace says nothing yet about a `start`. -/
def Phase.Unanswered (phase : Phase) : Prop :=
  phase.Plain ∨ ∃ p reason deadline phase', phase = .tearing p reason deadline phase'

theorem Phase.Unanswered.ne_starting {phase : Phase} (h : phase.Unanswered) (outdoor : Outdoor)
    (phase' : StartPhase) : phase ≠ .starting outdoor phase' := by
  rintro rfl
  rcases h with hplain | ⟨_, _, _, _, heq⟩
  · exact hplain
  · cases heq

theorem Phase.Unanswered.ne_returned {phase : Phase} (h : phase.Unanswered) (reply : Reply) :
    phase ≠ .returned reply := by
  rintro rfl
  rcases h with hplain | ⟨_, _, _, _, heq⟩
  · exact hplain
  · cases heq

/-- What the trace says about the answer of each call to a `start`. -/
structure AnswerInv (s : State) : Prop where
  unanswered : ∀ c, (s.calls c).phase.Unanswered → ∀ e ∈ s.trace, ¬ e.About c
  starting : ∀ c outdoor phase, (s.calls c).phase = .starting outdoor phase →
    ∀ e ∈ s.trace, e.About c → e = .entered c (.start outdoor) none
  returned : ∀ c reply, (s.calls c).phase = .returned reply →
    (∀ r, .returned c r ∈ s.trace → r = reply) ∧
    ∀ outdoor current, .entered c (.start outdoor) current ∈ s.trace →
      Answers s outdoor current reply

/-- What a step that logs `evs` does to the answer of a call. -/
inductive AnswerMove (s t : State) (evs : List Event) (c : ℕ) : Prop
  | same (hphase : (t.calls c).phase = (s.calls c).phase) (hevs : ∀ e ∈ evs, ¬ e.About c)
  | waits (hs : (s.calls c).phase.Unanswered) (ht : (t.calls c).phase.Unanswered)
      (hevs : ∀ e ∈ evs, ¬ e.About c)
  | claims (outdoor : Outdoor) (phase : StartPhase) (hs : (s.calls c).phase.Unanswered)
      (ht : (t.calls c).phase = .starting outdoor phase)
      (hevs : ∀ e ∈ evs, e.About c → e = .entered c (.start outdoor) none)
  | advances (outdoor : Outdoor) (phase phase' : StartPhase)
      (hs : (s.calls c).phase = .starting outdoor phase)
      (ht : (t.calls c).phase = .starting outdoor phase') (hevs : ∀ e ∈ evs, ¬ e.About c)
  | answers (reply : Reply) (hs : (s.calls c).phase.Unanswered)
      (ht : (t.calls c).phase = .returned reply) (hreturned : ∀ r, .returned c r ∈ evs → r = reply)
      (hentered : ∀ outdoor current, .entered c (.start outdoor) current ∈ evs →
        Answers t outdoor current reply)
  | completes (outdoor : Outdoor) (phase : StartPhase) (reply : Reply)
      (hs : (s.calls c).phase = .starting outdoor phase)
      (ht : (t.calls c).phase = .returned reply)
      (hreply : ∀ active requested, reply ≠ .failed (.conflict active requested))
      (hevs : ∀ e ∈ evs, e.About c → e = .returned c reply)

section AnswerInv

variable {cfg : Config} {s t : State} {evs : List Event} {c : ℕ}

theorem Answers.mono {outdoor : Outdoor} {current : Option ℕ} {reply : Reply}
    (h : Answers s outdoor current reply) (hsessions : SameSessions s t) :
    Answers t outdoor current reply := by
  cases current with
  | none => exact h
  | some p =>
    obtain ⟨sess, hsess, hreply⟩ := h
    obtain ⟨sess', hsess', hid, houtdoor⟩ := hsessions p sess hsess
    refine ⟨sess', hsess', ?_⟩
    rw [hid, houtdoor]
    exact hreply

theorem CallMove.answerMove (h : CallMove s t evs c) : AnswerMove s t evs c := by
  cases h with
  | same hphase hevs => exact .same hphase hevs
  | pass hs ht hevs => exact .waits (Or.inl hs) (Or.inl ht) hevs
  | answer reply hs ht hreturned hentered => exact .answers reply (Or.inl hs) ht hreturned hentered

/-- A step of one call among others that it does not mention. -/
theorem answerMove_of_others {c : ℕ} (hc : AnswerMove s t evs c)
    (hothers : ∀ k, k ≠ c → (t.calls k).phase = (s.calls k).phase)
    (hevs : ∀ e ∈ evs, ∀ k, k ≠ c → ¬ e.About k) (k : ℕ) : AnswerMove s t evs k := by
  by_cases hk : k = c
  · rw [hk]
    exact hc
  · exact .same (hothers k hk) fun e he ↦ hevs e he k hk

theorem Effect.answerMove (h : Effect s t) :
    SameSessions s t ∧ ∃ evs, t.trace = s.trace ++ evs ∧ ∀ k, AnswerMove s t evs k := by
  cases h with
  | quiet evs _ _ hsessions htrace _ hcalls =>
    exact ⟨hsessions, evs, htrace, fun k ↦ (hcalls k).answerMove⟩
  | claimed c outdoor _ _ _ _ hsessions hplain hphase hothers htrace =>
    refine ⟨sameSessions_of_eq hsessions, _, htrace, answerMove_of_others ?_ hothers ?_⟩
    · refine .claims outdoor .binding (Or.inl hplain) hphase ?_
      intro e he _
      exact List.mem_singleton.mp he
    · intro e he k hk habout
      rw [List.mem_singleton.mp he] at habout
      exact hk habout.symm
  | advanced c outdoor phase phase' evs _ _ hsessions hphase hphase' _ hothers htrace hevs =>
    refine ⟨hsessions, evs, htrace, answerMove_of_others ?_ hothers ?_⟩
    · exact .advances outdoor phase phase' hphase hphase' fun e he ↦ (hevs e he).2 c
    · exact fun e he k _ ↦ (hevs e he).2 k
  | failed c outdoor phase error evs _ _ hsessions hphase hphase' herror hothers htrace hevs =>
    refine ⟨sameSessions_of_eq hsessions, _, htrace, answerMove_of_others ?_ hothers ?_⟩
    · refine .completes outdoor phase (.failed error) hphase hphase' ?_ ?_
      · intro active requested heq
        exact herror active requested (Reply.failed.inj heq)
      · intro e he habout
        rcases List.mem_append.mp he with he | he
        · exact absurd habout ((hevs e he).2 c)
        · exact List.mem_singleton.mp he
    · intro e he k hk habout
      rcases List.mem_append.mp he with he | he
      · exact (hevs e he).2 k habout
      · rw [List.mem_singleton.mp he] at habout
        exact hk habout.symm
  | committed c outdoor p info _ _ hsessions hphase hphase' hothers htrace =>
    refine ⟨sameSessions_of_eq hsessions, _, htrace, answerMove_of_others ?_ hothers ?_⟩
    · refine .completes outdoor (.spawned p) (.started info) hphase hphase' (by simp) ?_
      intro e he habout
      rcases List.mem_pair.mp he with rfl | rfl
      · exact habout.elim
      · rfl
    · intro e he k hk habout
      rcases List.mem_pair.mp he with rfl | rfl
      · exact habout
      · exact hk habout.symm
  | removed c op p sess reason deadline _ _ htakes _ _ hsessions hplain hphase hothers htrace =>
    -- The event of the entry is not that of a `start`, which takes nothing out.
    have hnone : ∀ e ∈ [Event.entered c op (some p), .removed c op p], ∀ k, ¬ e.About k := by
      intro e he k habout
      rcases List.mem_pair.mp he with rfl | rfl
      · cases op with
        | start => exact htakes
        | _ => exact habout
      · exact habout
    refine ⟨sameSessions_of_eq hsessions, _, htrace, answerMove_of_others ?_ hothers ?_⟩
    · exact .waits (Or.inl hplain) (Or.inr ⟨_, _, _, _, hphase⟩) fun e he ↦ hnone e he c
    · exact fun e he k _ ↦ hnone e he k
  | tore c p reason deadline phase phase' st _ _ hsessions hphase hphase' _ hothers htrace =>
    have hnone : ∀ e ∈ [Event.tore c p st], ∀ k, ¬ e.About k := by
      intro e he k habout
      rw [List.mem_singleton.mp he] at habout
      exact habout
    refine ⟨hsessions, _, htrace, answerMove_of_others ?_ hothers ?_⟩
    · exact .waits (Or.inr ⟨_, _, _, _, hphase⟩) (Or.inr ⟨_, _, _, _, hphase'⟩)
        fun e he ↦ hnone e he c
    · exact fun e he k _ ↦ hnone e he k
  | closed c p reason deadline evs _ _ hsessions hphase hphase' hothers htrace =>
    have hunanswered : (s.calls c).phase.Unanswered := Or.inr ⟨_, _, _, _, hphase⟩
    refine ⟨hsessions, _, htrace, answerMove_of_others ?_ hothers ?_⟩
    · rcases hphase' with ⟨hplain, rfl⟩ | ⟨hreturned, rfl⟩
      · refine .waits hunanswered (Or.inl hplain) ?_
        intro e he habout
        rw [List.mem_singleton.mp he] at habout
        exact habout
      · refine .answers .done hunanswered hreturned ?_ ?_
        · intro r hr
          simpa using hr
        · intro outdoor current he
          exact absurd he (by simp)
    · intro e he k hk habout
      rcases List.mem_cons.mp he with rfl | he
      · exact habout
      · rcases hphase' with ⟨-, rfl⟩ | ⟨-, rfl⟩
        · exact absurd he List.not_mem_nil
        · rw [List.mem_singleton.mp he] at habout
          exact hk habout.symm

theorem answerInv_init : AnswerInv .init := by
  constructor
  · exact fun c _ e he ↦ absurd he List.not_mem_nil
  · exact fun c outdoor phase _ e he ↦ absurd he List.not_mem_nil
  · intro c reply hphase
    exact absurd hphase (by simp [State.init])

theorem AnswerInv.step (h : AnswerInv s) (hsessions : SameSessions s t)
    (htrace : t.trace = s.trace ++ evs) (hmoves : ∀ k, AnswerMove s t evs k) : AnswerInv t := by
  have hsplit : ∀ {e}, e ∈ t.trace → e ∈ s.trace ∨ e ∈ evs := by
    intro e he
    rw [htrace] at he
    exact List.mem_append.mp he
  constructor
  · intro c hunanswered e he habout
    cases hmoves c with
    | same hphase hevs =>
      rw [hphase] at hunanswered
      rcases hsplit he with he | he
      · exact h.unanswered c hunanswered e he habout
      · exact hevs e he habout
    | waits hs _ hevs =>
      rcases hsplit he with he | he
      · exact h.unanswered c hs e he habout
      · exact hevs e he habout
    | claims _ _ _ ht => exact hunanswered.ne_starting _ _ ht
    | advances _ _ _ _ ht => exact hunanswered.ne_starting _ _ ht
    | answers _ _ ht => exact hunanswered.ne_returned _ ht
    | completes _ _ _ _ ht => exact hunanswered.ne_returned _ ht
  · intro c outdoor phase hphase e he habout
    cases hmoves c with
    | same hphase' hevs =>
      rw [hphase'] at hphase
      rcases hsplit he with he | he
      · exact h.starting c outdoor phase hphase e he habout
      · exact absurd habout (hevs e he)
    | waits _ ht => exact absurd hphase (ht.ne_starting _ _)
    | claims outdoor' _ hs ht hevs =>
      rw [ht] at hphase
      obtain ⟨rfl, -⟩ := Phase.starting.inj hphase
      rcases hsplit he with he | he
      · exact absurd habout (h.unanswered c hs e he)
      · exact hevs e he habout
    | advances outdoor' _ _ hs ht hevs =>
      rw [ht] at hphase
      obtain ⟨rfl, -⟩ := Phase.starting.inj hphase
      rcases hsplit he with he | he
      · exact h.starting c outdoor' _ hs e he habout
      · exact absurd habout (hevs e he)
    | answers _ _ ht => exact absurd (ht.symm.trans hphase) (by simp)
    | completes _ _ _ _ ht => exact absurd (ht.symm.trans hphase) (by simp)
  · intro c reply hphase
    cases hmoves c with
    | same hphase' hevs =>
      rw [hphase'] at hphase
      obtain ⟨hreturned, hentered⟩ := h.returned c reply hphase
      refine ⟨fun r hr ↦ ?_, fun outdoor current he ↦ ?_⟩
      · rcases hsplit hr with hr | hr
        · exact hreturned r hr
        · exact absurd rfl (hevs _ hr)
      · rcases hsplit he with he | he
        · exact (hentered outdoor current he).mono hsessions
        · exact absurd rfl (hevs _ he)
    | waits _ ht => exact absurd hphase (ht.ne_returned _)
    | claims _ _ _ ht => exact absurd (ht.symm.trans hphase) (by simp)
    | advances _ _ _ _ ht => exact absurd (ht.symm.trans hphase) (by simp)
    | answers reply' hs ht hreturned hentered =>
      rw [ht] at hphase
      obtain rfl := Phase.returned.inj hphase
      refine ⟨fun r hr ↦ ?_, fun outdoor current he ↦ ?_⟩
      · rcases hsplit hr with hr | hr
        · exact absurd rfl (h.unanswered c hs _ hr)
        · exact hreturned r hr
      · rcases hsplit he with he | he
        · exact absurd rfl (h.unanswered c hs _ he)
        · exact hentered outdoor current he
    | completes outdoor' _ reply' hs ht hreply hevs =>
      rw [ht] at hphase
      obtain rfl := Phase.returned.inj hphase
      refine ⟨fun r hr ↦ ?_, fun outdoor current he ↦ ?_⟩
      · rcases hsplit hr with hr | hr
        · cases h.starting c outdoor' _ hs _ hr rfl
        · cases hevs _ hr rfl
          rfl
      · rcases hsplit he with he | he
        · cases h.starting c outdoor' _ hs _ he rfl
          exact hreply
        · cases hevs _ he rfl

theorem reachable_answerInv (hreach : Reachable (step cfg) .init s) : AnswerInv s := by
  refine hreach.invariant_of answerInv_init fun hreach hinv hstep ↦ ?_
  obtain ⟨hsessions, evs, htrace, hmoves⟩ :=
    (step_effect (reachable_slotInv hreach).filled hstep).answerMove
  exact hinv.step hsessions htrace hmoves

theorem AnswerInv.answers (h : AnswerInv s) {outdoor : Outdoor} {current : Option ℕ} {reply : Reply}
    (hentered : .entered c (.start outdoor) current ∈ s.trace)
    (hreturned : .returned c reply ∈ s.trace) : Answers s outdoor current reply := by
  by_cases hunanswered : (s.calls c).phase.Unanswered
  · exact absurd rfl (h.unanswered c hunanswered _ hreturned)
  · cases hphase : (s.calls c).phase with
    | starting outdoor' phase => cases h.starting c outdoor' phase hphase _ hreturned rfl
    | returned reply' =>
      obtain ⟨hsame, hanswers⟩ := h.returned c reply' hphase
      rw [hsame reply hreturned]
      exact hanswers outdoor current hentered
    | tearing p reason deadline phase =>
      exact absurd (Or.inr ⟨p, reason, deadline, phase, hphase⟩) hunanswered
    | _ =>
      rw [hphase] at hunanswered
      exact absurd (Or.inl trivial) hunanswered

end AnswerInv

/-! ### The life of a session -/

section Lifecycle

variable {cfg : Config} {s : State}

theorem SlotStatus.removers_length {p : ℕ} (h : SlotStatus s p) :
    (removers p s.trace).length ≤ 1 := by
  cases h with
  | outside _ _ hnil =>
    rw [hnil]
    exact Nat.zero_le 1
  | current _ _ hnil =>
    rw [hnil]
    exact Nat.zero_le 1
  | tearing _ _ _ _ _ _ _ hone =>
    rw [hone]
    exact Nat.le_refl 1
  | torn _ _ _ _ hone =>
    rw [hone]
    exact Nat.le_refl 1

theorem TeardownPhase.before_initial (phase : TeardownPhase) (sent : Bool) :
    phase.before sent <+: wholeTeardown sent := by
  cases phase with
  | stopPreview => exact ⟨[.stopPreview sent, .bye, .stopFlag, .close], rfl⟩
  | bye => exact ⟨[.bye, .stopFlag, .close], rfl⟩
  | stopFlag => exact ⟨[.stopFlag, .close], rfl⟩
  | close => exact ⟨[.close], rfl⟩

theorem map_snd_mk (c : ℕ) (steps : List TeardownStep) :
    (steps.map (Prod.mk c)).map Prod.snd = steps := by
  rw [List.map_map]
  exact List.map_id steps

/-- All actions of a teardown are those of one call, the one that took the session out, and they are
an initial part of one whole teardown. -/
theorem SlotStatus.tornBy_eq {p : ℕ} (h : SlotStatus s p) :
    ∃ sent, (tornBy p s.trace).map Prod.snd <+: wholeTeardown sent ∧
      ∀ c st, (c, st) ∈ tornBy p s.trace → removers p s.trace = [c] := by
  cases h with
  | outside _ _ _ hnil =>
    refine ⟨true, by simp [hnil], ?_⟩
    simp [hnil]
  | current _ _ _ hnil =>
    refine ⟨true, by simp [hnil], ?_⟩
    simp [hnil]
  | tearing c _ _ phase sent _ _ hone _ htorn =>
    refine ⟨sent, ?_, ?_⟩
    · rw [htorn, map_snd_mk]
      exact phase.before_initial sent
    · intro k st hmem
      rw [htorn] at hmem
      obtain ⟨_, _, heq⟩ := List.mem_map.mp hmem
      rw [hone, ← (Prod.mk.inj heq).1]
  | torn c sent _ _ hone _ htorn =>
    refine ⟨sent, ⟨[], ?_⟩, ?_⟩
    · rw [htorn, map_snd_mk, List.append_nil]
    · intro k st hmem
      rw [htorn] at hmem
      obtain ⟨_, _, heq⟩ := List.mem_map.mp hmem
      rw [hone, ← (Prod.mk.inj heq).1]

/-- **The life of a session, over all interleavings.** A session is taken out of the slot at most
once. Every action of its teardown is one of the call that took it out, and together they are an
initial part of one teardown: 708 (or its omission), BYE, stop flag, close. A session that was in
the slot and is no longer was taken out by a call that is inside its teardown or has finished it.
Each method takes out only what its key allows: `stop` a session of its URI, `stop_by_id` one of its
id, and so no other session when the ids drawn are distinct, and `stop_internal` the very session it
was given. A `start` answers with a conflict exactly when it finds a session of another URI in the
slot, and with the id of the session it finds when that is of its own. -/
theorem session_lifecycle (hreach : Reachable (step cfg) .init s) :
    (∀ p, (removers p s.trace).length ≤ 1) ∧
    (∀ c p st, .tore c p st ∈ s.trace → removers p s.trace = [c]) ∧
    (∀ p, ∃ sent, (tornBy p s.trace).map Prod.snd <+: wholeTeardown sent) ∧
    (∀ p, Committed p s.trace → s.current ≠ some p → ∃ c sent, removers p s.trace = [c] ∧
      ((∃ reason deadline phase, (s.calls c).phase = .tearing p reason deadline phase ∧
          tornBy p s.trace = (phase.before sent).map (Prod.mk c)) ∨
        tornBy p s.trace = (wholeTeardown sent).map (Prod.mk c))) ∧
    (∀ c op p, .removed c op p ∈ s.trace → ∃ sess, s.sessions p = some sess ∧ op.Takes p sess) ∧
    ((∀ p q sessp sessq, s.sessions p = some sessp → s.sessions q = some sessq →
        sessp.id = sessq.id → p = q) →
      ∀ c id p q sess, .removed c (.stopById id) p ∈ s.trace → s.sessions q = some sess →
        sess.id = id → p = q) ∧
    ∀ c outdoor current reply, .entered c (.start outdoor) current ∈ s.trace →
      .returned c reply ∈ s.trace →
      ((∃ active requested, reply = .failed (.conflict active requested)) ↔
        ∃ p sess, current = some p ∧ s.sessions p = some sess ∧
          sess.outdoor.uri ≠ outdoor.uri) ∧
      ∀ p sess, current = some p → s.sessions p = some sess → sess.outdoor.uri = outdoor.uri →
        ∃ info, reply = .started info ∧ info.id = sess.id := by
  have hslot := reachable_slotInv hreach
  have hanswer := reachable_answerInv hreach
  refine ⟨fun p ↦ (hslot.status p).removers_length, ?_, ?_, ?_, hslot.keys, ?_, ?_⟩
  · intro c p st hmem
    obtain ⟨sent, -, hby⟩ := (hslot.status p).tornBy_eq
    exact hby c st (mem_tornBy.mpr hmem)
  · intro p
    obtain ⟨sent, hinitial, -⟩ := (hslot.status p).tornBy_eq
    exact ⟨sent, hinitial⟩
  · intro p hcommitted hnot
    cases hslot.status p with
    | outside _ hnotCommitted => exact absurd hcommitted hnotCommitted
    | current hcurrent => exact absurd hcurrent hnot
    | tearing c reason deadline phase sent _ _ hone hphase htorn =>
      exact ⟨c, sent, hone, Or.inl ⟨reason, deadline, phase, hphase, htorn⟩⟩
    | torn c sent _ _ hone _ htorn => exact ⟨c, sent, hone, Or.inr htorn⟩
  · intro hdistinct c id p q sess hremoved hsess hid
    obtain ⟨sessp, hsessp, htakes⟩ := hslot.keys c _ p hremoved
    have hidp : sessp.id = id := htakes
    exact hdistinct p q sessp sess hsessp hsess (hidp.trans hid.symm)
  · intro c outdoor current reply hentered hreturned
    have hanswers := hanswer.answers hentered hreturned
    cases current with
    | none =>
      refine ⟨iff_of_false ?_ ?_, ?_⟩
      · rintro ⟨active, requested, heq⟩
        exact hanswers active requested heq
      · rintro ⟨p, sess, hnone, -⟩
        exact absurd hnone (by simp)
      · intro p sess hnone
        exact absurd hnone (by simp)
    | some p =>
      obtain ⟨sess, hsess, hreply⟩ := hanswers
      by_cases huri : sess.outdoor.uri = outdoor.uri
      · rw [if_pos huri] at hreply
        obtain ⟨info, hstarted, hid⟩ := hreply
        refine ⟨iff_of_false ?_ ?_, ?_⟩
        · rintro ⟨active, requested, heq⟩
          rw [hstarted] at heq
          cases heq
        · rintro ⟨q, sess', hq, hsess', hne⟩
          rw [← Option.some.inj hq, hsess] at hsess'
          exact hne (Option.some.inj hsess' ▸ huri)
        · intro q sess' hq hsess' _
          rw [← Option.some.inj hq, hsess] at hsess'
          exact ⟨info, hstarted, Option.some.inj hsess' ▸ hid⟩
      · rw [if_neg huri] at hreply
        refine ⟨iff_of_true ⟨_, _, hreply⟩ ⟨p, sess, rfl, hsess, huri⟩, ?_⟩
        intro q sess' hq hsess' heq
        rw [← Option.some.inj hq, hsess] at hsess'
        exact absurd (Option.some.inj hsess' ▸ heq) huri

/-- An outdoor station. -/
def gate : Outdoor := ⟨ascii "sip:gate", ascii "Gate", ascii "10.0.0.2", 5060, #v[0, 1, 2, 3]⟩

def defaultConfig : Config := ⟨0, 0, 0, 0, 0, 0, 0, 5000⟩

/-- The moves with which the call `c` starts the session `p` under the given id. -/
def startMoves (c : ℕ) (id : Str) (p : ℕ) : List Label :=
  [.call c (.start gate), .enter c, .bindUdp c true, .startPreview c true,
    .drawNumbers c (some id) (some 7) p, .commit c]

/-- A `stop` and a `stop_by_id` race for one session. The `stop` wins, and before the other gets
hold of the slot a second session is started for the same station. -/
def racingStops : List Label :=
  startMoves 0 (ascii "a") 0 ++
    [.call 1 (.stop gate.uri), .call 2 (.stopById (ascii "a")), .enter 1, .teardown 1,
      .teardown 1] ++
    startMoves 3 (ascii "b") 1 ++ [.enter 2, .teardown 1, .teardown 1]

theorem session_lifecycle_racingStops :
    ∃ s, Reachable (step defaultConfig) .init s ∧ s.current = some 1 ∧
      (s.calls 2).phase = .returned .done ∧ .tore 1 0 .close ∈ s.trace ∧
      removers 0 s.trace = [1] ∧ (removers 1 s.trace).length ≤ 1 := by
  have hrun : ((exec (step defaultConfig) .init racingStops).map fun s ↦
      (s.current, (s.calls 2).phase, decide (Event.tore 1 0 .close ∈ s.trace))) =
        some (some 1, .returned .done, true) := by
    decide
  obtain ⟨s, hs, hend⟩ := Option.map_eq_some_iff.mp hrun
  simp only [Prod.mk.injEq, decide_eq_true_eq] at hend
  obtain ⟨hcurrent, hphase, hclose⟩ := hend
  have hreach : Reachable (step defaultConfig) .init s := ⟨racingStops, hs⟩
  obtain ⟨honce, htore, -⟩ := session_lifecycle hreach
  exact ⟨s, hreach, hcurrent, hphase, hclose, htore 1 0 .close hclose, honce 1⟩

end Lifecycle

end DoorAccess.Video.Manager
