import DoorAccess.Video.Effect

/-!
# Who logs what

Every event that a step adds to the trace is one of the thread that moves: a call logs its own
events, its FIN watcher the close of the buffer, and a monitor the re-invite of its session
(`step_logs`). So the events of a call are those of its own moves (`step_own`).
-/

set_option autoImplicit false
set_option relaxedAutoImplicit false

namespace DoorAccess.Video.Manager

/-- The call that an event is about; a re-invite is a matter of its session. -/
def Event.author : Event → Option ℕ
  | .entered c _ _ | .bound c _ | .startPreview c _ _ | .drew c _ _ | .dropSocket c
  | .rollbackPreview c _ | .committed c _ | .removed c _ _ | .tore c _ _ | .finClosed c _
  | .left c _ | .returned c _ => some c
  | .reinvited _ => none

def Event.isFin : Event → Bool
  | .finClosed _ _ => true
  | _ => false

/-- An event of the call `c` itself, not of its FIN watcher. -/
def Event.ByCall (c : ℕ) (e : Event) : Prop :=
  e.author = some c ∧ e.isFin = false

/-- What a move may log. -/
def Mover.Logs : Mover → Event → Prop
  | .clock _, _ => False
  | .call c, e => e.ByCall c
  | .helper c, e => ∃ p, e = .finClosed c p
  | .session p, e => e = .reinvited p

/-- The events added between two states. -/
def Adds (P : Event → Prop) (s t : State) : Prop :=
  ∃ evs, t.trace = s.trace ++ evs ∧ ∀ e ∈ evs, P e

section Adds

variable {P : Event → Prop} {cfg : Config} {s t u : State} {l : Label} {c p : ℕ} {sess : Session}

theorem adds_of_trace (h : t.trace = s.trace) : Adds P s t :=
  ⟨[], by rw [h, List.append_nil], fun _ he ↦ absurd he List.not_mem_nil⟩

theorem adds_refl (P : Event → Prop) (s : State) : Adds P s s :=
  adds_of_trace rfl

namespace Adds

theorem log {e : Event} (h : Adds P s t) (he : P e) : Adds P s (t.log e) := by
  obtain ⟨evs, htrace, hevs⟩ := h
  refine ⟨evs ++ [e], by rw [State.log_trace, htrace, List.append_assoc], ?_⟩
  rw [List.forall_mem_append, List.forall_mem_singleton]
  exact ⟨hevs, he⟩

theorem setPhase {phase : Phase} (h : Adds P s t) : Adds P s (t.setPhase c phase) := h

theorem setSession (h : Adds P s t) : Adds P s (t.setSession p sess) := h

theorem reply {r : Reply} (h : Adds (Event.ByCall c) s t) :
    Adds (Event.ByCall c) s (t.reply c r) :=
  h.setPhase.log ⟨rfl, rfl⟩

theorem takeCurrent {op : Op} {key : ℕ → Session → Bool} {reason : Reason} {deadline : ℕ}
    {otherwise : State} (h : Adds (Event.ByCall c) s u)
    (hotherwise : Adds (Event.ByCall c) s otherwise) :
    Adds (Event.ByCall c) s (takeCurrent u c op key reason deadline otherwise) := by
  unfold Manager.takeCurrent
  split
  · split_ifs
    · exact Adds.log (Adds.setPhase h) ⟨rfl, rfl⟩
    · exact hotherwise
  · exact hotherwise

theorem refreshTtl {id : Str} (h : Adds P s u) : Adds P s (refreshTtl cfg u id).1 := by
  unfold Manager.refreshTtl
  split
  · split_ifs
    · exact h.setSession
    · exact h
  · exact h

theorem startFails {error : StartError} (h : Adds (Event.ByCall c) s u) :
    Adds (Event.ByCall c) s (startFails u c error) :=
  Adds.reply h

end Adds

theorem enter_adds {op : Op} : Adds (Event.ByCall c) s (enter cfg s c op) := by
  have hentered : Adds (Event.ByCall c) s (s.log (.entered c op s.current)) :=
    (adds_refl _ s).log ⟨rfl, rfl⟩
  cases op with
  | start outdoor =>
    simp only [enter, start]
    split
    · split_ifs
      · unfold reuse
        split_ifs
        · exact hentered.setSession.reply
        · exact hentered.reply
      · exact hentered.reply
    · exact Adds.setPhase hentered
  | stop uri => exact hentered.takeCurrent hentered.reply
  | stopById id => exact hentered.takeCurrent hentered.reply
  | refreshTtl id => exact hentered.refreshTtl.reply
  | stopInternal q reason => exact hentered.takeCurrent hentered.reply
  | shutdown overall => exact hentered.takeCurrent hentered.setPhase
  | stream id =>
    simp only [enter, stream]
    split
    · split_ifs
      · exact hentered.setPhase
      · exact hentered.reply
    · exact hentered.reply

theorem leave_adds {consumer : Option ℕ} :
    Adds (Event.ByCall c) s (leave s c p sess consumer) :=
  (adds_refl _ s).setSession.setPhase.log ⟨rfl, rfl⟩

theorem teardown_adds {reason : Reason} {deadline : ℕ} {phase : TeardownPhase} :
    Adds (Event.ByCall c) s (teardown s c p sess reason deadline phase) := by
  have htore : Adds (Event.ByCall c) s ((s.setSession p (Session.tear sess phase)).log
      (.tore c p (teardownStep s.now deadline phase))) :=
    (adds_refl _ s).setSession.log ⟨rfl, rfl⟩
  cases phase with
  | stopPreview => exact htore.setPhase
  | bye => exact htore.setPhase
  | stopFlag => exact htore.setPhase
  | close =>
    simp only [teardown]
    split_ifs
    · exact htore.setPhase
    · exact htore.reply

theorem bindUdp_adds {outdoor : Outdoor} {ok : Bool} :
    Adds (Event.ByCall c) s (bindUdp s c outdoor ok) := by
  have hbound : Adds (Event.ByCall c) s (s.log (.bound c ok)) := (adds_refl _ s).log ⟨rfl, rfl⟩
  unfold bindUdp
  split_ifs
  · exact hbound.setPhase
  · exact hbound.startFails

theorem startPreview_adds {outdoor : Outdoor} {ok : Bool} :
    Adds (Event.ByCall c) s (startPreview s c outdoor ok) := by
  have hsent : Adds (Event.ByCall c) s (s.log (.startPreview c outdoor ok)) :=
    (adds_refl _ s).log ⟨rfl, rfl⟩
  unfold startPreview
  split_ifs
  · exact hsent.setPhase
  · exact (hsent.log ⟨rfl, rfl⟩).startFails

theorem drawNumbers_adds {outdoor : Outdoor} {uuid : Option Str} {ssrc : Option UInt32} :
    Adds (Event.ByCall c) s (drawNumbers cfg s c outdoor uuid ssrc p) := by
  have hdrew : ∀ {u : State} {number ok}, Adds (Event.ByCall c) s u →
      Adds (Event.ByCall c) s (u.log (.drew c number ok)) := fun h ↦ h.log ⟨rfl, rfl⟩
  unfold drawNumbers
  split
  · exact ((hdrew (adds_refl _ s)).log ⟨rfl, rfl⟩).setPhase
  · exact ((hdrew (hdrew (adds_refl _ s))).log ⟨rfl, rfl⟩).setPhase
  · exact (hdrew (hdrew (adds_refl _ s))).setSession.setPhase

theorem waitIdr_adds {deadline : ℕ} (h : waitIdr s c p sess deadline = some t) :
    Adds (Event.ByCall c) s t := by
  unfold waitIdr at h
  split_ifs at h
  · obtain rfl := Option.some.inj h
    exact (adds_refl _ s).reply
  · obtain rfl := Option.some.inj h
    exact (adds_refl _ s).setPhase
  · obtain rfl := Option.some.inj h
    exact (adds_refl _ s).reply

theorem checkReady_adds : Adds (Event.ByCall c) s (checkReady s c p sess) := by
  unfold checkReady
  split_ifs
  · exact (adds_refl _ s).reply
  · exact (adds_refl _ s).reply
  · exact (adds_refl _ s).setPhase

theorem seed_adds {ok : Bool} : Adds (Event.ByCall c) s (seed s c p sess ok) := by
  unfold seed
  split_ifs
  · exact leave_adds
  · exact (adds_refl _ s).setSession.setPhase

theorem receive_adds {consumer : Option ℕ} {ok : Bool}
    (h : receive s c p sess consumer ok = some t) : Adds (Event.ByCall c) s t := by
  simp only [receive, Option.bind_eq_some_iff, Option.map_eq_some_iff] at h
  obtain ⟨k, -, ⟨n, fb⟩, -, rfl⟩ := h
  split_ifs
  · exact (adds_refl _ s).setSession
  · exact leave_adds

/-- The events of a step are those of the thread that moves. -/
theorem step_logs (h : step cfg s l = some t) : Adds l.mover.Logs s t := by
  cases step_move h with
  | enter c op => exact enter_adds
  | bindUdp c outdoor ok => exact bindUdp_adds
  | startPreview c outdoor ok => exact startPreview_adds
  | drawNumbers c outdoor uuid ssrc p => exact drawNumbers_adds
  | rollback c outdoor missing =>
    exact Adds.startFails (Adds.log (P := Event.ByCall c) (adds_refl _ s) ⟨rfl, rfl⟩)
  | commit c outdoor p sess =>
    exact Adds.reply (Adds.log (P := Event.ByCall c) (adds_refl _ s) ⟨rfl, rfl⟩)
  | teardown c p sess reason deadline phase => exact teardown_adds
  | drained c overall handles => exact Adds.reply (adds_refl _ s)
  | waitIdr c p sess deadline t hphase hsess hwait => exact waitIdr_adds hwait
  | checkReady c p sess => exact checkReady_adds
  | beginStream c p sess peek => exact Adds.refreshTtl (adds_refl _ s)
  | seed c p sess ok => exact seed_adds
  | receive c p sess consumer ok t hphase hsess hreceive => exact receive_adds hreceive
  | flushFails c p sess consumer => exact leave_adds
  | hangUp c p sess consumer => exact leave_adds
  | finClose c p sess => exact ⟨[.finClosed c p], rfl, fun e he ↦ ⟨p, List.mem_singleton.mp he⟩⟩
  | refreshLoop c p sess => exact Adds.refreshTtl (adds_refl _ s)
  | reinvite p sess => exact ⟨[.reinvited p], rfl, fun e he ↦ List.mem_singleton.mp he⟩
  | elapse | call | reconcile | joinThreads | packet | push | send | look | tick | spawnCleanup
  | registerCleanup | guardReinvite => exact adds_of_trace rfl

/-! ### The events of one call -/

/-- The events of the call `c`, without those of its FIN watcher. -/
def own (c : ℕ) (trace : List Event) : List Event :=
  trace.filter fun e ↦ e.author = some c && !e.isFin

theorem own_append (c : ℕ) (trace evs : List Event) :
    own c (trace ++ evs) = own c trace ++ own c evs :=
  List.filter_append _ _

/-- The moves of others add nothing to the events of a call. -/
theorem step_own (h : step cfg s l = some t) (hmover : l.mover ≠ .call c) :
    own c t.trace = own c s.trace := by
  obtain ⟨evs, htrace, hevs⟩ := step_logs h
  have hnone : own c evs = [] := by
    refine List.filter_eq_nil_iff.mpr fun e he ↦ ?_
    have hlogs := hevs e he
    cases hl : l.mover with
    | clock d =>
      rw [hl] at hlogs
      exact hlogs.elim
    | call k =>
      rw [hl] at hlogs hmover
      have hne : k ≠ c := fun hk ↦ hmover (hk ▸ rfl)
      simp [hlogs.1, hne]
    | helper k =>
      rw [hl] at hlogs
      obtain ⟨p, rfl⟩ := hlogs
      simp [Event.isFin]
    | session p =>
      rw [hl] at hlogs
      obtain rfl : e = .reinvited p := hlogs
      simp [Event.author]
  rw [htrace, own_append, hnone, List.append_nil]

end Adds

end DoorAccess.Video.Manager
