import DoorAccess.Daemon.Worker
import Mathlib.Data.List.Nodup

/-!
# Every call of the worker is served

`Inv` holds in every reachable state of the worker and its callers. Its core is the pair of
statements about reply channels: the sender of a call that is still waiting lives exactly as long as
its job is queued or running, and the reply is there exactly when the job has been executed.
`worker_serves_every_call` reads off what the callers rely on.
-/

set_option autoImplicit false
set_option relaxedAutoImplicit false

namespace DoorAccess.Daemon

open Codec Unlock Wire18022

section Worker

variable {σ : Type*} {deps : WorkerDeps σ} {s t : State σ}

/-! ### The invariant -/

/-- The unlock job that the worker is executing. -/
def WorkerPhase.current : WorkerPhase → List UnlockJob
  | .unlocking job => [job]
  | _ => []

/-- The unlock jobs whose reply sender is alive: the running one and the queued ones. -/
def State.live (s : State σ) : List UnlockJob :=
  s.worker.current ++ unlocks s.queue

structure Inv (deps : WorkerDeps σ) (s : State σ) : Prop where
  entered_alive : s.receiverAlive = true → s.entered = s.taken ++ s.queue
  dead : s.receiverAlive = false → s.worker = .exited ∧ s.queue = []
  taken_prefix : s.taken <+: s.entered
  sentinel : ∀ pre post, s.taken = pre ++ .shutdown :: post → post = [] ∧ s.worker = .exited
  unlocks_taken : unlocks s.taken = s.executed.map Prod.fst ++ s.worker.current
  replies_nodup : ((unlocks s.entered).map UnlockJob.reply).Nodup
  outcome : ∀ e ∈ s.executed, ∃ world, e.2 = (executeUnlockJob deps e.1 world).1
  fresh : ∀ call, s.calls call = .idle →
    s.replies call = ⟨none, false⟩ ∧ call ∉ (unlocks s.entered).map UnlockJob.reply
  live : ∀ job ∈ s.live, s.calls job.reply = .waiting ∧ s.replies job.reply = ⟨none, false⟩
  waiting : ∀ call, s.calls call = .waiting → (s.replies call).senderDropped = false →
    call ∈ s.live.map UnlockJob.reply
  slot : ∀ call outcome, (s.replies call).slot = some outcome ↔
    ∃ e ∈ s.executed, e.1.reply = call ∧ e.2 = outcome
  slot_dropped : ∀ call, (s.replies call).senderDropped = false → (s.replies call).slot = none
  returned : ∀ call outcome, s.calls call = .returned outcome →
    (s.replies call).senderDropped = true ∧
      outcome = ((s.replies call).slot).getD workerUnavailableOutcome

@[simp] theorem unlocks_append (first second : List Job) :
    unlocks (first ++ second) = unlocks first ++ unlocks second :=
  List.filterMap_append

theorem unlocks_prefix {first second : List Job} (h : first <+: second) :
    unlocks first <+: unlocks second :=
  h.filterMap _

@[simp] theorem unlocks_nil : unlocks [] = [] := rfl

@[simp] theorem unlocks_cons (job : Job) (rest : List Job) :
    unlocks (job :: rest) = (WorkerPhase.start job).current ++ unlocks rest := by
  cases job with
  | unlock | hangup | shutdown => rfl

theorem unlocks_singleton_of_ne {job : Job} (hjob : ∀ j, job ≠ .unlock j) :
    (WorkerPhase.start job).current = [] := by
  cases job with
  | unlock j => exact absurd rfl (hjob j)
  | hangup | shutdown => rfl

/-- While the receiver lives, every unlock job that entered is executed or live. -/
theorem Inv.unlocks_entered (hinv : Inv deps s) (halive : s.receiverAlive = true) :
    unlocks s.entered = s.executed.map Prod.fst ++ s.live := by
  rw [hinv.entered_alive halive, unlocks_append, hinv.unlocks_taken, State.live,
    List.append_assoc]

theorem Inv.init (world : σ) (senders : ℕ) : Inv deps (State.init world senders) where
  entered_alive := fun _ ↦ rfl
  dead := fun h ↦ by simp [State.init] at h
  taken_prefix := List.prefix_refl _
  sentinel := fun pre post h ↦ by simp [State.init] at h
  unlocks_taken := rfl
  replies_nodup := List.nodup_nil
  outcome := fun e he ↦ by simp [State.init] at he
  fresh := fun call _ ↦ ⟨rfl, List.not_mem_nil⟩
  live := fun job hjob ↦ by simp [State.init, State.live, WorkerPhase.current] at hjob
  waiting := fun call h ↦ by simp [State.init] at h
  slot := fun call outcome ↦ by simp [State.init]
  slot_dropped := fun call _ ↦ rfl
  returned := fun call outcome h ↦ by simp [State.init] at h

/-! ### Every step keeps the invariant -/

theorem Inv.queued (hinv : Inv deps s) {job : Job} (hjob : ∀ j, job ≠ .unlock j)
    (halive : s.receiverAlive = true) :
    Inv deps { s with queue := s.queue ++ [job], entered := s.entered ++ [job] } := by
  have hnone := unlocks_singleton_of_ne hjob
  have hlive : State.live { s with queue := s.queue ++ [job], entered := s.entered ++ [job] } =
      s.live := by
    simp [State.live, hnone]
  exact {
    entered_alive := fun _ ↦ by
      show s.entered ++ [job] = s.taken ++ (s.queue ++ [job])
      rw [hinv.entered_alive halive, List.append_assoc]
    dead := fun hdead ↦ by simp [halive] at hdead
    taken_prefix := hinv.taken_prefix.trans (List.prefix_append _ _)
    sentinel := hinv.sentinel
    unlocks_taken := hinv.unlocks_taken
    replies_nodup := by simpa [hnone] using hinv.replies_nodup
    outcome := hinv.outcome
    fresh := fun call hidle ↦ by simpa [hnone] using hinv.fresh call hidle
    live := fun j hj ↦ hinv.live j (hlive ▸ hj)
    waiting := fun call hwaiting hsender ↦ hlive ▸ hinv.waiting call hwaiting hsender
    slot := hinv.slot
    slot_dropped := hinv.slot_dropped
    returned := hinv.returned }

theorem Inv.called (hinv : Inv deps s) {job : UnlockJob} (hidle : s.calls job.reply = .idle)
    (halive : s.receiverAlive = true) :
    Inv deps { s with
      queue := s.queue ++ [.unlock job]
      entered := s.entered ++ [.unlock job]
      calls := Function.update s.calls job.reply .waiting } := by
  obtain ⟨hreply, hfresh⟩ := hinv.fresh job.reply hidle
  have hother : ∀ j ∈ s.live, j.reply ≠ job.reply := by
    intro j hj heq
    have hwaiting := (hinv.live j hj).1
    rw [heq, hidle] at hwaiting
    cases hwaiting
  have hlive : State.live { s with
      queue := s.queue ++ [.unlock job]
      entered := s.entered ++ [.unlock job]
      calls := Function.update s.calls job.reply .waiting } = s.live ++ [job] := by
    simp [State.live, WorkerPhase.start, WorkerPhase.current]
  exact {
    entered_alive := fun _ ↦ by
      show s.entered ++ [.unlock job] = s.taken ++ (s.queue ++ [.unlock job])
      rw [hinv.entered_alive halive, List.append_assoc]
    dead := fun hdead ↦ by simp [halive] at hdead
    taken_prefix := hinv.taken_prefix.trans (List.prefix_append _ _)
    sentinel := hinv.sentinel
    unlocks_taken := hinv.unlocks_taken
    replies_nodup := by
      simp only [unlocks_append, unlocks_cons, unlocks_nil, WorkerPhase.start,
        WorkerPhase.current, List.append_nil, List.map_append, List.map_cons, List.map_nil]
      exact List.nodup_append.mpr ⟨hinv.replies_nodup, List.nodup_singleton _,
        fun a ha b hb heq ↦ hfresh (by
          rw [List.mem_singleton.mp hb] at heq
          exact heq ▸ ha)⟩
    outcome := hinv.outcome
    fresh := fun call hcall ↦ by
      have hne : call ≠ job.reply := by
        rintro rfl
        simp at hcall
      simp only [Function.update_of_ne hne] at hcall
      obtain ⟨hchannel, hnot⟩ := hinv.fresh call hcall
      refine ⟨hchannel, ?_⟩
      simpa [WorkerPhase.start, WorkerPhase.current, hne] using hnot
    live := fun j hj ↦ by
      rw [hlive, List.mem_append, List.mem_singleton] at hj
      rcases hj with hj | rfl
      · simp only [Function.update_of_ne (hother j hj)]
        exact hinv.live j hj
      · exact ⟨Function.update_self _ _ _, hreply⟩
    waiting := fun call hwaiting hsender ↦ by
      rw [hlive, List.map_append, List.mem_append]
      by_cases hcall : call = job.reply
      · exact .inr (by simp [hcall])
      · simp only [Function.update_of_ne hcall] at hwaiting
        exact .inl (hinv.waiting call hwaiting hsender)
    slot := hinv.slot
    slot_dropped := hinv.slot_dropped
    returned := fun call outcome hret ↦ by
      have hne : call ≠ job.reply := by
        rintro rfl
        simp at hret
      simp only [Function.update_of_ne hne] at hret
      exact hinv.returned call outcome hret }

theorem Inv.refused (hinv : Inv deps s) {job : UnlockJob} (hidle : s.calls job.reply = .idle)
    (hdead : s.receiverAlive = false) :
    Inv deps { s with
      calls := Function.update s.calls job.reply (.returned workerUnavailableOutcome)
      replies := Function.update s.replies job.reply ⟨none, true⟩ } := by
  obtain ⟨hworker, hqueue⟩ := hinv.dead hdead
  obtain ⟨hreply, hfresh⟩ := hinv.fresh job.reply hidle
  have hlive : s.live = [] := by simp [State.live, hworker, hqueue, WorkerPhase.current]
  exact {
    entered_alive := hinv.entered_alive
    dead := hinv.dead
    taken_prefix := hinv.taken_prefix
    sentinel := hinv.sentinel
    unlocks_taken := hinv.unlocks_taken
    replies_nodup := hinv.replies_nodup
    outcome := hinv.outcome
    fresh := fun call hcall ↦ by
      have hne : call ≠ job.reply := by
        rintro rfl
        simp at hcall
      simp only [Function.update_of_ne hne] at hcall
      simpa [Function.update_of_ne hne] using hinv.fresh call hcall
    live := fun j hj ↦ by
      change j ∈ s.live at hj
      simp [hlive] at hj
    waiting := fun call hwaiting hsender ↦ by
      by_cases hcall : call = job.reply
      · simp [hcall] at hwaiting
      · simp only [Function.update_of_ne hcall] at hwaiting hsender
        exact hinv.waiting call hwaiting hsender
    slot := fun call outcome ↦ by
      rw [← hinv.slot call outcome]
      by_cases hcall : call = job.reply
      · simp [hcall, hreply]
      · simp [Function.update_of_ne hcall]
    slot_dropped := fun call hsender ↦ by
      by_cases hcall : call = job.reply
      · simp [hcall]
      · simp only [Function.update_of_ne hcall] at hsender ⊢
        exact hinv.slot_dropped call hsender
    returned := fun call outcome hret ↦ by
      by_cases hcall : call = job.reply
      · subst hcall
        simp only [Function.update_self, CallPhase.returned.injEq] at hret ⊢
        exact ⟨trivial, hret.symm⟩
      · simp only [Function.update_of_ne hcall] at hret ⊢
        exact hinv.returned call outcome hret }

theorem Inv.took (hinv : Inv deps s) {job : Job} {rest : List Job}
    (hworker : s.worker = .receiving) (hqueue : s.queue = job :: rest) :
    Inv deps { s with queue := rest, taken := s.taken ++ [job], worker := .start job } := by
  have halive : s.receiverAlive = true := by
    by_contra hdead
    have hempty := (hinv.dead (eq_false_of_ne_true hdead)).2
    simp [hqueue] at hempty
  have hentered : s.entered = (s.taken ++ [job]) ++ rest := by
    rw [hinv.entered_alive halive, hqueue, List.append_assoc, List.singleton_append]
  have hlive : State.live { s with
      queue := rest, taken := s.taken ++ [job], worker := .start job } = s.live := by
    simp [State.live, hworker, hqueue, WorkerPhase.current]
  exact {
    entered_alive := fun _ ↦ hentered
    dead := fun hdead ↦ by simp [halive] at hdead
    taken_prefix := ⟨rest, hentered.symm⟩
    sentinel := fun pre post heq ↦ by
      rcases List.eq_nil_or_concat post with rfl | ⟨init, last, rfl⟩
      · obtain ⟨-, hlast⟩ := List.append_inj' (heq : s.taken ++ [job] = pre ++ [.shutdown]) rfl
        exact ⟨rfl, by rw [List.singleton_inj.mp hlast]; rfl⟩
      · -- A sentinel taken earlier has stopped the worker.
        have htaken : s.taken = pre ++ .shutdown :: init := by
          have hconcat : s.taken ++ [job] = (pre ++ .shutdown :: init) ++ [last] := by
            simpa using heq
          exact (List.append_inj' hconcat rfl).1
        have hexited := (hinv.sentinel pre init htaken).2
        simp [hworker] at hexited
    unlocks_taken := by
      simp only [unlocks_append, unlocks_cons, unlocks_nil, List.append_nil, hinv.unlocks_taken,
        hworker, WorkerPhase.current]
    replies_nodup := hinv.replies_nodup
    outcome := hinv.outcome
    fresh := hinv.fresh
    live := fun j hj ↦ hinv.live j (hlive ▸ hj)
    waiting := fun call hwaiting hsender ↦ hlive ▸ hinv.waiting call hwaiting hsender
    slot := hinv.slot
    slot_dropped := hinv.slot_dropped
    returned := hinv.returned }

/-- Leaving the loop, or finishing a hang-up, changes nothing but the phase of the worker. -/
theorem Inv.phase (hinv : Inv deps s) {phase : WorkerPhase} (world : σ)
    (hcurrent : phase.current = s.worker.current) (hne : s.worker ≠ .exited) :
    Inv deps { s with world := world, worker := phase } := by
  have hlive : State.live { s with world := world, worker := phase } = s.live := by
    simp only [State.live, hcurrent]
  exact {
    entered_alive := hinv.entered_alive
    dead := fun hdead ↦ absurd (hinv.dead hdead).1 hne
    taken_prefix := hinv.taken_prefix
    sentinel := fun pre post heq ↦ absurd (hinv.sentinel pre post heq).2 hne
    unlocks_taken := by
      simp only [hcurrent]
      exact hinv.unlocks_taken
    replies_nodup := hinv.replies_nodup
    outcome := hinv.outcome
    fresh := hinv.fresh
    live := fun j hj ↦ hinv.live j (hlive ▸ hj)
    waiting := fun call hwaiting hsender ↦ hlive ▸ hinv.waiting call hwaiting hsender
    slot := hinv.slot
    slot_dropped := hinv.slot_dropped
    returned := hinv.returned }

/-- The worker has an outcome for its job, whatever became of the world. -/
theorem Inv.unlocked (hinv : Inv deps s) {job : UnlockJob} (hworker : s.worker = .unlocking job)
    (world : σ) {outcome : UnlockOutcome}
    (houtcome : ∃ before, outcome = (executeUnlockJob deps job before).1) :
    Inv deps { s with
      world := world
      worker := .receiving
      replies := Function.update s.replies job.reply ⟨some outcome, true⟩
      executed := s.executed ++ [(job, outcome)] } := by
  have hne : s.worker ≠ .exited := by simp [hworker]
  have halive : s.receiverAlive = true := by
    by_contra hdead
    exact hne (hinv.dead (eq_false_of_ne_true hdead)).1
  have hlive : s.live = job :: unlocks s.queue := by
    simp [State.live, hworker, WorkerPhase.current]
  have hrunning := hinv.live job (by simp [hlive])
  -- The reply numbers of the executed jobs, of this one and of the queued ones are distinct.
  have hdistinct := hinv.replies_nodup
  rw [hinv.unlocks_entered halive, hlive] at hdistinct
  simp only [List.map_append, List.map_cons, List.nodup_append, List.nodup_cons,
    List.mem_cons] at hdistinct
  obtain ⟨-, ⟨hqueued, -⟩, hexecuted⟩ := hdistinct
  have hother : ∀ j ∈ unlocks s.queue, j.reply ≠ job.reply := fun j hj heq ↦
    hqueued (heq ▸ List.mem_map_of_mem hj)
  have hpast : ∀ e ∈ s.executed, e.1.reply ≠ job.reply := fun e he heq ↦
    hexecuted e.1.reply (List.mem_map_of_mem (List.mem_map_of_mem he)) job.reply (.inl rfl) heq
  exact {
    entered_alive := hinv.entered_alive
    dead := fun hdead ↦ absurd (hinv.dead hdead).1 hne
    taken_prefix := hinv.taken_prefix
    sentinel := fun pre post heq ↦ absurd (hinv.sentinel pre post heq).2 hne
    unlocks_taken := by
      simp only [hinv.unlocks_taken, hworker, WorkerPhase.current, List.map_append, List.map_cons,
        List.map_nil, List.append_nil]
    replies_nodup := hinv.replies_nodup
    outcome := fun e he ↦ by
      rw [List.mem_append, List.mem_singleton] at he
      rcases he with he | rfl
      · exact hinv.outcome e he
      · exact houtcome
    fresh := fun call hidle ↦ by
      have hcall : call ≠ job.reply := by
        rintro rfl
        have hwaiting := hrunning.1
        rw [hidle] at hwaiting
        cases hwaiting
      simp only [Function.update_of_ne hcall]
      exact hinv.fresh call hidle
    live := fun j hj ↦ by
      simp only [State.live, WorkerPhase.current, List.nil_append] at hj
      simp only [Function.update_of_ne (hother j hj)]
      exact hinv.live j (by simp [hlive, hj])
    waiting := fun call hwaiting hsender ↦ by
      have hcall : call ≠ job.reply := by
        rintro rfl
        simp at hsender
      simp only [Function.update_of_ne hcall] at hsender
      have hmem := hinv.waiting call hwaiting hsender
      rw [hlive, List.map_cons, List.mem_cons] at hmem
      exact hmem.resolve_left hcall
    slot := fun call outcome ↦ by
      by_cases hcall : call = job.reply
      · subst hcall
        simp only [Function.update_self, Option.some.injEq, List.mem_append, List.mem_singleton]
        constructor
        · rintro rfl
          exact ⟨_, .inr rfl, rfl, rfl⟩
        · rintro ⟨e, he | rfl, hreply, rfl⟩
          · exact absurd hreply (hpast e he)
          · rfl
      · simp only [Function.update_of_ne hcall, hinv.slot call outcome, List.mem_append,
          List.mem_singleton]
        constructor
        · rintro ⟨e, he, hreply, houtcome⟩
          exact ⟨e, .inl he, hreply, houtcome⟩
        · rintro ⟨e, he | rfl, hreply, houtcome⟩
          · exact ⟨e, he, hreply, houtcome⟩
          · exact absurd hreply.symm hcall
    slot_dropped := fun call hsender ↦ by
      by_cases hcall : call = job.reply
      · simp [hcall] at hsender
      · simp only [Function.update_of_ne hcall] at hsender ⊢
        exact hinv.slot_dropped call hsender
    returned := fun call outcome hret ↦ by
      have hcall : call ≠ job.reply := by
        rintro rfl
        have hwaiting := hrunning.1
        rw [hret] at hwaiting
        cases hwaiting
      simp only [Function.update_of_ne hcall]
      exact hinv.returned call outcome hret }

theorem Inv.dropped (hinv : Inv deps s) (hworker : s.worker = .exited) :
    Inv deps { s with
      receiverAlive := false
      queue := []
      replies := dropQueued s.queue s.replies } := by
  have hlive : s.live = unlocks s.queue := by simp [State.live, hworker, WorkerPhase.current]
  have hslot : ∀ call, (dropQueued s.queue s.replies call).slot = (s.replies call).slot := by
    intro call
    unfold dropQueued
    split_ifs
    · rfl
    · rfl
  have hkept : ∀ call, (dropQueued s.queue s.replies call).senderDropped = false →
      (s.replies call).senderDropped = false ∧ call ∉ (unlocks s.queue).map UnlockJob.reply := by
    intro call hsender
    unfold dropQueued at hsender
    split_ifs at hsender with hmem
    exact ⟨hsender, hmem⟩
  have hsame : ∀ call, s.calls call ≠ .waiting →
      dropQueued s.queue s.replies call = s.replies call := by
    intro call hcall
    refine if_neg fun hmem ↦ ?_
    obtain ⟨j, hj, rfl⟩ := List.mem_map.mp hmem
    exact hcall (hinv.live j (hlive ▸ hj)).1
  exact {
    entered_alive := fun hdead ↦ by simp at hdead
    dead := fun _ ↦ ⟨hworker, rfl⟩
    taken_prefix := hinv.taken_prefix
    sentinel := hinv.sentinel
    unlocks_taken := hinv.unlocks_taken
    replies_nodup := hinv.replies_nodup
    outcome := hinv.outcome
    fresh := fun call hidle ↦ by
      change s.calls call = .idle at hidle
      simp only [hsame call (by simp [hidle])]
      exact hinv.fresh call hidle
    live := fun j hj ↦ by simp [State.live, hworker, WorkerPhase.current] at hj
    waiting := fun call hwaiting hsender ↦ by
      obtain ⟨hold, hnot⟩ := hkept call hsender
      exact absurd (hlive ▸ hinv.waiting call hwaiting hold) hnot
    slot := fun call outcome ↦ by
      simp only [hslot]
      exact hinv.slot call outcome
    slot_dropped := fun call hsender ↦ by
      simp only [hslot]
      exact hinv.slot_dropped call (hkept call hsender).1
    returned := fun call outcome hret ↦ by
      change s.calls call = .returned outcome at hret
      simp only [hsame call (by simp [hret])]
      exact hinv.returned call outcome hret }

theorem ReplyChannel.recv_eq_some {channel : ReplyChannel} {outcome : UnlockOutcome}
    (hslot : channel.senderDropped = false → channel.slot = none)
    (h : channel.recv = some outcome) :
    channel.senderDropped = true ∧ outcome = channel.slot.getD workerUnavailableOutcome := by
  obtain ⟨slot, senderDropped⟩ := channel
  cases senderDropped with
  | true => cases slot with
    | none | some => exact ⟨rfl, (Option.some.inj h).symm⟩
  | false =>
    obtain rfl : slot = none := hslot rfl
    simp [recv] at h

theorem ReplyChannel.recv_of_dropped {channel : ReplyChannel}
    (hdropped : channel.senderDropped = true) :
    channel.recv = some (channel.slot.getD workerUnavailableOutcome) := by
  obtain ⟨slot, senderDropped⟩ := channel
  obtain rfl : senderDropped = true := hdropped
  cases slot with
  | none | some => rfl

theorem Inv.return (hinv : Inv deps s) {call : ℕ} {outcome : UnlockOutcome}
    (hwaiting : s.calls call = .waiting) (hrecv : (s.replies call).recv = some outcome) :
    Inv deps { s with calls := Function.update s.calls call (.returned outcome) } := by
  have hchannel := ReplyChannel.recv_eq_some (hinv.slot_dropped call) hrecv
  exact {
    entered_alive := hinv.entered_alive
    dead := hinv.dead
    taken_prefix := hinv.taken_prefix
    sentinel := hinv.sentinel
    unlocks_taken := hinv.unlocks_taken
    replies_nodup := hinv.replies_nodup
    outcome := hinv.outcome
    fresh := fun other hidle ↦ by
      by_cases hother : other = call
      · simp [hother] at hidle
      · simp only [Function.update_of_ne hother] at hidle
        exact hinv.fresh other hidle
    live := fun j hj ↦ by
      obtain ⟨hcall, hreply⟩ := hinv.live j hj
      have hne : j.reply ≠ call := by
        rintro rfl
        simp [hreply] at hchannel
      simp only [Function.update_of_ne hne]
      exact ⟨hcall, hreply⟩
    waiting := fun other hother hsender ↦ by
      by_cases heq : other = call
      · simp [heq] at hother
      · simp only [Function.update_of_ne heq] at hother
        exact hinv.waiting other hother hsender
    slot := hinv.slot
    slot_dropped := hinv.slot_dropped
    returned := fun other out hret ↦ by
      by_cases heq : other = call
      · subst heq
        simp only [Function.update_self, CallPhase.returned.injEq] at hret
        exact hret ▸ hchannel
      · simp only [Function.update_of_ne heq] at hret
        exact hinv.returned other out hret }

theorem Effect.inv (heffect : Effect deps s t) (hinv : Inv deps s) : Inv deps t := by
  cases heffect with
  | senders n => exact { hinv with }
  | queued job hjob halive => exact hinv.queued hjob halive
  | called job hidle halive => exact hinv.called hidle halive
  | refused job hidle hdead => exact hinv.refused hidle hdead
  | took job rest hworker hqueue => exact hinv.took hworker hqueue
  | disconnected hworker hqueue =>
    exact hinv.phase s.world (by rw [hworker]; rfl) (by simp [hworker])
  | unlocked job hworker => exact hinv.unlocked hworker _ ⟨s.world, rfl⟩
  | hungUp job hworker => exact hinv.phase _ (by rw [hworker]; rfl) (by simp [hworker])
  | dropped hworker halive => exact hinv.dropped hworker
  | returned call outcome hwaiting hrecv => exact hinv.return hwaiting hrecv

theorem reachable_inv {world : σ} {senders : ℕ}
    (hreach : Transition.Reachable (step deps) (State.init world senders) s) : Inv deps s :=
  hreach.invariant (Inv.init world senders) fun hinv hstep ↦ (step_effect hstep).inv hinv

/-! ### Runs -/

theorem Effect.returned_stays (heffect : Effect deps s t) {call : ℕ} {outcome : UnlockOutcome}
    (hret : s.calls call = .returned outcome) : t.calls call = .returned outcome := by
  cases heffect with
  | senders | queued | took | disconnected | unlocked | hungUp | dropped => exact hret
  | called job hidle | refused job hidle =>
    have hne : call ≠ job.reply := by
      rintro rfl
      simp [hret] at hidle
    simpa only [Function.update_of_ne hne] using hret
  | returned other out hwaiting =>
    have hne : call ≠ other := by
      rintro rfl
      simp [hret] at hwaiting
    simpa only [Function.update_of_ne hne] using hret

/-- A call that has returned stays returned with the same outcome. -/
theorem returned_stays {labels : List Label} (hrun : Transition.exec (step deps) s labels = some t)
    {call : ℕ} {outcome : UnlockOutcome} (hret : s.calls call = .returned outcome) :
    t.calls call = .returned outcome :=
  Transition.exec_relation
    (fun s t : State σ ↦ s.calls call = .returned outcome → t.calls call = .returned outcome)
    (fun _ h ↦ h) (fun hst htu h ↦ htu (hst h))
    (fun hstep h ↦ (step_effect hstep).returned_stays h) hrun hret

/-- The moves of the worker thread. -/
def Label.isWorker : Label → Bool
  | .workerRecv | .workerFinish | .dropReceiver => true
  | _ => false

/-- An upper bound on the moves that the worker can make before it needs new jobs. -/
def State.pending (s : State σ) : ℕ :=
  2 * s.queue.length + match s.worker with
    | .unlocking _ | .hangingUp _ => 1
    | _ => 0

/-- While the reply sender of a waiting call is alive, the worker can move, and the move brings
the end nearer. -/
theorem Inv.exists_worker_step (hinv : Inv deps s) {call : ℕ} (hwaiting : s.calls call = .waiting)
    (hsender : (s.replies call).senderDropped = false) :
    ∃ l t, Label.isWorker l = true ∧ step deps s l = some t ∧ t.calls = s.calls ∧
      t.pending < s.pending := by
  have hlive := hinv.waiting call hwaiting hsender
  cases hworker : s.worker with
  | unlocking job =>
    refine ⟨.workerFinish, ?_⟩
    simp [step, hworker, Label.isWorker, State.pending]
  | hangingUp job =>
    refine ⟨.workerFinish, ?_⟩
    simp [step, hworker, Label.isWorker, State.pending]
  | receiving =>
    cases hqueue : s.queue with
    | nil => simp [State.live, hworker, hqueue, WorkerPhase.current] at hlive
    | cons job rest =>
      refine ⟨.workerRecv, ?_⟩
      simp only [step, hworker, hqueue, Label.isWorker, State.pending, List.length_cons,
        Option.some.injEq, exists_eq_left', true_and]
      cases job with
      | unlock | hangup | shutdown =>
        simp only [WorkerPhase.start]
        omega
  | exited =>
    cases hqueue : s.queue with
    | nil => simp [State.live, hworker, hqueue, WorkerPhase.current] at hlive
    | cons job rest =>
      have halive : s.receiverAlive = true := by
        by_contra hdead
        have hempty := (hinv.dead (eq_false_of_ne_true hdead)).2
        simp [hqueue] at hempty
      refine ⟨.dropReceiver, ?_⟩
      simp [step, hworker, halive, Label.isWorker, State.pending, hqueue]

/-- Every waiting call can be brought to its return by moves of the worker alone. -/
theorem Inv.exists_return (hinv : Inv deps s) {call : ℕ} (hwaiting : s.calls call = .waiting) :
    ∃ labels t outcome, (∀ l ∈ labels, Label.isWorker l = true) ∧
      Transition.exec (step deps) s (labels ++ [.callReturn call]) = some t ∧
      t.calls call = .returned outcome := by
  induction hn : s.pending using Nat.strongRecOn generalizing s with
  | _ n ih =>
    cases hsender : (s.replies call).senderDropped with
    | true =>
      have hrecv := ReplyChannel.recv_of_dropped hsender
      refine ⟨[], { s with calls := Function.update s.calls call (.returned
        ((s.replies call).slot.getD workerUnavailableOutcome)) }, _, by simp, ?_,
        Function.update_self _ _ _⟩
      simp only [List.nil_append, Transition.exec, step, hwaiting, hrecv, Option.bind_some]
    | false =>
      obtain ⟨l, t, hl, hstep, hcalls, hless⟩ := hinv.exists_worker_step hwaiting hsender
      obtain ⟨labels, u, outcome, hworker, hrun, hret⟩ :=
        ih t.pending (hn ▸ hless) ((step_effect hstep).inv hinv) (hcalls ▸ hwaiting) rfl
      refine ⟨l :: labels, u, outcome, ?_, ?_, hret⟩
      · intro l' hl'
        rcases List.mem_cons.mp hl' with rfl | hl'
        · exact hl
        · exact hworker l' hl'
      · exact Transition.exec_cons_eq_some.mpr ⟨t, hstep, hrun⟩

/-- Nothing behind the first sentinel that entered is ever taken. -/
theorem Inv.taken_prefix_sentinel (hinv : Inv deps s) {pre post : List Job}
    (hentered : s.entered = pre ++ .shutdown :: post) : s.taken <+: pre ++ [.shutdown] := by
  have hpre : pre ++ [.shutdown] <+: s.entered := ⟨post, by simp [hentered]⟩
  rcases List.prefix_or_prefix_of_prefix hinv.taken_prefix hpre with htaken | ⟨rest, hrest⟩
  · exact htaken
  · obtain ⟨rfl, -⟩ := hinv.sentinel pre rest (by simp [← hrest])
    exact ⟨[], by simp [← hrest]⟩

/-- Over every interleaving of the callers, the timers and the shutdown sequence with the worker:
the worker takes jobs in the order in which they entered the queue, executes each unlock job at
most once and nothing behind a sentinel; a call that has returned keeps its one outcome, which is
that of its own job if the job was executed and `worker_unavailable_outcome` otherwise; and no
call is left waiting. -/
theorem worker_serves_every_call {world : σ} {senders : ℕ}
    (hreach : Transition.Reachable (step deps) (State.init world senders) s) :
    (s.taken <+: s.entered ∧
      unlocks s.taken = s.executed.map Prod.fst ++ s.worker.current ∧
      ((unlocks s.entered).map UnlockJob.reply).Nodup ∧
      (s.executed.map fun e ↦ e.1.reply).Nodup) ∧
    (∀ e ∈ s.executed, ∃ world, e.2 = (executeUnlockJob deps e.1 world).1) ∧
    (∀ pre post, s.entered = pre ++ .shutdown :: post → s.taken <+: pre ++ [.shutdown]) ∧
    (∀ call outcome, s.calls call = .returned outcome →
      (∀ e ∈ s.executed, e.1.reply = call → outcome = e.2) ∧
      ((∀ e ∈ s.executed, e.1.reply ≠ call) → outcome = workerUnavailableOutcome) ∧
      ∀ labels t, Transition.exec (step deps) s labels = some t →
        t.calls call = .returned outcome) ∧
    (∀ call, s.calls call = .waiting → s.worker = .exited → s.receiverAlive = false →
      (step deps s (.callReturn call)).isSome = true) ∧
    (∀ call, s.calls call = .waiting → ∃ labels t outcome,
      (∀ l ∈ labels, Label.isWorker l = true) ∧
      Transition.exec (step deps) s (labels ++ [.callReturn call]) = some t ∧
      t.calls call = .returned outcome) := by
  have hinv := reachable_inv hreach
  refine ⟨⟨hinv.taken_prefix, hinv.unlocks_taken, hinv.replies_nodup, ?_⟩, hinv.outcome,
    fun pre post ↦ hinv.taken_prefix_sentinel, ?_, ?_, fun call ↦ hinv.exists_return⟩
  · have htaken := unlocks_prefix hinv.taken_prefix
    have hexecuted : s.executed.map Prod.fst <+: unlocks s.entered :=
      List.IsPrefix.trans ⟨s.worker.current, hinv.unlocks_taken.symm⟩ htaken
    have hnodup := hinv.replies_nodup.sublist (hexecuted.map UnlockJob.reply).sublist
    rwa [List.map_map] at hnodup
  · intro call outcome hret
    obtain ⟨-, houtcome⟩ := hinv.returned call outcome hret
    refine ⟨fun e he hreply ↦ ?_, fun hnone ↦ ?_, fun labels t hrun ↦ returned_stays hrun hret⟩
    · have hslot := (hinv.slot call e.2).mpr ⟨e, he, hreply, rfl⟩
      rw [houtcome, hslot, Option.getD_some]
    · have hslot : (s.replies call).slot = none := by
        by_contra hsome
        obtain ⟨out, hout⟩ := Option.ne_none_iff_exists'.mp hsome
        obtain ⟨e, he, hreply, -⟩ := (hinv.slot call out).mp hout
        exact hnone e he hreply
      rw [houtcome, hslot, Option.getD_none]
  · intro call hwaiting hexited hdead
    have hsender : (s.replies call).senderDropped = true := by
      by_contra hlive
      have hmem := hinv.waiting call hwaiting (eq_false_of_ne_true hlive)
      simp [State.live, (hinv.dead hdead).2, hexited, WorkerPhase.current] at hmem
    simp only [step, hwaiting, ReplyChannel.recv_of_dropped hsender, Option.isSome_some]

end Worker

/-- A call served before the sentinel, one queued behind it and one made after the worker is
gone. -/
def threeCalls : List Label :=
  [.dispatch 0 manualRequest, .submitShutdown, .ring 1 manualRequest, .workerRecv, .workerFinish,
    .workerRecv, .dropReceiver, .callReturn 0, .callReturn 1, .dispatch 2 manualRequest]

theorem worker_serves_threeCalls :
    ∃ s, Transition.Reachable (step openingDeps) (State.init () 2) s ∧
      s.calls 0 = .returned ⟨OK, 0, false, none⟩ ∧
      s.calls 1 = .returned workerUnavailableOutcome ∧
      s.calls 2 = .returned workerUnavailableOutcome ∧
      (s.executed.map fun e ↦ e.1.reply).Nodup := by
  have hrun : ((Transition.exec (step openingDeps) (State.init () 2) threeCalls).map fun s ↦
      (s.calls 0, s.calls 1, s.calls 2)) = some (.returned ⟨OK, 0, false, none⟩,
        .returned workerUnavailableOutcome, .returned workerUnavailableOutcome) := by
    decide
  obtain ⟨s, hs, hcalls⟩ := Option.map_eq_some_iff.mp hrun
  simp only [Prod.mk.injEq] at hcalls
  have hreach : Transition.Reachable (step openingDeps) (State.init () 2) s := ⟨threeCalls, hs⟩
  exact ⟨s, hreach, hcalls.1, hcalls.2.1, hcalls.2.2,
    (worker_serves_every_call hreach).1.2.2.2⟩

end DoorAccess.Daemon
