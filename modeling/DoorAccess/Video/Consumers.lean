import DoorAccess.Video.Handler
import DoorAccess.Video.Lifecycle

/-!
# The consumers of a session

Several handlers may stream one session from its shared buffer. While the buffer is open they do
not disturb each other: each is offered every unit pushed since it subscribed and loses one only to
its own full queue. But a consumer that disconnects takes the session with it: its FIN watcher
closes the shared buffer, and its handler calls `stop_by_id` in any case when its `run` is over.
-/

set_option autoImplicit false
set_option relaxedAutoImplicit false

namespace DoorAccess.Video.Manager

open Transition Codec

/-! ### Moves of a buffer -/

namespace BufferMove

variable {s t : State} {p : ℕ} {units : List NalUnit} {fb fb' : FrameBuffer}

theorem consistent (h : BufferMove s t p units fb fb') (hfb : fb.Consistent) : fb'.Consistent := by
  cases h with
  | same _ heq =>
    rw [heq]
    exact hfb
  | pushed n _ hidle heq =>
    rw [heq]
    exact hfb.push hidle n
  | sent _ hsend => exact hfb.send hsend
  | subscribed _ heq =>
    rw [heq]
    exact hfb.subscribe
  | received k n _ hrecv => exact hfb.recv hrecv
  | withdrew c k last _ _ _ hlast heq =>
    have hconsistent : last.Consistent := by
      rcases hlast with rfl | ⟨n, hrecv⟩
      · exact hfb
      · exact hfb.recv hrecv
    rw [heq]
    exact (hconsistent.removeConsumer k).dropReceiver k
  | closed _ heq =>
    rw [heq]
    exact hfb.close

/-- A move pushes its units into an open buffer and none into a closed one. -/
theorem history (h : BufferMove s t p units fb fb') :
    (fb.closed = true → fb'.closed = true ∧ fb'.pushed = fb.pushed) ∧
      (fb'.closed = false → fb.closed = false ∧ fb'.pushed = fb.pushed ++ units) := by
  have hsteady : fb.Steady fb' → units = [] →
      (fb.closed = true → fb'.closed = true ∧ fb'.pushed = fb.pushed) ∧
        (fb'.closed = false → fb.closed = false ∧ fb'.pushed = fb.pushed ++ units) := by
    rintro ⟨hpushed, hclosed⟩ rfl
    rw [hpushed, hclosed, List.append_nil]
    exact ⟨fun hc ↦ ⟨hc, rfl⟩, fun hc ↦ ⟨hc, rfl⟩⟩
  cases h with
  | same hunits heq => exact hsteady (heq ▸ ⟨rfl, rfl⟩) hunits
  | pushed n hunits _ heq =>
    rw [heq, hunits]
    cases hclosed : fb.closed with
    | true =>
      rw [FrameBuffer.push_of_closed hclosed, hclosed]
      exact ⟨fun _ ↦ ⟨rfl, rfl⟩, fun hopen ↦ absurd hopen (by simp)⟩
    | false =>
      obtain ⟨hpushed, hopen⟩ := FrameBuffer.push_of_open (n := n) hclosed
      exact ⟨fun hc ↦ absurd hc (by simp), fun _ ↦ ⟨rfl, hpushed⟩⟩
  | sent hunits hsend => exact hsteady (FrameBuffer.send_steady hsend) hunits
  | subscribed hunits heq => exact hsteady (heq ▸ FrameBuffer.subscribe_steady) hunits
  | received k n hunits hrecv => exact hsteady (FrameBuffer.recv_steady hrecv) hunits
  | withdrew c k last hunits _ _ hlast heq =>
    refine hsteady ?_ hunits
    rw [heq]
    rcases hlast with rfl | ⟨n, hrecv⟩
    · exact ⟨rfl, rfl⟩
    · obtain ⟨hpushed, hclosed⟩ := FrameBuffer.recv_steady hrecv
      exact ⟨hpushed, hclosed⟩
  | closed _ heq =>
    rw [heq]
    refine ⟨fun _ ↦ ⟨fb.close_closed, FrameBuffer.close_pushed⟩, fun hopen ↦ ?_⟩
    rw [fb.close_closed] at hopen
    exact absurd hopen (by simp)

/-- A consumer stays served unless its own handler withdraws. -/
theorem serves {k : ℕ} (h : BufferMove s t p units fb fb') (hserves : fb.Serves k)
    (hstays : ∀ c, (s.calls c).phase = .streaming p (some k) → (t.calls c).phase ≠ .leaving p) :
    fb'.Serves k := by
  cases h with
  | same _ heq =>
    rw [heq]
    exact hserves
  | pushed n _ _ heq =>
    rw [heq]
    exact hserves.push
  | sent _ hsend => exact hserves.send hsend
  | subscribed _ heq =>
    rw [heq]
    exact hserves.subscribe
  | received j n _ hrecv => exact hserves.recv hrecv
  | withdrew c j last _ hs ht hlast heq =>
    have hne : k ≠ j := by
      rintro rfl
      exact hstays c hs ht
    have hserved : last.Serves k := by
      rcases hlast with rfl | ⟨n, hrecv⟩
      · exact hserves
      · exact hserves.recv hrecv
    rw [heq]
    exact hserved.withdraw hne
  | closed _ heq =>
    rw [heq]
    exact hserves.close

end BufferMove

/-! ### The invariant of the handlers -/

/-- How far a handler that has left its session has come: before its `stop_by_id`, or past it, when
the session is no longer in the slot. -/
def Departs (s : State) (c p : ℕ) : Prop :=
  (s.calls c).phase = .leaving p ∨
    (∃ sess, s.sessions p = some sess ∧ (s.calls c).phase = .calling (.stopById sess.id)) ∨
    s.current ≠ some p

structure ConsumerInv (s : State) : Prop where
  consistent : ∀ p sess, s.sessions p = some sess → sess.frameBuf.Consistent
  /-- A handler has looked its session up in the slot. -/
  handled : ∀ c p, (s.calls c).phase.handled = some p →
    Committed p s.trace ∧ ∃ id, .entered c (.stream id) (some p) ∈ s.trace
  serves : ∀ c p k sess, (s.calls c).phase = .streaming p (some k) → s.sessions p = some sess →
    sess.frameBuf.Serves k
  alone : ∀ c c' p k, (s.calls c).phase = .streaming p (some k) →
    (s.calls c').phase = .streaming p (some k) → c = c'
  left : ∀ c p, .left c p ∈ s.trace → Committed p s.trace ∧ Departs s c p
  finClosed : ∀ c p, .finClosed c p ∈ s.trace →
    (∃ id, .entered c (.stream id) (some p) ∈ s.trace) ∧
      ∃ sess, s.sessions p = some sess ∧ sess.frameBuf.closed = true
  closed : ∀ p sess, s.sessions p = some sess → sess.frameBuf.closed = true →
    (∃ c, .finClosed c p ∈ s.trace) ∨ ∃ c, .tore c p .close ∈ s.trace

theorem consumerInv_init : ConsumerInv .init := by
  constructor
  · intro p sess hsess
    exact absurd hsess (by simp [State.init])
  · intro c p hhandled
    exact absurd hhandled (by simp [State.init, Phase.handled])
  · intro c p k sess hphase
    exact absurd hphase (by simp [State.init])
  · intro c c' p k hphase
    exact absurd hphase (by simp [State.init])
  · exact fun c p hleft ↦ absurd hleft List.not_mem_nil
  · exact fun c p hclosed ↦ absurd hclosed List.not_mem_nil
  · intro p sess hsess
    exact absurd hsess (by simp [State.init])

section Step

variable {cfg : Config} {s t : State} {l : Label}

theorem StreamEffect.mem_trace (h : StreamEffect s t l) {e : Event} (he : e ∈ s.trace) :
    e ∈ t.trace := by
  obtain ⟨evs, htrace, -⟩ := h.trace
  rw [htrace]
  exact List.mem_append_left evs he

theorem StreamEffect.committed (h : StreamEffect s t l) {p : ℕ} (hcommitted : Committed p s.trace) :
    Committed p t.trace := by
  obtain ⟨c, hc⟩ := hcommitted
  exact ⟨c, h.mem_trace hc⟩

/-- An event of the new trace is an old one or explained by the step. -/
theorem StreamEffect.event (h : StreamEffect s t l) {e : Event} (he : e ∈ t.trace) :
    e ∈ s.trace ∨ e.Explained s t := by
  obtain ⟨evs, htrace, hevs⟩ := h.trace
  rw [htrace] at he
  rcases List.mem_append.mp he with he | he
  · exact Or.inl he
  · exact Or.inr (hevs e he)

/-- A session that has been taken out of the slot does not come back. -/
theorem Effect.stays_out (h : Effect s t) (hslot : SlotInv s) {p : ℕ}
    (hcommitted : Committed p s.trace) (hout : s.current ≠ some p) : t.current ≠ some p := by
  cases h with
  | quiet _ hcurrent | advanced _ _ _ _ _ hcurrent | failed _ _ _ _ _ hcurrent
  | tore _ _ _ _ _ _ _ hcurrent | closed _ _ _ _ _ hcurrent =>
    rw [hcurrent]
    exact hout
  | claimed _ _ _ hcurrent | removed _ _ _ _ _ _ _ _ _ hcurrent =>
    rw [hcurrent]
    simp
  | committed c outdoor q _ hcurrent _ _ hphase =>
    rw [hcurrent]
    intro hq
    rw [Option.some.inj hq] at hphase
    exact (hslot.spawned c outdoor p hphase).2 hcommitted

theorem ConsumerInv.handled_step (h : ConsumerInv s) (hslot : SlotInv s)
    (hstream : StreamEffect s t l) (c p : ℕ) (hhandled : (t.calls c).phase.handled = some p) :
    Committed p t.trace ∧ ∃ id, .entered c (.stream id) (some p) ∈ t.trace := by
  have hold : (s.calls c).phase.handled = some p →
      Committed p t.trace ∧ ∃ id, .entered c (.stream id) (some p) ∈ t.trace := by
    intro hs
    obtain ⟨hcommitted, id, hentered⟩ := h.handled c p hs
    exact ⟨hstream.committed hcommitted, id, hstream.mem_trace hentered⟩
  obtain ⟨actor, hmove, hothers⟩ := hstream.actor
  by_cases hc : c = actor
  · subst hc
    cases hmove with
    | same hphase =>
      rw [hphase] at hhandled
      exact hold hhandled
    | moves _ _ hfrom =>
      rcases hfrom p hhandled with hs | ⟨hcurrent, hentered⟩
      · exact hold hs
      · cases hslot.status p with
        | current _ hcommitted => exact ⟨hstream.committed hcommitted, hentered⟩
        | outside hnot => exact absurd hcurrent hnot
        | tearing _ _ _ _ _ hnot => exact absurd hcurrent hnot
        | torn _ _ hnot => exact absurd hcurrent hnot
    | subscribes q _ _ hs ht =>
      rw [ht] at hhandled
      apply hold
      rw [hs]
      exact hhandled
    | joins _ _ _ _ ht =>
      rw [ht] at hhandled
      exact absurd hhandled (by simp [Phase.handled])
    | stops _ _ ht =>
      rw [ht] at hhandled
      exact absurd hhandled (by simp)
  · rw [hothers c hc] at hhandled
    exact hold hhandled

/-- A streaming handler was so before the step, or has just subscribed. -/
theorem StreamEffect.streaming (h : StreamEffect s t l) {c p k : ℕ}
    (hphase : (t.calls c).phase = .streaming p (some k)) :
    (s.calls c).phase = .streaming p (some k) ∨
      (∀ j, j ≠ c → (t.calls j).phase = (s.calls j).phase) ∧
        ∃ sess sess', s.sessions p = some sess ∧ t.sessions p = some sess' ∧
          k = sess.frameBuf.nextId ∧ sess'.frameBuf.Serves k := by
  obtain ⟨actor, hmove, hothers⟩ := h.actor
  by_cases hc : c = actor
  · subst hc
    cases hmove with
    | same hsame => exact Or.inl (hsame ▸ hphase)
    | moves _ ht => exact absurd hphase (ht p (some k))
    | subscribes q sess sess' _ ht hsess hsess' hbuffer =>
      rw [ht] at hphase
      obtain ⟨rfl, hconsumer⟩ := Phase.streaming.inj hphase
      obtain ⟨hk, hserves⟩ := FrameBuffer.serves_subscribe hconsumer
      rw [← hbuffer] at hserves
      exact Or.inr ⟨hothers, sess, sess', hsess, hsess', hk, hserves⟩
    | joins _ _ _ _ ht =>
      rw [ht] at hphase
      exact absurd hphase (by simp)
    | stops _ _ ht => exact absurd hphase (Phase.ne_streaming_of_handled ht p (some k))
  · rw [hothers c hc] at hphase
    exact Or.inl hphase

theorem ConsumerInv.serves_step (h : ConsumerInv s) (hslot : SlotInv s)
    (hstream : StreamEffect s t l) (c p k : ℕ) (sess' : Session)
    (hphase : (t.calls c).phase = .streaming p (some k)) (hsess' : t.sessions p = some sess') :
    sess'.frameBuf.Serves k := by
  rcases hstream.streaming hphase with hs | ⟨-, _, sess'', _, hsess'', _, hserves⟩
  · obtain ⟨hcommitted, -⟩ := h.handled c p (by rw [hs, Phase.handled])
    obtain ⟨sessp, hsessp⟩ := hslot.created p hcommitted
    rcases hstream.buffers p sess' hsess' with ⟨hnone, -⟩ | ⟨sess, hsess, hmove⟩
    · rw [hsessp] at hnone
      exact absurd hnone (by simp)
    · refine hmove.serves (h.serves c p k sess hs hsess) fun c' hs' ht' ↦ ?_
      rw [h.alone c' c p k hs' hs, hphase] at ht'
      exact absurd ht' (by simp)
  · rw [hsess'', Option.some.injEq] at hsess'
    rw [← hsess']
    exact hserves

/-- A new consumer has a number that no other has. -/
theorem ConsumerInv.alone_step (h : ConsumerInv s) (hstream : StreamEffect s t l) (c c' p k : ℕ)
    (hc : (t.calls c).phase = .streaming p (some k))
    (hc' : (t.calls c').phase = .streaming p (some k)) : c = c' := by
  have hfresh : ∀ {j sess}, (s.calls j).phase = .streaming p (some k) →
      s.sessions p = some sess → k ≠ sess.frameBuf.nextId := by
    intro j sess hj hsess
    exact Nat.ne_of_lt (h.serves j p k sess hj hsess).1
  rcases hstream.streaming hc with hs | ⟨hothers, sess, _, hsess, -, hk, -⟩
  · rcases hstream.streaming hc' with hs' | ⟨-, sess, _, hsess, -, hk, -⟩
    · exact h.alone c c' p k hs hs'
    · exact absurd hk (hfresh hs hsess)
  · by_contra hne
    rw [hothers c' (Ne.symm hne)] at hc'
    exact hfresh hc' hsess hk

theorem ConsumerInv.left_step (h : ConsumerInv s) (hslot : SlotInv s) (heffect : Effect s t)
    (hsessions : SameSessions s t) (hstream : StreamEffect s t l) (c p : ℕ)
    (hleft : .left c p ∈ t.trace) : Committed p t.trace ∧ Departs t c p := by
  rcases hstream.event hleft with hold | ⟨hhandled, hleaving⟩
  · obtain ⟨hcommitted, hdeparts⟩ := h.left c p hold
    refine ⟨hstream.committed hcommitted, ?_⟩
    by_cases hout : s.current = some p
    · obtain ⟨actor, hmove, hothers⟩ := hstream.actor
      -- Only the handler itself gets on with its departure.
      have hsame : (t.calls c).phase = (s.calls c).phase → Departs t c p := by
        intro hphase
        rcases hdeparts with hleaving | ⟨sess, hsess, hcalling⟩ | hnot
        · exact Or.inl (hphase.trans hleaving)
        · obtain ⟨sess', hsess', hid, -⟩ := hsessions p sess hsess
          exact Or.inr (Or.inl ⟨sess', hsess', by rw [hphase, hcalling, hid]⟩)
        · exact absurd hout hnot
      have hdeparting : (s.calls c).phase.Departing := by
        rcases hdeparts with hleaving | ⟨sess, -, hcalling⟩ | hnot
        · rw [hleaving]
          trivial
        · rw [hcalling]
          trivial
        · exact absurd hout hnot
      by_cases hc : c = actor
      · subst hc
        cases hmove with
        | same hphase => exact hsame hphase
        | moves hs => exact absurd hdeparting hs
        | subscribes _ _ _ hs =>
          rw [hs] at hdeparting
          exact hdeparting.elim
        | joins q sess hs hsess ht =>
          rcases hdeparts with hleaving | ⟨sess', -, hcalling⟩ | hnot
          · rw [hleaving] at hs
            obtain rfl := Phase.leaving.inj hs
            obtain ⟨sess', hsess', hid, -⟩ := hsessions p sess hsess
            exact Or.inr (Or.inl ⟨sess', hsess', by rw [ht, hid]⟩)
          · rw [hcalling] at hs
            exact absurd hs (by simp)
          · exact absurd hout hnot
        | stops id hs _ hgone =>
          rcases hdeparts with hleaving | ⟨sess, hsess, hcalling⟩ | hnot
          · rw [hleaving] at hs
            exact absurd hs (by simp)
          · rw [hcalling] at hs
            exact Or.inr (Or.inr (hgone p sess hsess (Op.stopById.inj (Phase.calling.inj hs))))
          · exact absurd hout hnot
      · exact hsame (hothers c hc)
    · exact Or.inr (Or.inr (heffect.stays_out hslot hcommitted hout))
  · obtain ⟨hcommitted, -⟩ := h.handled c p hhandled
    exact ⟨hstream.committed hcommitted, Or.inl hleaving⟩

theorem ConsumerInv.finClosed_step (h : ConsumerInv s) (hsessions : SameSessions s t)
    (hstream : StreamEffect s t l) (c p : ℕ) (hclosed : .finClosed c p ∈ t.trace) :
    (∃ id, .entered c (.stream id) (some p) ∈ t.trace) ∧
      ∃ sess, t.sessions p = some sess ∧ sess.frameBuf.closed = true := by
  rcases hstream.event hclosed with hold | ⟨hhandled, hsess⟩
  · obtain ⟨⟨id, hentered⟩, sess, hsess, hclosed⟩ := h.finClosed c p hold
    refine ⟨⟨id, hstream.mem_trace hentered⟩, ?_⟩
    obtain ⟨sess', hsess', -⟩ := hsessions p sess hsess
    refine ⟨sess', hsess', ?_⟩
    rcases hstream.buffers p sess' hsess' with ⟨hnone, -⟩ | ⟨sess'', hsess'', hmove⟩
    · rw [hsess] at hnone
      exact absurd hnone (by simp)
    · rw [hsess, Option.some.injEq] at hsess''
      rw [← hsess''] at hmove
      exact (hmove.history.1 hclosed).1
  · obtain ⟨-, id, hentered⟩ := h.handled c p hhandled
    exact ⟨⟨id, hstream.mem_trace hentered⟩, hsess⟩

/-- Only a FIN watcher and a teardown close a buffer. -/
theorem BufferMove.closed_cases {p : ℕ} {units : List NalUnit} {fb fb' : FrameBuffer}
    (h : BufferMove s t p units fb fb') (hclosed : fb'.closed = true) :
    fb.closed = true ∨ (∃ c, .finClosed c p ∈ t.trace) ∨ ∃ c, .tore c p .close ∈ t.trace := by
  cases h with
  | same _ heq => exact Or.inl (heq ▸ hclosed)
  | pushed n _ _ heq =>
    cases hopen : fb.closed with
    | true => exact Or.inl rfl
    | false =>
      rw [heq, (FrameBuffer.push_of_open hopen).2] at hclosed
      exact absurd hclosed (by simp)
  | sent _ hsend => exact Or.inl ((FrameBuffer.send_steady hsend).2 ▸ hclosed)
  | subscribed _ heq =>
    rw [heq, FrameBuffer.subscribe_steady.2] at hclosed
    exact Or.inl hclosed
  | received k n _ hrecv => exact Or.inl ((FrameBuffer.recv_steady hrecv).2 ▸ hclosed)
  | withdrew c k last _ _ _ hlast heq =>
    rw [heq] at hclosed
    rcases hlast with rfl | ⟨n, hrecv⟩
    · exact Or.inl hclosed
    · exact Or.inl ((FrameBuffer.recv_steady hrecv).2 ▸ hclosed)
  | closed _ _ hevent => exact Or.inr hevent

theorem ConsumerInv.closed_step (h : ConsumerInv s) (hstream : StreamEffect s t l) (p : ℕ)
    (sess' : Session) (hsess' : t.sessions p = some sess')
    (hclosed : sess'.frameBuf.closed = true) :
    (∃ c, .finClosed c p ∈ t.trace) ∨ ∃ c, .tore c p .close ∈ t.trace := by
  rcases hstream.buffers p sess' hsess' with ⟨-, hnew⟩ | ⟨sess, hsess, hmove⟩
  · rw [hnew] at hclosed
    exact absurd hclosed (by simp [FrameBuffer.new])
  · rcases hmove.closed_cases hclosed with hold | hevent
    · rcases h.closed p sess hsess hold with ⟨c, hc⟩ | ⟨c, hc⟩
      · exact Or.inl ⟨c, hstream.mem_trace hc⟩
      · exact Or.inr ⟨c, hstream.mem_trace hc⟩
    · exact hevent

theorem ConsumerInv.step (h : ConsumerInv s) (hslot : SlotInv s) (heffect : Effect s t)
    (hstream : StreamEffect s t l) : ConsumerInv t := by
  obtain ⟨hsessions, -⟩ := heffect.answerMove
  refine ⟨?_, h.handled_step hslot hstream, h.serves_step hslot hstream, h.alone_step hstream,
    h.left_step hslot heffect hsessions hstream, h.finClosed_step hsessions hstream,
    h.closed_step hstream⟩
  intro p sess' hsess'
  rcases hstream.buffers p sess' hsess' with ⟨-, hnew⟩ | ⟨sess, hsess, hmove⟩
  · rw [hnew]
    exact FrameBuffer.consistent_new
  · exact hmove.consistent (h.consistent p sess hsess)

theorem reachable_consumerInv (hreach : Reachable (Manager.step cfg) .init s) : ConsumerInv s := by
  refine hreach.invariant_of consumerInv_init fun hreach hinv hstep ↦ ?_
  have hslot := reachable_slotInv hreach
  exact hinv.step hslot (step_effect hslot.filled hstep) (step_streamEffect hstep)

end Step

/-! ### Disconnects -/

section Disconnect

variable {cfg : Config} {s t : State}

/-- Over a run an open buffer takes in every unit pushed, and a closed one none. -/
theorem exec_history (hreach : Reachable (step cfg) .init s) {labels : List Label}
    (hrun : exec (step cfg) s labels = some t) {p : ℕ} {sess : Session}
    (hsess : s.sessions p = some sess) :
    ∃ sess', t.sessions p = some sess' ∧
      (sess.frameBuf.closed = true →
        sess'.frameBuf.closed = true ∧ sess'.frameBuf.pushed = sess.frameBuf.pushed) ∧
      (sess'.frameBuf.closed = false → sess.frameBuf.closed = false ∧
        sess'.frameBuf.pushed = sess.frameBuf.pushed ++ labels.flatMap (Label.pushes p)) := by
  induction labels generalizing s sess with
  | nil =>
    rw [exec_nil, Option.some.injEq] at hrun
    rw [← hrun]
    refine ⟨sess, hsess, fun hclosed ↦ ⟨hclosed, rfl⟩, fun hopen ↦ ⟨hopen, ?_⟩⟩
    rw [List.flatMap_nil, List.append_nil]
  | cons l ls ih =>
    obtain ⟨u, hstep, hrest⟩ := exec_cons_eq_some.mp hrun
    obtain ⟨hsessions, -⟩ :=
      (step_effect (reachable_slotInv hreach).filled hstep).answerMove
    obtain ⟨sessu, hsessu, -⟩ := hsessions p sess hsess
    obtain ⟨sess', hsess', hclosed', hopen'⟩ := ih (hreach.next hstep) hrest hsessu
    rcases (step_streamEffect hstep).buffers p sessu hsessu with ⟨hnone, -⟩ | ⟨sess₀, hsess₀, hmove⟩
    · rw [hsess] at hnone
      exact absurd hnone (by simp)
    · rw [hsess, Option.some.injEq] at hsess₀
      rw [← hsess₀] at hmove
      obtain ⟨hstays, htakes⟩ := hmove.history
      refine ⟨sess', hsess', ?_, ?_⟩
      · intro hclosed
        obtain ⟨hclosedu, hpushedu⟩ := hstays hclosed
        obtain ⟨hclosedt, hpushedt⟩ := hclosed' hclosedu
        exact ⟨hclosedt, hpushedt.trans hpushedu⟩
      · intro hopen
        obtain ⟨hopenu, hpushedt⟩ := hopen' hopen
        obtain ⟨hopens, hpushedu⟩ := htakes hopenu
        refine ⟨hopens, ?_⟩
        rw [hpushedt, hpushedu, List.flatMap_cons, List.append_assoc]

/-- **What a disconnect does to the other consumers.** A handler whose `run` is over, and that has
got through its `stop_by_id`, leaves a session that is out of the slot, taken out by exactly one
call. A FIN watcher closes the buffer of the session that its handler looked up, for all its
consumers. Nothing else closes a buffer but the teardown by the call that took the session out.
Every handler that is streaming has got all units pushed since it subscribed, in order, but for
those that found its own queue full; other handlers may come and go. An open buffer takes in every
unit that is pushed, and a closed one none. -/
theorem disconnect_ends_session (hreach : Reachable (step cfg) .init s) :
    (∀ c p, .left c p ∈ s.trace → ¬ (s.calls c).phase.Departing →
      s.current ≠ some p ∧ ∃ k, removers p s.trace = [k]) ∧
    (∀ c p, .finClosed c p ∈ s.trace → (∃ id, .entered c (.stream id) (some p) ∈ s.trace) ∧
      ∃ sess, s.sessions p = some sess ∧ sess.frameBuf.closed = true) ∧
    (∀ p sess, s.sessions p = some sess → sess.frameBuf.closed = true →
      (∃ c, .finClosed c p ∈ s.trace) ∨
        ∃ c, .tore c p .close ∈ s.trace ∧ removers p s.trace = [c]) ∧
    (∀ c p k, (s.calls c).phase = .streaming p (some k) →
      ∃ sess, s.sessions p = some sess ∧ sess.frameBuf.Delivers k) ∧
    ∀ labels t, exec (step cfg) s labels = some t → ∀ p sess, s.sessions p = some sess →
      ∃ sess', t.sessions p = some sess' ∧
        (sess.frameBuf.closed = true →
          sess'.frameBuf.closed = true ∧ sess'.frameBuf.pushed = sess.frameBuf.pushed) ∧
        (sess'.frameBuf.closed = false → sess.frameBuf.closed = false ∧
          sess'.frameBuf.pushed = sess.frameBuf.pushed ++ labels.flatMap (Label.pushes p)) := by
  have hslot := reachable_slotInv hreach
  have hinv := reachable_consumerInv hreach
  refine ⟨?_, hinv.finClosed, ?_, ?_, fun labels t hrun p sess hsess ↦
    exec_history hreach hrun hsess⟩
  · intro c p hleft hdone
    obtain ⟨hcommitted, hdeparts⟩ := hinv.left c p hleft
    have hout : s.current ≠ some p := by
      rcases hdeparts with hleaving | ⟨sess, -, hcalling⟩ | hout
      · rw [hleaving] at hdone
        exact absurd trivial hdone
      · rw [hcalling] at hdone
        exact absurd trivial hdone
      · exact hout
    refine ⟨hout, ?_⟩
    cases hslot.status p with
    | outside _ hnot => exact absurd hcommitted hnot
    | current hcurrent => exact absurd hcurrent hout
    | tearing k _ _ _ _ _ _ hone => exact ⟨k, hone⟩
    | torn k _ _ _ hone => exact ⟨k, hone⟩
  · intro p sess hsess hclosed
    rcases hinv.closed p sess hsess hclosed with hfin | ⟨c, htore⟩
    · exact Or.inl hfin
    · obtain ⟨-, -, hby⟩ := (hslot.status p).tornBy_eq
      exact Or.inr ⟨c, htore, hby c .close (mem_tornBy.mpr htore)⟩
  · intro c p k hphase
    obtain ⟨hcommitted, -⟩ := hinv.handled c p (by rw [hphase, Phase.handled])
    obtain ⟨sess, hsess⟩ := hslot.created p hcommitted
    refine ⟨sess, hsess, ?_⟩
    exact (hinv.consistent p sess hsess).delivers (hinv.serves c p k sess hphase hsess)

/-- A unit of the given type. -/
def unit (nalType : UInt8) : NalUnit := ⟨nalType, [nalType], 0, 0⟩

/-- The moves with which the call `c` comes to stream the session of the given id. -/
def streamMoves (c : ℕ) (id : Str) : List Label :=
  [.call c (.stream id), .enter c, .waitIdr c, .checkReady c, .beginStream c true, .seed c true]

/-- A session with a complete seed and two consumers. -/
def twoConsumers : List Label :=
  startMoves 0 (ascii "a") 0 ++
    [.push 0 (unit NAL_TYPE_SPS), .send 0, .push 0 (unit NAL_TYPE_PPS), .send 0,
      .push 0 (unit NAL_TYPE_IDR), .send 0] ++
    streamMoves 1 (ascii "a") ++ streamMoves 2 (ascii "a")

/-- The first consumer disconnects, and its handler runs to its end. -/
def firstDisconnects : List Label :=
  [.finClose 1, .push 0 (unit NAL_TYPE_NON_IDR), .hangUp 1, .joinThreads 1, .enter 1, .teardown 1,
    .teardown 1, .teardown 1, .teardown 1]

/-- What the consumer `k` has taken out or still has queued. -/
def heldBy (k : ℕ) (sess : Session) : List NalUnit :=
  (sess.frameBuf.channels k).received ++ (sess.frameBuf.channels k).queue

/-- The disconnect of one consumer closes the buffer under the other: a unit pushed after it does
not reach the other, whose queue is empty, and the session is torn down. -/
theorem disconnect_silences_other :
    ∃ s t, Reachable (step defaultConfig) .init s ∧
      (s.calls 1).phase = .streaming 0 (some 0) ∧ (s.calls 2).phase = .streaming 0 (some 1) ∧
      exec (step defaultConfig) s firstDisconnects = some t ∧
      (t.calls 2).phase = .streaming 0 (some 1) ∧
      (t.sessions 0).map (heldBy 1) = some [] ∧
      t.current = none ∧ .tore 1 0 .close ∈ t.trace := by
  have hbefore : ((exec (step defaultConfig) .init twoConsumers).map fun s ↦
      ((s.calls 1).phase, (s.calls 2).phase)) =
        some (.streaming 0 (some 0), .streaming 0 (some 1)) := by
    decide
  have hafter : ((exec (step defaultConfig) .init (twoConsumers ++ firstDisconnects)).map fun t ↦
      ((t.calls 2).phase, (t.sessions 0).map (heldBy 1), t.current,
        decide (Event.tore 1 0 .close ∈ t.trace))) =
          some (.streaming 0 (some 1), some [], none, true) := by
    decide
  obtain ⟨s, hs, hphases⟩ := Option.map_eq_some_iff.mp hbefore
  rw [exec_append, hs, Option.bind_some] at hafter
  obtain ⟨t, ht, hend⟩ := Option.map_eq_some_iff.mp hafter
  simp only [Prod.mk.injEq, decide_eq_true_eq] at hphases hend
  exact ⟨s, t, ⟨twoConsumers, hs⟩, hphases.1, hphases.2, ht, hend⟩

/-- The same run, with what the theorem says of its end. -/
theorem disconnect_ends_session_twoConsumers :
    ∃ s, Reachable (step defaultConfig) .init s ∧ .left 1 0 ∈ s.trace ∧ .finClosed 1 0 ∈ s.trace ∧
      (s.calls 2).phase = .streaming 0 (some 1) ∧
      (s.current ≠ some 0 ∧ ∃ k, removers 0 s.trace = [k]) ∧
      (∃ sess, s.sessions 0 = some sess ∧ sess.frameBuf.closed = true) ∧
      ∃ sess, s.sessions 0 = some sess ∧ sess.frameBuf.Delivers 1 := by
  have hrun : ((exec (step defaultConfig) .init (twoConsumers ++ firstDisconnects)).map fun s ↦
      ((s.calls 1).phase, (s.calls 2).phase, decide (Event.left 1 0 ∈ s.trace),
        decide (Event.finClosed 1 0 ∈ s.trace))) =
          some (.returned .done, .streaming 0 (some 1), true, true) := by
    decide
  obtain ⟨s, hs, hend⟩ := Option.map_eq_some_iff.mp hrun
  simp only [Prod.mk.injEq, decide_eq_true_eq] at hend
  obtain ⟨hreturned, hstreaming, hleft, hfin⟩ := hend
  have hreach : Reachable (step defaultConfig) .init s := ⟨_, hs⟩
  obtain ⟨hleaves, hcloses, -, hdelivers, -⟩ := disconnect_ends_session hreach
  refine ⟨s, hreach, hleft, hfin, hstreaming, hleaves 1 0 hleft ?_, (hcloses 1 0 hfin).2,
    hdelivers 2 0 1 hstreaming⟩
  rw [hreturned]
  exact not_false

end Disconnect

end DoorAccess.Video.Manager
