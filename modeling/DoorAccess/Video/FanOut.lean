import DoorAccess.Lib.Transition
import DoorAccess.Video.FrameBuffer

/-!
# The buffer under any interleaving

One thread pushes, consumers subscribe, receive, drop their receivers and withdraw, and anyone may
close the buffer. A push is its snapshot of the senders and then one `try_send` for each of them,
and every other step may fall in between.

Each consumer has a window of the pushed units: those whose snapshot was taken after it subscribed
and before it withdrew. What it gets is its window less the units that found its queue full or its
receiver gone. To the others it makes no difference: `erased` takes everything a consumer does out
of a run, and every other channel ends up the same.
-/

set_option autoImplicit false
set_option relaxedAutoImplicit false

namespace DoorAccess.Video.FanOut

open Transition FrameBuffer

structure State where
  fb : FrameBuffer
  /-- History: the number of units pushed when a consumer withdrew. -/
  left : ℕ → Option ℕ

def State.init : State where
  fb := .new
  left := fun _ ↦ none

inductive Label
  /-- A call of `push`, up to its snapshot. -/
  | push (n : NalUnit)
  /-- The next `try_send` of the push under way, or its return. -/
  | send
  | subscribe
  /-- A consumer's subscription handle is dropped. -/
  | unsubscribe (id : ℕ)
  | dropReceiver (id : ℕ)
  | close
  | recv (id : ℕ)
  deriving DecidableEq

def step (s : State) : Label → Option State
  | .push n => if s.fb.sending.isNone then some { s with fb := s.fb.push n } else none
  | .send => s.fb.send.map fun fb ↦ { s with fb := fb }
  | .subscribe => some { s with fb := s.fb.subscribe.1 }
  | .unsubscribe id =>
    if id < s.fb.nextId ∧ (s.fb.channels id).subscribed = true then
      some {
        fb := s.fb.removeConsumer id
        left := Function.update s.left id (some s.fb.pushed.length) }
    else none
  | .dropReceiver id =>
    if (s.fb.channels id).receiverAlive = true then some { s with fb := s.fb.dropReceiver id }
    else none
  | .close => some { s with fb := s.fb.close }
  | .recv id =>
    if (s.fb.channels id).receiverAlive = true then
      (s.fb.recv id).map fun p ↦ { s with fb := p.2 }
    else none

/-- The end of the window of a consumer. -/
def State.until (s : State) (k : ℕ) : ℕ :=
  (s.left k).getD s.fb.pushed.length

/-- The units whose push took its snapshot while the consumer was subscribed. After the close no
push takes one. -/
def State.window (s : State) (k : ℕ) : List NalUnit :=
  (s.fb.pushed.take (s.until k)).drop (s.fb.channels k).since

/-! ### One inversion for all steps -/

variable {s t : State} {l : Label}

theorem step_push {n : NalUnit} (h : step s (.push n) = some t) :
    s.fb.sending = none ∧ t = { s with fb := s.fb.push n } := by
  simp only [step] at h
  split_ifs at h with hidle
  exact ⟨Option.isNone_iff_eq_none.mp hidle, (Option.some.inj h).symm⟩

theorem step_send (h : step s .send = some t) :
    ∃ fb, s.fb.send = some fb ∧ t = { s with fb := fb } := by
  obtain ⟨fb, hfb, rfl⟩ := Option.map_eq_some_iff.mp h
  exact ⟨fb, hfb, rfl⟩

theorem step_unsubscribe {id : ℕ} (h : step s (.unsubscribe id) = some t) :
    id < s.fb.nextId ∧ (s.fb.channels id).subscribed = true ∧
      t = ⟨s.fb.removeConsumer id, Function.update s.left id (some s.fb.pushed.length)⟩ := by
  simp only [step] at h
  split_ifs at h with hid
  exact ⟨hid.1, hid.2, (Option.some.inj h).symm⟩

theorem step_dropReceiver {id : ℕ} (h : step s (.dropReceiver id) = some t) :
    t = { s with fb := s.fb.dropReceiver id } := by
  simp only [step] at h
  split_ifs at h
  exact (Option.some.inj h).symm

theorem step_recv {id : ℕ} (h : step s (.recv id) = some t) :
    ∃ n fb, s.fb.recv id = some (n, fb) ∧ t = { s with fb := fb } := by
  simp only [step] at h
  split_ifs at h
  obtain ⟨p, hp, rfl⟩ := Option.map_eq_some_iff.mp h
  exact ⟨p.1, p.2, hp, rfl⟩

/-! ### The windows -/

/-- What holds of the channel of a consumer: its window is made of the units tried on it and the one
on its way, if it is, and its queue keeps to its depth. -/
structure ChannelInv (ch : Channel) (left : Option ℕ) (pushed lag : ℕ) : Prop where
  tried : ch.since + ch.fates.length + lag = left.getD pushed
  left_iff : ch.subscribed = true ↔ left = none
  left_le : left.getD pushed ≤ pushed
  depth : ch.queue.length ≤ CONSUMER_CHAN_DEPTH

structure Inv (s : State) : Prop where
  consistent : s.fb.Consistent
  channels : ∀ k < s.fb.nextId,
    ChannelInv (s.fb.channels k) (s.left k) s.fb.pushed.length (s.fb.unserved.count k)
  /-- A number not yet given out has no history. -/
  fresh : ∀ k, s.fb.nextId ≤ k → s.left k = none

theorem inv_init : Inv .init where
  consistent := consistent_new
  channels := fun k hk ↦ absurd hk (Nat.not_lt_zero k)
  fresh := fun _ _ ↦ rfl

/-- A push leaves every subscribed consumer one unit behind. -/
theorem ChannelInv.push {ch : Channel} {left : Option ℕ} {pushed lag : ℕ}
    (h : ChannelInv ch left pushed 0) (hlag : lag = if ch.subscribed then 1 else 0) :
    ChannelInv ch left (pushed + 1) lag := by
  have htried := h.tried
  have hle := h.left_le
  cases left with
  | none =>
    rw [if_pos (h.left_iff.mpr rfl)] at hlag
    refine ⟨?_, h.left_iff, Nat.le_refl _, h.depth⟩
    simp only [Option.getD_none] at htried ⊢
    omega
  | some count =>
    have hnot : ¬ch.subscribed = true := fun hsub ↦ absurd (h.left_iff.mp hsub) (by simp)
    rw [if_neg hnot] at hlag
    simp only [Option.getD_some] at htried hle
    refine ⟨?_, h.left_iff, ?_, h.depth⟩
    · simp only [Option.getD_some]
      omega
    · simp only [Option.getD_some]
      omega

/-- The unit on its way is tried. -/
theorem ChannelInv.trySend {ch : Channel} {left : Option ℕ} {pushed : ℕ}
    (h : ChannelInv ch left pushed 1) (n : NalUnit) :
    ChannelInv (ch.trySend n) left pushed 0 := by
  have htried := h.tried
  have hone : ∀ fate : Fate, ch.since + (ch.fates ++ [fate]).length + 0 = left.getD pushed := by
    intro fate
    rw [List.length_append, List.length_singleton]
    omega
  unfold Channel.trySend
  split_ifs with hgone hroom
  · exact ⟨hone .gone, h.left_iff, h.left_le, h.depth⟩
  · refine ⟨hone .queued, h.left_iff, h.left_le, ?_⟩
    rw [List.length_append, List.length_singleton]
    exact hroom
  · exact ⟨hone .full, h.left_iff, h.left_le, h.depth⟩

theorem Inv.push (h : Inv s) (hidle : s.fb.sending = none) (n : NalUnit) :
    Inv { s with fb := s.fb.push n } := by
  have hconsistent := h.consistent.push hidle n
  by_cases hclosed : s.fb.closed = true
  · rw [push_of_closed hclosed]
    exact h
  · have hopen := eq_false_of_ne_true hclosed
    have hunserved : s.fb.unserved = [] := by rw [unserved, hidle]
    obtain ⟨sps, pps, idr, idrReady, hcache⟩ := cache_eq s.fb n
    rw [FrameBuffer.push, if_neg hclosed, hcache] at hconsistent ⊢
    refine ⟨hconsistent, ?_, h.fresh⟩
    intro k hk
    have hchannel := h.channels k hk
    rw [hunserved, List.count_nil] at hchannel
    show ChannelInv (s.fb.channels k) (s.left k) (s.fb.pushed ++ [n]).length
      (s.fb.consumers.count k)
    rw [List.length_append, List.length_singleton]
    apply hchannel.push
    have hcount : s.fb.consumers.count k = if k ∈ s.fb.consumers then 1 else 0 :=
      h.consistent.nodup.1.count
    simp only [h.consistent.registered hopen k hk] at hcount
    exact hcount

theorem Inv.send (h : Inv s) {fb : FrameBuffer} (hsend : s.fb.send = some fb) :
    Inv { s with fb := fb } := by
  have hconsistent := h.consistent.send hsend
  unfold FrameBuffer.send at hsend
  split at hsend
  · exact absurd hsend (by simp)
  · rename_i n hsending
    obtain rfl := Option.some.inj hsend
    have hunserved : s.fb.unserved = [] := by rw [unserved, hsending]
    have hchannels := h.channels
    rw [hunserved] at hchannels
    exact ⟨hconsistent, hchannels, h.fresh⟩
  · rename_i n k ks hsending
    obtain rfl := Option.some.inj hsend
    have hunserved : s.fb.unserved = k :: ks := by rw [unserved, hsending]
    have hnodup := h.consistent.nodup.2
    rw [hunserved] at hnodup
    have hnotmem := (List.nodup_cons.mp hnodup).1
    refine ⟨hconsistent, ?_, h.fresh⟩
    intro j hj
    have hchannel := h.channels j hj
    rw [hunserved] at hchannel
    show ChannelInv (Function.update s.fb.channels k _ j) (s.left j) s.fb.pushed.length (ks.count j)
    by_cases hjk : j = k
    · subst hjk
      rw [List.count_cons_self, List.count_eq_zero_of_not_mem hnotmem] at hchannel
      rw [Function.update_self, List.count_eq_zero_of_not_mem hnotmem]
      exact hchannel.trySend n
    · rw [Function.update_of_ne hjk]
      rw [List.count_cons_of_ne (Ne.symm hjk)] at hchannel
      exact hchannel

theorem Inv.subscribe (h : Inv s) : Inv { s with fb := s.fb.subscribe.1 } := by
  have hconsistent := h.consistent.subscribe
  by_cases hclosed : s.fb.closed = true
  · rw [FrameBuffer.subscribe, if_pos hclosed]
    exact h
  · rw [FrameBuffer.subscribe, if_neg hclosed] at hconsistent ⊢
    refine ⟨hconsistent, ?_, fun k hk ↦ h.fresh k (Nat.le_of_succ_le hk)⟩
    intro k hk
    show ChannelInv (Function.update s.fb.channels s.fb.nextId _ k) (s.left k) s.fb.pushed.length
      (s.fb.unserved.count k)
    by_cases hnew : k = s.fb.nextId
    · have hlag : s.fb.unserved.count s.fb.nextId = 0 :=
        List.count_eq_zero_of_not_mem fun hmem ↦
          Nat.lt_irrefl _ (h.consistent.unserved_lt _ hmem)
      rw [hnew, Function.update_self, hlag, h.fresh _ (Nat.le_refl _)]
      exact ⟨rfl, iff_of_true rfl rfl, Nat.le_refl _, Nat.zero_le _⟩
    · rw [Function.update_of_ne hnew]
      exact h.channels k (Nat.lt_of_le_of_ne (Nat.le_of_lt_succ hk) hnew)

theorem Inv.unsubscribe (h : Inv s) {id : ℕ} (hid : id < s.fb.nextId)
    (hsubscribed : (s.fb.channels id).subscribed = true) :
    Inv ⟨s.fb.removeConsumer id, Function.update s.left id (some s.fb.pushed.length)⟩ := by
  refine ⟨h.consistent.removeConsumer id, ?_, ?_⟩
  · intro k hk
    have hchannel := h.channels k hk
    show ChannelInv (Function.update s.fb.channels id _ k) (Function.update s.left id _ k)
      s.fb.pushed.length (s.fb.unserved.count k)
    by_cases hkid : k = id
    · subst hkid
      rw [Function.update_self, Function.update_self]
      have htried := hchannel.tried
      rw [hchannel.left_iff.mp hsubscribed] at htried
      exact ⟨htried, iff_of_false Bool.false_ne_true (by simp), Nat.le_refl _, hchannel.depth⟩
    · rw [Function.update_of_ne hkid, Function.update_of_ne hkid]
      exact hchannel
  · intro k hk
    have hne : k ≠ id := fun heq ↦ Nat.lt_irrefl id (Nat.lt_of_lt_of_le hid (heq ▸ hk))
    show Function.update s.left id _ k = none
    rw [Function.update_of_ne hne]
    exact h.fresh k hk

/-- A change to one channel that leaves its window alone and does not lengthen its queue. -/
theorem Inv.updateChannel (h : Inv s) (id : ℕ) (ch : Channel)
    (hconsistent : FrameBuffer.Consistent
      { s.fb with channels := Function.update s.fb.channels id ch })
    (hsince : ch.since = (s.fb.channels id).since) (hfates : ch.fates = (s.fb.channels id).fates)
    (hsubscribed : ch.subscribed = (s.fb.channels id).subscribed)
    (hqueue : ch.queue.length ≤ (s.fb.channels id).queue.length) :
    Inv { s with fb := { s.fb with channels := Function.update s.fb.channels id ch } } := by
  refine ⟨hconsistent, ?_, h.fresh⟩
  intro k hk
  have hchannel := h.channels k hk
  show ChannelInv (Function.update s.fb.channels id ch k) (s.left k) s.fb.pushed.length
    (s.fb.unserved.count k)
  by_cases hkid : k = id
  · subst hkid
    rw [Function.update_self]
    refine ⟨?_, ?_, hchannel.left_le, Nat.le_trans hqueue hchannel.depth⟩
    · rw [hsince, hfates]
      exact hchannel.tried
    · rw [hsubscribed]
      exact hchannel.left_iff
  · rw [Function.update_of_ne hkid]
    exact hchannel

theorem Inv.recv (h : Inv s) {id : ℕ} {n : NalUnit} {fb : FrameBuffer}
    (hrecv : s.fb.recv id = some (n, fb)) : Inv { s with fb := fb } := by
  have hconsistent := h.consistent.recv hrecv
  unfold FrameBuffer.recv at hrecv
  split at hrecv
  · exact absurd hrecv (by simp)
  · rename_i m rest hqueue
    obtain ⟨-, rfl⟩ := Prod.mk.inj (Option.some.inj hrecv)
    refine h.updateChannel id _ hconsistent rfl rfl rfl ?_
    rw [hqueue]
    exact Nat.le_succ _

theorem Inv.close (h : Inv s) : Inv { s with fb := s.fb.close } := by
  have hconsistent := h.consistent.close
  by_cases hclosed : s.fb.closed = true
  · rw [FrameBuffer.close, if_pos hclosed]
    exact h
  · rw [FrameBuffer.close, if_neg hclosed] at hconsistent ⊢
    exact ⟨hconsistent, h.channels, h.fresh⟩

theorem step_inv (h : Inv s) (hstep : step s l = some t) : Inv t := by
  cases l with
  | push n =>
    obtain ⟨hidle, rfl⟩ := step_push hstep
    exact h.push hidle n
  | send =>
    obtain ⟨fb, hfb, rfl⟩ := step_send hstep
    exact h.send hfb
  | subscribe =>
    obtain rfl := Option.some.inj hstep
    exact h.subscribe
  | unsubscribe id =>
    obtain ⟨hid, hsubscribed, rfl⟩ := step_unsubscribe hstep
    exact h.unsubscribe hid hsubscribed
  | dropReceiver id =>
    rw [step_dropReceiver hstep]
    exact h.updateChannel id _ (h.consistent.dropReceiver id) rfl rfl rfl (Nat.le_refl _)
  | close =>
    obtain rfl := Option.some.inj hstep
    exact h.close
  | recv id =>
    obtain ⟨n, fb, hfb, rfl⟩ := step_recv hstep
    exact h.recv hfb

theorem reachable_inv (h : Reachable step .init s) : Inv s :=
  h.invariant inv_init step_inv

/-! ### What a consumer gets -/

theorem accepted_sublist (units : List NalUnit) (fates : List Fate) :
    (accepted units fates).Sublist units := by
  induction units generalizing fates with
  | nil =>
    cases fates with
    | nil | cons => exact List.Sublist.refl []
  | cons n units ih =>
    cases fates with
    | nil => exact List.nil_sublist _
    | cons fate fates =>
      cases fate with
      | queued => exact (ih fates).cons_cons n
      | full => exact (ih fates).cons n
      | gone => exact (ih fates).cons n

theorem Inv.length_window (h : Inv s) {k : ℕ} (hk : k < s.fb.nextId) :
    (s.window k).length = (s.fb.channels k).fates.length + s.fb.unserved.count k := by
  have htried := (h.channels k hk).tried
  have hle : s.until k ≤ s.fb.pushed.length := (h.channels k hk).left_le
  have huntil : s.until k = (s.left k).getD s.fb.pushed.length := rfl
  rw [State.window, List.length_drop, List.length_take]
  omega

/-- The received and the queued units are those of the window that were queued. -/
theorem Inv.holds_window (h : Inv s) {k : ℕ} (hk : k < s.fb.nextId) :
    (s.fb.channels k).received ++ (s.fb.channels k).queue =
      accepted (s.window k) (s.fb.channels k).fates := by
  have hlength := h.length_window hk
  have hsince : (s.fb.channels k).since ≤ (s.fb.pushed.take (s.until k)).length := by
    have htried := (h.channels k hk).tried
    have hle : s.until k ≤ s.fb.pushed.length := (h.channels k hk).left_le
    have huntil : s.until k = (s.left k).getD s.fb.pushed.length := rfl
    rw [List.length_take]
    omega
  have hdrop : s.fb.pushed.drop (s.fb.channels k).since =
      s.window k ++ s.fb.pushed.drop (s.until k) := by
    unfold State.window
    rw [← List.drop_append_of_le_length hsince, List.take_append_drop]
  rw [(h.consistent.agrees k hk).holds, hdrop]
  exact accepted_append _ _ _ (by omega)

/-- The fate of a unit that is tried on a channel now. -/
def fateOf (ch : Channel) : Fate :=
  if ch.receiverAlive = false then .gone
  else if ch.queue.length = CONSUMER_CHAN_DEPTH then .full
  else .queued

theorem trySend_fates {ch : Channel} (h : ch.queue.length ≤ CONSUMER_CHAN_DEPTH) (n : NalUnit) :
    (ch.trySend n).fates = ch.fates ++ [fateOf ch] := by
  unfold Channel.trySend fateOf
  split_ifs with hgone hroom hfull hfull
  · rfl
  · exact absurd hroom (by omega)
  · rfl
  · rfl
  · exact absurd hfull (by omega)

/-- A step tries the unit under way on the next channel of the snapshot, or leaves the fates of a
channel as they are. -/
theorem step_fates (h : Inv s) (hstep : step s l = some t) {k : ℕ} (hk : k < s.fb.nextId) :
    (t.fb.channels k).since = (s.fb.channels k).since ∧
      ((t.fb.channels k).fates = (s.fb.channels k).fates ∨
        l = .send ∧ (∃ n ks, s.fb.sending = some (n, k :: ks)) ∧
          (t.fb.channels k).fates = (s.fb.channels k).fates ++ [fateOf (s.fb.channels k)]) := by
  -- An update of another channel, or one that keeps these two fields.
  have hupdate : ∀ (id : ℕ) (ch : Channel), ch.since = (s.fb.channels id).since →
      ch.fates = (s.fb.channels id).fates →
      (Function.update s.fb.channels id ch k).since = (s.fb.channels k).since ∧
        (Function.update s.fb.channels id ch k).fates = (s.fb.channels k).fates := by
    intro id ch hsince hfates
    by_cases hkid : k = id
    · subst hkid
      rw [Function.update_self]
      exact ⟨hsince, hfates⟩
    · rw [Function.update_of_ne hkid]
      exact ⟨rfl, rfl⟩
  cases l with
  | push n =>
    obtain ⟨_, rfl⟩ := step_push hstep
    show (((s.fb.push n).channels k).since = _) ∧ _
    unfold FrameBuffer.push
    obtain ⟨sps, pps, idr, idrReady, hcache⟩ := cache_eq s.fb n
    rw [hcache]
    split_ifs
    · exact ⟨rfl, Or.inl rfl⟩
    · exact ⟨rfl, Or.inl rfl⟩
  | send =>
    obtain ⟨fb, hfb, rfl⟩ := step_send hstep
    unfold FrameBuffer.send at hfb
    split at hfb
    · exact absurd hfb (by simp)
    · obtain rfl := Option.some.inj hfb
      exact ⟨rfl, Or.inl rfl⟩
    · rename_i n id ks hsending
      obtain rfl := Option.some.inj hfb
      by_cases hkid : k = id
      · subst hkid
        dsimp only
        rw [Function.update_self]
        refine ⟨?_, Or.inr ⟨rfl, ⟨n, ks, hsending⟩, trySend_fates (h.channels k hk).depth n⟩⟩
        unfold Channel.trySend
        split_ifs
        · rfl
        · rfl
        · rfl
      · dsimp only
        rw [Function.update_of_ne hkid]
        exact ⟨rfl, Or.inl rfl⟩
  | subscribe =>
    obtain rfl := Option.some.inj hstep
    unfold FrameBuffer.subscribe
    split_ifs
    · exact ⟨rfl, Or.inl rfl⟩
    · dsimp only
      rw [Function.update_of_ne (Nat.ne_of_lt hk)]
      exact ⟨rfl, Or.inl rfl⟩
  | unsubscribe id =>
    obtain ⟨_, _, rfl⟩ := step_unsubscribe hstep
    obtain ⟨hsince, hfates⟩ := hupdate id { s.fb.channels id with subscribed := false } rfl rfl
    exact ⟨hsince, Or.inl hfates⟩
  | dropReceiver id =>
    rw [step_dropReceiver hstep]
    obtain ⟨hsince, hfates⟩ := hupdate id { s.fb.channels id with receiverAlive := false } rfl rfl
    exact ⟨hsince, Or.inl hfates⟩
  | close =>
    obtain rfl := Option.some.inj hstep
    unfold FrameBuffer.close
    split_ifs
    · exact ⟨rfl, Or.inl rfl⟩
    · exact ⟨rfl, Or.inl rfl⟩
  | recv id =>
    obtain ⟨n, fb, hfb, rfl⟩ := step_recv hstep
    unfold FrameBuffer.recv at hfb
    split at hfb
    · exact absurd hfb (by simp)
    · rename_i m rest _
      obtain ⟨-, rfl⟩ := Prod.mk.inj (Option.some.inj hfb)
      obtain ⟨hsince, hfates⟩ := hupdate id
        { s.fb.channels id with queue := rest, received := (s.fb.channels id).received ++ [m] }
        rfl rfl
      exact ⟨hsince, Or.inl hfates⟩

/-! ### Without a consumer -/

/-- What is left of a step when everything that the consumer `j` does and gets is taken out: it
withdraws as soon as it has subscribed. -/
def kept (j : ℕ) (s : State) : Label → List Label
  | .subscribe =>
    if s.fb.closed = false ∧ s.fb.nextId = j then [.subscribe, .unsubscribe j] else [.subscribe]
  | .send =>
    match s.fb.sending with
    | some (_, k :: _) => if k = j then [] else [.send]
    | _ => [.send]
  | .unsubscribe id => if id = j then [] else [.unsubscribe id]
  | .dropReceiver id => if id = j then [] else [.dropReceiver id]
  | .recv id => if id = j then [] else [.recv id]
  | l => [l]

/-- A run with the consumer `j` taken out. -/
def erased (j : ℕ) : State → List Label → List Label
  | _, [] => []
  | s, l :: ls =>
    match step s l with
    | none => []
    | some t => kept j s l ++ erased j t ls

/-- The second state is the first but for the consumer `j`. -/
structure Without (j : ℕ) (s t : State) : Prop where
  closed : t.fb.closed = s.fb.closed
  nextId : t.fb.nextId = s.fb.nextId
  pushed : t.fb.pushed = s.fb.pushed
  consumers : t.fb.consumers = s.fb.consumers.filter (· ≠ j)
  sending : t.fb.sending = s.fb.sending.map fun p ↦ (p.1, p.2.filter (· ≠ j))
  channels : ∀ k, k ≠ j → t.fb.channels k = s.fb.channels k

variable {j : ℕ} {u : State}

theorem without_init (j : ℕ) : Without j .init .init :=
  ⟨rfl, rfl, rfl, rfl, rfl, fun _ _ ↦ rfl⟩

/-- The channel of `j` does not matter. -/
theorem Without.updateLeft (h : Without j s u) (ch : Channel) :
    Without j { s with fb := { s.fb with channels := Function.update s.fb.channels j ch } } u := by
  refine ⟨h.closed, h.nextId, h.pushed, h.consumers, h.sending, fun k hk ↦ ?_⟩
  dsimp only
  rw [Function.update_of_ne hk]
  exact h.channels k hk

/-- The same update of another channel. -/
theorem Without.updateBoth (h : Without j s u) (id : ℕ) (ch : Channel) :
    Without j { s with fb := { s.fb with channels := Function.update s.fb.channels id ch } }
      { u with fb := { u.fb with channels := Function.update u.fb.channels id ch } } := by
  refine ⟨h.closed, h.nextId, h.pushed, h.consumers, h.sending, fun k hk ↦ ?_⟩
  dsimp only
  by_cases hkid : k = id
  · rw [hkid, Function.update_self, Function.update_self]
  · rw [Function.update_of_ne hkid, Function.update_of_ne hkid]
    exact h.channels k hk

theorem Without.push (h : Without j s u) (n : NalUnit) :
    Without j { s with fb := s.fb.push n } { u with fb := u.fb.push n } := by
  by_cases hclosed : s.fb.closed = true
  · rw [push_of_closed hclosed, push_of_closed (h.closed.trans hclosed)]
    exact h
  · obtain ⟨_, _, _, _, hcache⟩ := cache_eq s.fb n
    obtain ⟨_, _, _, _, hcache'⟩ := cache_eq u.fb n
    unfold FrameBuffer.push
    rw [if_neg hclosed, if_neg (by rw [h.closed]; exact hclosed), hcache, hcache']
    refine ⟨h.closed, h.nextId, ?_, h.consumers, ?_, h.channels⟩
    · dsimp only
      rw [h.pushed]
    · dsimp only
      rw [h.consumers]
      rfl

theorem Without.send (h : Without j s u) {fb : FrameBuffer} (hsend : s.fb.send = some fb) :
    ∃ v, exec step u (kept j s .send) = some v ∧ Without j { s with fb := fb } v := by
  have hsending' := h.sending
  unfold FrameBuffer.send at hsend
  split at hsend
  · exact absurd hsend (by simp)
  · rename_i n hsending
    obtain rfl := Option.some.inj hsend
    rw [hsending] at hsending'
    have hsent : u.fb.send = some { u.fb with sending := none } := by
      unfold FrameBuffer.send
      rw [hsending']
      rfl
    have hkept : kept j s .send = [.send] := by
      simp only [kept, hsending]
    refine ⟨{ u with fb := { u.fb with sending := none } }, ?_, ?_⟩
    · rw [hkept]
      simp only [exec, step, hsent, Option.map_some, Option.bind_some]
    · exact ⟨h.closed, h.nextId, h.pushed, h.consumers, rfl, h.channels⟩
  · rename_i n k ks hsending
    obtain rfl := Option.some.inj hsend
    rw [hsending] at hsending'
    by_cases hkj : k = j
    · -- The erased run has no `try_send` here.
      subst hkj
      have hkept : kept k s .send = [] := by
        simp only [kept, hsending, if_true]
      refine ⟨u, by rw [hkept]; rfl, h.closed, h.nextId, h.pushed, h.consumers, ?_, ?_⟩
      · simpa using hsending'
      · intro i hi
        dsimp only
        rw [Function.update_of_ne hi]
        exact h.channels i hi
    · have hfilter : (k :: ks).filter (· ≠ j) = k :: ks.filter (· ≠ j) :=
        List.filter_cons_of_pos (by simpa using hkj)
      have hsent : u.fb.send = some { u.fb with
          channels := Function.update u.fb.channels k ((u.fb.channels k).trySend n)
          sending := some (n, ks.filter (· ≠ j)) } := by
        unfold FrameBuffer.send
        rw [hsending', Option.map_some, hfilter]
      have hkept : kept j s .send = [.send] := by
        simp only [kept, hsending, if_neg hkj]
      refine ⟨{ u with fb := { u.fb with
          channels := Function.update u.fb.channels k ((u.fb.channels k).trySend n)
          sending := some (n, ks.filter (· ≠ j)) } }, ?_, ?_⟩
      · rw [hkept]
        simp only [exec, step, hsent, Option.map_some, Option.bind_some]
      · have hboth := h.updateBoth k ((s.fb.channels k).trySend n)
        rw [h.channels k hkj]
        exact ⟨hboth.closed, hboth.nextId, hboth.pushed, hboth.consumers, rfl, hboth.channels⟩

theorem Without.subscribe (h : Without j s u) :
    ∃ v, exec step u (kept j s .subscribe) = some v ∧
      Without j { s with fb := s.fb.subscribe.1 } v := by
  by_cases hclosed : s.fb.closed = true
  · have hclosed' : u.fb.closed = true := h.closed.trans hclosed
    have hkept : kept j s .subscribe = [.subscribe] := by
      unfold kept
      rw [if_neg (by rw [hclosed]; simp)]
    refine ⟨u, ?_, ?_⟩
    · rw [hkept]
      simp only [exec, step, FrameBuffer.subscribe, hclosed', if_true, Option.bind_some]
    · rw [FrameBuffer.subscribe, if_pos hclosed]
      exact h
  · have hopen := eq_false_of_ne_true hclosed
    have hclosed' : ¬u.fb.closed = true := by rw [h.closed]; exact hclosed
    rw [FrameBuffer.subscribe, if_neg hclosed]
    by_cases hnew : s.fb.nextId = j
    · -- The consumer itself subscribes: in the erased run it leaves again.
      have hkept : kept j s .subscribe = [.subscribe, .unsubscribe j] := by
        unfold kept
        rw [if_pos ⟨hopen, hnew⟩]
      have hnew' : u.fb.nextId = j := h.nextId.trans hnew
      refine ⟨⟨FrameBuffer.removeConsumer u.fb.subscribe.1 j,
        Function.update u.left j (some u.fb.pushed.length)⟩, ?_, ?_⟩
      · rw [hkept]
        simp [exec, step, FrameBuffer.subscribe, hclosed', hnew']
      · rw [FrameBuffer.subscribe, if_neg hclosed', hnew']
        refine ⟨h.closed, ?_, h.pushed, ?_, h.sending, ?_⟩
        · show j + 1 = s.fb.nextId + 1
          rw [hnew]
        · show (u.fb.consumers ++ [j]).filter (· ≠ j) =
            (s.fb.consumers ++ [s.fb.nextId]).filter (· ≠ j)
          rw [h.consumers, hnew]
          simp
        · intro k hk
          show Function.update (Function.update u.fb.channels j _) j _ k =
            Function.update s.fb.channels s.fb.nextId _ k
          rw [hnew, Function.update_of_ne hk, Function.update_of_ne hk, Function.update_of_ne hk]
          exact h.channels k hk
    · have hkept : kept j s .subscribe = [.subscribe] := by
        unfold kept
        rw [if_neg (fun hboth ↦ hnew hboth.2)]
      refine ⟨{ u with fb := u.fb.subscribe.1 }, by rw [hkept]; rfl, ?_⟩
      rw [FrameBuffer.subscribe, if_neg hclosed']
      refine ⟨h.closed, ?_, h.pushed, ?_, h.sending, ?_⟩
      · show u.fb.nextId + 1 = s.fb.nextId + 1
        rw [h.nextId]
      · show u.fb.consumers ++ [u.fb.nextId] = (s.fb.consumers ++ [s.fb.nextId]).filter (· ≠ j)
        rw [h.consumers, h.nextId, List.filter_append,
          List.filter_cons_of_pos (by simpa using hnew), List.filter_nil]
      · intro k hk
        show Function.update u.fb.channels u.fb.nextId _ k =
          Function.update s.fb.channels s.fb.nextId _ k
        rw [h.nextId, h.pushed]
        by_cases hkn : k = s.fb.nextId
        · rw [hkn, Function.update_self, Function.update_self]
        · rw [Function.update_of_ne hkn, Function.update_of_ne hkn]
          exact h.channels k hk

theorem filter_ne_comm (ids : List ℕ) (i j : ℕ) :
    (ids.filter (· ≠ j)).filter (· ≠ i) = (ids.filter (· ≠ i)).filter (· ≠ j) := by
  rw [List.filter_filter, List.filter_filter]
  exact List.filter_congr fun k _ ↦ Bool.and_comm _ _

/-- Every step is matched by what is kept of it. -/
theorem Without.step (h : Without j s u) (hstep : step s l = some t) :
    ∃ v, exec FanOut.step u (kept j s l) = some v ∧ Without j t v := by
  cases l with
  | push n =>
    obtain ⟨hidle, rfl⟩ := step_push hstep
    have hidle' : u.fb.sending = none := by
      rw [h.sending, hidle]
      rfl
    refine ⟨{ u with fb := u.fb.push n }, ?_, h.push n⟩
    simp [kept, exec, FanOut.step, hidle']
  | send =>
    obtain ⟨fb, hfb, rfl⟩ := step_send hstep
    exact h.send hfb
  | subscribe =>
    obtain rfl := Option.some.inj hstep
    exact h.subscribe
  | unsubscribe id =>
    obtain ⟨hid, hsubscribed, rfl⟩ := step_unsubscribe hstep
    by_cases hj : id = j
    · subst hj
      refine ⟨u, by simp [kept], h.closed, h.nextId, h.pushed, ?_, h.sending, ?_⟩
      · show u.fb.consumers = (s.fb.consumers.filter (· ≠ id)).filter (· ≠ id)
        rw [h.consumers, List.filter_filter]
        simp
      · intro k hk
        show u.fb.channels k = Function.update s.fb.channels id _ k
        rw [Function.update_of_ne hk]
        exact h.channels k hk
    · have hsame := h.channels id hj
      refine ⟨⟨u.fb.removeConsumer id, Function.update u.left id (some u.fb.pushed.length)⟩, ?_, ?_⟩
      · simp [kept, hj, exec, FanOut.step, h.nextId, hid, hsame, hsubscribed]
      · have hboth := h.updateBoth id { s.fb.channels id with subscribed := false }
        rw [FrameBuffer.removeConsumer, FrameBuffer.removeConsumer, hsame]
        refine ⟨h.closed, h.nextId, h.pushed, ?_, h.sending, hboth.channels⟩
        show u.fb.consumers.filter (· ≠ id) = (s.fb.consumers.filter (· ≠ id)).filter (· ≠ j)
        rw [h.consumers]
        exact filter_ne_comm s.fb.consumers id j
  | dropReceiver id =>
    have hguard := hstep
    simp only [FanOut.step] at hguard
    split_ifs at hguard with halive
    rw [step_dropReceiver hstep]
    by_cases hj : id = j
    · subst hj
      exact ⟨u, by simp [kept], h.updateLeft _⟩
    · have hsame := h.channels id hj
      refine ⟨{ u with fb := u.fb.dropReceiver id }, ?_, ?_⟩
      · simp [kept, hj, exec, FanOut.step, hsame, halive]
      · unfold FrameBuffer.dropReceiver
        rw [hsame]
        exact h.updateBoth id _
  | close =>
    obtain rfl := Option.some.inj hstep
    refine ⟨{ u with fb := u.fb.close }, by simp [kept, exec, FanOut.step], ?_⟩
    by_cases hclosed : s.fb.closed = true
    · rw [FrameBuffer.close, FrameBuffer.close, if_pos hclosed, if_pos (h.closed.trans hclosed)]
      exact h
    · rw [FrameBuffer.close, FrameBuffer.close, if_neg hclosed,
        if_neg (by rw [h.closed]; exact hclosed)]
      exact ⟨rfl, h.nextId, h.pushed, rfl, h.sending, h.channels⟩
  | recv id =>
    have hguard := hstep
    simp only [FanOut.step] at hguard
    split_ifs at hguard with halive
    obtain ⟨n, fb, hfb, rfl⟩ := step_recv hstep
    have hrecv := hfb
    unfold FrameBuffer.recv at hfb
    split at hfb
    · exact absurd hfb (by simp)
    · rename_i m rest hqueue
      obtain ⟨-, rfl⟩ := Prod.mk.inj (Option.some.inj hfb)
      by_cases hj : id = j
      · subst hj
        exact ⟨u, by simp [kept], h.updateLeft _⟩
      · have hsame := h.channels id hj
        have hrecv' : u.fb.recv id = some (m, { u.fb with
            channels := Function.update u.fb.channels id { s.fb.channels id with
              queue := rest
              received := (s.fb.channels id).received ++ [m] } }) := by
          simp only [FrameBuffer.recv, hsame, hqueue]
        refine ⟨{ u with fb := { u.fb with
            channels := Function.update u.fb.channels id { s.fb.channels id with
              queue := rest
              received := (s.fb.channels id).received ++ [m] } } }, ?_, h.updateBoth id _⟩
        simp [kept, hj, exec, FanOut.step, hsame, halive, hrecv']

theorem Without.exec {labels : List Label} (h : Without j s u)
    (hrun : exec FanOut.step s labels = some t) :
    ∃ v, Transition.exec FanOut.step u (erased j s labels) = some v ∧ Without j t v := by
  induction labels generalizing s u with
  | nil =>
    obtain rfl := Option.some.inj hrun
    exact ⟨u, rfl, h⟩
  | cons l labels ih =>
    obtain ⟨m, hfirst, hrest⟩ := exec_cons_eq_some.mp hrun
    obtain ⟨v, hv, hwithout⟩ := h.step hfirst
    obtain ⟨w, hw, hend⟩ := ih hwithout hrest
    refine ⟨w, ?_, hend⟩
    unfold erased
    rw [hfirst]
    dsimp only
    rw [exec_append, hv]
    exact hw

/-! ### The fan-out -/

/-- Under every interleaving of a pushing thread with the consumers, each consumer receives, in
order and each at most once, units of its window; a unit of the window that has been tried is
missing only if it found the queue at its depth or the receiver gone, and at most one, which is on
its way, has not been tried; and every other channel is as it would be without the consumer. -/
theorem fanOut {labels : List Label} {s : State} (hrun : exec step .init labels = some s) :
    (∀ k < s.fb.nextId,
      (s.fb.channels k).received.Sublist (s.window k) ∧
      (s.fb.channels k).received ++ (s.fb.channels k).queue =
        accepted (s.window k) (s.fb.channels k).fates ∧
      (s.window k).length = (s.fb.channels k).fates.length + s.fb.unserved.count k ∧
      s.fb.unserved.count k ≤ 1) ∧
    (∀ l t, step s l = some t → ∀ k < s.fb.nextId,
      (t.fb.channels k).since = (s.fb.channels k).since ∧
      ((t.fb.channels k).fates = (s.fb.channels k).fates ∨
        l = .send ∧ (∃ n ks, s.fb.sending = some (n, k :: ks)) ∧
          (t.fb.channels k).fates = (s.fb.channels k).fates ++
            [if (s.fb.channels k).receiverAlive = false then .gone
            else if (s.fb.channels k).queue.length = CONSUMER_CHAN_DEPTH then .full
            else .queued])) ∧
    ∀ j, ∃ t, exec step .init (erased j .init labels) = some t ∧ t.fb.pushed = s.fb.pushed ∧
      ∀ k, k ≠ j → t.fb.channels k = s.fb.channels k := by
  have hinv := reachable_inv ⟨labels, hrun⟩
  refine ⟨?_, ?_, ?_⟩
  · intro k hk
    have hholds := hinv.holds_window hk
    refine ⟨?_, hholds, hinv.length_window hk, ?_⟩
    · have hall : ((s.fb.channels k).received ++ (s.fb.channels k).queue).Sublist (s.window k) := by
        rw [hholds]
        exact accepted_sublist _ _
      exact (List.sublist_append_left _ _).trans hall
    · exact List.nodup_iff_count_le_one.mp hinv.consistent.nodup.2 k
  · intro l t hstep k hk
    exact step_fates hinv hstep hk
  · intro j
    obtain ⟨t, ht, hwithout⟩ := (without_init j).exec hrun
    exact ⟨t, ht, hwithout.pushed, hwithout.channels⟩

/-- Two consumers, the first of which drops its receiver between the snapshot and its `try_send`. -/
def departing : List Label :=
  [.subscribe, .subscribe, .push ⟨1, [0x61], 0, 0⟩, .dropReceiver 0, .send, .send, .recv 1]

theorem fanOut_departing :
    ∃ s, exec step .init departing = some s ∧
      (s.fb.channels 0).fates = [.gone] ∧ (s.fb.channels 1).received = [⟨1, [0x61], 0, 0⟩] ∧
      (s.fb.channels 1).received.Sublist (s.window 1) ∧
      ∃ t, exec step .init (erased 0 .init departing) = some t ∧
        t.fb.channels 1 = s.fb.channels 1 := by
  have hrun : ((exec step .init departing).map fun s ↦
      (s.fb.nextId, (s.fb.channels 0).fates, (s.fb.channels 1).received)) =
        some (2, [.gone], [⟨1, [0x61], 0, 0⟩]) := by
    decide
  obtain ⟨s, hs, hend⟩ := Option.map_eq_some_iff.mp hrun
  simp only [Prod.mk.injEq] at hend
  obtain ⟨hwindows, _, hothers⟩ := fanOut hs
  obtain ⟨t, ht, _, hsame⟩ := hothers 0
  exact ⟨s, hs, hend.2.1, hend.2.2, (hwindows 1 (by rw [hend.1]; exact Nat.lt_succ_self 1)).1, t,
    ht, hsame 1 Nat.one_ne_zero⟩

end DoorAccess.Video.FanOut
