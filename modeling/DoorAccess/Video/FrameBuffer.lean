import DoorAccess.Video.Rtp
import Mathlib.Data.List.Nodup
import Mathlib.Logic.Function.Basic

/-!
# The fan-out buffer

`FrameBuffer` of `frame_buffer.rs`: the last SPS, PPS and IDR for a new consumer, and one bounded
channel for each consumer. A push takes its snapshot of the senders under the lock and serves them
one by one outside, so other threads can come in between: the buffer carries the push that is under
way (`sending`). A consumer and its channel share a number.

Three fields are history and are read by no function: the units that `push` has taken in (`pushed`),
and for each channel where in that list its subscription lies (`since`) and what became of each unit
that was tried on it (`fates`). `Consistent` ties them to the queues, and every operation keeps it:
what a channel has handed out and still holds are the units pushed since the subscription, less
those that found it full or its receiver gone.
-/

set_option autoImplicit false
set_option relaxedAutoImplicit false

namespace DoorAccess.Video

/-! ### Channels -/

def CONSUMER_CHAN_DEPTH : ℕ := 64

/-- What `try_send` does with a unit. -/
inductive Fate
  | queued
  | full
  /-- The receiver has been dropped. -/
  | gone
  deriving DecidableEq, Repr

/-- The `sync_channel` of one consumer. -/
structure Channel where
  queue : List NalUnit
  receiverAlive : Bool
  /-- What the consumer has taken out. -/
  received : List NalUnit
  /-- History: the consumer has not withdrawn. -/
  subscribed : Bool
  /-- History: the number of units pushed before the subscription. -/
  since : ℕ
  /-- History: what became of the units tried since. -/
  fates : List Fate

/-- `try_send`. -/
def Channel.trySend (ch : Channel) (n : NalUnit) : Channel :=
  if ch.receiverAlive = false then { ch with fates := ch.fates ++ [.gone] }
  else if ch.queue.length < CONSUMER_CHAN_DEPTH then
    { ch with queue := ch.queue ++ [n], fates := ch.fates ++ [.queued] }
  else { ch with fates := ch.fates ++ [.full] }

/-! ### The buffer -/

structure FrameBuffer where
  sps : Option NalUnit
  pps : Option NalUnit
  idr : Option NalUnit
  idrReady : Bool
  closed : Bool
  /-- The consumers whose senders are registered. -/
  consumers : List ℕ
  nextId : ℕ
  channels : ℕ → Channel
  /-- The push under way: its unit and the senders of its snapshot still to be served. -/
  sending : Option (NalUnit × List ℕ)
  /-- History: the units of the pushes that found the buffer open. -/
  pushed : List NalUnit

namespace FrameBuffer

def new : FrameBuffer where
  sps := none
  pps := none
  idr := none
  idrReady := false
  closed := false
  consumers := []
  nextId := 0
  channels := fun _ ↦ ⟨[], false, [], false, 0, []⟩
  sending := none
  pushed := []

/-- The seed cache of `push`. -/
def cache (fb : FrameBuffer) (n : NalUnit) : FrameBuffer :=
  if n.nalType = NAL_TYPE_SPS then { fb with sps := some n }
  else if n.nalType = NAL_TYPE_PPS then { fb with pps := some n }
  else if n.nalType = NAL_TYPE_IDR then { fb with idr := some n, idrReady := true }
  else fb

/-- `push` up to its snapshot of the senders. -/
def push (fb : FrameBuffer) (n : NalUnit) : FrameBuffer :=
  if fb.closed then fb
  else { fb.cache n with
    sending := some (n, fb.consumers)
    pushed := fb.pushed ++ [n] }

/-- One turn of the loop of `push` over its snapshot, `none` when no push is under way. -/
def send (fb : FrameBuffer) : Option FrameBuffer :=
  match fb.sending with
  | none => none
  | some (_, []) => some { fb with sending := none }
  | some (n, k :: ks) =>
    some { fb with
      channels := Function.update fb.channels k ((fb.channels k).trySend n)
      sending := some (n, ks) }

/-- `subscribe`: no consumer number once the buffer is closed. -/
def subscribe (fb : FrameBuffer) : FrameBuffer × Option ℕ :=
  if fb.closed then (fb, none)
  else
    ({ fb with
      consumers := fb.consumers ++ [fb.nextId]
      nextId := fb.nextId + 1
      channels :=
        Function.update fb.channels fb.nextId ⟨[], true, [], true, fb.pushed.length, []⟩ },
      some fb.nextId)

/-- `remove_consumer`. -/
def removeConsumer (fb : FrameBuffer) (id : ℕ) : FrameBuffer :=
  { fb with
    consumers := fb.consumers.filter (· ≠ id)
    channels := Function.update fb.channels id { fb.channels id with subscribed := false } }

/-- The consumer drops its receiver, and what is queued with it. -/
def dropReceiver (fb : FrameBuffer) (id : ℕ) : FrameBuffer :=
  { fb with
    channels := Function.update fb.channels id { fb.channels id with receiverAlive := false } }

/-- `close`. -/
def close (fb : FrameBuffer) : FrameBuffer :=
  if fb.closed then fb else { fb with closed := true, consumers := [] }

/-- A unit taken from the channel of a consumer, `none` when nothing is queued. -/
def recv (fb : FrameBuffer) (id : ℕ) : Option (NalUnit × FrameBuffer) :=
  match (fb.channels id).queue with
  | [] => none
  | n :: rest =>
    some (n, { fb with
      channels := Function.update fb.channels id { fb.channels id with
        queue := rest
        received := (fb.channels id).received ++ [n] } })

/-- The senders of a snapshot that are still to be served. -/
def unserved (fb : FrameBuffer) : List ℕ :=
  match fb.sending with
  | none => []
  | some (_, ks) => ks

/-- The receiver of a channel finds it disconnected: nothing queued, and no sender left. -/
def disconnected (fb : FrameBuffer) (id : ℕ) : Bool :=
  (fb.channels id).queue.isEmpty && !fb.consumers.contains id && !fb.unserved.contains id

/-- `latest_idr`: the three seed units, when they are there and of one stream epoch. -/
def latestIdr (fb : FrameBuffer) : Option (NalUnit × NalUnit × NalUnit) :=
  match fb.sps, fb.pps, fb.idr with
  | some sps, some pps, some idr =>
    if sps.streamEpoch = idr.streamEpoch ∧ pps.streamEpoch = idr.streamEpoch then
      some (sps, pps, idr)
    else none
  | _, _, _ => none

/-- `consumer_count`. -/
def consumerCount (fb : FrameBuffer) : ℕ :=
  fb.consumers.length

end FrameBuffer

/-! ### What a consumer gets -/

/-- The units of a list that were queued, by the fates of its first ones. -/
def accepted : List NalUnit → List Fate → List NalUnit
  | n :: ns, .queued :: fates => n :: accepted ns fates
  | _ :: ns, _ :: fates => accepted ns fates
  | _, _ => []

theorem accepted_append (units more : List NalUnit) (fates : List Fate)
    (h : fates.length ≤ units.length) : accepted (units ++ more) fates = accepted units fates := by
  induction units generalizing fates with
  | nil =>
    have hnil : fates = [] := List.length_eq_zero_iff.mp (Nat.le_zero.mp h)
    rw [hnil]
    cases more with
    | nil | cons => rfl
  | cons n ns ih =>
    cases fates with
    | nil => rfl
    | cons fate fates =>
      have hrest := ih fates (Nat.le_of_succ_le_succ h)
      cases fate with
      | queued => exact congrArg (n :: ·) hrest
      | full => exact hrest
      | gone => exact hrest

theorem accepted_concat (units : List NalUnit) (n : NalUnit) (fates : List Fate) (fate : Fate)
    (h : fates.length = units.length) :
    accepted (units ++ [n]) (fates ++ [fate]) =
      accepted units fates ++ if fate = .queued then [n] else [] := by
  induction units generalizing fates with
  | nil =>
    have hnil : fates = [] := List.length_eq_zero_iff.mp h
    rw [hnil]
    cases fate with
    | queued | full | gone => rfl
  | cons m ns ih =>
    cases fates with
    | nil => exact absurd h (by simp)
    | cons first fates =>
      have hrest := ih fates (Nat.succ.inj h)
      cases first with
      | queued => exact congrArg (m :: ·) hrest
      | full => exact hrest
      | gone => exact hrest

/-- A channel agrees with the units pushed so far, the last `lag` of which have not been tried on
it. Only a consumer that has withdrawn may have missed any. -/
structure Channel.Agrees (ch : Channel) (pushed : List NalUnit) (lag : ℕ) :
    Prop where
  le : ch.since + ch.fates.length + lag ≤ pushed.length
  caughtUp : ch.subscribed = true ∨ lag = 1 → ch.since + ch.fates.length + lag = pushed.length
  holds : ch.received ++ ch.queue = accepted (pushed.drop ch.since) ch.fates
  /-- While the receiver lives a unit is lost only to a full queue. -/
  alive : ch.receiverAlive = true → Fate.gone ∉ ch.fates

namespace Channel

variable {ch : Channel} {pushed before : List NalUnit} {n : NalUnit} {lag : ℕ}

/-- A push leaves a subscribed consumer one unit behind and does not concern the others. -/
theorem Agrees.push (h : ch.Agrees pushed 0) (hlag : lag = if ch.subscribed then 1 else 0) :
    ch.Agrees (pushed ++ [n]) lag := by
  have hle : ch.since + ch.fates.length ≤ pushed.length := h.le
  have hlength : (pushed ++ [n]).length = pushed.length + 1 := by simp
  have hlagle : lag ≤ 1 := by
    rw [hlag]
    split_ifs
    · exact Nat.le_refl 1
    · exact Nat.zero_le 1
  refine ⟨by omega, ?_, ?_, h.alive⟩
  · intro hcase
    have hsubscribed : ch.subscribed = true := by
      rcases hcase with hsubscribed | hone
      · exact hsubscribed
      · by_contra hnot
        rw [if_neg hnot] at hlag
        omega
    have heq := h.caughtUp (Or.inl hsubscribed)
    rw [if_pos hsubscribed] at hlag
    omega
  · rw [List.drop_append_of_le_length (by omega), accepted_append]
    · exact h.holds
    · rw [List.length_drop]
      omega

/-- The unit under way is tried on a channel that is behind. -/
theorem Agrees.trySend (h : ch.Agrees (before ++ [n]) 1) :
    (ch.trySend n).Agrees (before ++ [n]) 0 := by
  have heq := h.caughtUp (Or.inr rfl)
  rw [List.length_append, List.length_singleton] at heq
  have hdrop : (before ++ [n]).drop ch.since = before.drop ch.since ++ [n] :=
    List.drop_append_of_le_length (by omega)
  have hfates : ch.fates.length = (before.drop ch.since).length := by
    rw [List.length_drop]
    omega
  have hholds := h.holds
  rw [hdrop, accepted_append _ _ _ (Nat.le_of_eq hfates)] at hholds
  have hconcat : ∀ fate, accepted ((before ++ [n]).drop ch.since) (ch.fates ++ [fate]) =
      (ch.received ++ ch.queue) ++ if fate = .queued then [n] else [] := by
    intro fate
    rw [hdrop, accepted_concat _ _ _ _ hfates, hholds]
  -- In each case `fates` is one longer, which makes up for the lag.
  have hlonger : ∀ fate : Fate,
      ch.since + (ch.fates ++ [fate]).length = (before ++ [n]).length := by
    intro fate
    simp only [List.length_append, List.length_singleton]
    omega
  unfold Channel.trySend
  split_ifs with hgone
  · refine ⟨Nat.le_of_eq (hlonger .gone), fun _ ↦ hlonger .gone, ?_, fun halive ↦ ?_⟩
    · rw [hconcat]
      simp
    · rw [halive] at hgone
      exact absurd hgone.symm Bool.false_ne_true
  · refine ⟨Nat.le_of_eq (hlonger .queued), fun _ ↦ hlonger .queued, ?_, fun halive ↦ ?_⟩
    · rw [hconcat]
      simp
    · simpa using h.alive halive
  · refine ⟨Nat.le_of_eq (hlonger .full), fun _ ↦ hlonger .full, ?_, fun halive ↦ ?_⟩
    · rw [hconcat]
      simp
    · simpa using h.alive halive

end Channel

namespace FrameBuffer

/-- The channels agree with the history of the pushes. -/
structure Consistent (fb : FrameBuffer) : Prop where
  consumers_lt : ∀ k ∈ fb.consumers, k < fb.nextId
  nodup : fb.consumers.Nodup ∧ fb.unserved.Nodup
  /-- While the buffer is open exactly the subscribed consumers are registered. -/
  registered : fb.closed = false → ∀ k < fb.nextId,
    k ∈ fb.consumers ↔ (fb.channels k).subscribed = true
  last : ∀ n ks, fb.sending = some (n, ks) → ∃ before, fb.pushed = before ++ [n]
  unserved_lt : ∀ k ∈ fb.unserved, k < fb.nextId
  agrees : ∀ k < fb.nextId, (fb.channels k).Agrees fb.pushed (fb.unserved.count k)

theorem consistent_new : Consistent new := by
  constructor
  · exact fun k hk ↦ absurd hk List.not_mem_nil
  · exact ⟨List.nodup_nil, List.nodup_nil⟩
  · exact fun _ k hk ↦ absurd hk (Nat.not_lt_zero k)
  · exact fun n ks hsending ↦ absurd hsending (by simp [new])
  · exact fun k hk ↦ absurd hk List.not_mem_nil
  · exact fun k hk ↦ absurd hk (Nat.not_lt_zero k)

variable {fb : FrameBuffer}

/-- The cache leaves everything else as it is. -/
theorem cache_eq (fb : FrameBuffer) (n : NalUnit) :
    ∃ sps pps idr idrReady, fb.cache n =
      { fb with sps := sps, pps := pps, idr := idr, idrReady := idrReady } := by
  unfold cache
  split_ifs
  · exact ⟨_, _, _, _, rfl⟩
  · exact ⟨_, _, _, _, rfl⟩
  · exact ⟨_, _, _, _, rfl⟩
  · exact ⟨_, _, _, _, rfl⟩

theorem Consistent.push (h : Consistent fb) (hidle : fb.sending = none) (n : NalUnit) :
    Consistent (fb.push n) := by
  by_cases hclosed : fb.closed = true
  · rw [FrameBuffer.push, if_pos hclosed]
    exact h
  · have hopen := eq_false_of_ne_true hclosed
    have hunserved : fb.unserved = [] := by rw [unserved, hidle]
    obtain ⟨sps, pps, idr, idrReady, hcache⟩ := cache_eq fb n
    rw [FrameBuffer.push, if_neg hclosed, hcache]
    constructor
    · exact h.consumers_lt
    · exact ⟨h.nodup.1, h.nodup.1⟩
    · exact h.registered
    · intro m ks hsending
      obtain ⟨rfl, -⟩ := Prod.mk.inj (Option.some.inj hsending)
      exact ⟨fb.pushed, rfl⟩
    · exact h.consumers_lt
    · intro k hk
      have hagrees := h.agrees k hk
      rw [hunserved, List.count_nil] at hagrees
      apply hagrees.push
      have hcount : fb.consumers.count k = if k ∈ fb.consumers then 1 else 0 :=
        h.nodup.1.count
      simp only [h.registered hopen k hk] at hcount
      exact hcount

theorem Consistent.send (h : Consistent fb) {fb' : FrameBuffer} (hsend : fb.send = some fb') :
    Consistent fb' := by
  unfold FrameBuffer.send at hsend
  split at hsend
  · exact absurd hsend (by simp)
  · rename_i n hsending
    obtain rfl := Option.some.inj hsend
    have hunserved : fb.unserved = [] := by rw [unserved, hsending]
    have hagrees := h.agrees
    rw [hunserved] at hagrees
    refine ⟨h.consumers_lt, ⟨h.nodup.1, List.nodup_nil⟩, h.registered, ?_, ?_, hagrees⟩
    · exact fun m ks hnone ↦ absurd hnone (by simp)
    · exact fun k hk ↦ absurd hk List.not_mem_nil
  · rename_i n k ks hsending
    obtain rfl := Option.some.inj hsend
    have hunserved : fb.unserved = k :: ks := by rw [unserved, hsending]
    obtain ⟨before, hpushed⟩ := h.last n (k :: ks) hsending
    have hnodup := h.nodup.2
    rw [hunserved] at hnodup
    obtain ⟨hnotmem, hks⟩ := List.nodup_cons.mp hnodup
    have hlt : ∀ j ∈ k :: ks, j < fb.nextId := by
      rw [← hunserved]
      exact h.unserved_lt
    refine ⟨h.consumers_lt, ⟨h.nodup.1, hks⟩, ?_, ?_, ?_, ?_⟩
    · intro hopen j hj
      rw [h.registered hopen j hj]
      by_cases hjk : j = k
      · subst hjk
        simp only [Function.update_self, Channel.trySend]
        split_ifs
        · rfl
        · rfl
        · rfl
      · simp only [Function.update_of_ne hjk]
    · intro m ks' hsending'
      obtain ⟨rfl, -⟩ := Prod.mk.inj (Option.some.inj hsending')
      exact ⟨before, hpushed⟩
    · exact fun j hj ↦ hlt j (List.mem_cons_of_mem k hj)
    · intro j hj
      have hagrees := h.agrees j hj
      rw [hunserved] at hagrees
      show (Function.update fb.channels k _ j).Agrees fb.pushed (ks.count j)
      by_cases hjk : j = k
      · subst hjk
        rw [List.count_cons_self, List.count_eq_zero_of_not_mem hnotmem, hpushed] at hagrees
        rw [Function.update_self, List.count_eq_zero_of_not_mem hnotmem, hpushed]
        exact hagrees.trySend
      · rw [Function.update_of_ne hjk]
        rw [List.count_cons_of_ne (Ne.symm hjk)] at hagrees
        exact hagrees

theorem Consistent.subscribe (h : Consistent fb) : Consistent fb.subscribe.1 := by
  by_cases hclosed : fb.closed = true
  · rw [FrameBuffer.subscribe, if_pos hclosed]
    exact h
  · rw [FrameBuffer.subscribe, if_neg hclosed]
    have hfresh : fb.nextId ∉ fb.consumers :=
      fun hmem ↦ Nat.lt_irrefl _ (h.consumers_lt _ hmem)
    have hunserved : fb.unserved.count fb.nextId = 0 := by
      refine List.count_eq_zero_of_not_mem fun hmem ↦ ?_
      exact Nat.lt_irrefl _ (h.unserved_lt _ hmem)
    constructor
    · intro k hk
      rcases List.mem_append.mp hk with hk | hk
      · exact Nat.lt_succ_of_lt (h.consumers_lt k hk)
      · rw [List.mem_singleton.mp hk]
        exact Nat.lt_succ_self _
    · exact ⟨List.nodup_append.mpr ⟨h.nodup.1, List.nodup_singleton _, fun a ha b hb hab ↦
        hfresh (List.mem_singleton.mp hb ▸ hab ▸ ha)⟩, h.nodup.2⟩
    · intro hopen k hk
      by_cases hnew : k = fb.nextId
      · subst hnew
        simp
      · have hold : k < fb.nextId := Nat.lt_of_le_of_ne (Nat.le_of_lt_succ hk) hnew
        simp only [List.mem_append, List.mem_singleton, hnew, or_false, Function.update_of_ne hnew]
        exact h.registered hopen k hold
    · exact h.last
    · exact fun k hk ↦ Nat.lt_succ_of_lt (h.unserved_lt k hk)
    · intro k hk
      show (Function.update fb.channels fb.nextId _ k).Agrees fb.pushed (fb.unserved.count k)
      by_cases hnew : k = fb.nextId
      · rw [hnew, Function.update_self, hunserved]
        refine ⟨Nat.le_refl _, fun _ ↦ rfl, ?_, fun _ ↦ List.not_mem_nil⟩
        rw [List.drop_length]
        rfl
      · have hold : k < fb.nextId := Nat.lt_of_le_of_ne (Nat.le_of_lt_succ hk) hnew
        rw [Function.update_of_ne hnew]
        exact h.agrees k hold

theorem Consistent.removeConsumer (h : Consistent fb) (id : ℕ) :
    Consistent (fb.removeConsumer id) := by
  constructor
  · exact fun k hk ↦ h.consumers_lt k (List.mem_of_mem_filter hk)
  · exact ⟨h.nodup.1.filter _, h.nodup.2⟩
  · intro hopen k hk
    simp only [FrameBuffer.removeConsumer, List.mem_filter, h.registered hopen k hk,
      decide_eq_true_eq]
    by_cases hid : k = id
    · subst hid
      simp
    · simp [hid]
  · exact h.last
  · exact h.unserved_lt
  · intro k hk
    show (Function.update fb.channels id _ k).Agrees fb.pushed (fb.unserved.count k)
    have hagrees := h.agrees k hk
    by_cases hid : k = id
    · subst hid
      rw [Function.update_self]
      refine ⟨hagrees.le, fun hcase ↦ hagrees.caughtUp (Or.inr ?_), hagrees.holds, hagrees.alive⟩
      exact hcase.resolve_left Bool.false_ne_true
    · rw [Function.update_of_ne hid]
      exact hagrees

/-- A change to one channel that keeps its subscription and its agreement. -/
theorem Consistent.updateChannel (h : Consistent fb) (id : ℕ) (ch : Channel)
    (hsubscribed : ch.subscribed = (fb.channels id).subscribed)
    (hagrees : ∀ lag, (fb.channels id).Agrees fb.pushed lag → ch.Agrees fb.pushed lag) :
    Consistent { fb with channels := Function.update fb.channels id ch } := by
  refine ⟨h.consumers_lt, h.nodup, ?_, h.last, h.unserved_lt, ?_⟩
  · intro hopen k hk
    rw [h.registered hopen k hk]
    by_cases hid : k = id
    · subst hid
      simp only [Function.update_self, hsubscribed]
    · simp only [Function.update_of_ne hid]
  · intro k hk
    show (Function.update fb.channels id ch k).Agrees fb.pushed (fb.unserved.count k)
    by_cases hid : k = id
    · subst hid
      rw [Function.update_self]
      exact hagrees _ (h.agrees k hk)
    · rw [Function.update_of_ne hid]
      exact h.agrees k hk

theorem Consistent.dropReceiver (h : Consistent fb) (id : ℕ) :
    Consistent (fb.dropReceiver id) :=
  h.updateChannel id _ rfl fun _ hagrees ↦
    ⟨hagrees.le, hagrees.caughtUp, hagrees.holds, fun halive ↦ absurd halive Bool.false_ne_true⟩

theorem Consistent.recv (h : Consistent fb) {id : ℕ} {n : NalUnit} {fb' : FrameBuffer}
    (hrecv : fb.recv id = some (n, fb')) : Consistent fb' := by
  unfold FrameBuffer.recv at hrecv
  split at hrecv
  · exact absurd hrecv (by simp)
  · rename_i m rest hqueue
    obtain ⟨-, rfl⟩ := Prod.mk.inj (Option.some.inj hrecv)
    refine h.updateChannel id _ rfl fun lag hagrees ↦
      ⟨hagrees.le, hagrees.caughtUp, ?_, hagrees.alive⟩
    rw [← hagrees.holds, hqueue, List.append_assoc]
    rfl

theorem close_closed (fb : FrameBuffer) : fb.close.closed = true := by
  by_cases hclosed : fb.closed = true
  · rw [FrameBuffer.close, if_pos hclosed]
    exact hclosed
  · rw [FrameBuffer.close, if_neg hclosed]

theorem Consistent.close (h : Consistent fb) : Consistent fb.close := by
  by_cases hclosed : fb.closed = true
  · rw [FrameBuffer.close, if_pos hclosed]
    exact h
  · rw [FrameBuffer.close, if_neg hclosed]
    refine ⟨?_, ⟨List.nodup_nil, h.nodup.2⟩, ?_, h.last, h.unserved_lt, h.agrees⟩
    · exact fun k hk ↦ absurd hk List.not_mem_nil
    · intro hopen
      exact absurd hopen (by simp)

/-! ### What an operation leaves alone -/

/-- No unit was pushed, and the buffer is as open or closed as it was. -/
def Steady (fb fb' : FrameBuffer) : Prop :=
  fb'.pushed = fb.pushed ∧ fb'.closed = fb.closed

/-- The consumer has subscribed, has not withdrawn and has its receiver in hand. -/
def Serves (fb : FrameBuffer) (k : ℕ) : Prop :=
  k < fb.nextId ∧ (fb.channels k).subscribed = true ∧ (fb.channels k).receiverAlive = true

section Operations

variable {fb' : FrameBuffer} {k id : ℕ} {n : NalUnit}

theorem send_steady (h : fb.send = some fb') : Steady fb fb' := by
  unfold FrameBuffer.send at h
  split at h
  · exact absurd h (by simp)
  · obtain rfl := Option.some.inj h
    exact ⟨rfl, rfl⟩
  · obtain rfl := Option.some.inj h
    exact ⟨rfl, rfl⟩

theorem recv_steady (h : fb.recv id = some (n, fb')) : Steady fb fb' := by
  unfold FrameBuffer.recv at h
  split at h
  · exact absurd h (by simp)
  · obtain ⟨-, rfl⟩ := Prod.mk.inj (Option.some.inj h)
    exact ⟨rfl, rfl⟩

theorem subscribe_steady : Steady fb fb.subscribe.1 := by
  unfold FrameBuffer.subscribe
  split_ifs
  · exact ⟨rfl, rfl⟩
  · exact ⟨rfl, rfl⟩

theorem push_of_closed (hclosed : fb.closed = true) : fb.push n = fb :=
  if_pos hclosed

theorem push_of_open (hopen : fb.closed = false) :
    (fb.push n).pushed = fb.pushed ++ [n] ∧ (fb.push n).closed = false := by
  have hnot : ¬ fb.closed = true := by simp [hopen]
  obtain ⟨sps, pps, idr, idrReady, hcache⟩ := cache_eq fb n
  rw [FrameBuffer.push, if_neg hnot, hcache]
  exact ⟨rfl, hopen⟩

theorem close_pushed : fb.close.pushed = fb.pushed := by
  unfold FrameBuffer.close
  split_ifs
  · rfl
  · rfl

/-- An update of one channel serves those it served before, if it keeps that channel's state. -/
theorem Serves.update {ch : Channel} (h : Serves fb k)
    (hchannel : k = id → ch.subscribed = (fb.channels id).subscribed ∧
      ch.receiverAlive = (fb.channels id).receiverAlive) :
    Serves { fb with channels := Function.update fb.channels id ch } k := by
  obtain ⟨hlt, hsubscribed, halive⟩ := h
  by_cases hk : k = id
  · obtain ⟨hsame, hsame'⟩ := hchannel hk
    subst hk
    refine ⟨hlt, ?_, ?_⟩
    · simp only [Function.update_self, hsame, hsubscribed]
    · simp only [Function.update_self, hsame', halive]
  · refine ⟨hlt, ?_, ?_⟩
    · simp only [Function.update_of_ne hk, hsubscribed]
    · simp only [Function.update_of_ne hk, halive]

theorem Serves.push (h : Serves fb k) : Serves (fb.push n) k := by
  unfold FrameBuffer.push
  split_ifs
  · exact h
  · obtain ⟨sps, pps, idr, idrReady, hcache⟩ := cache_eq fb n
    rw [hcache]
    exact h

theorem Serves.send (h : Serves fb k) (hsend : fb.send = some fb') : Serves fb' k := by
  unfold FrameBuffer.send at hsend
  split at hsend
  · exact absurd hsend (by simp)
  · obtain rfl := Option.some.inj hsend
    exact h
  · obtain rfl := Option.some.inj hsend
    refine Serves.update h fun _ ↦ ?_
    unfold Channel.trySend
    split_ifs
    · exact ⟨rfl, rfl⟩
    · exact ⟨rfl, rfl⟩
    · exact ⟨rfl, rfl⟩

theorem Serves.recv (h : Serves fb k) (hrecv : fb.recv id = some (n, fb')) : Serves fb' k := by
  unfold FrameBuffer.recv at hrecv
  split at hrecv
  · exact absurd hrecv (by simp)
  · obtain ⟨-, rfl⟩ := Prod.mk.inj (Option.some.inj hrecv)
    exact Serves.update h fun _ ↦ ⟨rfl, rfl⟩

theorem Serves.subscribe (h : Serves fb k) : Serves fb.subscribe.1 k := by
  unfold FrameBuffer.subscribe
  split_ifs
  · exact h
  · have hold : k ≠ fb.nextId := Nat.ne_of_lt h.1
    obtain ⟨hlt, hstate⟩ := Serves.update h fun hk ↦ absurd hk hold
    exact ⟨Nat.lt_succ_of_lt hlt, hstate⟩

/-- A new consumer is served. -/
theorem serves_subscribe (h : fb.subscribe.2 = some k) :
    k = fb.nextId ∧ Serves fb.subscribe.1 k := by
  rw [FrameBuffer.subscribe] at h ⊢
  split_ifs at h ⊢
  obtain rfl := Option.some.inj h
  exact ⟨rfl, Nat.lt_succ_self _, by simp, by simp⟩

/-- Another consumer may withdraw. -/
theorem Serves.withdraw (h : Serves fb k) (hne : k ≠ id) :
    Serves ((fb.removeConsumer id).dropReceiver id) k := by
  have hremoved : Serves (fb.removeConsumer id) k := Serves.update h fun hk ↦ absurd hk hne
  exact Serves.update hremoved fun hk ↦ absurd hk hne

theorem Serves.close (h : Serves fb k) : Serves fb.close k := by
  unfold FrameBuffer.close
  split_ifs
  · exact h
  · exact h

/-- The consumer has got every unit pushed since its subscription, in order, but for those that
found its queue full and at most one that is on its way to it. -/
structure Delivers (fb : FrameBuffer) (k : ℕ) : Prop where
  holds : (fb.channels k).received ++ (fb.channels k).queue =
    accepted (fb.pushed.drop (fb.channels k).since) (fb.channels k).fates
  onlyFull : ∀ fate ∈ (fb.channels k).fates, fate = .queued ∨ fate = .full
  caughtUp : (fb.channels k).since + (fb.channels k).fates.length + fb.unserved.count k =
    fb.pushed.length
  onTheWay : fb.unserved.count k ≤ 1

theorem Consistent.delivers (h : Consistent fb) (hserves : Serves fb k) : Delivers fb k := by
  obtain ⟨hlt, hsubscribed, halive⟩ := hserves
  have hagrees := h.agrees k hlt
  refine ⟨hagrees.holds, ?_, hagrees.caughtUp (Or.inl hsubscribed), ?_⟩
  · intro fate hfate
    cases fate with
    | queued => exact Or.inl rfl
    | full => exact Or.inr rfl
    | gone => exact absurd hfate (hagrees.alive halive)
  · exact List.nodup_iff_count_le_one.mp h.nodup.2 k

end Operations

end FrameBuffer

end DoorAccess.Video
