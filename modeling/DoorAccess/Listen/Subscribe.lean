import DoorAccess.Lib.Transition
import DoorAccess.Listen18022

/-!
# Subscriptions to the frames on port 18022

The slave threads of the listener dispatch frames to the subscribers, which subscribe, receive,
cancel and go away whenever they like. A dispatch holds the lock of the list from its first entry to
its last, but a receive does not take the lock, so that a dispatch is one step for each entry here.

`Inv` ties the list to the subscriptions that have not been cancelled and the frames tried on a
subscription to its window, the frames dispatched between its registration and its first cancel.
`subscription_eq_events` says that a subscription is a function of what is tried on it and of what
its own receiver does, so that the others make no difference to it.

The ids by which entries are removed are drawn from a `usize` that wraps around. All of this holds
as long as it has not: `churn_cancels_another` is a run beyond.
-/

set_option autoImplicit false
set_option relaxedAutoImplicit false

namespace DoorAccess.Listen18022

open Transition

/-- A `SubFilter` as a dispatch runs it: a panic is caught and gives no answer. -/
abbrev CaughtFilter := DetectedFrame → Option Bool

structure SubEntry where
  id : ℕ
  filter : CaughtFilter
  /-- The channel, by the number of its subscription. -/
  tx : ℕ
  closed : Bool

/-- `Subscription`: the channel with the frames in it, and the id that the cancel closure has
captured. -/
structure Subscription where
  id : ℕ
  filter : CaughtFilter
  ch : List DetectedFrame
  receiverAlive : Bool
  /-- History: the frames given to `try_send`, each with the number of frames queued then. -/
  tried : List (DetectedFrame × ℕ)
  /-- History: the frames received. -/
  received : List DetectedFrame

namespace Subscription

/-- `try_send`: a full channel and one whose receiver is gone refuse the frame. -/
def trySend (sub : Subscription) (frame : DetectedFrame) : Subscription :=
  let tried := sub.tried ++ [(frame, sub.ch.length)]
  if sub.receiverAlive = true ∧ sub.ch.length < SUB_CHAN_DEPTH then
    { sub with ch := sub.ch ++ [frame], tried := tried }
  else { sub with tried := tried }

/-- The filter lets the frame through. -/
def passes (sub : Subscription) (frame : DetectedFrame) : Bool :=
  sub.filter frame == some true

/-- What the loop of `dispatch_to_subs` does for a frame and one entry. -/
def visit (e : SubEntry) (frame : DetectedFrame) (sub : Subscription) : Subscription :=
  if e.closed = true then sub
  else
    match e.filter frame with
    | some true => sub.trySend frame
    | _ => sub

def recv (sub : Subscription) : Option Subscription :=
  match sub.ch with
  | [] => none
  | frame :: rest =>
    if sub.receiverAlive = true then
      some { sub with ch := rest, received := sub.received ++ [frame] }
    else none

end Subscription

structure State where
  subs : List SubEntry
  nextSubId : ℕ
  /-- The number of ids drawn, and the subscriptions that have drawn them. -/
  drawn : ℕ
  subscriptions : ℕ → Subscription
  /-- The dispatch that holds the lock, with the entries it has still to visit. -/
  dispatching : Option (DetectedFrame × List SubEntry)
  /-- History: the frames dispatched. -/
  dispatched : List DetectedFrame
  /-- History: the number of frames dispatched when a subscription was registered and when it was
  cancelled first. -/
  registeredAt : ℕ → Option ℕ
  cancelledAt : ℕ → Option ℕ

def State.init : State where
  subs := []
  nextSubId := 0
  drawn := 0
  subscriptions := fun _ ↦ ⟨0, fun _ ↦ none, [], true, [], []⟩
  dispatching := none
  dispatched := []
  registeredAt := fun _ ↦ none
  cancelledAt := fun _ ↦ none

inductive Label
  /-- `subscribe`, as far as the channel and the id. -/
  | draw (filter : CaughtFilter)
  /-- The rest of `subscribe`: the entry is pushed under the lock. -/
  | register (k : ℕ)
  /-- The cancel closure, called by `cancel` or by the drop of the subscription. -/
  | cancel (k : ℕ)
  /-- The end of the drop, behind its cancel: the receiver goes. -/
  | free (k : ℕ)
  /-- `dispatch_to_subs` takes the lock. -/
  | dispatch (frame : DetectedFrame)
  /-- It visits the next entry, which is that of the subscription `k`. -/
  | visit (k : ℕ) (frame : DetectedFrame)
  /-- It releases the lock. -/
  | finish
  | recv (k : ℕ)

/-- The entry that `subscribe` pushes. -/
def State.entry (s : State) (k : ℕ) : SubEntry where
  id := (s.subscriptions k).id
  filter := (s.subscriptions k).filter
  tx := k
  closed := false

/-- The cancel closure: the first entry with the id that is not closed is closed and removed. -/
def removeSub (subs : List SubEntry) (id : ℕ) : List SubEntry :=
  subs.eraseP fun e ↦ e.id == id && !e.closed

/-- One step, with `ids` values of a `usize`. -/
def step (ids : ℕ) (s : State) : Label → Option State
  | .draw filter => some { s with
      nextSubId := (s.nextSubId + 1) % ids
      drawn := s.drawn + 1
      subscriptions := Function.update s.subscriptions s.drawn
        ⟨s.nextSubId, filter, [], true, [], []⟩ }
  | .register k =>
    if k < s.drawn ∧ s.registeredAt k = none ∧ s.dispatching.isNone then
      some { s with
        subs := s.subs ++ [s.entry k]
        registeredAt := Function.update s.registeredAt k (some s.dispatched.length) }
    else none
  | .cancel k =>
    if (s.registeredAt k).isSome ∧ s.dispatching.isNone then
      some { s with
        subs := removeSub s.subs (s.subscriptions k).id
        cancelledAt := Function.update s.cancelledAt k
          (some ((s.cancelledAt k).getD s.dispatched.length)) }
    else none
  | .free k =>
    if (s.cancelledAt k).isSome then
      some { s with
        subscriptions := Function.update s.subscriptions k
          { s.subscriptions k with receiverAlive := false } }
    else none
  | .dispatch frame =>
    if s.dispatching.isNone then
      some { s with dispatching := some (frame, s.subs), dispatched := s.dispatched ++ [frame] }
    else none
  | .visit k frame =>
    match s.dispatching with
    | some (frame', e :: rest) =>
      if e.tx = k ∧ frame' = frame then
        some { s with
          dispatching := some (frame, rest)
          subscriptions := Function.update s.subscriptions k
            (Subscription.visit e frame (s.subscriptions k)) }
      else none
    | _ => none
  | .finish =>
    match s.dispatching with
    | some (_, []) => some { s with dispatching := none }
    | _ => none
  | .recv k =>
    (s.subscriptions k).recv.map fun sub ↦
      { s with subscriptions := Function.update s.subscriptions k sub }

/-! ### What a subscriber is to get -/

/-- The subscription is in the list. -/
def State.Live (s : State) (k : ℕ) : Prop :=
  (s.registeredAt k).isSome ∧ s.cancelledAt k = none

/-- The frames dispatched between the registration of a subscription and its first cancel. -/
def State.window (s : State) (k : ℕ) : List DetectedFrame :=
  match s.registeredAt k with
  | none => []
  | some start =>
    (s.dispatched.take ((s.cancelledAt k).getD s.dispatched.length)).drop start

/-- The entries that the dispatch under way has still to visit. -/
def State.waiting (s : State) : List SubEntry :=
  match s.dispatching with
  | none => []
  | some (_, rest) => rest

/-- The frame under way, if the subscription is still to be visited. -/
def State.underWay (s : State) (k : ℕ) : List DetectedFrame :=
  match s.dispatching with
  | none => []
  | some (frame, rest) => if k ∈ rest.map SubEntry.tx then [frame] else []

/-! ### One inversion for each step -/

variable {ids : ℕ} {s t : State} {k : ℕ} {frame : DetectedFrame}

theorem step_register (h : step ids s (.register k) = some t) :
    k < s.drawn ∧ s.registeredAt k = none ∧ s.dispatching = none ∧
      t = { s with
        subs := s.subs ++ [s.entry k]
        registeredAt := Function.update s.registeredAt k (some s.dispatched.length) } := by
  simp only [step] at h
  split_ifs at h with hguard
  exact ⟨hguard.1, hguard.2.1, Option.isNone_iff_eq_none.mp hguard.2.2, (Option.some.inj h).symm⟩

theorem step_cancel (h : step ids s (.cancel k) = some t) :
    (s.registeredAt k).isSome ∧ s.dispatching = none ∧
      t = { s with
        subs := removeSub s.subs (s.subscriptions k).id
        cancelledAt := Function.update s.cancelledAt k
          (some ((s.cancelledAt k).getD s.dispatched.length)) } := by
  simp only [step] at h
  split_ifs at h with hguard
  exact ⟨hguard.1, Option.isNone_iff_eq_none.mp hguard.2, (Option.some.inj h).symm⟩

theorem step_free (h : step ids s (.free k) = some t) :
    (s.cancelledAt k).isSome ∧
      t = { s with
        subscriptions := Function.update s.subscriptions k
          { s.subscriptions k with receiverAlive := false } } := by
  simp only [step] at h
  split_ifs at h with hguard
  exact ⟨hguard, (Option.some.inj h).symm⟩

theorem step_dispatch (h : step ids s (.dispatch frame) = some t) :
    s.dispatching = none ∧
      t = { s with
        dispatching := some (frame, s.subs)
        dispatched := s.dispatched ++ [frame] } := by
  simp only [step] at h
  split_ifs at h with hguard
  exact ⟨Option.isNone_iff_eq_none.mp hguard, (Option.some.inj h).symm⟩

theorem step_visit (h : step ids s (.visit k frame) = some t) :
    ∃ e rest, s.dispatching = some (frame, e :: rest) ∧ e.tx = k ∧
      t = { s with
        dispatching := some (frame, rest)
        subscriptions := Function.update s.subscriptions k
          (Subscription.visit e frame (s.subscriptions k)) } := by
  simp only [step] at h
  split at h
  · rename_i frame' e rest hdispatching
    split_ifs at h with hguard
    obtain ⟨htx, rfl⟩ := hguard
    exact ⟨e, rest, hdispatching, htx, (Option.some.inj h).symm⟩
  · exact nomatch h

theorem step_finish (h : step ids s .finish = some t) :
    (∃ frame, s.dispatching = some (frame, [])) ∧ t = { s with dispatching := none } := by
  simp only [step] at h
  split at h
  · rename_i frame hdispatching
    exact ⟨⟨frame, hdispatching⟩, (Option.some.inj h).symm⟩
  · exact nomatch h

theorem recv_cases {sub sub' : Subscription} (h : sub.recv = some sub') :
    ∃ frame rest, sub.ch = frame :: rest ∧ sub.receiverAlive = true ∧
      sub' = { sub with ch := rest, received := sub.received ++ [frame] } := by
  unfold Subscription.recv at h
  split at h
  · exact nomatch h
  · rename_i frame rest hch
    split_ifs at h with halive
    exact ⟨frame, rest, hch, halive, (Option.some.inj h).symm⟩

theorem step_recv (h : step ids s (.recv k) = some t) :
    ∃ sub, (s.subscriptions k).recv = some sub ∧
      t = { s with subscriptions := Function.update s.subscriptions k sub } := by
  obtain ⟨sub, hsub, rfl⟩ := Option.map_eq_some_iff.mp h
  exact ⟨sub, hsub, rfl⟩

/-! ### The channels -/

/-- What holds of a channel by itself: it holds the frames that found room in it, less those
received. -/
structure Subscription.Sound (sub : Subscription) : Prop where
  holds : sub.received ++ sub.ch =
    (sub.tried.filter fun p ↦ p.2 < SUB_CHAN_DEPTH).map Prod.fst
  depth : sub.ch.length ≤ SUB_CHAN_DEPTH
  tried_le : ∀ p ∈ sub.tried, p.2 ≤ SUB_CHAN_DEPTH

namespace Subscription

variable {sub sub' : Subscription}

theorem trySend_tried (sub : Subscription) (frame : DetectedFrame) :
    (sub.trySend frame).tried = sub.tried ++ [(frame, sub.ch.length)] := by
  unfold trySend
  split_ifs
  · rfl
  · rfl

theorem trySend_filter (sub : Subscription) (frame : DetectedFrame) :
    (sub.trySend frame).filter = sub.filter ∧ (sub.trySend frame).id = sub.id ∧
      (sub.trySend frame).receiverAlive = sub.receiverAlive := by
  unfold trySend
  split_ifs
  · exact ⟨rfl, rfl, rfl⟩
  · exact ⟨rfl, rfl, rfl⟩

theorem Sound.trySend (h : sub.Sound) (halive : sub.receiverAlive = true) (frame : DetectedFrame) :
    (sub.trySend frame).Sound := by
  have hle : ∀ p ∈ sub.tried ++ [(frame, sub.ch.length)], p.2 ≤ SUB_CHAN_DEPTH := by
    rw [List.forall_mem_append, List.forall_mem_singleton]
    exact ⟨h.tried_le, h.depth⟩
  unfold Subscription.trySend
  by_cases hroom : sub.ch.length < SUB_CHAN_DEPTH
  · rw [if_pos ⟨halive, hroom⟩]
    refine ⟨?_, ?_, hle⟩
    · rw [List.filter_append, List.map_append, ← h.holds, ← List.append_assoc]
      simp [hroom]
    · rw [List.length_append, List.length_singleton]
      exact hroom
  · rw [if_neg fun hguard ↦ hroom hguard.2]
    refine ⟨?_, h.depth, hle⟩
    rw [List.filter_append, List.map_append, ← h.holds]
    simp [hroom]

theorem Sound.recv (h : sub.Sound) (hrecv : sub.recv = some sub') : sub'.Sound := by
  obtain ⟨frame, rest, hch, -, rfl⟩ := recv_cases hrecv
  have hholds := h.holds
  have hdepth := h.depth
  rw [hch] at hholds hdepth
  refine ⟨?_, Nat.le_of_succ_le hdepth, h.tried_le⟩
  rw [← hholds, List.append_assoc]
  rfl

/-- What a dispatch does with the entry of a subscription itself. -/
def offer (sub : Subscription) (frame : DetectedFrame) : Subscription :=
  if sub.passes frame then sub.trySend frame else sub

theorem offer_filter (sub : Subscription) (frame : DetectedFrame) :
    (sub.offer frame).filter = sub.filter ∧ (sub.offer frame).id = sub.id ∧
      (sub.offer frame).receiverAlive = sub.receiverAlive := by
  unfold offer
  split_ifs
  · exact sub.trySend_filter frame
  · exact ⟨rfl, rfl, rfl⟩

theorem offer_passes (sub : Subscription) (frame : DetectedFrame) :
    (sub.offer frame).passes = sub.passes := by
  funext other
  rw [passes, passes, (sub.offer_filter frame).1]

theorem offer_tried (sub : Subscription) (frame : DetectedFrame) :
    (sub.offer frame).tried.map Prod.fst =
      sub.tried.map Prod.fst ++ [frame].filter sub.passes := by
  unfold offer
  by_cases hpass : sub.passes frame = true
  · rw [if_pos hpass, trySend_tried, List.map_append, List.filter_cons_of_pos hpass]
    rfl
  · rw [if_neg hpass, List.filter_cons_of_neg hpass, List.filter_nil, List.append_nil]

theorem Sound.offer (h : sub.Sound) (halive : sub.receiverAlive = true) (frame : DetectedFrame) :
    (sub.offer frame).Sound := by
  unfold Subscription.offer
  split_ifs
  · exact h.trySend halive frame
  · exact h

theorem visit_eq_offer {e : SubEntry} (hclosed : e.closed = false) (hfilter : e.filter = sub.filter)
    (frame : DetectedFrame) : visit e frame sub = sub.offer frame := by
  rw [visit, offer, passes, hclosed, hfilter, if_neg Bool.false_ne_true]
  match sub.filter frame with
  | none => rfl
  | some true => rfl
  | some false => rfl

end Subscription

/-! ### The invariant -/

/-- What holds of a subscription: while it is not cancelled its receiver is there, and what has been
tried on it is what its filter lets through of its window, but for the frame under way. -/
structure Served (s : State) (k : ℕ) : Prop where
  sound : (s.subscriptions k).Sound
  alive : s.cancelledAt k = none → (s.subscriptions k).receiverAlive = true
  tried : (s.subscriptions k).tried.map Prod.fst ++
    (s.underWay k).filter (s.subscriptions k).passes =
      (s.window k).filter (s.subscriptions k).passes

structure Inv (ids : ℕ) (s : State) : Prop where
  drawn_le : s.drawn ≤ ids
  next : s.nextSubId = s.drawn % ids
  id_eq : ∀ k < s.drawn, (s.subscriptions k).id = k
  lt_drawn : ∀ k, (s.registeredAt k).isSome → k < s.drawn
  registered : ∀ k, (s.cancelledAt k).isSome → (s.registeredAt k).isSome
  start_le : ∀ k start, s.registeredAt k = some start →
    start ≤ (s.cancelledAt k).getD s.dispatched.length
  end_le : ∀ k, (s.cancelledAt k).getD s.dispatched.length ≤ s.dispatched.length
  entries : ∀ e ∈ s.subs, e = s.entry e.tx
  nodup : (s.subs.map SubEntry.tx).Nodup
  mem_subs : ∀ k, k ∈ s.subs.map SubEntry.tx ↔ s.Live k
  suffix : s.waiting <:+ s.subs
  served : ∀ k, Served s k

theorem inv_init (ids : ℕ) : Inv ids .init where
  drawn_le := Nat.zero_le ids
  next := (Nat.zero_mod ids).symm
  id_eq k hk := absurd hk (Nat.not_lt_zero k)
  lt_drawn _ hk := absurd hk Bool.false_ne_true
  registered _ hk := absurd hk Bool.false_ne_true
  start_le _ _ hk := nomatch hk
  end_le _ := Nat.le_refl 0
  entries := List.forall_mem_nil _
  nodup := List.nodup_nil
  mem_subs _ := iff_of_false List.not_mem_nil fun h ↦ Bool.false_ne_true h.1
  suffix := List.suffix_refl []
  served _ := ⟨⟨rfl, Nat.zero_le _, List.forall_mem_nil _⟩, fun _ ↦ rfl, rfl⟩

theorem State.window_of_not_registered (h : ¬(s.registeredAt k).isSome) : s.window k = [] := by
  rw [Option.not_isSome_iff_eq_none] at h
  rw [State.window, h]

theorem State.underWay_of_not_mem (h : k ∉ s.waiting.map SubEntry.tx) : s.underWay k = [] := by
  unfold State.waiting at h
  unfold State.underWay
  split
  · rfl
  · rename_i frame rest hdispatching
    rw [hdispatching] at h
    exact if_neg h

theorem State.underWay_of_idle (h : s.dispatching = none) (k : ℕ) : s.underWay k = [] := by
  rw [State.underWay, h]

/-- A step that leaves a subscription and its window alone. -/
theorem Served.congr (h : Served s k) (hsub : t.subscriptions k = s.subscriptions k)
    (hcancel : t.cancelledAt k = s.cancelledAt k) (hunderWay : t.underWay k = s.underWay k)
    (hwindow : t.window k = s.window k) : Served t k := by
  refine ⟨hsub ▸ h.sound, ?_, ?_⟩
  · rw [hcancel, hsub]
    exact h.alive
  · rw [hsub, hunderWay, hwindow]
    exact h.tried

theorem entry_update {sub : Subscription} (hid : sub.id = (s.subscriptions k).id)
    (hfilter : sub.filter = (s.subscriptions k).filter) (j : ℕ) :
    { s with subscriptions := Function.update s.subscriptions k sub }.entry j = s.entry j := by
  by_cases hj : j = k
  · subst hj
    simp only [State.entry, Function.update_self, hid, hfilter]
  · simp only [State.entry, Function.update_of_ne hj]

/-- The removal by id takes out the entry of a subscription, as long as the ids are its numbers. -/
theorem removeSub_eq {subs : List SubEntry} (hentry : ∀ e ∈ subs, e.id = e.tx ∧ e.closed = false)
    (hnodup : (subs.map SubEntry.tx).Nodup) (k : ℕ) :
    removeSub subs k = subs.filter fun e ↦ e.tx ≠ k := by
  unfold removeSub
  induction subs with
  | nil => rfl
  | cons e rest ih =>
    rw [List.forall_mem_cons] at hentry
    rw [List.map_cons, List.nodup_cons] at hnodup
    obtain ⟨⟨hid, hclosed⟩, hrest⟩ := hentry
    by_cases hk : e.tx = k
    · have hothers : ∀ e' ∈ rest, decide (e'.tx ≠ k) = true := fun e' he' ↦
        decide_eq_true fun hsame ↦ hnodup.1 (hk.trans hsame.symm ▸ List.mem_map_of_mem he')
      rw [List.eraseP_cons_of_pos (by simp [hid, hclosed, hk]),
        List.filter_cons_of_neg (by simp [hk]), List.filter_eq_self.mpr hothers]
    · rw [List.eraseP_cons_of_neg (by simp [hid, hk]), List.filter_cons_of_pos (by simpa using hk),
        ih hrest hnodup.2]

namespace Inv

/-- A subscription that is waited for is in the list. -/
theorem live_of_waiting (h : Inv ids s) (hk : k ∈ s.waiting.map SubEntry.tx) : s.Live k :=
  (h.mem_subs k).mp ((h.suffix.sublist.map SubEntry.tx).subset hk)

theorem underWay_of_not_live (h : Inv ids s) (hk : ¬s.Live k) : s.underWay k = [] :=
  State.underWay_of_not_mem fun hmem ↦ hk (h.live_of_waiting hmem)

theorem draw (h : Inv ids s) (hlt : s.drawn < ids) (filter : CaughtFilter) :
    Inv ids { s with
      nextSubId := (s.nextSubId + 1) % ids
      drawn := s.drawn + 1
      subscriptions :=
        Function.update s.subscriptions s.drawn ⟨s.nextSubId, filter, [], true, [], []⟩ } where
  drawn_le := hlt
  next := by
    show (s.nextSubId + 1) % ids = (s.drawn + 1) % ids
    rw [h.next, Nat.mod_add_mod]
  id_eq k hk := by
    by_cases hnew : k = s.drawn
    · subst hnew
      simp only [Function.update_self]
      rw [h.next, Nat.mod_eq_of_lt hlt]
    · simp only [Function.update_of_ne hnew]
      exact h.id_eq k (Nat.lt_of_le_of_ne (Nat.le_of_lt_succ hk) hnew)
  lt_drawn k hk := Nat.lt_succ_of_lt (h.lt_drawn k hk)
  registered := h.registered
  start_le := h.start_le
  end_le := h.end_le
  entries e he := by
    have hlive := (h.mem_subs e.tx).mp (List.mem_map_of_mem he)
    have hne : e.tx ≠ s.drawn := Nat.ne_of_lt (h.lt_drawn _ hlive.1)
    refine (h.entries e he).trans ?_
    simp only [State.entry, Function.update_of_ne hne]
  nodup := h.nodup
  mem_subs := h.mem_subs
  suffix := h.suffix
  served k := by
    by_cases hnew : k = s.drawn
    · subst hnew
      have hnot : ¬(s.registeredAt s.drawn).isSome := fun hreg ↦
        Nat.lt_irrefl _ (h.lt_drawn _ hreg)
      have hwindow := State.window_of_not_registered hnot
      have hunderWay := h.underWay_of_not_live fun hlive ↦ hnot hlive.1
      refine ⟨?_, fun _ ↦ ?_, ?_⟩
      · simp only [Function.update_self]
        exact ⟨rfl, Nat.zero_le _, List.forall_mem_nil _⟩
      · simp only [Function.update_self]
      · show (Function.update s.subscriptions s.drawn _ s.drawn).tried.map Prod.fst ++
          (s.underWay s.drawn).filter _ = (s.window s.drawn).filter _
        rw [hwindow, hunderWay, Function.update_self]
        rfl
    · exact (h.served k).congr (Function.update_of_ne hnew _ _) rfl rfl rfl

theorem register (h : Inv ids s) (hk : k < s.drawn) (hnew : s.registeredAt k = none)
    (hidle : s.dispatching = none) :
    Inv ids { s with
      subs := s.subs ++ [s.entry k]
      registeredAt := Function.update s.registeredAt k (some s.dispatched.length) } := by
  have hnot : ¬(s.registeredAt k).isSome := by simp [hnew]
  have hopen : s.cancelledAt k = none :=
    Option.not_isSome_iff_eq_none.mp fun hcancelled ↦ hnot (h.registered k hcancelled)
  have hlive : ∀ j, ({ s with
        registeredAt := Function.update s.registeredAt k (some s.dispatched.length)
      } : State).Live j ↔ s.Live j ∨ j = k := by
    intro j
    by_cases hj : j = k
    · subst hj
      simp [State.Live, hopen]
    · simp only [State.Live, Function.update_of_ne hj, hj, or_false]
  have hfresh : k ∉ s.subs.map SubEntry.tx := fun hmem ↦ hnot ((h.mem_subs k).mp hmem).1
  refine ⟨h.drawn_le, h.next, h.id_eq, ?_, ?_, ?_, h.end_le, ?_, ?_, ?_, ?_, ?_⟩
  · intro j hj
    by_cases hjk : j = k
    · exact hjk ▸ hk
    · exact h.lt_drawn j (by simpa only [Function.update_of_ne hjk] using hj)
  · intro j hj
    by_cases hjk : j = k
    · simp [hjk]
    · simpa only [Function.update_of_ne hjk] using h.registered j hj
  · intro j start hj
    by_cases hjk : j = k
    · subst hjk
      simp only [Function.update_self, Option.some.injEq] at hj
      simp [hopen, hj]
    · exact h.start_le j start (by simpa only [Function.update_of_ne hjk] using hj)
  · rw [List.forall_mem_append, List.forall_mem_singleton]
    exact ⟨h.entries, rfl⟩
  · rw [List.map_append, List.nodup_append]
    refine ⟨h.nodup, by simp, ?_⟩
    rintro a ha b hb rfl
    obtain rfl := List.mem_singleton.mp hb
    exact hfresh ha
  · intro j
    rw [List.map_append, List.mem_append, h.mem_subs j]
    refine Iff.trans ?_ (hlive j).symm
    simp [State.entry]
  · rw [State.waiting, hidle]
    exact List.nil_suffix
  · intro j
    refine (h.served j).congr rfl rfl rfl ?_
    by_cases hjk : j = k
    · subst hjk
      rw [State.window_of_not_registered hnot]
      simp [State.window, hopen]
    · simp only [State.window, Function.update_of_ne hjk]

/-- In every state reached so far the ids are the numbers of the subscriptions. -/
theorem removeSub_id (h : Inv ids s) (hreg : (s.registeredAt k).isSome) :
    removeSub s.subs (s.subscriptions k).id = s.subs.filter fun e ↦ e.tx ≠ k := by
  rw [h.id_eq k (h.lt_drawn k hreg)]
  refine removeSub_eq (fun e he ↦ ?_) h.nodup k
  have hlive := (h.mem_subs e.tx).mp (List.mem_map_of_mem he)
  rw [h.entries e he]
  exact ⟨h.id_eq e.tx (h.lt_drawn _ hlive.1), rfl⟩

theorem cancel (h : Inv ids s) (hreg : (s.registeredAt k).isSome) (hidle : s.dispatching = none) :
    Inv ids { s with
      subs := removeSub s.subs (s.subscriptions k).id
      cancelledAt := Function.update s.cancelledAt k
        (some ((s.cancelledAt k).getD s.dispatched.length)) } := by
  have hend : ∀ j, (Function.update s.cancelledAt k
      (some ((s.cancelledAt k).getD s.dispatched.length)) j).getD s.dispatched.length =
      (s.cancelledAt j).getD s.dispatched.length := by
    intro j
    by_cases hj : j = k
    · subst hj
      rw [Function.update_self, Option.getD_some]
    · rw [Function.update_of_ne hj]
  rw [h.removeSub_id hreg]
  refine ⟨h.drawn_le, h.next, h.id_eq, h.lt_drawn, ?_, ?_, ?_, ?_, ?_, ?_, ?_, ?_⟩
  · intro j hj
    by_cases hjk : j = k
    · exact hjk ▸ hreg
    · exact h.registered j (by simpa only [Function.update_of_ne hjk] using hj)
  · intro j start hj
    exact (hend j).symm ▸ h.start_le j start hj
  · intro j
    exact (hend j).symm ▸ h.end_le j
  · exact fun e he ↦ h.entries e (List.mem_filter.mp he).1
  · exact h.nodup.sublist (List.filter_sublist.map SubEntry.tx)
  · intro j
    have hmem : j ∈ (s.subs.filter fun e ↦ e.tx ≠ k).map SubEntry.tx ↔
        j ∈ s.subs.map SubEntry.tx ∧ j ≠ k := by
      simp only [List.mem_map, List.mem_filter, decide_eq_true_eq]
      constructor
      · rintro ⟨e, ⟨he, hne⟩, rfl⟩
        exact ⟨⟨e, he, rfl⟩, hne⟩
      · rintro ⟨⟨e, he, rfl⟩, hne⟩
        exact ⟨e, ⟨he, hne⟩, rfl⟩
    refine hmem.trans ?_
    rw [h.mem_subs j]
    by_cases hjk : j = k
    · simp [State.Live, hjk]
    · simp only [State.Live, Function.update_of_ne hjk, ne_eq, hjk, not_false_eq_true, and_true]
  · rw [State.waiting, hidle]
    exact List.nil_suffix
  · intro j
    have hserved := h.served j
    refine ⟨hserved.sound, ?_, ?_⟩
    · intro hopen
      by_cases hjk : j = k
      · subst hjk
        exact absurd hopen (by simp)
      · exact hserved.alive (by simpa only [Function.update_of_ne hjk] using hopen)
    · refine Eq.trans hserved.tried ?_
      simp only [State.window, hend]

/-- An update of one subscription that leaves its filter, its id and what was tried on it. -/
theorem update (h : Inv ids s) {sub : Subscription} (hid : sub.id = (s.subscriptions k).id)
    (hfilter : sub.filter = (s.subscriptions k).filter)
    (htried : sub.tried = (s.subscriptions k).tried) (hsound : sub.Sound)
    (halive : s.cancelledAt k = none → sub.receiverAlive = true) :
    Inv ids { s with subscriptions := Function.update s.subscriptions k sub } := by
  refine ⟨h.drawn_le, h.next, ?_, h.lt_drawn, h.registered, h.start_le, h.end_le, ?_, h.nodup,
    h.mem_subs, h.suffix, ?_⟩
  · intro j hj
    have hsame := congrArg SubEntry.id (entry_update hid hfilter j)
    exact hsame.trans (h.id_eq j hj)
  · exact fun e he ↦ (h.entries e he).trans (entry_update hid hfilter e.tx).symm
  · intro j
    by_cases hjk : j = k
    · subst hjk
      refine ⟨?_, ?_, ?_⟩
      · simpa only [Function.update_self] using hsound
      · simpa only [Function.update_self] using halive
      · have hpasses : sub.passes = (s.subscriptions j).passes := by
          funext frame
          rw [Subscription.passes, Subscription.passes, hfilter]
        have htriedNow := (h.served j).tried
        simp only [Function.update_self, htried, hpasses]
        exact htriedNow
    · exact (h.served j).congr (Function.update_of_ne hjk _ _) rfl rfl rfl

theorem dispatch (h : Inv ids s) (hidle : s.dispatching = none) (frame : DetectedFrame) :
    Inv ids { s with
      dispatching := some (frame, s.subs)
      dispatched := s.dispatched ++ [frame] } := by
  have hlength : (s.dispatched ++ [frame]).length = s.dispatched.length + 1 := by simp
  have hend : ∀ j, (s.cancelledAt j).getD s.dispatched.length ≤
      (s.cancelledAt j).getD (s.dispatched ++ [frame]).length := by
    intro j
    rw [hlength]
    cases s.cancelledAt j with
    | none => exact Nat.le_succ _
    | some count => exact Nat.le_refl count
  refine ⟨h.drawn_le, h.next, h.id_eq, h.lt_drawn, h.registered, ?_, ?_, h.entries, h.nodup,
    h.mem_subs, List.suffix_refl _, ?_⟩
  · exact fun j start hj ↦ (h.start_le j start hj).trans (hend j)
  · intro j
    have hle := h.end_le j
    simp only [hlength]
    cases hcancelled : s.cancelledAt j with
    | none => exact Nat.le_refl _
    | some count =>
      rw [hcancelled] at hle
      exact Nat.le_succ_of_le hle
  · intro j
    have hserved := h.served j
    have htried := hserved.tried
    rw [State.underWay_of_idle hidle, List.filter_nil, List.append_nil] at htried
    by_cases hlive : s.Live j
    · obtain ⟨start, hstart⟩ := Option.isSome_iff_exists.mp hlive.1
      have hle := h.start_le j start hstart
      rw [hlive.2, Option.getD_none] at hle
      refine ⟨hserved.sound, hserved.alive, ?_⟩
      have hunderWay : ({ s with
          dispatching := some (frame, s.subs)
          dispatched := s.dispatched ++ [frame] } : State).underWay j = [frame] :=
        if_pos ((h.mem_subs j).mpr hlive)
      have hwindow : ({ s with
          dispatching := some (frame, s.subs)
          dispatched := s.dispatched ++ [frame] } : State).window j = s.window j ++ [frame] := by
        simp only [State.window, hstart, hlive.2, Option.getD_none, List.take_length]
        exact List.drop_append_of_le_length hle
      rw [hunderWay, hwindow, List.filter_append]
      exact congrArg (· ++ _) htried
    · refine hserved.congr rfl rfl ?_ ?_
      · rw [State.underWay_of_idle hidle]
        exact if_neg fun hmem ↦ hlive ((h.mem_subs j).mp hmem)
      · cases hstart : s.registeredAt j with
        | none => simp only [State.window, hstart]
        | some start =>
          cases hcancelled : s.cancelledAt j with
          | none => exact absurd ⟨by rw [hstart]; rfl, hcancelled⟩ hlive
          | some count =>
            have hle := h.end_le j
            rw [hcancelled, Option.getD_some] at hle
            simp only [State.window, hstart, hcancelled, Option.getD_some]
            rw [List.take_append_of_le_length hle]

theorem visit (h : Inv ids s) {e : SubEntry} {rest : List SubEntry}
    (hdispatching : s.dispatching = some (frame, e :: rest)) :
    Inv ids { s with
      dispatching := some (frame, rest)
      subscriptions := Function.update s.subscriptions e.tx
        (Subscription.visit e frame (s.subscriptions e.tx)) } := by
  have hwaiting : s.waiting = e :: rest := by rw [State.waiting, hdispatching]
  have hsuffix := h.suffix
  rw [hwaiting] at hsuffix
  have hmem : e ∈ s.subs := hsuffix.subset List.mem_cons_self
  have hentry := h.entries e hmem
  have hlive := (h.mem_subs e.tx).mp (List.mem_map_of_mem hmem)
  have hnotmem : e.tx ∉ rest.map SubEntry.tx :=
    (List.nodup_cons.mp (h.nodup.sublist (hsuffix.sublist.map SubEntry.tx))).1
  have hoffer : Subscription.visit e frame (s.subscriptions e.tx) =
      (s.subscriptions e.tx).offer frame :=
    Subscription.visit_eq_offer (congrArg SubEntry.closed hentry) (congrArg SubEntry.filter hentry)
      frame
  have hserved := h.served e.tx
  have halive := hserved.alive hlive.2
  obtain ⟨hfilter, hid, haliveSame⟩ := Subscription.offer_filter (s.subscriptions e.tx) frame
  rw [hoffer]
  refine ⟨h.drawn_le, h.next, ?_, h.lt_drawn, h.registered, h.start_le, h.end_le, ?_, h.nodup,
    h.mem_subs, (List.suffix_cons e rest).trans hsuffix, ?_⟩
  · intro j hj
    exact (congrArg SubEntry.id (entry_update hid hfilter j)).trans (h.id_eq j hj)
  · exact fun e' he' ↦ (h.entries e' he').trans (entry_update hid hfilter e'.tx).symm
  · intro j
    by_cases hje : j = e.tx
    · subst hje
      have hunderWay : s.underWay e.tx = [frame] := by
        rw [State.underWay, hdispatching]
        exact if_pos List.mem_cons_self
      have htried := hserved.tried
      rw [hunderWay] at htried
      refine ⟨?_, ?_, ?_⟩
      · simp only [Function.update_self]
        exact hserved.sound.offer halive frame
      · simp only [Function.update_self, haliveSame]
        exact hserved.alive
      · have hnone : ({ s with dispatching := some (frame, rest) } : State).underWay e.tx = [] :=
          if_neg hnotmem
        simp only [Function.update_self, Subscription.offer_passes, Subscription.offer_tried]
        refine Eq.trans ?_ htried
        exact (congrArg (_ ++ List.filter _ ·) hnone).trans (List.append_nil _)
    · refine (h.served j).congr (Function.update_of_ne hje _ _) rfl ?_ rfl
      simp only [State.underWay, hdispatching, List.map_cons, List.mem_cons, hje, false_or]

theorem finish (h : Inv ids s) (hdispatching : s.dispatching = some (frame, [])) :
    Inv ids { s with dispatching := none } := by
  refine ⟨h.drawn_le, h.next, h.id_eq, h.lt_drawn, h.registered, h.start_le, h.end_le, h.entries,
    h.nodup, h.mem_subs, List.nil_suffix, fun j ↦ (h.served j).congr rfl rfl ?_ rfl⟩
  rw [State.underWay, State.underWay, hdispatching]
  exact (if_neg List.not_mem_nil).symm

end Inv

/-! ### Runs -/

def Label.isDraw : Label → Bool
  | .draw _ => true
  | _ => false

variable {l : Label} {labels : List Label}

theorem step_drawn (h : step ids s l = some t) :
    t.drawn = s.drawn + [l].countP Label.isDraw := by
  cases l with
  | draw filter =>
    obtain rfl := Option.some.inj h
    rfl
  | register k =>
    obtain ⟨-, -, -, rfl⟩ := step_register h
    rfl
  | cancel k =>
    obtain ⟨-, -, rfl⟩ := step_cancel h
    rfl
  | free k =>
    obtain ⟨-, rfl⟩ := step_free h
    rfl
  | dispatch frame =>
    obtain ⟨-, rfl⟩ := step_dispatch h
    rfl
  | visit k frame =>
    obtain ⟨e, rest, -, -, rfl⟩ := step_visit h
    rfl
  | finish =>
    obtain ⟨-, rfl⟩ := step_finish h
    rfl
  | recv k =>
    obtain ⟨sub, -, rfl⟩ := step_recv h
    rfl

theorem exec_drawn (h : exec (step ids) s labels = some t) :
    t.drawn = s.drawn + labels.countP Label.isDraw := by
  induction labels generalizing s with
  | nil => exact (congrArg State.drawn (Option.some.inj h)).symm
  | cons l labels ih =>
    obtain ⟨u, hfirst, hrest⟩ := exec_cons_eq_some.mp h
    rw [ih hrest, step_drawn hfirst, Nat.add_assoc, ← List.countP_append]
    rfl

/-- One step, as long as there are ids left. -/
theorem step_inv (h : Inv ids s) (hstep : step ids s l = some t) (hids : t.drawn ≤ ids) :
    Inv ids t := by
  cases l with
  | draw filter =>
    obtain rfl := Option.some.inj hstep
    exact h.draw hids filter
  | register k =>
    obtain ⟨hk, hnew, hidle, rfl⟩ := step_register hstep
    exact h.register hk hnew hidle
  | cancel k =>
    obtain ⟨hreg, hidle, rfl⟩ := step_cancel hstep
    exact h.cancel hreg hidle
  | free k =>
    obtain ⟨hcancelled, rfl⟩ := step_free hstep
    have hsound := (h.served k).sound
    refine h.update rfl rfl rfl ⟨hsound.holds, hsound.depth, hsound.tried_le⟩ fun hopen ↦ ?_
    rw [hopen] at hcancelled
    exact absurd hcancelled Bool.false_ne_true
  | dispatch frame =>
    obtain ⟨hidle, rfl⟩ := step_dispatch hstep
    exact h.dispatch hidle frame
  | visit k frame =>
    obtain ⟨e, rest, hdispatching, rfl, rfl⟩ := step_visit hstep
    exact h.visit hdispatching
  | finish =>
    obtain ⟨⟨frame, hdispatching⟩, rfl⟩ := step_finish hstep
    exact h.finish hdispatching
  | recv k =>
    obtain ⟨sub, hsub, rfl⟩ := step_recv hstep
    have hserved := h.served k
    have hsound := hserved.sound.recv hsub
    obtain ⟨frame, rest, -, halive, rfl⟩ := recv_cases hsub
    exact h.update rfl rfl rfl hsound fun _ ↦ halive

theorem exec_inv (h : Inv ids s) (hrun : exec (step ids) s labels = some t) (hids : t.drawn ≤ ids) :
    Inv ids t := by
  induction labels generalizing s with
  | nil => exact Option.some.inj hrun ▸ h
  | cons l labels ih =>
    obtain ⟨u, hfirst, hrest⟩ := exec_cons_eq_some.mp hrun
    exact ih (step_inv h hfirst ((Nat.le_add_right _ _).trans (exec_drawn hrest ▸ hids))) hrest

/-! ### A subscription by itself -/

/-- What is tried on a subscription, and what its own receiver does. -/
inductive Own
  | offer (frame : DetectedFrame)
  | free
  | recv

/-- The part of a step that is about the subscription `k`. -/
def own (k : ℕ) : Label → Option Own
  | .visit j frame => if j = k then some (.offer frame) else none
  | .free j => if j = k then some .free else none
  | .recv j => if j = k then some .recv else none
  | _ => none

def Subscription.event (sub : Subscription) : Own → Subscription
  | .offer frame => sub.offer frame
  | .free => { sub with receiverAlive := false }
  | .recv => sub.recv.getD sub

/-- A step changes a subscription by its own part only. -/
theorem step_subscription (h : Inv ids s) (hstep : step ids s l = some t) (hk : k < s.drawn) :
    t.subscriptions k = (own k l).elim (s.subscriptions k) (s.subscriptions k).event := by
  have hupdate : ∀ (j : ℕ) (sub : Subscription) (event : Own),
      sub = (s.subscriptions j).event event → Function.update s.subscriptions j sub k =
        (if j = k then some event else none).elim (s.subscriptions k)
          (s.subscriptions k).event := by
    rintro j sub event rfl
    by_cases hj : j = k
    · subst hj
      rw [Function.update_self, if_pos rfl]
      rfl
    · rw [Function.update_of_ne (Ne.symm hj), if_neg hj]
      rfl
  cases l with
  | draw filter =>
    obtain rfl := Option.some.inj hstep
    exact Function.update_of_ne (Nat.ne_of_lt hk) _ _
  | register j =>
    obtain ⟨-, -, -, rfl⟩ := step_register hstep
    rfl
  | cancel j =>
    obtain ⟨-, -, rfl⟩ := step_cancel hstep
    rfl
  | free j =>
    obtain ⟨-, rfl⟩ := step_free hstep
    exact hupdate j _ .free rfl
  | dispatch frame =>
    obtain ⟨-, rfl⟩ := step_dispatch hstep
    rfl
  | visit j frame =>
    obtain ⟨e, rest, hdispatching, rfl, rfl⟩ := step_visit hstep
    refine hupdate e.tx _ (.offer frame) ?_
    have hentry := h.entries e (h.suffix.subset (by rw [State.waiting, hdispatching]; simp))
    exact Subscription.visit_eq_offer (congrArg SubEntry.closed hentry)
      (congrArg SubEntry.filter hentry) frame
  | finish =>
    obtain ⟨-, rfl⟩ := step_finish hstep
    rfl
  | recv j =>
    obtain ⟨sub, hsub, rfl⟩ := step_recv hstep
    refine hupdate j sub .recv ?_
    rw [Subscription.event, hsub]
    rfl

/-- What becomes of a subscription in a run is a function of its own part of the run. -/
theorem subscription_eq_events (h : Inv ids s) (hrun : exec (step ids) s labels = some t)
    (hids : t.drawn ≤ ids) (hk : k < s.drawn) :
    t.subscriptions k =
      (labels.filterMap (own k)).foldl Subscription.event (s.subscriptions k) := by
  induction labels generalizing s with
  | nil => exact (congrArg (State.subscriptions · k) (Option.some.inj hrun)).symm
  | cons l labels ih =>
    obtain ⟨u, hfirst, hrest⟩ := exec_cons_eq_some.mp hrun
    have hdrawn := exec_drawn hrest
    have hinv := step_inv h hfirst (by omega)
    have hlt : k < u.drawn := by
      rw [step_drawn hfirst]
      omega
    rw [ih hinv hrest hlt, step_subscription h hfirst hk, List.filterMap_cons]
    cases own k l with
    | none => rfl
    | some event => rfl

/-- To cancel again changes nothing. -/
theorem cancel_again (h : Inv ids s) (hcancelled : (s.cancelledAt k).isSome)
    (hstep : step ids s (.cancel k) = some t) : t = s := by
  obtain ⟨hreg, -, rfl⟩ := step_cancel hstep
  obtain ⟨count, hcount⟩ := Option.isSome_iff_exists.mp hcancelled
  have hnot : ¬s.Live k := fun hlive ↦ absurd (hlive.2.symm.trans hcount) (by simp)
  have hsubs : removeSub s.subs (s.subscriptions k).id = s.subs := by
    rw [h.removeSub_id hreg, List.filter_eq_self]
    intro e he
    refine decide_eq_true fun hsame ↦ hnot ?_
    exact (h.mem_subs k).mp (hsame ▸ List.mem_map_of_mem he)
  rw [hsubs, hcount, Option.getD_some, ← hcount, Function.update_eq_self]

/-- The fan-out, in every run in which no more ids have been drawn than there are. A subscription
has been given the frames of its window that its filter lets through, in their order, and holds or
has received those of them for which there was room; the list has the subscriptions not yet
cancelled, each once; what becomes of a subscription depends on its own part of the run alone; and
a second cancel does nothing. -/
theorem subscriptions_fan_out (ids : ℕ) (labels : List Label) (s : State)
    (hrun : exec (step ids) .init labels = some s) (hids : labels.countP Label.isDraw ≤ ids) :
    (∀ k, (s.registeredAt k).isSome →
      (s.subscriptions k).received.Sublist ((s.window k).filter (s.subscriptions k).passes) ∧
      (s.subscriptions k).received ++ (s.subscriptions k).ch =
        ((s.subscriptions k).tried.filter fun p ↦ p.2 < SUB_CHAN_DEPTH).map Prod.fst ∧
      (∀ p ∈ (s.subscriptions k).tried, p.2 ≤ SUB_CHAN_DEPTH) ∧
      (s.subscriptions k).tried.map Prod.fst ++
          (s.underWay k).filter (s.subscriptions k).passes =
        (s.window k).filter (s.subscriptions k).passes) ∧
    (s.subs.map SubEntry.tx).Nodup ∧ (∀ k, k ∈ s.subs.map SubEntry.tx ↔ s.Live k) ∧
    (∀ k before after t, labels = before ++ after → exec (step ids) .init before = some t →
      k < t.drawn → s.subscriptions k =
        (after.filterMap (own k)).foldl Subscription.event (t.subscriptions k)) ∧
    ∀ k t, (s.cancelledAt k).isSome → step ids s (.cancel k) = some t → t = s := by
  have hdrawn : s.drawn ≤ ids := by
    rw [exec_drawn hrun]
    exact (Nat.zero_add _).trans_le hids
  have hinv := exec_inv (inv_init ids) hrun hdrawn
  refine ⟨fun k _ ↦ ?_, hinv.nodup, hinv.mem_subs, ?_, fun k t ↦ cancel_again hinv⟩
  · have hserved := hinv.served k
    refine ⟨?_, hserved.sound.holds, hserved.sound.tried_le, hserved.tried⟩
    have hreceived : (s.subscriptions k).received.Sublist
        ((s.subscriptions k).received ++ (s.subscriptions k).ch) := List.sublist_append_left _ _
    have htried : ((s.subscriptions k).tried.map Prod.fst).Sublist
        ((s.window k).filter (s.subscriptions k).passes) :=
      hserved.tried ▸ List.sublist_append_left _ _
    rw [hserved.sound.holds] at hreceived
    exact hreceived.trans ((List.filter_sublist.map Prod.fst).trans htried)
  · rintro k before after t rfl hbefore hk
    obtain ⟨u, hu, hafter⟩ : ∃ u, exec (step ids) .init before = some u ∧
        exec (step ids) u after = some s := by
      rwa [exec_append, Option.bind_eq_some_iff] at hrun
    obtain rfl := Option.some.inj (hu.symm.trans hbefore)
    have hle : u.drawn ≤ ids := by
      have hmore := exec_drawn hafter
      omega
    exact subscription_eq_events (exec_inv (inv_init ids) hbefore hle) hafter hdrawn hk

/-! ### One frame, and more subscriptions than ids -/

/-- Every frame is let through. -/
def everyFrame : CaughtFilter := fun _ ↦ some true

def ringFrame : DetectedFrame where
  req := 704
  body := []
  srcIp := octets 172 16 106 91
  dstIp := octets 172 16 106 152
  srcPort := 40000
  dstPort := 18022

/-- A subscription that gets one frame. -/
def oneFrame : List Label :=
  [.draw everyFrame, .register 0, .dispatch ringFrame, .visit 0 ringFrame, .finish, .recv 0]

theorem subscriptions_fan_out_oneFrame :
    ∃ s, exec (step 4294967296) .init oneFrame = some s ∧
      (s.subscriptions 0).received = [ringFrame] ∧
      (s.subscriptions 0).tried.map Prod.fst ++
          (s.underWay 0).filter (s.subscriptions 0).passes =
        (s.window 0).filter (s.subscriptions 0).passes := by
  have hrun : exec (step 4294967296) .init oneFrame = some _ := rfl
  exact ⟨_, hrun, rfl,
    ((subscriptions_fan_out 4294967296 oneFrame _ hrun (by decide)).1 0 rfl).2.2.2⟩

/-- A subscription that stays, and `n` that come and go. -/
def churn : ℕ → List Label
  | 0 => [.draw everyFrame, .register 0]
  | n + 1 => churn n ++ [.draw everyFrame, .register (n + 1), .cancel (n + 1)]

/-- The state after them: the list has the one that stays. -/
structure AfterChurn (ids n : ℕ) (s : State) : Prop where
  subs : s.subs = [⟨0, everyFrame, 0, false⟩]
  next : s.nextSubId = (n + 1) % ids
  drawn : s.drawn = n + 1
  idle : s.dispatching = none
  live : s.Live 0
  fresh : ∀ k, n < k → s.registeredAt k = none

/-- One more comes and goes. It takes out the first entry with its id. -/
theorem exec_round {n : ℕ} (h : AfterChurn ids n s) :
    ∃ t, exec (step ids) s [.draw everyFrame, .register (n + 1), .cancel (n + 1)] = some t ∧
      t.subs = removeSub
        [⟨0, everyFrame, 0, false⟩, ⟨(n + 1) % ids, everyFrame, n + 1, false⟩] ((n + 1) % ids) ∧
      t.nextSubId = ((n + 1) % ids + 1) % ids ∧ t.drawn = n + 2 ∧ t.dispatching = none ∧
      t.Live 0 ∧ (t.registeredAt (n + 1)).isSome ∧ (t.cancelledAt (n + 1)).isSome ∧
      ∀ k, n + 1 < k → t.registeredAt k = none := by
  have hnew := h.fresh (n + 1) (Nat.lt_succ_self n)
  have hzero : 0 ≠ n + 1 := (Nat.succ_ne_zero n).symm
  obtain ⟨hregistered, hopen⟩ := h.live
  refine ⟨{ s with
    subs := removeSub
      [⟨0, everyFrame, 0, false⟩, ⟨(n + 1) % ids, everyFrame, n + 1, false⟩] ((n + 1) % ids)
    nextSubId := ((n + 1) % ids + 1) % ids
    drawn := n + 2
    subscriptions := Function.update s.subscriptions (n + 1)
      ⟨(n + 1) % ids, everyFrame, [], true, [], []⟩
    registeredAt := Function.update s.registeredAt (n + 1) (some s.dispatched.length)
    cancelledAt := Function.update s.cancelledAt (n + 1)
      (some ((s.cancelledAt (n + 1)).getD s.dispatched.length)) }, ?_, rfl, rfl, rfl, h.idle, ?_,
    ?_, ?_, ?_⟩
  · simp only [exec, step, h.drawn, hnew, h.idle, Nat.lt_succ_self, Option.isNone_none, and_self,
      if_true, Option.bind_some, Function.update_self, Option.isSome_some, State.entry, h.subs,
      h.next, List.cons_append, List.nil_append]
  · simp only [State.Live, Function.update_of_ne hzero]
    exact h.live
  · simp only [Function.update_self, Option.isSome_some]
  · simp only [Function.update_self, Option.isSome_some]
  · intro k hk
    simp only [Function.update_of_ne (Nat.ne_of_gt hk)]
    exact h.fresh k (Nat.lt_of_succ_lt hk)

theorem afterChurn_zero {ids : ℕ} : ∃ s, exec (step ids) .init (churn 0) = some s ∧
    AfterChurn ids 0 s := by
  refine ⟨_, rfl, rfl, rfl, rfl, rfl, ⟨rfl, rfl⟩, fun k hk ↦ ?_⟩
  exact Function.update_of_ne (Nat.ne_of_gt hk) _ _

theorem afterChurn {n : ℕ} (hn : n < ids) : ∃ s, exec (step ids) .init (churn n) = some s ∧
    AfterChurn ids n s := by
  induction n with
  | zero => exact afterChurn_zero
  | succ n ih =>
    obtain ⟨s, hrun, hs⟩ := ih (Nat.lt_of_succ_lt hn)
    obtain ⟨t, hround, hsubs, hnext, hdrawn, hidle, hlive, -, -, hfresh⟩ := exec_round hs
    refine ⟨t, ?_, ?_, ?_, hdrawn, hidle, hlive, hfresh⟩
    · rw [churn, exec_append, hrun]
      exact hround
    · rw [hsubs, Nat.mod_eq_of_lt hn]
      simp [removeSub]
    · rw [hnext, Nat.mod_add_mod]

/-- The subscription that draws the id of the first one again takes that one out by its cancel, and
stays in the list itself. -/
theorem churn_all (n : ℕ) : ∃ s, exec (step (n + 1)) .init (churn (n + 1)) = some s ∧
    s.Live 0 ∧ 0 ∉ s.subs.map SubEntry.tx ∧ ¬s.Live (n + 1) ∧ n + 1 ∈ s.subs.map SubEntry.tx := by
  obtain ⟨s, hrun, hs⟩ := afterChurn (Nat.lt_succ_self n)
  obtain ⟨t, hround, hsubs, -, -, -, hlive, -, hcancelled, -⟩ := exec_round hs
  have hleft : t.subs = [⟨0, everyFrame, n + 1, false⟩] := by
    rw [hsubs, Nat.mod_self]
    simp [removeSub]
  refine ⟨t, ?_, hlive, ?_, ?_, ?_⟩
  · rw [churn, exec_append, hrun]
    exact hround
  · rw [hleft]
    simp
  · intro hboth
    rw [hboth.2] at hcancelled
    exact absurd hcancelled Bool.false_ne_true
  · rw [hleft]
    exact List.mem_singleton_self _

/-- On a target with 32 bits: one subscription that is never cancelled, and after it as many as
there are ids, each of which is cancelled. The last of them throws the first one out. -/
theorem churn_cancels_another : ∃ s,
    exec (step 4294967296) .init (churn 4294967296) = some s ∧
      s.Live 0 ∧ 0 ∉ s.subs.map SubEntry.tx ∧
      ¬s.Live 4294967296 ∧ 4294967296 ∈ s.subs.map SubEntry.tx :=
  churn_all 4294967295

end DoorAccess.Listen18022
