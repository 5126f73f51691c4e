import DoorAccess.Listen.Removal
import DoorAccess.Unlock.Execute

/-!
# What an unlock outcome says

The retry loop gives `NO_RING` for several endings, and the classification looks at the wire kind
and at the deadline once more to tell them apart. `Shape.result_cases` reads off a run how it ended,
and from it follow the combinations of result, wire kind and bye that an outcome can have.

The subscription to the bye frames lives in the listener, whose other users go on while the call is
under way. `Listens` says what the call and its seams do there: the call draws an id and registers,
cancels twice at the end, and everything else is some run of the listener.
-/

set_option autoImplicit false
set_option relaxedAutoImplicit false

namespace DoorAccess.Unlock

open Codec Listen18022 Transition

/-! ### How a run ended -/

section Facts

variable {attempt : ℕ} {last : Option WireKind} {events : List Event} {result : RetryResult}

/-- The result of a run by its last call. -/
theorem Shape.result_cases (h : Shape attempt last events result) :
    ((calls events).getLast? = some .ok ∧ result = ⟨OK, result.retries, false, none⟩) ∨
    (∃ stage, (calls events).getLast? = some (.businessErr stage) ∧
      result = ⟨ERR, result.retries, false, none⟩) ∨
    (∃ stage err, (calls events).getLast? = some (.wireErr stage err) ∧
      result = ⟨NO_RING, result.retries, result.terminatedByBye, some err⟩) ∨
    (calls events = [] ∧ result = ⟨NO_RING, result.retries, false, last⟩) := by
  induction h with
  | expired | canceled => exact Or.inr (Or.inr (Or.inr ⟨rfl, rfl⟩))
  | ok => exact Or.inl ⟨rfl, rfl⟩
  | business _ _ stage => exact Or.inr (Or.inl ⟨stage, rfl, rfl⟩)
  | failed _ _ stage err hprobe =>
    refine Or.inr (Or.inr (Or.inl ⟨stage, err, ?_, rfl⟩))
    rw [calls_append, hprobe.calls_eq_nil, calls_called]
    rfl
  | woken _ _ err hprobe =>
    refine Or.inr (Or.inr (Or.inl ⟨.unlockA, err, ?_, rfl⟩))
    rw [hprobe.calls_called_append, calls_sleep_cons]
    rfl
  | again _ _ err hprobe _ _ _ ih =>
    rw [hprobe.calls_called_append, calls_sleep_cons]
    rcases ih with ⟨hlast, hresult⟩ | ⟨stage, hlast, hresult⟩ | ⟨stage, err', hlast, hresult⟩ |
      ⟨hnone, hresult⟩
    · exact Or.inl ⟨by rw [List.getLast?_cons, hlast]; rfl, hresult⟩
    · exact Or.inr (Or.inl ⟨stage, by rw [List.getLast?_cons, hlast]; rfl, hresult⟩)
    · exact Or.inr (Or.inr (Or.inl ⟨stage, err', by rw [List.getLast?_cons, hlast]; rfl, hresult⟩))
    · refine Or.inr (Or.inr (Or.inl ⟨.unlockA, err, by rw [hnone]; rfl, ?_⟩))
      rw [hresult]

end Facts

/-! ### What the classification makes of it -/

/-- The result, the wire kind and the bye of an outcome fit each other and the last call. -/
structure Consistent (run : Execution) : Prop where
  ok : run.outcome.result = OK →
    run.outcome.wireKind = none ∧ run.outcome.terminatedByBye = false
  bye : run.outcome.terminatedByBye = true → run.outcome.result = NO_RING
  kind : ∀ kind, run.outcome.wireKind = some kind → run.outcome.terminatedByBye = false →
    run.outcome.result = classifyWireErr kind ∧
      ∃ stage err expired, (calls run.events).getLast? = some (.wireErr stage err) ∧
        run.capExpired = some expired ∧
        kind = if expired = true ∧ err.isRetryable = false then .timeout else err
  business : (run.outcome.result = ERR ∧ run.outcome.wireKind = none) ↔
    ∃ stage, (calls run.events).getLast? = some (.businessErr stage)

theorem noRing_ne : NO_RING ≠ OK ∧ NO_RING ≠ ERR := by decide

theorem classifyWireErr_ne_OK (kind : WireKind) : classifyWireErr kind ≠ OK := by
  cases kind with
  | silentFin | timeout | retryable | other => decide

section Classify

variable {σ : Type*} {last : Option WireKind} {events : List Event} {result : RetryResult}

theorem Shape.classify_consistent (h : Shape 0 none events result) (env : Env σ) (s : σ) :
    Consistent ⟨events, (classify env result s).1, (classify env result s).2.1⟩ := by
  rcases h.result_cases with ⟨hlast, hresult⟩ | ⟨stage, hlast, hresult⟩ |
    ⟨stage, err, hlast, hresult⟩ | ⟨hnone, hresult⟩
  · have hclassify : classify env result s = (none, ⟨OK, result.retries, false, none⟩, s) := by
      rw [hresult]
      rfl
    rw [hclassify]
    refine ⟨fun _ ↦ ⟨rfl, rfl⟩, fun hbye ↦ absurd hbye Bool.false_ne_true, ?_, ?_⟩
    · rintro kind hkind -
      exact absurd hkind (by simp)
    · rw [hlast]
      simp [OK, ERR]
  · have hclassify : classify env result s = (none, ⟨ERR, result.retries, false, none⟩, s) := by
      rw [hresult]
      rfl
    rw [hclassify]
    refine ⟨fun _ ↦ ⟨rfl, rfl⟩, fun hbye ↦ absurd hbye Bool.false_ne_true, ?_, ?_⟩
    · rintro kind hkind -
      exact absurd hkind (by simp)
    · exact ⟨fun _ ↦ ⟨stage, hlast⟩, fun _ ↦ ⟨rfl, rfl⟩⟩
  · have hbusiness : ¬∃ stage', (calls events).getLast? = some (.businessErr stage') := by
      rw [hlast]
      simp
    cases hbye : result.terminatedByBye with
    | true =>
      have hclassify : classify env result s =
          (none, ⟨NO_RING, result.retries, true, some err⟩, s) := by
        rw [hresult, hbye]
        rfl
      rw [hclassify]
      refine ⟨fun hOK ↦ absurd hOK noRing_ne.1, fun _ ↦ rfl, ?_, ?_⟩
      · rintro kind - hopen
        exact absurd hopen (by simp)
      · exact iff_of_false (fun hboth ↦ absurd hboth.2 (by simp)) hbusiness
    | false =>
      have hclassify : classify env result s =
          (some (env.expired s).1,
            ⟨classifyWireErr
                (if (env.expired s).1 && !err.isRetryable then .timeout else err), result.retries,
              false, some (if (env.expired s).1 && !err.isRetryable then .timeout else err)⟩,
            (env.expired s).2) := by
        rw [hresult, hbye]
        rfl
      rw [hclassify]
      refine ⟨fun hOK ↦ absurd hOK (classifyWireErr_ne_OK _),
        fun hopen ↦ absurd hopen Bool.false_ne_true, ?_, ?_⟩
      · rintro kind hkind -
        obtain rfl := Option.some.inj hkind
        refine ⟨rfl, stage, err, (env.expired s).1, hlast, rfl, ?_⟩
        simp
      · exact iff_of_false (fun hboth ↦ absurd hboth.2 (by simp)) hbusiness
  · have hclassify : classify env result s = (none, ⟨NO_RING, result.retries, false, none⟩, s) := by
      rw [hresult]
      rfl
    rw [hclassify]
    refine ⟨fun hOK ↦ absurd hOK noRing_ne.1, fun _ ↦ rfl, ?_, ?_⟩
    · rintro kind hkind -
      exact absurd hkind (by simp)
    · refine iff_of_false (fun hboth ↦ absurd hboth.1 noRing_ne.2) ?_
      rw [hnone]
      simp

end Classify

/-! ### The subscription of a call -/

section Subscription

variable {σ : Type*}

/-- The listener `l` of a call is a part `view` of the state. Its `subscribe` draws an id and
registers, its cancel handle is the cancel closure, and whatever else becomes of the listener in
between, while the seams are at work, is a run of it. -/
structure Listens (ids : ℕ) (env : Env σ) (l : Subscribable σ) (view : σ → State) : Prop where
  expired : ∀ s, Reachable (step ids) (view s) (view (env.expired s).2)
  cancelLoad : ∀ s, Reachable (step ids) (view s) (view (env.cancelLoad s).2)
  tryOnce : ∀ args s, Reachable (step ids) (view s) (view (env.tryOnce args s).2)
  sleep : ∀ dur bye s, Reachable (step ids) (view s) (view (env.sleep dur bye s).2)
  subscribe : ∀ filter s, Reachable (step ids) .init (view s) → ∃ t u v w,
    Reachable (step ids) (view s) t ∧ (l.subscribe filter s).1 = t.drawn ∧
      step ids t (.draw fun frame ↦ some (filter frame)) = some u ∧ Reachable (step ids) u v ∧
      step ids v (.register t.drawn) = some w ∧
      Reachable (step ids) w (view (l.subscribe filter s).2)
  cancel : ∀ k s, Reachable (step ids) .init (view s) → ((view s).registeredAt k).isSome →
    ∃ t u, Reachable (step ids) (view s) t ∧ step ids t (.cancel k) = some u ∧
      Reachable (step ids) u (view (l.cancel k s))

variable {ids : ℕ} {env : Env σ} {l : Subscribable σ} {view : σ → State}

namespace Listens

/-- A run of the retry loop leads the listener on, question by question. -/
theorem retry (h : Listens ids env l view) (args : UnlockArgs) (bye : Bool) (s : σ) :
    Reachable (step ids) (view s) (view (runUnlockWithRetry env args bye s).2.2) :=
  replay_relation (R := fun s t ↦ Reachable (step ids) (view s) (view t)) (fun _ ↦ .refl _ _)
    (fun hst htu ↦ hst.trans htu) h.expired h.cancelLoad (h.tryOnce args)
    (h.sleep args.retryInterval bye) (runUnlockWithRetry_replay s)

theorem classify (h : Listens ids env l view) (r : RetryResult) (s : σ) :
    Reachable (step ids) (view s) (view (classify env r s).2.2) := by
  unfold Unlock.classify
  split_ifs
  · exact .refl _ _
  · exact .refl _ _
  · split
    · exact h.expired s
    · exact .refl _ _

/-- The subscription of a call is not in the list when the call returns, when at most one entry with
its id is in front of its own as it has subscribed. -/
theorem not_mem (h : Listens ids env l view) (args : UnlockArgs) (s : σ)
    (hreach : Reachable (step ids) .init (view s)) {k : ℕ}
    (hk : k = (l.subscribe (filterReq708ForTarget (parseIpv4 args.targetIp)) s).1)
    (hshared : (view (l.subscribe (filterReq708ForTarget (parseIpv4 args.targetIp))
      s).2).SharedOnce k) :
    k ∉ (view (executeUnlock env (some l) args s).2).subs.map SubEntry.tx := by
  have hreturn : (executeUnlock env (some l) args s).2 =
      l.cancel k (l.cancel k (Unlock.classify env
        (runUnlockWithRetry env args true
          (l.subscribe (filterReq708ForTarget (parseIpv4 args.targetIp)) s).2).2.1
        (runUnlockWithRetry env args true
          (l.subscribe (filterReq708ForTarget (parseIpv4 args.targetIp)) s).2).2.2).2.2) := by
    rw [hk]
    rfl
  rw [hreturn]
  generalize filterReq708ForTarget (parseIpv4 args.targetIp) = filter at hk hshared ⊢
  obtain ⟨t, u, v, w, ht, hdrawn, hdraw, huv, hregister, hw⟩ := h.subscribe filter s hreach
  rw [← hk] at hdrawn
  rw [← hdrawn] at hregister
  obtain ⟨-, -, -, rfl⟩ := step_register hregister
  -- The entry is registered from here on.
  have hdrawReach : Reachable (step ids) .init u := (hreach.trans ht).next hdraw
  have hregisterReach := (hdrawReach.trans huv).next hregister
  have hsubscribed := hregisterReach.trans hw
  have hregistered : ((view (l.subscribe filter s).2).registeredAt k).isSome := by
    obtain ⟨labels, hrun⟩ := hw
    refine (exec_onward hrun).registered k ?_
    simp only [Function.update_self, Option.isSome_some]
  generalize (l.subscribe filter s).2 = s₁ at hshared hsubscribed hregistered ⊢
  have hran := (h.retry args true s₁).trans
    (h.classify (runUnlockWithRetry env args true s₁).2.1 (runUnlockWithRetry env args true s₁).2.2)
  generalize (Unlock.classify env (runUnlockWithRetry env args true s₁).2.1
    (runUnlockWithRetry env args true s₁).2.2).2.2 = s₂ at hran ⊢
  have hranReach := hsubscribed.trans hran
  have hranRegistered : ((view s₂).registeredAt k).isSome := by
    obtain ⟨labels, hrun⟩ := hran
    exact (exec_onward hrun).registered k hregistered
  -- The explicit cancel, and the one of the drop.
  obtain ⟨t₁, u₁, ht₁, hcancel₁, hu₁⟩ := h.cancel k s₂ hranReach hranRegistered
  have ht₁Reach := hranReach.trans ht₁
  have hcancelReach := (ht₁Reach.next hcancel₁).trans hu₁
  have hcancelRegistered : ((view (l.cancel k s₂)).registeredAt k).isSome := by
    obtain ⟨labels, hrun⟩ := ht₁
    obtain ⟨labels', hrun'⟩ := hu₁
    exact (exec_onward hrun').registered k
      ((step_onward hcancel₁).registered k ((exec_onward hrun).registered k hranRegistered))
  obtain ⟨t₂, u₂, ht₂, hcancel₂, hu₂⟩ := h.cancel k (l.cancel k s₂) hcancelReach hcancelRegistered
  obtain ⟨between, hbetween⟩ := hu₁.trans ht₂
  obtain ⟨after, hafter⟩ := hu₂
  obtain ⟨labels, hrun⟩ := hsubscribed
  obtain ⟨before, hbefore⟩ := hran.trans ht₁
  exact not_mem_of_two_cancels (exec_listed listed_init hrun) hregistered hshared hbefore hcancel₁
    hbetween hcancel₂ hafter

end Listens

/-- **Outcomes of an unlock.** For every behaviour of the seams and of the listener, result, wire
kind and bye fit each other and the last attempt. The subscription made by the call is not in the
list of the listener when the call returns, as long as at most one entry with its id is in the list
in front of its own when it has subscribed. -/
theorem executeUnlock_consistent (env : Env σ) (listener : Option (Subscribable σ))
    (args : UnlockArgs) (s : σ) :
    Consistent (executeUnlock env listener args s).1 ∧
    ∀ (l : Subscribable σ) (ids : ℕ) (view : σ → State) (k : ℕ), listener = some l →
      Listens ids env l view → Reachable (step ids) .init (view s) →
      k = (l.subscribe (filterReq708ForTarget (parseIpv4 args.targetIp)) s).1 →
      (view (l.subscribe (filterReq708ForTarget (parseIpv4 args.targetIp)) s).2).SharedOnce k →
      k ∉ (view (executeUnlock env listener args s).2).subs.map SubEntry.tx := by
  constructor
  · obtain ⟨bye, s₁, hrun⟩ := executeUnlock_outcome env listener args s
    rw [hrun]
    exact (runUnlockWithRetry_shape env args bye s₁).classify_consistent env _
  · rintro l ids view k rfl hlistens hreach hk hshared
    exact hlistens.not_mem args s hreach hk hshared

end Subscription

/-! ### A listener that nobody else uses -/

/-- The dispatch under way is brought to its end. -/
def settle (s : State) : State :=
  match s.dispatching with
  | none => s
  | some (frame, rest) => { s with
      dispatching := none
      subscriptions := rest.foldl (fun subscriptions e ↦ Function.update subscriptions e.tx
        (Subscription.visit e frame (subscriptions e.tx))) s.subscriptions }

theorem settle_dispatching (s : State) : (settle s).dispatching = none := by
  unfold settle
  split
  · assumption
  · rfl

theorem reachable_settle (ids : ℕ) (s : State) : Reachable (step ids) s (settle s) := by
  cases hdispatching : s.dispatching with
  | none =>
    have hsettle : settle s = s := by simp only [settle, hdispatching]
    rw [hsettle]
    exact .refl _ s
  | some held =>
    obtain ⟨frame, rest⟩ := held
    induction rest generalizing s with
    | nil =>
      refine ⟨[.finish], ?_⟩
      simp only [exec, step, hdispatching, settle, List.foldl_nil, Option.bind_some]
    | cons e rest ih =>
      have hvisit : step ids s (.visit e.tx frame) = some { s with
          dispatching := some (frame, rest)
          subscriptions := Function.update s.subscriptions e.tx
            (Subscription.visit e frame (s.subscriptions e.tx)) } := by
        simp only [step, hdispatching, and_self, if_true]
      have hrest := ih { s with
        dispatching := some (frame, rest)
        subscriptions := Function.update s.subscriptions e.tx
          (Subscription.visit e frame (s.subscriptions e.tx)) } rfl
      have hsettle : settle s = settle { s with
          dispatching := some (frame, rest)
          subscriptions := Function.update s.subscriptions e.tx
            (Subscription.visit e frame (s.subscriptions e.tx)) } := by
        simp only [settle, hdispatching, List.foldl_cons]
      rw [hsettle]
      exact Reachable.trans ⟨[_], exec_cons_eq_some.mpr ⟨_, hvisit, rfl⟩⟩ hrest

/-- A listener whose operations wait for the dispatch under way and then take place at once. -/
def alone (ids : ℕ) : Subscribable State where
  subscribe filter s :=
    ((settle s).drawn, (exec (step ids) (settle s)
      [.draw fun frame ↦ some (filter frame), .register (settle s).drawn]).getD s)
  cancel k s := (step ids (settle s) (.cancel k)).getD s

/-- Seams that leave the listener alone, with a wire on which the first attempt succeeds. -/
def quiet : Env State where
  expired s := (false, s)
  cancelLoad s := (false, s)
  tryOnce _ s := (.ok, s)
  sleep _ _ s := (.elapsed, s)

theorem listens_alone (ids : ℕ) : Listens ids quiet (alone ids) id where
  expired s := .refl _ s
  cancelLoad s := .refl _ s
  tryOnce _ s := .refl _ s
  sleep _ _ s := .refl _ s
  subscribe filter s hreach := by
    have hsettled := reachable_settle ids s
    obtain ⟨labels, hrun⟩ := hreach.trans hsettled
    have hfresh : (settle s).registeredAt (settle s).drawn = none := by
      by_contra hsome
      have hlt := (exec_listed listed_init hrun).lt_drawn (settle s).drawn
        (Option.isSome_iff_ne_none.mpr hsome)
      exact Nat.lt_irrefl _ hlt
    have hidle := settle_dispatching s
    obtain ⟨u, hdraw⟩ : ∃ u, step ids (settle s) (.draw fun frame ↦ some (filter frame)) = some u :=
      ⟨_, rfl⟩
    obtain ⟨w, hregister⟩ : ∃ w, step ids u (.register (settle s).drawn) = some w := by
      obtain rfl := Option.some.inj hdraw
      exact ⟨_, if_pos ⟨Nat.lt_succ_self _, hfresh, Option.isNone_iff_eq_none.mpr hidle⟩⟩
    have hsubscribe : ((alone ids).subscribe filter s).2 = w := by
      simp only [alone, exec, hdraw, hregister, Option.bind_some, Option.getD_some]
    refine ⟨settle s, u, u, w, hsettled, rfl, hdraw, .refl _ u, hregister, ?_⟩
    rw [id, hsubscribe]
    exact .refl _ w
  cancel k s hreach hregistered := by
    have hsettled := reachable_settle ids s
    have hregistered' : ((settle s).registeredAt k).isSome := by
      obtain ⟨labels, hrun⟩ := hsettled
      exact (exec_onward hrun).registered k hregistered
    have hidle := settle_dispatching s
    obtain ⟨u, hcancel⟩ : ∃ u, step ids (settle s) (.cancel k) = some u :=
      ⟨_, if_pos ⟨hregistered', Option.isNone_iff_eq_none.mpr hidle⟩⟩
    refine ⟨settle s, u, hsettled, hcancel, ?_⟩
    simp only [id, alone, hcancel, Option.getD_some]
    exact .refl _ u

/-- An unlock on the HTTP path, of a target whose address does not parse. -/
def unlockArgs : UnlockArgs := ⟨indoorBcd, stationBcd, [], 18022, none, UNLOCK_RETRY_INTERVAL⟩

theorem executeUnlock_consistent_alone :
    (executeUnlock quiet (some (alone 4294967296)) unlockArgs .init).1.outcome.result = OK ∧
      0 ∉ (executeUnlock quiet (some (alone 4294967296)) unlockArgs .init).2.subs.map
        SubEntry.tx := by
  refine ⟨rfl, ?_⟩
  have hshared : ((alone 4294967296).subscribe
      (filterReq708ForTarget (parseIpv4 unlockArgs.targetIp)) .init).2.SharedOnce 0 :=
    ⟨0, fun e he ↦ absurd he List.not_mem_nil⟩
  exact (executeUnlock_consistent quiet (some (alone 4294967296)) unlockArgs .init).2
    (alone 4294967296) 4294967296 id 0 rfl (listens_alone 4294967296) ⟨[], rfl⟩ rfl hshared

/-! ### Three subscriptions of one id -/

/-- `count` subscriptions that come and go, the first of them with the number `n`. -/
def passing : ℕ → ℕ → List Label
  | _, 0 => []
  | n, count + 1 => [.draw everyFrame, .register n, .cancel n] ++ passing (n + 1) count

/-- After `n` subscriptions the list has the entries `stay`. -/
structure Stays (ids : ℕ) (stay : List SubEntry) (n : ℕ) (s : State) : Prop where
  subs : s.subs = stay
  next : s.nextSubId = n % ids
  drawn : s.drawn = n
  idle : s.dispatching = none
  fresh : ∀ k, n ≤ k → s.registeredAt k = none

section Stays

variable {ids n : ℕ} {stay : List SubEntry} {s : State}

/-- One more subscribes. -/
theorem Stays.subscribe (h : Stays ids stay n s) (filter : CaughtFilter) :
    ∃ t, exec (step ids) s [.draw filter, .register n] = some t ∧
      Stays ids (stay ++ [⟨n % ids, filter, n, false⟩]) (n + 1) t ∧
      (t.subscriptions n).id = n % ids ∧ (t.registeredAt n).isSome := by
  have hnew := h.fresh n (Nat.le_refl n)
  refine ⟨{ s with
    subs := stay ++ [⟨n % ids, filter, n, false⟩]
    nextSubId := (n % ids + 1) % ids
    drawn := n + 1
    subscriptions := Function.update s.subscriptions n ⟨n % ids, filter, [], true, [], []⟩
    registeredAt := Function.update s.registeredAt n (some s.dispatched.length) }, ?_,
    ⟨rfl, Nat.mod_add_mod n ids 1, rfl, h.idle, ?_⟩, ?_, ?_⟩
  · simp only [exec, step, h.drawn, hnew, h.idle, Nat.lt_succ_self, Option.isNone_none, and_self,
      if_true, Option.bind_some, Function.update_self, State.entry, h.subs, h.next]
  · intro k hk
    simp only [Function.update_of_ne (Nat.ne_of_gt hk)]
    exact h.fresh k (Nat.le_of_succ_le hk)
  · simp only [Function.update_self]
  · simp only [Function.update_self, Option.isSome_some]

/-- A cancel on an idle listener. -/
theorem Stays.cancel {m k id : ℕ} (h : Stays ids stay m s) (hid : (s.subscriptions k).id = id)
    (hregistered : (s.registeredAt k).isSome) :
    ∃ t, step ids s (.cancel k) = some t ∧ Stays ids (removeSub stay id) m t ∧
      t.subscriptions = s.subscriptions ∧ t.registeredAt = s.registeredAt := by
  refine ⟨{ s with
    subs := removeSub s.subs (s.subscriptions k).id
    cancelledAt := Function.update s.cancelledAt k
      (some ((s.cancelledAt k).getD s.dispatched.length)) },
    if_pos ⟨hregistered, Option.isNone_iff_eq_none.mpr h.idle⟩,
    ⟨by rw [h.subs, hid], h.next, h.drawn, h.idle, h.fresh⟩, rfl, rfl⟩

theorem removeSub_append {id : ℕ} {e : SubEntry} (hstay : ∀ e' ∈ stay, e'.id ≠ id)
    (hid : e.id = id) (hopen : e.closed = false) : removeSub (stay ++ [e]) id = stay := by
  rw [removeSub, List.eraseP_append_right]
  · simp [hid, hopen]
  · intro e' he'
    simp [hstay e' he']

/-- Those that come and go leave the list as it is, as long as none of them gets the id of an entry
in it. -/
theorem Stays.passing {count : ℕ} (h : Stays ids stay n s)
    (hids : ∀ i < count, ∀ e ∈ stay, e.id ≠ (n + i) % ids) :
    ∃ t, exec (step ids) s (passing n count) = some t ∧ Stays ids stay (n + count) t := by
  induction count generalizing n s with
  | zero => exact ⟨s, rfl, h⟩
  | succ count ih =>
    obtain ⟨t, ht, hstays, hid, hregistered⟩ := h.subscribe everyFrame
    obtain ⟨u, hu, hcancelled, -, -⟩ := hstays.cancel hid hregistered
    have hstay : removeSub (stay ++ [⟨n % ids, everyFrame, n, false⟩]) (n % ids) = stay :=
      removeSub_append (hids 0 (Nat.zero_lt_succ count)) rfl rfl
    rw [hstay] at hcancelled
    obtain ⟨v, hv, hrest⟩ := ih hcancelled fun i hi ↦ by
      have hlater := hids (i + 1) (Nat.succ_lt_succ hi)
      rwa [← Nat.add_assoc, Nat.add_right_comm] at hlater
    refine ⟨v, ?_, by rwa [Nat.add_assoc, Nat.add_comm 1] at hrest⟩
    have hround : exec (step ids) s [.draw everyFrame, .register n, .cancel n] = some u := by
      have hsplit : [Label.draw everyFrame, .register n, .cancel n] =
          [.draw everyFrame, .register n] ++ [.cancel n] := rfl
      rw [hsplit, exec_snoc_eq_some]
      exact ⟨t, ht, hu⟩
    rw [Unlock.passing, exec_append, hround]
    exact hv

/-- A subscription that stays, `n` that pass, another one that stays and `n` more that pass. -/
def twoStay (n : ℕ) : List Label :=
  ([.draw everyFrame, .register 0] ++ Unlock.passing 1 n) ++
    ([.draw everyFrame, .register (n + 1)] ++ Unlock.passing (n + 2) n)

/-- With `n + 1` ids the two that stay have the same one, and the next subscription gets it too. -/
theorem exec_twoStay (n : ℕ) : ∃ s, exec (step (n + 1)) .init (twoStay n) = some s ∧
    Stays (n + 1) [⟨0, everyFrame, 0, false⟩, ⟨0, everyFrame, n + 1, false⟩]
      (2 * (n + 1)) s := by
  have hinit : Stays (n + 1) [] 0 .init := ⟨rfl, rfl, rfl, rfl, fun _ _ ↦ rfl⟩
  obtain ⟨t, ht, hfirst, -, -⟩ := hinit.subscribe everyFrame
  rw [Nat.zero_mod, List.nil_append] at hfirst
  have hids : ∀ i < n, ∀ e ∈ [(⟨0, everyFrame, 0, false⟩ : SubEntry)],
      e.id ≠ (0 + 1 + i) % (n + 1) := by
    intro i hi e he
    rw [List.mem_singleton.mp he, Nat.mod_eq_of_lt (by omega)]
    exact (Nat.ne_of_gt (Nat.add_pos_left (Nat.zero_lt_succ 0) i)).symm
  obtain ⟨u, hu, hpassed⟩ := hfirst.passing hids
  rw [Nat.zero_add, Nat.add_comm 1 n] at hpassed
  obtain ⟨v, hv, hsecond, -, -⟩ := hpassed.subscribe everyFrame
  rw [Nat.mod_self] at hsecond
  have hids' : ∀ i < n, ∀ e ∈ [(⟨0, everyFrame, 0, false⟩ : SubEntry)] ++
      [⟨0, everyFrame, n + 1, false⟩], e.id ≠ (n + 1 + 1 + i) % (n + 1) := by
    intro i hi e he
    have hid : e.id = 0 := by
      rcases List.mem_append.mp he with hfirst | hlast
      · rw [List.mem_singleton.mp hfirst]
      · rw [List.mem_singleton.mp hlast]
    have hnumber : n + 1 + 1 + i = n + 1 + (i + 1) := by omega
    rw [hid, hnumber, Nat.add_mod_left, Nat.mod_eq_of_lt (by omega)]
    exact (Nat.succ_ne_zero i).symm
  obtain ⟨w, hw, hall⟩ := hsecond.passing hids'
  refine ⟨w, ?_, ?_⟩
  · rw [twoStay, exec_append, exec_append, ht, Option.bind_some, hu, Option.bind_some, exec_append,
      hv, Option.bind_some]
    exact hw
  · have hcount : n + 1 + 1 + n = 2 * (n + 1) := by omega
    rwa [hcount] at hall

theorem settle_of_idle (h : s.dispatching = none) : settle s = s := by
  simp only [settle, h]

/-- The call subscribes as the third with its id. Its two cancels take out the two others. -/
theorem executeUnlock_third (h : Stays ids
      [⟨0, everyFrame, 0, false⟩, ⟨0, everyFrame, n, false⟩] (2 * ids) s) :
    ((alone ids).subscribe (filterReq708ForTarget (parseIpv4 unlockArgs.targetIp)) s).1 =
        2 * ids ∧
      2 * ids ∈ (executeUnlock quiet (some (alone ids)) unlockArgs s).2.subs.map SubEntry.tx := by
  have hnumber :
      ((alone ids).subscribe (filterReq708ForTarget (parseIpv4 unlockArgs.targetIp)) s).1 =
        2 * ids := by
    simp only [alone, settle_of_idle h.idle, h.drawn]
  have hreturn : (executeUnlock quiet (some (alone ids)) unlockArgs s).2 =
      (alone ids).cancel (2 * ids) ((alone ids).cancel (2 * ids)
        ((alone ids).subscribe (filterReq708ForTarget (parseIpv4 unlockArgs.targetIp)) s).2) := by
    rw [← hnumber]
    rfl
  refine ⟨hnumber, ?_⟩
  rw [hreturn]
  generalize filterReq708ForTarget (parseIpv4 unlockArgs.targetIp) = filter
  obtain ⟨t, ht, hsubscribed, hid, hregistered⟩ :=
    h.subscribe fun frame ↦ some (filter frame)
  obtain ⟨u, hu, hcancelled, hsame, hsame'⟩ := hsubscribed.cancel hid hregistered
  obtain ⟨v, hv, hleft, -, -⟩ := hcancelled.cancel (hsame ▸ hid) (hsame' ▸ hregistered)
  have hsubscribe : ((alone ids).subscribe filter s).2 = t := by
    simp only [alone, settle_of_idle h.idle, h.drawn, ht, Option.getD_some]
  have hcancel : (alone ids).cancel (2 * ids) t = u := by
    simp only [alone, settle_of_idle hsubscribed.idle, hu, Option.getD_some]
  have hcancel' : (alone ids).cancel (2 * ids) u = v := by
    simp only [alone, settle_of_idle hcancelled.idle, hv, Option.getD_some]
  rw [hsubscribe, hcancel, hcancel', hleft.subs, Nat.mul_mod_left]
  exact List.mem_singleton_self _

/-- On a target with 32 bits: after two subscriptions that are never cancelled and `2 ^ 33 - 2`
others the subscription of a call is still in the list when the call has returned. -/
theorem executeUnlock_keeps_subscription : ∃ s,
    exec (step 4294967296) .init (twoStay 4294967295) = some s ∧
      Listens 4294967296 quiet (alone 4294967296) id ∧
      ((alone 4294967296).subscribe
        (filterReq708ForTarget (parseIpv4 unlockArgs.targetIp)) s).1 = 8589934592 ∧
      8589934592 ∈
        (executeUnlock quiet (some (alone 4294967296)) unlockArgs s).2.subs.map SubEntry.tx := by
  obtain ⟨s, hrun, hstays⟩ := exec_twoStay 4294967295
  obtain ⟨hnumber, hmem⟩ := executeUnlock_third hstays
  exact ⟨s, hrun, listens_alone 4294967296, hnumber, hmem⟩

end Stays

end DoorAccess.Unlock
