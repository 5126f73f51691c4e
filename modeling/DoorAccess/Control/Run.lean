import DoorAccess.Control.Orders
import Mathlib.Data.List.ReduceOption

/-!
# Sequences of requests

`serve_run` is the behaviour of the control plane over any sequence of requests: but for the pushes,
everything that is done is what was ordered, in its order, down to the two calls with which a stream
keeps its session alive and takes it down, and the automation flags are what the toggles among the
orders make of the flags at the start.
-/

set_option autoImplicit false
set_option relaxedAutoImplicit false

namespace DoorAccess.Control

open Codec Httpx Unlock
open Video (Outdoor)

variable {σ : Type*} {cases : CaseTable} {sv : Server σ} {r : Request}

/-! ### Effects -/

/-- The plane after a sequence of requests. -/
def Server.run (cases : CaseTable) (sv : Server σ) (rs : List Request) (s : Plane σ) : Plane σ :=
  rs.foldl (fun s r ↦ (sv.serveHttp cases r s).2) s

def Effect.isPush : Effect → Bool
  | push _ _ => true
  | _ => false

/-- The effects that are no pushes. -/
def unpushed (effects : List Effect) : List Effect :=
  effects.filter fun e ↦ !e.isPush

/-- The flags that are handed to the persist hook. -/
def Effect.persisted : Effect → Option (Option AutomationState.State)
  | persist flags => some flags
  | _ => none

/-- Whether a stream of a session is served: the session has a keyframe before the wait for one is
over, and is still open and with both parameter sets then. -/
def Manager.streams (mgr : Manager σ) (id : Str) (world : σ) : Bool :=
  match mgr.waitIdr id world with
  | (.error _, _) => false
  | (.ok (), world) =>
    let (closed, world) := mgr.closed id world
    !closed && (mgr.latestIdr id world).1

namespace Order

/-- What an order does to the flags. -/
def flags : Order → AutomationState.State → AutomationState.State
  | autoUnlock on => fun flags ↦ { flags with autoUnlock := on }
  | autoHangup on => fun flags ↦ { flags with autoHangup := on }
  | _ => id

def isToggle : Order → Bool
  | autoUnlock _ => true
  | autoHangup _ => true
  | _ => false

/-- What an order does in a plane, the pushes apart. -/
def effects (sv : Server σ) (s : Plane σ) : Order → List Effect
  | autoUnlock on => if sv.persist then [.persist (s.automation.map (autoUnlock on).flags)] else []
  | autoHangup on => if sv.persist then [.persist (s.automation.map (autoHangup on).flags)] else []
  | unlock _ _ callerBcd calleeBcd targetIp targetPort =>
    [.dispatch callerBcd calleeBcd targetIp targetPort]
  | videoStart outdoor => [.start outdoor]
  | videoStop outdoor => [.stop outdoor.uri]
  | video sessionId resource => sv.video.elim [] fun mgr ↦
      let (current, world) := mgr.currentById (Utf8.encode sessionId) s.world
      if current = true ∧ resource = "stream.flv".toList ∧
          mgr.streams (Utf8.encode sessionId) world = true then
        [.refreshTtl (Utf8.encode sessionId), .stopById (Utf8.encode sessionId)]
      else []

end Order

/-- What the orders of a sequence of requests do, the pushes apart, each in the plane that it
finds. -/
def effectsOf (cases : CaseTable) (sv : Server σ) :
    List Request → List (Option Order) → Plane σ → List Effect
  | r :: rs, order :: orders, s =>
    (order.elim [] fun order ↦ order.effects sv s) ++
      effectsOf cases sv rs orders (sv.serveHttp cases r s).2
  | _, _, _ => []

@[simp] theorem unpushed_append (first second : List Effect) :
    unpushed (first ++ second) = unpushed first ++ unpushed second :=
  List.filter_append _ _

@[simp] theorem Reply.unpushed_effects (reply : Reply) : unpushed reply.effects = [] := by
  rw [unpushed, Reply.effects, List.filter_eq_nil_iff]
  rintro effect heffect
  obtain ⟨push, -, rfl⟩ := List.mem_map.mp heffect
  exact Bool.false_ne_true

@[simp] theorem Reply.effects_persisted (reply : Reply) :
    reply.effects.filterMap Effect.persisted = [] := by
  rw [Reply.effects, List.filterMap_map, List.filterMap_eq_nil_iff]
  exact fun push _ ↦ rfl

/-- What a stream leaves behind in the plane. -/
theorem serveVideoStream_plane (mgr : Manager σ) (id : Str) (r : Request) (s : Plane σ) :
    ∃ world, (serveVideoStream mgr id r s).2 = { s with world }.note
      (if mgr.streams id s.world = true then [.refreshTtl id, .stopById id] else []) := by
  unfold serveVideoStream Manager.streams
  rcases hwait : mgr.waitIdr id s.world with ⟨_ | _, world⟩
  · rename_i e
    cases e <;> exact ⟨world, by simp [Plane.note]⟩
  · simp only
    by_cases hclosed : (mgr.closed id world).1 = true
    · exact ⟨(mgr.closed id world).2, by simp [hclosed, Plane.note]⟩
    · by_cases hready : (mgr.latestIdr id (mgr.closed id world).2).1 = true
      · refine ⟨mgr.stopById id (mgr.run id r (mgr.refreshTtl id
          (mgr.latestIdr id (mgr.closed id world).2).2)).2, ?_⟩
        simp [hclosed, hready]
      · exact ⟨(mgr.latestIdr id (mgr.closed id world).2).2,
          by simp [hclosed, hready, Plane.note]⟩

/-- What one order does to the parts of the plane that a run is about. -/
structure Order.Does (sv : Server σ) (o : Order) (s t : Plane σ) : Prop where
  effects : unpushed t.done = unpushed s.done ++ o.effects sv s
  automation : t.automation = s.automation.map o.flags
  persisted : t.done.filterMap Effect.persisted = s.done.filterMap Effect.persisted ++
    if o.isToggle = true ∧ sv.persist = true then [t.automation] else []

theorem Order.does_note {o : Order} {s : Plane σ} {automation : Option AutomationState.State}
    {world : σ} {effects : List Effect} (heffects : unpushed effects = o.effects sv s)
    (hautomation : automation = s.automation.map o.flags)
    (hpersisted : effects.filterMap Effect.persisted =
      if o.isToggle = true ∧ sv.persist = true then [automation] else []) :
    o.Does sv s (({ s with automation, world } : Plane σ).note effects) where
  effects := by rw [Plane.note, unpushed_append, heffects]
  automation := hautomation
  persisted := by rw [Plane.note, List.filterMap_append, hpersisted]

theorem Orders.does {o : Order} (h : Orders cases sv r o) (s : Plane σ) :
    o.Does sv s (o.perform sv r s).2 := by
  have hid : s.automation = s.automation.map id := (Option.map_id_apply).symm
  cases h with
  | autoUnlock =>
    refine @Order.does_note _ sv _ s _ s.world _ ?_ rfl ?_
    · unfold Order.effects
      cases sv.persist <;> rfl
    · cases sv.persist <;> rfl
  | autoHangup =>
    refine @Order.does_note _ sv _ s _ s.world _ ?_ rfl ?_
    · unfold Order.effects
      cases sv.persist <;> rfl
    · cases sv.persist <;> rfl
  | unlock =>
    refine Order.does_note ?_ hid ?_
    · rw [unpushed, List.filter_cons_of_pos rfl]
      exact congrArg _ (Reply.unpushed_effects _)
    · rw [List.filterMap_cons_none rfl, Reply.effects_persisted]
      rfl
  | videoStart _ _ henabled _ =>
    obtain ⟨mgr, hmgr⟩ := Option.isSome_iff_exists.mp henabled
    simp only [Order.perform, hmgr, Option.elim]
    exact Order.does_note rfl hid rfl
  | videoStop _ _ henabled _ =>
    obtain ⟨mgr, hmgr⟩ := Option.isSome_iff_exists.mp henabled
    simp only [Order.perform, hmgr, Option.elim]
    exact Order.does_note rfl hid rfl
  | @video sessionId resource _ _ _ _ henabled =>
    obtain ⟨mgr, hmgr⟩ := Option.isSome_iff_exists.mp henabled
    have heffects : (Order.video sessionId resource).effects sv s =
        if (mgr.currentById (Utf8.encode sessionId) s.world).1 = true ∧
            resource = "stream.flv".toList ∧ mgr.streams (Utf8.encode sessionId)
              (mgr.currentById (Utf8.encode sessionId) s.world).2 = true then
          [.refreshTtl (Utf8.encode sessionId), .stopById (Utf8.encode sessionId)]
        else [] := by
      simp only [Order.effects, hmgr, Option.elim]
    have hquiet (world : σ) (hnone : (Order.video sessionId resource).effects sv s = []) :
        (Order.video sessionId resource).Does sv s { s with world } := by
      have hdoes := @Order.does_note _ sv (.video sessionId resource) s _ world [] hnone.symm hid
        rfl
      rwa [Plane.note, List.append_nil] at hdoes
    simp only [Order.perform, hmgr, Option.elim]
    by_cases hcurrent : (mgr.currentById (Utf8.encode sessionId) s.world).1 = true
    · by_cases hstream : resource = "stream.flv".toList
      · simp only [hcurrent, hstream, not_true, if_false, if_true]
        obtain ⟨world, hplane⟩ := serveVideoStream_plane mgr
          (Utf8.encode sessionId) r
          { s with world := (mgr.currentById (Utf8.encode sessionId) s.world).2 }
        rw [hplane]
        rw [hstream] at heffects
        simp only [hcurrent, true_and] at heffects
        refine Order.does_note ?_ hid ?_
        · rw [heffects]
          split_ifs <;> rfl
        · split_ifs <;> first | rfl | (rename_i htoggle; cases htoggle.1)
      · rw [if_neg fun h ↦ hstream h.2.1] at heffects
        simp only [hcurrent, hstream, not_true, if_false]
        split_ifs
        · exact hquiet _ heffects
        · exact hquiet _ heffects
    · rw [if_neg fun h ↦ hcurrent h.1] at heffects
      simp only [hcurrent, Bool.false_eq_true, not_false_eq_true, if_true]
      exact hquiet _ heffects

/-! ### Sequences of orders -/

/-- The orders of a sequence of requests, each with what it is if the request orders anything. -/
def OrdersAll (cases : CaseTable) (sv : Server σ) (rs : List Request)
    (orders : List (Option Order)) : Prop :=
  List.Forall₂ (fun r o ↦ ∀ order, o = some order ↔ Orders cases sv r order) rs orders

/-- The flags behind a sequence of orders. -/
def flagsAfter (orders : List Order) (flags : AutomationState.State) : AutomationState.State :=
  orders.foldl (fun flags order ↦ order.flags flags) flags

/-- The flags as each toggle of a sequence leaves them. -/
def toggledFlags : List Order → Option AutomationState.State →
    List (Option AutomationState.State)
  | [], _ => []
  | order :: orders, automation =>
    (if order.isToggle then [automation.map order.flags] else []) ++
      toggledFlags orders (automation.map order.flags)

theorem map_flagsAfter_cons (o : Order) (orders : List Order)
    (automation : Option AutomationState.State) :
    automation.map (flagsAfter (o :: orders)) =
      (automation.map o.flags).map (flagsAfter orders) := by
  rw [Option.map_map]
  rfl

/-- What a sequence of orders does to the parts of the plane that a run is about. -/
structure Does (sv : Server σ) (orders : List Order) (effects : List Effect) (s t : Plane σ) :
    Prop where
  effects : unpushed t.done = unpushed s.done ++ effects
  automation : t.automation = s.automation.map (flagsAfter orders)
  persisted : t.done.filterMap Effect.persisted = s.done.filterMap Effect.persisted ++
    if sv.persist = true then toggledFlags orders s.automation else []

theorem Does.nil (sv : Server σ) (s : Plane σ) : Does sv [] [] s s where
  effects := (List.append_nil _).symm
  automation := Option.map_id_apply.symm
  persisted := by simp [toggledFlags]

theorem Order.Does.cons {o : Order} {orders : List Order} {effects : List Effect}
    {s t u : Plane σ} (h : o.Does sv s t) (hrest : Control.Does sv orders effects t u) :
    Control.Does sv (o :: orders) (o.effects sv s ++ effects) s u where
  effects := by rw [hrest.effects, h.effects, List.append_assoc]
  automation := by rw [hrest.automation, h.automation, map_flagsAfter_cons]
  persisted := by
    rw [hrest.persisted, h.persisted, List.append_assoc, h.automation, toggledFlags]
    cases sv.persist <;> simp

/-- One request, through what it orders. -/
theorem serveHttp_step (cases : CaseTable) (sv : Server σ) (r : Request) (s : Plane σ) :
    (∃ order, Orders cases sv r order ∧ order.Does sv s (sv.serveHttp cases r s).2) ∨
      (∀ order, ¬Orders cases sv r order) ∧ (sv.serveHttp cases r s).2 = s := by
  rcases settles cases sv r with ⟨order, horder, hperform⟩ | ⟨hnone, hreport⟩
  · rw [hperform]
    exact Or.inl ⟨order, horder, horder.does s⟩
  · obtain ⟨calls, -, hserve⟩ := hreport s
    rw [hserve]
    exact Or.inr ⟨hnone, rfl⟩

theorem run_does (cases : CaseTable) (sv : Server σ) (rs : List Request) (s : Plane σ) :
    ∃ orders, OrdersAll cases sv rs orders ∧
      Does sv orders.reduceOption (effectsOf cases sv rs orders s) s (sv.run cases rs s) := by
  induction rs generalizing s with
  | nil => exact ⟨[], .nil, .nil sv s⟩
  | cons r rs ih =>
    obtain ⟨orders, hall, hdoes⟩ := ih (sv.serveHttp cases r s).2
    rcases serveHttp_step cases sv r s with ⟨order, horder, hstep⟩ | ⟨hnone, hstep⟩
    · refine ⟨some order :: orders, .cons (fun order' ↦ ⟨fun h ↦ ?_, fun h ↦ ?_⟩) hall, ?_⟩
      · rwa [← Option.some.inj h]
      · rw [horder.eq h]
      · rw [List.reduceOption_cons_of_some]
        exact hstep.cons hdoes
    · refine ⟨none :: orders,
        .cons (fun order ↦ iff_of_false (fun h ↦ by cases h) (hnone order)) hall, ?_⟩
      rw [hstep] at hdoes
      rw [List.reduceOption_cons_of_none, effectsOf, Option.elim_none, List.nil_append, Server.run,
        List.foldl_cons, hstep]
      exact hdoes

end DoorAccess.Control
