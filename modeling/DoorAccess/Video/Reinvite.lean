import DoorAccess.Video.Monitor
import Mathlib.Algebra.Group.Nat.Defs
import Mathlib.Data.List.Chain

/-!
# The re-invite driver

`tick_reinvite` over a whole run of ticks. The monitor of a session calls it at every tick with the
clock it has read; in between, packets arrive and consumers come and go. The success of a re-invite
is settled only when the next one is due, by a snapshot of the packet counter.

`Driver` is that run on its own: the session, the clock and what has happened. A tick is one act,
its 704 included; the end of the dial, which starts the idle clock anew, is another, and packets may
arrive before it. `exec_tick` ties a tick to the moves of the monitor in the manager.

The failure count is a `u32`. It keeps growing while ticks ask for a teardown that does not come,
and after `2 ^ 32` of them it is zero again and the driver re-invites; the bound on the number of
ticks in `driver_discipline` is there for this and cannot be larger.
-/

set_option autoImplicit false
set_option relaxedAutoImplicit false

namespace DoorAccess.Video.Manager

open Codec Transition

/-! ### The driver -/

/-- What a call of `tick_reinvite` has come to. -/
inductive Outcome
  | rested
  | teardown
  | reinvited
  deriving DecidableEq, Repr

/-- The end of `tick_reinvite`: `current` says whether its guard finds the session in the slot. -/
def guardWhole (sess : Session) (rs : ReinviteState) (now : ℕ) (current : Bool) :
    ReinviteState × Outcome :=
  if current then
    ({ rs with
      lastReinviteAt := some now
      packetsAtReinvite := sess.rtpPackets }, .reinvited)
  else (rs, .rested)

/-- `tick_reinvite`. -/
def tickWhole (cfg : Config) (sess : Session) (rs : ReinviteState) (now : ℕ) (current : Bool) :
    ReinviteState × Outcome :=
  match tickReinvite cfg sess rs now with
  | .rest rs => (rs, .rested)
  | .giveUp rs => (rs, .teardown)
  | .signal rs => guardWhole sess rs now current

inductive Happening
  | packet (time : ℕ)
  | ticked (now : ℕ) (outcome : Outcome)
  | dialed (time : ℕ)
  deriving DecidableEq, Repr

structure Driver where
  sess : Session
  clock : ℕ
  /-- `start_preview` has not returned yet. -/
  dialing : Bool
  /-- History. -/
  log : List Happening

inductive Act
  | packet (time : ℕ)
  /-- Whatever the receiver and the consumers do to the buffer. -/
  | buffer (fb : FrameBuffer)
  | tick (now : ℕ) (current : Bool)
  | dialed (time : ℕ)

namespace Driver

def new (sess : Session) (now : ℕ) : Driver := ⟨sess, now, false, []⟩

def failures (d : Driver) : UInt32 := d.sess.monitor.reinvite.consecutiveFailures

/-- The session with another re-invite state. -/
def setReinvite (sess : Session) (rs : ReinviteState) : Session :=
  { sess with monitor := { sess.monitor with reinvite := rs } }

/-- One act, at a time that is not before the last one. Ticks find at least one consumer. -/
def step (cfg : Config) (d : Driver) : Act → Option Driver
  | .packet time =>
    if d.clock ≤ time then
      some { d with
        sess := { d.sess with lastRtpAt := time, rtpPackets := d.sess.rtpPackets + 1 }
        clock := time
        log := d.log ++ [.packet time] }
    else none
  | .buffer fb => some { d with sess := { d.sess with frameBuf := fb } }
  | .tick now current =>
    if d.clock ≤ now ∧ d.dialing = false ∧ d.sess.frameBuf.consumerCount ≠ 0 then
      let (rs, outcome) := tickWhole cfg d.sess d.sess.monitor.reinvite now current
      some { d with
        sess := setReinvite d.sess rs
        clock := now
        dialing := outcome = .reinvited
        log := d.log ++ [.ticked now outcome] }
    else none
  | .dialed time =>
    if d.clock ≤ time ∧ d.dialing = true then
      some { d with
        sess := { d.sess with lastRtpAt := time }
        clock := time
        dialing := false
        log := d.log ++ [.dialed time] }
    else none

end Driver

/-- The times of the re-invites. -/
def reinvites (log : List Happening) : List ℕ :=
  log.filterMap fun
    | .ticked now .reinvited => some now
    | _ => none

/-- The number of packets among some acts. -/
def packetCount (acts : List Act) : ℕ :=
  acts.countP fun
    | .packet _ => true
    | _ => false

/-- The number of ticks among some acts. -/
def tickCount (acts : List Act) : ℕ :=
  acts.countP fun
    | .tick _ _ => true
    | _ => false

section Driver

variable {cfg : Config} {sess : Session} {now : ℕ} {current : Bool} {d d' : Driver}

theorem reinvites_append (log more : List Happening) :
    reinvites (log ++ more) = reinvites log ++ reinvites more :=
  List.filterMap_append

/-! ### One tick -/

/-- Both gates let a tick through, and the settlement of the last re-invite, if there was one,
leaves this failure count. -/
structure Settles (cfg : Config) (sess : Session) (rs : ReinviteState) (now : ℕ)
    (failures : UInt32) : Prop where
  idle : cfg.reinviteIdleValue < now - sess.lastRtpAt
  interval : ∀ last, rs.lastReinviteAt = some last → cfg.reinviteMinIntervalValue ≤ now - last
  first : rs.lastReinviteAt = none → failures = rs.consecutiveFailures
  recovered : ∀ last, rs.lastReinviteAt = some last → sess.rtpPackets ≠ rs.packetsAtReinvite →
    failures = 0
  failed : ∀ last, rs.lastReinviteAt = some last → sess.rtpPackets = rs.packetsAtReinvite →
    failures = rs.consecutiveFailures + 1 ∧ failures < cfg.reinviteFailThresholdValue

/-- What a tick with a consumer can do: rest; settle the last re-invite and give up; or go on, which
is to re-invite if the guard lets it. -/
inductive TickMove (cfg : Config) (sess : Session) (rs : ReinviteState) (now : ℕ) :
    Bool → ReinviteState → Outcome → Prop
  | idle (current : Bool) (h : now - sess.lastRtpAt ≤ cfg.reinviteIdleValue ∨
      ∃ last, rs.lastReinviteAt = some last ∧ now - last < cfg.reinviteMinIntervalValue) :
      TickMove cfg sess rs now current rs .rested
  | gaveUp (current : Bool) (last : ℕ) (hlast : rs.lastReinviteAt = some last)
      (hpackets : sess.rtpPackets = rs.packetsAtReinvite)
      (hcount : cfg.reinviteFailThresholdValue ≤ rs.consecutiveFailures + 1) :
      TickMove cfg sess rs now current
        { rs with consecutiveFailures := rs.consecutiveFailures + 1 } .teardown
  | guarded (failures : UInt32) (h : Settles cfg sess rs now failures) :
      TickMove cfg sess rs now false { rs with consecutiveFailures := failures } .rested
  | reinvited (failures : UInt32) (h : Settles cfg sess rs now failures) :
      TickMove cfg sess rs now true ⟨some now, sess.rtpPackets, failures⟩ .reinvited

/-- A decision to signal becomes a re-invite by the guard. -/
theorem Settles.move {rs : ReinviteState} {failures : UInt32}
    (h : Settles cfg sess rs now failures) (current : Bool) :
    TickMove cfg sess rs now current
      (guardWhole sess { rs with consecutiveFailures := failures } now current).1
      (guardWhole sess { rs with consecutiveFailures := failures } now current).2 := by
  cases current with
  | true => exact .reinvited failures h
  | false => exact .guarded failures h

theorem tickWhole_move (hconsumer : sess.frameBuf.consumerCount ≠ 0) (rs : ReinviteState) :
    TickMove cfg sess rs now current (tickWhole cfg sess rs now current).1
      (tickWhole cfg sess rs now current).2 := by
  obtain ⟨lastAt, packets, count⟩ := rs
  unfold tickWhole tickReinvite
  rw [if_neg hconsumer]
  by_cases hidle : now - sess.lastRtpAt ≤ cfg.reinviteIdleValue
  · rw [if_pos hidle]
    exact .idle current (Or.inl hidle)
  rw [if_neg hidle]
  have hidle' := Nat.lt_of_not_le hidle
  cases lastAt with
  | none =>
    have hsettles : Settles cfg sess ⟨none, packets, count⟩ now count :=
      ⟨hidle', by simp, fun _ ↦ rfl, by simp, by simp⟩
    exact hsettles.move current
  | some last =>
    simp only
    by_cases hsoon : now - last < cfg.reinviteMinIntervalValue
    · rw [if_pos hsoon]
      exact .idle current (Or.inr ⟨last, rfl, hsoon⟩)
    rw [if_neg hsoon]
    have hsoon' : ∀ last', some last = some last' → cfg.reinviteMinIntervalValue ≤ now - last' :=
      fun last' hlast ↦ Option.some.inj hlast ▸ Nat.le_of_not_lt hsoon
    by_cases hpackets : sess.rtpPackets ≠ packets
    · rw [if_pos hpackets]
      have hsettles : Settles cfg sess ⟨some last, packets, count⟩ now 0 :=
        ⟨hidle', hsoon', by simp, fun _ _ _ ↦ rfl, fun _ _ hsame ↦ absurd hsame hpackets⟩
      exact hsettles.move current
    · rw [if_neg hpackets]
      have hpackets' := not_ne_iff.mp hpackets
      by_cases hcount : cfg.reinviteFailThresholdValue ≤ count + 1
      · rw [if_pos hcount]
        exact .gaveUp current last rfl hpackets' hcount
      · rw [if_neg hcount]
        have hsettles : Settles cfg sess ⟨some last, packets, count⟩ now (count + 1) :=
          ⟨hidle', hsoon', by simp, fun _ _ hmore ↦ absurd hmore hpackets,
            fun _ _ _ ↦ ⟨rfl, UInt32.not_le.mp hcount⟩⟩
        exact hsettles.move current

theorem orDefault_pos {value fallback : ℕ} (h : 0 < fallback) : 0 < orDefault value fallback := by
  unfold orDefault
  split_ifs with hzero
  · exact h
  · exact Nat.pos_of_ne_zero hzero

theorem reinviteMinIntervalValue_pos (cfg : Config) : 0 < cfg.reinviteMinIntervalValue :=
  orDefault_pos (by decide)

theorem reinviteFailThresholdValue_pos (cfg : Config) : 0 < cfg.reinviteFailThresholdValue := by
  unfold Config.reinviteFailThresholdValue
  split_ifs with hzero
  · decide
  · exact UInt32.pos_iff_ne_zero.mpr hzero

/-! ### One act -/

/-- What a tick does to the driver. -/
theorem step_tick (h : d.step cfg (.tick now current) = some d') :
    ∃ rs outcome, TickMove cfg d.sess d.sess.monitor.reinvite now current rs outcome ∧
      d' = { d with
        sess := Driver.setReinvite d.sess rs
        clock := now
        dialing := outcome = .reinvited
        log := d.log ++ [.ticked now outcome] } := by
  simp only [Driver.step] at h
  split_ifs at h with hready
  obtain ⟨-, -, hconsumer⟩ := hready
  exact ⟨_, _, tickWhole_move hconsumer _, (Option.some.inj h).symm⟩

/-- What the other acts leave as it is. -/
structure Apart (d d' : Driver) (events : List Happening) (packets : UInt32) : Prop where
  reinvite : d'.sess.monitor.reinvite = d.sess.monitor.reinvite
  packets : d'.sess.rtpPackets = d.sess.rtpPackets + packets
  log : d'.log = d.log ++ events
  quiet : reinvites events = []

/-- An act is a tick, or it leaves the re-invite state alone. -/
theorem step_cases {act : Act} (h : d.step cfg act = some d') :
    (∃ now current, act = .tick now current) ∨
      ∃ events, Apart d d' events (if packetCount [act] = 0 then 0 else 1) ∧
        tickCount [act] = 0 ∧ ∀ t, .ticked t .teardown ∉ events := by
  cases act with
  | packet time =>
    simp only [Driver.step] at h
    split_ifs at h
    obtain rfl := Option.some.inj h
    exact Or.inr ⟨[.packet time], ⟨rfl, rfl, rfl, rfl⟩, rfl, by simp⟩
  | buffer fb =>
    obtain rfl := Option.some.inj h
    refine Or.inr ⟨[], ⟨rfl, ?_, (List.append_nil _).symm, rfl⟩, rfl, by simp⟩
    exact (UInt32.add_zero _).symm
  | tick now current => exact Or.inl ⟨now, current, rfl⟩
  | dialed time =>
    simp only [Driver.step] at h
    split_ifs at h
    obtain rfl := Option.some.inj h
    refine Or.inr ⟨[.dialed time], ⟨rfl, ?_, rfl, rfl⟩, rfl, by simp⟩
    exact (UInt32.add_zero _).symm

/-! ### The distance of two re-invites -/

structure DriverInv (cfg : Config) (d : Driver) : Prop where
  last : d.sess.monitor.reinvite.lastReinviteAt = (reinvites d.log).getLast?
  spaced : (reinvites d.log).IsChain fun a b ↦ a + cfg.reinviteMinIntervalValue ≤ b
  fresh : d.sess.monitor.reinvite.lastReinviteAt = none → d.failures = 0

/-- Something happens that is no re-invite. -/
theorem DriverInv.apart (h : DriverInv cfg d)
    (hlast : d'.sess.monitor.reinvite.lastReinviteAt = d.sess.monitor.reinvite.lastReinviteAt)
    (hlog : reinvites d'.log = reinvites d.log)
    (hfresh : d.sess.monitor.reinvite.lastReinviteAt = none → d'.failures = d.failures) :
    DriverInv cfg d' := by
  refine ⟨?_, ?_, ?_⟩
  · rw [hlast, hlog]
    exact h.last
  · rw [hlog]
    exact h.spaced
  · intro hnone
    rw [hlast] at hnone
    rw [hfresh hnone]
    exact h.fresh hnone

theorem reinvites_concat_other (log : List Happening) {outcome : Outcome}
    (h : outcome ≠ .reinvited) : reinvites (log ++ [.ticked now outcome]) = reinvites log := by
  rw [reinvites_append]
  cases outcome with
  | rested | teardown => exact List.append_nil _
  | reinvited => exact absurd rfl h

theorem reinvites_concat (log : List Happening) :
    reinvites (log ++ [.ticked now .reinvited]) = reinvites log ++ [now] :=
  reinvites_append log _

theorem DriverInv.step {act : Act} (h : DriverInv cfg d) (hstep : d.step cfg act = some d') :
    DriverInv cfg d' := by
  rcases step_cases hstep with ⟨now, current, rfl⟩ | ⟨events, hapart, -⟩
  · obtain ⟨rs, outcome, hmove, rfl⟩ := step_tick hstep
    cases hmove with
    | idle => exact h.apart rfl (reinvites_concat_other _ (by simp)) fun _ ↦ rfl
    | gaveUp _ last hlast =>
      refine h.apart rfl (reinvites_concat_other _ (by simp)) ?_
      intro hnone
      rw [hlast] at hnone
      exact absurd hnone (by simp)
    | guarded failures hsettles =>
      exact h.apart rfl (reinvites_concat_other _ (by simp)) hsettles.first
    | reinvited failures hsettles =>
      refine ⟨?_, ?_, ?_⟩
      · rw [reinvites_concat, List.getLast?_concat]
        rfl
      · rw [reinvites_concat]
        refine List.isChain_append.mpr ⟨h.spaced, List.IsChain.singleton now, ?_⟩
        intro last hlast first hfirst
        rw [List.head?_cons, Option.mem_some_iff] at hfirst
        rw [← h.last] at hlast
        have hpos := reinviteMinIntervalValue_pos cfg
        have hinterval := hsettles.interval last hlast
        omega
      · intro hnone
        exact absurd hnone (by simp [Driver.setReinvite])
  · refine h.apart (by rw [hapart.reinvite]) ?_ fun _ ↦ ?_
    · rw [hapart.log, reinvites_append, hapart.quiet, List.append_nil]
    · unfold Driver.failures
      rw [hapart.reinvite]

/-! ### A re-invite that nothing follows -/

/-- A re-invite is made while the count is below the threshold. -/
theorem Settles.lt {failures : UInt32} (h : DriverInv cfg d)
    (hsettles : Settles cfg d.sess d.sess.monitor.reinvite now failures) :
    failures < cfg.reinviteFailThresholdValue := by
  have hpos := reinviteFailThresholdValue_pos cfg
  cases hlast : d.sess.monitor.reinvite.lastReinviteAt with
  | none =>
    have hzero : d.sess.monitor.reinvite.consecutiveFailures = 0 := h.fresh hlast
    rw [hsettles.first hlast, hzero]
    exact hpos
  | some last =>
    by_cases hpackets : d.sess.rtpPackets = d.sess.monitor.reinvite.packetsAtReinvite
    · exact (hsettles.failed last hlast hpackets).2
    · rw [hsettles.recovered last hlast hpackets]
      exact hpos

/-- No re-invite behind a request for a teardown. -/
def Final (events : List Happening) : Prop :=
  ∀ first t second, events = first ++ .ticked t .teardown :: second → reinvites second = []

/-- Where the driver is, after `events` without a packet since the re-invite that left the count
`count`: `ticks` of them were ticks. -/
structure Hushed (cfg : Config) (count ticks : ℕ) (events : List Happening) (d : Driver) :
    Prop where
  snapshot : d.sess.rtpPackets = d.sess.monitor.reinvite.packetsAtReinvite
  after : ∃ last, d.sess.monitor.reinvite.lastReinviteAt = some last
  grows : d.failures.toNat ≤ count + ticks
  counted : count + (reinvites events).length ≤ d.failures.toNat
  bounded : count + (reinvites events).length < cfg.reinviteFailThresholdValue.toNat
  asked : ∀ t, .ticked t .teardown ∈ events →
    cfg.reinviteFailThresholdValue.toNat ≤ d.failures.toNat
  final : Final events

theorem Final.append {events more : List Happening} (h : Final events)
    (hmore : reinvites more = []) : Final (events ++ more) := by
  intro first t second hsplit
  rcases List.append_eq_append_iff.mp hsplit with ⟨middle, -, hmiddle⟩ | ⟨middle, hevents, hmiddle⟩
  · rw [hmiddle, List.append_cons, reinvites_append] at hmore
    exact (List.append_eq_nil_iff.mp hmore).2
  · cases middle with
    | nil =>
      rw [List.nil_append] at hmiddle
      rw [← hmiddle, ← List.singleton_append, reinvites_append] at hmore
      exact (List.append_eq_nil_iff.mp hmore).2
    | cons e rest =>
      obtain ⟨rfl, hsecond⟩ := List.cons.inj hmiddle
      rw [hsecond, List.append_eq, reinvites_append, h first t rest hevents, hmore]
      rfl

/-- A re-invite comes to events in which no teardown was asked for. -/
theorem final_of_unasked {events : List Happening} (h : ∀ t, .ticked t .teardown ∉ events) :
    Final (events ++ [.ticked now .reinvited]) := by
  intro first t second hsplit
  have hmem : .ticked t .teardown ∈ events ++ [.ticked now .reinvited] := by
    rw [hsplit]
    exact List.mem_append_right _ List.mem_cons_self
  rcases List.mem_append.mp hmem with hevents | hlast
  · exact absurd hevents (h t)
  · exact absurd (List.mem_singleton.mp hlast) (by simp)

theorem toNat_succ {x : UInt32} (h : x.toNat + 1 < 2 ^ 32) : (x + 1).toNat = x.toNat + 1 := by
  rw [UInt32.toNat_add]
  exact Nat.mod_eq_of_lt h

/-- Something happens that is neither a re-invite nor a packet. -/
theorem Hushed.apart {count ticks ticks' : ℕ} {events more : List Happening}
    (h : Hushed cfg count ticks events d)
    (hpackets : d'.sess.rtpPackets = d.sess.rtpPackets)
    (hsnapshot : d'.sess.monitor.reinvite.packetsAtReinvite =
      d.sess.monitor.reinvite.packetsAtReinvite)
    (hafter : d'.sess.monitor.reinvite.lastReinviteAt = d.sess.monitor.reinvite.lastReinviteAt)
    (hgrows : d'.failures.toNat ≤ count + ticks')
    (hmono : d.failures.toNat ≤ d'.failures.toNat) (hmore : reinvites more = [])
    (hasked : ∀ t, .ticked t .teardown ∈ more →
      cfg.reinviteFailThresholdValue.toNat ≤ d'.failures.toNat) :
    Hushed cfg count ticks' (events ++ more) d' := by
  have hsame : reinvites (events ++ more) = reinvites events := by
    rw [reinvites_append, hmore, List.append_nil]
  refine ⟨?_, ?_, hgrows, ?_, ?_, ?_, h.final.append hmore⟩
  · rw [hpackets, hsnapshot]
    exact h.snapshot
  · rw [hafter]
    exact h.after
  · rw [hsame]
    exact h.counted.trans hmono
  · rw [hsame]
    exact h.bounded
  · intro t ht
    rcases List.mem_append.mp ht with hold | hnew
    · exact (h.asked t hold).trans hmono
    · exact hasked t hnew

/-- A tick while no packet has come since the last re-invite. -/
theorem Hushed.tick {count ticks : ℕ} {events : List Happening}
    (h : Hushed cfg count ticks events d) (hticks : count + ticks + 1 < 2 ^ 32)
    (hstep : d.step cfg (.tick now current) = some d') :
    ∃ e, d'.log = d.log ++ [e] ∧ Hushed cfg count (ticks + 1) (events ++ [e]) d' := by
  obtain ⟨rs, outcome, hmove, rfl⟩ := step_tick hstep
  obtain ⟨last, hlast⟩ := h.after
  have hgrows := h.grows
  have hcounted := h.counted
  have hsucc : (d.failures + 1).toNat = d.failures.toNat + 1 := toNat_succ (by omega)
  -- The last re-invite is settled as failed, since the counter stands at its snapshot.
  have hfailed : ∀ failures, Settles cfg d.sess d.sess.monitor.reinvite now failures →
      failures.toNat = d.failures.toNat + 1 ∧
        failures.toNat < cfg.reinviteFailThresholdValue.toNat := by
    intro failures hsettles
    obtain ⟨heq, hlt⟩ := hsettles.failed last hlast h.snapshot
    exact ⟨heq ▸ hsucc, UInt32.lt_iff_toNat_lt.mp hlt⟩
  refine ⟨_, rfl, ?_⟩
  cases hmove with
  | idle =>
    refine h.apart rfl rfl rfl ?_ (Nat.le_refl _) rfl (by simp)
    exact hgrows.trans (Nat.le_succ _)
  | gaveUp _ _ _ _ hcount =>
    refine h.apart rfl rfl rfl ?_ ?_ rfl fun t _ ↦ ?_
    · change (d.failures + 1).toNat ≤ count + (ticks + 1)
      omega
    · change d.failures.toNat ≤ (d.failures + 1).toNat
      omega
    · exact UInt32.le_iff_toNat_le.mp hcount
  | guarded failures hsettles =>
    obtain ⟨heq, -⟩ := hfailed failures hsettles
    refine h.apart rfl rfl rfl ?_ ?_ rfl (by simp)
    · change failures.toNat ≤ count + (ticks + 1)
      omega
    · change d.failures.toNat ≤ failures.toNat
      omega
  | reinvited failures hsettles =>
    obtain ⟨heq, hlt⟩ := hfailed failures hsettles
    have hunasked : ∀ t, .ticked t .teardown ∉ events := by
      intro t ht
      have hasked := h.asked t ht
      omega
    have hlength : (reinvites (events ++ [.ticked now .reinvited])).length =
        (reinvites events).length + 1 := by
      rw [reinvites_concat, List.length_append, List.length_singleton]
    refine ⟨rfl, ⟨now, rfl⟩, ?_, ?_, ?_, ?_, final_of_unasked hunasked⟩
    · change failures.toNat ≤ count + (ticks + 1)
      omega
    · rw [hlength]
      change _ ≤ failures.toNat
      omega
    · rw [hlength]
      omega
    · intro t ht
      rcases List.mem_append.mp ht with hold | hnew
      · exact absurd hold (hunasked t)
      · exact absurd (List.mem_singleton.mp hnew) (by simp)

theorem packetCount_append (acts more : List Act) :
    packetCount (acts ++ more) = packetCount acts + packetCount more :=
  List.countP_append

theorem packetCount_cons (act : Act) (acts : List Act) :
    packetCount (act :: acts) = packetCount [act] + packetCount acts :=
  packetCount_append [act] acts

theorem tickCount_cons (act : Act) (acts : List Act) :
    tickCount (act :: acts) = tickCount [act] + tickCount acts := by
  rw [← List.singleton_append, tickCount, List.countP_append]
  rfl

/-- A run without a packet. -/
theorem Hushed.run {count ticks : ℕ} {events : List Happening} {acts : List Act}
    (h : Hushed cfg count ticks events d) (hpackets : packetCount acts = 0)
    (hticks : count + ticks + tickCount acts < 2 ^ 32)
    (hrun : exec (Driver.step cfg) d acts = some d') :
    ∃ more, d'.log = d.log ++ more ∧
      Hushed cfg count (ticks + tickCount acts) (events ++ more) d' := by
  induction acts generalizing d ticks events with
  | nil =>
    rw [exec_nil, Option.some.injEq] at hrun
    subst hrun
    exact ⟨[], (List.append_nil _).symm, by rwa [List.append_nil]⟩
  | cons act acts ih =>
    obtain ⟨u, hstep, hrest⟩ := exec_cons_eq_some.mp hrun
    rw [packetCount_cons, Nat.add_eq_zero_iff] at hpackets
    rw [tickCount_cons] at hticks ⊢
    obtain ⟨here, hlog, hnext⟩ : ∃ here, u.log = d.log ++ here ∧
        Hushed cfg count (ticks + tickCount [act]) (events ++ here) u := by
      rcases step_cases hstep with ⟨now, current, rfl⟩ | ⟨events', hapart, htick, hunasked⟩
      · have hone : tickCount [Act.tick now current] = 1 := rfl
        rw [hone] at hticks
        obtain ⟨e, hlog, hhushed⟩ := h.tick (by omega) hstep
        exact ⟨[e], hlog, hhushed⟩
      · have hfailures : u.failures = d.failures := by
          unfold Driver.failures
          rw [hapart.reinvite]
        refine ⟨events', hapart.log, ?_⟩
        rw [htick]
        refine h.apart ?_ ?_ ?_ ?_ ?_ hapart.quiet fun t ht ↦ absurd ht (hunasked t)
        · rw [hapart.packets, if_pos hpackets.1, UInt32.add_zero]
        · rw [hapart.reinvite]
        · rw [hapart.reinvite]
        · rw [hfailures]
          exact h.grows
        · rw [hfailures]
    obtain ⟨more, hlog', hend⟩ := ih hnext hpackets.2 (by omega) hrest
    refine ⟨here ++ more, ?_, ?_⟩
    · rw [hlog', hlog, List.append_assoc]
    · rw [← List.append_assoc, ← Nat.add_assoc]
      exact hend

/-! ### A re-invite that a packet follows -/

theorem step_reinvites {act : Act} (hstep : d.step cfg act = some d') :
    reinvites d.log <+: reinvites d'.log := by
  rcases step_cases hstep with ⟨now, current, rfl⟩ | ⟨events, hapart, -⟩
  · obtain ⟨rs, outcome, -, rfl⟩ := step_tick hstep
    exact ⟨_, (reinvites_append _ _).symm⟩
  · rw [hapart.log]
    exact ⟨_, (reinvites_append _ _).symm⟩

theorem exec_reinvites {acts : List Act} (hrun : exec (Driver.step cfg) d acts = some d') :
    reinvites d.log <+: reinvites d'.log :=
  exec_relation (fun d d' : Driver ↦ reinvites d.log <+: reinvites d'.log)
    (fun _ ↦ List.prefix_rfl) List.IsPrefix.trans step_reinvites hrun

/-- An act that re-invites nobody leaves the snapshot and counts its packet. -/
theorem step_snapshot {act : Act} (hstep : d.step cfg act = some d')
    (hnone : reinvites d'.log = reinvites d.log) :
    d'.sess.monitor.reinvite.lastReinviteAt = d.sess.monitor.reinvite.lastReinviteAt ∧
      d'.sess.monitor.reinvite.packetsAtReinvite = d.sess.monitor.reinvite.packetsAtReinvite ∧
      d'.sess.rtpPackets = d.sess.rtpPackets + UInt32.ofNat (packetCount [act]) := by
  rcases step_cases hstep with ⟨now, current, rfl⟩ | ⟨events, hapart, -⟩
  · obtain ⟨rs, outcome, hmove, rfl⟩ := step_tick hstep
    cases hmove with
    | idle | gaveUp | guarded => exact ⟨rfl, rfl, (UInt32.add_zero _).symm⟩
    | reinvited failures hsettles =>
      have hlength := congrArg List.length hnone
      rw [reinvites_concat, List.length_append, List.length_singleton] at hlength
      omega
  · refine ⟨by rw [hapart.reinvite], by rw [hapart.reinvite], ?_⟩
    rw [hapart.packets]
    cases act with
    | packet | buffer | tick | dialed => rfl

/-- A run without a re-invite leaves the snapshot and counts its packets. -/
theorem exec_snapshot {acts : List Act} (hrun : exec (Driver.step cfg) d acts = some d')
    (hnone : reinvites d'.log = reinvites d.log) :
    d'.sess.monitor.reinvite.lastReinviteAt = d.sess.monitor.reinvite.lastReinviteAt ∧
      d'.sess.monitor.reinvite.packetsAtReinvite = d.sess.monitor.reinvite.packetsAtReinvite ∧
      d'.sess.rtpPackets = d.sess.rtpPackets + UInt32.ofNat (packetCount acts) := by
  induction acts generalizing d with
  | nil =>
    rw [exec_nil, Option.some.injEq] at hrun
    subst hrun
    exact ⟨rfl, rfl, (UInt32.add_zero _).symm⟩
  | cons act acts ih =>
    obtain ⟨u, hstep, hrest⟩ := exec_cons_eq_some.mp hrun
    have hfirst : reinvites u.log = reinvites d.log := by
      have hlater := exec_reinvites hrest
      rw [hnone] at hlater
      exact hlater.eq_of_length_le (step_reinvites hstep).length_le
    obtain ⟨hlast, hsnapshot, hpackets⟩ := step_snapshot hstep hfirst
    obtain ⟨hlast', hsnapshot', hpackets'⟩ := ih hrest (hnone.trans hfirst.symm)
    refine ⟨hlast'.trans hlast, hsnapshot'.trans hsnapshot, ?_⟩
    rw [hpackets', hpackets, UInt32.add_assoc, ← UInt32.ofNat_add, ← packetCount_cons]

theorem add_ofNat_ne {x : UInt32} {n : ℕ} (hpos : 0 < n) (hlt : n < 2 ^ 32) :
    x + UInt32.ofNat n ≠ x := by
  intro heq
  have hvalue := congrArg UInt32.toNat heq
  rw [UInt32.toNat_add, UInt32.toNat_ofNat_of_lt' hlt] at hvalue
  have hx := x.toNat_lt
  omega

/-! ### The whole of it -/

theorem driverInv_new (cfg : Config) (s : State) (outdoor : Outdoor) (id : Str) (ssrc : UInt32) :
    DriverInv cfg (.new (newSession cfg s outdoor id ssrc) s.now) :=
  ⟨rfl, List.IsChain.nil, fun _ ↦ rfl⟩

/-- A tick that has re-invited, by its log. -/
theorem reinvited_of_log (hstep : d.step cfg (.tick now current) = some d')
    (hlog : d'.log = d.log ++ [.ticked now .reinvited]) :
    ∃ failures, Settles cfg d.sess d.sess.monitor.reinvite now failures ∧
      d'.sess.monitor.reinvite = ⟨some now, d.sess.rtpPackets, failures⟩ ∧
      d'.sess.rtpPackets = d.sess.rtpPackets := by
  obtain ⟨rs, outcome, hmove, rfl⟩ := step_tick hstep
  have houtcome : outcome = .reinvited := by
    have hlast := List.append_cancel_left hlog
    simpa using hlast
  subst houtcome
  cases hmove with
  | reinvited failures hsettles => exact ⟨failures, hsettles, rfl, rfl⟩

/-- A tick that both gates and the guard let through does not rest. -/
theorem open_tick (hinv : DriverInv cfg d) (hstep : d.step cfg (.tick now true) = some d')
    (hidle : cfg.reinviteIdleValue < now - d.sess.lastRtpAt)
    (hinterval : ∀ last ∈ (reinvites d.log).getLast?,
      cfg.reinviteMinIntervalValue ≤ now - last) :
    ∃ outcome, outcome ≠ .rested ∧ d'.log = d.log ++ [.ticked now outcome] := by
  obtain ⟨rs, outcome, hmove, rfl⟩ := step_tick hstep
  refine ⟨outcome, ?_, rfl⟩
  cases hmove with
  | idle _ hgate =>
    rcases hgate with hquiet | ⟨last, hlast, hsoon⟩
    · omega
    · rw [hinv.last] at hlast
      have hlate := hinterval last hlast
      omega
  | gaveUp | reinvited => simp

/-- The ticks of a session, each with a consumer, under a clock that does not go back, and any
packets. Two re-invites are at least the interval apart, and a tick that both gates and the guard
let through re-invites or asks for a teardown. A re-invite is made only when the stream has been
idle for longer than the idle time. If no packet follows one, then over the next
`2 ^ 32 - threshold` ticks there are, with it and with the failures counted before it, at most as
many as the threshold, and none behind a request for a teardown. If a packet comes before the next
re-invite, that one starts with no failure counted. -/
theorem driver_discipline (s : State) (outdoor : Outdoor) (id : Str) (ssrc : UInt32)
    (hreach : Reachable (Driver.step cfg) (.new (newSession cfg s outdoor id ssrc) s.now) d) :
    (reinvites d.log).IsChain (fun a b ↦ a + cfg.reinviteMinIntervalValue ≤ b) ∧
    (∀ now d₁, d.step cfg (.tick now true) = some d₁ →
      cfg.reinviteIdleValue < now - d.sess.lastRtpAt →
      (∀ last ∈ (reinvites d.log).getLast?, cfg.reinviteMinIntervalValue ≤ now - last) →
      ∃ outcome, outcome ≠ .rested ∧ d₁.log = d.log ++ [.ticked now outcome]) ∧
    ∀ now current d₁, d.step cfg (.tick now current) = some d₁ →
      d₁.log = d.log ++ [.ticked now .reinvited] →
      cfg.reinviteIdleValue < now - d.sess.lastRtpAt ∧
      (∀ acts d₂, exec (Driver.step cfg) d₁ acts = some d₂ → packetCount acts = 0 →
        tickCount acts + cfg.reinviteFailThresholdValue.toNat ≤ 2 ^ 32 →
        ∃ events, d₂.log = d₁.log ++ events ∧
          d₁.failures.toNat + (reinvites (.ticked now .reinvited :: events)).length ≤
            cfg.reinviteFailThresholdValue.toNat ∧
          Final events) ∧
      ∀ acts d₂ now' current' d₃, exec (Driver.step cfg) d₁ acts = some d₂ →
        0 < packetCount acts → packetCount acts < 2 ^ 32 → reinvites d₂.log = reinvites d₁.log →
        d₂.step cfg (.tick now' current') = some d₃ →
        d₃.log = d₂.log ++ [.ticked now' .reinvited] → d₃.failures = 0 := by
  have hinv : DriverInv cfg d :=
    hreach.invariant (driverInv_new cfg s outdoor id ssrc) DriverInv.step
  refine ⟨hinv.spaced, ?_, ?_⟩
  · intro now d₁ hstep hidle hinterval
    exact open_tick hinv hstep hidle hinterval
  intro now current d₁ hstep hlog
  obtain ⟨failures, hsettles, hrs, hpackets⟩ := reinvited_of_log hstep hlog
  have hcount : d₁.failures = failures := by rw [Driver.failures, hrs]
  have hlt : failures.toNat < cfg.reinviteFailThresholdValue.toNat :=
    UInt32.lt_iff_toNat_lt.mp (hsettles.lt hinv)
  refine ⟨hsettles.idle, ?_, ?_⟩
  · intro acts d₂ hrun hnone hticks
    have hhushed : Hushed cfg failures.toNat 0 [] d₁ := by
      refine ⟨?_, ⟨now, by rw [hrs]⟩, ?_, ?_, hlt, ?_, ?_⟩
      · rw [hrs, hpackets]
      · rw [hcount]
        exact Nat.le_refl _
      · rw [hcount]
        exact Nat.le_refl _
      · intro t ht
        exact absurd ht List.not_mem_nil
      · intro first t second hsplit
        exact absurd hsplit (by simp)
    obtain ⟨events, hlog', hend⟩ := hhushed.run hnone (by omega) hrun
    refine ⟨events, hlog', ?_, hend.final⟩
    have hbounded := hend.bounded
    rw [List.nil_append] at hbounded
    rw [← List.singleton_append, reinvites_append, List.length_append, hcount]
    change failures.toNat + (1 + _) ≤ _
    omega
  · intro acts d₂ now' current' d₃ hrun hpos hfew hsame hstep' hlog'
    obtain ⟨hlast₂, hsnapshot₂, hpackets₂⟩ := exec_snapshot hrun hsame
    obtain ⟨failures', hsettles', hrs', -⟩ := reinvited_of_log hstep' hlog'
    rw [hrs] at hlast₂ hsnapshot₂
    have hmore : d₂.sess.rtpPackets ≠ d₂.sess.monitor.reinvite.packetsAtReinvite := by
      rw [hpackets₂, hsnapshot₂, hpackets]
      exact add_ofNat_ne hpos hfew
    rw [Driver.failures, hrs', hsettles'.recovered now hlast₂ hmore]

/-- A buffer with one consumer. -/
def watched : FrameBuffer := FrameBuffer.new.subscribe.1

/-- A session whose station does not stream any more: the driver before its first tick. -/
def deadDriver : Option Driver :=
  exec (Driver.step defaultConfig) (.new (newSession defaultConfig .init gate (ascii "a") 7) 0)
    [.buffer watched]

/-- Two more re-invites, then a tick that asks for a teardown. -/
def deadTicks : List Act :=
  [.dialed 2000, .tick 8000 true, .dialed 8000, .tick 14000 true, .dialed 14000, .tick 20000 true]

theorem driver_discipline_dead :
    ∃ d d₁ d₂, deadDriver = some d ∧ d.step defaultConfig (.tick 2000 true) = some d₁ ∧
      exec (Driver.step defaultConfig) d₁ deadTicks = some d₂ ∧
      reinvites d₂.log = [2000, 8000, 14000] ∧ .ticked 20000 .teardown ∈ d₂.log ∧
      ∃ events, d₂.log = d₁.log ++ events ∧
        (reinvites (.ticked 2000 .reinvited :: events)).length ≤ 3 ∧ Final events := by
  have hend : ((deadDriver.bind fun d ↦ (d.step defaultConfig (.tick 2000 true)).bind fun d₁ ↦
      exec (Driver.step defaultConfig) d₁ deadTicks).map Driver.log) =
      some [.ticked 2000 .reinvited, .dialed 2000, .ticked 8000 .reinvited, .dialed 8000,
        .ticked 14000 .reinvited, .dialed 14000, .ticked 20000 .teardown] := by
    decide
  have hstart : ((deadDriver.bind fun d ↦ d.step defaultConfig (.tick 2000 true)).map fun d₁ ↦
      (d₁.log, d₁.failures)) = some ([.ticked 2000 .reinvited], 0) := by
    decide
  obtain ⟨d₂, hrun, hlog₂⟩ := Option.map_eq_some_iff.mp hend
  obtain ⟨d, hd, hrun⟩ := Option.bind_eq_some_iff.mp hrun
  obtain ⟨d₁, hstep, hrun⟩ := Option.bind_eq_some_iff.mp hrun
  rw [hd, Option.bind_some, hstep, Option.map_some, Option.some.injEq, Prod.mk.injEq] at hstart
  obtain ⟨hlog₁, hcount⟩ := hstart
  have hlog : d.log = [] := by
    obtain rfl := Option.some.inj hd
    rfl
  refine ⟨d, d₁, d₂, hd, hstep, hrun, ?_, ?_, ?_⟩
  · rw [hlog₂]
    rfl
  · rw [hlog₂]
    simp
  · obtain ⟨-, -, hdiscipline⟩ := driver_discipline .init gate (ascii "a") 7 ⟨_, hd⟩
    obtain ⟨-, hquiet, -⟩ := hdiscipline 2000 true d₁ hstep (by rw [hlog₁, hlog]; rfl)
    obtain ⟨events, hevents, hbound, hfinal⟩ := hquiet deadTicks d₂ hrun rfl (by decide)
    rw [hcount] at hbound
    exact ⟨events, hevents, (Nat.le_add_left _ _).trans hbound, hfinal⟩

/-! ### Where the count comes round -/

/-- Ticks at one instant, with both gates open and no packet since the last re-invite. -/
structure Asking (cfg : Config) (now : ℕ) (count : UInt32) (d : Driver) : Prop where
  clock : d.clock = now
  dialing : d.dialing = false
  consumer : d.sess.frameBuf.consumerCount ≠ 0
  idle : ¬ now - d.sess.lastRtpAt ≤ cfg.reinviteIdleValue
  last : ∃ last, d.sess.monitor.reinvite =
      ⟨some last, d.sess.rtpPackets, count⟩ ∧ ¬ now - last < cfg.reinviteMinIntervalValue

theorem Asking.tick {count : UInt32} (h : Asking cfg now count d) {rs : ReinviteState}
    {outcome : Outcome}
    (htick : tickWhole cfg d.sess d.sess.monitor.reinvite now true = (rs, outcome)) :
    d.step cfg (.tick now true) = some
      { d with
        sess := Driver.setReinvite d.sess rs
        clock := now
        dialing := outcome = .reinvited
        log := d.log ++ [.ticked now outcome] } := by
  have hready : d.clock ≤ now ∧ d.dialing = false ∧ d.sess.frameBuf.consumerCount ≠ 0 :=
    ⟨Nat.le_of_eq h.clock, h.dialing, h.consumer⟩
  simp only [Driver.step]
  rw [if_pos hready, htick]

theorem Asking.step {count : UInt32} (h : Asking cfg now count d)
    (hcount : cfg.reinviteFailThresholdValue ≤ count + 1) :
    ∃ d', d.step cfg (.tick now true) = some d' ∧ d'.log = d.log ++ [.ticked now .teardown] ∧
      Asking cfg now (count + 1) d' := by
  obtain ⟨last, hrs, hlast⟩ := h.last
  have htick : tickWhole cfg d.sess d.sess.monitor.reinvite now true =
      (⟨some last, d.sess.rtpPackets, count + 1⟩, .teardown) := by
    simp only [tickWhole, tickReinvite, if_neg h.consumer, if_neg h.idle, hrs, if_neg hlast,
      ne_eq, not_true_eq_false, if_false, if_pos hcount]
  refine ⟨_, h.tick htick, rfl, ?_⟩
  exact ⟨rfl, rfl, h.consumer, h.idle, last, rfl, hlast⟩

theorem Asking.run {count : UInt32} (h : Asking cfg now count d) (n : ℕ)
    (hcount : cfg.reinviteFailThresholdValue.toNat ≤ count.toNat)
    (hn : count.toNat + n < 2 ^ 32) :
    ∃ d', exec (Driver.step cfg) d (List.replicate n (.tick now true)) = some d' ∧
      (∃ events, d'.log = d.log ++ events) ∧ Asking cfg now (count + UInt32.ofNat n) d' := by
  induction n generalizing d count with
  | zero =>
    refine ⟨d, rfl, ⟨[], (List.append_nil _).symm⟩, ?_⟩
    rwa [show UInt32.ofNat 0 = 0 from rfl, UInt32.add_zero]
  | succ n ih =>
    have hsucc : (count + 1).toNat = count.toNat + 1 := toNat_succ (by omega)
    obtain ⟨u, hstep, hlog, hnext⟩ := h.step (UInt32.le_iff_toNat_le.mpr (by omega))
    obtain ⟨d', hrun, ⟨events, hevents⟩, hend⟩ := ih hnext (by omega) (by omega)
    refine ⟨d', ?_, ⟨.ticked now .teardown :: events, ?_⟩, ?_⟩
    · rw [List.replicate_succ]
      exact exec_cons_eq_some.mpr ⟨u, hstep, hrun⟩
    · rw [hevents, hlog, List.append_assoc]
      rfl
    · rwa [Nat.add_comm n 1, UInt32.ofNat_add, ← UInt32.add_assoc]

/-- The count comes round to zero, and the driver re-invites. -/
theorem Asking.wraps {count : UInt32} (h : Asking cfg now count d) (hmax : count + 1 = 0) :
    ∃ d', d.step cfg (.tick now true) = some d' ∧
      d'.log = d.log ++ [.ticked now .reinvited] := by
  obtain ⟨last, hrs, hlast⟩ := h.last
  have hbelow : ¬ cfg.reinviteFailThresholdValue ≤ 0 :=
    UInt32.not_le.mpr (reinviteFailThresholdValue_pos cfg)
  have htick : tickWhole cfg d.sess d.sess.monitor.reinvite now true =
      (⟨some now, d.sess.rtpPackets, 0⟩, .reinvited) := by
    simp only [tickWhole, tickReinvite, if_neg h.consumer, if_neg h.idle, hrs, if_neg hlast,
      ne_eq, not_true_eq_false, if_false, hmax, if_neg hbelow, guardWhole, if_true]
  exact ⟨_, h.tick htick, rfl⟩

theorem packetCount_ticks (n now : ℕ) (current : Bool) :
    packetCount (List.replicate n (.tick now current)) = 0 := by
  rw [packetCount, List.countP_replicate]
  rfl

/-- No packet comes after the first re-invite, and the teardown that is asked for does not come: the
driver re-invites again. -/
theorem reinvite_after_round :
    ∃ d d₁ d₂ acts first second, deadDriver = some d ∧
      d.step defaultConfig (.tick 2000 true) = some d₁ ∧
      d₁.log = d.log ++ [.ticked 2000 .reinvited] ∧
      exec (Driver.step defaultConfig) d₁ acts = some d₂ ∧ packetCount acts = 0 ∧
      d₂.log = d₁.log ++ (first ++ .ticked 20000 .teardown :: second) ∧
      (reinvites (.ticked 2000 .reinvited :: first)).length = 3 ∧ reinvites second ≠ [] := by
  have hasked : ((deadDriver.bind fun d ↦ (d.step defaultConfig (.tick 2000 true)).bind fun d₁ ↦
      exec (Driver.step defaultConfig) d₁ deadTicks).map fun d ↦
        (d.clock, d.dialing, d.sess.frameBuf.consumerCount, d.sess.lastRtpAt, d.sess.rtpPackets,
          d.sess.monitor.reinvite, d.log)) =
      some (20000, false, 1, 14000, 0, ⟨some 14000, 0, 3⟩,
        [.ticked 2000 .reinvited, .dialed 2000, .ticked 8000 .reinvited, .dialed 8000,
          .ticked 14000 .reinvited, .dialed 14000, .ticked 20000 .teardown]) := by
    rfl
  have hstart : ((deadDriver.bind fun d ↦ d.step defaultConfig (.tick 2000 true)).map fun d₁ ↦
      d₁.log) = some [.ticked 2000 .reinvited] := by
    decide
  obtain ⟨e, hrun, hview⟩ := Option.map_eq_some_iff.mp hasked
  simp only [Prod.mk.injEq] at hview
  obtain ⟨hclock, hdialing, hconsumer, hidle, hpackets, hrs, hlog⟩ := hview
  obtain ⟨d, hd, hrun⟩ := Option.bind_eq_some_iff.mp hrun
  obtain ⟨d₁, hstep, hrun⟩ := Option.bind_eq_some_iff.mp hrun
  rw [hd, Option.bind_some, hstep, Option.map_some, Option.some.injEq] at hstart
  have hempty : d.log = [] := by
    obtain rfl := Option.some.inj hd
    rfl
  have hasking : Asking defaultConfig 20000 3 e := by
    refine ⟨hclock, hdialing, by rw [hconsumer]; decide, by rw [hidle]; decide, 14000, ?_, ?_⟩
    · rw [hrs, hpackets]
    · decide
  -- Every tick at this instant asks again, until the count has its largest value.
  obtain ⟨f, hmore, ⟨events, hevents⟩, hlast⟩ :=
    hasking.run (2 ^ 32 - 4) (by decide) (by rw [show (3 : UInt32).toNat = 3 from rfl]; omega)
  obtain ⟨d₂, hfinal, hlog₂⟩ := hlast.wraps (by rfl)
  refine ⟨d, d₁, d₂, deadTicks ++ (List.replicate (2 ^ 32 - 4) (.tick 20000 true) ++
    [.tick 20000 true]), [.dialed 2000, .ticked 8000 .reinvited, .dialed 8000,
      .ticked 14000 .reinvited, .dialed 14000], events ++ [.ticked 20000 .reinvited], hd, hstep,
    ?_, ?_, ?_, ?_, rfl, ?_⟩
  · rw [hstart, hempty]
    rfl
  · rw [exec_append, hrun, Option.bind_some, exec_append, hmore, Option.bind_some]
    exact exec_cons_eq_some.mpr ⟨d₂, hfinal, rfl⟩
  · rw [packetCount_append, packetCount_append, packetCount_ticks]
    rfl
  · rw [hlog₂, hevents, hlog, hstart]
    simp
  · rw [reinvites_concat]
    simp

end Driver

/-! ### The driver in the manager -/

section Refine

variable {cfg : Config} {s : State} {p c now : ℕ} {sess : Session}

/-- A tick of the monitor that does not end the session for its TTL. -/
theorem tickMonitor_live (cfg : Config) (hfired : sess.monitor.fired = false)
    (hlive : ¬ sess.ttlDeadline < now) :
    tickMonitor cfg sess now =
      let m := { sess.monitor with nextTick := now + cfg.monitorInterval, phase := .watching }
      match tickReinvite cfg sess sess.monitor.reinvite now with
      | .rest rs => { m with reinvite := rs }
      | .giveUp rs => { m with reinvite := rs, phase := .spawning .reinviteFailed }
      | .signal rs => { m with reinvite := rs, phase := .guarding now } := by
  have hnot : ¬ sess.monitor.fired = true := by
    rw [hfired]
    exact Bool.false_ne_true
  unfold tickMonitor
  dsimp only
  cases tickReinvite cfg sess sess.monitor.reinvite now with
  | rest rs | giveUp rs | signal rs => rw [if_neg hnot, if_neg hlive]

/-- A tick of the driver is a tick of the monitor in the manager and, where it decides to signal,
its guard right after it, or, where it gives up, the spawn of the clean-up and its registration: the
re-invite state, the packets and the idle clock of the session are those of the driver, the monitor
is about to send the 704 when the driver has re-invited, and the clean-up is called when it has
asked for a teardown. -/
theorem exec_tick (hsess : s.sessions p = some sess) (hphase : sess.monitor.phase = .ticking now)
    (hfired : sess.monitor.fired = false) (hlive : ¬ sess.ttlDeadline < now)
    (hidle : (s.calls c).phase = .idle) (hholder : s.holder = none) :
    ∃ labels t sess', exec (step cfg) s (.tick p :: labels) = some t ∧
      t.sessions p = some sess' ∧ sess'.lastRtpAt = sess.lastRtpAt ∧
      sess'.rtpPackets = sess.rtpPackets ∧
      (sess'.monitor.reinvite,
        if sess'.monitor.phase = .inviting then Outcome.reinvited
        else if (t.calls c).phase = .calling (.stopInternal p .reinviteFailed) then .teardown
        else .rested) =
      tickWhole cfg sess sess.monitor.reinvite now (s.current = some p) := by
  have hstep : step cfg s (.tick p) = some (tick cfg s p sess now) := by
    simp only [step, Label.mover, hsess, Option.bind_some, stepSession, hphase]
  have hnew : (tick cfg s p sess now).sessions p =
      some { sess with monitor := tickMonitor cfg sess now } := Function.update_self _ _ _
  have hmonitor := tickMonitor_live cfg hfired hlive
  unfold tickWhole
  cases hdecides : tickReinvite cfg sess sess.monitor.reinvite now with
  | rest rs =>
    rw [hdecides] at hmonitor
    refine ⟨[], _, _, exec_cons_eq_some.mpr ⟨_, hstep, rfl⟩, hnew, rfl, rfl, ?_⟩
    simp [hmonitor, tick, hidle]
  | giveUp rs =>
    rw [hdecides] at hmonitor
    have hspawning : (tickMonitor cfg sess now).phase = .spawning .reinviteFailed := by
      rw [hmonitor]
    have hspawn := step_spawnCleanup cfg hnew hspawning hidle
    have hregister := step_registerCleanup cfg (s := spawnCleanup (tick cfg s p sess now) p
      { sess with monitor := tickMonitor cfg sess now } c .reinviteFailed)
      (Function.update_self _ _ _) rfl
    refine ⟨[.spawnCleanup p c, .registerCleanup p], _, _, exec_cons_eq_some.mpr ⟨_, hstep,
      exec_cons_eq_some.mpr ⟨_, hspawn, exec_cons_eq_some.mpr ⟨_, hregister, rfl⟩⟩⟩,
      Function.update_self _ _ _, rfl, rfl, ?_⟩
    simp [hmonitor, spawnCleanup, registerCleanup]
  | signal rs =>
    rw [hdecides] at hmonitor
    have hguarding : (tickMonitor cfg sess now).phase = .guarding now := by
      rw [hmonitor]
    have hguard : step cfg (tick cfg s p sess now) (.guardReinvite p) = some
        ((tick cfg s p sess now).setSession p (guardReinvite (tick cfg s p sess now) p
          { sess with monitor := tickMonitor cfg sess now } now)) := by
      have hfree : (tick cfg s p sess now).holder = none := hholder
      simp only [step, Label.mover, hnew, Option.bind_some, stepSession, hguarding, if_pos hfree]
    refine ⟨[.guardReinvite p], _, _, exec_cons_eq_some.mpr ⟨_, hstep, exec_cons_eq_some.mpr
      ⟨_, hguard, rfl⟩⟩, Function.update_self _ _ _, ?_⟩
    by_cases hcurrent : s.current = some p
    · simp [guardReinvite, guardWhole, tick, hmonitor, hcurrent]
    · simp [guardReinvite, guardWhole, tick, hmonitor, hcurrent, hidle]

end Refine

end DoorAccess.Video.Manager
