import DoorAccess.Config.Consumers
import DoorAccess.Lib.ByteStream
import DoorAccess.Listen.DedupKey
import DoorAccess.Listen.Packet

/-!
# The doorbell

A ring on the wire becomes a push of `event=ring` here: the callback that `build_listen18022`
installs on the listener of port 18022 reports who rang (`from`) and where (`to`). `doorbell_rings`
follows a ring from the bytes of its packet to the fields of the push. The two URIs are those of the
addresses in the packet, the push names the URI of the configuration exactly when the self-unlock
consumer is handed the same frame, no packet is reported that was not captured, and of the copies of
a packet on several slaves one is reported.

The log of the frames is left out, and what becomes of a push is the matter of `HaPush`.
-/

set_option autoImplicit false
set_option relaxedAutoImplicit false

namespace DoorAccess.Daemon.Doorbell

open ByteStream Codec Config Listen Listen18022 SelfUnlock

/-! ### The callback -/

/-- The name and the address of the indoor unit, as `build_listen18022` takes them over. -/
def indoorOf (cfg : Config) : Str × Option Octets :=
  match parseUri (sipStr cfg.sip) with
  | .ok (name, ip, _) => (name, parseIpv4 ip)
  | .error _ => ([], none)

/-- The URI for another indoor unit than the configured one. -/
def rebuilt (name : Str) (dstIp : Octets) : Str :=
  name ++ 64 :: (ipv4Str dstIp ++ ascii ":18022")

/-- `room_uri`. -/
def roomUri (cfg : Config) (dstIp : Octets) : Str :=
  match indoorOf cfg with
  | (name, some ip) => if ip ≠ dstIp ∧ name ≠ [] then rebuilt name dstIp else sipStr cfg.sip
  | (_, none) => sipStr cfg.sip

/-- The fields of a push of `event=ring`. -/
def ringFields (outdoorUri roomUri : Str) : List (Str × Str) :=
  [(ascii "from", outdoorUri), (ascii "to", roomUri), (ascii "result", ascii "0")]

/-- The callback of `build_listen18022`: the fields of the push, if there is one. -/
def onDetect (cfg : Config) (d : DetectedFrame) : Option (List (Str × Str)) :=
  if d.req ≠ 704 then none
  else
    match parseStationsToIpMap cfg (ipv4Str d.srcIp) with
    | none => none
    | some outdoorUri => some (ringFields outdoorUri (roomUri cfg d.dstIp))

/-- A frame of a slave, with the time at which it is handed on. -/
abbrev Arrived := ℕ × List UInt8

/-- The captures of the slaves, in the order in which the listener takes them. -/
def captured (frames : List Arrived) : List Capture :=
  frames.filterMap fun f ↦ captureOf f.1 f.2

/-- The pushes that come of the frames on the slaves. -/
def rings (cfg : Config) (dedup : Option Listen18022.Dedup) (frames : List Arrived) :
    List (List (Str × Str)) :=
  (dispatchAll dedup (captured frames)).filterMap (onDetect cfg)

/-! ### The URI of another unit -/

theorem rfind_append {c : UInt8} {s t : Str} (h : c ∉ t) :
    rfind c (s ++ c :: t) = some s.length := by
  have hrev : (s ++ c :: t).reverse = t.reverse ++ c :: s.reverse := by simp
  have hidx : (s ++ c :: t).reverse.idxOf? c = some t.reverse.length := by
    rw [hrev]
    exact idxOf?_of_not_mem (by simpa using h) _
  rw [rfind, hidx, Option.map_some, List.length_reverse, List.length_append, List.length_cons]
  congr 1
  omega

theorem parseUri_rebuilt {name : Str} (hlength : name.length = 8) (hat : 64 ∉ name)
    (ip : Octets) : parseUri (rebuilt name ip) = .ok (name, ipv4Str ip, 18022) := by
  have hidx : (rebuilt name ip).idxOf? 64 = some 8 := by
    rw [← hlength]
    exact idxOf?_of_not_mem hat _
  have htake : (rebuilt name ip).take 8 = name := List.take_left' hlength
  have hdrop : (rebuilt name ip).drop (8 + 1) = ipv4Str ip ++ 58 :: ascii "18022" := by
    rw [rebuilt, List.append_cons]
    exact List.drop_left' (by rw [List.length_append, hlength]; rfl)
  have hip : parseIpv4 (ipv4Str ip) = some ip := parseIpv4_ipv4Str ip
  have hcolon : 58 ∉ ipv4Str ip := colon_not_mem (by rw [hip]; rfl)
  have hne : ipv4Str ip ≠ [] := by simp [ipv4Str]
  have hlast : rfind 58 (ipv4Str ip ++ 58 :: ascii "18022") = some (ipv4Str ip).length :=
    rfind_append (by decide)
  have hport : (ipv4Str ip ++ 58 :: ascii "18022").drop ((ipv4Str ip).length + 1) =
      ascii "18022" := by
    rw [List.append_cons]
    exact List.drop_left' (by simp)
  have hnumber : parseI64 (ascii "18022") = some 18022 := by decide
  have hplace : 0 < 8 ∧ 8 ≠ (rebuilt name ip).length - 1 := by
    have hrest : (rebuilt name ip).length = name.length + 1 + (ipv4Str ip).length + 6 := by
      rw [rebuilt, List.length_append, List.length_cons, List.length_append]
      have hsix : (ascii ":18022").length = 6 := rfl
      omega
    omega
  have hbefore : 0 < (ipv4Str ip).length ∧
      (ipv4Str ip).length ≠ (ipv4Str ip ++ 58 :: ascii "18022").length - 1 := by
    have hfive : (ascii "18022").length = 5 := rfl
    rw [List.length_append, List.length_cons, hfive]
    exact ⟨List.length_pos_of_ne_nil hne, by omega⟩
  have hipv4 : ¬((ipv4Str ip).contains 58 = true ∨ parseIpv4 (ipv4Str ip) = none) := by
    rw [hip, List.contains_iff_mem]
    simpa using hcolon
  simp only [parseUri, hidx, if_pos hplace, hdrop, hlast, if_pos hbefore, htake,
    List.take_left' rfl, hport, if_neg (not_not.mpr hlength), if_neg hipv4, hnumber]
  rfl

/-! ### From and to -/

/-- The indoor unit of a configuration that has been loaded. -/
theorem indoorOf_of_accepted {cfg : Config} (h : Accepted cfg) :
    ∃ name ip port octets, parseUri (sipStr cfg.sip) = .ok (name, ip, port) ∧
      parseIpv4 ip = some octets ∧ indoorOf cfg = (name, some octets) ∧ name.length = 8 ∧
      64 ∉ name := by
  obtain ⟨⟨name, ip, port⟩, hscan, -⟩ := Fallible.bind_eq_ok.mp h.sip
  obtain ⟨hparse, -⟩ := parseUri_of_scanUri hscan
  obtain ⟨octets, hoctets, -⟩ := ipv4Str_of_parseUri hparse
  have hindoor : indoorOf cfg = (name, some octets) := by
    simp only [indoorOf, hparse, hoctets]
  refine ⟨name, ip, _, octets, hparse, hoctets, hindoor, ?_⟩
  rcases scanUri_cases (sipStr cfg.sip) with ⟨err, -, herror⟩ | ⟨name', _, _, _, _, _, -, -, -, -,
    hlength, hhex, -, -, -, -, -, -, -, hok⟩
  · exact nomatch herror.symm.trans hscan
  · obtain ⟨rfl, -⟩ := Prod.mk.inj (Except.ok.inj (hok.symm.trans hscan))
    exact ⟨hlength, fun hmem ↦ absurd (hhex 64 hmem) (by decide)⟩

/-- A push goes to the unit that the frame was sent to. -/
theorem addressOf_roomUri {cfg : Config} (h : Accepted cfg) (dstIp : Octets) :
    addressOf (roomUri cfg dstIp) = some dstIp := by
  obtain ⟨name, ip, port, octets, hparse, hoctets, hindoor, hlength, hat⟩ :=
    indoorOf_of_accepted h
  have hne : name ≠ [] := List.ne_nil_of_length_pos (by omega)
  simp only [roomUri, hindoor]
  by_cases hdst : octets = dstIp
  · rw [if_neg fun hother ↦ hother.1 hdst, addressOf_of_parseUri hparse, hoctets, hdst]
  · rw [if_pos ⟨hdst, hne⟩, addressOf_of_parseUri (parseUri_rebuilt hlength hat dstIp),
      parseIpv4_ipv4Str]

theorem roomUri_eq_iff {cfg : Config} (h : Accepted cfg) (dstIp : Octets) :
    roomUri cfg dstIp = sipStr cfg.sip ↔ addressOf (sipStr cfg.sip) = some dstIp := by
  constructor
  · intro heq
    rw [← heq]
    exact addressOf_roomUri h dstIp
  · intro haddress
    obtain ⟨name, ip, port, octets, hparse, hoctets, hindoor, -⟩ := indoorOf_of_accepted h
    rw [addressOf_of_parseUri hparse, hoctets, Option.some.injEq] at haddress
    simp only [roomUri, hindoor]
    exact if_neg fun hother ↦ hother.1 haddress

theorem stationAt_spec {stations : List Station} {address : Octets} {uri : Str}
    (h : stationAt stations address = some uri) :
    addressOf uri = some address ∧ ∃ st ∈ stations, sipStr st.sip = uri := by
  obtain ⟨st, hst, rfl⟩ := Option.map_eq_some_iff.mp h
  obtain ⟨hmem, haddress⟩ := List.mem_filter.mp (List.mem_of_getLast? hst)
  exact ⟨of_decide_eq_true haddress, st, hmem, rfl⟩

theorem onDetect_eq_some_iff (cfg : Config) (d : DetectedFrame) (fields : List (Str × Str)) :
    onDetect cfg d = some fields ↔ d.req = 704 ∧ ∃ uri, stationAt cfg.stations d.srcIp = some uri ∧
      fields = ringFields uri (roomUri cfg d.dstIp) := by
  rw [onDetect, parseStationsToIpMap_ipv4Str]
  by_cases hreq : d.req = 704
  · rw [if_neg (not_not.mpr hreq)]
    cases hstation : stationAt cfg.stations d.srcIp with
    | none => simp
    | some uri => simp [hreq, eq_comm]
  · rw [if_pos hreq]
    simp [hreq]

theorem ringFields_inj {outdoorUri outdoorUri' room room' : Str}
    (h : ringFields outdoorUri room = ringFields outdoorUri' room') :
    outdoorUri = outdoorUri' ∧ room = room' := by
  simp only [ringFields, List.cons.injEq, Prod.mk.injEq, true_and] at h
  exact ⟨h.1, h.2.1⟩

/-- The self-unlock consumer is handed a frame if its push names the configured unit. -/
theorem makeFilter_iff_onDetect {cfg : Config} (h : Accepted cfg) {deps : SelfUnlockDeps}
    (hdeps : tryNew cfg (parseStationsToIpMap cfg) = some deps) (d : DetectedFrame) :
    makeFilter deps d = true ↔
      ∃ uri, onDetect cfg d = some (ringFields uri (sipStr cfg.sip)) := by
  rw [(byAddress_of_accepted h hdeps).makeFilter]
  simp only [onDetect_eq_some_iff]
  constructor
  · rintro ⟨hreq, hdst, hstation⟩
    obtain ⟨uri, huri⟩ := Option.isSome_iff_exists.mp
      ((stationAt_isSome_iff cfg.stations d.srcIp).mpr hstation)
    exact ⟨uri, hreq, uri, huri, by rw [(roomUri_eq_iff h d.dstIp).mpr hdst]⟩
  · rintro ⟨uri, hreq, uri', huri', hfields⟩
    obtain ⟨-, hroom⟩ := ringFields_inj hfields
    obtain ⟨haddress, st, hst, rfl⟩ := stationAt_spec huri'
    exact ⟨hreq, (roomUri_eq_iff h d.dstIp).mp hroom.symm, st, hst, haddress⟩

/-! ### Copies -/

theorem dispatchAll_none (captures : List Capture) :
    dispatchAll none captures = captures.filterMap Capture.detected := by
  induction captures with
  | nil => rfl
  | cons c captures ih =>
    rw [dispatchAll, show dispatchWithDedup none c = (none, c.detected) from rfl, ih]
    cases hdetected : c.detected with
    | none => rw [List.filterMap_cons_none hdetected]; rfl
    | some frame => rw [List.filterMap_cons_some hdetected]; rfl

theorem recalls : Recalls DEDUP_CAPACITY DEDUP_WINDOW_MS Listen18022.Dedup.new
    Listen18022.Dedup.seen :=
  Listen.Dedup.recalls (by decide) DEDUP_WINDOW_MS

section Copies

variable {done captures : List Capture} {c : Capture}

theorem dedupAfter_snoc (done : List Capture) (c : Capture) :
    dedupAfter (done ++ [c]) = (Listen18022.Dedup.seen (dedupAfter done) c.call.1 c.call.2).1 := by
  rw [dedupAfter, List.map_append, List.map_singleton, after_snoc]
  rfl

theorem dispatchAll_cons (done captures : List Capture) (c : Capture) :
    dispatchAll (some (dedupAfter done)) (c :: captures) =
      (if (Listen18022.Dedup.seen (dedupAfter done) c.call.1 c.call.2).2 then none
        else c.detected).toList ++ dispatchAll (some (dedupAfter (done ++ [c]))) captures := by
  rw [dedupAfter_snoc]
  rfl

theorem dispatchAll_append (done first second : List Capture) :
    dispatchAll (some (dedupAfter done)) (first ++ second) =
      dispatchAll (some (dedupAfter done)) first ++
        dispatchAll (some (dedupAfter (done ++ first))) second := by
  induction first generalizing done with
  | nil => rw [List.append_nil]; rfl
  | cons c first ih =>
    rw [List.cons_append, dispatchAll_cons, dispatchAll_cons, ih (done ++ [c]), List.append_assoc,
      List.append_assoc, List.singleton_append]

theorem dedupAfter_of_hit
    (h : (Listen18022.Dedup.seen (dedupAfter done) c.call.1 c.call.2).2 = true) :
    dedupAfter (done ++ [c]) = dedupAfter done := by
  rw [dedupAfter_snoc]
  exact Listen.Dedup.seen_hit h

/-- Behind a capture that was handed on, what comes of the others is what comes of them without its
copies. -/
theorem dispatchAll_filter {key : UInt64} {start : ℕ} {older younger : List (UInt64 × ℕ)}
    (hhistory : dispatched Listen18022.Dedup.seen Listen18022.Dedup.new (done.map Capture.call) =
      older ++ (key, start) :: younger)
    (hclose : ∀ c ∈ captures, c.call.1 = key → c.call.2 ≤ start + DEDUP_WINDOW_MS)
    (hfew : younger.length + ((dispatched Listen18022.Dedup.seen (dedupAfter done)
      (captures.map Capture.call)).filter fun c ↦ c.1 ≠ key).length < DEDUP_CAPACITY) :
    dispatchAll (some (dedupAfter done)) captures =
      dispatchAll (some (dedupAfter done)) (captures.filter fun c ↦ c.call.1 ≠ key) := by
  induction captures generalizing done younger with
  | nil => rfl
  | cons c captures ih =>
    have hlater : ∀ c ∈ captures, c.call.1 = key → c.call.2 ≤ start + DEDUP_WINDOW_MS :=
      fun d hd ↦ hclose d (List.mem_cons_of_mem c hd)
    have hsnoc : (done ++ [c]).map Capture.call = done.map Capture.call ++ [c.call] := by
      rw [List.map_append, List.map_singleton]
    rw [List.map_cons, dispatched, ← dedupAfter_snoc] at hfew
    by_cases hkey : c.call.1 = key
    · have hhit : (Listen18022.Dedup.seen (dedupAfter done) c.call.1 c.call.2).2 = true := by
        rw [hkey]
        exact recalls.repeats hhistory (by omega) (hclose c List.mem_cons_self hkey)
      rw [if_pos hhit, dedupAfter_of_hit hhit] at hfew
      rw [List.filter_cons_of_neg (by simpa using hkey), dispatchAll_cons, if_pos hhit,
        dedupAfter_of_hit hhit]
      exact ih hhistory hlater hfew
    · rw [List.filter_cons_of_pos (by simpa using hkey), dispatchAll_cons, dispatchAll_cons]
      congr 1
      by_cases hhit : (Listen18022.Dedup.seen (dedupAfter done) c.call.1 c.call.2).2 = true
      · rw [if_pos hhit] at hfew
        refine ih ?_ hlater hfew
        rw [hsnoc, dispatched_snoc_of_hit hhit, hhistory]
      · rw [if_neg hhit, List.filter_cons_of_pos (by simpa using hkey), List.length_cons] at hfew
        rw [Bool.not_eq_true] at hhit
        have hhistory' : dispatched Listen18022.Dedup.seen Listen18022.Dedup.new
            ((done ++ [c]).map Capture.call) = older ++ (key, start) :: (younger ++ [c.call]) := by
          rw [hsnoc, dispatched_snoc_of_miss hhit, hhistory, List.append_assoc, List.cons_append]
        refine ih hhistory' hlater ?_
        rw [List.length_append, List.length_singleton]
        omega

end Copies

/-! ### From the wire -/

/-- The packet fits into a frame and carries a ring from the door station `uri`. -/
structure Carries (cfg : Config) (p : Packet) (uri : Str) : Prop where
  port : p.srcPort = 18022 ∨ p.dstPort = 18022
  fits : p.bytes.length ≤ BUFFER_SIZE
  ring : ∃ body, parseFrame p.payload = some (704, body)
  station : stationAt cfg.stations p.srcIp = some uri

/-- What the deduplicator knows a packet by. -/
def keyOf (p : Packet) : UInt64 :=
  Listen18022.dedupKey p.srcIp p.srcPort p.payload

/-- The frame is a copy of the packet, as far as the deduplicator can tell. -/
def isCopy (p : Packet) (f : Arrived) : Bool :=
  (captureOf f.1 f.2).any fun c ↦ c.call.1 == keyOf p

/-- The calls of the deduplicator for the frames on the slaves. -/
def calls (frames : List Arrived) : List (UInt64 × ℕ) :=
  (captured frames).map Capture.call

/-- The packet that comes at `start`, behind some frames and before others, is the first of its
copies within the window, and the ring of the deduplicator outlasts them. -/
structure FirstCopy (p : Packet) (before : List Arrived) (start : ℕ) (later : List Arrived) :
    Prop where
  fresh : ∀ ts, (keyOf p, ts) ∈ (dispatched Listen18022.Dedup.seen Listen18022.Dedup.new
    (calls before)).rtake DEDUP_CAPACITY → ts + DEDUP_WINDOW_MS < start
  close : ∀ f ∈ later, isCopy p f = true → f.1 ≤ start + DEDUP_WINDOW_MS
  few : (dispatched Listen18022.Dedup.seen (dedupAfter (captured before))
    (calls ((start, p.bytes) :: later))).length ≤ DEDUP_CAPACITY

section Wire

variable {cfg : Config} {p : Packet} {uri : Str} {before later : List Arrived} {start : ℕ}

theorem captured_append (first second : List Arrived) :
    captured (first ++ second) = captured first ++ captured second :=
  List.filterMap_append

theorem captured_filter (p : Packet) (frames : List Arrived) :
    captured (frames.filter fun f ↦ !isCopy p f) =
      (captured frames).filter fun c ↦ c.call.1 ≠ keyOf p := by
  rw [captured, captured, List.filterMap_filter, List.filter_filterMap]
  congr 1
  funext f
  unfold isCopy
  cases hcapture : captureOf f.1 f.2 with
  | none => simp
  | some c => by_cases hkey : c.call.1 = keyOf p <;> simp [Option.filter, hkey]

/-- The capture of a packet. -/
def captureAt (p : Packet) (start : ℕ) : Capture where
  nowMs := start
  srcIp := p.srcIp
  dstIp := p.dstIp
  srcPort := p.srcPort
  dstPort := p.dstPort
  payload := p.payload

theorem Carries.captured_cons (h : Carries cfg p uri) (start : ℕ) (later : List Arrived) :
    captured ((start, p.bytes) :: later) = captureAt p start :: captured later :=
  List.filterMap_cons_some (Packet.captureOf_bytes p h.port h.fits start)

/-- The push of a ring. -/
theorem Carries.onDetect (h : Carries cfg p uri) (start : ℕ) : ∃ d,
    (captureAt p start).detected = some d ∧
      Doorbell.onDetect cfg d = some (ringFields uri (roomUri cfg p.dstIp)) := by
  obtain ⟨body, hring⟩ := h.ring
  refine ⟨⟨704, body, p.srcIp, p.dstIp, p.srcPort, p.dstPort⟩, ?_, ?_⟩
  · rw [Capture.detected, show (captureAt p start).payload = p.payload from rfl, hring]
    rfl
  · exact (onDetect_eq_some_iff cfg _ _).mpr ⟨rfl, uri, h.station, rfl⟩

/-- A ring that a listener with one slave captures is pushed in its place. -/
theorem Carries.rings_none (h : Carries cfg p uri) :
    rings cfg none (before ++ (start, p.bytes) :: later) =
      rings cfg none before ++ ringFields uri (roomUri cfg p.dstIp) :: rings cfg none later := by
  obtain ⟨d, hdetected, hpush⟩ := h.onDetect start
  simp only [rings, dispatchAll_none]
  rw [captured_append, h.captured_cons, List.filterMap_append, List.filterMap_append,
    List.filterMap_cons_some hdetected, List.filterMap_cons_some hpush]

/-- A ring that is the first of its copies is pushed in its place, and its copies are not. -/
theorem Carries.rings_some (h : Carries cfg p uri) (hfirst : FirstCopy p before start later) :
    ∃ rest, rings cfg (some .new) (before ++ (start, p.bytes) :: later) =
        rings cfg (some .new) before ++ ringFields uri (roomUri cfg p.dstIp) :: rest ∧
      rings cfg (some .new) (before ++ (start, p.bytes) :: later.filter fun f ↦ !isCopy p f) =
        rings cfg (some .new) before ++ ringFields uri (roomUri cfg p.dstIp) :: rest := by
  obtain ⟨d, hdetected, hpush⟩ := h.onDetect start
  have hcall : (captureAt p start).call = (keyOf p, start) := rfl
  have hmiss : (Listen18022.Dedup.seen (dedupAfter (captured before)) (keyOf p) start).2 =
      false := by
    by_contra hhit
    rw [Bool.not_eq_false] at hhit
    obtain ⟨ts, hmem, hrecent⟩ := (recalls (calls before) (keyOf p) start).mp hhit
    have hout := hfirst.fresh ts hmem
    omega
  have hrun (frames : List Arrived) : rings cfg (some .new) (before ++ (start, p.bytes) :: frames) =
      rings cfg (some .new) before ++ ringFields uri (roomUri cfg p.dstIp) ::
        (dispatchAll (some (dedupAfter (captured before ++ [captureAt p start])))
          (captured frames)).filterMap (Doorbell.onDetect cfg) := by
    have hnew : Listen18022.Dedup.new = dedupAfter [] := rfl
    rw [rings, rings, captured_append, h.captured_cons, hnew, dispatchAll_append, List.nil_append,
      dispatchAll_cons, hcall, hmiss, if_neg Bool.false_ne_true, hdetected, List.filterMap_append]
    congr 1
    exact List.filterMap_cons_some hpush
  refine ⟨_, hrun later, ?_⟩
  rw [hrun, captured_filter]
  congr 3
  have hhistory : dispatched Listen18022.Dedup.seen Listen18022.Dedup.new
      ((captured before ++ [captureAt p start]).map Capture.call) =
        dispatched Listen18022.Dedup.seen Listen18022.Dedup.new (calls before) ++
          (keyOf p, start) :: [] := by
    rw [List.map_append, List.map_singleton, hcall]
    exact dispatched_snoc_of_miss hmiss
  refine (dispatchAll_filter hhistory ?_ ?_).symm
  · intro c hc hkey
    obtain ⟨f, hf, hcapture⟩ := List.mem_filterMap.mp hc
    have htime : f.1 = c.call.2 := by
      rw [captureOf] at hcapture
      split_ifs at hcapture
      obtain ⟨parts, -, rfl⟩ := Option.map_eq_some_iff.mp hcapture
      rfl
    rw [← htime]
    refine hfirst.close f hf ?_
    rw [isCopy, hcapture]
    simpa using hkey
  · have hfew := hfirst.few
    rw [calls, h.captured_cons, List.map_cons, hcall, dispatched, hmiss,
      if_neg Bool.false_ne_true, List.length_cons] at hfew
    have hstate : (Listen18022.Dedup.seen (dedupAfter (captured before)) (keyOf p) start).1 =
        dedupAfter (captured before ++ [captureAt p start]) := by
      rw [dedupAfter_snoc, hcall]
    rw [hstate] at hfew
    have hle := List.length_filter_le (fun c : UInt64 × ℕ ↦ decide (c.1 ≠ keyOf p))
      (dispatched Listen18022.Dedup.seen (dedupAfter (captured before ++ [captureAt p start]))
        ((captured later).map Capture.call))
    simp only [List.length_nil]
    omega

end Wire

/-- What a push says of the capture that it is for. -/
structure Reports (cfg : Config) (c : Capture) (fields : List (Str × Str)) : Prop where
  ring : ∃ body, parseFrame c.payload = some (704, body)
  uris : ∃ outdoorUri room, fields = ringFields outdoorUri room ∧
    addressOf outdoorUri = some c.srcIp ∧ addressOf room = some c.dstIp ∧
      ∃ st ∈ cfg.stations, sipStr st.sip = outdoorUri

theorem reports_of_mem_rings {cfg : Config} (h : Accepted cfg) {frames : List Arrived}
    {fields : List (Str × Str)} (hfields : fields ∈ rings cfg none frames) :
    ∃ f ∈ frames, ∃ c, captureOf f.1 f.2 = some c ∧ Reports cfg c fields := by
  rw [rings, dispatchAll_none] at hfields
  obtain ⟨d, hd, hpush⟩ := List.mem_filterMap.mp hfields
  obtain ⟨c, hc, hdetected⟩ := List.mem_filterMap.mp hd
  obtain ⟨f, hf, hcapture⟩ := List.mem_filterMap.mp hc
  obtain ⟨⟨req, body⟩, hparse, rfl⟩ := Option.map_eq_some_iff.mp hdetected
  obtain ⟨hreq, uri, hstation, rfl⟩ := (onDetect_eq_some_iff cfg _ _).mp hpush
  obtain ⟨haddress, hmem⟩ := stationAt_spec hstation
  obtain rfl : req = 704 := hreq
  exact ⟨f, hf, c, hcapture, ⟨body, hparse⟩, uri, _, rfl, haddress, addressOf_roomUri h c.dstIp,
    hmem⟩

theorem rings_sublist (cfg : Config) (dedup : Option Listen18022.Dedup) (frames : List Arrived) :
    (rings cfg dedup frames).Sublist (rings cfg none frames) := by
  cases dedup with
  | none => exact List.Sublist.refl _
  | some d =>
    obtain ⟨kept, hsublist, -, hframes⟩ := dispatchAll_some d (captured frames)
    rw [rings, rings, hframes, dispatchAll_none]
    exact (hsublist.filterMap Capture.detected).filterMap (onDetect cfg)

/-- **A ring is pushed once**, from the door station that it comes from to the unit that it is sent
to, and nothing else is: with a configuration that has been loaded, every push reports a captured
ring, with the URI of the configuration exactly if the self-unlock consumer is handed it too; a ring
from a door station is pushed in its place, and with several slaves its copies within the window
change nothing. -/
theorem doorbell_rings {path : String}
    {read : Except AutomationState.ReadError (List UInt8)} {cfg : Config}
    (h : loadConfig path read = .ok cfg) :
    (∀ dedup frames, (rings cfg dedup frames).Sublist (rings cfg none frames)) ∧
    (∀ frames fields, fields ∈ rings cfg none frames →
      ∃ f ∈ frames, ∃ c, captureOf f.1 f.2 = some c ∧ Reports cfg c fields) ∧
    (∀ deps, tryNew cfg (parseStationsToIpMap cfg) = some deps → ∀ d,
      makeFilter deps d = true ↔ ∃ uri, onDetect cfg d = some (ringFields uri (sipStr cfg.sip))) ∧
    ∀ p uri, Carries cfg p uri →
      (∀ before start later, rings cfg none (before ++ (start, p.bytes) :: later) =
        rings cfg none before ++ ringFields uri (roomUri cfg p.dstIp) :: rings cfg none later) ∧
      ∀ before start later, FirstCopy p before start later → ∃ rest,
        rings cfg (some .new) (before ++ (start, p.bytes) :: later) =
          rings cfg (some .new) before ++ ringFields uri (roomUri cfg p.dstIp) :: rest ∧
        rings cfg (some .new) (before ++ (start, p.bytes) :: later.filter fun f ↦ !isCopy p f) =
          rings cfg (some .new) before ++ ringFields uri (roomUri cfg p.dstIp) :: rest := by
  have haccepted := accepted_of_loadConfig h
  exact ⟨rings_sublist cfg, fun frames fields ↦ reports_of_mem_rings haccepted,
    fun deps ↦ makeFilter_iff_onDetect haccepted,
    fun p uri hring ↦ ⟨fun _ _ _ ↦ hring.rings_none, fun _ _ _ ↦ hring.rings_some⟩⟩

/-- A ring of the door station of `oneStationConfig`, without options. -/
def stationPacket : Packet where
  macs := List.replicate 12 0
  macs_length := rfl
  service := 0
  totalLength := 62
  identification := 1
  dontFragment := true
  ttl := 64
  ipChecksum := 0
  srcIp := octets 172 16 106 91
  dstIp := octets 172 16 106 152
  ipOptions := ⟨[], 0, rfl, by decide⟩
  srcPort := 40000
  dstPort := 18022
  sequence := 1
  acknowledgement := 1
  flags := 0x18
  window := 512
  tcpChecksum := 0
  urgent := 0
  tcpOptions := ⟨[], 0, rfl, by decide⟩
  payload := Wire18022.assembleFrame (ascii "req=704&query=")

theorem doorbell_rings_threeSlaves : ∃ cfg,
    loadConfig "config.ini" (.ok oneStationConfig) = .ok cfg ∧
      rings cfg (some .new)
        [(1000, stationPacket.bytes), (1003, stationPacket.bytes), (1005, stationPacket.bytes)] =
        [ringFields (ascii "06021103@172.16.106.91:18022")
          (ascii "06020001@172.16.106.152:18022")] := by
  have hloaded : (loadConfig "config.ini" (.ok oneStationConfig)).toOption.map (fun cfg ↦
      (stationAt cfg.stations stationPacket.srcIp, roomUri cfg stationPacket.dstIp)) =
        some (some (ascii "06021103@172.16.106.91:18022"),
          ascii "06020001@172.16.106.152:18022") := by
    decide +kernel
  cases hload : loadConfig "config.ini" (.ok oneStationConfig) with
  | error err =>
    rw [hload] at hloaded
    cases hloaded
  | ok cfg =>
    rw [hload] at hloaded
    obtain ⟨hstation, hroom⟩ := Prod.mk.inj (Option.some.inj hloaded)
    have hcarries : Carries cfg stationPacket (ascii "06021103@172.16.106.91:18022") :=
      ⟨.inr rfl, by decide +kernel, ⟨[], by decide +kernel⟩, hstation⟩
    have hfirst : FirstCopy stationPacket [] 1000
        [(1003, stationPacket.bytes), (1005, stationPacket.bytes)] :=
      ⟨fun _ hmem ↦ (by cases hmem), by decide +kernel, by decide +kernel⟩
    obtain ⟨hsublist, -, -, hrings⟩ := doorbell_rings hload
    obtain ⟨hone, honce⟩ := hrings stationPacket _ hcarries
    obtain ⟨rest, hall, hfirstOnly⟩ := honce [] 1000 _ hfirst
    have hcopies : [(1003, stationPacket.bytes), (1005, stationPacket.bytes)].filter
        (fun f ↦ !isCopy stationPacket f) = [] := by
      decide +kernel
    have hrest : rest = [] := by
      have hlength := (hsublist (some .new) [(1000, stationPacket.bytes)]).length_le
      rw [hcopies] at hfirstOnly
      rw [← List.nil_append [(1000, stationPacket.bytes)], hone, hfirstOnly] at hlength
      exact List.length_eq_zero_iff.mp (Nat.le_zero.mp (Nat.succ_le_succ_iff.mp hlength))
    refine ⟨cfg, rfl, ?_⟩
    rw [hrest, hroom] at hall
    exact hall

end DoorAccess.Daemon.Doorbell
