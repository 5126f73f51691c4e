import DoorAccess.Codec
import DoorAccess.Lib.Records
import DoorAccess.Lib.Transition

/-!
# Keeping the video alive

`rtcp.rs` sends a report to the door station every five seconds as long as a session lasts, and a
last one when it ends. A reader of compound packets gets both ends of every report back
(`readCompound_buildRrSdes`, `readCompound_buildBye`).

The thread behind the reports shares the stop flag and the source of the stream with the session,
and every wait of it may end early. `keepalive_schedule` is about every interleaving: a thread that
gets no socket ends with nothing sent, and for one that does reports never come early, whenever it
goes to sleep it has had exactly as many rounds as intervals have passed, what is sent is one report
for each round in which the source was known, and behind the stop flag at most one more goes out
before the thread returns.
-/

set_option autoImplicit false
set_option relaxedAutoImplicit false

namespace DoorAccess.Video.Rtcp

open Codec Records

def RTCP_PT_RR : UInt8 := 201
def RTCP_PT_SDES : UInt8 := 202
def RTCP_PT_BYE : UInt8 := 203

def RTCP_CNAME : Str := ascii "dooraccess-go"

/-! ### Packets -/

def buildRr (reporterSsrc streamSsrc : UInt32) : List UInt8 :=
  [0x81, RTCP_PT_RR] ++ toBeBytes16 7 ++ toBeBytes32 reporterSsrc ++ toBeBytes32 streamSsrc ++
    List.replicate 20 0

/-- `build_sdes` with the name of the source as a parameter. -/
def sdes (cn : Str) (chunkSsrc : UInt32) : List UInt8 :=
  let itemBytes := 1 + 1 + cn.length + 1
  let chunkSize := 4 + itemBytes
  let pad := (4 - chunkSize % 4) % 4
  let totalLen := 4 + chunkSize + pad
  [0x81, RTCP_PT_SDES] ++ toBeBytes16 (UInt16.ofNat (totalLen / 4 - 1)) ++
    toBeBytes32 chunkSsrc ++ [1, UInt8.ofNat cn.length] ++ cn ++ List.replicate (1 + pad) 0

def buildSdes (chunkSsrc : UInt32) : List UInt8 :=
  sdes RTCP_CNAME chunkSsrc

def buildRrSdes (reporterSsrc streamSsrc : UInt32) : List UInt8 :=
  buildRr reporterSsrc streamSsrc ++ buildSdes reporterSsrc

def buildBye (reporterSsrc : UInt32) : List UInt8 :=
  let emptyRr := [0x80, RTCP_PT_RR] ++ toBeBytes16 1 ++ toBeBytes32 reporterSsrc
  let bye := [0x81, RTCP_PT_BYE] ++ toBeBytes16 1 ++ toBeBytes32 reporterSsrc
  emptyRr ++ buildSdes reporterSsrc ++ bye

/-! ### Reading packets -/

/-- A packet of RTCP: the count in its first byte, its type, and what is behind its header. -/
structure Packet where
  count : ℕ
  kind : UInt8
  body : List UInt8
  deriving DecidableEq

/-- The reader of one packet of version 2 without padding. -/
def readPacket : List UInt8 → Option (Packet × List UInt8)
  | first :: kind :: hi :: lo :: rest =>
    if first.toNat / 32 = 4 then
      (cut (4 * value [hi, lo]) rest).map fun (body, rest) ↦ (⟨first.toNat % 32, kind, body⟩, rest)
    else none
  | _ => none

/-- The items of a source, up to the zero that ends them. -/
def readItems : ℕ → List UInt8 → Option (List (UInt8 × Str) × List UInt8)
  | _, 0 :: rest => some ([], rest)
  | fuel + 1, kind :: length :: rest =>
    (cut length.toNat rest).bind fun (text, rest) ↦
      (readItems fuel rest).map fun (items, rest) ↦ ((kind, text) :: items, rest)
  | _, _ => none

/-- What a packet says. -/
inductive Report
  /-- The sender, and the source of each block with what is reported about it. -/
  | receiver (sender : ℕ) (blocks : List (ℕ × List UInt8))
  /-- The one source that is described, and its items. -/
  | source (ssrc : ℕ) (items : List (UInt8 × Str))
  | goodbye (sources : List ℕ)
  deriving DecidableEq

def readBlock (bytes : List UInt8) : Option ((ℕ × List UInt8) × List UInt8) :=
  (cut 24 bytes).map fun (block, rest) ↦ ((value (block.take 4), block.drop 4), rest)

def readSource (bytes : List UInt8) : Option (ℕ × List UInt8) :=
  (cut 4 bytes).map fun (ssrc, rest) ↦ (value ssrc, rest)

def Packet.report (p : Packet) : Option Report :=
  if p.kind = RTCP_PT_RR then do
    let (sender, rest) ← readSource p.body
    let blocks ← readAll readBlock p.count rest
    if blocks.length = p.count then some (.receiver sender blocks) else none
  else if p.kind = RTCP_PT_SDES then do
    let (ssrc, rest) ← readSource p.body
    let (items, padding) ← readItems rest.length rest
    if p.count = 1 ∧ padding.length < 4 ∧ padding.all (· == 0) then some (.source ssrc items)
    else none
  else if p.kind = RTCP_PT_BYE then do
    let sources ← readAll readSource p.count p.body
    if sources.length = p.count then some (.goodbye sources) else none
  else none

/-- What the packets of a datagram say. -/
def readCompound (bytes : List UInt8) : Option (List Report) := do
  let packets ← readAll readPacket bytes.length bytes
  packets.mapM Packet.report

/-! ### What the door station reads -/

/-- A packet on the wire. -/
def Packet.write (p : Packet) : List UInt8 :=
  [UInt8.ofNat (128 + p.count), p.kind] ++ toBeBytes16 (UInt16.ofNat (p.body.length / 4)) ++ p.body

/-- A packet whose header can say what it is. -/
structure Packet.Framed (p : Packet) : Prop where
  count : p.count < 32
  aligned : p.body.length % 4 = 0
  length : p.body.length < 262144

theorem readPacket_write {p : Packet} (h : p.Framed) (rest : List UInt8) :
    readPacket (p.write ++ rest) = some (p, rest) := by
  have hcount := h.count
  have haligned := h.aligned
  have hlength := h.length
  have hfirst : (UInt8.ofNat (128 + p.count)).toNat = 128 + p.count := by
    rw [UInt8.toNat_ofNat', Nat.mod_eq_of_lt (by omega)]
  have hwords : value (toBeBytes16 (UInt16.ofNat (p.body.length / 4))) = p.body.length / 4 := by
    rw [value_toBeBytes16, UInt16.toNat_ofNat', Nat.mod_eq_of_lt (by omega)]
  have hcut : cut (4 * value (toBeBytes16 (UInt16.ofNat (p.body.length / 4)))) (p.body ++ rest) =
      some (p.body, rest) := cut_append (by rw [hwords]; omega) rest
  show (if (UInt8.ofNat (128 + p.count)).toNat / 32 = 4 then Option.map _ (cut
    (4 * value (toBeBytes16 (UInt16.ofNat (p.body.length / 4)))) (p.body ++ rest)) else none) = _
  rw [hcut, hfirst, if_pos (by omega), Option.map_some]
  simp only [show (128 + p.count) % 32 = p.count by omega]

theorem readAll_write {packets : List Packet} (h : ∀ p ∈ packets, p.Framed) :
    readAll readPacket (packets.flatMap Packet.write).length (packets.flatMap Packet.write) =
      some packets := by
  have hne (p : Packet) : p.write ≠ [] := List.cons_ne_nil _ _
  have hfuel : packets.length ≤ (packets.flatMap Packet.write).length := by
    clear h
    induction packets with
    | nil => exact Nat.le_refl 0
    | cons p packets ih =>
      have hpos := List.length_pos_of_ne_nil (hne p)
      rw [List.flatMap_cons, List.length_append, List.length_cons]
      omega
  have hread (p : Packet) (hp : p ∈ packets) (rest : List UInt8) :
      readPacket (p.write ++ rest) = some (id p, rest) := readPacket_write (h p hp) rest
  have hall := readAll_flatMap packets _ (fun p _ ↦ hne p) hread hfuel
  rwa [List.map_id] at hall

/-- The packet of a source with a name. -/
def sdesPacket (cn : Str) (chunkSsrc : UInt32) : Packet where
  count := 1
  kind := RTCP_PT_SDES
  body := toBeBytes32 chunkSsrc ++
    (1 :: UInt8.ofNat cn.length :: (cn ++ List.replicate (1 + (4 - (7 + cn.length) % 4) % 4) 0))

theorem framed_sdesPacket {cn : Str} (h : cn.length < 256) (chunkSsrc : UInt32) :
    (sdesPacket cn chunkSsrc).Framed ∧ (sdesPacket cn chunkSsrc).write = sdes cn chunkSsrc := by
  have hlength : (sdesPacket cn chunkSsrc).body.length =
      7 + cn.length + (4 - (7 + cn.length) % 4) % 4 := by
    simp only [sdesPacket, List.length_append, length_toBeBytes32, List.length_cons,
      List.length_replicate]
    omega
  refine ⟨⟨by show 1 < 32; decide, by rw [hlength]; omega, by rw [hlength]; omega⟩, ?_⟩
  have hsize : 4 + (1 + 1 + cn.length + 1) = 7 + cn.length := by omega
  have hwords : (4 + (7 + cn.length) + (4 - (7 + cn.length) % 4) % 4) / 4 - 1 =
      (7 + cn.length + (4 - (7 + cn.length) % 4) % 4) / 4 := by omega
  rw [Packet.write, hlength]
  simp only [sdes, hsize, hwords, sdesPacket]
  simp only [List.append_assoc, List.cons_append, List.nil_append]
  rfl

theorem readItems_name {cn : Str} (h : cn.length < 256) (pad fuel : ℕ) :
    readItems (fuel + 1) (1 :: UInt8.ofNat cn.length :: (cn ++ List.replicate (1 + pad) 0)) =
      some ([(1, cn)], List.replicate pad 0) := by
  have hlength : (UInt8.ofNat cn.length).toNat = cn.length := by
    rw [UInt8.toNat_ofNat', Nat.mod_eq_of_lt h]
  have hcut : cut (UInt8.ofNat cn.length).toNat (cn ++ List.replicate (1 + pad) 0) =
      some (cn, List.replicate (1 + pad) 0) := cut_append hlength.symm _
  have hend : readItems fuel (List.replicate (1 + pad) 0) = some ([], List.replicate pad 0) := by
    rw [Nat.add_comm, List.replicate_succ]
    cases fuel <;> rfl
  rw [readItems]
  · rw [hcut, Option.bind_some]
    simp only [hend, Option.map_some]
  · exact fun h ↦ by cases h

theorem readSource_append (ssrc : UInt32) (rest : List UInt8) :
    readSource (toBeBytes32 ssrc ++ rest) = some (ssrc.toNat, rest) := by
  rw [readSource, cut_append (length_toBeBytes32 ssrc), Option.map_some]
  simp only [value_toBeBytes32]

theorem report_sdesPacket {cn : Str} (h : cn.length < 256) (chunkSsrc : UInt32) :
    (sdesPacket cn chunkSsrc).report = some (.source chunkSsrc.toNat [(1, cn)]) := by
  generalize hpad : (4 - (7 + cn.length) % 4) % 4 = pad
  have hlt : pad < 4 := hpad ▸ Nat.mod_lt _ (by decide)
  have hbody : (sdesPacket cn chunkSsrc).body = toBeBytes32 chunkSsrc ++
      (1 :: UInt8.ofNat cn.length :: (cn ++ List.replicate (1 + pad) 0)) := by
    rw [sdesPacket, hpad]
  have hitems := readItems_name h pad (UInt8.ofNat cn.length ::
    (cn ++ List.replicate (1 + pad) 0)).length
  have hpadding : (1 = 1 ∧ (List.replicate pad (0 : UInt8)).length < 4 ∧
      (List.replicate pad (0 : UInt8)).all (· == 0) = true) := by
    refine ⟨rfl, by rwa [List.length_replicate], ?_⟩
    simp
  rw [Packet.report, if_neg (by show ¬RTCP_PT_SDES = RTCP_PT_RR; decide),
    if_pos (by show RTCP_PT_SDES = RTCP_PT_SDES; rfl), hbody, readSource_append]
  simp only [Option.bind_eq_bind, Option.bind_some, List.length_cons] at hitems ⊢
  rw [hitems]
  exact if_pos hpadding

/-- The packet of a report about streams, nothing of which is measured. -/
def rrPacket (reporterSsrc : UInt32) (streams : List UInt32) : Packet where
  count := streams.length
  kind := RTCP_PT_RR
  body := toBeBytes32 reporterSsrc ++
    streams.flatMap fun ssrc ↦ toBeBytes32 ssrc ++ List.replicate 20 0

def byePacket (reporterSsrc : UInt32) : Packet where
  count := 1
  kind := RTCP_PT_BYE
  body := toBeBytes32 reporterSsrc

theorem readBlock_append (ssrc : UInt32) (rest : List UInt8) :
    readBlock (toBeBytes32 ssrc ++ List.replicate 20 0 ++ rest) =
      some ((ssrc.toNat, List.replicate 20 0), rest) := by
  rw [readBlock, cut_append (by simp), Option.map_some]
  simp only [List.take_left' (length_toBeBytes32 ssrc), List.drop_left' (length_toBeBytes32 ssrc),
    value_toBeBytes32]

theorem report_rrPacket (reporterSsrc : UInt32) (streams : List UInt32) :
    (rrPacket reporterSsrc streams).report =
      some (.receiver reporterSsrc.toNat
        (streams.map fun ssrc ↦ (ssrc.toNat, List.replicate 20 0))) := by
  have hblocks : readAll readBlock streams.length
      (streams.flatMap fun ssrc ↦ toBeBytes32 ssrc ++ List.replicate 20 0) =
        some (streams.map fun ssrc ↦ (ssrc.toNat, List.replicate 20 0)) :=
    readAll_flatMap streams _ (fun ssrc _ ↦ List.cons_ne_nil _ _)
      (fun ssrc _ rest ↦ readBlock_append ssrc rest) (Nat.le_refl _)
  rw [Packet.report, if_pos (by show RTCP_PT_RR = RTCP_PT_RR; rfl), rrPacket, readSource_append]
  simp only [Option.bind_eq_bind, Option.bind_some, hblocks, List.length_map, if_true]

theorem report_byePacket (reporterSsrc : UInt32) :
    (byePacket reporterSsrc).report = some (.goodbye [reporterSsrc.toNat]) := by
  have hread := readSource_append reporterSsrc []
  rw [List.append_nil] at hread
  have hsources : readAll readSource 1 (toBeBytes32 reporterSsrc) = some [reporterSsrc.toNat] := by
    rw [toBeBytes32] at hread ⊢
    rw [readAll]
    simp only [hread, readAll, Option.map_some]
  rw [Packet.report, if_neg (by show ¬RTCP_PT_BYE = RTCP_PT_RR; decide),
    if_neg (by show ¬RTCP_PT_BYE = RTCP_PT_SDES; decide),
    if_pos (by show RTCP_PT_BYE = RTCP_PT_BYE; rfl), byePacket]
  simp only [Option.bind_eq_bind, hsources, Option.bind_some, List.length_singleton, if_true]

/-- The packets of a datagram are read one behind the other. -/
theorem readCompound_write {packets : List Packet} {reports : List Report}
    (h : List.Forall₂ (fun p r ↦ p.Framed ∧ p.report = some r) packets reports) :
    readCompound (packets.flatMap Packet.write) = some reports := by
  have hframed : ∀ p ∈ packets, p.Framed := by
    intro p hp
    induction h with
    | nil => cases hp
    | cons hfirst _ ih =>
      rcases List.mem_cons.mp hp with rfl | hp
      · exact hfirst.1
      · exact ih hp
  have hreports : packets.mapM Packet.report = some reports := by
    clear hframed
    induction h with
    | nil => rfl
    | cons hfirst _ ih => simp [List.mapM_cons, hfirst.2, ih]
  rw [readCompound, readAll_write hframed]
  exact hreports

theorem framed_rrPacket (reporterSsrc : UInt32) {streams : List UInt32}
    (h : streams.length < 32) : (rrPacket reporterSsrc streams).Framed := by
  have hblocks (streams : List UInt32) : (streams.flatMap fun ssrc ↦
      toBeBytes32 ssrc ++ List.replicate 20 0).length = 24 * streams.length := by
    induction streams with
    | nil => rfl
    | cons ssrc streams ih =>
      rw [List.flatMap_cons, List.length_append, ih, List.length_append, length_toBeBytes32,
        List.length_replicate, List.length_cons]
      omega
  have hlength : (rrPacket reporterSsrc streams).body.length = 4 + 24 * streams.length := by
    rw [rrPacket, List.length_append, length_toBeBytes32, hblocks]
  exact ⟨h, by rw [hlength]; omega, by rw [hlength]; omega⟩

theorem framed_byePacket (reporterSsrc : UInt32) : (byePacket reporterSsrc).Framed :=
  ⟨by show 1 < 32; decide, by show 4 % 4 = 0; decide, by show 4 < 262144; decide⟩

/-- The packets of the source are the ones that a packet of its kind is written as. -/
theorem write_rrPacket (reporterSsrc streamSsrc : UInt32) :
    (rrPacket reporterSsrc [streamSsrc]).write = buildRr reporterSsrc streamSsrc := by
  have hfirst : UInt8.ofNat (128 + 1) = 0x81 := by decide
  have hwords : UInt16.ofNat ((4 + 24) / 4) = 7 := by decide
  show [UInt8.ofNat (128 + 1), RTCP_PT_RR] ++ toBeBytes16 (UInt16.ofNat ((4 + 24) / 4)) ++ _ = _
  rw [hfirst, hwords]
  rfl

theorem write_rrPacket_nil (reporterSsrc : UInt32) : (rrPacket reporterSsrc []).write =
    [0x80, RTCP_PT_RR] ++ toBeBytes16 1 ++ toBeBytes32 reporterSsrc := by
  have hfirst : UInt8.ofNat (128 + 0) = 0x80 := by decide
  have hwords : UInt16.ofNat (4 / 4) = 1 := by decide
  show [UInt8.ofNat (128 + 0), RTCP_PT_RR] ++ toBeBytes16 (UInt16.ofNat (4 / 4)) ++ _ = _
  rw [hfirst, hwords]
  rfl

theorem write_byePacket (reporterSsrc : UInt32) : (byePacket reporterSsrc).write =
    [0x81, RTCP_PT_BYE] ++ toBeBytes16 1 ++ toBeBytes32 reporterSsrc := by
  have hfirst : UInt8.ofNat (128 + 1) = 0x81 := by decide
  have hwords : UInt16.ofNat (4 / 4) = 1 := by decide
  show [UInt8.ofNat (128 + 1), RTCP_PT_BYE] ++ toBeBytes16 (UInt16.ofNat (4 / 4)) ++ _ = _
  rw [hfirst, hwords]
  rfl

theorem readCompound_buildRrSdes (reporterSsrc streamSsrc : UInt32) :
    readCompound (buildRrSdes reporterSsrc streamSsrc) =
      some [.receiver reporterSsrc.toNat [(streamSsrc.toNat, List.replicate 20 0)],
        .source reporterSsrc.toNat [(1, RTCP_CNAME)]] := by
  have hname : RTCP_CNAME.length < 256 := by decide
  have hsdes := framed_sdesPacket hname reporterSsrc
  have hbytes : buildRrSdes reporterSsrc streamSsrc =
      [rrPacket reporterSsrc [streamSsrc], sdesPacket RTCP_CNAME reporterSsrc].flatMap
        Packet.write := by
    rw [List.flatMap_cons, List.flatMap_singleton, hsdes.2, write_rrPacket]
    rfl
  rw [hbytes]
  exact readCompound_write (.cons
    ⟨framed_rrPacket _ (by show 1 < 32; decide), report_rrPacket _ _⟩
    (.cons ⟨hsdes.1, report_sdesPacket hname _⟩ .nil))

theorem readCompound_buildBye (reporterSsrc : UInt32) :
    readCompound (buildBye reporterSsrc) =
      some [.receiver reporterSsrc.toNat [], .source reporterSsrc.toNat [(1, RTCP_CNAME)],
        .goodbye [reporterSsrc.toNat]] := by
  have hname : RTCP_CNAME.length < 256 := by decide
  have hsdes := framed_sdesPacket hname reporterSsrc
  have hbytes : buildBye reporterSsrc = [rrPacket reporterSsrc [],
      sdesPacket RTCP_CNAME reporterSsrc, byePacket reporterSsrc].flatMap Packet.write := by
    rw [List.flatMap_cons, List.flatMap_cons, List.flatMap_singleton, hsdes.2, write_rrPacket_nil,
      write_byePacket, ← List.append_assoc]
    rfl
  rw [hbytes]
  exact readCompound_write (.cons
    ⟨framed_rrPacket _ (by show 0 < 32; decide), report_rrPacket _ _⟩
    (.cons ⟨hsdes.1, report_sdesPacket hname _⟩
      (.cons ⟨framed_byePacket _, report_byePacket _⟩ .nil)))

/-! ### The thread behind the reports -/

/-- One round of the thread: when it came, and the source that it found. -/
structure Round where
  time : ℕ
  ssrc : Option UInt32
  deriving DecidableEq

/-- Where the thread is in `run`. -/
inductive Phase
  /-- Before `udp_dial`. -/
  | dialing
  /-- With a socket, before it sets the instant of the first round. -/
  | dialed
  /-- Before it looks at the stop flag. -/
  | checking
  /-- Before it looks at the clock. -/
  | looking
  /-- In `park_timeout`, since the instant at which it looked at the clock. -/
  | parked (since : ℕ)
  /-- Past `next_tick`, before it asks for the source. -/
  | due
  /-- Before it hands a report about a source to the socket. -/
  | sending (ssrc : UInt32)
  | returned
  /-- Returned with the error of `udp_dial`. -/
  | failed
  deriving DecidableEq

/-- The thread is in its loop, or has returned from it. -/
def Phase.loops : Phase → Bool
  | dialing | dialed | failed => false
  | _ => true

/-- `run` is over. -/
def Phase.over : Phase → Bool
  | returned | failed => true
  | _ => false

/-- The thread, what it shares with the session, and what it has done. -/
structure State where
  now : ℕ
  stop : Bool
  ssrc : Option UInt32
  phase : Phase
  /-- The instant from which the rounds are counted, once the thread has a socket. -/
  begun : Option ℕ
  nextTick : ℕ
  rounds : List Round
  /-- The datagrams that the socket has been asked to send. -/
  sent : List (List UInt8)
  /-- The errors of the socket, each of which is logged and nothing else. -/
  sendErrors : ℕ
  deriving DecidableEq

inductive Label
  | tick (duration : ℕ)
  | setStop
  | setSsrc (ssrc : Option UInt32)
  /-- The thread goes on. A wait ends at any time, and the dial and a send succeed or not. -/
  | thread (ok : Bool)
  deriving DecidableEq

def Label.isThread : Label → Bool
  | thread _ => true
  | _ => false

/-- The state at the start of the thread. -/
def State.start (now : ℕ) (stop : Bool) (ssrc : Option UInt32) : State where
  now := now
  stop := stop
  ssrc := ssrc
  phase := .dialing
  begun := none
  nextTick := 0
  rounds := []
  sent := []
  sendErrors := 0

/-- The step of the thread. -/
def threadStep (interval : ℕ) (reporterSsrc : UInt32) (ok : Bool) (s : State) : Option State :=
  match s.phase with
  | .dialing => some { s with phase := if ok then .dialed else .failed }
  | .dialed => some { s with
      begun := some s.now
      nextTick := s.now + interval
      phase := .checking }
  | .checking => some { s with phase := if s.stop then .returned else .looking }
  | .looking => some { s with phase := if s.nextTick ≤ s.now then .due else .parked s.now }
  | .parked _ => some { s with phase := .checking }
  | .due => some { s with
      nextTick := s.nextTick + interval
      rounds := s.rounds ++ [⟨s.now, s.ssrc⟩]
      phase := s.ssrc.elim .checking .sending }
  | .sending ssrc => some { s with
      sent := s.sent ++ [buildRrSdes reporterSsrc ssrc]
      sendErrors := if ok then s.sendErrors else s.sendErrors + 1
      phase := .checking }
  | .returned | .failed => none

def step (interval : ℕ) (reporterSsrc : UInt32) (s : State) : Label → Option State
  | .tick duration => some { s with now := s.now + duration }
  | .setStop => some { s with stop := true }
  | .setSsrc ssrc => some { s with ssrc := ssrc }
  | .thread ok => threadStep interval reporterSsrc ok s

/-! ### The schedule -/

/-- The sources of the rounds whose reports are still to be sent. -/
def Phase.pending : Phase → List UInt32
  | sending ssrc => [ssrc]
  | _ => []

/-- What a phase says about the clock, for a thread that has had a number of rounds. -/
def Phase.Timely (interval t0 rounds now : ℕ) : Phase → Prop
  | parked since => t0 + rounds * interval ≤ since ∧ since < t0 + (rounds + 1) * interval
  | due => t0 + (rounds + 1) * interval ≤ now
  | _ => True

/-- The thread has no schedule yet, and has done nothing. -/
structure Unbegun (s : State) : Prop where
  begun : s.begun = none
  loops : s.phase.loops = false
  rounds : s.rounds = []
  sent : s.sent = []

/-- What the schedule keeps. -/
structure OnSchedule (interval t0 : ℕ) (reporterSsrc : UInt32) (s : State) : Prop where
  begun : s.begun = some t0
  loops : s.phase.loops = true
  nextTick : s.nextTick = t0 + (s.rounds.length + 1) * interval
  notEarly : t0 + s.rounds.length * interval ≤ s.now
  rounds : ∀ i round, s.rounds[i]? = some round → t0 + (i + 1) * interval ≤ round.time
  phase : s.phase.Timely interval t0 s.rounds.length s.now
  returned : s.phase = .returned → s.stop = true
  sent : s.sent ++ s.phase.pending.map (buildRrSdes reporterSsrc) =
    (s.rounds.filterMap Round.ssrc).map (buildRrSdes reporterSsrc)

variable {interval t0 : ℕ} {reporterSsrc : UInt32} {s t : State}

/-- The schedule begins when the thread has its socket. -/
theorem Unbegun.dialed (h : Unbegun s) : OnSchedule interval s.now reporterSsrc
    { s with begun := some s.now, nextTick := s.now + interval, phase := .checking } where
  begun := rfl
  loops := rfl
  nextTick := by simp [h.rounds]
  notEarly := by simp [h.rounds]
  rounds i round hround := by
    rw [h.rounds] at hround
    cases hround
  phase := trivial
  returned hreturned := by cases hreturned
  sent := by
    rw [h.rounds, h.sent]
    rfl

/-- The thread goes on without a round and without a report. -/
theorem OnSchedule.setPhase (h : OnSchedule interval t0 reporterSsrc s) {phase : Phase}
    (hloops : phase.loops = true) (htimely : phase.Timely interval t0 s.rounds.length s.now)
    (hreturned : phase = .returned → s.stop = true)
    (hpending : phase.pending = s.phase.pending) :
    OnSchedule interval t0 reporterSsrc { s with phase } where
  begun := h.begun
  loops := hloops
  nextTick := h.nextTick
  notEarly := h.notEarly
  rounds := h.rounds
  phase := htimely
  returned := hreturned
  sent := by
    rw [← h.sent, ← hpending]

theorem Phase.Timely.mono {phase : Phase} {rounds now later : ℕ} (h : now ≤ later)
    (htimely : phase.Timely interval t0 rounds now) :
    phase.Timely interval t0 rounds later := by
  cases phase with
  | due => exact Nat.le_trans htimely h
  | parked since => exact htimely
  | dialing | dialed | checking | looking | sending | returned | failed => trivial

/-- A round is past the instant that it was due at, and the next one is due an interval later. -/
theorem OnSchedule.round (h : OnSchedule interval t0 reporterSsrc s) (hphase : s.phase = .due) :
    OnSchedule interval t0 reporterSsrc { s with
      nextTick := s.nextTick + interval
      rounds := s.rounds ++ [⟨s.now, s.ssrc⟩]
      phase := s.ssrc.elim .checking .sending } := by
  have hdue : t0 + (s.rounds.length + 1) * interval ≤ s.now := by
    have htimely := h.phase
    rwa [hphase] at htimely
  have hlength : (s.rounds ++ [Round.mk s.now s.ssrc]).length = s.rounds.length + 1 :=
    List.length_append
  refine ⟨h.begun, ?_, ?_, ?_, fun i round hround ↦ ?_, ?_, fun hreturned ↦ ?_, ?_⟩
  · show (s.ssrc.elim Phase.checking Phase.sending).loops = true
    cases s.ssrc <;> rfl
  · show s.nextTick + interval = _
    rw [h.nextTick, hlength, Nat.add_assoc, ← Nat.succ_mul]
  · show t0 + (s.rounds ++ [Round.mk s.now s.ssrc]).length * interval ≤ s.now
    rwa [hlength]
  · rcases Nat.lt_or_ge i s.rounds.length with hi | hi
    · rw [List.getElem?_append_left hi] at hround
      exact h.rounds i round hround
    · rw [List.getElem?_append_right hi] at hround
      obtain ⟨hi', hround⟩ := List.getElem?_eq_some_iff.mp hround
      have hi : i = s.rounds.length := by
        rw [List.length_singleton] at hi'
        omega
      subst hi
      rw [List.getElem_singleton] at hround
      rwa [← hround]
  · show (s.ssrc.elim Phase.checking Phase.sending).Timely _ _ _ _
    cases s.ssrc <;> trivial
  · change s.ssrc.elim Phase.checking Phase.sending = .returned at hreturned
    cases hssrc : s.ssrc <;> rw [hssrc] at hreturned <;> cases hreturned
  · have hsent := h.sent
    rw [hphase] at hsent
    show s.sent ++ (s.ssrc.elim Phase.checking Phase.sending).pending.map _ = _
    rw [List.filterMap_append, List.map_append, ← hsent]
    cases s.ssrc <;> simp [Phase.pending]

theorem OnSchedule.report (h : OnSchedule interval t0 reporterSsrc s) {ssrc : UInt32}
    (hphase : s.phase = .sending ssrc) (sendErrors : ℕ) :
    OnSchedule interval t0 reporterSsrc { s with
      sent := s.sent ++ [buildRrSdes reporterSsrc ssrc]
      sendErrors
      phase := .checking } where
  begun := h.begun
  loops := rfl
  nextTick := h.nextTick
  notEarly := h.notEarly
  rounds := h.rounds
  phase := trivial
  returned h := by cases h
  sent := by
    rw [← h.sent, hphase]
    exact List.append_nil _

/-- What the thread does in one step of its loop, by the phase that it is in. -/
theorem OnSchedule.thread {ok : Bool} (h : OnSchedule interval t0 reporterSsrc s)
    (hstep : threadStep interval reporterSsrc ok s = some t) :
    OnSchedule interval t0 reporterSsrc t := by
  have hloops := h.loops
  cases hphase : s.phase with
  | dialing | dialed | failed =>
    rw [hphase] at hloops
    cases hloops
  | checking =>
    simp only [threadStep, hphase, Option.some.injEq] at hstep
    subst hstep
    refine h.setPhase ?_ ?_ (fun hreturned ↦ ?_) ?_
    · split_ifs <;> rfl
    · split_ifs <;> trivial
    · by_contra hstop
      rw [if_neg hstop] at hreturned
      cases hreturned
    · rw [hphase]
      split_ifs <;> rfl
  | looking =>
    simp only [threadStep, hphase, Option.some.injEq] at hstep
    subst hstep
    have hnext := h.nextTick
    by_cases hnow : s.nextTick ≤ s.now
    · rw [if_pos hnow]
      exact h.setPhase rfl (by show _ ≤ _; omega) (fun hreturned ↦ by cases hreturned)
        (by rw [hphase]; rfl)
    · rw [if_neg hnow]
      exact h.setPhase rfl ⟨h.notEarly, by omega⟩ (fun hreturned ↦ by cases hreturned)
        (by rw [hphase]; rfl)
  | parked since =>
    simp only [threadStep, hphase, Option.some.injEq] at hstep
    subst hstep
    exact h.setPhase rfl trivial (fun hreturned ↦ by cases hreturned) (by rw [hphase]; rfl)
  | due =>
    simp only [threadStep, hphase, Option.some.injEq] at hstep
    subst hstep
    exact h.round hphase
  | sending ssrc =>
    simp only [threadStep, hphase, Option.some.injEq] at hstep
    subst hstep
    exact h.report hphase _
  | returned =>
    simp only [threadStep, hphase] at hstep
    cases hstep

theorem OnSchedule.step {label : Label} (h : OnSchedule interval t0 reporterSsrc s)
    (hstep : step interval reporterSsrc s label = some t) :
    OnSchedule interval t0 reporterSsrc t := by
  cases label with
  | tick duration =>
    cases Option.some.inj hstep
    have hlater := Nat.le_add_right s.now duration
    exact ⟨h.begun, h.loops, h.nextTick, Nat.le_trans h.notEarly hlater, h.rounds,
      h.phase.mono hlater, h.returned, h.sent⟩
  | setStop =>
    cases Option.some.inj hstep
    exact ⟨h.begun, h.loops, h.nextTick, h.notEarly, h.rounds, h.phase, fun _ ↦ rfl, h.sent⟩
  | setSsrc ssrc =>
    cases Option.some.inj hstep
    exact ⟨h.begun, h.loops, h.nextTick, h.notEarly, h.rounds, h.phase, h.returned, h.sent⟩
  | thread ok => exact h.thread hstep

/-- What holds of the thread from its start on: it has no schedule yet, or keeps to it. -/
def Scheduled (interval : ℕ) (reporterSsrc : UInt32) (s : State) : Prop :=
  Unbegun s ∨ ∃ t0, OnSchedule interval t0 reporterSsrc s

theorem Unbegun.thread {ok : Bool} (h : Unbegun s)
    (hstep : threadStep interval reporterSsrc ok s = some t) :
    Scheduled interval reporterSsrc t := by
  have hloops := h.loops
  cases hphase : s.phase with
  | checking | looking | parked | due | sending | returned =>
    rw [hphase] at hloops
    cases hloops
  | dialing =>
    simp only [threadStep, hphase, Option.some.injEq] at hstep
    subst hstep
    refine Or.inl ⟨h.begun, ?_, h.rounds, h.sent⟩
    cases ok <;> rfl
  | dialed =>
    simp only [threadStep, hphase, Option.some.injEq] at hstep
    subst hstep
    exact Or.inr ⟨s.now, h.dialed⟩
  | failed =>
    simp only [threadStep, hphase] at hstep
    cases hstep

theorem Scheduled.step {label : Label} (h : Scheduled interval reporterSsrc s)
    (hstep : step interval reporterSsrc s label = some t) :
    Scheduled interval reporterSsrc t := by
  rcases h with hunbegun | ⟨t0, hschedule⟩
  · cases label with
    | tick duration | setStop | setSsrc ssrc =>
      cases Option.some.inj hstep
      exact Or.inl ⟨hunbegun.begun, hunbegun.loops, hunbegun.rounds, hunbegun.sent⟩
    | thread ok => exact hunbegun.thread hstep
  · exact Or.inr ⟨t0, hschedule.step hstep⟩

/-! ### The end of a session -/

/-- The steps that the thread takes at most before it returns, once the flag is set. -/
def Phase.stepsLeft : Phase → ℕ
  | returned | failed => 0
  | checking => 1
  | parked _ | sending _ | dialed => 2
  | due | dialing => 3
  | looking => 4

/-- The rounds that are still to come, once the flag is set. -/
def Phase.roundsLeft : Phase → ℕ
  | looking | due => 1
  | _ => 0

/-- The reports that are still to be sent, once the flag is set. -/
def Phase.reportsLeft : Phase → ℕ
  | looking | due | sending _ => 1
  | _ => 0

/-- From one state of a stopped thread to a later one, after a number of its steps. -/
structure Stopping (s t : State) (steps : ℕ) : Prop where
  stop : t.stop = true
  steps : steps + t.phase.stepsLeft ≤ s.phase.stepsLeft
  rounds : t.rounds.length + t.phase.roundsLeft ≤ s.rounds.length + s.phase.roundsLeft
  reports : t.sent.length + t.phase.reportsLeft ≤ s.sent.length + s.phase.reportsLeft

theorem Stopping.trans {u : State} {m n : ℕ} (h : Stopping s t m) (h' : Stopping t u n) :
    Stopping s u (m + n) where
  stop := h'.stop
  steps := by
    have := h.steps
    have := h'.steps
    omega
  rounds := Nat.le_trans h'.rounds h.rounds
  reports := Nat.le_trans h'.reports h.reports

theorem Stopping.setPhase (hstop : s.stop = true) {phase : Phase}
    (hsteps : 1 + phase.stepsLeft ≤ s.phase.stepsLeft)
    (hrounds : phase.roundsLeft ≤ s.phase.roundsLeft)
    (hreports : phase.reportsLeft ≤ s.phase.reportsLeft) : Stopping s { s with phase } 1 where
  stop := hstop
  steps := hsteps
  rounds := Nat.add_le_add_left hrounds _
  reports := Nat.add_le_add_left hreports _

theorem stopping_thread {ok : Bool} (hstop : s.stop = true)
    (hstep : threadStep interval reporterSsrc ok s = some t) : Stopping s t 1 := by
  cases hphase : s.phase with
  | dialing =>
    simp only [threadStep, hphase, Option.some.injEq] at hstep
    subst hstep
    refine Stopping.setPhase hstop ?_ ?_ ?_ <;> (rw [hphase]; cases ok <;> decide)
  | dialed =>
    simp only [threadStep, hphase, Option.some.injEq] at hstep
    subst hstep
    refine ⟨hstop, ?_, ?_, ?_⟩ <;> rw [hphase]
    · exact Nat.le_refl 2
    · exact Nat.le_refl _
    · exact Nat.le_refl _
  | checking =>
    simp only [threadStep, hphase, Option.some.injEq] at hstep
    subst hstep
    rw [if_pos hstop]
    refine Stopping.setPhase hstop ?_ ?_ ?_ <;> (rw [hphase]; decide)
  | looking =>
    simp only [threadStep, hphase, Option.some.injEq] at hstep
    subst hstep
    refine Stopping.setPhase hstop ?_ ?_ ?_ <;> (rw [hphase]; split_ifs)
    · show 1 + 3 ≤ 4
      decide
    · show 1 + 2 ≤ 4
      decide
    · exact Nat.le_refl 1
    · exact Nat.le_succ 0
    · exact Nat.le_refl 1
    · exact Nat.le_succ 0
  | parked since =>
    simp only [threadStep, hphase, Option.some.injEq] at hstep
    subst hstep
    refine Stopping.setPhase hstop ?_ ?_ ?_ <;> rw [hphase]
    · exact Nat.le_refl 2
    · exact Nat.le_refl 0
    · exact Nat.le_refl 0
  | due =>
    simp only [threadStep, hphase, Option.some.injEq] at hstep
    subst hstep
    have hlength : (s.rounds ++ [Round.mk s.now s.ssrc]).length = s.rounds.length + 1 :=
      List.length_append
    refine ⟨hstop, ?_, ?_, ?_⟩ <;> rw [hphase]
    · show 1 + (s.ssrc.elim Phase.checking Phase.sending).stepsLeft ≤ 3
      cases s.ssrc
      · exact Nat.le_succ 2
      · exact Nat.le_refl 3
    · show (s.rounds ++ [Round.mk s.now s.ssrc]).length + _ ≤ _
      rw [hlength]
      cases s.ssrc <;> exact Nat.le_refl _
    · show s.sent.length + (s.ssrc.elim Phase.checking Phase.sending).reportsLeft ≤ _
      cases s.ssrc
      · exact Nat.le_succ _
      · exact Nat.le_refl _
  | sending ssrc =>
    simp only [threadStep, hphase, Option.some.injEq] at hstep
    subst hstep
    refine ⟨hstop, ?_, ?_, ?_⟩ <;> rw [hphase]
    · exact Nat.le_refl 2
    · exact Nat.le_refl _
    · rw [List.length_append]
      exact Nat.le_refl _
  | returned | failed =>
    simp only [threadStep, hphase] at hstep
    cases hstep

theorem stopping_step {label : Label} (hstop : s.stop = true)
    (hstep : step interval reporterSsrc s label = some t) :
    Stopping s t ([label].countP Label.isThread) := by
  cases label with
  | tick duration | setStop | setSsrc ssrc =>
    cases Option.some.inj hstep
    refine ⟨?_, Nat.le_of_eq (Nat.zero_add _), Nat.le_refl _, Nat.le_refl _⟩
    first | exact hstop | rfl
  | thread ok => exact stopping_thread hstop hstep

theorem stopping_exec {labels : List Label} (hstop : s.stop = true)
    (hrun : Transition.exec (step interval reporterSsrc) s labels = some t) :
    Stopping s t (labels.countP Label.isThread) := by
  induction labels generalizing s with
  | nil =>
    cases Option.some.inj hrun
    exact ⟨hstop, Nat.le_of_eq (Nat.zero_add _), Nat.le_refl _, Nat.le_refl _⟩
  | cons label labels ih =>
    obtain ⟨u, hfirst, hrest⟩ := Transition.exec_cons_eq_some.mp hrun
    have hstep := stopping_step hstop hfirst
    have htrans := hstep.trans (ih hstep.stop hrest)
    rwa [← List.countP_append] at htrans

/-- A thread that is not over can go on. -/
theorem exists_threadStep (h : s.phase.over = false) (ok : Bool) :
    ∃ t, step interval reporterSsrc s (.thread ok) = some t := by
  show ∃ t, threadStep interval reporterSsrc ok s = some t
  unfold threadStep
  cases hphase : s.phase with
  | returned | failed =>
    rw [hphase] at h
    cases h
  | dialing | dialed | checking | looking | parked | due | sending => exact ⟨_, rfl⟩

/-- What the door station reads in the report about a source. -/
def reportOn (reporterSsrc streamSsrc : UInt32) : List Report :=
  [.receiver reporterSsrc.toNat [(streamSsrc.toNat, List.replicate 20 0)],
    .source reporterSsrc.toNat [(1, RTCP_CNAME)]]

/-- The thread in every interleaving with the session and the clock. As long as it has no socket, and
for good if the dial fails, nothing is sent. From the instant at which it has one the rounds are
counted, and no round comes before its instant. A thread that sleeps has had one round for each
interval that has passed. The datagrams, with the one that is about to be sent, read as one report
on each source that a round found, in the order of the rounds. Behind the stop flag there is at most
one more round and one more report, the thread is over within four steps, and but for a dial that
fails it returns for no other reason. -/
theorem keepalive_schedule {now : ℕ} {stop : Bool} {ssrc : Option UInt32}
    (h : Transition.Reachable (step interval reporterSsrc) (.start now stop ssrc) s) :
    (s.begun = none → s.rounds = [] ∧ s.sent = []) ∧
    (s.begun = none ↔ s.phase = .dialing ∨ s.phase = .dialed ∨ s.phase = .failed) ∧
    (∀ t0, s.begun = some t0 →
      (∀ i round, s.rounds[i]? = some round → t0 + (i + 1) * interval ≤ round.time) ∧
      ∀ since, s.phase = .parked since →
        t0 + s.rounds.length * interval ≤ since ∧ since < t0 + (s.rounds.length + 1) * interval) ∧
    (s.sent ++ s.phase.pending.map (buildRrSdes reporterSsrc)).map readCompound =
      (s.rounds.filterMap Round.ssrc).map (fun ssrc ↦ some (reportOn reporterSsrc ssrc)) ∧
    (s.stop = false → s.phase ≠ .returned) ∧
    (s.stop = true → ∀ labels t,
      Transition.exec (step interval reporterSsrc) s labels = some t →
      t.rounds.length ≤ s.rounds.length + 1 ∧ t.sent.length ≤ s.sent.length + 1 ∧
      labels.countP Label.isThread ≤ 4 ∧
      (t.phase ≠ .returned → t.phase ≠ .failed → ∀ ok,
        ∃ u, step interval reporterSsrc t (.thread ok) = some u)) := by
  have hstart : Scheduled interval reporterSsrc (.start now stop ssrc) :=
    Or.inl ⟨rfl, rfl, rfl, rfl⟩
  have hscheduled : Scheduled interval reporterSsrc s := h.invariant hstart Scheduled.step
  have hstopped : s.stop = true → ∀ labels t,
      Transition.exec (step interval reporterSsrc) s labels = some t →
      t.rounds.length ≤ s.rounds.length + 1 ∧ t.sent.length ≤ s.sent.length + 1 ∧
      labels.countP Label.isThread ≤ 4 ∧
      (t.phase ≠ .returned → t.phase ≠ .failed → ∀ ok,
        ∃ u, step interval reporterSsrc t (.thread ok) = some u) := by
    intro hstop labels t hrun
    have hstopping := stopping_exec hstop hrun
    have hsteps : s.phase.stepsLeft ≤ 4 := by
      cases s.phase <;> simp [Phase.stepsLeft]
    have hrounds : s.phase.roundsLeft ≤ 1 := by
      cases s.phase <;> simp [Phase.roundsLeft]
    have hreports : s.phase.reportsLeft ≤ 1 := by
      cases s.phase <;> simp [Phase.reportsLeft]
    have hsteps' := hstopping.steps
    have hrounds' := hstopping.rounds
    have hreports' := hstopping.reports
    refine ⟨by omega, by omega, by omega, fun hreturned hfailed ok ↦ exists_threadStep ?_ ok⟩
    cases hphase : t.phase with
    | returned => exact absurd hphase hreturned
    | failed => exact absurd hphase hfailed
    | dialing | dialed | checking | looking | parked | due | sending => rfl
  rcases hscheduled with hunbegun | ⟨t0, hschedule⟩
  · have hphase : s.phase = .dialing ∨ s.phase = .dialed ∨ s.phase = .failed := by
      have hloops := hunbegun.loops
      cases hphase : s.phase with
      | dialing => exact Or.inl rfl
      | dialed => exact Or.inr (Or.inl rfl)
      | failed => exact Or.inr (Or.inr rfl)
      | checking | looking | parked | due | sending | returned =>
        rw [hphase] at hloops
        cases hloops
    refine ⟨fun _ ↦ ⟨hunbegun.rounds, hunbegun.sent⟩, iff_of_true hunbegun.begun hphase,
      fun t0 hbegun ↦ ?_, ?_, fun _ hreturned ↦ ?_, hstopped⟩
    · rw [hunbegun.begun] at hbegun
      cases hbegun
    · rw [hunbegun.rounds, hunbegun.sent]
      rcases hphase with hphase | hphase | hphase <;> rw [hphase] <;> rfl
    · have hloops := hunbegun.loops
      rw [hreturned] at hloops
      cases hloops
  · refine ⟨fun hnone ↦ ?_, iff_of_false (fun hnone ↦ ?_) ?_, fun t1 hbegun ↦ ?_, ?_,
      fun hstop hreturned ↦ ?_, hstopped⟩
    · rw [hschedule.begun] at hnone
      cases hnone
    · rw [hschedule.begun] at hnone
      cases hnone
    · have hloops := hschedule.loops
      rintro (hphase | hphase | hphase) <;> rw [hphase] at hloops <;> cases hloops
    · rw [hschedule.begun] at hbegun
      obtain rfl := Option.some.inj hbegun
      refine ⟨hschedule.rounds, fun since hphase ↦ ?_⟩
      have htimely := hschedule.phase
      rwa [hphase] at htimely
    · rw [hschedule.sent, List.map_map]
      exact List.map_congr_left fun ssrc _ ↦ readCompound_buildRrSdes reporterSsrc ssrc
    · have hset := hschedule.returned hreturned
      rw [hstop] at hset
      cases hset

/-- A session whose source comes up between the first two rounds, and which ends behind them. -/
def twoRounds : State where
  now := 14
  stop := true
  ssrc := some 7
  phase := .checking
  begun := some 3
  nextTick := 18
  rounds := [⟨8, none⟩, ⟨14, some 7⟩]
  sent := [buildRrSdes 9 7]
  sendErrors := 1

theorem keepalive_schedule_twoRounds :
    [buildRrSdes 9 7].map readCompound = [some (reportOn 9 7)] ∧
    ∀ labels t, Transition.exec (step 5 9) twoRounds labels = some t →
      t.sent.length ≤ 2 ∧ labels.countP Label.isThread ≤ 4 := by
  have hreach : Transition.Reachable (step 5 9) (.start 0 false none) twoRounds :=
    ⟨[.thread true, .tick 3, .thread true, .thread true, .thread true, .tick 5, .thread true,
      .thread true, .thread true, .thread true, .setSsrc (some 7), .tick 6, .thread true,
      .thread true, .thread true, .thread false, .setStop], by decide⟩
  obtain ⟨-, -, -, hreports, -, hstop⟩ := keepalive_schedule hreach
  refine ⟨hreports, fun labels t hrun ↦ ?_⟩
  obtain ⟨-, hsent, hsteps, -⟩ := hstop rfl labels t hrun
  exact ⟨hsent, hsteps⟩

end DoorAccess.Video.Rtcp
