import DoorAccess.Config.Load
import DoorAccess.Listen.NumberQuery
import DoorAccess.SelfUnlock.Ring
import DoorAccess.Video.Receiver

/-!
# What the configuration is used for

The URIs of the configuration are parsed once more by each of their consumers, and a consumer whose
parse fails is switched off: the self-unlock consumer, the callback for number queries, the caller
of the video sessions, and the table of the door stations. `consumers_of_loadConfig` says that none
of them is switched off on a configuration that has been loaded, and that looking up or comparing
the text of an address is looking up or comparing the address.
-/

set_option autoImplicit false
set_option relaxedAutoImplicit false

namespace DoorAccess

open Codec Listen6672 Listen18022 SelfUnlock Video

namespace Config

/-! ### The consumers -/

/-- One turn of the loop of `parse_stations_to_ip_map`. -/
def insertStation (m : Str → Option Str) (st : Station) : Str → Option Str :=
  match parseUri (sipStr st.sip) with
  | .ok (_, ip, _) => Function.update m ip (some (sipStr st.sip))
  | .error _ => m

/-- `parse_stations_to_ip_map`: the URI of a door station by the text of its address. -/
def parseStationsToIpMap (cfg : Config) : Str → Option Str :=
  cfg.stations.foldl insertStation fun _ ↦ none

/-- `SelfUnlockDeps::try_new`, as far as it is resolved at construction. -/
def tryNew (cfg : Config) (outdoorByIp : Str → Option Str) : Option SelfUnlockDeps :=
  match parseUri (sipStr cfg.sip) with
  | .error _ => none
  | .ok (name, ip, _) =>
    match encodeBcd name with
    | .error _ => none
    | .ok calleeBcd =>
      match parseIpv4 ip with
      | none => none
      | some indoorIp => some ⟨outdoorByIp, calleeBcd, indoorIp, sipStr cfg.sip⟩

/-- The errors of `parse_caller`. -/
inductive CallerError
  | uri (err : UriError)
  | bcd (err : BcdError)
  deriving DecidableEq

structure Caller where
  name : Str
  bcdName : Octets
  deriving DecidableEq

def parseCaller (uri : Str) : Except CallerError Caller :=
  match parseUri uri with
  | .error err => .error (.uri err)
  | .ok (name, _, _) =>
    match encodeBcd name with
    | .error err => .error (.bcd err)
    | .ok bcd => .ok ⟨name, bcd⟩

/-- What the callback for number queries does with a frame. -/
inductive QueryAction
  | notAddressed
  | noLocalIp
  /-- The response is sent to the source of the query. -/
  | replied (to_ : Octets) (resp : List UInt8)
  deriving DecidableEq

/-- The local address, which `get_iface_ip` finds for the interface. -/
def ourIp (getIfaceIp : Text → Option Octets) (cfg : Config) : Option Octets :=
  if cfg.iface = [] then none else getIfaceIp cfg.iface

/-- The callback that `build_number_query_callback` returns, for the number and the address that it
has taken over. -/
def numberQueryCallback (myNum : Str) (ourIp : Option Octets) : FrameCallback QueryAction :=
  fun srcIp frame ↦
    if decodeBcd frame.targetBcd ≠ myNum then .notAddressed
    else
      match ourIp with
      | none => .noLocalIp
      | some ip => .replied srcIp (buildNumberQueryResponse frame ip)

def buildNumberQueryCallback (getIfaceIp : Text → Option Octets) (cfg : Config) :
    Option (FrameCallback QueryAction) :=
  match parseUri (sipStr cfg.sip) with
  | .error _ => none
  | .ok (myNum, _, _) => some (numberQueryCallback myNum (ourIp getIfaceIp cfg))

/-! ### URIs of an accepted configuration -/

/-- The address in a URI. -/
def addressOf (uri : Str) : Option Octets :=
  match parseUri uri with
  | .ok (_, ip, _) => parseIpv4 ip
  | .error _ => none

theorem addressOf_of_parseUri {uri name ip : Str} {port : UInt16}
    (h : parseUri uri = .ok (name, ip, port)) : addressOf uri = parseIpv4 ip := by
  rw [addressOf, h]

/-- What the validator lets through can be parsed, its name is a number and its address is one. -/
theorem exists_of_validateUri {uri : Str} (h : validateUri uri = .ok ()) :
    ∃ name ip port bcd octets, parseUri uri = .ok (name, ip, port) ∧ encodeBcd name = .ok bcd ∧
      parseIpv4 ip = some octets ∧ ipv4Str octets = ip := by
  obtain ⟨⟨name, ip, port⟩, hscan, -⟩ := Fallible.bind_eq_ok.mp h
  obtain ⟨hparse, -, -, bcd, hbcd⟩ := parseUri_of_scanUri hscan
  obtain ⟨octets, hoctets, htext⟩ := ipv4Str_of_parseUri hparse
  exact ⟨name, ip, UInt16.ofNat port, bcd, octets, hparse, hbcd, hoctets, htext⟩

theorem validateUri_ne_overflow (uri : Str) : validateUri uri ≠ .error .overflow := by
  rw [validateUri]
  cases hscan : scanUri uri with
  | ok scanned => exact (nomatch ·)
  | error err => exact fun h ↦ scanUri_ne_overflow uri (hscan.trans (Except.error.inj h ▸ rfl))

/-! ### The table of the door stations -/

/-- The door station with an address, the last one if there are several. -/
def stationAt (stations : List Station) (address : Octets) : Option Str :=
  ((stations.filter fun st ↦ addressOf (sipStr st.sip) = some address).getLast?).map
    fun st ↦ sipStr st.sip

theorem insertStation_ipv4Str (m : Str → Option Str) (st : Station) (address : Octets) :
    insertStation m st (ipv4Str address) =
      if addressOf (sipStr st.sip) = some address then some (sipStr st.sip)
      else m (ipv4Str address) := by
  unfold insertStation addressOf
  cases hparse : parseUri (sipStr st.sip) with
  | error err => rfl
  | ok parts =>
    obtain ⟨octets, hoctets, htext⟩ := ipv4Str_of_parseUri hparse
    by_cases heq : octets = address
    · subst heq
      simp only [hoctets, htext, Function.update_self, if_true]
    · have hne : ipv4Str address ≠ parts.2.1 := fun h ↦
        heq (ipv4Str_injective (htext.trans h.symm))
      simp only [hoctets, Option.some.injEq, if_neg heq, Function.update_of_ne hne]

theorem stationAt_concat (stations : List Station) (st : Station) (address : Octets) :
    stationAt (stations ++ [st]) address =
      if addressOf (sipStr st.sip) = some address then some (sipStr st.sip)
      else stationAt stations address := by
  rw [stationAt, List.filter_append, List.filter_cons, List.filter_nil]
  by_cases h : addressOf (sipStr st.sip) = some address
  · rw [if_pos (by simpa using h), if_pos h, List.getLast?_concat]
    rfl
  · rw [if_neg (by simpa using h), if_neg h, List.append_nil]
    rfl

/-- The table by texts is the table by addresses. -/
theorem parseStationsToIpMap_ipv4Str (cfg : Config) (address : Octets) :
    parseStationsToIpMap cfg (ipv4Str address) = stationAt cfg.stations address := by
  have hall (stations : List Station) :
      stations.foldl insertStation (fun _ ↦ none) (ipv4Str address) =
        stationAt stations address := by
    induction stations using List.reverseRecOn with
    | nil => rfl
    | append_singleton stations st ih =>
      rw [List.foldl_concat, insertStation_ipv4Str, ih, stationAt_concat]
  exact hall cfg.stations

theorem stationAt_isSome_iff (stations : List Station) (address : Octets) :
    (stationAt stations address).isSome ↔
      ∃ st ∈ stations, addressOf (sipStr st.sip) = some address := by
  rw [stationAt, Option.isSome_map, List.getLast?_isSome, ne_eq, List.filter_eq_nil_iff]
  simp

/-! ### The consumers -/

theorem tryNew_of_validateUri {cfg : Config} (h : validateUri (sipStr cfg.sip) = .ok ())
    (outdoorByIp : Str → Option Str) : ∃ deps, tryNew cfg outdoorByIp = some deps ∧
      deps.outdoorByIp = outdoorByIp ∧ addressOf (sipStr cfg.sip) = some deps.indoorIp := by
  obtain ⟨name, ip, port, bcd, octets, hparse, hbcd, hoctets, -⟩ := exists_of_validateUri h
  refine ⟨⟨outdoorByIp, bcd, octets, sipStr cfg.sip⟩, ?_, rfl,
    (addressOf_of_parseUri hparse).trans hoctets⟩
  simp only [tryNew, hparse, hbcd, hoctets]

theorem parseCaller_of_validateUri {uri : Str} (h : validateUri uri = .ok ()) :
    ∃ caller, parseCaller uri = .ok caller := by
  obtain ⟨name, ip, port, bcd, octets, hparse, hbcd, -, -⟩ := exists_of_validateUri h
  exact ⟨⟨name, bcd⟩, by simp only [parseCaller, hparse, hbcd]⟩

theorem buildNumberQueryCallback_of_validateUri {cfg : Config}
    (h : validateUri (sipStr cfg.sip) = .ok ()) (getIfaceIp : Text → Option Octets) :
    (buildNumberQueryCallback getIfaceIp cfg).isSome := by
  obtain ⟨name, ip, port, bcd, octets, hparse, -, -, -⟩ := exists_of_validateUri h
  rw [buildNumberQueryCallback, hparse]
  rfl

/-- The filter compares addresses. -/
theorem makeFilter_iff {cfg : Config} {deps : SelfUnlockDeps}
    (h : deps.outdoorByIp = parseStationsToIpMap cfg) (frame : DetectedFrame) :
    makeFilter deps frame = true ↔ frame.req = 704 ∧ frame.dstIp = deps.indoorIp ∧
      ∃ st ∈ cfg.stations, addressOf (sipStr st.sip) = some frame.srcIp := by
  rw [makeFilter, h, parseStationsToIpMap_ipv4Str, ← stationAt_isSome_iff]
  split_ifs with hreq hdst
  · exact iff_of_false not_false fun h ↦ hreq h.1
  · exact iff_of_false not_false fun h ↦ hdst h.2.1
  · exact ⟨fun hsome ↦ ⟨not_not.mp hreq, not_not.mp hdst, hsome⟩, fun h ↦ h.2.2⟩

/-- The receiver compares addresses. -/
theorem acceptedPacket_ipv4Str {ip : Str} {octets : Octets} (h : ipv4Str octets = ip)
    (src : Octets) (datagram : List UInt8) :
    acceptedPacket ip (ipv4Str src) datagram =
      if src = octets then (parseRtp (datagram.take RECV_BUF_LEN)).toOption else none := by
  have hne : ip ≠ [] := by
    rintro rfl
    simp [ipv4Str] at h
  have hsame : ipv4Str src = ip ↔ src = octets := by
    rw [← h]
    exact ipv4Str_injective.eq_iff
  unfold acceptedPacket
  by_cases hsrc : src = octets
  · rw [if_neg fun hforeign ↦ hforeign.2 (hsame.mpr hsrc), if_pos hsrc]
    cases parseRtp (datagram.take RECV_BUF_LEN) with
    | ok pkt => rfl
    | error err => rfl
  · rw [if_pos ⟨hne, fun htext ↦ hsrc (hsame.mp htext)⟩, if_neg hsrc]

theorem parseOutdoorUri_of_validateUri {uri : Str} (h : validateUri uri = .ok ()) :
    ∃ target, parseOutdoorUri uri = .ok target := by
  obtain ⟨name, ip, port, bcd, octets, hparse, hbcd, -, -⟩ := exists_of_validateUri h
  exact ⟨(bcd, ip, port), by simp only [parseOutdoorUri, hparse, hbcd]⟩

/-- None of the consumers is switched off because a URI does not parse. -/
structure ConsumersOn (cfg : Config) : Prop where
  selfUnlock : ∃ deps, tryNew cfg (parseStationsToIpMap cfg) = some deps
  outdoor : ∀ st ∈ cfg.stations, ∃ target, parseOutdoorUri (sipStr st.sip) = .ok target
  numberQuery : ∀ getIfaceIp, (buildNumberQueryCallback getIfaceIp cfg).isSome
  caller : ∃ caller, parseCaller (sipStr cfg.sip) = .ok caller
  stations : ∀ st ∈ cfg.stations, ∃ name ip port,
    parseUri (sipStr st.sip) = .ok (name, ip, port) ∧ (parseStationsToIpMap cfg ip).isSome

/-- The self-unlock consumer, which looks up the texts of addresses, looks up addresses. -/
structure ByAddress (cfg : Config) (deps : SelfUnlockDeps) : Prop where
  makeFilter : ∀ frame, makeFilter deps frame = true ↔
    frame.req = 704 ∧ addressOf (sipStr cfg.sip) = some frame.dstIp ∧
      ∃ st ∈ cfg.stations, addressOf (sipStr st.sip) = some frame.srcIp
  handleRing : ∀ window last frame ringAt autoUnlock,
    handleRing deps window last frame ringAt autoUnlock =
      handleRing { deps with outdoorByIp := fun _ ↦ stationAt cfg.stations frame.srcIp } window last
        frame ringAt autoUnlock

theorem consumersOn_of_accepted {cfg : Config} (h : Accepted cfg) : ConsumersOn cfg where
  selfUnlock :=
    have ⟨deps, hdeps, _⟩ := tryNew_of_validateUri h.sip (parseStationsToIpMap cfg)
    ⟨deps, hdeps⟩
  outdoor st hst := parseOutdoorUri_of_validateUri (h.stations st hst)
  numberQuery := buildNumberQueryCallback_of_validateUri h.sip
  caller := parseCaller_of_validateUri h.sip
  stations st hst := by
    obtain ⟨name, ip, port, bcd, octets, hparse, -, hoctets, htext⟩ :=
      exists_of_validateUri (h.stations st hst)
    refine ⟨name, ip, port, hparse, ?_⟩
    rw [← htext, parseStationsToIpMap_ipv4Str, stationAt_isSome_iff]
    exact ⟨st, hst, (addressOf_of_parseUri hparse).trans hoctets⟩

theorem byAddress_of_accepted {cfg : Config} (h : Accepted cfg) {deps : SelfUnlockDeps}
    (hdeps : tryNew cfg (parseStationsToIpMap cfg) = some deps) : ByAddress cfg deps := by
  obtain ⟨deps', hdeps', hmap, hindoor⟩ := tryNew_of_validateUri h.sip (parseStationsToIpMap cfg)
  obtain rfl := Option.some.inj (hdeps'.symm.trans hdeps)
  constructor
  · intro frame
    rw [makeFilter_iff hmap, hindoor, Option.some.injEq, eq_comm (a := frame.dstIp)]
  · intro window last frame ringAt autoUnlock
    simp only [handleRing, hmap, parseStationsToIpMap_ipv4Str]
    rfl

/-- The validator and the parser of URIs agree, no counter of the validator overflows, the address
that the parser returns is the text of an address, and so every consumer of a configuration that has
been loaded works and compares addresses when it compares their texts. -/
theorem consumers_of_loadConfig :
    (∀ uri, validateUri uri = .ok () → ∃ name ip port bcd, scanUri uri = .ok (name, ip, port) ∧
      parseUri uri = .ok (name, ip, UInt16.ofNat port) ∧ 1 ≤ port ∧ port ≤ 65535 ∧
      encodeBcd name = .ok bcd) ∧
    (∀ uri, validateUri uri ≠ .error .overflow) ∧
    (∀ uri name ip port, parseUri uri = .ok (name, ip, port) →
      ∃ octets, parseIpv4 ip = some octets ∧ ipv4Str octets = ip ∧
        ∀ src datagram, acceptedPacket ip (ipv4Str src) datagram =
          if src = octets then (parseRtp (datagram.take RECV_BUF_LEN)).toOption else none) ∧
    ∀ path read cfg, loadConfig path read = .ok cfg →
      ConsumersOn cfg ∧
        ∀ deps, tryNew cfg (parseStationsToIpMap cfg) = some deps → ByAddress cfg deps := by
  refine ⟨?_, validateUri_ne_overflow, ?_, ?_⟩
  · intro uri h
    obtain ⟨⟨name, ip, port⟩, hscan, -⟩ := Fallible.bind_eq_ok.mp h
    obtain ⟨hparse, hlow, hhigh, bcd, hbcd⟩ := parseUri_of_scanUri hscan
    exact ⟨name, ip, port, bcd, hscan, hparse, hlow, hhigh, hbcd⟩
  · intro uri name ip port h
    obtain ⟨octets, hoctets, htext⟩ := ipv4Str_of_parseUri h
    exact ⟨octets, hoctets, htext, acceptedPacket_ipv4Str htext⟩
  · intro path read cfg h
    have haccepted := accepted_of_loadConfig h
    exact ⟨consumersOn_of_accepted haccepted,
      fun deps hdeps ↦ byAddress_of_accepted haccepted hdeps⟩

/-- A monitor with one door station. -/
def oneStationConfig : List UInt8 :=
  ascii "sip=06020001@172.16.106.152:18022\n[station \"1\"]\nsip=06021103@172.16.106.91:18022\n"

theorem consumersOn_oneStationConfig :
    ∃ cfg, loadConfig "config.ini" (.ok oneStationConfig) = .ok cfg ∧ ConsumersOn cfg := by
  have hloads : (loadConfig "config.ini" (.ok oneStationConfig)).toOption.isSome = true := by
    decide +kernel
  cases hload : loadConfig "config.ini" (.ok oneStationConfig) with
  | error err =>
    rw [hload] at hloads
    exact absurd hloads Bool.false_ne_true
  | ok cfg => exact ⟨cfg, rfl, (consumers_of_loadConfig.2.2.2 _ _ cfg hload).1⟩

end Config

end DoorAccess
