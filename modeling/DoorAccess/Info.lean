import DoorAccess.Config.Load
import DoorAccess.Httpx.Json

/-!
# The self-description of the daemon

`info.rs` shows Home Assistant what the daemon is and which door stations it knows. The text of
`GET /info` is one JSON object with the members of `SelfDesc` in a fixed order, and everything that
goes into it can be read out of it again (`renderJson_build`).
-/

set_option autoImplicit false
set_option relaxedAutoImplicit false

namespace DoorAccess.Info

open Httpx Json

/-- A Rust string, as its characters. -/
abbrev Text := List Char

def SUPPORTED_BRAND : Text := "anjubao".toList

structure StationDesc where
  sip : Text
  deriving DecidableEq

structure VideoDesc where
  forward : Bool
  forwardSupported : Bool
  protocol : Text
  format : Text
  cachePath : Text
  deriving DecidableEq

structure SelfDesc where
  version : Text
  pid : ℕ
  brand : Text
  daemon : Text
  monitor : Text
  stations : List StationDesc
  video : VideoDesc
  hassReachable : Option Bool
  deriving DecidableEq

def safeOrDefault (v default : Text) : Text :=
  if v = [] then default else v

/-- `build`, given the process id and what a dial to an address comes to. -/
def build (pid : ℕ) (probeDial : Text → ℤ → Bool) (cfg : Option Config) (version : Text)
    (probeHa : Bool) : SelfDesc :=
  let sd : SelfDesc := {
    version := safeOrDefault version "dev".toList
    pid
    brand := SUPPORTED_BRAND
    daemon := "dooraccess-go".toList
    monitor := []
    stations := []
    video := ⟨false, false, [], [], []⟩
    hassReachable := none }
  match cfg with
  | none => sd
  | some cfg => { sd with
    monitor := cfg.sip
    stations := cfg.stations.map fun s ↦ ⟨s.sip⟩
    video := {
      forward := cfg.video.forward
      forwardSupported := cfg.video.forward
      protocol := "anjubao-h264".toList
      format := cfg.video.format
      cachePath := cfg.video.cachePath }
    hassReachable :=
      if probeHa ∧ cfg.hass.ipaddr ≠ [] then some (probeDial cfg.hass.ipaddr cfg.hass.port)
      else none }

/-- The members of the object that `render_json` writes. -/
def fields (sd : SelfDesc) : List (Text × JsonValue) :=
  [("daemon".toList, .string sd.daemon), ("version".toList, .string sd.version),
    ("brand".toList, .string sd.brand), ("monitor".toList, .string sd.monitor),
    ("outdoor_stations".toList,
      .array (sd.stations.map fun s ↦ .struct [("sip".toList, .string s.sip)])),
    ("video".toList, .struct [("forward".toList, .bool sd.video.forward),
      ("forward_supported".toList, .bool sd.video.forwardSupported),
      ("protocol".toList, .string sd.video.protocol), ("format".toList, .string sd.video.format),
      ("cache_path".toList, .string sd.video.cachePath)])]

def renderJson (sd : SelfDesc) : List UInt8 :=
  encodeStruct (fields sd) .ENCODE

theorem encodeStruct_eq (fields : List (Text × JsonValue)) (opts : JsonOptions) :
    encodeStruct fields opts = encodeValue (.struct fields) opts := by
  rw [encodeValue, writeValue, encodeStruct]

theorem faithful_renderJson (sd : SelfDesc) :
    Faithful .ENCODE (.struct (fields sd)) (renderJson sd) := by
  rw [renderJson, encodeStruct_eq]
  exact faithful_encodeValue _ _

/-- The value of one door station in the list. -/
def stationValue (s : StationDesc) : Value :=
  .object [("sip".toList, .string s.sip)]

theorem denoteItems_stations (stations : List StationDesc) :
    JsonValue.denoteItems (stations.map fun s ↦ .struct [("sip".toList, .string s.sip)]) =
      stations.map stationValue := by
  induction stations with
  | nil => rfl
  | cons s stations ih =>
    rw [List.map_cons, List.map_cons, JsonValue.denoteItems, ih]
    rfl

/-- The value that the text of `GET /info` stands for. -/
theorem denote_fields (sd : SelfDesc) :
    (JsonValue.struct (fields sd)).denote = .object [("daemon".toList, .string sd.daemon),
      ("version".toList, .string sd.version), ("brand".toList, .string sd.brand),
      ("monitor".toList, .string sd.monitor),
      ("outdoor_stations".toList, .array (sd.stations.map stationValue)),
      ("video".toList, .object [("forward".toList, .bool sd.video.forward),
        ("forward_supported".toList, .bool sd.video.forwardSupported),
        ("protocol".toList, .string sd.video.protocol),
        ("format".toList, .string sd.video.format),
        ("cache_path".toList, .string sd.video.cachePath)])] := by
  rw [fields]
  simp only [JsonValue.denote, JsonValue.denoteFields, denoteItems_stations]

theorem stationValue_injective : Function.Injective stationValue := by
  intro a b h
  simp only [stationValue, JsonTree.object.injEq, List.cons.injEq, Prod.mk.injEq, true_and,
    JsonTree.string.injEq, and_true] at h
  cases a
  cases b
  exact congrArg StationDesc.mk h

/-- Two descriptions with the same text differ in nothing that is shown. -/
theorem renderJson_eq_iff (sd sd' : SelfDesc) :
    renderJson sd = renderJson sd' ↔ sd.daemon = sd'.daemon ∧ sd.version = sd'.version ∧
      sd.brand = sd'.brand ∧ sd.monitor = sd'.monitor ∧ sd.stations = sd'.stations ∧
      sd.video = sd'.video := by
  constructor
  · intro h
    have hdenotes := (faithful_renderJson sd').denotes
    rw [← h] at hdenotes
    have hvalue := (faithful_renderJson sd).unique _ hdenotes
    rw [denote_fields, denote_fields] at hvalue
    simp only [JsonTree.object.injEq, List.cons.injEq, Prod.mk.injEq, true_and,
      JsonTree.string.injEq, JsonTree.array.injEq, JsonTree.bool.injEq, and_true,
      stationValue_injective.list_map.eq_iff] at hvalue
    obtain ⟨hdaemon, hversion, hbrand, hmonitor, hstations, hforward, hsupported, hprotocol,
      hformat, hpath⟩ := hvalue
    refine ⟨hdaemon.symm, hversion.symm, hbrand.symm, hmonitor.symm, hstations.symm, ?_⟩
    cases hvideo : sd.video
    cases hvideo' : sd'.video
    rw [hvideo, hvideo'] at hforward hsupported hprotocol hformat hpath
    simp only [VideoDesc.mk.injEq]
    exact ⟨hforward.symm, hsupported.symm, hprotocol.symm, hformat.symm, hpath.symm⟩
  · rintro ⟨hdaemon, hversion, hbrand, hmonitor, hstations, hvideo⟩
    rw [renderJson, renderJson, fields, fields, hdaemon, hversion, hbrand, hmonitor, hstations,
      hvideo]

/-- The text of `GET /info`, for every configuration: both checkers of the control plane accept it,
it stands for one value only, which is the object with the members of the source in their order and
the door stations in the order of the configuration, and two configurations have the same text
exactly if they agree on the version that is shown, the monitor, the door stations and the video
settings. -/
theorem renderJson_build (pid pid' : ℕ) (probeDial probeDial' : Text → ℤ → Bool)
    (cfg cfg' : Config) (version version' : Text) (probeHa probeHa' : Bool) :
    let body := renderJson (build pid probeDial (some cfg) version probeHa)
    Faithful .ENCODE (.struct (fields (build pid probeDial (some cfg) version probeHa))) body ∧
    (∀ w, Denotes body w ↔ w = .object [("daemon".toList, .string "dooraccess-go".toList),
      ("version".toList, .string (safeOrDefault version "dev".toList)),
      ("brand".toList, .string "anjubao".toList), ("monitor".toList, .string cfg.sip),
      ("outdoor_stations".toList,
        .array (cfg.stations.map fun s ↦ .object [("sip".toList, .string s.sip)])),
      ("video".toList, .object [("forward".toList, .bool cfg.video.forward),
        ("forward_supported".toList, .bool cfg.video.forward),
        ("protocol".toList, .string "anjubao-h264".toList),
        ("format".toList, .string cfg.video.format),
        ("cache_path".toList, .string cfg.video.cachePath)])]) ∧
    (body = renderJson (build pid' probeDial' (some cfg') version' probeHa') ↔
      safeOrDefault version "dev".toList = safeOrDefault version' "dev".toList ∧
        cfg.sip = cfg'.sip ∧ cfg.stations.map (·.sip) = cfg'.stations.map (·.sip) ∧
        cfg.video = cfg'.video) := by
  intro body
  have hfaithful := faithful_renderJson (build pid probeDial (some cfg) version probeHa)
  have hvalue := denote_fields (build pid probeDial (some cfg) version probeHa)
  simp only [build, List.map_map] at hvalue
  refine ⟨hfaithful, fun w ↦ ⟨fun hw ↦ ?_, fun hw ↦ ?_⟩, ?_⟩
  · exact (hfaithful.unique w hw).trans hvalue
  · rw [hw]
    exact hvalue ▸ hfaithful.denotes
  · rw [renderJson_eq_iff]
    have hstations : (cfg.stations.map fun s ↦ StationDesc.mk s.sip) =
        (cfg'.stations.map fun s ↦ StationDesc.mk s.sip) ↔
        cfg.stations.map (·.sip) = cfg'.stations.map (·.sip) := by
      have hinj : Function.Injective StationDesc.mk := fun a b h ↦ congrArg StationDesc.sip h
      rw [← hinj.list_map.eq_iff, List.map_map, List.map_map]
      rfl
    have hvideo : cfg.video = cfg'.video ↔ cfg.video.forward = cfg'.video.forward ∧
        cfg.video.format = cfg'.video.format ∧ cfg.video.cachePath = cfg'.video.cachePath := by
      cases cfg.video
      cases cfg'.video
      simp only [Config.Video.mk.injEq]
    simp only [build, hstations, hvideo, VideoDesc.mk.injEq, true_and, and_self_left]

end DoorAccess.Info
