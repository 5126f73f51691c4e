import DoorAccess.Config.Ini
import DoorAccess.Lib.Fallible

/-!
# Loading the configuration

`Config` is the sink of the daemon for the engine of `parse_ini`. `loadConfig` is the whole of a
start: reading, parsing, the defaults, the search for what is deprecated, and the validation.
`accepted_of_loadConfig` says what a configuration that it returns satisfies.
-/

set_option autoImplicit false
set_option relaxedAutoImplicit false

namespace DoorAccess

open AutomationState (trim)
open Fallible (bind_eq_ok of_forM_ok)

/-! ### The schema -/

namespace Config

structure Listen where
  addr : Text
  port : ℤ
  deriving DecidableEq

structure Station where
  sip : Text
  rtspUrl : Text
  deriving DecidableEq

structure Hass where
  ipaddr : Text
  port : ℤ
  api : Text
  token : Text
  deriving DecidableEq

structure Video where
  forward : Bool
  format : Text
  cachePath : Text
  deriving DecidableEq

structure Automation where
  autoUnlock : Bool
  autoHangup : Bool
  deriving DecidableEq

end Config

open Config in
structure Config where
  sip : Text
  iface : Text
  ifaceList : List Text
  listen : Listen
  stations : List Station
  hass : Hass
  video : Video
  automation : Automation
  missingFields : List Text
  deprecatedFields : List Text
  parserWarnings : List Warning
  deriving DecidableEq

namespace Config

def Station.default : Station where
  sip := []
  rtspUrl := []

def default : Config where
  sip := []
  iface := []
  ifaceList := []
  listen := ⟨[], 0⟩
  stations := []
  hass := ⟨[], 0, [], []⟩
  video := ⟨false, [], []⟩
  automation := ⟨false, false⟩
  missingFields := []
  deprecatedFields := []
  parserWarnings := []

/-! ### The sink -/

/-- A field with a conversion: what is stored if the conversion succeeds. -/
def setConv {α : Type} (cfg : Config) (conv : Except ParseMessage α) (store : α → Config) :
    Config × FieldOutcome :=
  match conv with
  | .ok a => (store a, .set)
  | .error msg => (cfg, .typeErr msg)

def setTop (cfg : Config) (key value : Text) : Config × FieldOutcome :=
  if key = "sip".toList then ({ cfg with sip := value }, .set)
  else if key = "iface".toList then ({ cfg with iface := value }, .set)
  else if key = "iface_list".toList then ({ cfg with ifaceList := convStringArray value }, .set)
  else if key ∈ ["listen".toList, "hass".toList, "video".toList, "automation".toList] then
    (cfg, .typeErr (.isStruct key))
  else if key = "station".toList then (cfg, .typeErr (.isSliceOfStruct key))
  else (cfg, .unknown)

def sectionKnown (sect : Text) : Bool :=
  sect ∈ ["sip".toList, "iface".toList, "iface_list".toList, "listen".toList, "station".toList,
    "hass".toList, "video".toList, "automation".toList]

def sectionIsStruct (sect : Text) : Bool :=
  sect ∈ ["listen".toList, "hass".toList, "video".toList, "automation".toList]

def sectionIsSlice (sect : Text) : Bool :=
  sect = "station".toList

def setListen (cfg : Config) (key value : Text) : Config × FieldOutcome :=
  if key = "addr".toList then ({ cfg with listen.addr := value }, .set)
  else if key = "port".toList then
    setConv cfg (convInt value key) fun n ↦ { cfg with listen.port := n }
  else (cfg, .unknown)

def setHass (cfg : Config) (key value : Text) : Config × FieldOutcome :=
  if key = "ipaddr".toList then ({ cfg with hass.ipaddr := value }, .set)
  else if key = "port".toList then
    setConv cfg (convInt value key) fun n ↦ { cfg with hass.port := n }
  else if key = "api".toList then ({ cfg with hass.api := value }, .set)
  else if key = "token".toList then ({ cfg with hass.token := value }, .set)
  else (cfg, .unknown)

def setVideo (cfg : Config) (key value : Text) : Config × FieldOutcome :=
  if key = "forward".toList then
    setConv cfg (convBool value key) fun b ↦ { cfg with video.forward := b }
  else if key = "format".toList then ({ cfg with video.format := value }, .set)
  else if key = "cache_path".toList then ({ cfg with video.cachePath := value }, .set)
  else (cfg, .unknown)

def setAutomation (cfg : Config) (key value : Text) : Config × FieldOutcome :=
  if key = "auto_unlock".toList then
    setConv cfg (convBool value key) fun b ↦ { cfg with automation.autoUnlock := b }
  else if key = "auto_hangup".toList then
    setConv cfg (convBool value key) fun b ↦ { cfg with automation.autoHangup := b }
  else (cfg, .unknown)

def setSection (cfg : Config) (sect key value : Text) : Config × FieldOutcome :=
  if sect = "listen".toList then cfg.setListen key value
  else if sect = "hass".toList then cfg.setHass key value
  else if sect = "video".toList then cfg.setVideo key value
  else if sect = "automation".toList then cfg.setAutomation key value
  else (cfg, .unknown)

def subsectionLen (cfg : Config) (sect : Text) : ℕ :=
  if sect = "station".toList then cfg.stations.length else 0

def appendSubsection (cfg : Config) (sect : Text) : Config :=
  if sect = "station".toList then { cfg with stations := cfg.stations ++ [Station.default] }
  else cfg

def setSubsection (cfg : Config) (sect key value : Text) : Config × FieldOutcome :=
  if sect ≠ "station".toList then (cfg, .unknown)
  else
    match cfg.stations.getLast? with
    | none => (cfg, .unknown)
    | some last =>
      let store (last : Station) : Config :=
        { cfg with stations := cfg.stations.dropLast ++ [last] }
      if key = "sip".toList then (store { last with sip := value }, .set)
      else if key = "rtsp_url".toList then (store { last with rtspUrl := value }, .set)
      else (cfg, .unknown)

instance : IniSink Config where
  setTop := setTop
  sectionKnown _ := sectionKnown
  sectionIsStruct _ := sectionIsStruct
  sectionIsSlice _ := sectionIsSlice
  setSection := setSection
  subsectionLen := subsectionLen
  appendSubsection := appendSubsection
  setSubsection := setSubsection

/-! ### Defaults -/

/-- Five fields get a default, three of which are recorded as missing. -/
def applyDefaults (cfg : Config) : Config :=
  let missing (name : String) (b : Bool) : List Text := if b then [name.toList] else []
  { cfg with
    iface := if cfg.iface = [] then "eth0.1".toList else cfg.iface
    listen.addr := if cfg.listen.addr = [] then "0.0.0.0".toList else cfg.listen.addr
    listen.port := if cfg.listen.port = 0 then 8080 else cfg.listen.port
    hass.port := if cfg.hass.port = 0 then 8123 else cfg.hass.port
    video.format := if cfg.video.format = [] then "flv".toList else cfg.video.format
    missingFields := missing "iface" (cfg.iface = []) ++
      missing "hass.port" (cfg.hass.port = 0) ++ missing "video.format" (cfg.video.format = []) }

/-! ### What is deprecated -/

def DEPRECATED : List Text :=
  ["brand".toList, "family".toList, "elev".toList, "notification".toList]

/-- The locals of `detect_deprecated` that a line changes. What is pushed to the field is what is
pushed to `seen`. -/
structure DeprecatedScan where
  seen : List Text
  currentSection : Text

def DeprecatedScan.see (acc : DeprecatedScan) (name : Text) : DeprecatedScan :=
  if name ∈ DEPRECATED ∧ name ∉ acc.seen then { acc with seen := acc.seen ++ [name] } else acc

/-- One turn of the loop of `detect_deprecated`. -/
def DeprecatedScan.line (acc : DeprecatedScan) (raw : Text) : DeprecatedScan :=
  let s := trim (raw.takeWhile fun c ↦ c != ';' && c != '#')
  if s = [] then acc
  else if 3 ≤ byteLen s ∧ s.head? = some '[' ∧ s.getLast? = some ']' then
    let inner := trim (unquote s)
    let name :=
      match inner.idxOf? ' ' with
      | none | some 0 => inner
      | some sp => trim (inner.take sp)
    { acc with currentSection := name }.see name
  else if acc.currentSection = [] then
    match s.idxOf? '=' with
    | none | some 0 => acc
    | some eq => acc.see (trim (s.take eq))
  else acc

def detectDeprecated (cfg : Config) (raw : Text) : Config :=
  { cfg with
    deprecatedFields := cfg.deprecatedFields ++
      ((raw.splitOn '\n').foldl DeprecatedScan.line ⟨[], []⟩).seen }

/-! ### Validation -/

/-- The bytes of a configured URI. -/
def sipStr (sip : Text) : Str :=
  Utf8.encode sip

/-- The check of a SIP URI, for the field it is in. -/
def checkSip (field : Text) (empty : Want) (sip : Text) : Except ConfigError Unit :=
  if sip = [] then .error (.validation ⟨field, [], empty⟩)
  else
    match validateUri (sipStr sip) with
    | .error err => .error (.validation ⟨field, sip, .validSipUri err⟩)
    | .ok _ => .ok ()

/-- `stations[i].sip`. -/
def stationField (i : ℕ) : Text :=
  "stations[".toList ++ Nat.toDigits 10 i ++ "].sip".toList

def checkStations (stations : List Station) : Except ConfigError Unit :=
  if stations = [] then .error (.validation ⟨"stations".toList, "0".toList, .oneStation⟩)
  else stations.zipIdx.forM fun s ↦ checkSip (stationField s.2) .nonEmptySipUri s.1.sip

def checkFormat (format : Text) : Except ConfigError Unit :=
  if format = "flv".toList ∨ format = "mjpeg".toList then .ok ()
  else .error (.validation ⟨"video.format".toList, format, .flvOrMjpeg⟩)

def validate (cfg : Config) : Except ConfigError Unit := do
  checkSip "sip".toList .sipUri cfg.sip
  checkStations cfg.stations
  checkFormat cfg.video.format

/-! ### Loading -/

/-- `load_config`, with what `fs::read` gives for the path. -/
def loadConfig (path : String) (read : Except AutomationState.ReadError (List UInt8)) :
    Except ConfigError Config := do
  match read with
  | .error .notFound => .error (.notFound path)
  | .error (.other text) => .error (.read path (.os text))
  | .ok raw =>
    if Utf8.isUtf8 raw then
      let text := Utf8.decodeLossy raw
      let (cfg, warnings) ← parseIni text default
      let cfg := ({ cfg with parserWarnings := warnings }.applyDefaults).detectDeprecated text
      cfg.validate
      return cfg
    else .error (.read path .notUtf8)

/-! ### What has been accepted -/

/-- What the validation has checked. -/
structure Accepted (cfg : Config) : Prop where
  sip : validateUri (sipStr cfg.sip) = .ok ()
  stations_ne : cfg.stations ≠ []
  stations : ∀ st ∈ cfg.stations, validateUri (sipStr st.sip) = .ok ()
  format : cfg.video.format = "flv".toList ∨ cfg.video.format = "mjpeg".toList

theorem validateUri_of_checkSip {field : Text} {empty : Want} {sip : Text}
    (h : checkSip field empty sip = .ok ()) : validateUri (sipStr sip) = .ok () := by
  unfold checkSip at h
  split_ifs at h
  split at h
  · exact nomatch h
  · assumption

theorem accepted_of_validate {cfg : Config} (h : cfg.validate = .ok ()) : Accepted cfg := by
  obtain ⟨u, hsip, h⟩ := bind_eq_ok.mp h
  obtain ⟨v, hstations, h⟩ := bind_eq_ok.mp h
  unfold checkStations at hstations
  split_ifs at hstations with hempty
  unfold checkFormat at h
  split_ifs at h with hformat
  refine ⟨validateUri_of_checkSip hsip, hempty, fun st hst ↦ ?_, hformat⟩
  obtain ⟨i, hi, rfl⟩ := List.mem_iff_getElem.mp hst
  exact validateUri_of_checkSip
    (of_forM_ok hstations (cfg.stations[i], i) (List.mk_mem_zipIdx_iff_getElem?.mpr (by simp)))

/-- What is loaded has passed the validation. -/
theorem accepted_of_loadConfig {path : String}
    {read : Except AutomationState.ReadError (List UInt8)} {cfg : Config}
    (h : loadConfig path read = .ok cfg) : Accepted cfg := by
  unfold loadConfig at h
  split at h
  · exact nomatch h
  · exact nomatch h
  · split_ifs at h
    obtain ⟨parsed, -, h⟩ := bind_eq_ok.mp h
    obtain ⟨u, hvalid, h⟩ := bind_eq_ok.mp h
    exact Except.ok.inj h ▸ accepted_of_validate hvalid

end Config

end DoorAccess
