import DoorAccess.Config.Lines
import DoorAccess.Config.Load
import DoorAccess.Decimal

/-!
# Configurations that are written and read back

`items` is a configuration as a file says it: an entry for each field, the fields of the top level
first, then the sections, then a subsection for each station. `Prints` is any text that holds these
items, with blanks, blank lines and comments added. `parseIni_prints` is the round trip: the parser
reads such a text as the configuration it was written from.
-/

set_option autoImplicit false
set_option relaxedAutoImplicit false

namespace DoorAccess.Config

open AutomationState (trim isWhiteSpace)
open Codec (isDigit digitsValue parseI64)

/-! ### What is written -/

/-- The decimal text of a port. -/
def intText (n : ℤ) : Text :=
  (if n < 0 then ['-'] else []) ++ Utf8.ofAscii (Radix.text 10 n.natAbs)

def boolText (b : Bool) : Text :=
  (if b then "true" else "false").toList

/-- The item with blanks around it. -/
def Padded (item text : Text) : Prop :=
  ∃ b b', Blanks b ∧ Blanks b' ∧ text = b ++ item ++ b'

/-- The text holds the elements of a list, with commas between them. -/
def Separates (l : List Text) (text : Text) : Prop :=
  ∃ padded, List.Forall₂ Padded l padded ∧ text = [','].intercalate padded

/-- The entries of the top level, with the text of the list of interfaces. -/
def topItems (cfg : Config) (ifaces : Text) : List Item :=
  [.entry "sip".toList cfg.sip, .entry "iface".toList cfg.iface, .entry "iface_list".toList ifaces]

def listenItems (listen : Listen) : List Item :=
  [.header "listen".toList, .entry "addr".toList listen.addr,
    .entry "port".toList (intText listen.port)]

def hassItems (hass : Hass) : List Item :=
  [.header "hass".toList, .entry "ipaddr".toList hass.ipaddr,
    .entry "port".toList (intText hass.port), .entry "api".toList hass.api,
    .entry "token".toList hass.token]

def videoItems (video : Video) : List Item :=
  [.header "video".toList, .entry "forward".toList (boolText video.forward),
    .entry "format".toList video.format, .entry "cache_path".toList video.cachePath]

def automationItems (automation : Automation) : List Item :=
  [.header "automation".toList, .entry "auto_unlock".toList (boolText automation.autoUnlock),
    .entry "auto_hangup".toList (boolText automation.autoHangup)]

/-- The items of a station, under its subsection name. -/
def stationItems (name : Text) (st : Station) : List Item :=
  [.subheader "station".toList name, .entry "sip".toList st.sip,
    .entry "rtsp_url".toList st.rtspUrl]

/-- The configuration, with a subsection name for each station. -/
def items (cfg : Config) (ifaces : Text) (names : List Text) : List Item :=
  topItems cfg ifaces ++ listenItems cfg.listen ++ hassItems cfg.hass ++ videoItems cfg.video ++
    automationItems cfg.automation ++
      (names.zip cfg.stations).flatMap fun s ↦ stationItems s.1 s.2

/-- The text prints the configuration under these names: it holds its items, on lines shorter than
1 MiB. -/
def Prints (cfg : Config) (names : List Text) (text : Text) : Prop :=
  ∃ ifaces lines, Separates cfg.ifaceList ifaces ∧ Lists (items cfg ifaces names) lines ∧
    (∀ line ∈ lines, byteLen line < 1048576) ∧ text = ['\n'].intercalate lines

/-- An item as it is written without any decoration. -/
def Item.spelling : Item → Text
  | .entry key value => key ++ ' ' :: '=' :: ' ' :: '"' :: value ++ ['"']
  | .header sect => '[' :: sect ++ [']']
  | .subheader sect subname => '[' :: sect ++ ' ' :: '"' :: subname ++ ['"', ']']

/-- The plain text of a configuration. -/
def print (cfg : Config) (names : List Text) : Text :=
  ['\n'].intercalate ((items cfg ([','].intercalate cfg.ifaceList) names).map Item.spelling)

/-! ### What can be written -/

/-- The text fits in a pair of quotes on one line. -/
def Quotable (s : Text) : Prop :=
  '"' ∉ s ∧ '\n' ∉ s

/-- The value fits in an `i32`. -/
def FitsI32 (n : ℤ) : Prop :=
  -2147483648 ≤ n ∧ n ≤ 2147483647

instance (s : Text) : Decidable (Quotable s) :=
  inferInstanceAs (Decidable (_ ∧ _))

instance (n : ℤ) : Decidable (FitsI32 n) :=
  inferInstanceAs (Decidable (_ ∧ _))

/-- The fields of a configuration can be written. -/
structure Printable (cfg : Config) : Prop where
  sip : Quotable cfg.sip
  iface : Quotable cfg.iface
  ifaceList : ∀ i ∈ cfg.ifaceList, Quotable i ∧ i ≠ [] ∧ trim i = i ∧ ',' ∉ i
  listenAddr : Quotable cfg.listen.addr
  listenPort : FitsI32 cfg.listen.port
  hassIpaddr : Quotable cfg.hass.ipaddr
  hassPort : FitsI32 cfg.hass.port
  hassApi : Quotable cfg.hass.api
  hassToken : Quotable cfg.hass.token
  videoFormat : Quotable cfg.video.format
  videoCachePath : Quotable cfg.video.cachePath
  stations : ∀ st ∈ cfg.stations, Quotable st.sip ∧ Quotable st.rtspUrl

/-- There is a name for each station, and no two neighbours share one. -/
structure Names (stations : List Station) (names : List Text) : Prop where
  length_eq : names.length = stations.length
  nonempty : ∀ n ∈ names, n ≠ []
  quoteFree : ∀ n ∈ names, '"' ∉ n
  neighbours : names.IsChain (· ≠ ·)

/-! ### Numbers and booleans -/

theorem parseI64_neg {s : Str} (hne : s ≠ []) (h : ∀ c ∈ s, isDigit c = true)
    (hmax : digitsValue s ≤ 9223372036854775808) :
    parseI64 (45 :: s) = some (-(digitsValue s : ℤ)) := by
  have hall : s.all isDigit = true := List.all_eq_true.mpr h
  have hlow : (-9223372036854775808 : ℤ) ≤ -(digitsValue s : ℤ) := by omega
  have hhigh : -(digitsValue s : ℤ) < 9223372036854775808 := by omega
  simp [parseI64, hne, hall, hlow, hhigh]

theorem parseI64_intText {n : ℤ} (h : FitsI32 n) :
    parseI64 (Utf8.encode (intText n)) = some n := by
  have hdigits := Codec.forall_isDigit_text n.natAbs
  have hvalue := Codec.digitsValue_text n.natAbs
  have hne := Radix.text_ne_nil 10 n.natAbs
  obtain ⟨hlow, hhigh⟩ := h
  rw [intText, Utf8.encode_append, Codec.encode_decimal]
  split_ifs with hneg
  · have hparse := parseI64_neg hne hdigits (by rw [hvalue]; omega)
    rw [hvalue] at hparse
    have hnat : -(n.natAbs : ℤ) = n := by omega
    rw [hnat] at hparse
    exact hparse
  · have hparse := parseI64_of_digits hne hdigits (by rw [hvalue]; omega)
    rw [hvalue] at hparse
    have hnat : (n.natAbs : ℤ) = n := by omega
    rw [hnat] at hparse
    exact hparse

theorem intText_ne_nil (n : ℤ) : intText n ≠ [] := by
  intro hnil
  have hdigits := (List.append_eq_nil_iff.mp hnil).2
  exact Radix.text_ne_nil 10 n.natAbs (List.map_eq_nil_iff.mp hdigits)

theorem convInt_intText {n : ℤ} (h : FitsI32 n) (key : Text) : convInt (intText n) key = .ok n := by
  have hrange : ¬(n < -2147483648 ∨ 2147483647 < n) :=
    not_or.mpr ⟨Int.not_lt.mpr h.1, Int.not_lt.mpr h.2⟩
  rw [convInt, if_neg (intText_ne_nil n), parseI64_intText h]
  simp only [if_neg hrange]

theorem convBool_boolText (b : Bool) (key : Text) : convBool (boolText b) key = .ok b := by
  cases b with
  | false => rfl
  | true => rfl

/-! ### Lists -/

/-- What trimming leaves as it is starts and ends with a visible character. -/
theorem visible_of_trim {s : Text} (hne : s ≠ []) (htrim : trim s = s) : Visible s := by
  have hstart : s.dropWhile isWhiteSpace = s := by
    have hsuffix : s.dropWhile isWhiteSpace <:+ s := List.dropWhile_suffix _
    refine hsuffix.eq_of_length (Nat.le_antisymm hsuffix.length_le ?_)
    calc s.length = (trim s).length := by rw [htrim]
      _ ≤ (s.dropWhile isWhiteSpace).length := by
        rw [trim, List.length_reverse]
        exact ((List.dropWhile_suffix _).length_le).trans (List.length_reverse).le
  have hend : s.reverse.dropWhile isWhiteSpace = s.reverse := by
    rw [trim, hstart] at htrim
    rw [← List.reverse_eq_iff, htrim]
  have hhead := List.head?_dropWhile_not isWhiteSpace s
  have hlast := List.head?_dropWhile_not isWhiteSpace s.reverse
  rw [hstart, List.head?_eq_some_head hne] at hhead
  rw [hend, List.head?_reverse, List.getLast?_eq_some_getLast hne] at hlast
  exact ⟨⟨_, List.head?_eq_some_head hne, hhead⟩, _, List.getLast?_eq_some_getLast hne, hlast⟩

theorem Padded.trim_eq {item text : Text} (h : Padded item text) (hne : item ≠ [])
    (htrim : trim item = item) : trim text = item := by
  obtain ⟨b, b', hb, hb', rfl⟩ := h
  exact trim_between hb (visible_of_trim hne htrim) hb'

/-- A character that is no blank is not among the blanks around an item. -/
theorem Padded.not_mem {item text : Text} (h : Padded item text) {c : Char} (hspace : c ≠ ' ')
    (htab : c ≠ '\t') (hitem : c ∉ item) : c ∉ text := by
  obtain ⟨b, b', hb, hb', rfl⟩ := h
  simp [hb.not_mem hspace htab, hb'.not_mem hspace htab, hitem]

theorem padded_not_mem {l padded : List Text} (h : List.Forall₂ Padded l padded) {c : Char}
    (hspace : c ≠ ' ') (htab : c ≠ '\t') (hl : ∀ i ∈ l, c ∉ i) : ∀ p ∈ padded, c ∉ p := by
  induction h with
  | nil => exact List.forall_mem_nil _
  | cons hfirst _ ih =>
    obtain ⟨hitem, hrest⟩ := List.forall_mem_cons.mp hl
    exact List.forall_mem_cons.mpr ⟨hfirst.not_mem hspace htab hitem, ih hrest⟩

theorem map_trim_padded {l padded : List Text} (h : List.Forall₂ Padded l padded)
    (hl : ∀ i ∈ l, i ≠ [] ∧ trim i = i) : padded.map trim = l := by
  induction h with
  | nil => rfl
  | cons hfirst _ ih =>
    obtain ⟨⟨hne, htrim⟩, hrest⟩ := List.forall_mem_cons.mp hl
    rw [List.map_cons, hfirst.trim_eq hne htrim, ih hrest]

theorem convStringArray_eq (text : Text) :
    convStringArray text = ((text.splitOn ',').map trim).filter fun p ↦ p ≠ [] := by
  rw [convStringArray]
  split_ifs with hempty
  · rw [hempty]
    rfl
  · rfl

/-- A list of interfaces is read back, whatever blanks are around its commas. -/
theorem convStringArray_separates {l : List Text} {text : Text} (h : Separates l text)
    (hl : ∀ i ∈ l, i ≠ [] ∧ trim i = i) (hcomma : ∀ i ∈ l, ',' ∉ i) :
    convStringArray text = l := by
  obtain ⟨padded, hpadded, rfl⟩ := h
  have hcommas := padded_not_mem hpadded (by decide) (by decide) hcomma
  have hmap := map_trim_padded hpadded hl
  have hkept : l.filter (fun p ↦ p ≠ []) = l :=
    List.filter_eq_self.mpr fun i hi ↦ decide_eq_true (hl i hi).1
  rw [convStringArray_eq]
  cases padded with
  | nil =>
    rw [← hmap]
    rfl
  | cons p padded =>
    rw [List.splitOn_intercalate ',' hcommas (List.cons_ne_nil _ _), hmap, hkept]

theorem not_mem_intercalate {c sep : Char} (hsep : c ≠ sep) {l : List Text}
    (hl : ∀ s ∈ l, c ∉ s) : c ∉ [sep].intercalate l := by
  induction l with
  | nil => exact List.not_mem_nil
  | cons s l ih =>
    obtain ⟨hs, hrest⟩ := List.forall_mem_cons.mp hl
    cases l with
    | nil =>
      rw [List.intercalate_singleton]
      exact hs
    | cons t l =>
      rw [List.intercalate_cons_cons, List.mem_append, List.mem_append, List.mem_singleton]
      exact not_or.mpr ⟨not_or.mpr ⟨hs, hsep⟩, ih hrest⟩

theorem Separates.quotable {l : List Text} {text : Text} (h : Separates l text)
    (hl : ∀ i ∈ l, Quotable i) : Quotable text := by
  obtain ⟨padded, hpadded, rfl⟩ := h
  exact ⟨not_mem_intercalate (by decide)
      (padded_not_mem hpadded (by decide) (by decide) fun i hi ↦ (hl i hi).1),
    not_mem_intercalate (by decide)
      (padded_not_mem hpadded (by decide) (by decide) fun i hi ↦ (hl i hi).2)⟩

/-! ### What the items do -/

/-- A field whose conversion succeeds is stored. -/
theorem outcome_setConv {α : Type} {conv : Except ParseMessage α} {a : α} (h : conv = .ok a)
    (s : ParseState Config) (lineNo : ℕ) (cfg : Config) (store : α → Config) (warning : Warning) :
    s.outcome lineNo (cfg.setConv conv store) warning = .ok { s with sink := store a } := by
  rw [h]
  rfl

section Leads

variable (cfg : Config) (sect : Text)

theorem leads_topItems (printed : Config) {ifaces : Text}
    (hifaces : convStringArray ifaces = printed.ifaceList) :
    Leads ⟨cfg, [], [], [], []⟩ (topItems printed ifaces)
      ⟨{ cfg with sip := printed.sip, iface := printed.iface, ifaceList := printed.ifaceList },
        [], [], [], []⟩ := by
  rw [← hifaces]
  exact .cons (fun _ ↦ rfl) (.cons (fun _ ↦ rfl) (.cons (fun _ ↦ rfl) .nil))

theorem leads_listenItems {listen : Listen} (hport : FitsI32 listen.port) :
    Leads ⟨cfg, sect, [], [], []⟩ (listenItems listen)
      ⟨{ cfg with listen := listen }, "listen".toList, [], [], []⟩ := by
  have hconv := convInt_intText hport "port".toList
  refine .cons (fun _ ↦ rfl) (.cons (fun _ ↦ rfl) ?_)
  exact .cons (fun _ ↦ outcome_setConv hconv _ _ _ _ _) .nil

theorem leads_hassItems {hass : Hass} (hport : FitsI32 hass.port) :
    Leads ⟨cfg, sect, [], [], []⟩ (hassItems hass)
      ⟨{ cfg with hass := hass }, "hass".toList, [], [], []⟩ := by
  have hconv := convInt_intText hport "port".toList
  refine .cons (fun _ ↦ rfl) (.cons (fun _ ↦ rfl) ?_)
  refine .cons (fun _ ↦ outcome_setConv hconv _ _ _ _ _) ?_
  exact .cons (fun _ ↦ rfl) (.cons (fun _ ↦ rfl) .nil)

theorem leads_videoItems (video : Video) :
    Leads ⟨cfg, sect, [], [], []⟩ (videoItems video)
      ⟨{ cfg with video := video }, "video".toList, [], [], []⟩ := by
  have hconv := convBool_boolText video.forward "forward".toList
  refine .cons (fun _ ↦ rfl) (.cons (fun _ ↦ outcome_setConv hconv _ _ _ _ _) ?_)
  exact .cons (fun _ ↦ rfl) (.cons (fun _ ↦ rfl) .nil)

theorem leads_automationItems (automation : Automation) :
    Leads ⟨cfg, sect, [], [], []⟩ (automationItems automation)
      ⟨{ cfg with automation := automation }, "automation".toList, [], [], []⟩ := by
  have hunlock := convBool_boolText automation.autoUnlock "auto_unlock".toList
  have hhangup := convBool_boolText automation.autoHangup "auto_hangup".toList
  refine .cons (fun _ ↦ rfl) (.cons (fun _ ↦ outcome_setConv hunlock _ _ _ _ _) ?_)
  exact .cons (fun _ ↦ outcome_setConv hhangup _ _ _ _ _) .nil

end Leads

/-! ### Stations -/

/-- The last subname of the stations, as the engine keeps it. -/
def lastStation (last : Option Text) : List (Text × Text) :=
  last.toList.map fun name ↦ ("station".toList, name)

/-- A name other than the last one begins a station. -/
theorem lazyAppend_station {last : Option Text} {name : Text} (h : last ≠ some name)
    (cfg : Config) (warnings : List Warning) :
    (ParseState.mk cfg "station".toList name (lastStation last) warnings).lazyAppend =
      ⟨{ cfg with stations := cfg.stations ++ [Station.default] }, "station".toList, name,
        lastStation (some name), warnings⟩ := by
  cases last with
  | none => rfl
  | some prev => exact if_pos (Or.inl h)

/-- The last name is that of the station begun last. -/
theorem lazyAppend_same (name : Text) {cfg : Config} (hne : cfg.stations ≠ [])
    (warnings : List Warning) :
    (ParseState.mk cfg "station".toList name (lastStation (some name)) warnings).lazyAppend =
      ⟨cfg, "station".toList, name, lastStation (some name), warnings⟩ := by
  refine if_neg (not_or.mpr ⟨not_not.mpr rfl, fun hlength ↦ hne ?_⟩)
  exact List.length_eq_zero_iff.mp hlength

theorem setSubsection_concat (cfg : Config) (done : List Station) (last : Station)
    (key value : Text) :
    setSubsection { cfg with stations := done ++ [last] } "station".toList key value =
      let store (last : Station) : Config := { cfg with stations := done ++ [last] }
      if key = "sip".toList then (store { last with sip := value }, .set)
      else if key = "rtsp_url".toList then (store { last with rtspUrl := value }, .set)
      else (store last, .unknown) := by
  rw [setSubsection, if_neg (not_not.mpr rfl)]
  simp only [List.getLast?_concat, List.dropLast_concat]

theorem entry_station (cfg : Config) {name : Text} (hname : name ≠ [])
    (last : List (Text × Text)) (lineNo : ℕ) (key value : Text) :
    let s := (ParseState.mk cfg "station".toList name last []).lazyAppend
    (ParseState.mk cfg "station".toList name last []).entry lineNo key value =
      s.outcome lineNo (setSubsection s.sink s.sect key value)
        (.unknownKeyInSubsection key s.sect s.subname) := by
  obtain ⟨c, t, rfl⟩ := List.exists_cons_of_ne_nil hname
  rfl

theorem enter_station (s : ParseState Config) {name : Text} (hname : name ≠ []) :
    s.enter "station".toList name = { s with sect := "station".toList, subname := name } := by
  obtain ⟨c, t, rfl⟩ := List.exists_cons_of_ne_nil hname
  have hnone : s.warnings ++ [] = s.warnings := List.append_nil _
  exact congrArg (ParseState.mk s.sink "station".toList (c :: t) s.lastSubname) hnone

/-- The items of a station under a new name are one more station. -/
theorem leads_stationItems (cfg : Config) (sect sub : Text) {last : Option Text} {name : Text}
    (hname : name ≠ []) (hlast : last ≠ some name) (st : Station) :
    Leads ⟨cfg, sect, sub, lastStation last, []⟩ (stationItems name st)
      ⟨{ cfg with stations := cfg.stations ++ [st] }, "station".toList, name,
        lastStation (some name), []⟩ := by
  have hne : cfg.stations ++ [⟨st.sip, []⟩] ≠ [] := List.append_ne_nil_of_right_ne_nil _ (by simp)
  refine .cons (fun _ ↦ congrArg Except.ok (enter_station _ hname)) ?_
  -- The first key begins the station, the second key finds it begun.
  refine .cons (t := ⟨{ cfg with stations := cfg.stations ++ [⟨st.sip, []⟩] }, "station".toList,
    name, lastStation (some name), []⟩) (fun lineNo ↦ ?_) (.cons (fun lineNo ↦ ?_) .nil)
  · rw [Item.run, entry_station cfg hname, lazyAppend_station hlast, setSubsection_concat]
    rfl
  · rw [Item.run, entry_station _ hname, lazyAppend_same name hne, setSubsection_concat]
    rfl

/-- A station for each name, as the names of neighbours differ. -/
theorem leads_stations {stations : List Station} {names : List Text} (h : Names stations names)
    (cfg : Config) (sect sub : Text) {last : Option Text}
    (hlast : ∀ name ∈ names.head?, last ≠ some name) :
    ∃ t, Leads ⟨cfg, sect, sub, lastStation last, []⟩
        ((names.zip stations).flatMap fun s ↦ stationItems s.1 s.2) t ∧
      t.sink = { cfg with stations := cfg.stations ++ stations } ∧ t.warnings = [] := by
  induction stations generalizing names cfg sect sub last with
  | nil =>
    rw [List.length_eq_zero_iff.mp h.length_eq, List.append_nil]
    exact ⟨_, .nil, rfl, rfl⟩
  | cons st stations ih =>
    obtain ⟨name, names, rfl⟩ := List.exists_cons_of_length_eq_add_one h.length_eq
    obtain ⟨hname, hnonempty⟩ := List.forall_mem_cons.mp h.nonempty
    obtain ⟨hnext, hneighbours⟩ := List.isChain_cons.mp h.neighbours
    have htail : Names stations names :=
      { length_eq := Nat.succ.inj h.length_eq
        nonempty := hnonempty
        quoteFree := (List.forall_mem_cons.mp h.quoteFree).2
        neighbours := hneighbours }
    have hdiffers : ∀ next ∈ names.head?, some name ≠ some next :=
      fun next hmem heq ↦ hnext next hmem (Option.some.inj heq)
    have hfirst := leads_stationItems cfg sect sub hname (hlast name rfl) st
    obtain ⟨t, hrest, hsink, hwarnings⟩ :=
      ih htail { cfg with stations := cfg.stations ++ [st] } "station".toList name hdiffers
    rw [List.append_assoc] at hsink
    exact ⟨t, hfirst.append hrest, hsink, hwarnings⟩

/-! ### Items on a line -/

theorem quotable_intText (n : ℤ) : Quotable (intText n) := by
  have hdigit (c : Char) (hc : c ∈ Utf8.ofAscii (Radix.text 10 n.natAbs)) :
      48 ≤ c.toNat ∧ c.toNat ≤ 57 := by
    obtain ⟨b, hb, rfl⟩ := List.mem_map.mp hc
    have hrange := Codec.toNat_of_mem_text hb
    rw [Utf8.toNat_ofNat_of_lt (by omega)]
    exact hrange
  have hsign (c : Char) (hc : c ∈ if n < 0 then ['-'] else []) : c = '-' := by
    split_ifs at hc
    · exact List.mem_singleton.mp hc
    · exact absurd hc List.not_mem_nil
  refine ⟨fun hmem ↦ ?_, fun hmem ↦ ?_⟩
  · rcases List.mem_append.mp hmem with hmem | hmem
    · exact absurd (hsign _ hmem) (by decide)
    · exact absurd (hdigit _ hmem) (by decide)
  · rcases List.mem_append.mp hmem with hmem | hmem
    · exact absurd (hsign _ hmem) (by decide)
    · exact absurd (hdigit _ hmem) (by decide)

theorem quotable_boolText (b : Bool) : Quotable (boolText b) := by
  cases b with
  | false => exact ⟨by decide, by decide⟩
  | true => exact ⟨by decide, by decide⟩

theorem writable_entry {key value : Text} (hkey : Word key) (h : Quotable value) :
    (Item.entry key value).Proper ∧ (Item.entry key value).OneLine :=
  ⟨⟨hkey, h.1⟩, h.2⟩

theorem writable_header {sect : Text} (hsect : Word sect) :
    (Item.header sect).Proper ∧ (Item.header sect).OneLine :=
  ⟨hsect, trivial⟩

theorem writable_topItems {cfg : Config} (hcfg : Printable cfg) {ifaces : Text}
    (hifaces : Quotable ifaces) : ∀ item ∈ topItems cfg ifaces, item.Proper ∧ item.OneLine := by
  simp only [topItems, List.forall_mem_cons]
  exact ⟨writable_entry (by decide) hcfg.sip, writable_entry (by decide) hcfg.iface,
    writable_entry (by decide) hifaces, List.forall_mem_nil _⟩

theorem writable_listenItems {cfg : Config} (hcfg : Printable cfg) :
    ∀ item ∈ listenItems cfg.listen, item.Proper ∧ item.OneLine := by
  simp only [listenItems, List.forall_mem_cons]
  exact ⟨writable_header (by decide), writable_entry (by decide) hcfg.listenAddr,
    writable_entry (by decide) (quotable_intText _), List.forall_mem_nil _⟩

theorem writable_hassItems {cfg : Config} (hcfg : Printable cfg) :
    ∀ item ∈ hassItems cfg.hass, item.Proper ∧ item.OneLine := by
  simp only [hassItems, List.forall_mem_cons]
  exact ⟨writable_header (by decide), writable_entry (by decide) hcfg.hassIpaddr,
    writable_entry (by decide) (quotable_intText _), writable_entry (by decide) hcfg.hassApi,
    writable_entry (by decide) hcfg.hassToken, List.forall_mem_nil _⟩

theorem writable_videoItems {cfg : Config} (hcfg : Printable cfg) :
    ∀ item ∈ videoItems cfg.video, item.Proper ∧ item.OneLine := by
  simp only [videoItems, List.forall_mem_cons]
  exact ⟨writable_header (by decide), writable_entry (by decide) (quotable_boolText _),
    writable_entry (by decide) hcfg.videoFormat, writable_entry (by decide) hcfg.videoCachePath,
    List.forall_mem_nil _⟩

theorem writable_stationItems {cfg : Config} (hcfg : Printable cfg) {names : List Text}
    (hquote : ∀ n ∈ names, '"' ∉ n) (hfeed : ∀ n ∈ names, '\n' ∉ n) :
    ∀ item ∈ (names.zip cfg.stations).flatMap fun s ↦ stationItems s.1 s.2,
      item.Proper ∧ item.OneLine := by
  refine List.forall_mem_flatMap.mpr fun s hs ↦ ?_
  obtain ⟨hname, hst⟩ := List.of_mem_zip hs
  obtain ⟨hsip, hrtsp⟩ := hcfg.stations s.2 hst
  simp only [stationItems, List.forall_mem_cons]
  exact ⟨⟨⟨by decide, hquote s.1 hname⟩, hfeed s.1 hname⟩, writable_entry (by decide) hsip,
    writable_entry (by decide) hrtsp, List.forall_mem_nil _⟩

/-- Every item of a printable configuration fits on a line. -/
theorem writable_items {cfg : Config} (hcfg : Printable cfg) {ifaces : Text} {names : List Text}
    (hifaces : Quotable ifaces) (hquote : ∀ n ∈ names, '"' ∉ n) (hfeed : ∀ n ∈ names, '\n' ∉ n) :
    ∀ item ∈ items cfg ifaces names, item.Proper ∧ item.OneLine := by
  have hautomation : ∀ item ∈ automationItems cfg.automation, item.Proper ∧ item.OneLine := by
    simp only [automationItems, List.forall_mem_cons]
    exact ⟨writable_header (by decide), writable_entry (by decide) (quotable_boolText _),
      writable_entry (by decide) (quotable_boolText _), List.forall_mem_nil _⟩
  simp only [items, List.forall_mem_append]
  exact ⟨⟨⟨⟨⟨writable_topItems hcfg hifaces, writable_listenItems hcfg⟩, writable_hassItems hcfg⟩,
    writable_videoItems hcfg⟩, hautomation⟩, writable_stationItems hcfg hquote hfeed⟩

/-! ### The whole file -/

/-- The fields of a configuration, without what is not in the file. -/
def fields (cfg : Config) : Config :=
  { cfg with missingFields := [], deprecatedFields := [], parserWarnings := [] }

theorem leads_items {cfg : Config} {ifaces : Text} {names : List Text} (hcfg : Printable cfg)
    (hnames : Names cfg.stations names) (hifaces : Separates cfg.ifaceList ifaces) :
    ∃ t, Leads (.start default) (items cfg ifaces names) t ∧ t.sink = cfg.fields ∧
      t.warnings = [] := by
  have hlist : convStringArray ifaces = cfg.ifaceList :=
    convStringArray_separates hifaces (fun i hi ↦ ⟨(hcfg.ifaceList i hi).2.1,
      (hcfg.ifaceList i hi).2.2.1⟩) fun i hi ↦ (hcfg.ifaceList i hi).2.2.2
  have htop := leads_topItems default cfg hlist
  have hlisten := htop.append (leads_listenItems _ _ hcfg.listenPort)
  have hhass := hlisten.append (leads_hassItems _ _ hcfg.hassPort)
  have hvideo := hhass.append (leads_videoItems _ _ cfg.video)
  have hautomation := hvideo.append (leads_automationItems _ _ cfg.automation)
  have hlast : ∀ name ∈ names.head?, (none : Option Text) ≠ some name :=
    fun _ _ hsome ↦ nomatch hsome
  obtain ⟨t, hstations, hsink, hwarnings⟩ :=
    leads_stations hnames { cfg.fields with stations := [] } "automation".toList [] hlast
  exact ⟨t, hautomation.append hstations, hsink, hwarnings⟩

/-! ### The plain text -/

theorem spells_spelling (item : Item) : Spells item item.spelling := by
  cases item with
  | entry key value =>
    have h : Spells (.entry key value) _ := .entry blanks_space blanks_space
    simpa [Item.spelling] using h
  | header sect =>
    have h : Spells (.header sect) _ := .header blanks_nil blanks_nil
    simpa [Item.spelling] using h
  | subheader sect subname =>
    have h : Spells (.subheader sect subname) _ := .subheader blanks_nil blanks_nil blanks_nil
    simpa [Item.spelling] using h

theorem lists_spelling (items : List Item) : Lists items (items.map Item.spelling) := by
  induction items with
  | nil => exact .nil
  | cons item items ih =>
    have hholds := Holds.plain blanks_nil (spells_spelling item) blanks_nil
    rw [List.nil_append, List.append_nil] at hholds
    exact .item hholds ih

theorem separates_intercalate (l : List Text) : Separates l ([','].intercalate l) :=
  ⟨l, List.forall₂_same.mpr fun i _ ↦ ⟨[], [], blanks_nil, blanks_nil, (List.append_nil i).symm⟩,
    rfl⟩

/-- The plain text is one of the texts that print a configuration. -/
theorem prints_print (cfg : Config) (names : List Text)
    (hshort : ∀ item ∈ items cfg ([','].intercalate cfg.ifaceList) names,
      byteLen item.spelling < 1048576) : Prints cfg names (print cfg names) :=
  ⟨_, _, separates_intercalate _, lists_spelling _, List.forall_mem_map.mpr hshort, rfl⟩

/-! ### The round trip -/

/-- A printed configuration is read as its fields, without a warning. -/
theorem parseIni_prints {cfg : Config} {names : List Text} {text : Text} (hcfg : Printable cfg)
    (hnames : Names cfg.stations names) (hfeed : ∀ n ∈ names, '\n' ∉ n)
    (h : Prints cfg names text) : parseIni text default = .ok (cfg.fields, []) := by
  obtain ⟨ifaces, lines, hifaces, hlines, hshort, rfl⟩ := h
  obtain ⟨t, hleads, hsink, hwarnings⟩ := leads_items hcfg hnames hifaces
  have hquotable := hifaces.quotable fun i hi ↦ (hcfg.ifaceList i hi).1
  have hwritable := writable_items hcfg hquotable hnames.quoteFree hfeed
  rw [parseIni_of_leads hlines (List.cons_ne_nil _ _) hwritable hshort hleads, hsink, hwarnings]

/-- A configuration with comments, headers, an equals sign and blanks in its values. -/
def sample : Config :=
  { default with
    sip := "10010101@10.0.0.7:5060".toList
    iface := "eth0 ; not a comment".toList
    ifaceList := ["eth0".toList, "br lan".toList]
    listen := ⟨"0.0.0.0".toList, -8080⟩
    hass := ⟨"10.0.0.2".toList, 8123, "https".toList, " token = # ".toList⟩
    video := ⟨true, "[flv]".toList, "/tmp/cache".toList⟩
    automation := ⟨true, false⟩
    stations := [⟨"a;b".toList, "rtsp://10.0.0.9/#1".toList⟩, ⟨[], "[door \t]".toList⟩] }

/-- It is read back from a text with two lines more, a comment behind an entry, and blanks around
the commas of the list. -/
theorem parseIni_sample :
    parseIni (['\n'].intercalate ("  # a comment".toList :: " \t".toList ::
      "\tsip= \"10010101@10.0.0.7:5060\"  ; \"the monitor".toList ::
        ((items sample "eth0 ,\tbr lan".toList ["front; #1".toList, " [gate] = ".toList]).tail.map
          Item.spelling))) default = .ok (sample.fields, []) := by
  have hcfg : Printable sample := by
    constructor <;> decide
  have hnames : Names sample.stations ["front; #1".toList, " [gate] = ".toList] := by
    constructor <;> decide
  have hifaces : Separates sample.ifaceList "eth0 ,\tbr lan".toList :=
    ⟨["eth0 ".toList, "\tbr lan".toList],
      .cons ⟨[], [' '], by decide, by decide, rfl⟩
        (.cons ⟨['\t'], [], by decide, by decide, rfl⟩ .nil), rfl⟩
  have hcomment : Idle "  # a comment".toList :=
    @Idle.comment "  ".toList " a comment".toList '#' (by decide) (by decide) (by decide)
  have hblank : Idle " \t".toList := .blank (by decide)
  have hspells : Spells (.entry "sip".toList sample.sip)
      "sip= \"10010101@10.0.0.7:5060\"".toList :=
    @Spells.entry "sip".toList sample.sip [] [' '] (by decide) (by decide)
  have hentry : Holds (.entry "sip".toList sample.sip)
      "\tsip= \"10010101@10.0.0.7:5060\"  ; \"the monitor".toList :=
    @Holds.commented _ ['\t'] _ "  ".toList " \"the monitor".toList ';' (by decide) hspells
      (by decide) (by decide) (by decide)
  refine parseIni_prints hcfg hnames (by decide) ⟨_, _, hifaces, ?_, by decide +kernel, rfl⟩
  exact .idle hcomment (.idle hblank (.item hentry (lists_spelling _)))

/-- A configuration with one station and nothing else. -/
def lone : Config :=
  { default with stations := [Station.default] }

/-- A name that goes over the end of its line is not read back. -/
theorem print_feed_not_read :
    Printable lone ∧ Names lone.stations ["a\nb".toList] ∧
      Prints lone ["a\nb".toList] (print lone ["a\nb".toList]) ∧
      parseIni (print lone ["a\nb".toList]) default =
        .error (.parse 19 (.invalidHeader "[station \"a".toList)) := by
  have hcfg : Printable lone := by
    constructor <;> decide
  have hnames : Names lone.stations ["a\nb".toList] := by
    constructor <;> decide
  exact ⟨hcfg, hnames, prints_print _ _ (by decide +kernel), by decide +kernel⟩

end DoorAccess.Config
