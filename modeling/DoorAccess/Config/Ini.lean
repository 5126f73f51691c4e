import DoorAccess.Automation.State
import DoorAccess.Config.Uri
import DoorAccess.Lib.Utf8

/-!
# The configuration file

The engine of `parse_ini` reads the lines of an INI text and hands each field to a sink; it knows
comments, headers, quotes and the rule that a new subsection name begins a new element, but no
field.

The texts of warnings and errors are kept as their format and the values it quotes.
-/

set_option autoImplicit false
set_option relaxedAutoImplicit false

namespace DoorAccess.Config

open AutomationState (trim)

/-- A string of the configuration, as its characters. -/
abbrev Text := List Char

/-- `str::len`. -/
def byteLen (s : Text) : ℕ :=
  (Utf8.encode s).length

/-! ### Errors and warnings -/

/-- The messages of a parse error. -/
inductive ParseMessage
  | lineTooLong
  | invalidHeader (s : Text)
  | emptyHeader
  | subsectionNotQuoted (s : Text)
  | missingEq (s : Text)
  | emptyKey (s : Text)
  | expectsInt (key value : Text)
  | expectsBool (key value : Text)
  | isStruct (key : Text)
  | isSliceOfStruct (key : Text)
  | expectedStruct (sect : Text)
  | expectedSlice (sect subname : Text)
  deriving DecidableEq

inductive Warning
  | unknownSection (sect : Text)
  | unknownSubsection (sect subname : Text)
  | unknownKey (key : Text)
  | unknownKeyIn (key sect : Text)
  | unknownKeyInSubsection (key sect subname : Text)
  deriving DecidableEq

/-- The field `want` of a validation error. -/
inductive Want
  | sipUri
  | validSipUri (err : UriReject)
  | oneStation
  | nonEmptySipUri
  | flvOrMjpeg
  deriving DecidableEq

structure ValidationError where
  field : Text
  value : Text
  want : Want
  deriving DecidableEq

/-- The message of a read error. -/
inductive ReadMessage
  | os (text : String)
  | notUtf8
  deriving DecidableEq

inductive ConfigError
  | notFound (path : String)
  | read (path : String) (msg : ReadMessage)
  | parse (line : ℕ) (msg : ParseMessage)
  | validation (err : ValidationError)
  deriving DecidableEq

/-! ### Lines -/

/-- The loop that looks for a comment: what is in front of the first `;` or `#` outside quotes. -/
def cutComment : Bool → Text → Text
  | _, [] => []
  | inQuote, c :: s =>
    if c = '"' then c :: cutComment (!inQuote) s
    else if inQuote = false ∧ (c = ';' ∨ c = '#') then []
    else c :: cutComment inQuote s

/-- `trim_end_matches([' ', '\t'])`. -/
def trimEndBlanks (s : Text) : Text :=
  (s.reverse.dropWhile fun c ↦ c == ' ' || c == '\t').reverse

def stripCommentTrim (s : Text) : Option Text :=
  let s := trim s
  if s = [] then none
  else if s.head? = some ';' ∨ s.head? = some '#' then none
  else
    let out := trimEndBlanks (cutComment false s)
    if out = [] then none else some out

/-- The text has at least two characters and is in quotes. -/
def isQuoted (s : Text) : Bool :=
  2 ≤ s.length && s.head? == some '"' && s.getLast? == some '"'

/-- The text without its first and its last character. -/
def unquote (s : Text) : Text :=
  s.tail.dropLast

/-- `[name]` or `[name "subname"]`, as the name and the subname. -/
def parseSectionHeader (s : Text) : Except ParseMessage (Text × Text) :=
  if byteLen s < 3 ∨ s.getLast? ≠ some ']' then .error (.invalidHeader s)
  else
    let inner := trim (unquote s)
    if inner = [] then .error .emptyHeader
    else
      match inner.idxOf? ' ' with
      | none | some 0 => .ok (inner, [])
      | some sp =>
        let name := trim (inner.take sp)
        let rest := trim (inner.drop (sp + 1))
        if isQuoted rest then .ok (name, unquote rest) else .error (.subsectionNotQuoted s)

/-- `key = value`. -/
def parseKeyValue (s : Text) : Except ParseMessage (Text × Text) :=
  match s.idxOf? '=' with
  | none => .error (.missingEq s)
  | some eq =>
    let key := trim (s.take eq)
    if key = [] then .error (.emptyKey s)
    else
      let value := trim (s.drop (eq + 1))
      .ok (key, if isQuoted value then unquote value else value)

/-! ### Values -/

/-- The values are kept in the range of an `i32`. -/
def convInt (value key : Text) : Except ParseMessage ℤ :=
  if value = [] then .ok 0
  else
    match Codec.parseI64 (Utf8.encode value) with
    | none => .error (.expectsInt key value)
    | some n =>
      if n < -2147483648 ∨ 2147483647 < n then .error (.expectsInt key value) else .ok n

def convBool (value key : Text) : Except ParseMessage Bool :=
  let lower := value.map Char.toLower
  if lower = "true".toList ∨ lower = "1".toList then .ok true
  else if lower = "false".toList ∨ lower = "0".toList ∨ lower = [] then .ok false
  else .error (.expectsBool key value)

def convStringArray (value : Text) : List Text :=
  if value = [] then []
  else ((value.splitOn ',').map trim).filter fun p ↦ p ≠ []

/-! ### The engine -/

/-- What a sink says about one field. -/
inductive FieldOutcome
  | set
  | unknown
  | typeErr (msg : ParseMessage)
  deriving DecidableEq

/-- Where the fields go. A setter returns the sink that it has changed. -/
class IniSink (S : Type) where
  setTop : S → Text → Text → S × FieldOutcome
  sectionKnown : S → Text → Bool
  sectionIsStruct : S → Text → Bool
  sectionIsSlice : S → Text → Bool
  setSection : S → Text → Text → Text → S × FieldOutcome
  subsectionLen : S → Text → ℕ
  appendSubsection : S → Text → S
  setSubsection : S → Text → Text → Text → S × FieldOutcome

def setLastSubname : List (Text × Text) → Text → Text → List (Text × Text)
  | [], sect, subname => [(sect, subname)]
  | e :: map, sect, subname =>
    if e.1 = sect then (e.1, subname) :: map else e :: setLastSubname map sect subname

/-- The sink and the locals of `parse_ini`. -/
structure ParseState (S : Type) where
  sink : S
  sect : Text
  subname : Text
  lastSubname : List (Text × Text)
  warnings : List Warning

section Engine

variable {S : Type} [IniSink S]

def ParseState.start (sink : S) : ParseState S where
  sink := sink
  sect := []
  subname := []
  lastSubname := []
  warnings := []

/-- What follows a setter. -/
def ParseState.outcome (s : ParseState S) (lineNo : ℕ) (set : S × FieldOutcome)
    (warning : Warning) : Except ConfigError (ParseState S) :=
  match set.2 with
  | .set => .ok { s with sink := set.1 }
  | .unknown => .ok { s with sink := set.1, warnings := s.warnings ++ [warning] }
  | .typeErr msg => .error (.parse lineNo msg)

/-- A header. -/
def ParseState.header (s : ParseState S) (lineNo : ℕ) (line : Text) :
    Except ConfigError (ParseState S) :=
  match parseSectionHeader line with
  | .error msg => .error (.parse lineNo msg)
  | .ok (sect, sub) =>
    let warnings :=
      if sect ≠ [] ∧ sub = [] then
        if IniSink.sectionKnown s.sink sect then [] else [.unknownSection sect]
      else if sect ≠ [] ∧ sub ≠ [] ∧ IniSink.sectionKnown s.sink sect = false then
        [.unknownSubsection sect sub]
      else []
    .ok { s with sect := sect, subname := sub, warnings := s.warnings ++ warnings }

/-- The sink and the last subnames when a key of a subsection is about to be set: an element is
appended if the subname is another one than the last time, or if there is no element. -/
def ParseState.lazyAppend (s : ParseState S) : ParseState S :=
  if (s.lastSubname.find? fun e ↦ e.1 == s.sect).map Prod.snd ≠ some s.subname ∨
      IniSink.subsectionLen s.sink s.sect = 0 then
    { s with
      sink := IniSink.appendSubsection s.sink s.sect
      lastSubname := setLastSubname s.lastSubname s.sect s.subname }
  else s

/-- A key with its value. -/
def ParseState.keyValue (s : ParseState S) (lineNo : ℕ) (line : Text) :
    Except ConfigError (ParseState S) :=
  match parseKeyValue line with
  | .error msg => .error (.parse lineNo msg)
  | .ok (key, value) =>
    if s.sect = [] then s.outcome lineNo (IniSink.setTop s.sink key value) (.unknownKey key)
    else if IniSink.sectionKnown s.sink s.sect = false then .ok s
    else if s.subname = [] then
      if IniSink.sectionIsStruct s.sink s.sect then
        s.outcome lineNo (IniSink.setSection s.sink s.sect key value) (.unknownKeyIn key s.sect)
      else .error (.parse lineNo (.expectedStruct s.sect))
    else if IniSink.sectionIsSlice s.sink s.sect then
      let s := s.lazyAppend
      s.outcome lineNo (IniSink.setSubsection s.sink s.sect key value)
        (.unknownKeyInSubsection key s.sect s.subname)
    else .error (.parse lineNo (.expectedSlice s.sect s.subname))

/-- One turn of the loop over the lines. -/
def ParseState.line (s : ParseState S) (lineNo : ℕ) (raw : Text) :
    Except ConfigError (ParseState S) :=
  if 1048576 ≤ byteLen raw then .error (.parse lineNo .lineTooLong)
  else
    match stripCommentTrim raw with
    | none => .ok s
    | some line =>
      if line.head? = some '[' then s.header lineNo line else s.keyValue lineNo line

/-- `parse_ini`, with the sink as it leaves it and the warnings. -/
def parseIni (input : Text) (sink : S) : Except ConfigError (S × List Warning) := do
  let s ← ((input.splitOn '\n').zipIdx 1).foldlM (fun s line ↦ s.line line.2 line.1)
    (ParseState.start sink)
  return (s.sink, s.warnings)

end Engine

end DoorAccess.Config
