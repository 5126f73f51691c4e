import Mathlib.Data.List.Basic

/-!
# The automation state file

The two automatic actions of the daemon, opening the door and hanging up, are kept over a restart in
a file of two lines. `render` writes it, `parse` reads it back, and `loadStateFile` and
`loadAutomationFlags` are what a start does with it. `parse_render` is the round trip: every pair of
flags that is written is the pair that a start recovers.
-/

set_option autoImplicit false
set_option relaxedAutoImplicit false

namespace DoorAccess.AutomationState

structure State where
  autoUnlock : Bool
  autoHangup : Bool
  deriving DecidableEq

/-- The single error of `parse`: the file as a whole is thrown away. -/
inductive ParseError
  | parseError
  deriving DecidableEq

/-! ### Text -/

/-- The code points with the Unicode property `White_Space`, which `str::trim` takes off. -/
def isWhiteSpace (c : Char) : Bool :=
  (0x09 ≤ c.toNat && c.toNat ≤ 0x0D) || c.toNat == 0x20 || c.toNat == 0x85 || c.toNat == 0xA0 ||
    c.toNat == 0x1680 || (0x2000 ≤ c.toNat && c.toNat ≤ 0x200A) || c.toNat == 0x2028 ||
    c.toNat == 0x2029 || c.toNat == 0x202F || c.toNat == 0x205F || c.toNat == 0x3000

def trim (s : List Char) : List Char :=
  ((s.dropWhile isWhiteSpace).reverse.dropWhile isWhiteSpace).reverse

/-- `to_ascii_lowercase` leaves every character beyond ASCII as it is, and so does
`Char.toLower`. -/
def parseBool (v : List Char) : Option Bool :=
  let lower := v.map Char.toLower
  if lower = "true".toList ∨ lower = "1".toList then some true
  else if lower = "false".toList ∨ lower = "0".toList then some false
  else none

/-! ### Parsing -/

/-- The four locals of `parse`. -/
structure Scan where
  autoUnlock : Bool
  autoHangup : Bool
  sawUnlock : Bool
  sawHangup : Bool

def Scan.start : Scan where
  autoUnlock := false
  autoHangup := false
  sawUnlock := false
  sawHangup := false

/-- One turn of the loop over the lines. -/
def Scan.line (acc : Scan) (line : List Char) : Except ParseError Scan :=
  let s := trim line
  if s = [] then .ok acc
  else if s.head? = some ';' ∨ s.head? = some '#' then .ok acc
  else
    match s.findIdx? (· == '=') with
    | none | some 0 => .error .parseError
    | some eq =>
      let key := trim (s.take eq)
      let val := trim (s.drop (eq + 1))
      match parseBool val with
      | none => .error .parseError
      | some b =>
        if key = "auto_unlock".toList then .ok { acc with autoUnlock := b, sawUnlock := true }
        else if key = "auto_hangup".toList then .ok { acc with autoHangup := b, sawHangup := true }
        else .error .parseError

def parseText (text : List Char) : Except ParseError State := do
  let acc ← (text.splitOn '\n').foldlM Scan.line Scan.start
  if !acc.sawUnlock || !acc.sawHangup then .error .parseError
  else .ok ⟨acc.autoUnlock, acc.autoHangup⟩

def parse (raw : ByteArray) : Except ParseError State :=
  match raw.utf8Decode? with
  | none => .error .parseError
  | some text => parseText text.toList

/-! ### Rendering -/

def boolText (b : Bool) : List Char :=
  if b then "true".toList else "false".toList

def renderText (st : State) : List Char :=
  "auto_unlock=".toList ++ boolText st.autoUnlock ++ ['\n'] ++
    "auto_hangup=".toList ++ boolText st.autoHangup ++ ['\n']

def render (st : State) : ByteArray :=
  (String.ofList (renderText st)).toByteArray

theorem parseText_renderText (st : State) : parseText (renderText st) = .ok st := by
  obtain ⟨unlock, hangup⟩ := st
  cases unlock <;> cases hangup <;> rfl

-- Two of the repository's golden cases: the lines in the other order, and an unknown key.
example : parseText "; daemon-managed\nauto_hangup=true\nauto_unlock=0\n".toList =
    .ok ⟨false, true⟩ :=
  rfl

example : parseText "auto_unlock=true\nauto_hangup=false\nring_at=123\n".toList =
    .error .parseError :=
  rfl

/-- What is written is what is read. -/
theorem parse_render (st : State) : parse (render st) = .ok st := by
  unfold parse render
  rw [String.toByteArray_ofList, List.utf8Decode?_utf8Encode]
  exact parseText_renderText st

theorem render_injective : Function.Injective render := by
  intro st other h
  have hparsed := parse_render st
  rw [h, parse_render] at hparsed
  exact (Except.ok.inj hparsed).symm

/-! ### The start of the daemon -/

/-- Why `std::fs::read` gave no bytes. -/
inductive ReadError
  | notFound
  | other (text : String)

def loadStateFile (path : String) (read : Except ReadError ByteArray) :
    Except String (Option State) :=
  match read with
  | .ok raw =>
    match parse raw with
    | .ok st => .ok (some st)
    | .error _ => .error "state file present but unparseable"
  | .error .notFound => .ok none
  | .error (.other e) => .error ("read " ++ path ++ ": " ++ e)

/-- Where the flags of a start come from. -/
inductive FlagSource
  | state
  | config
  deriving DecidableEq

/-- The flags of a start, where they come from, and the lines logged. The environment only gives a
hint that it is not used. -/
def loadAutomationFlags (path : String) (read : Except ReadError ByteArray) (config : State)
    (envSet : Bool) : State × FlagSource × List String :=
  let ignored := if envSet then
      ["DOORACCESS_EXPERIMENTAL_AUTO_* set but ignored (config.ini present; flags from [automation])"]
    else []
  match loadStateFile path read with
  | .ok (some st) => (st, .state, [])
  | .ok none => (config, .config, ignored)
  | .error msg =>
    (config, .config,
      ("automation.state load failed, falling back to config defaults: " ++ msg) :: ignored)

theorem loadStateFile_render (path : String) (st : State) :
    loadStateFile path (.ok (render st)) = .ok (some st) := by
  simp only [loadStateFile, parse_render]

/-- A start that finds a rendered pair takes it, whatever the configuration and the environment
say. -/
theorem loadAutomationFlags_render (path : String) (st config : State) (envSet : Bool) :
    loadAutomationFlags path (.ok (render st)) config envSet = (st, .state, []) := by
  simp only [loadAutomationFlags, loadStateFile_render]

end DoorAccess.AutomationState
