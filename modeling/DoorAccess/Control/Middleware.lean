import DoorAccess.Config.Load
import DoorAccess.Control.Address
import DoorAccess.Control.Respond
import DoorAccess.Httpx.Json
import DoorAccess.Httpx.Mux

/-!
# What stands before the handlers

The helpers of `control.rs` that answer with JSON, and the guards a request passes before the
handler of its endpoint sees it: the method, the content type, and whether any door station is
configured.

A guard either answers itself, and then the state is what it was, or it hands the request on as it
came. What a chain of guards lets through is stated once for each chain (`chainBusinessPost_eq`,
`chainControlPost_eq`), and no proof about a handler looks into a guard again.
-/

set_option autoImplicit false
set_option relaxedAutoImplicit false

namespace DoorAccess.Control

open AutomationState (trim)
open Codec Httpx

def STATUS_BAD_REQUEST : ℕ := 400
def STATUS_NOT_FOUND : ℕ := 404
def STATUS_METHOD_NOT_ALLOWED : ℕ := 405
def STATUS_CONFLICT : ℕ := 409
def STATUS_UNSUPPORTED_MEDIA : ℕ := 415
def STATUS_GATEWAY_TIMEOUT : ℕ := 504

def MAX_JSON_BODY_BYTES : ℕ := 1024 * 1024

/-- `result::NO_CONFIG`. -/
def NO_CONFIG : ℤ := -100

/-! ### Answers -/

def writeJson (status : ℕ) (body : Option (List (Text × JsonValue))) : List Call :=
  .set "Content-Type".toList "application/json".toList ::
    match body with
    | none => [.set "Content-Length".toList "0".toList, .writeHeader status]
    | some fields =>
      let buf := encodeStruct fields .MARSHAL
      [.set "Content-Length".toList (natText buf.length), .writeHeader status, .write buf]

def errorJson (status : ℕ) (msg : Text) : List Call :=
  writeJson status (some [("error".toList, .string msg)])

/-- `read_request_body`, through `parse_json_body` and `read_json_body`. The body of a request is in
memory, so that reading it cannot fail. -/
def readRequestBody (r : Request) : Except Text (List UInt8) :=
  let raw := r.body.take MAX_JSON_BODY_BYTES
  if raw.isEmpty then .ok raw
  else match validateJsonSyntax raw with
    | .error e => .error (textOfStr e)
    | .ok _ => .ok raw

/-! ### The guards -/

variable {σ : Type*}

/-- The answer to a method that is not allowed. -/
def notAllowed (method allowed : Text) : List Call :=
  .set "Allow".toList allowed :: errorJson STATUS_METHOD_NOT_ALLOWED
    ("method ".toList ++ method ++ " not allowed; use ".toList ++ allowed)

def methodGuard (allowed : Text) (inner : Handler σ) : Handler σ := fun r s ↦
  if r.method ≠ allowed then (notAllowed r.method allowed, s) else inner r s

def methodGuardPost (inner : Handler σ) : Handler σ :=
  methodGuard METHOD_POST inner

def isJsonMediaType (ct : Text) : Bool :=
  if ct = [] then false
  else
    let mediaType := match ct.idxOf? ';' with
      | some i => ct.take i
      | none => ct
    Httpx.eqIgnoreAsciiCase (trim mediaType) "application/json".toList

variable (cases : CaseTable)

/-- The media type that `require_json_content_type` looks at. -/
def contentType (r : Request) : Text :=
  (r.header.get cases "Content-Type".toList).getD []

def requireJsonContentType (inner : Handler σ) : Handler σ := fun r s ↦
  if ¬isJsonMediaType (contentType cases r) then
    (errorJson STATUS_UNSUPPORTED_MEDIA "Content-Type must be application/json".toList, s)
  else inner r s

/-- The answer of a daemon without door stations. -/
def notConfigured : List Call :=
  writeJson STATUS_OK (some [("result".toList, .number NO_CONFIG)])

def requireStationsConfigured (cfg : Config) (inner : Handler σ) : Handler σ := fun r s ↦
  if cfg.stations.isEmpty then (notConfigured, s) else inner r s

def chainBusinessPost (cfg : Config) (inner : Handler σ) : Handler σ :=
  methodGuardPost (requireJsonContentType cases (requireStationsConfigured cfg inner))

def chainControlPost (inner : Handler σ) : Handler σ :=
  methodGuardPost (requireJsonContentType cases inner)

/-! ### What a chain lets through -/

/-- A `POST` of JSON. -/
def Posted (r : Request) : Prop :=
  r.method = METHOD_POST ∧ isJsonMediaType (contentType cases r) = true

instance (r : Request) : Decidable (Posted cases r) :=
  inferInstanceAs (Decidable (_ ∧ _))

/-- The answer to a request that is no `POST` of JSON. -/
def notPosted (r : Request) : List Call :=
  if r.method ≠ METHOD_POST then notAllowed r.method METHOD_POST
  else errorJson STATUS_UNSUPPORTED_MEDIA "Content-Type must be application/json".toList

variable {cases}

theorem chainControlPost_eq (inner : Handler σ) (r : Request) (s : σ) :
    chainControlPost cases inner r s =
      if Posted cases r then inner r s else (notPosted r, s) := by
  unfold chainControlPost methodGuardPost methodGuard requireJsonContentType Posted notPosted
  by_cases hmethod : r.method = METHOD_POST
  · by_cases hmedia : isJsonMediaType (contentType cases r) = true
    · simp [hmethod, hmedia]
    · simp [hmethod, hmedia]
  · simp [hmethod]

theorem chainBusinessPost_eq (cfg : Config) (inner : Handler σ) (r : Request) (s : σ) :
    chainBusinessPost cases cfg inner r s =
      if Posted cases r then
        if cfg.stations = [] then (notConfigured, s) else inner r s
      else (notPosted r, s) := by
  have hchain : chainBusinessPost cases cfg inner =
      chainControlPost cases (requireStationsConfigured cfg inner) := rfl
  rw [hchain, chainControlPost_eq]
  unfold requireStationsConfigured
  simp only [List.isEmpty_iff]

/-- The media type may have parameters, blanks around it and any case. -/
example : isJsonMediaType " Application/JSON ; charset=utf-8".toList = true := by decide +kernel

end DoorAccess.Control
