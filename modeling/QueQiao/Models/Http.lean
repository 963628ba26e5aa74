import QueQiao.Metrics.ActiveRequests
import QueQiao.Models.Json

namespace QueQiao

structure StatusCode where
  asU16 : ℕ
  three_digits : 100 ≤ asU16 ∧ asU16 < 1000
  deriving DecidableEq

namespace StatusCode

def isSuccess (s : StatusCode) : Bool := 200 ≤ s.asU16 && s.asU16 < 300
def isClientError (s : StatusCode) : Bool := 400 ≤ s.asU16 && s.asU16 < 500
def isServerError (s : StatusCode) : Bool := 500 ≤ s.asU16 && s.asU16 < 600

def ok : StatusCode := ⟨200, by decide⟩
def badRequest : StatusCode := ⟨400, by decide⟩
def unauthorized : StatusCode := ⟨401, by decide⟩
def unprocessableEntity : StatusCode := ⟨422, by decide⟩
def internalServerError : StatusCode := ⟨500, by decide⟩
def badGateway : StatusCode := ⟨502, by decide⟩
def serviceUnavailable : StatusCode := ⟨503, by decide⟩
def gatewayTimeout : StatusCode := ⟨504, by decide⟩

end StatusCode

structure AccessLogMeta where
  model : String
  backend : String
  error : Option String
  requestBody : Option String
  deriving DecidableEq, Repr

inductive Body
  | json (v : Json)
  | events
  | bytes (b : List UInt8)

/-- A response: `log` is its `AccessLogMeta` extension, `guard` the labels of the active request
guard that its body holds, and `streamingMarker` whether it has the extension `()`. -/
structure Response where
  status : StatusCode
  body : Body
  log : Option AccessLogMeta := none
  guard : Option ActiveRequestLabels := none
  streamingMarker : Bool := false

def Response.logIfNone (entry : AccessLogMeta) (resp : Response) : Response :=
  { resp with log := resp.log.or (some entry) }

structure ReqwestError where
  isTimeout : Bool
  isConnect : Bool
  status : Option StatusCode
  text : String

inductive AppError
  | reqwestError (err : ReqwestError)
  | databaseError (text : String)
  | clientNotFound (model : String)
  | upstreamError (message : String)
  | invalidHeader (message : String)
  | internalServerError (message : String)
  | apiError (status : StatusCode) (message errorType : String)

def buildErrorBody (message errorType : String) : Json :=
  .obj [
    ("error", .obj [
      ("code", .null),
      ("message", .str message),
      ("param", .null),
      ("type", .str errorType)]),
    ("error_type", .str errorType)]

namespace AppError

def parts : AppError → StatusCode × String × String
  | reqwestError err =>
    if err.isTimeout then
      (.gatewayTimeout, s!"Request to upstream timed out: {err.text}", "timeout_error")
    else if err.isConnect then
      (.badGateway, s!"Failed to connect to upstream: {err.text}", "connection_error")
    else
      match err.status with
      | some status => (status, s!"Upstream returned error: {err.text}", "upstream_error")
      | none =>
        (.internalServerError, s!"External request failed: {err.text}", "internal_error")
  | databaseError text =>
    (.internalServerError, s!"Database operation failed: {text}", "database_error")
  | clientNotFound model =>
    (.unprocessableEntity, "The model " ++ "\x60" ++ model ++ "\x60 does not exist.",
      "Input Validation Error")
  | upstreamError message => (.badGateway, message, "upstream_error")
  | invalidHeader message => (.badRequest, message, "invalid_request_error")
  | internalServerError message => (.internalServerError, message, "internal_error")
  | apiError status message errorType => (status, message, errorType)

def intoResponse (e : AppError) : Response :=
  let (status, errorMessage, errorType) := e.parts
  { status := status
    body := .json (buildErrorBody errorMessage errorType)
    log := some ⟨"-", "unknown", some errorMessage, none⟩ }

end AppError

end QueQiao
