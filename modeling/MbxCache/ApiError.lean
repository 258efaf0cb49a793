import MbxCache.Encoding

/-! The errors handlers answer with (`ApiError` in `server.rs`). -/

namespace MbxCache

inductive StatusCode
  | ok
  | created
  | noContent
  | badRequest
  | unauthorized
  | forbidden
  | notFound
  | conflict
  | preconditionFailed
  | payloadTooLarge
  | unprocessableEntity
  | upgradeRequired
  | preconditionRequired
  | internalServerError
  | serviceUnavailable
  deriving DecidableEq, Repr

def StatusCode.code : StatusCode → Nat
  | .ok => 200
  | .created => 201
  | .noContent => 204
  | .badRequest => 400
  | .unauthorized => 401
  | .forbidden => 403
  | .notFound => 404
  | .conflict => 409
  | .preconditionFailed => 412
  | .payloadTooLarge => 413
  | .unprocessableEntity => 422
  | .upgradeRequired => 426
  | .preconditionRequired => 428
  | .internalServerError => 500
  | .serviceUnavailable => 503

/-- A failure of storage, the metadata store or local disk. A full connection
pool is told apart because it clears on its own. -/
inductive Failure
  | poolTimedOut
  | fault
  deriving DecidableEq, Repr

structure ApiError where
  status : StatusCode
  message : String
  advertiseProtocol : Bool
  deriving DecidableEq, Repr

namespace ApiError

def new (status : StatusCode) (message : String) : ApiError := ⟨status, message, false⟩

def badRequest (message : String) : ApiError := new .badRequest message
def unauthorized (message : String) : ApiError := new .unauthorized message
def forbidden (message : String) : ApiError := new .forbidden message
def notFound (message : String) : ApiError := new .notFound message
def conflict (message : String) : ApiError := new .conflict message
def tooLarge (message : String) : ApiError := new .payloadTooLarge message
def unavailable (message : String) : ApiError := new .serviceUnavailable message
def unprocessable (message : String) : ApiError := new .unprocessableEntity message
def precondition (message : String) : ApiError := new .preconditionFailed message
def preconditionRequired (message : String) : ApiError := new .preconditionRequired message

def upgradeRequired : ApiError :=
  ⟨.upgradeRequired, "mbx cache protocol version 1 is required", true⟩

def internal : Failure → ApiError
  | .poolTimedOut => new .serviceUnavailable "database busy, retry later"
  | .fault => new .internalServerError "internal server error"

end ApiError
end MbxCache
