import NativeKiln.Codec.JsString

/-!
# Typed domain errors

The errors a request may end in on purpose, with the answer they are sent as
(`packages/shared/src/errors.ts`). Everything else that is thrown is in `Exn`, which is what a
`catch` clause of the API can meet.
-/

namespace NativeKiln

open JsString (lit)

/-- A JSON value. -/
inductive Json
  | null
  | bool (b : Bool)
  | num (n : ℤ)
  | str (s : JsString)
  | arr (items : List Json)
  | obj (fields : List (JsString × Json))

/-! ## Domain errors -/

inductive DomainErrorCode
  | VALIDATION
  | UNAUTHORIZED
  | FORBIDDEN
  | NOT_FOUND
  | CONFLICT
  | RATE_LIMITED
  | INVALID_STATE_TRANSITION
  | CONFIGURATION
  | INTERNAL
  deriving DecidableEq, Repr

namespace DomainErrorCode

/-- The code as the source spells it. -/
def text : DomainErrorCode → JsString
  | VALIDATION => lit "VALIDATION"
  | UNAUTHORIZED => lit "UNAUTHORIZED"
  | FORBIDDEN => lit "FORBIDDEN"
  | NOT_FOUND => lit "NOT_FOUND"
  | CONFLICT => lit "CONFLICT"
  | RATE_LIMITED => lit "RATE_LIMITED"
  | INVALID_STATE_TRANSITION => lit "INVALID_STATE_TRANSITION"
  | CONFIGURATION => lit "CONFIGURATION"
  | INTERNAL => lit "INTERNAL"

/-- `HTTP_STATUS`. -/
def httpStatus : DomainErrorCode → ℕ
  | VALIDATION => 400
  | UNAUTHORIZED => 401
  | FORBIDDEN => 403
  | NOT_FOUND => 404
  | CONFLICT => 409
  | RATE_LIMITED => 429
  | INVALID_STATE_TRANSITION => 409
  | CONFIGURATION => 500
  | INTERNAL => 500

end DomainErrorCode

structure DomainError where
  code : DomainErrorCode
  message : JsString
  details : Option (List (JsString × Json)) := none

namespace DomainError

def httpStatus (e : DomainError) : ℕ := e.code.httpStatus

/-- The body sent for the error: code and message, and the details when there are some. -/
def toSafeResponse (e : DomainError) : Json :=
  .obj [(lit "error", .obj
    ([(lit "code", .str e.code.text), (lit "message", .str e.message)]
      ++ match e.details with
        | some details => [(lit "details", .obj details)]
        | none => []))]

end DomainError

def ValidationError (message : JsString) (details : Option (List (JsString × Json))) :
    DomainError := ⟨.VALIDATION, message, details⟩

def ConfigurationError (message : JsString) : DomainError := { code := .CONFIGURATION, message }

def InvalidStateTransitionError (source target : JsString) : DomainError where
  code := .INVALID_STATE_TRANSITION
  message := lit "Cannot transition from " ++ source ++ lit " to " ++ target
  details := some [(lit "from", .str source), (lit "to", .str target)]

/-! ## What can be thrown -/

/-- What `HttpException.getResponse` returns. -/
inductive HttpBody
  | text (s : JsString)
  | object (fields : List (JsString × Json))

/-- Anything a `catch` clause can meet. Prisma, Redis and the S3 client reject with `error`. -/
inductive Exn
  /-- A `DomainError`. -/
  | domain (e : DomainError)
  /-- A Nest `HttpException`. -/
  | http (status : ℕ) (body : HttpBody)
  /-- Any other `Error`. -/
  | error (message stack : JsString)
  /-- A value that is no `Error`, by its `String(value)`. -/
  | other (value : JsString)

end NativeKiln
