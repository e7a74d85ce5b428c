import Mathlib.Logic.Basic

/-!
# Errors

`DomainError` is the error hierarchy of `domain/errors.py` with the data the API envelope shows,
and `Error` adds the other exceptions that the modelled code raises or lets through. `cancelled`
stands for a `BaseException` such as `asyncio.CancelledError`, which `except Exception` does not
catch.
-/

set_option autoImplicit false

namespace HitlOps.Domain

/-- The class of a domain error. -/
inductive DomainErrorClass : Type
  | domain
  | illegalTransition
  | stateConflict
  | forbidden
  | approvalStale
  | approvalExpired
  | idempotencyConflict
  | notFound
deriving DecidableEq

/-- A raised domain error. -/
structure DomainError where
  cls : DomainErrorClass
  message : String
  code : String
  httpStatus : Nat
  retryable : Bool
  persistState : Bool
deriving DecidableEq

/-- The exceptions of the modelled code. -/
inductive Error : Type
  | domain (e : DomainError)
  | lookup (message : String)
  | value (message : String)
  | typeError (message : String)
  | unknownTool (message : String)
  | parameterValidation
  /-- `MultipleResultsFound` of `scalar_one` and `scalar_one_or_none`. -/
  | multipleResults
  /-- `NoResultFound` of `scalar_one`. -/
  | noResult
  /-- A `DBAPIError`; `lockConflict` marks the refusals of a row lock. -/
  | dbapi (lockConflict : Bool)
  | cancelled
deriving DecidableEq

namespace Error

/-- `except Exception` catches the error. -/
def isException : Error → Bool
  | .cancelled => false
  | _ => true

/-- `getattr(exc, "persist_state", False)`. -/
def persistState : Error → Bool
  | .domain e => e.persistState
  | _ => false

/-- `except StateConflictError` catches the error. -/
def isStateConflict : Error → Bool
  | .domain e => e.cls = .stateConflict
  | _ => false

/-- `except DomainError` catches the error. -/
def isDomain : Error → Bool
  | .domain _ => true
  | _ => false

/-- `except ApprovalExpiredError` catches the error. -/
def isApprovalExpired : Error → Bool
  | .domain e => e.cls = .approvalExpired
  | _ => false

/-! ## The classes with their defaults -/

/-- `DomainError(message, code=…, http_status=…, retryable=…)`. -/
def domainError (message code : String) (httpStatus : Nat) (retryable : Bool) : Error :=
  .domain ⟨.domain, message, code, httpStatus, retryable, false⟩

def illegalTransitionError (message : String) : Error :=
  .domain ⟨.illegalTransition, message, "STATE_CONFLICT", 409, false, false⟩

def stateConflictError (message : String) : Error :=
  .domain ⟨.stateConflict, message, "STATE_CONFLICT", 409, false, false⟩

def forbiddenError (message : String) : Error :=
  .domain ⟨.forbidden, message, "FORBIDDEN", 403, false, false⟩

def approvalStaleError (message : String) : Error :=
  .domain ⟨.approvalStale, message, "APPROVAL_STALE", 409, false, false⟩

/-- The only error with `persist_state`: the EXPIRED transition is written before it is raised. -/
def approvalExpiredError (message : String) : Error :=
  .domain ⟨.approvalExpired, message, "APPROVAL_EXPIRED", 409, false, true⟩

def idempotencyConflictError (message : String) : Error :=
  .domain ⟨.idempotencyConflict, message, "IDEMPOTENCY_CONFLICT", 409, false, false⟩

def notFoundError (message : String) : Error :=
  .domain ⟨.notFound, message, "NOT_FOUND", 404, false, false⟩

end Error

end HitlOps.Domain
