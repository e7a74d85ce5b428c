import HitlOps.Python.Json
import HitlOps.Domain.Enums

/-!
# Adapter contract

The values of `adapters/base.py` and the ways a call to an adapter or to the proposal provider can
end. `cancelled` is a `BaseException`, which the callers do not catch.
-/

set_option autoImplicit false

namespace HitlOps.Adapters

open HitlOps.Python HitlOps.Domain

/-- `TargetSnapshot`. -/
structure TargetSnapshot where
  found : Bool
  identity : Dict
  health : String
  facts : Dict
  resourceVersion : Option String
deriving DecidableEq

/-- `AdapterCommand`. -/
structure AdapterCommand where
  operationKey : String
  preconditionToken : String
  parameters : Dict
  resourceVersion : Option String
deriving DecidableEq

/-- `AdapterResult`; the outcome is any text. -/
structure AdapterResult where
  outcome : String
  providerOperationId : Option String
  summary : Dict
  errorCode : Option String
deriving DecidableEq

/-- How `wait_for(target_query.fetch(…))` ends. -/
inductive FetchAnswer : Type
  | snapshot (s : TargetSnapshot)
  | timeout
  | error
  | cancelled
deriving DecidableEq

/-- How `wait_for(adapter.execute(…))` ends. -/
inductive ExecuteAnswer : Type
  | result (r : AdapterResult)
  | timeout
  | preSend
  | error
  | cancelled
deriving DecidableEq

/-- How `wait_for(adapter.lookup_status(…))` ends; every exception is treated alike. -/
inductive LookupAnswer : Type
  | result (r : AdapterResult)
  | error
  | cancelled
deriving DecidableEq

end HitlOps.Adapters
