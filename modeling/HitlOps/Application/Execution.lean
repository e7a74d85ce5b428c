import HitlOps.Application.Revalidation

/-!
# Execution

`ExecutionService.execute_permit` of `application/execution.py`: the only path from a permit to an
adapter call. The call runs while the intent row is locked.
-/

set_option autoImplicit false

namespace HitlOps.Application

open HitlOps.Python HitlOps.Domain HitlOps.Infrastructure HitlOps.Adapters HitlOps.Transaction

/-- `classify_outcome`; `none` when the result's outcome is not an `ExecutionOutcome`. -/
def classifyOutcome : ExecuteAnswer → Option (ExecutionOutcome × Option String)
  | .timeout => some (.unknown, some "adapter_timeout_after_send")
  | .preSend => some (.failed, some "adapter_pre_send_rejected")
  | .error => some (.unknown, some "adapter_unavailable")
  | .cancelled => none
  | .result r => (ExecutionOutcome.parse? r.outcome).map fun outcome => (outcome, r.errorCode)

/-- `_TARGET_STATE`. -/
def targetState : ExecutionOutcome → IntentState
  | .succeeded => .succeeded
  | .failed => .failed
  | .unknown => .executionUnknown

/-- `ExecutionRecord`. -/
structure ExecutionRecord where
  executionId : UUID
  key : RevisionKey
  state : IntentState
  outcome : ExecutionOutcome
  providerOperationId : Option String
  errorCode : Option String
  summary : Dict

namespace ExecutionService

/-- The outbox payload of `_record_transition`. -/
def transitionPayload (intent : ActionIntent) (target : IntentState) (commandId : String) :
    Dict :=
  [("tenant_id", .str intent.key.tenantId), ("intent_id", .str intent.key.intentId.text),
    ("revision", .int intent.key.revision), ("to_state", .str target.value),
    ("command_id", .str commandId)]

/-- `_record_transition` of the execution service. -/
def recordTransition (intent : ActionIntent) (target : IntentState)
    (workerId commandId reasonCode : String) (dbNow : Time) : M ActionIntent :=
  appendTransition intent target ⟨"system", workerId, commandId, reasonCode⟩ dbNow
    ("execution." ++ target.lowered) (transitionPayload intent target commandId)

end ExecutionService

/-- `error_code or default`. -/
def reasonOr (errorCode : Option String) (default : String) : String :=
  match errorCode with
  | some code => if code = "" then default else code
  | none => default

/-- The adapter's result, when the call returned one. -/
def resultOf : ExecuteAnswer → Option AdapterResult
  | .result r => some r
  | _ => none

/-- The execution row after a classified call. -/
def finishedExecution (rt : Runtime) (execution : Execution) (answer : ExecuteAnswer)
    (outcome : ExecutionOutcome) (errorCode : Option String) (dbNow : Time) : Execution :=
  { execution with
    status := outcome.status
    providerOperationId := (resultOf answer).bind (·.providerOperationId)
    errorCode
    finishedAt := some dbNow
    resultSummary :=
      match resultOf answer with
      | some r => some (sanitizeRawProposal rt (.dict r.summary))
      | none => execution.resultSummary }

/-- The part of `execute_permit` behind the call: classify, then record. -/
def recordOutcome (rt : Runtime) (intent : ActionIntent) (execution : Execution)
    (answer : ExecuteAnswer) (workerId commandId : String) : M ExecutionRecord :=
  match classifyOutcome answer with
  -- A cancelled call passes `except Exception`; a text that is no outcome raises in the enumeration.
  | none => .raise (if answer = .cancelled then .cancelled else .value "invalid outcome")
  | some (outcome, errorCode) => do
      -- The clock of the process, not that of the transaction.
      let dbNow ← Prog.draw (D := Db) .now
      let target := targetState outcome
      let _ ← ExecutionService.recordTransition intent target workerId commandId
        (reasonOr errorCode ("execution_" ++ outcome.lowered)) dbNow
      let finished := finishedExecution rt execution answer outcome errorCode dbNow
      flush (.updateExecution execution finished)
      return ⟨execution.id, intent.key, target, outcome, finished.providerOperationId, errorCode,
        finished.resultSummary.getD []⟩

/-- The command that a permit sends. -/
def adapterCommand (permit : ExecutionPermit) : AdapterCommand :=
  ⟨permit.operationKey, permit.preconditionToken, permit.typedParameters, permit.resourceVersion⟩

/-- `ExecutionService.execute_permit`. -/
def executePermit (rt : Runtime) (permit : ExecutionPermit) (workerId commandId : String) :
    M ExecutionRecord := do
  let found ← Prog.query (D := Db) (·.execution? permit.executionId)
  let execution ← Prog.orRaise .noResult found
  let intent ← lockIntent permit.key
  if intent.state ≠ .executing then
    .raise (.stateConflictError ("intent is not executing: " ++ intent.state.value))
  else do
    -- The call runs under the lock of the intent row.
    let answer ← Prog.call (D := Db) (.execute permit.tool (adapterCommand permit))
    recordOutcome rt intent execution answer workerId commandId

end HitlOps.Application
