import Mathlib.Algebra.Group.Nat.Defs
import HitlOps.Application.Execution

/-!
# Reconciliation

`ReconciliationService.reconcile` of `application/reconciliation.py`. The execution row is read
before the intent row is locked; the columns it writes are computed from that reading.
-/

set_option autoImplicit false

namespace HitlOps.Application

open HitlOps.Python HitlOps.Domain HitlOps.Infrastructure HitlOps.Adapters HitlOps.Transaction

/-- `MAX_RECONCILE_ATTEMPTS`. -/
def maxReconcileAttempts : Nat := 5

/-- `RECONCILE_BACKOFF_BASE_SECONDS`. -/
def reconcileBackoffBaseSeconds : Nat := 5

/-- `RECONCILE_BACKOFF_CEILING_SECONDS`. -/
def reconcileBackoffCeilingSeconds : Nat := 300

/-- `reconcile_backoff_seconds`. -/
def reconcileBackoffSeconds (attempts : Nat) : Nat :=
  if attempts < 1 then reconcileBackoffBaseSeconds
  else min (reconcileBackoffBaseSeconds * 2 ^ (attempts - 1)) reconcileBackoffCeilingSeconds

/-- `ReconciliationResult`. -/
structure ReconciliationResult where
  executionId : UUID
  outcome : ExecutionOutcome
  state : IntentState
  escalated : Bool
  summary : Dict

namespace Reconciliation

/-- `_record_transition` of the reconciliation service. -/
def recordTransition (intent : ActionIntent) (target : IntentState)
    (workerId commandId reasonCode : String) (dbNow : Time) : M ActionIntent :=
  appendTransition intent target ⟨"system", workerId, commandId, reasonCode⟩ dbNow
    "execution.reconciled" (ExecutionService.transitionPayload intent target commandId)

end Reconciliation

/-- The evidence of a lookup; an exception leaves the outcome unknown. -/
def evidenceOf (execution : Execution) : LookupAnswer → AdapterResult
  | .result r => r
  | _ => ⟨"UNKNOWN", execution.providerOperationId, [("evidence", .str "provider_unavailable")],
      none⟩

/-- The execution row after a lookup that resolved nothing. -/
def unresolvedExecution (rt : Runtime) (execution : Execution) (evidence : AdapterResult)
    (dbNow : Time) : Execution :=
  let attempts := execution.reconcileAttempts + 1
  let exhausted := maxReconcileAttempts ≤ attempts
  { execution with
    reconcileAttempts := attempts
    status := .unknown
    nextReconcileAt :=
      if exhausted then none else some (dbNow + seconds (reconcileBackoffSeconds attempts))
    resultSummary := some (sanitizeRawProposal rt (.dict
      [("escalated", .bool true), ("evidence", .dict evidence.summary),
        ("reconcile_attempts", .int attempts), ("reconcile_exhausted", .bool exhausted)]))
    errorCode := if exhausted then some "reconcile_attempts_exhausted" else execution.errorCode }

/-- The payload of `execution.reconciliation_exhausted`. -/
def exhaustedPayload (execution : Execution) (attempts : Nat) (commandId : String) : Dict :=
  [("tenant_id", .str execution.key.tenantId), ("intent_id", .str execution.key.intentId.text),
    ("revision", .int execution.key.revision), ("attempts", .int attempts),
    ("command_id", .str commandId)]

/-- UNKNOWN is kept: count the attempt, schedule the next one, or hand over to the operators. -/
def keepUnknown (rt : Runtime) (execution : Execution) (evidence : AdapterResult)
    (commandId : String) (dbNow : Time) : M ReconciliationResult := do
  let updated := unresolvedExecution rt execution evidence dbNow
  if maxReconcileAttempts ≤ updated.reconcileAttempts then do
    flush (.insertOutbox "execution.reconciliation_exhausted"
      (exhaustedPayload execution updated.reconcileAttempts commandId))
    flush (.updateExecution execution updated)
    return ⟨execution.id, .unknown, .executionUnknown, true, updated.resultSummary.getD []⟩
  else do
    flush (.updateExecution execution updated)
    return ⟨execution.id, .unknown, .executionUnknown, true, updated.resultSummary.getD []⟩

/-- The execution row after a lookup that resolved the outcome. -/
def resolvedExecution (rt : Runtime) (execution : Execution) (evidence : AdapterResult)
    (outcome : ExecutionOutcome) (dbNow : Time) : Execution :=
  { execution with
    status := outcome.status
    providerOperationId :=
      match evidence.providerOperationId with
      -- `evidence.provider_operation_id or execution.provider_operation_id`
      | some id => if id = "" then execution.providerOperationId else some id
      | none => execution.providerOperationId
    finishedAt := some dbNow
    resultSummary := some (sanitizeRawProposal rt (.dict evidence.summary))
    nextReconcileAt := none
    errorCode := none }

/-- The provider resolved the outcome: record the final state. -/
def resolveOutcome (rt : Runtime) (intent : ActionIntent) (execution : Execution)
    (evidence : AdapterResult) (outcome : ExecutionOutcome) (workerId commandId : String)
    (dbNow : Time) : M ReconciliationResult := do
  let target := if outcome = .succeeded then IntentState.succeeded else .failed
  let _ ← Reconciliation.recordTransition intent target workerId commandId
    ("reconciled_" ++ outcome.lowered) dbNow
  let updated := resolvedExecution rt execution evidence outcome dbNow
  flush (.updateExecution execution updated)
  return ⟨execution.id, outcome, target, false, updated.resultSummary.getD []⟩

/-- The part of `reconcile` behind the lookup. -/
def recordEvidence (rt : Runtime) (intent : ActionIntent) (execution : Execution)
    (answer : LookupAnswer) (workerId commandId : String) : M ReconciliationResult :=
  if answer = .cancelled then .raise .cancelled
  else do
    -- An adapter that fails is evidence of nothing, like one that does not know.
    let evidence := evidenceOf execution answer
    let dbNow ← Prog.draw (D := Db) .now
    if answer = .error ∨ evidence.outcome = "UNKNOWN" then
      keepUnknown rt execution evidence commandId dbNow
    else
      match ExecutionOutcome.parse? evidence.outcome with
      | none => .raise (.value "invalid outcome")
      | some outcome =>
          resolveOutcome rt intent execution evidence outcome workerId commandId dbNow

/-- `ReconciliationService.reconcile`. -/
def reconcile (rt : Runtime) (executionId : UUID) (workerId commandId : String) :
    M ReconciliationResult := do
  let found ← Prog.query (D := Db) (·.execution? executionId)
  let execution ← Prog.orRaise (.notFoundError "execution not found") found
  let intent ← lockIntent execution.key
  if intent.state ≠ .executionUnknown then
    .raise (.stateConflictError
      ("execution is not awaiting reconciliation: " ++ intent.state.value))
  else do
    let answer ← Prog.call (D := Db)
      (.lookupStatus intent.tool execution.operationKey execution.providerOperationId)
    recordEvidence rt intent execution answer workerId commandId

end HitlOps.Application
