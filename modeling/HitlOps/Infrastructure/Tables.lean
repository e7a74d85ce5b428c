import HitlOps.Domain.Policy
import HitlOps.Domain.Models
import HitlOps.Infrastructure.Identity

/-!
# Tables

The rows of `infrastructure/orm.py` that the modelled code reads or writes, the store as one list
per table in insertion order, the flushed writes, and their effect. Delivery columns of the outbox
and the audit table belong to the publisher and are left out.

`admissible` collects the column constraints that values from outside can violate; a flush of an
inadmissible row raises.
-/

set_option autoImplicit false

namespace HitlOps.Infrastructure

open HitlOps.Python HitlOps.Domain

/-! ## Rows -/

/-- `ActionIntentORM`. -/
structure ActionIntent where
  key : RevisionKey
  tool : ToolName
  canonicalParameters : Dict
  intentDigest : String
  requesterId : String
  requesterRationale : String
  rawProposal : Option Dict
  source : IntentSource
  state : IntentState
  stateVersion : Nat
  approvalExpiresAt : Option Time
deriving DecidableEq

/-- `intent.canonical_parameters.get("environment")`. -/
def ActionIntent.environment (i : ActionIntent) : Option Json :=
  i.canonicalParameters.get? "environment"

/-- `StateTransitionORM`. -/
structure StateTransition where
  key : RevisionKey
  fromState : Option IntentState
  toState : IntentState
  actorType : String
  actorId : String
  commandId : String
  reasonCode : String
  metadata : Dict
  sequence : Nat
  occurredAt : Time
deriving DecidableEq

/-- `RiskEvaluationORM`, generation 1. -/
structure RiskEvaluationRow where
  key : RevisionKey
  band : RiskBand
  factors : List String
  ruleVersion : String
  evaluatedContext : Dict
  evaluatedAt : Time
deriving DecidableEq

/-- `PolicyEvaluationORM`, generation 1. -/
structure PolicyEvaluationRow where
  key : RevisionKey
  evaluation : PolicyEvaluation
  evaluatedAt : Time
deriving DecidableEq

/-- The `scope_snapshot` of a decision. -/
structure ScopeSnapshot where
  environment : Option Json
  scopes : List String
  tokenScopes : List String
  obligations : List (String × String)
deriving DecidableEq

/-- `ApprovalDecisionORM`. -/
structure ApprovalDecisionRow where
  key : RevisionKey
  intentDigest : String
  level : Nat
  decision : ApprovalDecision
  actorId : String
  actorRolesSnapshot : List String
  scopeSnapshot : ScopeSnapshot
  reason : String
  policyVersion : String
  decidedAt : Time
  expiresAt : Option Time
deriving DecidableEq

/-- `ExecutionORM`. -/
structure Execution where
  id : UUID
  key : RevisionKey
  operationKey : String
  attempt : Nat
  status : ExecutionStatus
  providerOperationId : Option String
  preconditionSnapshot : Option Dict
  claimExpiresAt : Option Time
  startedAt : Option Time
  finishedAt : Option Time
  errorCode : Option String
  resultSummary : Option Dict
  reconcileAttempts : Nat
  nextReconcileAt : Option Time
deriving DecidableEq

/-- `OutboxMessageORM`, without its delivery columns. -/
structure OutboxMessage where
  sequence : Nat
  topic : String
  payload : Dict
deriving DecidableEq

inductive IdempotencyStatus : Type
  | pending
  | completed
deriving DecidableEq

/-- The unique key of `idempotency_records`. -/
structure IdempotencyKey where
  tenantId : String
  actorId : String
  scope : String
  keyHash : String
deriving DecidableEq

/-- `IdempotencyRecordORM`. -/
structure IdempotencyRecord where
  key : IdempotencyKey
  requestHash : String
  status : IdempotencyStatus
  responseStatus : Option Nat
  responseBody : Option Dict
deriving DecidableEq

/-- `RoleAssignmentORM`. -/
structure RoleAssignmentRow where
  id : UUID
  tenantId : String
  principalId : String
  role : String
  environments : List String
  scopes : List String
  environmentsKey : String
  validFrom : Time
  validUntil : Option Time
  revokedAt : Option Time
  grantedBy : String
deriving DecidableEq

/-- `PolicyBundleORM`. -/
structure PolicyBundleRow where
  id : UUID
  tenantId : String
  version : String
  rules : Dict
  isActive : Bool
deriving DecidableEq

/-- The committed tables. -/
structure Store where
  intents : List ActionIntent
  transitions : List StateTransition
  risks : List RiskEvaluationRow
  policies : List PolicyEvaluationRow
  decisions : List ApprovalDecisionRow
  executions : List Execution
  outbox : List OutboxMessage
  idempotency : List IdempotencyRecord
  assignments : List RoleAssignmentRow
  bundles : List PolicyBundleRow
deriving DecidableEq

/-- No rows. -/
def Store.empty : Store := ⟨[], [], [], [], [], [], [], [], [], []⟩

/-! ## Queries -/

namespace Store

def intent? (s : Store) (k : RevisionKey) : Option ActionIntent :=
  s.intents.find? fun r => r.key = k

def transitionsOf (s : Store) (k : RevisionKey) : List StateTransition :=
  s.transitions.filter fun r => r.key = k

def risksOf (s : Store) (k : RevisionKey) : List RiskEvaluationRow :=
  s.risks.filter fun r => r.key = k

def policiesOf (s : Store) (k : RevisionKey) : List PolicyEvaluationRow :=
  s.policies.filter fun r => r.key = k

def decisionsOf (s : Store) (k : RevisionKey) : List ApprovalDecisionRow :=
  s.decisions.filter fun r => r.key = k

/-- The lookup of `claim_and_revalidate`: by intent and revision, without the tenant. -/
def executionsOf (s : Store) (intentId : UUID) (revision : Nat) : List Execution :=
  s.executions.filter fun e => e.key.intentId = intentId ∧ e.key.revision = revision

def execution? (s : Store) (id : UUID) : Option Execution :=
  s.executions.find? fun e => e.id = id

def idempotency? (s : Store) (k : IdempotencyKey) : Option IdempotencyRecord :=
  s.idempotency.find? fun r => r.key = k

/-- `select(func.max(sequence))`; zero for no row. -/
def maxSequence (s : Store) (k : RevisionKey) : Nat :=
  (s.transitionsOf k).foldl (fun n t => max n t.sequence) 0

def assignmentsOf (s : Store) (tenantId principalId : String) : List RoleAssignmentRow :=
  s.assignments.filter fun r => r.tenantId = tenantId ∧ r.principalId = principalId

def activeBundles (s : Store) (tenantId : String) : List PolicyBundleRow :=
  s.bundles.filter fun r => r.tenantId = tenantId ∧ r.isActive = true

def bundlesOf (s : Store) (tenantId version : String) : List PolicyBundleRow :=
  s.bundles.filter fun r => r.tenantId = tenantId ∧ r.version = version

end Store

/-- A role assignment as `load_assignments` builds it. -/
def RoleAssignmentRow.assignment (r : RoleAssignmentRow) : RoleAssignment :=
  ⟨r.role, r.validFrom, r.validUntil, r.revokedAt, r.environments, r.scopes⟩

/-- The assignments of a principal, as `load_assignments` returns them. -/
def Store.loadAssignments (s : Store) (tenantId principalId : String) : List RoleAssignment :=
  (s.assignmentsOf tenantId principalId).map (·.assignment)

/-! ## Writes -/

/-- The columns of an intent that change; `approvalExpiresAt` is assigned when it is given. -/
structure IntentPatch where
  state : IntentState
  stateVersion : Nat
  approvalExpiresAt : Option Time

/-- A flushed `INSERT` or `UPDATE`. -/
inductive Write : Type
  | insertIntent (row : ActionIntent)
  | updateIntent (key : RevisionKey) (patch : IntentPatch)
  | insertTransition (row : StateTransition)
  | insertRisk (row : RiskEvaluationRow)
  | insertPolicy (row : PolicyEvaluationRow)
  | insertDecision (row : ApprovalDecisionRow)
  | insertExecution (row : Execution)
  /-- The object was loaded as `old` and holds `new`; only the columns that differ are sent. -/
  | updateExecution (old new : Execution)
  | insertOutbox (topic : String) (payload : Dict)
  | insertIdempotency (row : IdempotencyRecord)
  | completeIdempotency (key : IdempotencyKey) (responseStatus : Nat) (responseBody : Dict)
  | insertAssignment (row : RoleAssignmentRow)
  | revokeAssignment (id : UUID) (revokedAt : Time)
  | insertBundle (row : PolicyBundleRow)
  | deactivateBundles (tenantId : String)
  | activateBundle (id : UUID)

/-- The effect of an update of an intent. -/
def ActionIntent.patch (i : ActionIntent) (p : IntentPatch) : ActionIntent :=
  { i with
    state := p.state
    stateVersion := p.stateVersion
    approvalExpiresAt := p.approvalExpiresAt.or i.approvalExpiresAt }

/-- A column that is sent only when it changed. -/
def changed {α : Type} [DecidableEq α] (old new current : α) : α :=
  if new = old then current else new

/-- The effect on `current` of an update whose object was loaded as `old` and holds `new`. -/
def Execution.merge (old new current : Execution) : Execution :=
  { current with
    attempt := changed old.attempt new.attempt current.attempt
    status := changed old.status new.status current.status
    providerOperationId :=
      changed old.providerOperationId new.providerOperationId current.providerOperationId
    preconditionSnapshot :=
      changed old.preconditionSnapshot new.preconditionSnapshot current.preconditionSnapshot
    claimExpiresAt := changed old.claimExpiresAt new.claimExpiresAt current.claimExpiresAt
    startedAt := changed old.startedAt new.startedAt current.startedAt
    finishedAt := changed old.finishedAt new.finishedAt current.finishedAt
    errorCode := changed old.errorCode new.errorCode current.errorCode
    resultSummary := changed old.resultSummary new.resultSummary current.resultSummary
    reconcileAttempts :=
      changed old.reconcileAttempts new.reconcileAttempts current.reconcileAttempts
    nextReconcileAt := changed old.nextReconcileAt new.nextReconcileAt current.nextReconcileAt }

/-- The record after its completion. -/
def IdempotencyRecord.complete (r : IdempotencyRecord) (responseStatus : Nat)
    (responseBody : Dict) : IdempotencyRecord :=
  { r with
    status := .completed
    responseStatus := some responseStatus
    responseBody := some responseBody }

/-- The store after a write that drew the sequence number `n`. -/
def Store.apply (s : Store) (n : Nat) : Write → Store
  | .insertIntent row => { s with intents := s.intents ++ [row] }
  | .updateIntent key patch =>
      { s with intents := s.intents.map fun i => if i.key = key then i.patch patch else i }
  | .insertTransition row => { s with transitions := s.transitions ++ [row] }
  | .insertRisk row => { s with risks := s.risks ++ [row] }
  | .insertPolicy row => { s with policies := s.policies ++ [row] }
  | .insertDecision row => { s with decisions := s.decisions ++ [row] }
  | .insertExecution row => { s with executions := s.executions ++ [row] }
  | .updateExecution old new =>
      { s with executions :=
          s.executions.map fun e => if e.id = old.id then Execution.merge old new e else e }
  | .insertOutbox topic payload => { s with outbox := s.outbox ++ [⟨n, topic, payload⟩] }
  | .insertIdempotency row => { s with idempotency := s.idempotency ++ [row] }
  | .completeIdempotency key responseStatus responseBody =>
      { s with idempotency := s.idempotency.map fun r =>
          if r.key = key then r.complete responseStatus responseBody else r }
  | .insertAssignment row => { s with assignments := s.assignments ++ [row] }
  | .revokeAssignment id revokedAt =>
      { s with assignments := s.assignments.map fun r =>
          if r.id = id then { r with revokedAt := some revokedAt } else r }
  | .insertBundle row => { s with bundles := s.bundles ++ [row] }
  | .deactivateBundles tenantId =>
      { s with bundles := s.bundles.map fun r =>
          if r.tenantId = tenantId ∧ r.isActive = true then { r with isActive := false } else r }
  | .activateBundle id =>
      { s with bundles := s.bundles.map fun r =>
          if r.id = id then { r with isActive := true } else r }

/-! ## Column constraints -/

/-- A `String(n)` column holds the text. -/
def fits (n : Nat) (s : String) : Bool := decide (s.length ≤ n) && Json.storableText s

/-- A JSONB column holds the value. -/
def storableDict (d : Dict) : Bool := (Json.dict d).storable

/-- A nullable column: unchanged, or its new value is accepted. -/
def sends {α : Type} [DecidableEq α] (accepts : α → Bool) (old new : Option α) : Bool :=
  decide (new = old) || new.all accepts

/-- The constraints that a value from outside can violate. Texts that the server itself mints
(command identifiers, states, actor types) always fit their columns. -/
def Write.admissible : Write → Bool
  | .insertIntent row =>
      decide (1 ≤ row.key.revision) && fits 63 row.key.tenantId && fits 255 row.requesterId
        && Json.storableText row.requesterRationale && storableDict row.canonicalParameters
        && row.rawProposal.all storableDict
  | .insertTransition row => fits 255 row.actorId && fits 64 row.reasonCode
  | .insertDecision row =>
      (decide (row.level = 1) || decide (row.level = 2)) && fits 255 row.actorId
        && Json.storableText row.reason
        && row.scopeSnapshot.obligations.all fun e =>
          Json.storableText e.1 && Json.storableText e.2
  | .updateExecution old new =>
      sends (fits 255) old.providerOperationId new.providerOperationId
        && sends storableDict old.preconditionSnapshot new.preconditionSnapshot
        && sends (fits 64) old.errorCode new.errorCode
        && sends storableDict old.resultSummary new.resultSummary
  | .insertOutbox _ payload => storableDict payload
  | .completeIdempotency _ _ body => storableDict body
  | .insertAssignment row =>
      fits 63 row.tenantId && fits 255 row.principalId && fits 63 row.role
        && fits 512 row.environmentsKey && row.scopes.all Json.storableText
  | .insertBundle row => fits 63 row.tenantId && fits 32 row.version && storableDict row.rules
  | _ => true

end HitlOps.Infrastructure
