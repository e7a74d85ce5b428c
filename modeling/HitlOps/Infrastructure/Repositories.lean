import HitlOps.Application.Interface
import HitlOps.Domain.Intent
import HitlOps.Domain.StateMachine

/-!
# Repositories and current authorization

`IntentRepository.create`, `EvaluationRepository.record` and `PolicyBundleRepository.get_active` of
`infrastructure/repositories.py`, and the authorization lookups of
`infrastructure/authorization.py`. None of them ends the transaction: the caller owns it.
-/

set_option autoImplicit false

namespace HitlOps.Infrastructure

open HitlOps.Python HitlOps.Domain HitlOps.Application HitlOps.Transaction

/-! ## Authorization -/

/-- `load_assignments`. -/
def loadAssignments (tenantId principalId : String) : M (List RoleAssignment) :=
  Prog.query (D := Db) fun s => s.loadAssignments tenantId principalId

/-- `current_roles`. -/
def currentRoles (actor : AuthenticatedActor) (environment : Option Json) : M (List String) := do
  let assignments ← loadAssignments actor.tenantId actor.actorId
  let now ← Prog.draw (D := Db) .now
  return evaluateCurrentRoles assignments now environment

/-- `current_scopes`. -/
def currentScopes (actor : AuthenticatedActor) (environment : Option Json) : M (List String) := do
  let assignments ← loadAssignments actor.tenantId actor.actorId
  let now ← Prog.draw (D := Db) .now
  return evaluateCurrentScopes assignments now environment

/-- `require_administrator`. -/
def requireAdministrator (actor : AuthenticatedActor) : M Unit := do
  let roles ← currentRoles actor none
  Prog.raiseIf ("administrator" ∉ roles) (.forbiddenError "administrator role is required")

/-! ## Intents -/

/-- The intent row that `create` stores. -/
def createdIntent (rt : Runtime) (command : CreateIntentCommand) : ActionIntent :=
  { key := command.key
    tool := command.tool
    canonicalParameters := command.canonicalParameters
    intentDigest := command.intentDigest
    requesterId := command.requesterId
    requesterRationale := command.requesterRationale
    rawProposal := command.rawProposal.map (sanitizeRawProposal rt)
    source := command.source
    state := .requested
    stateVersion := 1
    approvalExpiresAt := none }

/-- The first transition row of a revision. -/
def createdTransition (command : CreateIntentCommand) (now : Time) : StateTransition :=
  { key := command.key
    fromState := none
    toState := .requested
    actorType := "system"
    actorId := command.actorId
    commandId := command.commandId
    reasonCode := "intent_created"
    metadata := [("correlation_id", .str command.correlationId)]
    sequence := 1
    occurredAt := now }

/-- The payload of `intent.created`. -/
def createdPayload (command : CreateIntentCommand) : Dict :=
  [("tenant_id", .str command.tenantId), ("intent_id", .str command.intentId.text),
    ("revision", .int command.revision), ("tool", .str command.tool.value),
    ("intent_digest", .str command.intentDigest), ("command_id", .str command.commandId),
    ("correlation_id", .str command.correlationId)]

/-- `INSERT` of the intent row; a duplicate key raises an integrity error. -/
def insertIntent (row : ActionIntent) : M Unit := do
  Prog.raiseIf ((Write.insertIntent row).admissible = false) (.dbapi false)
  let inserted ← Prog.insert (D := Db) (.intent row.key) (.insertIntent row)
  Prog.raiseIf (inserted = false) (.dbapi false)

/-- `IntentRepository.create`. -/
def create (rt : Runtime) (command : CreateIntentCommand) : M IntentSnapshot := do
  let now ← Prog.draw (D := Db) .now
  insertIntent (createdIntent rt command)
  flush (.insertTransition (createdTransition command now))
  flush (.insertOutbox "intent.created" (createdPayload command))
  return ⟨command.tenantId, command.intentId, command.revision, command.tool,
    command.intentDigest, .requested, 1⟩

/-! ## Evaluations -/

/-- `ROUTE_STATE_BY_DISPOSITION`. -/
def routeStateByDisposition : PolicyDisposition → IntentState
  | .allow => .autoApproved
  | .requireApproval => .pendingApproval1
  | .block => .blocked

/-- `EvaluationRecorded`. -/
structure EvaluationRecorded where
  key : RevisionKey
  state : IntentState
  stateVersion : Nat
  band : RiskBand
  disposition : PolicyDisposition
  route : ApprovalRoute

/-- One of the three transition rows of `record`. -/
def evaluationTransition (key : RevisionKey) (fromState toState : IntentState)
    (commandId suffix correlationId : String) (sequence : Nat) (now : Time) : StateTransition :=
  { key
    fromState := some fromState
    toState
    actorType := "system"
    actorId := "risk-policy-engine"
    commandId := commandId ++ ":" ++ suffix
    reasonCode := "evaluation_recorded"
    metadata := [("correlation_id", .str correlationId)]
    sequence
    occurredAt := now }

/-- The payload that announces one of the three transition rows. -/
def evaluationPayload (key : RevisionKey) (fromState toState : IntentState)
    (commandId correlationId : String) : Dict :=
  [("tenant_id", .str key.tenantId), ("intent_id", .str key.intentId.text),
    ("revision", .int key.revision), ("from_state", .str fromState.value),
    ("to_state", .str toState.value), ("command_id", .str commandId),
    ("correlation_id", .str correlationId)]

/-- The payload of `risk.evaluated`. -/
def riskPayload (key : RevisionKey) (risk : RiskEvaluation) (commandId correlationId : String) :
    Dict :=
  [("tenant_id", .str key.tenantId), ("intent_id", .str key.intentId.text),
    ("revision", .int key.revision), ("band", .str risk.band.value),
    ("factors", .list (risk.factors.map .str)), ("rule_version", .str risk.ruleVersion),
    ("command_id", .str (commandId ++ ":risk")), ("correlation_id", .str correlationId)]

/-- The payload of `policy.evaluated`. -/
def policyPayload (key : RevisionKey) (policy : PolicyEvaluation)
    (commandId correlationId : String) : Dict :=
  [("tenant_id", .str key.tenantId), ("intent_id", .str key.intentId.text),
    ("revision", .int key.revision), ("disposition", .str policy.disposition.value),
    ("route", .str policy.route.value), ("policy_version", .str policy.policyVersion),
    ("command_id", .str (commandId ++ ":policy")), ("correlation_id", .str correlationId)]

/-- `_current_record`: the answer for a revision that is already evaluated. -/
def currentRecord (key : RevisionKey) (risk : RiskEvaluationRow) : M EvaluationRecorded := do
  let s ← Prog.query (D := Db) id
  let intent ← Prog.orRaise (.lookup "intent revision not found") (s.intent? key)
  let policies ← Prog.query (D := Db) (·.policiesOf key)
  let policy ← scalarOne policies
  return ⟨key, intent.state, intent.stateVersion, risk.band, policy.evaluation.disposition,
    policy.evaluation.route⟩

/-- The rows that `record` writes for a locked intent, in the order of its `add_all`. -/
def writeEvaluation (intent : ActionIntent) (risk : RiskEvaluation) (policy : PolicyEvaluation)
    (commandId correlationId : String) (now : Time) : M Unit := do
  let key := intent.key
  let routeState := routeStateByDisposition policy.disposition
  flush (.insertRisk ⟨key, risk.band, risk.factors, risk.ruleVersion, risk.evaluatedContext, now⟩)
  flush (.insertPolicy ⟨key, policy, now⟩)
  flush (.insertTransition
    (evaluationTransition key .requested .riskEvaluated commandId "risk" correlationId 2 now))
  flush (.insertTransition
    (evaluationTransition key .riskEvaluated .policyEvaluated commandId "policy" correlationId 3
      now))
  flush (.insertTransition
    (evaluationTransition key .policyEvaluated routeState commandId "route" correlationId 4 now))
  flush (.insertOutbox "risk.evaluated" (riskPayload key risk commandId correlationId))
  flush (.insertOutbox "policy.evaluated" (policyPayload key policy commandId correlationId))
  flush (.insertOutbox "intent.transitioned"
    (evaluationPayload key .requested .riskEvaluated commandId correlationId))
  flush (.insertOutbox "intent.transitioned"
    (evaluationPayload key .riskEvaluated .policyEvaluated commandId correlationId))
  flush (.insertOutbox "intent.transitioned"
    (evaluationPayload key .policyEvaluated routeState commandId correlationId))
  flush (.updateIntent key
    ⟨routeState, 4, policy.approvalTtlSeconds.map fun ttl => now + seconds ttl⟩)

/-- `EvaluationRepository.record`. -/
def record (key : RevisionKey) (risk : RiskEvaluation) (policy : PolicyEvaluation)
    (commandId correlationId : String) : M EvaluationRecorded := do
  let risks ← Prog.query (D := Db) (·.risksOf key)
  match ← scalarOneOrNone risks with
  | some existing => currentRecord key existing
  | none =>
      match ← Prog.lock (D := Db) (.intent key) false with
      | none => .raise (.dbapi true)
      | some (s, _) =>
          match s.intent? key with
          | none => .raise (.lookup "intent revision not found")
          | some intent =>
              if intent.state ≠ .requested then
                .raise (.value ("intent is not awaiting evaluation: " ++ intent.state.value))
              else do
                let now ← Prog.draw (D := Db) .now
                writeEvaluation intent risk policy commandId correlationId now
                return ⟨key, routeStateByDisposition policy.disposition, 4, risk.band,
                  policy.disposition, policy.route⟩

/-! ## Policy bundles -/

/-- The bundle of a stored row. -/
def PolicyBundleRow.bundle (r : PolicyBundleRow) : PolicyBundle := ⟨r.version, r.rules⟩

/-- `PolicyBundleRepository.get_active`. -/
def getActive (tenantId : String) : M (Option PolicyBundle) := do
  let rows ← Prog.query (D := Db) (·.activeBundles tenantId)
  let row ← scalarOneOrNone rows
  return row.map (·.bundle)

end HitlOps.Infrastructure
