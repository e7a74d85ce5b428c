import HitlOps.Application.Administration
import HitlOps.Application.Commands

/-!
# Mutation routes

The eight mutation routes of `api/intents.py`, `api/approvals.py` and `api/admin.py` with the
session dependency of `api/dependencies.py`. A request has passed authentication and the validation
of its body; the body structures carry the bounds of their models. All routes but `decide_approval`
have one shape, `idempotent`: reserve, run the command, complete.
-/

set_option autoImplicit false

namespace HitlOps.Api

open HitlOps.Python HitlOps.Domain HitlOps.Infrastructure HitlOps.Application HitlOps.Transaction

/-- What every request brings: the actor, the idempotency key and the correlation identifier. -/
structure Request where
  actor : AuthenticatedActor
  idempotencyKey : String
  correlationId : String

/-- A successful response. -/
structure Response where
  status : Nat
  body : Dict
deriving DecidableEq

/-! ## Bodies -/

/-- `CreateIntentBody`. -/
structure CreateIntentBody where
  tool : String
  parameters : Dict
  rationale : String
  bounded : rationale.length ≤ 2000

/-- `AgentIntentBody`. -/
structure AgentIntentBody where
  request : String
  contextRefs : Dict
  bounded : 1 ≤ request.length ∧ request.length ≤ 4000

/-- `ApprovalBody`. -/
structure ApprovalBody where
  revision : Nat
  intentDigest : String
  level : Nat
  decision : ApprovalDecision
  reason : String
  expectedStateVersion : Nat
  obligations : List (String × String)
  bounded : 1 ≤ revision ∧ intentDigest.length = 64 ∧ 1 ≤ level ∧ level ≤ 2 ∧
    1 ≤ reason.length ∧ reason.length ≤ 2000 ∧ 1 ≤ expectedStateVersion

/-- `CancelBody`. -/
structure CancelBody where
  revision : Nat
  reason : String
  expectedStateVersion : Nat
  bounded : 1 ≤ revision ∧ 1 ≤ reason.length ∧ reason.length ≤ 2000 ∧ 1 ≤ expectedStateVersion

/-- `GrantRoleBody`. -/
structure GrantRoleBody where
  principalId : String
  role : String
  environments : List String
  scopes : List String
  validUntil : Option Time
  reason : String
  bounded : 1 ≤ principalId.length ∧ principalId.length ≤ 255 ∧ 1 ≤ role.length ∧
    role.length ≤ 63 ∧ environments.length ≤ 10 ∧ scopes.length ≤ 20 ∧ 1 ≤ reason.length ∧
    reason.length ≤ 2000

/-- `RevokeRoleBody` and `ActivateBundleBody`. -/
structure ReasonBody where
  reason : String
  bounded : 1 ≤ reason.length ∧ reason.length ≤ 2000

/-- A character of `[a-z0-9-]`. -/
def isVersionChar (c : Char) : Bool := isLowerAlnum c || c = '-'

/-- `RegisterBundleBody`. -/
structure RegisterBundleBody where
  version : String
  rules : Dict
  reason : String
  bounded : 1 ≤ version.length ∧ version.length ≤ 32 ∧ version.toList.all isVersionChar = true ∧
    1 ≤ reason.length ∧ reason.length ≤ 2000

/-- `body.model_dump()` of an approval. -/
def ApprovalBody.modelDump (b : ApprovalBody) : Dict :=
  [("revision", .int b.revision), ("intent_digest", .str b.intentDigest), ("level", .int b.level),
    ("decision", .str b.decision.value), ("reason", .str b.reason),
    ("expected_state_version", .int b.expectedStateVersion),
    ("obligations", .dict (b.obligations.map fun e => (e.1, .str e.2)))]

/-- `body.model_dump()` of a cancellation. -/
def CancelBody.modelDump (b : CancelBody) : Dict :=
  [("revision", .int b.revision), ("reason", .str b.reason),
    ("expected_state_version", .int b.expectedStateVersion)]

/-- `body.model_dump(mode="json")` of a grant. -/
def GrantRoleBody.modelDump (rt : Runtime) (b : GrantRoleBody) : Dict :=
  [("principal_id", .str b.principalId), ("role", .str b.role),
    ("environments", .list (b.environments.map .str)), ("scopes", .list (b.scopes.map .str)),
    ("valid_until", (b.validUntil.map fun t => Json.str (rt.jsonTime t)).getD .null),
    ("reason", .str b.reason)]

/-! ## Sessions -/

/-- `get_session`: commit at the end and on an error with `persist_state`, else roll back. -/
def getSession {α : Type} (body : M α) : M α :=
  Prog.handle (do let a ← body; Prog.commit (D := Db); return a) fun x =>
    -- Only an expired approval asks for its state to be kept.
    if x.isException = true ∧ x.persistState = true then do
      Prog.commit (D := Db)
      .raise x
    else do
      Prog.rollback (D := Db)
      .raise x

/-- The idempotency key of a request in a scope. -/
def recordKey (rt : Runtime) (request : Request) (scope : String) : IdempotencyKey :=
  ⟨request.actor.tenantId, request.actor.actorId, scope,
    idempotencyKeyHash rt request.idempotencyKey⟩

/-- The error of a request whose key is reserved by a command in progress. -/
def inProgressError : Error :=
  .domainError "an identical command is still in progress" "STATE_CONFLICT" 409 true

/-- `_reserve`: the stored body of a replay, or nothing for a command that runs now. -/
def reserve (key : IdempotencyKey) (requestHash : String) : M (Option Dict) := do
  let reservation ← begin key requestHash
  match reservation.replayed, reservation.responseBody, reservation.pending with
  | true, some body, _ => return some body
  -- The first request has reserved the key, but has not recorded its response.
  | true, none, true => .raise inProgressError
  | _, _, _ => return none

/-- The shape of a mutation route: reserve, run the command, record its response. -/
def idempotent (rt : Runtime) (request : Request) (scope : String) (payload : Dict)
    (status : Nat) (command : M Dict) : M Response := do
  let key := recordKey rt request scope
  match ← reserve key (canonicalRequestHash rt payload) with
  | some body => return ⟨status, body⟩
  | none => do
      let response ← command
      complete key status response
      return ⟨status, response⟩

/-! ## Creation -/

/-- The response body of a created intent. -/
def createdBody (command : CreateIntentCommand) (risk : RiskEvaluation)
    (policy : PolicyEvaluation) (recorded : EvaluationRecorded) (expiresAt : Json) : Dict :=
  [("intent_id", .str command.intentId.text), ("revision", .int 1),
    ("digest", .str command.intentDigest),
    ("risk", .dict [("band", .str risk.band.value), ("factors", .list (risk.factors.map .str)),
      ("rule_version", .str risk.ruleVersion)]),
    ("policy", .dict [("disposition", .str policy.disposition.value),
      ("route", .str policy.route.value), ("policy_version", .str policy.policyVersion),
      ("required_roles", .list (policy.requiredRoles.map .str)),
      ("approval_ttl_seconds",
        (policy.approvalTtlSeconds.map fun n => Json.int n).getD .null)]),
    ("state", .str recorded.state.value), ("state_version", .int recorded.stateVersion),
    ("approval_requirements", .dict
      [("required_roles", .list
        (if policy.route = .none then [] else policy.requiredRoles.map .str)),
        ("expires_at", expiresAt)]),
    ("links", .dict [("self", .str ("/v1/intents/" ++ command.intentId.text)),
      ("events", .str ("/v1/intents/" ++ command.intentId.text ++ "/events"))])]

/-- `parse_tool_parameters`. -/
def parseToolParameters (rt : Runtime) (tool : String) (parameters : Dict) :
    Except Error (ToolName × ToolParameters) :=
  match ToolName.parse? tool with
  | none => .error (.unknownTool ("unknown tool: " ++ tool))
  | some name =>
      match modelValidate rt name parameters with
      | none => .error .parameterValidation
      | some validated => .ok (name, validated)

/-- The create command of a validated proposal. -/
def createCommand (canonical : CanonicalIntent) (intentId commandId : UUID) (tool : String)
    (parameters : Dict) (rationale : String) (source : IntentSource) (correlationId : String) :
    CreateIntentCommand :=
  { tenantId := canonical.tenantId
    intentId
    revision := 1
    tool := canonical.tool
    canonicalParameters := canonical.parameters
    intentDigest := canonical.digest
    requesterId := canonical.requesterId
    requesterRationale := rationale
    source
    rawProposal := some (.dict [("tool", .str tool), ("parameters", .dict parameters)])
    commandId := commandId.hex
    correlationId
    actorId := canonical.requesterId }

/-- `create_intent_from_proposal`. -/
def createIntentFromProposal (rt : Runtime) (actor : AuthenticatedActor) (tool : String)
    (parameters : Dict) (rationale : String) (source : IntentSource) (correlationId : String) :
    M Dict := do
  let (name, validated) ← ofExcept (parseToolParameters rt tool parameters)
  let canonical ← ofExcept (canonicalize rt name actor.tenantId actor.actorId 1 validated)
  let intentId ← Prog.draw (D := Db) .uuid
  let commandId ← Prog.draw (D := Db) .uuid
  let command := createCommand canonical intentId commandId tool parameters rationale source
    correlationId
  let _ ← create rt command
  -- The intent is inserted first: without a bundle the session rolls it back.
  match ← getActive actor.tenantId with
  | none => .raise (.domainError "no active policy bundle" "POLICY_BLOCKED" 409 false)
  | some bundle => do
      let risk := evaluateRisk command.tool command.canonicalParameters {}
      let policy ← ofExcept
        (evaluatePolicy rt command.tool risk command.canonicalParameters bundle)
      let recorded ← record command.key risk policy command.commandId correlationId
      let found ← Prog.query (D := Db) (·.intent? command.key)
      let stored ← Prog.orRaise (.lookup "intent revision not found") found
      let expiresAt := (stored.approvalExpiresAt.map fun t => Json.str (rt.isoformat t)).getD .null
      return createdBody command risk policy recorded expiresAt

/-- `POST /v1/intents`. -/
def createIntent (rt : Runtime) (request : Request) (body : CreateIntentBody) : M Response :=
  getSession (idempotent rt request "intents"
    [("tool", .str body.tool), ("parameters", .dict body.parameters),
      ("rationale", .str body.rationale)] 201
    (createIntentFromProposal rt request.actor body.tool body.parameters body.rationale .direct
      request.correlationId))

/-! ## The agent -/

/-- The failures of the provider call. -/
def unavailable (message : String) : Error := .domainError message "LLM_UNAVAILABLE" 503 true

/-- A proposal that the orchestrator refuses. -/
def refused (message code : String) : Error := .domainError message code 422 false

/-- `BoundedProposal`. -/
structure BoundedProposal where
  tool : String
  parameters : ToolParameters
  rationale : String

/-- The validation of a provider value in `AgentOrchestrator.propose`. -/
def boundProposal (rt : Runtime) (raw : Json) : Except Error BoundedProposal :=
  match raw with
  | .dict fields =>
      match Dict.get? fields "tool", Dict.get? fields "parameters" with
      | some (.str tool), some (.dict parameters) =>
          match parseToolParameters rt tool parameters with
          | .ok (_, validated) =>
              .ok ⟨tool, validated, String.ofList
                ((Json.toStr rt.isPrintable (Dict.getD fields "rationale" (.str ""))).toList.take
                  2000)⟩
          | .error (.unknownTool _) =>
              .error (refused "tool is not on the allow-list" "UNKNOWN_TOOL")
          | .error _ =>
              .error (refused "proposal parameters failed validation" "VALIDATION_FAILED")
      | _, _ =>
          .error (refused "model proposal must include tool and parameters" "VALIDATION_FAILED")
  | _ => .error (refused "model proposal was not a structured object" "VALIDATION_FAILED")

/-- `AgentOrchestrator.propose`; the length bound of the request is the body's own. -/
def propose (rt : Runtime) (body : AgentIntentBody) : M BoundedProposal := do
  match ← Prog.call (D := Db) (.propose body.request (body.contextRefs.take 20)) with
  | .value raw => ofExcept (boundProposal rt raw)
  | .domain message code httpStatus retryable =>
      .raise (.domainError message code httpStatus retryable)
  | .timeout => .raise (unavailable "LLM provider call timed out")
  | .error => .raise (unavailable "LLM provider call failed")
  | .cancelled => .raise .cancelled

/-- The command of `POST /v1/agent/intents`. -/
def agentCommand (rt : Runtime) (request : Request) (body : AgentIntentBody) : M Dict := do
  let proposal ← propose rt body
  createIntentFromProposal rt request.actor proposal.tool proposal.parameters.modelDump
    proposal.rationale .agent request.correlationId

/-- `POST /v1/agent/intents`. -/
def createAgentIntent (rt : Runtime) (request : Request) (body : AgentIntentBody) : M Response :=
  getSession (idempotent rt request "agent_intents"
    [("request", .str body.request), ("context_refs", .dict body.contextRefs)] 201
    (agentCommand rt request body))

/-! ## Approvals -/

/-- The response body of a snapshot. -/
def snapshotBody (snapshot : IntentSnapshot) : Dict :=
  [("intent_id", .str snapshot.intentId.text), ("revision", .int snapshot.revision),
    ("digest", .str snapshot.intentDigest), ("state", .str snapshot.state.value),
    ("state_version", .int snapshot.stateVersion)]

/-- The decision command of a request. -/
def decisionCommand (request : Request) (intentId : UUID) (body : ApprovalBody)
    (commandId : UUID) : ApprovalDecisionCommand :=
  { tenantId := request.actor.tenantId
    intentId
    revision := body.revision
    intentDigest := body.intentDigest
    level := body.level
    decision := body.decision
    reason := body.reason
    expectedStateVersion := body.expectedStateVersion
    actor := request.actor
    commandId := commandId.hex
    obligations := body.obligations }

/-- The error that a replayed error outcome raises again. -/
def replayedError (rt : Runtime) (status : Nat) (body : Dict) : Error :=
  .domainError ((body.getD "message" (.str "replayed error")).toStr rt.isPrintable)
    ((body.getD "code" (.str "DOMAIN_ERROR")).toStr rt.isPrintable) status false

/-- The body under which an expired decision is recorded. -/
def expiredBody : Error → Dict
  | .domain e => [("code", .str e.code), ("message", .str e.message)]
  | _ => []

/-- The status under which an expired decision is recorded. -/
def expiredStatus : Error → Nat
  | .domain e => e.httpStatus
  | _ => 500

/-- The part of `decide_approval` behind the reservation. An expired decision is recorded before
the error goes on, and `get_session` commits it. -/
def decideAndComplete (request : Request) (intentId : UUID) (body : ApprovalBody)
    (key : IdempotencyKey) : M Response := do
  let commandId ← Prog.draw (D := Db) .uuid
  let snapshot ← Prog.handle (decide (decisionCommand request intentId body commandId)) fun x =>
    if x.isApprovalExpired = true then do
      complete key (expiredStatus x) (expiredBody x)
      .raise x
    else .raise x
  complete key 200 (snapshotBody snapshot)
  return ⟨200, snapshotBody snapshot⟩

/-- `POST /v1/intents/{intent_id}/approvals`, inside its session. -/
def decideApprovalBody (rt : Runtime) (request : Request) (intentId : UUID)
    (body : ApprovalBody) : M Response := do
  let key := recordKey rt request "approvals"
  let reservation ← begin key
    (canonicalRequestHash rt (("intent_id", .str intentId.text) :: body.modelDump))
  match reservation.replayed, reservation.responseBody, reservation.pending with
  | true, some stored, _ =>
      -- The stored response is that of an expired decision.
      if 400 ≤ reservation.responseStatus.getD 0 then
        .raise (replayedError rt (reservation.responseStatus.getD 0) stored)
      else return ⟨200, stored⟩
  | true, none, true => .raise inProgressError
  | _, _, _ => decideAndComplete request intentId body key

/-- `POST /v1/intents/{intent_id}/approvals`. -/
def decideApproval (rt : Runtime) (request : Request) (intentId : UUID) (body : ApprovalBody) :
    M Response := getSession (decideApprovalBody rt request intentId body)

/-- The cancellation command of a request. -/
def cancellationCommand (request : Request) (intentId : UUID) (body : CancelBody)
    (commandId : UUID) : CancelIntentCommand :=
  { tenantId := request.actor.tenantId
    intentId
    revision := body.revision
    reason := body.reason
    expectedStateVersion := body.expectedStateVersion
    actor := request.actor
    commandId := commandId.hex }

/-- `POST /v1/intents/{intent_id}/cancel`. -/
def cancelIntent (rt : Runtime) (request : Request) (intentId : UUID) (body : CancelBody) :
    M Response :=
  getSession (idempotent rt request "cancellations"
    (("intent_id", .str intentId.text) :: body.modelDump) 200 do
      let commandId ← Prog.draw (D := Db) .uuid
      let snapshot ← cancel (cancellationCommand request intentId body commandId)
      return snapshotBody snapshot)

/-! ## Administration -/

/-- `POST /v1/admin/role-assignments`. -/
def grantRoleRoute (rt : Runtime) (request : Request) (body : GrantRoleBody) : M Response :=
  getSession (idempotent rt request "admin_role_assignments" (body.modelDump rt) 201 do
    let commandId ← Prog.draw (D := Db) .uuid
    let row ← grantRole
      { tenantId := request.actor.tenantId
        principalId := body.principalId
        role := body.role
        environments := body.environments
        validUntil := body.validUntil
        actor := request.actor
        commandId := commandId.hex
        reason := body.reason
        scopes := body.scopes }
    return [("assignment_id", .str row.id.text), ("principal_id", .str row.principalId),
      ("role", .str row.role), ("environments", .list (row.environments.map .str)),
      ("valid_until", (row.validUntil.map fun t => Json.str (rt.isoformat t)).getD .null)])

/-- `POST /v1/admin/role-assignments/{assignment_id}/revoke`. -/
def revokeRoleRoute (rt : Runtime) (request : Request) (assignmentId : UUID)
    (body : ReasonBody) : M Response :=
  getSession (idempotent rt request "admin_role_revocations"
    [("assignment_id", .str assignmentId.text), ("reason", .str body.reason)] 200 do
      let commandId ← Prog.draw (D := Db) .uuid
      let row ← revokeRole
        ⟨request.actor.tenantId, assignmentId, request.actor, commandId.hex, body.reason⟩
      return [("assignment_id", .str row.id.text),
        ("revoked_at", (row.revokedAt.map fun t => Json.str (rt.isoformat t)).getD .null)])

/-- `POST /v1/admin/policy-bundles`. -/
def registerPolicyBundleRoute (rt : Runtime) (request : Request) (body : RegisterBundleBody) :
    M Response :=
  getSession (idempotent rt request "admin_policy_bundles"
    [("version", .str body.version), ("rules", .dict body.rules), ("reason", .str body.reason)]
    201 do
      let commandId ← Prog.draw (D := Db) .uuid
      let version ← registerPolicyBundle
        ⟨body.version, body.rules, request.actor, commandId.hex, body.reason⟩
      return [("version", .str version), ("active", .bool false)])

/-- `POST /v1/admin/policy-bundles/{version}/activate`. -/
def activatePolicyBundleRoute (rt : Runtime) (request : Request) (version : String)
    (body : ReasonBody) : M Response :=
  getSession (idempotent rt request "admin_policy_activations"
    [("version", .str version), ("reason", .str body.reason)] 200 do
      let commandId ← Prog.draw (D := Db) .uuid
      let activated ← activatePolicyBundle ⟨version, request.actor, commandId.hex, body.reason⟩
      return [("version", .str activated), ("active", .bool true)])

end HitlOps.Api
