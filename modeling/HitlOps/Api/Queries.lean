import HitlOps.Api.Routes
import HitlOps.Infrastructure.Audit

/-!
# Query routes

`get_intent` and `get_events` of `api/intents.py`. The audit table is written by the publisher; the
events of the second route come from the rows that it holds when the request reads them.
-/

set_option autoImplicit false

namespace HitlOps.Api

open HitlOps.Python HitlOps.Domain HitlOps.Infrastructure HitlOps.Application HitlOps.Transaction

/-- `ORDER BY rank(row)`, with ties in the order of the scan. -/
def orderBy {α : Type} (before : α → α → Prop) [DecidableRel before] (rows : List α) : List α :=
  rows.insertionSort before

/-- An optional text or time in a response. -/
def textOrNull (text : Option String) : Json := (text.map Json.str).getD .null

/-! ## Status -/

/-- The revisions of an intent. -/
def revisionsOf (tenantId : String) (intentId : UUID) (s : Store) : List ActionIntent :=
  s.intents.filter fun r => r.key.tenantId = tenantId ∧ r.key.intentId = intentId

/-- The executions of a revision. -/
def executionsOfRevision (key : RevisionKey) (s : Store) : List Execution :=
  s.executions.filter fun e => e.key = key

/-- `permitted_actions`. -/
def permittedActions (state : IntentState) : List String :=
  (if state ∈ cancellableStates then ["cancel"] else []) ++
    if state = .pendingApproval1 ∨ state = .pendingApproval2 ∨ state = .approvedByLevel1 then
      ["decide_approval"]
    else []

/-- An approval in the response. -/
def approvalItem (rt : Runtime) (d : ApprovalDecisionRow) : Json :=
  .dict [("level", .int d.level), ("decision", .str d.decision.value), ("actor_id", .str d.actorId),
    ("reason", .str d.reason), ("decided_at", .str (rt.isoformat d.decidedAt))]

/-- The response of `get_intent`. -/
def intentBody (rt : Runtime) (row : ActionIntent) (risk : Option RiskEvaluationRow)
    (policy : Option PolicyEvaluationRow) (approvals : List ApprovalDecisionRow)
    (execution : Option Execution) : Dict :=
  [("intent_id", .str row.key.intentId.text), ("revision", .int row.key.revision),
    ("tool", .str row.tool.value), ("digest", .str row.intentDigest),
    ("state", .str row.state.value), ("state_version", .int row.stateVersion),
    ("approval_expires_at", textOrNull (row.approvalExpiresAt.map rt.isoformat)),
    ("risk", (risk.map fun r => Json.dict [("band", .str r.band.value),
      ("factors", .list (r.factors.map .str)), ("rule_version", .str r.ruleVersion)]).getD .null),
    ("policy", (policy.map fun p => Json.dict
      [("disposition", .str p.evaluation.disposition.value),
        ("route", .str p.evaluation.route.value),
        ("policy_version", .str p.evaluation.policyVersion),
        ("required_roles", .list (p.evaluation.requiredRoles.map .str)),
        ("approval_ttl_seconds",
          (p.evaluation.approvalTtlSeconds.map fun n => Json.int n).getD .null)]).getD .null),
    ("approvals", .list (approvals.map (approvalItem rt))),
    ("execution", (execution.map fun e => Json.dict [("status", .str e.status.value),
      ("provider_operation_id", textOrNull e.providerOperationId),
      ("error_code", textOrNull e.errorCode)]).getD .null),
    ("permitted_actions", .list ((permittedActions row.state).map .str))]

/-- `get_intent`. -/
def getIntent (rt : Runtime) (actor : AuthenticatedActor) (intentId : UUID) : M Dict := do
  let revisions ← scan (revisionsOf actor.tenantId intentId)
  let latest := (orderBy (fun a b => b.key.revision ≤ a.key.revision) revisions).head?
  let row ← Prog.orRaise (.notFoundError "intent not found") latest
  let key : RevisionKey := ⟨actor.tenantId, intentId, row.key.revision⟩
  let risks ← Prog.query (D := Db) (·.risksOf key)
  let risk ← scalarOneOrNone risks
  let policies ← Prog.query (D := Db) (·.policiesOf key)
  let policy ← scalarOneOrNone policies
  let approvals ← scan (·.decisionsOf key)
  let executions ← scan (executionsOfRevision key)
  return intentBody rt row risk policy
    (orderBy (fun a b => a.decidedAt ≤ b.decidedAt) approvals) executions.head?

/-! ## Events -/

/-- The query parameters of `get_events`. -/
structure EventsQuery where
  cursor : Nat
  limit : Nat
  bounded : 1 ≤ limit ∧ limit ≤ 200

/-- The transitions of an intent behind a cursor. -/
def transitionsAfter (tenantId : String) (intentId : UUID) (cursor : Nat) (s : Store) :
    List StateTransition :=
  s.transitions.filter fun r =>
    r.key.tenantId = tenantId ∧ r.key.intentId = intentId ∧ cursor < r.sequence

/-- A transition in the response. -/
def transitionItem (rt : Runtime) (r : StateTransition) : Json :=
  .dict [("sequence", .int r.sequence),
    ("from_state", textOrNull (r.fromState.map (·.value))), ("to_state", .str r.toState.value),
    ("reason_code", .str r.reasonCode), ("actor_type", .str r.actorType),
    ("occurred_at", .str (rt.isoformat r.occurredAt))]

/-- An audit event in the response. -/
def auditItem (rt : Runtime) (row : AuditEventRow) : Json :=
  .dict [("sequence", .int row.sequence), ("event_type", .str row.eventType),
    ("actor_id", .str row.actorId), ("occurred_at", .str (rt.isoformat row.occurredAt)),
    ("previous_hash", .str row.previousHash), ("event_hash", .str row.eventHash)]

/-- The audit events of an aggregate in sequence order. -/
def aggregateRows (audit : List AuditEventRow) (tenantId : String) (aggregateId : UUID) :
    List AuditEventRow :=
  orderBy (fun a b => a.sequence ≤ b.sequence)
    (audit.filter fun row => row.tenantId = tenantId ∧ row.aggregateId = aggregateId)

/-- The response of `get_events`. -/
def eventsBody (rt : Runtime) (query : EventsQuery) (items : List StateTransition)
    (rows : List AuditEventRow) : Dict :=
  let chain := verifyAggregateChain rt rows
  -- A page that is not full is the last one.
  let next := if items.length = query.limit then items.getLast? else none
  [("events", .list (items.map (transitionItem rt))),
    ("next_cursor", (next.map fun r => Json.int r.sequence).getD .null),
    ("audit", .list (rows.map (auditItem rt))), ("chain_valid", .bool chain.1),
    ("chain_problem", textOrNull chain.2)]

/-- `get_events`, over the audit rows `audit`. -/
def getEvents (rt : Runtime) (audit : List AuditEventRow) (actor : AuthenticatedActor)
    (intentId : UUID) (query : EventsQuery) : M Dict := do
  let revisions ← Prog.query (D := Db) (revisionsOf actor.tenantId intentId)
  -- `scalar_one_or_none()` raises when there is a second revision.
  let found ← scalarOneOrNone revisions
  let _ ← Prog.orRaise (.notFoundError "intent not found") found
  let rows ← scan (transitionsAfter actor.tenantId intentId query.cursor)
  let items := (orderBy (fun a b => a.sequence ≤ b.sequence) rows).take query.limit
  return eventsBody rt query items (aggregateRows audit actor.tenantId intentId)

end HitlOps.Api
