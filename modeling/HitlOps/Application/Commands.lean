import HitlOps.Application.Transitions
import HitlOps.Infrastructure.Repositories

/-!
# Approval commands and idempotency

`ApprovalCommandService` and `IdempotencyService` of `application/commands.py`. No service ends the
transaction; on the expiry path the caller must commit.
-/

set_option autoImplicit false

namespace HitlOps.Application

open HitlOps.Python HitlOps.Domain HitlOps.Infrastructure HitlOps.Transaction

/-- `_snapshot`. -/
def snapshotOf (intent : ActionIntent) : IntentSnapshot :=
  ⟨intent.key.tenantId, intent.key.intentId, intent.key.revision, intent.tool,
    intent.intentDigest, intent.state, intent.stateVersion⟩

/-- `_load_locked_intent`. -/
def loadLockedIntent (key : RevisionKey) : M (ActionIntent × Time) := do
  match ← lockIntentNowait key with
  | none => .raise (.stateConflictError "intent row is locked by another command")
  | some (none, _) => .raise (.notFoundError "intent revision not found")
  | some (some intent, dbNow) => return (intent, dbNow)

/-- `_required_role_for_level`. -/
def requiredRoleForLevel (route : ApprovalRoute) (level : Nat) (requiredRoles : List String) :
    Option String :=
  -- The role at the position of the level, in whichever list the policy stored.
  if route = .criticalTwoStep then
    if 1 ≤ level then requiredRoles[level - 1]? else none
  else if level = 1 then requiredRoles.head? else none

namespace Commands

/-- The outbox payload of `_record_transition`. -/
def transitionPayload (intent : ActionIntent) (target : IntentState) (cause : Cause) : Dict :=
  [("tenant_id", .str intent.key.tenantId), ("intent_id", .str intent.key.intentId.text),
    ("revision", .int intent.key.revision), ("from_state", .str intent.state.value),
    ("to_state", .str target.value), ("actor_id", .str cause.actorId),
    ("command_id", .str cause.commandId)]

/-- `_record_transition` of the command handlers. -/
def recordTransition (intent : ActionIntent) (target : IntentState) (cause : Cause)
    (dbNow : Time) : M ActionIntent :=
  appendTransition intent target cause dbNow "intent.transitioned"
    (transitionPayload intent target cause)

end Commands

/-! ## Guards of a decision -/

/-- `_enforce_scopes`. -/
def enforceScopes (actorScopes requiredScopes : List String) : M Unit :=
  let missing := requiredScopes.filter fun scope => scope ∉ actorScopes
  Prog.raiseIf (missing ≠ []) (.forbiddenError
    ("actor does not hold required scopes: " ++ joined ", " (sorted missing)))

/-- `provided.get(name)` is a non-empty text. -/
def acknowledged (provided : List (String × String)) (name : String) : Bool :=
  match provided.lookup name with
  | some text => text ≠ ""
  | none => false

/-- `_enforce_obligations`. -/
def enforceObligations (provided : List (String × String)) (required : List String) : M Unit :=
  let missing := required.filter fun name => acknowledged provided name = false
  Prog.raiseIf (missing ≠ []) (.forbiddenError
    ("mandatory obligations are not satisfied: " ++ joined ", " (sorted missing)))

/-- The approval window of the intent has elapsed at `dbNow`. -/
def windowElapsed (intent : ActionIntent) (dbNow : Time) : Bool :=
  intent.approvalExpiresAt.any fun expires => decide (expires ≤ dbNow)

/-- The role guard of `decide`. -/
def enforceRole (route : ApprovalRoute) (level : Nat) (requiredRoles roles : List String) :
    M Unit :=
  Prog.raiseIf
    (requiredRoles ≠ [] ∧
      (requiredRoleForLevel route level requiredRoles).all (fun role => role ∉ roles) = true)
    (.forbiddenError "actor does not hold the role required for this approval level")

/-- The scope and obligation guards of an approval; they return the current scopes. A rejection
passes with no scope. -/
def approverScopes (command : ApprovalDecisionCommand) (policy : PolicyEvaluation)
    (environment : Option Json) : M (List String) :=
  if command.decision = .approve then do
    -- The token must assert the scopes, and the assignments must grant them now.
    enforceScopes command.actor.scopes policy.requiredScopes
    let scopes ← currentScopes command.actor environment
    enforceScopes scopes policy.requiredScopes
    enforceObligations command.obligations policy.obligations
    return scopes
  else return []

/-- `_enforce_distinct_l1`. -/
def enforceDistinctL1 (key : RevisionKey) (actorId : String) : M Unit := do
  let actors ← scan fun s =>
    ((s.decisionsOf key).filter fun d => d.level = 1 ∧ d.decision = .approve).map (·.actorId)
  let actor ← scalarOneOrNone actors
  Prog.raiseIf (actor = some actorId)
    (.forbiddenError "L2 approver must differ from the L1 approver")

/-- `_resolve_target`. -/
def resolveTarget (intent : ActionIntent) (route : ApprovalRoute)
    (command : ApprovalDecisionCommand) : M IntentState :=
  -- A rejection is accepted at either level, wherever its edge is legal.
  if command.decision = .reject then do
    requireTransition intent.state .rejected
    return .rejected
  else if intent.state = .pendingApproval1 then
    if command.level ≠ 1 then
      .raise (.illegalTransitionError "level 1 decision is required in PENDING_APPROVAL_1")
    else if route = .criticalTwoStep then return .approvedByLevel1
    else return .approved
  else if intent.state = .pendingApproval2 then
    if command.level ≠ 2 then
      .raise (.illegalTransitionError "level 2 decision is required in PENDING_APPROVAL_2")
    else if route ≠ .criticalTwoStep then
      .raise (.illegalTransitionError "intent is not routed for critical two-step approval")
    else do
      enforceDistinctL1 intent.key command.actor.actorId
      return .approved
  else
    .raise (.illegalTransitionError
      ("decision is not accepted in state " ++ intent.state.value))

/-! ## Decisions -/

/-- The evidence row of a decision. -/
def decisionRow (command : ApprovalDecisionCommand) (intent : ActionIntent)
    (policy : PolicyEvaluation) (roles scopes : List String) (dbNow : Time) :
    ApprovalDecisionRow :=
  { key := command.key
    intentDigest := command.intentDigest
    level := command.level
    decision := command.decision
    actorId := command.actor.actorId
    actorRolesSnapshot := sortedTexts roles
    scopeSnapshot :=
      { environment := intent.environment
        scopes := sortedTexts scopes
        tokenScopes := sortedTexts command.actor.scopes
        obligations := command.obligations }
    reason := command.reason
    policyVersion := policy.policyVersion
    decidedAt := dbNow
    expiresAt := intent.approvalExpiresAt }

/-- `INSERT` of a decision; the unique index refuses a second approval of an actor at a level. -/
def insertDecision (row : ApprovalDecisionRow) : M Unit := do
  let existing ← Prog.query (D := Db) (·.decisionsOf row.key)
  Prog.raiseIf
    (row.decision = .approve ∧ existing.any (fun d =>
      d.decision = .approve ∧ d.level = row.level ∧ d.actorId = row.actorId) = true)
    (.dbapi false)
  flush (.insertDecision row)

/-- The rows of a decision whose guards have passed. -/
def writeDecision (command : ApprovalDecisionCommand) (intent : ActionIntent)
    (policy : PolicyEvaluation) (roles scopes : List String) (target : IntentState)
    (dbNow : Time) : M IntentSnapshot := do
  insertDecision (decisionRow command intent policy roles scopes dbNow)
  let intent ← Commands.recordTransition intent target
    ⟨"human", command.actor.actorId, command.commandId, "approval_" ++ command.decision.lowered⟩
    dbNow
  -- The request of the second level follows in the same transaction.
  if command.decision = .approve ∧ target = .approvedByLevel1 then do
    let intent ← Commands.recordTransition intent .pendingApproval2
      ⟨"system", "approval-coordinator", command.commandId, "level_2_request_published"⟩ dbNow
    return snapshotOf intent
  else return snapshotOf intent

/-- The part of `decide` behind the window check: guards, then rows. -/
def decideCurrent (command : ApprovalDecisionCommand) (intent : ActionIntent) (dbNow : Time) :
    M IntentSnapshot := do
  let policies ← Prog.query (D := Db) (·.policiesOf command.key)
  let policy ← scalarOne policies
  let environment := intent.environment
  let roles ← currentRoles command.actor environment
  enforceRole policy.evaluation.route command.level policy.evaluation.requiredRoles roles
  let scopes ← approverScopes command policy.evaluation environment
  -- Separation of duties; a requester may still reject.
  Prog.raiseIf (command.decision = .approve ∧ command.actor.actorId = intent.requesterId)
    (.forbiddenError "requester cannot approve their own intent")
  let target ← resolveTarget intent policy.evaluation.route command
  writeDecision command intent policy.evaluation roles scopes target dbNow

/-- `ApprovalCommandService.decide`. -/
def decide (command : ApprovalDecisionCommand) : M IntentSnapshot := do
  Prog.mark (D := Db) (.decide command)
  -- Another tenant is told what it would be told of an intent that does not exist.
  Prog.raiseIf (command.tenantId ≠ command.actor.tenantId)
    (.notFoundError "intent revision not found")
  let (intent, dbNow) ← loadLockedIntent command.key
  Prog.raiseIf (intent.stateVersion ≠ command.expectedStateVersion)
    (.stateConflictError "expected state version does not match")
  Prog.raiseIf (intent.intentDigest ≠ command.intentDigest)
    (.approvalStaleError "decision digest does not match the current revision")
  if intent.state ∈ expirableStates ∧ windowElapsed intent dbNow = true then do
    -- The caller commits on this path, so that EXPIRED is durable although the command fails.
    let _ ← Commands.recordTransition intent .expired
      ⟨"system", "approval-clock", command.commandId, "approval_ttl_elapsed"⟩ dbNow
    .raise (.approvalExpiredError "approval window elapsed")
  else decideCurrent command intent dbNow

/-! ## Cancellation -/

/-- The authority to cancel: the requester, or a current administrator. -/
def enforceCanceller (command : CancelIntentCommand) (intent : ActionIntent) : M Unit :=
  if command.actor.actorId ≠ intent.requesterId then do
    let roles ← currentRoles command.actor none
    Prog.raiseIf ("administrator" ∉ roles)
      (.forbiddenError "only the requester or an administrator may cancel")
  else return ()

/-- `ApprovalCommandService.cancel`. -/
def cancel (command : CancelIntentCommand) : M IntentSnapshot := do
  Prog.mark (D := Db) (.cancel command)
  Prog.raiseIf (command.tenantId ≠ command.actor.tenantId)
    (.notFoundError "intent revision not found")
  let (intent, dbNow) ← loadLockedIntent command.key
  Prog.raiseIf (intent.stateVersion ≠ command.expectedStateVersion)
    (.stateConflictError "expected state version does not match")
  Prog.raiseIf (intent.state ∉ cancellableStates) (.illegalTransitionError
    ("cancellation is not accepted in state " ++ intent.state.value))
  enforceCanceller command intent
  let intent ← Commands.recordTransition intent .cancelled
    ⟨"human", command.actor.actorId, command.commandId, "cancelled"⟩ dbNow
  return snapshotOf intent

/-! ## Idempotency -/

/-- `canonical_request_hash`. -/
def canonicalRequestHash (rt : Runtime) (payload : Dict) : String :=
  rt.sha256 ((Json.dict payload).dumps canonicalOptions)

/-- `idempotency_key_hash`. -/
def idempotencyKeyHash (rt : Runtime) (key : String) : String := rt.sha256 key

/-- `IdempotencyReservation`. -/
structure IdempotencyReservation where
  replayed : Bool
  pending : Bool
  responseStatus : Option Nat
  responseBody : Option Dict

/-- The reservation of a command that runs now. -/
def IdempotencyReservation.fresh : IdempotencyReservation := ⟨false, false, none, none⟩

/-- `_reservation_from`. -/
def reservationFrom (existing : IdempotencyRecord) (requestHash : String) :
    M IdempotencyReservation :=
  if existing.requestHash ≠ requestHash then
    .raise (.idempotencyConflictError "idempotency key reused with different request")
  else if existing.status = .completed then
    return ⟨true, false, existing.responseStatus, existing.responseBody⟩
  else return ⟨true, true, none, none⟩

/-- `IdempotencyService._lookup`. -/
def lookupRecord (key : IdempotencyKey) : M (Option IdempotencyRecord) :=
  Prog.query (D := Db) (·.idempotency? key)

/-- `IdempotencyService.begin`. -/
def begin (key : IdempotencyKey) (requestHash : String) : M IdempotencyReservation := do
  match ← lookupRecord key with
  | some existing => reservationFrom existing requestHash
  | none =>
      let inserted ← Prog.insert (D := Db) (.idempotency key)
        (.insertIdempotency ⟨key, requestHash, .pending, none, none⟩)
      if inserted then return .fresh
      -- Another request has reserved the key in between: its record decides.
      else
        match ← lookupRecord key with
        | some existing => reservationFrom existing requestHash
        | none => return .fresh

/-- `IdempotencyService.complete`. -/
def complete (key : IdempotencyKey) (responseStatus : Nat) (responseBody : Dict) : M Unit := do
  match ← lookupRecord key with
  | none => .raise (.notFoundError "idempotency reservation not found")
  | some _ => flush (.completeIdempotency key responseStatus responseBody)

end HitlOps.Application
