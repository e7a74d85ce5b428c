import HitlOps.Application.Transitions
import HitlOps.Infrastructure.Repositories

/-!
# Claim and revalidation

`RevalidationService` of `application/revalidation.py`: phase 1 claims the intent and commits,
phase 2 fetches the live target with no lock held, phase 3 runs the gates in a fresh transaction.
-/

set_option autoImplicit false

namespace HitlOps.Application

open HitlOps.Python HitlOps.Domain HitlOps.Infrastructure HitlOps.Adapters HitlOps.Transaction

/-- `DEFAULT_CLAIM_LEASE_SECONDS`. -/
def defaultClaimLeaseSeconds : Nat := 60

/-- `TARGET_FETCH_ATTEMPTS`. -/
def targetFetchAttempts : Nat := 2

/-- `operation_key_for`. -/
def operationKeyFor (key : RevisionKey) : String :=
  key.tenantId ++ ":" ++ key.intentId.text ++ ":" ++ toString key.revision

/-- `recompute_digest`: the digest of the stored identity and parameters. -/
def recomputeDigest (rt : Runtime) (intent : ActionIntent) : String :=
  rt.sha256 ((digestEnvelope intent.tool intent.key.tenantId intent.requesterId
    intent.key.revision intent.canonicalParameters).dumps canonicalOptions)

/-! ## Policy comparison -/

/-- `is_stricter`. -/
def isStricter (current original : PolicyDisposition) : Bool :=
  Decidable.decide (strictness original < strictness current)

/-- `route_stricter`. -/
def routeStricter (current original : ApprovalRoute) : Bool :=
  Decidable.decide (routeStrictness original < routeStrictness current)

/-- `set(current) <= set(original)` fails. -/
def addsTo (current original : List String) : Bool := current.any fun text => text ∉ original

/-- The TTL of an approval is shorter than the stored one. -/
def ttlShorter : Option Nat → Option Nat → Bool
  | some current, some original => Decidable.decide (current < original)
  | _, _ => false

/-- `policy_stricter`. -/
def policyStricter (current original : PolicyEvaluation) : Bool :=
  isStricter current.disposition original.disposition || routeStricter current.route original.route
    || addsTo current.requiredRoles original.requiredRoles
    || addsTo current.requiredScopes original.requiredScopes
    || addsTo current.obligations original.obligations
    || ttlShorter current.approvalTtlSeconds original.approvalTtlSeconds

/-- No text is added exactly when the texts are among the original ones. -/
theorem addsTo_eq_false {current original : List String} :
    addsTo current original = false ↔ current ⊆ original := by
  unfold addsTo
  rw [List.any_eq_false]
  constructor
  · intro h text hmem
    by_contra hnot
    exact h text hmem (decide_eq_true hnot)
  · intro h text hmem hadds
    exact of_decide_eq_true hadds (h hmem)

/-- The six comparisons that make a policy not stricter. -/
theorem policyStricter_eq_false {current original : PolicyEvaluation} :
    policyStricter current original = false ↔
      strictness current.disposition ≤ strictness original.disposition ∧
        routeStrictness current.route ≤ routeStrictness original.route ∧
        current.requiredRoles ⊆ original.requiredRoles ∧
        current.requiredScopes ⊆ original.requiredScopes ∧
        current.obligations ⊆ original.obligations ∧
        ttlShorter current.approvalTtlSeconds original.approvalTtlSeconds = false := by
  simp only [policyStricter, isStricter, routeStricter, Bool.or_eq_false_iff, addsTo_eq_false,
    decide_eq_false_iff_not, Nat.not_lt, and_assoc]

/-- A TTL is not shorter than itself. -/
theorem ttlShorter_self (ttl : Option Nat) : ttlShorter ttl ttl = false := by
  cases ttl with
  | none => rfl
  | some n => exact decide_eq_false (Nat.lt_irrefl n)

/-- A policy is not stricter than itself. -/
theorem policyStricter_self (p : PolicyEvaluation) : policyStricter p p = false :=
  policyStricter_eq_false.2 ⟨Nat.le_refl _, Nat.le_refl _, List.Subset.refl _, List.Subset.refl _,
    List.Subset.refl _, ttlShorter_self _⟩

/-! ## Approvers -/

/-- The check of `_approver_failure_reason` on loaded assignments. -/
def approverReason (assignments : List RoleAssignment) (requiredRoles requiredScopes : List String)
    (at_ : Time) (environment : Option Json) : Option String :=
  -- One of the roles is enough, but every scope is needed.
  if requiredRoles ≠ [] ∧
      requiredRoles.all (fun role => role ∉ evaluateCurrentRoles assignments at_ environment) then
    some "approver_no_longer_authorized"
  else if requiredScopes ≠ [] ∧
      addsTo requiredScopes (evaluateCurrentScopes assignments at_ environment) = true then
    some "approver_scopes_revoked"
  else none

/-- An approver passes with one of the roles, when roles are asked for, and with every scope. -/
theorem approverReason_eq_none {assignments : List RoleAssignment} {roles scopes : List String}
    {at_ : Time} {environment : Option Json} :
    approverReason assignments roles scopes at_ environment = none ↔
      (roles ≠ [] → ∃ role ∈ roles, role ∈ evaluateCurrentRoles assignments at_ environment) ∧
        ∀ scope ∈ scopes, scope ∈ evaluateCurrentScopes assignments at_ environment := by
  unfold approverReason addsTo
  constructor
  · intro h
    split at h
    · cases h
    · next hrole =>
        split at h
        · cases h
        · next hscopes =>
            constructor
            · intro hne
              by_contra hno
              refine hrole ⟨hne, List.all_eq_true.2 fun role hmem => decide_eq_true fun hin => ?_⟩
              exact hno ⟨role, hmem, hin⟩
            · intro scope hs
              by_contra hno
              refine hscopes ⟨List.ne_nil_of_mem hs, ?_⟩
              exact List.any_eq_true.2 ⟨scope, hs, decide_eq_true hno⟩
  · rintro ⟨hroles, hscopes⟩
    rw [if_neg, if_neg]
    · rintro ⟨-, hadds⟩
      obtain ⟨scope, hscope, hnot⟩ := List.any_eq_true.1 hadds
      exact of_decide_eq_true hnot (hscopes scope hscope)
    · rintro ⟨hne, hall⟩
      obtain ⟨role, hmem, hheld⟩ := hroles hne
      exact of_decide_eq_true (List.all_eq_true.1 hall role hmem) hheld

/-- `_approver_failure_reason`. -/
def approverFailureReason (tenantId actorId : String) (requiredRoles requiredScopes : List String)
    (at_ : Time) (environment : Option Json) : M (Option String) := do
  let assignments ← loadAssignments tenantId actorId
  return approverReason assignments requiredRoles requiredScopes at_ environment

/-- The actor that `level_actor` holds for a level: the first decision of the level. -/
def levelActor (decisions : List ApprovalDecisionRow) (level : Nat) : Option String :=
  (decisions.find? fun d => d.level = level).map (·.actorId)

/-- `_critical_levels_failure_reason`. -/
def criticalLevelsFailureReason (intent : ActionIntent) (decisions : List ApprovalDecisionRow)
    (requiredRoles requiredScopes : List String) (dbNow : Time) : M (Option String) :=
  match requiredRoles, levelActor decisions 1, levelActor decisions 2 with
  | role1 :: role2 :: _, some actor1, some actor2 =>
      if actor1 = actor2 then return some "approver_no_longer_authorized"
      else do
        match ← approverFailureReason intent.key.tenantId actor1 [role1] requiredScopes dbNow
            intent.environment with
        | some reason => return some reason
        | none =>
            approverFailureReason intent.key.tenantId actor2 [role2] requiredScopes dbNow
              intent.environment
  -- Fewer than two roles, or a level without an approval.
  | _, _, _ => return some "approver_no_longer_authorized"

/-- The loop over the decisions of a single-step route: the number of approvers that are still
authorized and the last reason. -/
def countAuthorized (intent : ActionIntent) (requiredRoles requiredScopes : List String)
    (dbNow : Time) : List ApprovalDecisionRow → Nat → Option String → M (Nat × Option String)
  | [], authorized, last => return (authorized, last)
  | d :: rest, authorized, last => do
      match ← approverFailureReason intent.key.tenantId d.actorId requiredRoles requiredScopes
          dbNow intent.environment with
      | none =>
          countAuthorized intent requiredRoles requiredScopes dbNow rest (authorized + 1) last
      -- The approver no longer counts; the reason of the last such one is reported.
      | some reason =>
          countAuthorized intent requiredRoles requiredScopes dbNow rest authorized (some reason)

/-- The approver part of gate 2. -/
def approvalsFailureReason (intent : ActionIntent) (policy : PolicyEvaluation) (dbNow : Time) :
    M (Option String) :=
  if policy.route = .none then return none
  else do
    -- The approvals of the revision, whichever digest they were given for.
    let decisions ← scan fun s =>
      (s.decisionsOf intent.key).filter fun d => d.decision = .approve
    if policy.route = .criticalTwoStep then
      criticalLevelsFailureReason intent decisions policy.requiredRoles policy.requiredScopes dbNow
    else do
      let (authorized, last) ← countAuthorized intent policy.requiredRoles policy.requiredScopes
        dbNow decisions 0 none
      if authorized < 1 then return some (last.getD "approver_no_longer_authorized")
      else return none

/-! ## Preconditions -/

/-- A field of `_TARGET_IDENTITY_FIELDS` that the intent names and the target does not match. -/
def replacedField (parameters : Dict) (snapshot : TargetSnapshot) (field : String) : Bool :=
  match parameters.get? field with
  -- `expected is not None` fails: the field is not compared.
  | none => false
  | some .null => false
  | some expected => Decidable.decide (snapshot.identity.get? field ≠ some expected)

/-- `check_preconditions`. -/
def checkPreconditions (parameters : Dict) (snapshot : TargetSnapshot) : Option String :=
  if snapshot.found = false then some "target_missing"
  else if snapshot.health = "degraded" then some "target_degraded"
  else if ["service", "resource_id", "name"].any (replacedField parameters snapshot) then
    some "target_replaced"
  else none

/-- `execution.precondition_snapshot`. -/
def preconditionSnapshot (snapshot : TargetSnapshot) : Dict :=
  [("identity", .dict snapshot.identity), ("health", .str snapshot.health),
    ("facts", .dict snapshot.facts),
    ("resource_version", (snapshot.resourceVersion.map Json.str).getD .null)]

/-! ## Gates -/

/-- What the gates decide: the failure, or the execution with its snapshot. -/
inductive Gates : Type
  | failed (state : IntentState) (reasonCode : String)
  | passed (execution : Execution)

/-- Gates 3 and 4: the current policy and the live target. -/
def policyAndTarget (rt : Runtime) (intent : ActionIntent) (stored : PolicyEvaluation)
    (bundle : PolicyBundle) (snapshot : TargetSnapshot) (execution : Execution) :
    Except Error Gates := do
  let risk := evaluateRisk intent.tool intent.canonicalParameters {}
  let current ← evaluatePolicy rt intent.tool risk intent.canonicalParameters bundle
  if current.disposition = .block then return .failed .stale "policy_now_blocks"
  -- A policy that has come to allow the intent stales nothing, whatever else it changes.
  else if policyStricter current stored = true ∧ current.disposition ≠ .allow then
    return .failed .stale "policy_route_stricter"
  else match checkPreconditions intent.canonicalParameters snapshot with
    | some reason => return .failed .stale reason
    | none =>
        return .passed
          { execution with preconditionSnapshot := some (preconditionSnapshot snapshot) }

/-- `_revalidate_gates`. -/
def revalidateGates (rt : Runtime) (intent : ActionIntent) (execution : Execution) (dbNow : Time)
    (bundle : PolicyBundle) (snapshot : TargetSnapshot) : M Gates :=
  if recomputeDigest rt intent ≠ intent.intentDigest then
    return .failed .stale "digest_mismatch"
  else do
    let policies ← Prog.query (D := Db) (·.policiesOf intent.key)
    let policy ← scalarOne policies
    -- The window closes at its end: an approval that ends now is over.
    if intent.approvalExpiresAt.any (fun expires => Decidable.decide (expires ≤ dbNow)) = true then
      return .failed .expired "approval_ttl_elapsed"
    else do
      match ← approvalsFailureReason intent policy.evaluation dbNow with
      | some reason => return .failed .stale reason
      | none =>
          ofExcept (policyAndTarget rt intent policy.evaluation bundle snapshot execution)

/-! ## The phases -/

/-- `datetime + timedelta(seconds=lease_seconds)` of a claim. -/
def leaseUntil (dbNow : Time) (leaseSeconds : Nat) : Time := dbNow + seconds leaseSeconds

/-- The execution row of a first claim. -/
def claimedExecution (id : UUID) (key : RevisionKey) (expires : Time) : Execution :=
  { id
    key
    operationKey := operationKeyFor key
    attempt := 1
    status := .claimed
    providerOperationId := none
    preconditionSnapshot := none
    claimExpiresAt := some expires
    startedAt := none
    finishedAt := none
    errorCode := none
    resultSummary := none
    reconcileAttempts := 0
    nextReconcileAt := none }

/-- `INSERT` of an execution row; a duplicate identifier raises an integrity error. -/
def insertExecution (row : Execution) : M Unit := do
  let inserted ← Prog.insert (D := Db) (.execution row.id) (.insertExecution row)
  Prog.raiseIf (inserted = false) (.dbapi false)

/-- The claim of the execution row: a live claim is refused, an expired one is taken again. -/
def claimExecution (key : RevisionKey) (dbNow : Time) (leaseSeconds : Nat) : M Unit := do
  -- The row is searched without the tenant.
  let found ← Prog.query (D := Db) (·.executionsOf key.intentId key.revision)
  match ← scalarOneOrNone found with
  | some existing =>
      if existing.status = .claimed ∧
          existing.claimExpiresAt.any (fun expires => Decidable.decide (dbNow < expires)) = true then
        .raise (.stateConflictError "execution already claimed by another worker")
      -- Expired lease: retake the same claim row.
      else flush (.updateExecution existing
        { existing with
          attempt := existing.attempt + 1
          status := .claimed
          claimExpiresAt := some (leaseUntil dbNow leaseSeconds)
          errorCode := none })
  | none => do
      let id ← Prog.draw (D := Db) .uuid
      insertExecution (claimedExecution id key (leaseUntil dbNow leaseSeconds))

namespace Revalidation

/-- `_outbox`. -/
def transitionPayload (intent : ActionIntent) (target : IntentState) (cause : Cause) : Dict :=
  [("tenant_id", .str intent.key.tenantId), ("intent_id", .str intent.key.intentId.text),
    ("revision", .int intent.key.revision), ("from_state", .str intent.state.value),
    ("to_state", .str target.value), ("reason_code", .str cause.reasonCode),
    ("actor_id", .str cause.actorId), ("command_id", .str cause.commandId)]

/-- `_record_transition` of the revalidation service. -/
def recordTransition (intent : ActionIntent) (target : IntentState)
    (actorId commandId reasonCode : String) (dbNow : Time) : M ActionIntent :=
  let cause : Cause := ⟨"system", actorId, commandId, reasonCode⟩
  appendTransition intent target cause dbNow "intent.transitioned"
    (transitionPayload intent target cause)

end Revalidation

/-- The arguments of `claim_and_revalidate`. -/
structure ClaimRequest where
  key : RevisionKey
  workerId : String
  commandId : String
  bundle : PolicyBundle
  leaseSeconds : Nat

/-- Phase 1: claim the locked intent and flush REVALIDATING. -/
def claimPhase (request : ClaimRequest) : M ActionIntent := do
  match ← lockIntentNowait request.key with
  -- `NOWAIT`: another transaction holds the row.
  | none => .raise (.dbapi true)
  | some (none, _) => .raise (.notFoundError "intent revision not found")
  | some (some intent, dbNow) =>
      if intent.state ≠ .autoApproved ∧ intent.state ≠ .approved then
        .raise (.stateConflictError
          ("intent is not executable in state " ++ intent.state.value))
      else do
        claimExecution request.key dbNow request.leaseSeconds
        Revalidation.recordTransition intent .revalidating request.workerId request.commandId
          "execution_claimed" dbNow

/-- Phase 2: the bounded fetch of the live target. -/
def fetchTarget (tool : ToolName) (parameters : Dict) :
    Nat → String → M (Except String TargetSnapshot)
  | 0, reason => return .error reason
  | attempts + 1, _ => do
      match ← Prog.call (D := Db) (.fetch tool parameters) with
      | .snapshot s => return .ok s
      | .timeout => fetchTarget tool parameters attempts "target_fetch_timeout"
      | .error => fetchTarget tool parameters attempts "target_fetch_failed"
      -- `CancelledError` is no `Exception`: there is no second attempt.
      | .cancelled => .raise .cancelled

/-- The head of the two closing transactions: lock the intent again, check that the claim is
still there, and read the execution row. -/
def reopenClaim (request : ClaimRequest) : M (ActionIntent × Execution × Time) := do
  match ← lockIntentNowait request.key with
  | none => .raise (.dbapi true)
  | some (none, _) => .raise (.notFoundError "intent revision not found")
  | some (some intent, dbNow) =>
      -- No lock was held since the first phase, so another transaction may have moved the intent.
      if intent.state ≠ .revalidating then
        .raise (.stateConflictError
          ("claim lost while fetching target: " ++ intent.state.value))
      else do
        let found ← Prog.query (D := Db)
          (·.executionsOf request.key.intentId request.key.revision)
        let execution ← scalarOne found
        return (intent, execution, dbNow)

/-- The rows of a claim that ends in `state` without a permit. -/
def failClaim (request : ClaimRequest) (intent : ActionIntent) (execution : Execution)
    (dbNow : Time) (state : IntentState) (reasonCode : String) : M RevalidationFailure := do
  let _ ← Revalidation.recordTransition intent state request.workerId request.commandId
    reasonCode dbNow
  flush (.updateExecution execution
    { execution with
      status := .failed
      errorCode := some reasonCode
      finishedAt := some dbNow })
  return ⟨state, reasonCode, execution.id⟩

/-- `_fail_after_fetch_failure`. -/
def failAfterFetchFailure (request : ClaimRequest) (reasonCode : String) :
    M RevalidationFailure :=
  Prog.transaction (D := Db) do
    let (intent, execution, dbNow) ← reopenClaim request
    failClaim request intent execution dbNow .stale reasonCode

/-- `snapshot_stored.get("resource_version")`. -/
def storedResourceVersion (snapshot : Option Dict) : Option String :=
  match (snapshot.getD []).get? "resource_version" with
  | some (.str v) => some v
  | _ => none

/-- The permit of a claim whose gates have passed. -/
def permitFor (rt : Runtime) (intent : ActionIntent) (execution : Execution) (dbNow : Time) :
    ExecutionPermit :=
  { key := intent.key
    intentDigest := intent.intentDigest
    tool := intent.tool
    typedParameters := intent.canonicalParameters
    operationKey := operationKeyFor intent.key
    preconditionToken := rt.sha256
      (((execution.preconditionSnapshot.map Json.dict).getD .null).dumps ⟨true, true⟩)
    resourceVersion := storedResourceVersion execution.preconditionSnapshot
    executionId := execution.id
    issuedAt := dbNow }

/-- The rows of a claim that ends in a permit. -/
def issuePermit (rt : Runtime) (request : ClaimRequest) (intent : ActionIntent)
    (read passed : Execution) (dbNow : Time) : M ExecutionPermit := do
  let intent ← Revalidation.recordTransition intent .executing request.workerId request.commandId
    "revalidation_passed" dbNow
  flush (.updateExecution read { passed with status := .executing, startedAt := some dbNow })
  let permit := permitFor rt intent passed dbNow
  Prog.mark (D := Db) (.permit permit)
  return permit

/-- Phase 3: the gates and the recorded outcome. -/
def gatePhase (rt : Runtime) (request : ClaimRequest) (snapshot : TargetSnapshot) :
    M (Except RevalidationFailure ExecutionPermit) :=
  Prog.transaction (D := Db) do
    let (intent, execution, dbNow) ← reopenClaim request
    match ← revalidateGates rt intent execution dbNow request.bundle snapshot with
    | .failed state reasonCode => do
        let failure ← failClaim request intent execution dbNow state reasonCode
        return .error failure
    | .passed passed => do
        let permit ← issuePermit rt request intent execution passed dbNow
        return .ok permit

/-- `_claim_and_revalidate`. -/
def claimAndRevalidateBody (rt : Runtime) (request : ClaimRequest) :
    M (Except RevalidationFailure ExecutionPermit) := do
  let intent ← claimPhase request
  -- The lock is released before the network call.
  Prog.commit (D := Db)
  match ← fetchTarget intent.tool intent.canonicalParameters targetFetchAttempts
      "target_fetch_failed" with
  -- The claim is committed: a failed fetch gets a durable outcome of its own.
  | .error reason => do
      let failure ← failAfterFetchFailure request reason
      return .error failure
  | .ok snapshot => gatePhase rt request snapshot

/-- `claim_and_revalidate`: a lock conflict becomes a state conflict. -/
def claimAndRevalidate (rt : Runtime) (request : ClaimRequest) :
    M (Except RevalidationFailure ExecutionPermit) := do
  Prog.mark (D := Db) (.claim request.key request.bundle)
  Prog.handle (claimAndRevalidateBody rt request) fun x =>
    if x = .dbapi true then
      .raise (.stateConflictError "row lock or serialization conflict; retry")
    else .raise x

end HitlOps.Application
