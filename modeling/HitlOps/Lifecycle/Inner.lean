import HitlOps.Lifecycle.Ledger
import HitlOps.Lifecycle.Routes

/-!
# Programs that leave the reservations alone

`Inner` says of a statement that it neither ends the transaction nor writes an idempotency record,
and `Outer` only the latter. The commands behind the mutation routes are inner programs, whose errors
ask for a rollback unless they tell of an elapsed window. All other operations are outer programs.
-/

set_option autoImplicit false

namespace HitlOps.Lifecycle

open HitlOps.Python HitlOps.Domain HitlOps.Infrastructure HitlOps.Application HitlOps.Adapters
open HitlOps.Transaction HitlOps.Api

/-- The idempotency record that a write adds or completes. -/
def reservationKey? : Write → Option IdempotencyKey
  | .insertIdempotency row => some row.key
  | .completeIdempotency key _ _ => some key
  | _ => none

/-- A statement that leaves the transaction open and the idempotency records alone. -/
def Inner : Stmt Db → Prop
  | .write w => reservationKey? w = none
  | .insert _ w => reservationKey? w = none
  | .commit => False
  | .rollback => False
  | _ => True

/-- A statement that leaves the idempotency records alone. -/
def Outer : Stmt Db → Prop
  | .write w => reservationKey? w = none
  | .insert _ w => reservationKey? w = none
  | _ => True

/-- An error of a decision: the session rolls back, or the window has elapsed. -/
def Deciding (x : Error) : Prop := Benign x ∨ ∃ message, x = .approvalExpiredError message

theorem outer_of_inner {st : Stmt Db} (h : Inner st) : Outer st := by
  cases st with
  | write w => exact h
  | insert k w => exact h
  | _ => exact trivial

section Inner

variable {rt : Runtime} {α β : Type}

/-! ## Parts of programs -/

theorem inner_query (q : Store → α) : (Prog.query (D := Db) q : M α).Uses Inner Benign :=
  Prog.uses_query trivial

theorem inner_draw (o : Application.Source) : (Prog.draw (D := Db) o : M _).Uses Inner Benign :=
  Prog.uses_draw trivial

theorem inner_raiseIf {c : Prop} [Decidable c] {x : Error} (hx : Benign x) :
    (Prog.raiseIf (D := Db) c x).Uses Inner Benign := Prog.uses_raiseIf hx

theorem inner_orRaise {x : Error} (hx : Benign x) (o : Option α) :
    (Prog.orRaise (D := Db) x o).Uses Inner Benign := Prog.uses_orRaise hx

theorem inner_scan (q : Store → List α) : (scan q).Uses Inner Benign :=
  (inner_query q).bind fun _ => (inner_draw .order).bind fun _ => trivial

theorem inner_scalarOne (rows : List α) : (scalarOne rows).Uses Inner Benign := by
  match rows with
  | [] => exact rfl
  | [_] => exact trivial
  | _ :: _ :: _ => exact rfl

theorem inner_scalarOneOrNone (rows : List α) : (scalarOneOrNone rows).Uses Inner Benign := by
  match rows with
  | [] => exact trivial
  | [_] => exact trivial
  | _ :: _ :: _ => exact rfl

theorem inner_flush {w : Write} (hw : reservationKey? w = none) :
    (flush w).Uses Inner Benign :=
  Prog.Uses.bind (inner_raiseIf rfl) fun _ => Prog.uses_write hw

/-- A flushed row at the head of a program. -/
theorem inner_flush_bind {w : Write} {f : Unit → M α} (hw : reservationKey? w = none)
    (hf : (f ()).Uses Inner Benign) : (flush w >>= f).Uses Inner Benign :=
  (inner_flush hw).bind fun _ => hf

theorem inner_lockIntentNowait (key : RevisionKey) :
    (lockIntentNowait key).Uses Inner Benign := by
  refine (Prog.uses_lock trivial).bind fun r => ?_
  cases r with
  | none => exact trivial
  | some _ => exact trivial

theorem inner_lockIntent (key : RevisionKey) : (lockIntent key).Uses Inner Benign := by
  refine (Prog.uses_lock trivial).bind fun r => ?_
  cases r with
  | none => exact rfl
  | some _ => exact inner_orRaise rfl _

theorem inner_appendTransition (intent : ActionIntent) (target : IntentState) (cause : Cause)
    (dbNow : Time) (topic : String) (payload : Dict) :
    (appendTransition intent target cause dbNow topic payload).Uses Inner Benign := by
  refine Prog.Uses.bind (inner_raiseIf rfl) fun _ => (inner_query _).bind fun _ => ?_
  exact inner_flush_bind rfl (inner_flush_bind rfl (inner_flush_bind rfl trivial))

theorem inner_currentRoles (actor : AuthenticatedActor) (environment : Option Json) :
    (currentRoles actor environment).Uses Inner Benign :=
  (inner_query _).bind fun _ => (inner_draw .now).bind fun _ => trivial

theorem inner_currentScopes (actor : AuthenticatedActor) (environment : Option Json) :
    (currentScopes actor environment).Uses Inner Benign :=
  (inner_query _).bind fun _ => (inner_draw .now).bind fun _ => trivial

theorem inner_getActive (tenantId : String) : (getActive tenantId).Uses Inner Benign :=
  (inner_query _).bind fun _ => (inner_scalarOneOrNone _).bind fun _ => trivial

/-! ## Creation -/

theorem inner_create (command : CreateIntentCommand) :
    (create rt command).Uses Inner Benign := by
  refine (inner_draw .now).bind fun now => ?_
  refine Prog.Uses.bind (p := insertIntent (createdIntent rt command)) ?_ fun _ => ?_
  · refine Prog.Uses.bind (inner_raiseIf rfl) fun _ => ?_
    refine Prog.Uses.bind (Prog.uses_insert rfl) fun _ => inner_raiseIf rfl
  · exact inner_flush_bind rfl (inner_flush_bind rfl trivial)

theorem inner_currentRecord (key : RevisionKey) (risk : RiskEvaluationRow) :
    (currentRecord key risk).Uses Inner Benign := by
  refine (inner_query _).bind fun s => (inner_orRaise rfl _).bind fun intent => ?_
  exact (inner_query _).bind fun policies => (inner_scalarOne _).bind fun _ => trivial

theorem inner_writeEvaluation (intent : ActionIntent) (risk : RiskEvaluation)
    (policy : PolicyEvaluation) (commandId correlationId : String) (now : Time) :
    (writeEvaluation intent risk policy commandId correlationId now).Uses Inner Benign := by
  unfold writeEvaluation
  refine inner_flush_bind rfl (inner_flush_bind rfl ?_)
  refine inner_flush_bind rfl (inner_flush_bind rfl (inner_flush_bind rfl ?_))
  refine inner_flush_bind rfl (inner_flush_bind rfl (inner_flush_bind rfl ?_))
  exact inner_flush_bind rfl (inner_flush_bind rfl (inner_flush rfl))

theorem inner_record (key : RevisionKey) (risk : RiskEvaluation) (policy : PolicyEvaluation)
    (commandId correlationId : String) :
    (record key risk policy commandId correlationId).Uses Inner Benign := by
  refine (inner_query _).bind fun risks => (inner_scalarOneOrNone _).bind fun found => ?_
  cases found with
  | some existing => exact inner_currentRecord _ _
  | none =>
      refine (Prog.uses_lock trivial).bind fun r => ?_
      cases r with
      | none => exact rfl
      | some seen =>
          dsimp only
          generalize seen.1.intent? key = found
          cases found with
          | none => exact rfl
          | some intent =>
              refine Prog.uses_ite (fun _ => rfl) fun _ => (inner_draw .now).bind fun now => ?_
              exact (inner_writeEvaluation _ _ _ _ _ _).bind fun _ => trivial

theorem inner_ofExcept {r : Except Error α} (h : ∀ x, r = .error x → Benign x) :
    (ofExcept r).Uses Inner Benign := by
  cases r with
  | ok a => exact trivial
  | error x => exact h x rfl

/-! ## Commands -/

theorem inner_loadLockedIntent (key : RevisionKey) :
    (loadLockedIntent key).Uses Inner Benign := by
  refine (inner_lockIntentNowait key).bind fun r => ?_
  match r with
  | none => exact rfl
  | some (none, _) => exact rfl
  | some (some _, _) => exact trivial

theorem inner_resolveTarget (intent : ActionIntent) (route : ApprovalRoute)
    (command : ApprovalDecisionCommand) :
    (resolveTarget intent route command).Uses Inner Benign := by
  unfold resolveTarget
  refine Prog.uses_ite (fun _ => ?_) fun _ => Prog.uses_ite (fun _ => ?_) fun _ =>
    Prog.uses_ite (fun _ => ?_) fun _ => rfl
  · exact Prog.Uses.bind (inner_raiseIf rfl) fun _ => trivial
  · refine Prog.uses_ite (fun _ => rfl) fun _ => ?_
    exact Prog.uses_ite (fun _ => trivial) fun _ => trivial
  · refine Prog.uses_ite (fun _ => rfl) fun _ => ?_
    refine Prog.uses_ite (fun _ => rfl) fun _ => ?_
    refine Prog.Uses.bind (p := enforceDistinctL1 _ _) ?_ fun _ => trivial
    refine (inner_scan _).bind fun actors => (inner_scalarOneOrNone _).bind fun _ => ?_
    exact inner_raiseIf rfl

theorem inner_writeDecision (command : ApprovalDecisionCommand) (intent : ActionIntent)
    (policy : PolicyEvaluation) (roles scopes : List String) (target : IntentState) (dbNow : Time) :
    (writeDecision command intent policy roles scopes target dbNow).Uses Inner Benign := by
  refine Prog.Uses.bind (p := insertDecision _) ?_ fun _ => ?_
  · refine (inner_query _).bind fun existing => Prog.Uses.bind (inner_raiseIf rfl) fun _ => ?_
    exact inner_flush rfl
  · refine (inner_appendTransition _ _ _ _ _ _).bind fun moved => ?_
    refine Prog.uses_ite (fun _ => ?_) fun _ => trivial
    exact (inner_appendTransition _ _ _ _ _ _).bind fun _ => trivial

theorem inner_approverScopes (command : ApprovalDecisionCommand) (policy : PolicyEvaluation)
    (environment : Option Json) :
    (approverScopes command policy environment).Uses Inner Benign := by
  refine Prog.uses_ite (fun _ => ?_) fun _ => trivial
  refine Prog.Uses.bind (p := enforceScopes _ _) (inner_raiseIf rfl) fun _ => ?_
  refine (inner_currentScopes _ _).bind fun scopes => ?_
  refine Prog.Uses.bind (p := enforceScopes _ _) (inner_raiseIf rfl) fun _ => ?_
  exact Prog.Uses.bind (p := enforceObligations _ _) (inner_raiseIf rfl) fun _ => trivial

theorem inner_decideCurrent (command : ApprovalDecisionCommand) (intent : ActionIntent)
    (dbNow : Time) : (decideCurrent command intent dbNow).Uses Inner Benign := by
  refine (inner_query _).bind fun policies => (inner_scalarOne _).bind fun policy => ?_
  refine (inner_currentRoles _ _).bind fun roles => ?_
  refine Prog.Uses.bind (p := enforceRole _ _ _ _) (inner_raiseIf rfl) fun _ => ?_
  refine (inner_approverScopes _ _ _).bind fun scopes => ?_
  refine Prog.Uses.bind (inner_raiseIf rfl) fun _ => ?_
  exact (inner_resolveTarget _ _ _).bind fun target => inner_writeDecision _ _ _ _ _ _ _

/-- A part of a decision that does not look at the window. -/
theorem deciding {p : M α} (h : p.Uses Inner Benign) : p.Uses Inner Deciding :=
  h.mono (fun _ hst => hst) fun _ hx => .inl hx

theorem inner_decide (command : ApprovalDecisionCommand) :
    (Application.decide command).Uses Inner Deciding := by
  refine Prog.Uses.bind (Prog.uses_mark trivial) fun _ => ?_
  refine Prog.Uses.bind (deciding (inner_raiseIf rfl)) fun _ => ?_
  refine (deciding (inner_loadLockedIntent _)).bind fun e => ?_
  refine Prog.Uses.bind (deciding (inner_raiseIf rfl)) fun _ => ?_
  refine Prog.Uses.bind (deciding (inner_raiseIf rfl)) fun _ => ?_
  refine Prog.uses_ite (fun _ => ?_) fun _ => deciding (inner_decideCurrent _ _ _)
  exact (deciding (inner_appendTransition _ _ _ _ _ _)).bind fun _ => .inr ⟨_, rfl⟩

theorem inner_cancel (command : CancelIntentCommand) :
    (cancel command).Uses Inner Benign := by
  refine Prog.Uses.bind (Prog.uses_mark trivial) fun _ => ?_
  refine Prog.Uses.bind (inner_raiseIf rfl) fun _ => ?_
  refine (inner_loadLockedIntent _).bind fun e => ?_
  refine Prog.Uses.bind (inner_raiseIf rfl) fun _ => ?_
  refine Prog.Uses.bind (inner_raiseIf rfl) fun _ => ?_
  refine Prog.Uses.bind (p := enforceCanceller _ _) ?_ fun _ => ?_
  · refine Prog.uses_ite (fun _ => ?_) fun _ => trivial
    exact (inner_currentRoles _ _).bind fun _ => inner_raiseIf rfl
  · exact (inner_appendTransition _ _ _ _ _ _).bind fun _ => trivial

/-! ## Administration -/

theorem inner_requireAdministrator (actor : AuthenticatedActor) :
    (requireAdministrator actor).Uses Inner Benign :=
  (inner_currentRoles _ _).bind fun _ => inner_raiseIf rfl

theorem inner_grantRole (command : GrantRoleCommand) :
    (grantRole command).Uses Inner Benign := by
  refine (inner_requireAdministrator _).bind fun _ => ?_
  refine Prog.Uses.bind (Prog.uses_select trivial) fun e => ?_
  refine (inner_scalarOneOrNone _).bind fun found => ?_
  cases found with
  | some existing => exact trivial
  | none => exact (inner_draw .uuid).bind fun id => inner_flush_bind rfl (inner_flush_bind rfl trivial)

theorem inner_revokeRole (command : RevokeRoleCommand) :
    (revokeRole command).Uses Inner Benign := by
  refine (inner_requireAdministrator _).bind fun _ => (inner_query _).bind fun found => ?_
  refine (inner_orRaise rfl _).bind fun row => ?_
  refine Prog.Uses.bind (inner_raiseIf rfl) fun _ => (inner_draw .now).bind fun now => ?_
  exact inner_flush_bind rfl (inner_flush_bind rfl trivial)

theorem inner_registerPolicyBundle (command : RegisterPolicyBundleCommand) :
    (registerPolicyBundle command).Uses Inner Benign := by
  refine (inner_requireAdministrator _).bind fun _ => (inner_query _).bind fun found => ?_
  refine (inner_scalarOneOrNone _).bind fun existing => ?_
  refine Prog.Uses.bind (inner_raiseIf rfl) fun _ => (inner_draw .uuid).bind fun id => ?_
  exact inner_flush_bind rfl (inner_flush_bind rfl trivial)

theorem inner_activatePolicyBundle (command : ActivatePolicyBundleCommand) :
    (activatePolicyBundle command).Uses Inner Benign := by
  refine (inner_requireAdministrator _).bind fun _ => (inner_query _).bind fun found => ?_
  refine (inner_scalarOneOrNone _).bind fun existing => ?_
  refine (inner_orRaise rfl _).bind fun row => ?_
  exact inner_flush_bind rfl (inner_flush_bind rfl (inner_flush_bind rfl trivial))

/-! ## Proposals -/

theorem inner_createIntentFromProposal (actor : AuthenticatedActor) (tool : String)
    (parameters : Dict) (rationale : String) (source : IntentSource) (correlationId : String) :
    (createIntentFromProposal rt actor tool parameters rationale source correlationId).Uses Inner
      Benign := by
  refine (inner_ofExcept fun x hx => parseToolParameters_benign hx).bind fun parsed => ?_
  refine (inner_ofExcept fun x hx => canonicalize_benign hx).bind fun canonical => ?_
  refine (inner_draw .uuid).bind fun intentId => (inner_draw .uuid).bind fun commandId => ?_
  refine (inner_create _).bind fun snapshot => (inner_getActive _).bind fun active => ?_
  cases active with
  | none => exact rfl
  | some bundle =>
      refine (inner_ofExcept fun x hx => evaluatePolicy_benign hx).bind fun policy => ?_
      refine (inner_record _ _ _ _ _).bind fun recorded => (inner_query _).bind fun found => ?_
      exact (inner_orRaise rfl _).bind fun stored => trivial

theorem inner_propose (body : AgentIntentBody) : (propose rt body).Uses Inner Benign := by
  refine (Prog.uses_call trivial).bind fun answer => ?_
  cases answer with
  | value raw => exact inner_ofExcept fun x hx => boundProposal_benign hx
  | _ => exact rfl

theorem inner_agentCommand (request : Request) (body : AgentIntentBody) :
    (agentCommand rt request body).Uses Inner Benign :=
  (inner_propose body).bind fun _ => inner_createIntentFromProposal _ _ _ _ _ _

end Inner

/-! ## Other operations -/

section Outer

variable {rt : Runtime} {α β : Type}

/-- An operation that leaves the idempotency records alone, whatever it raises. -/
abbrev Outside (p : M α) : Prop := p.Uses Outer fun _ => True

theorem outside_of_inner {H : Error → Prop} {p : M α} (h : p.Uses Inner H) : Outside p :=
  h.mono (fun _ => outer_of_inner) fun _ _ => trivial

theorem outside_of_reading {p : M α} (h : p.Uses Reading fun _ => True) : Outside p := by
  refine h.mono (fun st hst => ?_) fun _ _ => trivial
  cases st with
  | write w => exact hst.elim
  | insert k w => exact hst.elim
  | _ => exact trivial

theorem outside_commit : Outside (Prog.commit (D := Db) : M Unit) := ⟨trivial, fun _ => trivial⟩

theorem outside_rollback : Outside (Prog.rollback (D := Db) : M Unit) := ⟨trivial, fun _ => trivial⟩

theorem outside_transaction {p : M α} (hp : Outside p) : Outside (Prog.transaction (D := Db) p) :=
  Prog.Uses.handle (hp.bind fun _ => outside_commit.bind fun _ => trivial)
    fun _ _ => outside_rollback.bind fun _ => trivial

theorem outside_session {p : M α} (hp : Outside p) : Outside (Prog.session (D := Db) p) :=
  Prog.Uses.handle (hp.bind fun _ => outside_rollback.bind fun _ => trivial)
    fun _ _ => outside_rollback.bind fun _ => trivial

theorem outside_getSession {p : M α} (hp : Outside p) : Outside (getSession p) := by
  refine Prog.Uses.handle (hp.bind fun _ => outside_commit.bind fun _ => trivial) fun x _ => ?_
  exact Prog.uses_ite (fun _ => outside_commit.bind fun _ => trivial)
    fun _ => outside_rollback.bind fun _ => trivial

/-- A handler that answers with a value or passes the error on. -/
theorem outside_handle {p : M α} {g : Error → M α} (hp : Outside p) (hg : ∀ x, Outside (g x)) :
    Outside (Prog.handle p g) := Prog.Uses.handle hp fun x _ => hg x

theorem outside_wrapped {wrap : α → Result} {p : M α} (hp : Outside p) : Outside (wrapped wrap p) :=
  hp.bind fun _ => trivial

/-! ## Claims -/

theorem outside_claimExecution (key : RevisionKey) (dbNow : Time) (leaseSeconds : Nat) :
    Outside (claimExecution key dbNow leaseSeconds) := by
  refine outside_of_inner ((inner_query _).bind fun rows => (inner_scalarOneOrNone _).bind ?_)
  intro found
  cases found with
  | some existing => exact Prog.uses_ite (fun _ => rfl) fun _ => inner_flush rfl
  | none =>
      refine (inner_draw .uuid).bind fun id => Prog.Uses.bind (Prog.uses_insert rfl) fun _ => ?_
      exact inner_raiseIf rfl

theorem outside_claimPhase (request : ClaimRequest) : Outside (claimPhase request) := by
  refine (outside_of_inner (inner_lockIntentNowait _)).bind fun r => ?_
  match r with
  | none => exact trivial
  | some (none, _) => exact trivial
  | some (some intent, dbNow) =>
      refine Prog.uses_ite (fun _ => trivial) fun _ => ?_
      refine (outside_claimExecution _ _ _).bind fun _ => ?_
      exact outside_of_inner (inner_appendTransition _ _ _ _ _ _)

theorem outside_fetchTarget (tool : ToolName) (parameters : Dict) (attempts : Nat)
    (reason : String) : Outside (fetchTarget tool parameters attempts reason) := by
  induction attempts generalizing reason with
  | zero => exact trivial
  | succ attempts ih =>
      refine (Prog.uses_call trivial).bind fun answer => ?_
      cases answer with
      | snapshot s => exact trivial
      | timeout => exact ih _
      | error => exact ih _
      | cancelled => exact trivial

theorem outside_reopenClaim (request : ClaimRequest) : Outside (reopenClaim request) := by
  refine (outside_of_inner (inner_lockIntentNowait _)).bind fun r => ?_
  match r with
  | none => exact trivial
  | some (none, _) => exact trivial
  | some (some intent, dbNow) =>
      refine Prog.uses_ite (fun _ => trivial) fun _ => ?_
      exact outside_of_inner ((inner_query _).bind fun rows => (inner_scalarOne _).bind fun _ => trivial)

theorem outside_failClaim (request : ClaimRequest) (intent : ActionIntent) (execution : Execution)
    (dbNow : Time) (state : IntentState) (reasonCode : String) :
    Outside (failClaim request intent execution dbNow state reasonCode) :=
  outside_of_inner ((inner_appendTransition _ _ _ _ _ _).bind fun _ =>
    inner_flush_bind rfl trivial)

theorem outside_issuePermit (request : ClaimRequest) (intent : ActionIntent)
    (read passed : Execution) (dbNow : Time) :
    Outside (issuePermit rt request intent read passed dbNow) :=
  outside_of_inner ((inner_appendTransition _ _ _ _ _ _).bind fun _ =>
    inner_flush_bind rfl (Prog.Uses.bind (Prog.uses_mark trivial) fun _ => trivial))

theorem outside_ofExcept (r : Except Error α) : Outside (ofExcept r) := by
  cases r with
  | ok a => exact trivial
  | error x => exact trivial

theorem outside_revalidateGates (intent : ActionIntent) (execution : Execution) (dbNow : Time)
    (bundle : PolicyBundle) (snapshot : TargetSnapshot) :
    Outside (revalidateGates rt intent execution dbNow bundle snapshot) := by
  refine Prog.uses_ite (fun _ => trivial) fun _ => ?_
  refine (outside_of_inner (inner_query _)).bind fun policies => ?_
  refine (outside_of_inner (inner_scalarOne _)).bind fun policy => ?_
  refine Prog.uses_ite (fun _ => trivial) fun _ => ?_
  refine (outside_of_reading (reads_approvalsFailureReason _ _ _)).bind fun reason => ?_
  cases reason with
  | some code => exact trivial
  | none => exact outside_ofExcept _

theorem outside_gatePhase (request : ClaimRequest) (snapshot : TargetSnapshot) :
    Outside (gatePhase rt request snapshot) := by
  refine outside_transaction ((outside_reopenClaim request).bind fun reopened => ?_)
  refine (outside_revalidateGates _ _ _ _ _).bind fun gates => ?_
  cases gates with
  | failed state reasonCode => exact (outside_failClaim _ _ _ _ _ _).bind fun _ => trivial
  | passed execution => exact (outside_issuePermit _ _ _ _ _).bind fun _ => trivial

theorem outside_claimAndRevalidate (request : ClaimRequest) :
    Outside (claimAndRevalidate rt request) := by
  refine Prog.Uses.bind (Prog.uses_mark trivial) fun _ => ?_
  refine outside_handle ?_ fun x => Prog.uses_ite (fun _ => trivial) fun _ => trivial
  refine (outside_claimPhase request).bind fun intent => outside_commit.bind fun _ => ?_
  refine (outside_fetchTarget _ _ _ _).bind fun fetched => ?_
  cases fetched with
  | error reason =>
      refine Prog.Uses.bind (outside_transaction ?_) fun _ => trivial
      exact (outside_reopenClaim request).bind fun reopened => outside_failClaim _ _ _ _ _ _
  | ok snapshot => exact outside_gatePhase request snapshot

/-! ## Executions -/

theorem outside_executePermit (permit : ExecutionPermit) (workerId commandId : String) :
    Outside (executePermit rt permit workerId commandId) := by
  refine (outside_of_inner (inner_query _)).bind fun found => ?_
  refine Prog.Uses.bind (Prog.uses_orRaise trivial) fun execution => ?_
  refine (outside_of_inner (inner_lockIntent _)).bind fun intent => ?_
  refine Prog.uses_ite (fun _ => trivial) fun _ => (Prog.uses_call trivial).bind fun answer => ?_
  unfold recordOutcome
  split
  · exact trivial
  · refine (outside_of_inner (inner_draw .now)).bind fun dbNow => ?_
    refine (outside_of_inner (inner_appendTransition _ _ _ _ _ _)).bind fun _ => ?_
    exact outside_of_inner (inner_flush_bind rfl trivial)

theorem outside_recordEvidence (intent : ActionIntent) (execution : Execution)
    (answer : LookupAnswer) (workerId commandId : String) :
    Outside (recordEvidence rt intent execution answer workerId commandId) := by
  refine Prog.uses_ite (fun _ => trivial) fun _ => ?_
  refine (outside_of_inner (inner_draw .now)).bind fun dbNow => Prog.uses_ite (fun _ => ?_) fun _ => ?_
  · refine Prog.uses_ite (fun _ => ?_) fun _ => ?_
    · exact outside_of_inner (inner_flush_bind rfl (inner_flush_bind rfl trivial))
    · exact outside_of_inner (inner_flush_bind rfl trivial)
  · split
    · exact trivial
    · refine (outside_of_inner (inner_appendTransition _ _ _ _ _ _)).bind fun _ => ?_
      exact outside_of_inner (inner_flush_bind rfl trivial)

theorem outside_reconcile (executionId : UUID) (workerId commandId : String) :
    Outside (reconcile rt executionId workerId commandId) := by
  refine (outside_of_inner (inner_query _)).bind fun found => ?_
  refine Prog.Uses.bind (Prog.uses_orRaise trivial) fun execution => ?_
  refine (outside_of_inner (inner_lockIntent _)).bind fun intent => ?_
  refine Prog.uses_ite (fun _ => trivial) fun _ => (Prog.uses_call trivial).bind fun answer => ?_
  exact outside_recordEvidence _ _ _ _ _

/-! ## The worker -/

theorem outside_recoverCandidate (candidate : Execution) (commandId : String) :
    Outside (Worker.recoverCandidate candidate commandId) := by
  refine outside_transaction ((outside_of_inner (inner_query _)).bind fun found => ?_)
  cases found with
  | none => exact trivial
  | some execution =>
      refine Prog.uses_ite (fun _ => trivial) fun _ => ?_
      refine Prog.Uses.bind (Prog.uses_select trivial) fun e => ?_
      refine (outside_of_inner (inner_lockIntentNowait _)).bind fun r => ?_
      match r with
      | none => exact trivial
      | some (none, _) => exact trivial
      | some (some row, _) =>
          refine Prog.uses_ite (fun _ => trivial) fun _ => ?_
          refine (outside_of_inner (inner_appendTransition _ _ _ _ _ _)).bind fun _ => ?_
          exact outside_of_inner (inner_flush_bind rfl trivial)

theorem outside_recoverAll (candidates : List Execution) (recovered : Nat) :
    Outside (Worker.recoverAll candidates recovered) := by
  induction candidates generalizing recovered with
  | nil => exact trivial
  | cons candidate rest ih =>
      refine (outside_of_inner (inner_draw .uuid)).bind fun commandId => ?_
      refine Prog.Uses.bind (outside_handle (outside_recoverCandidate _ _) fun x => ?_) fun _ => ih _
      exact Prog.uses_ite (fun _ => trivial) fun _ => trivial

theorem outside_recoverStaleExecuting : Outside Worker.recoverStaleExecuting := by
  refine Prog.Uses.bind (outside_session ?_) fun candidates => outside_recoverAll _ _
  refine Prog.Uses.bind (Prog.uses_select trivial) fun _ => ?_
  exact (outside_of_inner (inner_draw .order)).bind fun _ => trivial

theorem outside_claim (key : RevisionKey) (commandId : String) :
    Outside (Worker.claim rt key commandId) := by
  refine outside_handle (outside_session ?_) fun x => Prog.uses_ite (fun _ => trivial)
    fun _ => trivial
  refine (outside_of_inner (inner_getActive _)).bind fun active => ?_
  cases active with
  | none => exact trivial
  | some bundle =>
      refine (outside_claimAndRevalidate _).bind fun claimed => ?_
      cases claimed with
      | error failure => exact trivial
      | ok permit => exact trivial

theorem outside_executeEligible (keys : List RevisionKey) (stats : Worker.Stats) :
    Outside (Worker.executeEligible rt keys stats) := by
  induction keys generalizing stats with
  | nil => exact trivial
  | cons key rest ih =>
      refine (outside_of_inner (inner_draw .uuid)).bind fun commandId => ?_
      refine (outside_claim key _).bind fun claimed => ?_
      cases claimed with
      | none => exact ih _
      | some permit =>
          refine Prog.Uses.bind (outside_handle ?_ fun x => ?_) fun _ => ih _
          · exact Prog.Uses.bind (outside_transaction (outside_executePermit _ _ _)) fun _ => trivial
          · exact Prog.uses_ite (fun _ => trivial) fun _ => trivial

theorem outside_reconcileDue (ids : List UUID) (stats : Worker.Stats) :
    Outside (Worker.reconcileDue rt ids stats) := by
  induction ids generalizing stats with
  | nil => exact trivial
  | cons id rest ih =>
      refine (outside_of_inner (inner_draw .uuid)).bind fun commandId => ?_
      refine Prog.Uses.bind (outside_handle ?_ fun x => ?_) fun _ => ih _
      · exact Prog.Uses.bind (outside_transaction (outside_reconcile _ _ _)) fun _ => trivial
      · exact Prog.uses_ite (fun _ => trivial) fun _ => trivial

theorem outside_runWorkerTick : Outside (Worker.runWorkerTick rt) := by
  refine outside_recoverStaleExecuting.bind fun recovered => ?_
  refine Prog.Uses.bind (outside_session ?_) fun unknowns => ?_
  · refine Prog.Uses.bind (Prog.uses_select trivial) fun _ => ?_
    exact (outside_of_inner (inner_draw .order)).bind fun _ => trivial
  refine Prog.Uses.bind (outside_session (outside_of_inner (inner_scan _))) fun eligible => ?_
  refine (outside_executeEligible _ _).bind fun stats => ?_
  refine (outside_reconcileDue _ _).bind fun stats => Prog.Uses.bind ?_ fun _ => trivial
  refine (Prog.uses_call trivial).bind fun answer => ?_
  cases answer with
  | none => exact trivial
  | some x => exact trivial

/-- No operation but a mutation route touches the idempotency records. -/
theorem outside_code (op : Op) (hop : ∀ request route, op ≠ .route request route) :
    Outside (code rt op) := by
  cases op with
  | route request route => exact absurd rfl (hop request route)
  | create command => exact outside_wrapped (outside_getSession (outside_of_inner (inner_create _)))
  | record key risk policy commandId correlationId =>
      exact outside_wrapped (outside_getSession (outside_of_inner (inner_record _ _ _ _ _)))
  | decide command => exact outside_wrapped (outside_getSession (outside_of_inner (inner_decide _)))
  | cancel command => exact outside_wrapped (outside_getSession (outside_of_inner (inner_cancel _)))
  | claim request =>
      refine outside_wrapped (outside_handle (outside_claimAndRevalidate _) fun x => ?_)
      exact outside_rollback.bind fun _ => trivial
  | reconcile executionId workerId commandId =>
      exact outside_wrapped (outside_transaction (outside_reconcile _ _ _))
  | recover => exact outside_wrapped outside_recoverStaleExecuting
  | workerTick => exact outside_wrapped outside_runWorkerTick

end Outer

end HitlOps.Lifecycle
