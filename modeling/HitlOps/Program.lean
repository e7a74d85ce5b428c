import HitlOps.Transaction.System
import HitlOps.Worker
import HitlOps.Api.Routes

/-!
# The operations of the system

`Op` is what can be started: a request to a mutation route, a repository or service call by a
caller that owns the transaction as `get_session` does, a claim by a caller that owns only the
session, and a pass of a worker. `code` gives each operation its program. Permits are executed
inside a worker pass only.
-/

set_option autoImplicit false

namespace HitlOps

open HitlOps.Python HitlOps.Domain HitlOps.Infrastructure HitlOps.Application HitlOps.Transaction
open HitlOps.Api (Request Response getSession)

/-- A request to a mutation route. -/
inductive Route : Type
  | createIntent (body : Api.CreateIntentBody)
  | createAgentIntent (body : Api.AgentIntentBody)
  | decideApproval (intentId : UUID) (body : Api.ApprovalBody)
  | cancelIntent (intentId : UUID) (body : Api.CancelBody)
  | grantRole (body : Api.GrantRoleBody)
  | revokeRole (assignmentId : UUID) (body : Api.ReasonBody)
  | registerPolicyBundle (body : Api.RegisterBundleBody)
  | activatePolicyBundle (version : String) (body : Api.ReasonBody)

/-- An operation that a process can be started for. -/
inductive Op : Type
  | route (request : Request) (route : Route)
  | create (command : CreateIntentCommand)
  | record (key : RevisionKey) (risk : RiskEvaluation) (policy : PolicyEvaluation)
      (commandId correlationId : String)
  | decide (command : ApprovalDecisionCommand)
  | cancel (command : CancelIntentCommand)
  | claim (request : ClaimRequest)
  | reconcile (executionId : UUID) (workerId commandId : String)
  | recover
  | workerTick

/-- What an operation returns. -/
inductive Result : Type
  | response (r : Response)
  | snapshot (s : IntentSnapshot)
  | recorded (r : EvaluationRecorded)
  | claimed (r : Except RevalidationFailure ExecutionPermit)
  | reconciled (r : ReconciliationResult)
  | recovered (n : Nat)
  | ticked (s : Worker.Stats)

/-- The program of a route. -/
def routeProgram (rt : Runtime) (request : Request) : Route → M Response
  | .createIntent body => Api.createIntent rt request body
  | .createAgentIntent body => Api.createAgentIntent rt request body
  | .decideApproval intentId body => Api.decideApproval rt request intentId body
  | .cancelIntent intentId body => Api.cancelIntent rt request intentId body
  | .grantRole body => Api.grantRoleRoute rt request body
  | .revokeRole assignmentId body => Api.revokeRoleRoute rt request assignmentId body
  | .registerPolicyBundle body => Api.registerPolicyBundleRoute rt request body
  | .activatePolicyBundle version body => Api.activatePolicyBundleRoute rt request version body

/-- The program of an operation, with its result wrapped. -/
def wrapped {α : Type} (wrap : α → Result) (p : M α) : M Result := do
  let a ← p
  return wrap a

/-- A call of `claim_and_revalidate`; an exception closes the session of the caller. -/
def claimCall (rt : Runtime) (request : ClaimRequest) :
    M (Except RevalidationFailure ExecutionPermit) :=
  Prog.handle (claimAndRevalidate rt request) fun x => do
    Prog.rollback (D := Db)
    .raise x

/-- The program of an operation. -/
def code (rt : Runtime) : Op → M Result
  | .route request route => wrapped .response (routeProgram rt request route)
  | .create command => wrapped .snapshot (getSession (create rt command))
  | .record key risk policy commandId correlationId =>
      wrapped .recorded (getSession (record key risk policy commandId correlationId))
  | .decide command => wrapped .snapshot (getSession (decide command))
  | .cancel command => wrapped .snapshot (getSession (cancel command))
  | .claim request => wrapped .claimed (claimCall rt request)
  | .reconcile executionId workerId commandId =>
      wrapped .reconciled
        (Prog.transaction (D := Db) (reconcile rt executionId workerId commandId))
  | .recover => wrapped .recovered Worker.recoverStaleExecuting
  | .workerTick => wrapped .ticked (Worker.runWorkerTick rt)

/-- The states of the system. -/
abbrev State := Sys Db Error Result Op

/-- The events of a trace. -/
abbrev Entry := Event Db Op

/-- A store without intents: the first role assignments and policy bundles only. -/
def initialStore (assignments : List RoleAssignmentRow) (bundles : List PolicyBundleRow) : Store :=
  { Store.empty with assignments, bundles }

/-- The states of the runs that start allowed operations only, from a store without intents. -/
inductive Run (rt : Runtime) (allowed : Op → Prop) (s : State) : Prop
  | of (assignments : List RoleAssignmentRow) (bundles : List PolicyBundleRow)
      (h : Sys.Reachable (code rt) allowed (initialStore assignments bundles) s)

end HitlOps
