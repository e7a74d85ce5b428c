import Mathlib.Logic.Basic

/-!
# Core enums

The closed enumerations of `domain/enums.py`. Each has its stored text `value`; the parsers that
the program applies to a stored text are inverse to it.
-/

set_option autoImplicit false

namespace HitlOps.Domain

inductive ToolName : Type
  | inspectService
  | restartService
  | scaleService
  | provisionResource
  | deleteResource
deriving DecidableEq

inductive RiskBand : Type
  | low
  | medium
  | high
  | critical
deriving DecidableEq

inductive PolicyDisposition : Type
  | allow
  | requireApproval
  | block
deriving DecidableEq

inductive ApprovalRoute : Type
  | none
  | single
  | criticalTwoStep
deriving DecidableEq

inductive ApprovalDecision : Type
  | approve
  | reject
deriving DecidableEq

inductive IntentState : Type
  | requested
  | riskEvaluated
  | policyEvaluated
  | autoApproved
  | pendingApproval1
  | approvedByLevel1
  | pendingApproval2
  | approved
  | revalidating
  | executing
  | succeeded
  | failed
  | executionUnknown
  | blocked
  | rejected
  | cancelled
  | expired
  | stale
deriving DecidableEq

inductive ExecutionOutcome : Type
  | succeeded
  | failed
  | unknown
deriving DecidableEq

inductive IntentSource : Type
  | agent
  | direct
deriving DecidableEq

/-- The statuses that the check constraint of `executions` admits. -/
inductive ExecutionStatus : Type
  | claimed
  | executing
  | succeeded
  | failed
  | unknown
deriving DecidableEq

/-! ## Stored texts -/

def ToolName.value : ToolName → String
  | .inspectService => "inspect_service"
  | .restartService => "restart_service"
  | .scaleService => "scale_service"
  | .provisionResource => "provision_resource"
  | .deleteResource => "delete_resource"

/-- `ToolName(text)`. -/
def ToolName.parse? : String → Option ToolName
  | "inspect_service" => some .inspectService
  | "restart_service" => some .restartService
  | "scale_service" => some .scaleService
  | "provision_resource" => some .provisionResource
  | "delete_resource" => some .deleteResource
  | _ => none

theorem ToolName.parse?_value (t : ToolName) : ToolName.parse? t.value = some t := by
  cases t <;> rfl

theorem ToolName.value_injective : Function.Injective ToolName.value := by
  intro a b h
  have hparse := ToolName.parse?_value a
  rw [h, ToolName.parse?_value] at hparse
  exact (Option.some.inj hparse).symm

def RiskBand.value : RiskBand → String
  | .low => "LOW"
  | .medium => "MEDIUM"
  | .high => "HIGH"
  | .critical => "CRITICAL"

def PolicyDisposition.value : PolicyDisposition → String
  | .allow => "ALLOW"
  | .requireApproval => "REQUIRE_APPROVAL"
  | .block => "BLOCK"

def ApprovalRoute.value : ApprovalRoute → String
  | .none => "NONE"
  | .single => "SINGLE"
  | .criticalTwoStep => "CRITICAL_TWO_STEP"

def ApprovalDecision.value : ApprovalDecision → String
  | .approve => "APPROVE"
  | .reject => "REJECT"

/-- `decision.value.lower()`. -/
def ApprovalDecision.lowered : ApprovalDecision → String
  | .approve => "approve"
  | .reject => "reject"

def IntentState.value : IntentState → String
  | .requested => "REQUESTED"
  | .riskEvaluated => "RISK_EVALUATED"
  | .policyEvaluated => "POLICY_EVALUATED"
  | .autoApproved => "AUTO_APPROVED"
  | .pendingApproval1 => "PENDING_APPROVAL_1"
  | .approvedByLevel1 => "APPROVED_BY_LEVEL_1"
  | .pendingApproval2 => "PENDING_APPROVAL_2"
  | .approved => "APPROVED"
  | .revalidating => "REVALIDATING"
  | .executing => "EXECUTING"
  | .succeeded => "SUCCEEDED"
  | .failed => "FAILED"
  | .executionUnknown => "EXECUTION_UNKNOWN"
  | .blocked => "BLOCKED"
  | .rejected => "REJECTED"
  | .cancelled => "CANCELLED"
  | .expired => "EXPIRED"
  | .stale => "STALE"

theorem IntentState.value_injective : Function.Injective IntentState.value := by
  intro a b h
  cases a <;> cases b <;> first | rfl | (revert h; decide)

/-- `state.value.lower()`. -/
def IntentState.lowered : IntentState → String
  | .requested => "requested"
  | .riskEvaluated => "risk_evaluated"
  | .policyEvaluated => "policy_evaluated"
  | .autoApproved => "auto_approved"
  | .pendingApproval1 => "pending_approval_1"
  | .approvedByLevel1 => "approved_by_level_1"
  | .pendingApproval2 => "pending_approval_2"
  | .approved => "approved"
  | .revalidating => "revalidating"
  | .executing => "executing"
  | .succeeded => "succeeded"
  | .failed => "failed"
  | .executionUnknown => "execution_unknown"
  | .blocked => "blocked"
  | .rejected => "rejected"
  | .cancelled => "cancelled"
  | .expired => "expired"
  | .stale => "stale"

def ExecutionStatus.value : ExecutionStatus → String
  | .claimed => "CLAIMED"
  | .executing => "EXECUTING"
  | .succeeded => "SUCCEEDED"
  | .failed => "FAILED"
  | .unknown => "UNKNOWN"

def ExecutionOutcome.value : ExecutionOutcome → String
  | .succeeded => "SUCCEEDED"
  | .failed => "FAILED"
  | .unknown => "UNKNOWN"

/-- `outcome.value.lower()`. -/
def ExecutionOutcome.lowered : ExecutionOutcome → String
  | .succeeded => "succeeded"
  | .failed => "failed"
  | .unknown => "unknown"

/-- `ExecutionOutcome(text)`. -/
def ExecutionOutcome.parse? : String → Option ExecutionOutcome
  | "SUCCEEDED" => some .succeeded
  | "FAILED" => some .failed
  | "UNKNOWN" => some .unknown
  | _ => none

theorem ExecutionOutcome.eq_of_parse?_unknown {text : String}
    (h : ExecutionOutcome.parse? text = some .unknown) : text = "UNKNOWN" := by
  unfold ExecutionOutcome.parse? at h
  split at h
  · cases h
  · cases h
  · rfl
  · cases h

/-- The execution status that carries an outcome, `execution.status = outcome.value`. -/
def ExecutionOutcome.status : ExecutionOutcome → ExecutionStatus
  | .succeeded => .succeeded
  | .failed => .failed
  | .unknown => .unknown

end HitlOps.Domain
