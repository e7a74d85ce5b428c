import HitlOps.Domain.Enums

/-!
# The legal transition table

The table of `domain/state_machine.py` and the facts about it that runs rely on. The edges have no
cycle: `rank` grows along each of them, so a lifecycle enters a state at most once
(`rank_lt_of_isLegal`).
-/

set_option autoImplicit false

namespace HitlOps.Domain

/-- `_LEGAL_TRANSITIONS`. -/
def legalTransitions : IntentState → List IntentState
  | .requested => [.riskEvaluated, .cancelled]
  | .riskEvaluated => [.policyEvaluated, .cancelled]
  | .policyEvaluated => [.autoApproved, .pendingApproval1, .blocked, .cancelled]
  | .autoApproved => [.revalidating, .cancelled]
  | .pendingApproval1 => [.approved, .approvedByLevel1, .rejected, .cancelled, .expired]
  | .approvedByLevel1 => [.pendingApproval2, .rejected, .cancelled, .expired]
  | .pendingApproval2 => [.approved, .rejected, .cancelled, .expired]
  | .approved => [.revalidating, .cancelled, .expired]
  | .revalidating => [.executing, .stale, .expired]
  | .executing => [.succeeded, .failed, .executionUnknown, .stale, .expired]
  | .executionUnknown => [.succeeded, .failed]
  | .succeeded | .failed | .blocked | .rejected | .cancelled | .expired | .stale => []

/-- `CANCELLABLE_STATES`. -/
def cancellableStates : List IntentState :=
  [.requested, .riskEvaluated, .policyEvaluated, .autoApproved, .pendingApproval1,
    .approvedByLevel1, .pendingApproval2, .approved]

/-- The states in which `decide` looks at the approval window. -/
def expirableStates : List IntentState :=
  [.pendingApproval1, .approvedByLevel1, .pendingApproval2, .approved]

/-- `is_legal`. -/
def isLegal (current target : IntentState) : Bool := (legalTransitions current).contains target

/-- The depth of a state in the table. -/
def rank : IntentState → Nat
  | .requested => 0
  | .riskEvaluated => 1
  | .policyEvaluated => 2
  | .autoApproved => 6
  | .pendingApproval1 => 3
  | .approvedByLevel1 => 4
  | .pendingApproval2 => 5
  | .approved => 6
  | .revalidating => 7
  | .executing => 8
  | .executionUnknown => 9
  | .succeeded | .failed | .blocked | .rejected | .cancelled | .expired | .stale => 10

/-- Each legal transition goes to a deeper state. -/
theorem rank_lt_of_isLegal {current target : IntentState} (h : isLegal current target = true) :
    rank current < rank target := by
  revert h
  cases current <;> cases target <;> decide

/-- Only the two approved states lead into the execution claim. -/
theorem of_isLegal_revalidating {current : IntentState}
    (h : isLegal current .revalidating = true) :
    current = .autoApproved ∨ current = .approved := by
  revert h
  cases current <;> decide

end HitlOps.Domain
