import HitlOps.Python.Json
import HitlOps.Domain.Enums

/-!
# Risk classification

`evaluate_risk` of `domain/risk.py`: a pure function of the tool, the canonical parameters and the
bounded context. `raiseBand` never lowers a band.
-/

set_option autoImplicit false

namespace HitlOps.Domain

open HitlOps.Python

/-- `BAND_ORDER`. -/
def bandOrder : RiskBand → Nat
  | .low => 0
  | .medium => 1
  | .high => 2
  | .critical => 3

/-- `TOOL_MINIMUM_BAND`. -/
def toolMinimumBand : ToolName → RiskBand
  | .inspectService => .low
  | .restartService => .high
  | .scaleService => .medium
  | .provisionResource => .high
  | .deleteResource => .critical

/-- `MAX_POLICY_FLAGS`. -/
def maxPolicyFlags : Nat := 5

/-- `_MUTATING_TOOLS`. -/
def isMutating : ToolName → Bool
  | .restartService | .scaleService | .provisionResource => true
  | _ => false

/-- `RiskContext`, with its defaults. -/
structure RiskContext where
  degradedDependencies : Bool := false
  policyFlags : List String := []

/-- `RiskEvaluation`. -/
structure RiskEvaluation where
  band : RiskBand
  factors : List String
  ruleVersion : String
  evaluatedContext : Dict

/-- `_raise_band`. -/
def raiseBand (band : RiskBand) (targetOrder : Nat) : RiskBand :=
  if targetOrder ≤ bandOrder band then band
  else match targetOrder with
    | 0 => .low
    | 1 => .medium
    | 2 => .high
    | _ => .critical

/-- One raise by a single step for each flag, with its factor. -/
def raiseFlags : RiskBand → List String → List String → RiskBand × List String
  | band, factors, [] => (band, factors)
  | band, factors, flag :: rest =>
      raiseFlags (raiseBand band (bandOrder band + 1)) (factors ++ ["policy_flag:" ++ flag]) rest

/-- `evaluate_risk`. -/
def evaluateRisk (tool : ToolName) (parameters : Dict) (context : RiskContext) :
    RiskEvaluation :=
  let environment := parameters.get? "environment"
  let (band, factors) :=
    if environment = some (.str "production") ∧ isMutating tool then
      (raiseBand (toolMinimumBand tool) (bandOrder .high), ["production_environment"])
    else (toolMinimumBand tool, [])
  -- Each of the other factors raises the band by one step.
  let (band, factors) :=
    if parameters.get? "cost_class" = some (.str "high") then
      (raiseBand band (bandOrder band + 1), factors ++ ["high_cost"])
    else (band, factors)
  let (band, factors) :=
    if context.degradedDependencies then
      (raiseBand band (bandOrder band + 1), factors ++ ["degraded_dependencies"])
    else (band, factors)
  let flags := context.policyFlags.take maxPolicyFlags
  let (band, factors) := raiseFlags band factors flags
  { band
    factors
    ruleVersion := "risk-rules-1"
    evaluatedContext :=
      [("environment", environment.getD .null),
        ("degraded_dependencies", .bool context.degradedDependencies),
        ("policy_flags", .list (flags.map .str))] }

/-! ## Bands only rise -/

theorem bandOrder_injective {b b' : RiskBand} (h : bandOrder b = bandOrder b') : b = b' := by
  revert h
  cases b <;> cases b' <;> decide

theorem le_raiseBand (band : RiskBand) (targetOrder : Nat) :
    bandOrder band ≤ bandOrder (raiseBand band targetOrder) := by
  unfold raiseBand
  split
  · exact Nat.le_refl _
  · next h =>
      -- A target above the band is matched by its own order, or by the top.
      have hlt := Nat.lt_of_not_le h
      match targetOrder with
      | 0 => exact absurd hlt (Nat.not_lt_zero _)
      | 1 => exact Nat.le_of_lt hlt
      | 2 => exact Nat.le_of_lt hlt
      | n + 3 =>
          show bandOrder band ≤ bandOrder .critical
          cases band <;> decide

/-- A raise to the band `b` reaches it. -/
theorem le_raiseBand_target (band b : RiskBand) :
    bandOrder b ≤ bandOrder (raiseBand band (bandOrder b)) := by
  cases band <;> cases b <;> decide

theorem le_raiseFlags (flags : List String) : ∀ (band : RiskBand) (factors : List String),
    bandOrder band ≤ bandOrder (raiseFlags band factors flags).1 := by
  induction flags with
  | nil => exact fun band factors => Nat.le_refl _
  | cons flag rest ih =>
      intro band factors
      exact Nat.le_trans (le_raiseBand band _) (ih _ _)

/-- The band before the raises that every tool shares. -/
def environmentBand (tool : ToolName) (parameters : Dict) : RiskBand × List String :=
  if parameters.get? "environment" = some (.str "production") ∧ isMutating tool then
    (raiseBand (toolMinimumBand tool) (bandOrder .high), ["production_environment"])
  else (toolMinimumBand tool, [])

/-- One more raise when `c` holds. -/
def raiseIf (c : Prop) [Decidable c] (factor : String) (p : RiskBand × List String) :
    RiskBand × List String :=
  if c then (raiseBand p.1 (bandOrder p.1 + 1), p.2 ++ [factor]) else p

theorem le_raiseIf (c : Prop) [Decidable c] (factor : String) (p : RiskBand × List String) :
    bandOrder p.1 ≤ bandOrder (raiseIf c factor p).1 := by
  unfold raiseIf
  split
  · exact le_raiseBand _ _
  · exact Nat.le_refl _

theorem environmentBand_le (tool : ToolName) (parameters : Dict) (context : RiskContext) :
    bandOrder (environmentBand tool parameters).1 ≤
      bandOrder (evaluateRisk tool parameters context).band := by
  have hcost := le_raiseIf (parameters.get? "cost_class" = some (.str "high")) "high_cost"
    (environmentBand tool parameters)
  have hdegraded := le_raiseIf (context.degradedDependencies = true) "degraded_dependencies"
    (raiseIf (parameters.get? "cost_class" = some (.str "high")) "high_cost"
      (environmentBand tool parameters))
  exact Nat.le_trans hcost (Nat.le_trans hdegraded
    (le_raiseFlags (context.policyFlags.take maxPolicyFlags) _ _))

/-- The band is never below the minimum of the tool. -/
theorem toolMinimumBand_le (tool : ToolName) (parameters : Dict) (context : RiskContext) :
    bandOrder (toolMinimumBand tool) ≤ bandOrder (evaluateRisk tool parameters context).band := by
  refine Nat.le_trans ?_ (environmentBand_le tool parameters context)
  unfold environmentBand
  split
  · exact le_raiseBand _ _
  · exact Nat.le_refl _

/-- A change in production is at least `HIGH`. -/
theorem high_le_of_production {tool : ToolName} {parameters : Dict}
    (henv : parameters.get? "environment" = some (.str "production"))
    (htool : isMutating tool = true) (context : RiskContext) :
    bandOrder .high ≤ bandOrder (evaluateRisk tool parameters context).band := by
  refine Nat.le_trans ?_ (environmentBand_le tool parameters context)
  unfold environmentBand
  rw [if_pos ⟨henv, htool⟩]
  exact le_raiseBand_target _ _

end HitlOps.Domain
