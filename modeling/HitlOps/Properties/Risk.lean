import HitlOps.Domain.Risk

/-!
# The band as a count

Every raise is by one step and stops at the top, so the band is the order of the tool plus the
number of factors, cut at `CRITICAL`.
-/

set_option autoImplicit false

namespace HitlOps.Properties

open HitlOps.Python HitlOps.Domain

/-- The order of a tool before the raises: its minimum, and at least `HIGH` for a change in
production. -/
def baseOrder (tool : ToolName) (parameters : Dict) : Nat :=
  if parameters.get? "environment" = some (.str "production") ∧ isMutating tool then
    max (bandOrder .high) (bandOrder (toolMinimumBand tool))
  else bandOrder (toolMinimumBand tool)

/-- A high cost class, degraded dependencies and every flag count once. -/
def raises (parameters : Dict) (context : RiskContext) : Nat :=
  (if parameters.get? "cost_class" = some (.str "high") then 1 else 0) +
    (if context.degradedDependencies then 1 else 0) + context.policyFlags.length

/-- The second input has the factors of the first, and at least as many flags. -/
structure AddsFactors (parameters : Dict) (context : RiskContext) (parameters' : Dict)
    (context' : RiskContext) : Prop where
  production : parameters.get? "environment" = some (.str "production") →
    parameters'.get? "environment" = some (.str "production")
  cost : parameters.get? "cost_class" = some (.str "high") →
    parameters'.get? "cost_class" = some (.str "high")
  degraded : context.degradedDependencies = true → context'.degradedDependencies = true
  flags : context.policyFlags.length ≤ context'.policyFlags.length

theorem bandOrder_le (band : RiskBand) : bandOrder band ≤ 3 := by
  cases band <;> decide

/-- A raise by one step stops at the top. -/
theorem bandOrder_raise (band : RiskBand) :
    bandOrder (raiseBand band (bandOrder band + 1)) = min 3 (bandOrder band + 1) := by
  cases band <;> rfl

theorem bandOrder_raiseIf (c : Prop) [Decidable c] (factor : String)
    (p : RiskBand × List String) :
    bandOrder (raiseIf c factor p).1 = min 3 (bandOrder p.1 + if c then 1 else 0) := by
  have hle := bandOrder_le p.1
  unfold raiseIf
  by_cases hc : c
  · rw [if_pos hc, if_pos hc]
    exact bandOrder_raise p.1
  · rw [if_neg hc, if_neg hc]
    omega

/-- The loop over the flags counts them. -/
theorem bandOrder_raiseFlags (flags : List String) :
    ∀ (band : RiskBand) (factors : List String),
      bandOrder (raiseFlags band factors flags).1 = min 3 (bandOrder band + flags.length) := by
  induction flags with
  | nil =>
      intro band factors
      have hle := bandOrder_le band
      show bandOrder band = min 3 (bandOrder band + 0)
      omega
  | cons flag rest ih =>
      intro band factors
      have hraise := bandOrder_raise band
      rw [raiseFlags, ih, List.length_cons]
      omega

theorem bandOrder_environmentBand (tool : ToolName) (parameters : Dict) :
    bandOrder (environmentBand tool parameters).1 = baseOrder tool parameters := by
  unfold environmentBand baseOrder
  split
  · cases tool <;> rfl
  · rfl

/-- The band of an evaluation, through the raises that every tool shares. -/
theorem band_eq (tool : ToolName) (parameters : Dict) (context : RiskContext) :
    ∃ factors, (evaluateRisk tool parameters context).band =
      (raiseFlags
        (raiseIf (context.degradedDependencies = true) "degraded_dependencies"
          (raiseIf (parameters.get? "cost_class" = some (.str "high")) "high_cost"
            (environmentBand tool parameters))).1
        factors (context.policyFlags.take maxPolicyFlags)).1 :=
  ⟨_, rfl⟩

/-- The order of the band is the order of the tool with one step for each factor, up to the top. -/
theorem bandOrder_evaluateRisk (tool : ToolName) (parameters : Dict) (context : RiskContext) :
    bandOrder (evaluateRisk tool parameters context).band =
      min 3 (baseOrder tool parameters + raises parameters context) := by
  obtain ⟨factors, hband⟩ := band_eq tool parameters context
  -- Five flags already reach the top, so the cut is not seen.
  have htake : (context.policyFlags.take maxPolicyFlags).length =
      min 5 context.policyFlags.length := List.length_take
  rw [hband, bandOrder_raiseFlags, bandOrder_raiseIf, bandOrder_raiseIf, bandOrder_environmentBand,
    htake]
  unfold raises
  omega

theorem baseOrder_le {tool : ToolName} {parameters parameters' : Dict}
    (h : parameters.get? "environment" = some (.str "production") →
      parameters'.get? "environment" = some (.str "production")) :
    baseOrder tool parameters ≤ baseOrder tool parameters' := by
  unfold baseOrder
  by_cases hprod : parameters.get? "environment" = some (.str "production") ∧ isMutating tool = true
  · rw [if_pos hprod, if_pos ⟨h hprod.1, hprod.2⟩]
  · rw [if_neg hprod]
    split
    · exact Nat.le_max_right _ _
    · exact Nat.le_refl _

/-- A condition that implies another counts no more. -/
theorem ite_le_ite {p q : Prop} [Decidable p] [Decidable q] (h : p → q) :
    (if p then 1 else 0) ≤ if q then 1 else 0 := by
  by_cases hp : p
  · rw [if_pos hp, if_pos (h hp)]
  · rw [if_neg hp]
    exact Nat.zero_le _

theorem raises_le {parameters parameters' : Dict} {context context' : RiskContext}
    (h : AddsFactors parameters context parameters' context') :
    raises parameters context ≤ raises parameters' context' :=
  Nat.add_le_add (Nat.add_le_add (ite_le_ite h.cost) (ite_le_ite h.degraded)) h.flags

theorem band_counts_factors (tool : ToolName) (parameters : Dict) (context : RiskContext) :
    bandOrder (evaluateRisk tool parameters context).band =
        min 3 (baseOrder tool parameters + raises parameters context) ∧
      bandOrder (toolMinimumBand tool) ≤ bandOrder (evaluateRisk tool parameters context).band ∧
      (tool = .deleteResource → (evaluateRisk tool parameters context).band = .critical) ∧
      (∀ parameters' context', AddsFactors parameters context parameters' context' →
        bandOrder (evaluateRisk tool parameters context).band ≤
          bandOrder (evaluateRisk tool parameters' context').band) ∧
      (evaluateRisk tool parameters
        { context with policyFlags := context.policyFlags.take 5 }).band =
          (evaluateRisk tool parameters context).band := by
  refine ⟨bandOrder_evaluateRisk _ _ _, toolMinimumBand_le _ _ _, ?_, ?_, ?_⟩
  · rintro rfl
    apply bandOrder_injective
    apply Nat.le_antisymm (bandOrder_le _)
    exact toolMinimumBand_le .deleteResource parameters context
  · intro parameters' context' hadds
    have hbase := @baseOrder_le tool _ _ hadds.production
    have hraises := raises_le hadds
    rw [bandOrder_evaluateRisk, bandOrder_evaluateRisk]
    omega
  · apply bandOrder_injective
    rw [bandOrder_evaluateRisk, bandOrder_evaluateRisk]
    simp only [raises, List.length_take]
    omega

end HitlOps.Properties
