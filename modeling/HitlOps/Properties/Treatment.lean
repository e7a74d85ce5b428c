import HitlOps.Domain.Policy
import HitlOps.Scenario

/-!
# Bands and malformed rules

A rule read in a higher band is never treated more weakly, unless its disposition is unknown: the
lower bands block such a rule, the higher ones ask for approval. The same branch keeps the evaluator
from failing closed on every malformed rule, and so does the reading of the three lists of a rule.
-/

set_option autoImplicit false

namespace HitlOps.Properties

open HitlOps.Python HitlOps.Domain

/-! ## Higher bands -/

/-- The evaluation `q` is at least as strict as `p`. -/
structure AtLeastAsStrict (p q : PolicyEvaluation) : Prop where
  disposition : strictness p.disposition ≤ strictness q.disposition
  route : p.disposition = .requireApproval → q.disposition = .requireApproval →
    routeStrictness p.route ≤ routeStrictness q.route

/-- The texts of the three dispositions. -/
def knownDispositions : List String := ["ALLOW", "REQUIRE_APPROVAL", "BLOCK"]

/-- The rule that applies is read to its end, and its disposition is none of the three. -/
def UnknownDisposition (rt : Runtime) (tool : ToolName) (parameters : Dict)
    (bundle : PolicyBundle) : Prop :=
  ∃ rule, toolRule bundle tool (parameters.get? "environment") = some rule ∧
    (validTtl rule bundle).isSome = true ∧ rawDisposition rt rule ∉ knownDispositions

/-- The strictness of a disposition that was read in a band. -/
def treatmentOf (band : RiskBand) (raw : String) : Nat :=
  match routeFor band raw with
  | some (d, _, _) => strictness d
  | none => strictness .block

theorem strictness_conclude (band : RiskBand) (roles scopes obligations : List String)
    (raw : String) (ttl : Nat) (version : String) :
    strictness (concludePolicy band roles scopes obligations raw ttl version).disposition =
      treatmentOf band raw := by
  unfold concludePolicy treatmentOf
  cases routeFor band raw with
  | none => rfl
  | some e => rfl

theorem treatmentOf_block (band : RiskBand) : treatmentOf band "BLOCK" = 2 := by
  cases band <;> rfl

theorem treatmentOf_approval (band : RiskBand) : treatmentOf band "REQUIRE_APPROVAL" = 1 := by
  cases band <;> rfl

/-- The lower bands follow an `ALLOW`. -/
theorem treatmentOf_allow (band : RiskBand) :
    treatmentOf band "ALLOW" = if bandOrder band < bandOrder .high then 0 else 1 := by
  cases band <;> rfl

/-- The lower bands block an unknown disposition. -/
theorem treatmentOf_unknown (band : RiskBand) {raw : String} (h : raw ∉ knownDispositions) :
    treatmentOf band raw = if bandOrder band < bandOrder .high then 2 else 1 := by
  rw [knownDispositions, List.mem_cons, List.mem_cons, List.mem_singleton, not_or, not_or] at h
  obtain ⟨hallow, happroval, hblock⟩ := h
  cases band <;>
    simp only [treatmentOf, routeFor, if_neg hallow, if_neg happroval, if_neg hblock] <;> rfl

/-- A known disposition is treated at least as strictly in a higher band. -/
theorem treatmentOf_mono {band band' : RiskBand} (hband : bandOrder band ≤ bandOrder band')
    {raw : String} (h : raw ∈ knownDispositions) : treatmentOf band raw ≤ treatmentOf band' raw := by
  rw [knownDispositions, List.mem_cons, List.mem_cons, List.mem_singleton] at h
  rcases h with rfl | rfl | rfl
  · rw [treatmentOf_allow, treatmentOf_allow]
    split
    · exact Nat.zero_le _
    · next hlow =>
        rw [if_neg fun h => hlow (Nat.lt_of_le_of_lt hband h)]
  · rw [treatmentOf_approval, treatmentOf_approval]
  · rw [treatmentOf_block, treatmentOf_block]

/-- The rule that applies and its TTL, when both are there. -/
theorem rule_cases (bundle : PolicyBundle) (tool : ToolName) (parameters : Dict) :
    (∀ rule, toolRule bundle tool (parameters.get? "environment") = some rule →
      validTtl rule bundle = none) ∨
      ∃ rule ttl, toolRule bundle tool (parameters.get? "environment") = some rule ∧
        validTtl rule bundle = some ttl := by
  cases hrule : toolRule bundle tool (parameters.get? "environment") with
  | none => exact Or.inl fun rule h => by cases h
  | some rule =>
      cases httl : validTtl rule bundle with
      | none =>
          refine Or.inl fun rule' h => ?_
          cases h
          exact httl
      | some ttl => exact Or.inr ⟨rule, ttl, rfl, httl⟩

/-- A higher band is treated at least as strictly, unless an unknown disposition is read in a band
below `HIGH` and in one from `HIGH` on. -/
theorem higher_band_is_stricter {rt : Runtime} {tool : ToolName} {parameters : Dict}
    {bundle : PolicyBundle} {lower higher : RiskEvaluation} {p q : PolicyEvaluation}
    (hband : bandOrder lower.band ≤ bandOrder higher.band)
    (hp : evaluatePolicy rt tool lower parameters bundle = .ok p)
    (hq : evaluatePolicy rt tool higher parameters bundle = .ok q) :
    AtLeastAsStrict p q ↔
      ¬ (bandOrder lower.band < bandOrder .high ∧ bandOrder .high ≤ bandOrder higher.band ∧
        UnknownDisposition rt tool parameters bundle) := by
  rcases rule_cases bundle tool parameters with hinvalid | ⟨rule, ttl, hrule, httl⟩
  · -- Both evaluations block for the same reason.
    obtain ⟨reason, heq⟩ := @evaluatePolicy_of_invalid rt tool lower parameters bundle hinvalid
    obtain ⟨reason', heq'⟩ := @evaluatePolicy_of_invalid rt tool higher parameters bundle hinvalid
    rw [heq] at hp
    rw [heq'] at hq
    cases hp
    cases hq
    refine ⟨?_, fun _ => ⟨Nat.le_refl _, fun h => by cases h⟩⟩
    rintro - ⟨-, -, rule, hrule, hvalid, -⟩
    rw [hinvalid rule hrule] at hvalid
    cases hvalid
  · obtain ⟨roles, scopes, obligations, hin, rfl⟩ := inputs_of_evaluate hrule httl hp
    rw [evaluatePolicy_of_inputs higher hin] at hq
    cases hq
    have hunknown : UnknownDisposition rt tool parameters bundle ↔
        rawDisposition rt rule ∉ knownDispositions := by
      constructor
      · rintro ⟨rule', hrule', -, h⟩
        rw [hrule, Option.some.injEq] at hrule'
        exact hrule' ▸ h
      · exact fun h => ⟨rule, hrule, by rw [httl]; rfl, h⟩
    rw [hunknown]
    have hstrict : ∀ band, strictness (concludePolicy band roles scopes obligations
        (rawDisposition rt rule) ttl bundle.version).disposition =
          treatmentOf band (rawDisposition rt rule) :=
      fun band => strictness_conclude band roles scopes obligations _ ttl _
    constructor
    · rintro hle ⟨hlow, hhigh, hraw⟩
      have hd := hle.disposition
      rw [hstrict, hstrict, treatmentOf_unknown _ hraw, treatmentOf_unknown _ hraw, if_pos hlow,
        if_neg (Nat.not_lt_of_le hhigh)] at hd
      exact absurd hd (by decide)
    · intro hnot
      refine ⟨?_, fun hap haq => ?_⟩
      · rw [hstrict, hstrict]
        by_cases hraw : rawDisposition rt rule ∈ knownDispositions
        · exact treatmentOf_mono hband hraw
        · rw [treatmentOf_unknown _ hraw, treatmentOf_unknown _ hraw]
          by_cases hlow : bandOrder lower.band < bandOrder .high
          · have hlow' : bandOrder higher.band < bandOrder .high :=
              Nat.lt_of_not_le fun hhigh => hnot ⟨hlow, hhigh, hraw⟩
            rw [if_pos hlow, if_pos hlow']
          · rw [if_neg hlow, if_neg fun h => hlow (Nat.lt_of_le_of_lt hband h)]
      · rw [((treatment_of_evaluate hp).approval hap).1,
          ((treatment_conclude higher.band roles scopes obligations _ (validTtl_bounds httl)
            bundle.version).approval haq).1]
        by_cases hcritical : lower.band = .critical
        · have hcritical' : higher.band = .critical := by
            refine bandOrder_injective (Nat.le_antisymm ?_ (hcritical ▸ hband))
            cases higher.band <;> decide
          rw [if_pos hcritical, if_pos hcritical']
        · rw [if_neg hcritical]
          split <;> decide

/-- A bundle with one rule, for scaling a service. -/
def scalingBundle (rule : Dict) : PolicyBundle :=
  ⟨"policy-2", [("tools", .dict [("scale_service", .dict rule)])]⟩

/-- Scaling a service in staging, with healthy dependencies or with degraded ones. -/
def scalingRisk (degraded : Bool) : RiskEvaluation :=
  evaluateRisk .scaleService [("environment", .str "staging")] { degradedDependencies := degraded }

/-- An allowed scaling needs an approval when a dependency is degraded. -/
theorem higher_band_is_stricter_allow :
    ∃ p q, evaluatePolicy Scenario.runtime .scaleService (scalingRisk false)
        [("environment", .str "staging")] (scalingBundle [("disposition", .str "ALLOW")]) = .ok p ∧
      evaluatePolicy Scenario.runtime .scaleService (scalingRisk true)
        [("environment", .str "staging")] (scalingBundle [("disposition", .str "ALLOW")]) = .ok q ∧
      AtLeastAsStrict p q := by
  refine ⟨_, _, rfl, rfl, ?_⟩
  refine (@higher_band_is_stricter Scenario.runtime .scaleService
    [("environment", .str "staging")] (scalingBundle [("disposition", .str "ALLOW")])
    (scalingRisk false) (scalingRisk true) _ _ (by decide) rfl rfl).2 ?_
  rintro ⟨-, -, rule, hrule, -, hraw⟩
  cases hrule
  exact hraw (by decide)

/-- A scaling that is denied under an unknown name is blocked, until a dependency is degraded. -/
theorem higher_band_is_weaker :
    ¬ ∀ p q, evaluatePolicy Scenario.runtime .scaleService (scalingRisk false)
        [("environment", .str "staging")] (scalingBundle [("disposition", .str "DENY")]) = .ok p →
      evaluatePolicy Scenario.runtime .scaleService (scalingRisk true)
        [("environment", .str "staging")] (scalingBundle [("disposition", .str "DENY")]) = .ok q →
      AtLeastAsStrict p q := by
  intro h
  have hstrict := (h _ _ rfl rfl).disposition
  revert hstrict
  decide

/-! ## Malformed rules -/

/-- The value is a list of texts. -/
def isTextList : Json → Bool
  | .list items => items.all fun v => match v with
      | .str _ => true
      | _ => false
  | _ => false

/-- A rule that says what the evaluator expects, where it says anything. -/
structure WellFormed (rule : Dict) : Prop where
  disposition : ∀ v, rule.get? "disposition" = some v → ∃ text ∈ knownDispositions, v = .str text
  lists : ∀ key ∈ ["required_roles", "scopes", "obligations"], ∀ v, rule.get? key = some v →
    isTextList v = true

/-- The evaluator returns, and it blocks when the rule that applies is malformed. -/
def FailsClosed (rt : Runtime) (tool : ToolName) (risk : RiskEvaluation) (parameters : Dict)
    (bundle : PolicyBundle) : Prop :=
  ∃ p, evaluatePolicy rt tool risk parameters bundle = .ok p ∧
    ∀ rule, toolRule bundle tool (parameters.get? "environment") = some rule → ¬ WellFormed rule →
      p.disposition = .block

/-- Each of the three values of the rule is absent, or a list, an object or a text. -/
def Iterable (rule : Dict) : Prop :=
  ∀ key ∈ ["required_roles", "scopes", "obligations"], ∀ v, rule.get? key = some v →
    v.iterate.isSome = true

theorem textsOf_isOk {rt : Runtime} {rule : Dict} {key : String} {default : List String} :
    (∃ texts, textsOf rt rule key default = .ok texts) ↔
      ∀ v, rule.get? key = some v → v.iterate.isSome = true := by
  unfold textsOf Dict.getD
  cases hv : rule.get? key with
  | none => exact ⟨fun _ v h => (by cases h), fun _ => ⟨_, rfl⟩⟩
  | some v =>
      simp only [Option.getD_some, Option.some.injEq, forall_eq']
      cases v.iterate with
      | none => exact ⟨fun ⟨_, h⟩ => (by cases h), fun h => (by cases h)⟩
      | some items => exact ⟨fun _ => rfl, fun _ => ⟨_, rfl⟩⟩

/-- The evaluator gets to its end exactly when the three values can be iterated. -/
theorem evaluates_iff {rt : Runtime} {tool : ToolName} {risk : RiskEvaluation} {parameters : Dict}
    {bundle : PolicyBundle} {rule : Dict} {ttl : Nat}
    (hrule : toolRule bundle tool (parameters.get? "environment") = some rule)
    (httl : validTtl rule bundle = some ttl) :
    (∃ p, evaluatePolicy rt tool risk parameters bundle = .ok p) ↔ Iterable rule := by
  constructor
  · rintro ⟨p, hp⟩ key hkey
    obtain ⟨roles, scopes, obligations, hin, -⟩ := inputs_of_evaluate hrule httl hp
    rw [List.mem_cons, List.mem_cons, List.mem_singleton] at hkey
    rcases hkey with rfl | rfl | rfl
    · exact textsOf_isOk.1 ⟨_, hin.ofRoles⟩
    · exact textsOf_isOk.1 ⟨_, hin.ofScopes⟩
    · exact textsOf_isOk.1 ⟨_, hin.ofObligations⟩
  · intro h
    obtain ⟨roles, hroles⟩ := (@textsOf_isOk rt rule "required_roles" []).2
      (h _ (by simp only [List.mem_cons, true_or]))
    obtain ⟨scopes, hscopes⟩ := (@textsOf_isOk rt rule "scopes" (defaultScopes tool)).2
      (h _ (by simp only [List.mem_cons, true_or, or_true]))
    obtain ⟨obligations, hobligations⟩ := (@textsOf_isOk rt rule "obligations" []).2
      (h _ (by simp only [List.mem_cons, true_or, or_true]))
    exact ⟨_, evaluatePolicy_of_inputs risk ⟨hrule, httl, hroles, hscopes, hobligations⟩⟩

/-- The disposition is read as a block in the band. -/
theorem treatmentOf_eq_block {band : RiskBand} {raw : String} :
    treatmentOf band raw = strictness .block ↔
      raw = "BLOCK" ∨ (bandOrder band < bandOrder .high ∧ raw ∉ knownDispositions) := by
  by_cases hraw : raw ∈ knownDispositions
  · have hcases := hraw
    rw [knownDispositions, List.mem_cons, List.mem_cons, List.mem_singleton] at hcases
    rcases hcases with rfl | rfl | rfl
    · rw [treatmentOf_allow]
      refine ⟨fun h => ?_, ?_⟩
      · split at h <;> cases h
      · rintro (h | ⟨-, h⟩)
        · exact absurd h (by decide)
        · exact absurd hraw h
    · rw [treatmentOf_approval]
      refine ⟨fun h => (by cases h), ?_⟩
      rintro (h | ⟨-, h⟩)
      · exact absurd h (by decide)
      · exact absurd hraw h
    · exact ⟨fun _ => Or.inl rfl, fun _ => treatmentOf_block band⟩
  · rw [treatmentOf_unknown _ hraw]
    constructor
    · intro h
      split at h
      · next hlow => exact Or.inr ⟨hlow, hraw⟩
      · cases h
    · rintro (rfl | ⟨hlow, -⟩)
      · exact absurd (by decide) hraw
      · rw [if_pos hlow]
        rfl

/-- The evaluator fails closed on a rule with a valid TTL when it can iterate the three values, and the
rule is well formed or read as a block. -/
theorem evaluation_fails_closed (rt : Runtime) (tool : ToolName) (risk : RiskEvaluation)
    (parameters : Dict) (bundle : PolicyBundle) :
    FailsClosed rt tool risk parameters bundle ↔
      ∀ rule, toolRule bundle tool (parameters.get? "environment") = some rule →
        (validTtl rule bundle).isSome = true → Iterable rule ∧
          (WellFormed rule ∨ rawDisposition rt rule = "BLOCK" ∨
            (bandOrder risk.band < bandOrder .high ∧
              rawDisposition rt rule ∉ knownDispositions)) := by
  rcases rule_cases bundle tool parameters with hinvalid | ⟨rule, ttl, hrule, httl⟩
  · obtain ⟨reason, heq⟩ := @evaluatePolicy_of_invalid rt tool risk parameters bundle hinvalid
    refine ⟨fun _ rule hrule hvalid => ?_, fun _ => ⟨_, heq, fun _ _ _ => rfl⟩⟩
    rw [hinvalid rule hrule] at hvalid
    cases hvalid
  · have hblock : ∀ p, evaluatePolicy rt tool risk parameters bundle = .ok p →
        (p.disposition = .block ↔ rawDisposition rt rule = "BLOCK" ∨
          (bandOrder risk.band < bandOrder .high ∧
            rawDisposition rt rule ∉ knownDispositions)) := by
      intro p hp
      obtain ⟨roles, scopes, obligations, -, rfl⟩ := inputs_of_evaluate hrule httl hp
      rw [← treatmentOf_eq_block, ← strictness_conclude risk.band roles scopes obligations _ ttl
        bundle.version]
      refine ⟨fun h => by rw [h], fun h => ?_⟩
      revert h
      cases (concludePolicy risk.band roles scopes obligations (rawDisposition rt rule) ttl
        bundle.version).disposition <;> decide
    constructor
    · rintro ⟨p, hp, hclosed⟩ rule' hrule' -
      rw [hrule, Option.some.injEq] at hrule'
      subst hrule'
      refine ⟨(evaluates_iff hrule httl).1 ⟨p, hp⟩, ?_⟩
      by_cases hwell : WellFormed rule
      · exact Or.inl hwell
      · exact Or.inr ((hblock p hp).1 (hclosed rule hrule hwell))
    · intro h
      obtain ⟨hiter, hcase⟩ := h rule hrule (by rw [httl]; rfl)
      obtain ⟨p, hp⟩ := (@evaluates_iff rt tool risk parameters bundle rule ttl hrule httl).2 hiter
      refine ⟨p, hp, fun rule' hrule' hmalformed => ?_⟩
      rw [hrule, Option.some.injEq] at hrule'
      subst hrule'
      exact (hblock p hp).2 (hcase.resolve_left hmalformed)

/-- A number in the place of the roles makes the evaluator raise. -/
theorem evaluation_raises :
    ¬ ∀ risk parameters, FailsClosed Scenario.runtime .scaleService risk parameters
      (scalingBundle [("required_roles", .int 5)]) := by
  intro h
  obtain ⟨p, hp, -⟩ := h (scalingRisk false) [("environment", .str "staging")]
  cases hp

end HitlOps.Properties
