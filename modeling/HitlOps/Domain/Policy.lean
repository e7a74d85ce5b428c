import HitlOps.Domain.Risk
import HitlOps.Domain.Errors

/-!
# Policy evaluation

`evaluate_policy` of `domain/policy.py` over JSON bundles. The only exception it can raise is the
`TypeError` of iterating a role, scope or obligation value that is not iterable.
-/

set_option autoImplicit false

namespace HitlOps.Domain

open HitlOps.Python

/-- `DEFAULT_APPROVAL_TTL_SECONDS`. -/
def defaultApprovalTtlSeconds : Int := 900

/-- `MAX_APPROVAL_TTL_SECONDS`. -/
def maxApprovalTtlSeconds : Int := 3600

/-- `_DEFAULT_SCOPES`, with `_FALLBACK_SCOPES` for the other tools. -/
def defaultScopes : ToolName → List String
  | .inspectService => ["ops:read"]
  | _ => ["ops:write"]

/-- `_CRITICAL_ROLES`. -/
def criticalRoles : List String := ["critical_approver_l1", "critical_approver_l2"]

/-- `_SINGLE_APPROVAL_ROLES`. -/
def singleApprovalRoles : List String := ["approver"]

/-- `PolicyBundle`. -/
structure PolicyBundle where
  version : String
  rules : Dict
deriving DecidableEq

/-- `SEED_POLICY_BUNDLE_RULES`. -/
def seedPolicyBundleRules : Dict :=
  [("approval_ttl_seconds", .int defaultApprovalTtlSeconds),
    ("tools", .dict
      [("inspect_service", .dict [("disposition", .str "ALLOW")]),
        ("restart_service", .dict
          [("disposition", .str "REQUIRE_APPROVAL"),
            ("required_roles", .list [.str "approver"]),
            ("obligations", .list [.str "announce_in_incident_channel"])]),
        ("scale_service", .dict
          [("staging", .dict [("disposition", .str "ALLOW")]),
            ("production", .dict
              [("disposition", .str "REQUIRE_APPROVAL"),
                ("required_roles", .list [.str "approver"])])]),
        ("provision_resource", .dict
          [("disposition", .str "REQUIRE_APPROVAL"),
            ("required_roles", .list [.str "approver"])]),
        ("delete_resource", .dict
          [("disposition", .str "REQUIRE_APPROVAL"),
            ("required_roles", .list [.str "critical_approver_l1", .str "critical_approver_l2"]),
            ("obligations", .list [.str "require_change_ticket"])])])]

/-- The seed bundle, `policy-1`. -/
def seedPolicyBundle : PolicyBundle := ⟨"policy-1", seedPolicyBundleRules⟩

/-- `PolicyEvaluation`. -/
structure PolicyEvaluation where
  disposition : PolicyDisposition
  route : ApprovalRoute
  requiredRoles : List String
  requiredScopes : List String
  obligations : List String
  reasonCodes : List String
  policyVersion : String
  approvalTtlSeconds : Option Nat
deriving DecidableEq

/-- `_blocked`. -/
def blocked (reason policyVersion : String) : PolicyEvaluation :=
  { disposition := .block
    route := .none
    requiredRoles := []
    requiredScopes := []
    obligations := []
    reasonCodes := [reason]
    policyVersion
    approvalTtlSeconds := none }

/-- The rule of a tool with the override of the environment merged in. -/
def mergeEnvironment (rule : Dict) (environment : Option Json) : Dict :=
  match environment with
  | some (.str name) =>
      match rule.get? name with
      -- The override wins, and the environment blocks are dropped from the rule.
      | some (.dict override) =>
          Dict.update (rule.filter fun e => e.1 ≠ "staging" ∧ e.1 ≠ "production") override
      | _ => rule
  | _ => rule

/-- `_tool_rule`. -/
def toolRule (bundle : PolicyBundle) (tool : ToolName) (environment : Option Json) :
    Option Dict :=
  match bundle.rules.get? "tools" with
  | some (.dict rules) =>
      match Dict.get? rules tool.value with
      | some (.dict rule) => some (mergeEnvironment rule environment)
      | _ => none
  | _ => none

/-- The approval TTL of a rule, when it is an integer between 1 and the maximum. -/
def validTtl (rule : Dict) (bundle : PolicyBundle) : Option Nat :=
  match rule.getD "approval_ttl_seconds"
      (bundle.rules.getD "approval_ttl_seconds" (.int defaultApprovalTtlSeconds)) with
  | .int ttl => if 0 < ttl ∧ ttl ≤ maxApprovalTtlSeconds then some ttl.toNat else none
  | _ => none

/-- `tuple(str(item) for item in rule.get(key, default))`. -/
def textsOf (rt : Runtime) (rule : Dict) (key : String) (default : List String) :
    Except Error (List String) :=
  match (rule.getD key (.list (default.map .str))).iterate with
  | some items => .ok (items.map (Json.toStr rt.isPrintable))
  | none => .error (.typeError "object is not iterable")

/-- The disposition, the route and the reason codes for a band, from the rule's own disposition.
`none` is an unknown disposition in a band that may be allowed. -/
def routeFor (band : RiskBand) (raw : String) :
    Option (PolicyDisposition × ApprovalRoute × List String) :=
  match band with
  -- Whatever else a rule says, the two upper bands ask for approval.
  | .critical =>
      if raw = "BLOCK" then some (.block, .none, [])
      else some (.requireApproval, .criticalTwoStep,
        if raw = "ALLOW" then ["tool_minimum_enforced"] else [])
  | .high =>
      if raw = "BLOCK" then some (.block, .none, [])
      else some (.requireApproval, .single,
        if raw = "ALLOW" then ["tool_minimum_enforced"] else [])
  -- Only here a disposition that is not one of the three is refused.
  | _ =>
      if raw = "BLOCK" then some (.block, .none, [])
      else if raw = "ALLOW" then some (.allow, .none, [])
      else if raw = "REQUIRE_APPROVAL" then some (.requireApproval, .single, [])
      else none

/-- The roles of a rule, with the defaults of the band when the rule names none. -/
def rolesFor (band : RiskBand) (disposition : PolicyDisposition) (roles : List String) :
    List String :=
  if roles ≠ [] then roles
  else match band with
    | .critical => criticalRoles
    | .high => singleApprovalRoles
    | _ => if disposition = .requireApproval then singleApprovalRoles else roles

/-- The last reason code. -/
def closingReasons : PolicyDisposition → List String
  | .block => ["policy_blocked"]
  | .requireApproval => ["approval_required"]
  | .allow => []

/-- The end of `evaluate_policy`, with the texts of the rule read. -/
def concludePolicy (band : RiskBand) (roles scopes obligations : List String) (raw : String)
    (ttl : Nat) (version : String) : PolicyEvaluation :=
  match routeFor band raw with
  | none => blocked "unknown_disposition" version
  | some (disposition, route, reasons) =>
      { disposition
        route
        requiredRoles := rolesFor band disposition roles
        requiredScopes := scopes
        obligations
        reasonCodes := reasons ++ closingReasons disposition
        policyVersion := version
        approvalTtlSeconds := if disposition = .requireApproval then some ttl else none }

/-- The rule's own disposition. -/
def rawDisposition (rt : Runtime) (rule : Dict) : String :=
  (rule.getD "disposition" (.str "REQUIRE_APPROVAL")).toStr rt.isPrintable

/-- `evaluate_policy`. -/
def evaluatePolicy (rt : Runtime) (tool : ToolName) (risk : RiskEvaluation) (parameters : Dict)
    (bundle : PolicyBundle) : Except Error PolicyEvaluation :=
  match toolRule bundle tool (parameters.get? "environment") with
  | none => .ok (blocked "no_policy_rule" bundle.version)
  | some rule =>
      match validTtl rule bundle with
      -- The TTL is checked for every rule, also for one that allows.
      | none => .ok (blocked "invalid_ttl" bundle.version)
      | some ttl => do
          let roles ← textsOf rt rule "required_roles" []
          let scopes ← textsOf rt rule "scopes" (defaultScopes tool)
          let obligations ← textsOf rt rule "obligations" []
          return concludePolicy risk.band roles scopes obligations (rawDisposition rt rule) ttl
            bundle.version

/-! ## Strictness -/

/-- The position of a disposition in the strictness order. -/
def strictness : PolicyDisposition → Nat
  | .allow => 0
  | .requireApproval => 1
  | .block => 2

/-- The position of a route in the strictness order. -/
def routeStrictness : ApprovalRoute → Nat
  | .none => 0
  | .single => 1
  | .criticalTwoStep => 2

/-! ## Evaluations of the evaluator -/

/-- What every evaluation that asks for approval satisfies. -/
structure SoundPolicy (p : PolicyEvaluation) : Prop where
  roles : p.disposition = .requireApproval → p.requiredRoles ≠ []
  route : p.disposition = .requireApproval → p.route = .single ∨ p.route = .criticalTwoStep
  unrouted : p.disposition ≠ .requireApproval → p.route = .none
  ttl : p.disposition = .requireApproval → p.approvalTtlSeconds.isSome

theorem soundPolicy_blocked (reason version : String) : SoundPolicy (blocked reason version) := by
  constructor <;> intro h <;> first | rfl | cases h

/-- A route is fixed exactly when approval is required. -/
theorem routeFor_spec {band : RiskBand} {raw : String} {d : PolicyDisposition}
    {r : ApprovalRoute} {reasons : List String} (h : routeFor band raw = some (d, r, reasons)) :
    (d = .requireApproval → r = if band = .critical then .criticalTwoStep else .single) ∧
      (d ≠ .requireApproval → r = .none) := by
  cases band with
  | critical =>
      simp only [routeFor] at h
      split at h
      · cases h
        exact ⟨fun h => (by cases h), fun _ => rfl⟩
      · cases h
        exact ⟨fun _ => rfl, fun h => absurd rfl h⟩
  | high =>
      simp only [routeFor] at h
      split at h
      · cases h
        exact ⟨fun h => (by cases h), fun _ => rfl⟩
      · cases h
        exact ⟨fun _ => rfl, fun h => absurd rfl h⟩
  | low | medium =>
      simp only [routeFor] at h
      split at h
      · cases h
        exact ⟨fun h => (by cases h), fun _ => rfl⟩
      · split at h
        · cases h
          exact ⟨fun h => (by cases h), fun _ => rfl⟩
        · split at h
          · cases h
            exact ⟨fun _ => rfl, fun h => absurd rfl h⟩
          · cases h

/-- An approval is never asked of an empty role list. -/
theorem rolesFor_ne_nil {band : RiskBand} (roles : List String) :
    rolesFor band .requireApproval roles ≠ [] := by
  unfold rolesFor
  split
  · assumption
  · cases band with
    | critical => exact List.cons_ne_nil _ _
    | high => exact List.cons_ne_nil _ _
    | low => exact List.cons_ne_nil _ _
    | medium => exact List.cons_ne_nil _ _

theorem soundPolicy_conclude (band : RiskBand) (roles scopes obligations : List String)
    (raw : String) (ttl : Nat) (version : String) :
    SoundPolicy (concludePolicy band roles scopes obligations raw ttl version) := by
  unfold concludePolicy
  cases hr : routeFor band raw with
  | none => exact soundPolicy_blocked _ _
  | some e =>
      obtain ⟨d, r, reasons⟩ := e
      obtain ⟨happ, hother⟩ := routeFor_spec hr
      refine ⟨fun hd => ?_, fun hd => ?_, fun hd => hother hd, fun hd => ?_⟩
      · have hd' : d = .requireApproval := hd
        subst hd'
        exact rolesFor_ne_nil roles
      · have hroute : r = _ := happ hd
        by_cases hb : band = .critical
        · rw [if_pos hb] at hroute
          exact Or.inr hroute
        · rw [if_neg hb] at hroute
          exact Or.inl hroute
      · have hd' : d = .requireApproval := hd
        show (if d = .requireApproval then some ttl else none).isSome = true
        rw [if_pos hd']
        rfl

/-- What the evaluator has read when it does not fail closed. -/
structure PolicyInputs (rt : Runtime) (tool : ToolName) (parameters : Dict)
    (bundle : PolicyBundle) (rule : Dict) (ttl : Nat) (roles scopes obligations : List String) :
    Prop where
  ofTool : toolRule bundle tool (parameters.get? "environment") = some rule
  ofTtl : validTtl rule bundle = some ttl
  ofRoles : textsOf rt rule "required_roles" [] = .ok roles
  ofScopes : textsOf rt rule "scopes" (defaultScopes tool) = .ok scopes
  ofObligations : textsOf rt rule "obligations" [] = .ok obligations

/-- The evaluator reads the three lists of a rule with a valid TTL. -/
theorem evaluatePolicy_of_rule {rt : Runtime} {tool : ToolName} (risk : RiskEvaluation)
    {parameters : Dict} {bundle : PolicyBundle} {rule : Dict} {ttl : Nat}
    (hrule : toolRule bundle tool (parameters.get? "environment") = some rule)
    (httl : validTtl rule bundle = some ttl) :
    evaluatePolicy rt tool risk parameters bundle = (do
      let roles ← textsOf rt rule "required_roles" []
      let scopes ← textsOf rt rule "scopes" (defaultScopes tool)
      let obligations ← textsOf rt rule "obligations" []
      return concludePolicy risk.band roles scopes obligations (rawDisposition rt rule) ttl
        bundle.version) := by
  unfold evaluatePolicy
  rw [hrule]
  simp only [httl]

theorem inputs_of_evaluate {rt : Runtime} {tool : ToolName} {risk : RiskEvaluation}
    {parameters : Dict} {bundle : PolicyBundle} {rule : Dict} {ttl : Nat} {p : PolicyEvaluation}
    (hrule : toolRule bundle tool (parameters.get? "environment") = some rule)
    (httl : validTtl rule bundle = some ttl)
    (h : evaluatePolicy rt tool risk parameters bundle = .ok p) :
    ∃ roles scopes obligations,
      PolicyInputs rt tool parameters bundle rule ttl roles scopes obligations ∧
        p = concludePolicy risk.band roles scopes obligations (rawDisposition rt rule) ttl
          bundle.version := by
  rw [evaluatePolicy_of_rule risk hrule httl] at h
  cases hroles : textsOf rt rule "required_roles" [] with
  | error e => rw [hroles] at h; cases h
  | ok roles =>
      cases hscopes : textsOf rt rule "scopes" (defaultScopes tool) with
      | error e => rw [hroles, hscopes] at h; cases h
      | ok scopes =>
          cases hobl : textsOf rt rule "obligations" [] with
          | error e => rw [hroles, hscopes, hobl] at h; cases h
          | ok obligations =>
              rw [hroles, hscopes, hobl] at h
              cases h
              exact ⟨roles, scopes, obligations, ⟨hrule, httl, hroles, hscopes, hobl⟩, rfl⟩

/-- Without a rule, or without a valid TTL, the evaluator blocks. -/
theorem evaluatePolicy_of_invalid {rt : Runtime} {tool : ToolName} (risk : RiskEvaluation)
    {parameters : Dict} {bundle : PolicyBundle}
    (h : ∀ rule, toolRule bundle tool (parameters.get? "environment") = some rule →
      validTtl rule bundle = none) :
    ∃ reason, evaluatePolicy rt tool risk parameters bundle = .ok (blocked reason bundle.version) := by
  unfold evaluatePolicy
  cases hrule : toolRule bundle tool (parameters.get? "environment") with
  | none => exact ⟨_, rfl⟩
  | some rule =>
      refine ⟨"invalid_ttl", ?_⟩
      simp only [h rule hrule]

/-- A result of the evaluator is a block, or the conclusion from a rule that was read. -/
theorem evaluatePolicy_cases {rt : Runtime} {tool : ToolName} {risk : RiskEvaluation}
    {parameters : Dict} {bundle : PolicyBundle} {p : PolicyEvaluation}
    (h : evaluatePolicy rt tool risk parameters bundle = .ok p) :
    (∃ reason, p = blocked reason bundle.version) ∨
      ∃ rule ttl roles scopes obligations,
        PolicyInputs rt tool parameters bundle rule ttl roles scopes obligations ∧
          p = concludePolicy risk.band roles scopes obligations (rawDisposition rt rule) ttl
            bundle.version := by
  by_cases hvalid : ∀ rule, toolRule bundle tool (parameters.get? "environment") = some rule →
      validTtl rule bundle = none
  · obtain ⟨reason, heq⟩ := @evaluatePolicy_of_invalid rt _ risk _ _ hvalid
    rw [heq] at h
    cases h
    exact Or.inl ⟨reason, rfl⟩
  · push Not at hvalid
    obtain ⟨rule, hrule, hne⟩ := hvalid
    obtain ⟨ttl, httl⟩ := Option.ne_none_iff_exists'.1 hne
    obtain ⟨roles, scopes, obligations, hin, heq⟩ := inputs_of_evaluate hrule httl h
    exact Or.inr ⟨rule, ttl, roles, scopes, obligations, hin, heq⟩

theorem evaluatePolicy_of_inputs {rt : Runtime} {tool : ToolName} (risk : RiskEvaluation)
    {parameters : Dict} {bundle : PolicyBundle} {rule : Dict} {ttl : Nat}
    {roles scopes obligations : List String}
    (h : PolicyInputs rt tool parameters bundle rule ttl roles scopes obligations) :
    evaluatePolicy rt tool risk parameters bundle =
      .ok (concludePolicy risk.band roles scopes obligations (rawDisposition rt rule) ttl
        bundle.version) := by
  unfold evaluatePolicy
  rw [h.ofTool]
  simp only [h.ofTtl]
  rw [h.ofRoles, h.ofScopes, h.ofObligations]
  rfl

/-- Every result of the evaluator is sound. -/
theorem soundPolicy_of_evaluate {rt : Runtime} {tool : ToolName} {risk : RiskEvaluation}
    {parameters : Dict} {bundle : PolicyBundle} {p : PolicyEvaluation}
    (h : evaluatePolicy rt tool risk parameters bundle = .ok p) : SoundPolicy p := by
  rcases evaluatePolicy_cases h with ⟨reason, rfl⟩ | ⟨rule, ttl, roles, scopes, obligations, -, rfl⟩
  · exact soundPolicy_blocked _ _
  · exact soundPolicy_conclude _ _ _ _ _ _ _

/-- A valid TTL lies between one second and the maximum. -/
theorem validTtl_bounds {rule : Dict} {bundle : PolicyBundle} {ttl : Nat}
    (h : validTtl rule bundle = some ttl) : 1 ≤ ttl ∧ ttl ≤ 3600 := by
  unfold validTtl at h
  split at h
  · next n _ =>
      split at h
      · next hn =>
          cases h
          have hmax : n ≤ 3600 := hn.2
          omega
      · cases h
  · cases h

/-! ## Treatments by band -/

/-- What a conclusion may say in a band. -/
structure Treatment (band : RiskBand) (p : PolicyEvaluation) : Prop where
  allow : p.disposition = .allow → p.route = .none ∧ p.approvalTtlSeconds = none ∧
    (band = .low ∨ band = .medium)
  approval : p.disposition = .requireApproval →
    p.route = (if band = .critical then .criticalTwoStep else .single) ∧ p.requiredRoles ≠ [] ∧
      ∃ ttl, p.approvalTtlSeconds = some ttl ∧ 1 ≤ ttl ∧ ttl ≤ 3600
  block : p.disposition = .block → p.route = .none ∧ p.approvalTtlSeconds = none

theorem treatment_blocked (band : RiskBand) (reason version : String) :
    Treatment band (blocked reason version) :=
  ⟨fun h => (by cases h), fun h => (by cases h), fun _ => ⟨rfl, rfl⟩⟩

/-- Only the lower bands are ever allowed. -/
theorem allow_of_routeFor {band : RiskBand} {raw : String} {r : ApprovalRoute}
    {reasons : List String} (h : routeFor band raw = some (.allow, r, reasons)) :
    band = .low ∨ band = .medium := by
  cases band with
  | low => exact Or.inl rfl
  | medium => exact Or.inr rfl
  | high =>
      simp only [routeFor] at h
      split at h <;> cases h
  | critical =>
      simp only [routeFor] at h
      split at h <;> cases h

theorem treatment_conclude (band : RiskBand) (roles scopes obligations : List String)
    (raw : String) {ttl : Nat} (httl : 1 ≤ ttl ∧ ttl ≤ 3600) (version : String) :
    Treatment band (concludePolicy band roles scopes obligations raw ttl version) := by
  unfold concludePolicy
  cases hr : routeFor band raw with
  | none => exact treatment_blocked _ _ _
  | some e =>
      obtain ⟨d, r, reasons⟩ := e
      obtain ⟨happ, hother⟩ := routeFor_spec hr
      constructor
      · intro hd
        have hd' : d = .allow := hd
        subst hd'
        exact ⟨hother (by decide), rfl, allow_of_routeFor hr⟩
      · intro hd
        have hd' : d = .requireApproval := hd
        subst hd'
        exact ⟨happ rfl, rolesFor_ne_nil roles, ttl, rfl, httl⟩
      · intro hd
        have hd' : d = .block := hd
        subst hd'
        exact ⟨hother (by decide), rfl⟩

theorem treatment_of_evaluate {rt : Runtime} {tool : ToolName} {risk : RiskEvaluation}
    {parameters : Dict} {bundle : PolicyBundle} {p : PolicyEvaluation}
    (h : evaluatePolicy rt tool risk parameters bundle = .ok p) : Treatment risk.band p := by
  rcases evaluatePolicy_cases h with ⟨reason, rfl⟩ | ⟨rule, ttl, roles, scopes, obligations, hin, rfl⟩
  · exact treatment_blocked _ _ _
  · exact treatment_conclude _ _ _ _ _ (validTtl_bounds hin.ofTtl) _

end HitlOps.Domain
