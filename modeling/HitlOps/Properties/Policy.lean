import HitlOps.Application.Commands
import HitlOps.Application.Revalidation
import HitlOps.Scenario

/-!
# What a policy bundle can obtain

No bundle weakens the minimum treatment of a tool. The approval that a bundle asks for can be given,
with one exception: a rule with a single role, in a band that needs two levels.
-/

set_option autoImplicit false

namespace HitlOps.Properties

open HitlOps.Python HitlOps.Domain HitlOps.Infrastructure HitlOps.Application HitlOps.Transaction

/-! ## Minimum treatments -/

/-- The treatment of a tool with its parameters, in the band that the risk rules give it. -/
structure KeepsMinimum (tool : ToolName) (parameters : Dict) (band : RiskBand)
    (p : PolicyEvaluation) : Prop extends Treatment band p where
  allowed : p.disposition = .allow → tool ≠ .restartService ∧ tool ≠ .provisionResource ∧
    tool ≠ .deleteResource ∧
      ¬ (tool = .scaleService ∧ parameters.get? "environment" = some (.str "production"))
  deletion : tool = .deleteResource → p.disposition = .block ∨ p.route = .criticalTwoStep

/-- A band that may be allowed lies below `HIGH`. -/
theorem bandOrder_lt_high {band : RiskBand} (h : band = .low ∨ band = .medium) :
    bandOrder band < bandOrder .high := by
  rcases h with rfl | rfl <;> decide

theorem policy_keeps_minimum {rt : Runtime} {tool : ToolName} {parameters : Dict}
    {context : RiskContext} {bundle : PolicyBundle} {p : PolicyEvaluation}
    (h : evaluatePolicy rt tool (evaluateRisk tool parameters context) parameters bundle = .ok p) :
    KeepsMinimum tool parameters (evaluateRisk tool parameters context).band p := by
  have ht := treatment_of_evaluate h
  have hmin := toolMinimumBand_le tool parameters context
  refine ⟨ht, fun hd => ?_, fun htool => ?_⟩
  · -- An allowed band lies below HIGH, and so does the minimum of the tool.
    have hlow := bandOrder_lt_high (ht.allow hd).2.2
    have hlt := Nat.lt_of_le_of_lt hmin hlow
    refine ⟨?_, ?_, ?_, ?_⟩
    · rintro rfl
      exact absurd hlt (by decide)
    · rintro rfl
      exact absurd hlt (by decide)
    · rintro rfl
      exact absurd hlt (by decide)
    · rintro ⟨rfl, henv⟩
      exact absurd (high_le_of_production henv rfl context) (Nat.not_le_of_lt hlow)
  · subst htool
    have hcritical : (evaluateRisk .deleteResource parameters context).band = .critical := by
      generalize (evaluateRisk .deleteResource parameters context).band = band at hmin
      revert hmin
      cases band <;> decide
    cases hd : p.disposition with
    | allow =>
        have hband := (ht.allow hd).2.2
        rw [hcritical] at hband
        rcases hband with hband | hband <;> cases hband
    | requireApproval =>
        have hroute := (ht.approval hd).1
        rw [if_pos hcritical] at hroute
        exact Or.inr hroute
    | block => exact Or.inl rfl

/-- The deletion under the seed bundle. -/
theorem policy_keeps_minimum_deletion :
    KeepsMinimum .deleteResource Scenario.parameters .critical
      (Scenario.evaluation .deleteResource) :=
  @policy_keeps_minimum Scenario.runtime .deleteResource Scenario.parameters {}
    seedPolicyBundle _ rfl

/-! ## Approvals that can be given -/

/-- The levels at which a route asks for approval. -/
def levelsOf : ApprovalRoute → List Nat
  | .none => []
  | .single => [1]
  | .criticalTwoStep => [1, 2]

/-- The approval that `p` asks for can be given: each level has a role, and some pair of approvers
passes the revalidation of a critical route. -/
structure CanBeGiven (intent : ActionIntent) (dbNow : Time) (p : PolicyEvaluation) : Prop where
  roles : ∀ level ∈ levelsOf p.route,
    (requiredRoleForLevel p.route level p.requiredRoles).isSome = true
  revalidation : p.route = .criticalTwoStep → ∃ db v decisions,
    Prog.readOn (D := Db) db dbNow v (criticalLevelsFailureReason intent decisions p.requiredRoles
      p.requiredScopes dbNow) = some (.ok none)

/-- A grant of one role with scopes, in every environment and without an end. -/
def grant (tenantId principalId role : String) (scopes : List String) : RoleAssignmentRow :=
  ⟨UUID.nil, tenantId, principalId, role, [], scopes, "", 0, none, none, principalId⟩

/-- An approval of the intent at a level. -/
def approvalBy (intent : ActionIntent) (actorId : String) (level : Nat) : ApprovalDecisionRow :=
  ⟨intent.key, intent.intentDigest, level, .approve, actorId, [], ⟨none, [], [], []⟩, "", "", 0,
    none⟩

theorem isCurrent_grant (tenantId principalId role : String) (scopes : List String) (dbNow : Time)
    (environment : Option Json) :
    (grant tenantId principalId role scopes).assignment.isCurrent dbNow environment = true := by
  simp [RoleAssignment.isCurrent, RoleAssignmentRow.assignment, grant]

/-- A grant gives its role, and nothing else. -/
theorem evaluateCurrentRoles_grant (tenantId principalId role : String) (scopes : List String)
    (dbNow : Time) (environment : Option Json) :
    evaluateCurrentRoles [(grant tenantId principalId role scopes).assignment] dbNow environment =
      [role] := by
  simp only [evaluateCurrentRoles, List.filter_cons, isCurrent_grant, if_true, List.filter_nil]
  rfl

/-- A grant gives its scopes, and no others. -/
theorem evaluateCurrentScopes_grant (tenantId principalId role : String) (scopes : List String)
    (dbNow : Time) (environment : Option Json) :
    evaluateCurrentScopes [(grant tenantId principalId role scopes).assignment] dbNow environment =
      scopes := by
  simp only [evaluateCurrentScopes, List.filter_cons, isCurrent_grant, if_true, List.filter_nil,
    List.flatMap_cons, List.flatMap_nil, List.append_nil]
  rfl

/-- The holder of one of the roles, with all the scopes, counts as an approver. -/
theorem approverReason_grant {role : String} {roles : List String} (hrole : role ∈ roles)
    (principalId tenantId : String) (scopes : List String) (dbNow : Time)
    (environment : Option Json) :
    approverReason [(grant tenantId principalId role scopes).assignment] roles scopes dbNow
      environment = none := by
  rw [approverReason_eq_none, evaluateCurrentRoles_grant, evaluateCurrentScopes_grant]
  exact ⟨fun _ => ⟨role, hrole, List.mem_singleton_self role⟩, fun _ h => h⟩

/-- A store in which two principals hold one role each. -/
def twoHolders (tenantId role₁ role₂ : String) (scopes : List String) : Store :=
  initialStore [grant tenantId "alice" role₁ scopes, grant tenantId "bob" role₂ scopes] []

theorem twoHolders_alice (tenantId role₁ role₂ : String) (scopes : List String) :
    (twoHolders tenantId role₁ role₂ scopes).loadAssignments tenantId "alice" =
      [(grant tenantId "alice" role₁ scopes).assignment] := by
  simp [Store.loadAssignments, Store.assignmentsOf, twoHolders, initialStore, grant]

theorem twoHolders_bob (tenantId role₁ role₂ : String) (scopes : List String) :
    (twoHolders tenantId role₁ role₂ scopes).loadAssignments tenantId "bob" =
      [(grant tenantId "bob" role₂ scopes).assignment] := by
  simp [Store.loadAssignments, Store.assignmentsOf, twoHolders, initialStore, grant]

theorem readOn_approverFailureReason (db : Store) (v : ∀ o : Source, Draw o)
    (tenantId actorId : String) (roles scopes : List String) (dbNow : Time)
    (environment : Option Json) :
    Prog.readOn (D := Db) db dbNow v (approverFailureReason tenantId actorId roles scopes dbNow
      environment) = some (.ok (approverReason (db.loadAssignments tenantId actorId) roles scopes
        dbNow environment)) := rfl

/-- A critical route passes with a current holder of each of its first two roles. -/
theorem readOn_criticalLevels {db : Store} {v : ∀ o : Source, Draw o} {intent : ActionIntent}
    {decisions : List ApprovalDecisionRow} {actor₁ actor₂ : String}
    (hfirst : levelActor decisions 1 = some actor₁)
    (hsecond : levelActor decisions 2 = some actor₂) (hne : actor₁ ≠ actor₂)
    {role₁ role₂ : String} {scopes : List String} {dbNow : Time}
    (h₁ : approverReason (db.loadAssignments intent.key.tenantId actor₁) [role₁] scopes dbNow
      intent.environment = none)
    (h₂ : approverReason (db.loadAssignments intent.key.tenantId actor₂) [role₂] scopes dbNow
      intent.environment = none) (rest : List String) :
    Prog.readOn (D := Db) db dbNow v (criticalLevelsFailureReason intent decisions
      (role₁ :: role₂ :: rest) scopes dbNow) = some (.ok none) := by
  have hread₁ := readOn_approverFailureReason db v intent.key.tenantId actor₁ [role₁] scopes dbNow
    intent.environment
  have hread₂ := readOn_approverFailureReason db v intent.key.tenantId actor₂ [role₂] scopes dbNow
    intent.environment
  rw [h₁] at hread₁
  rw [h₂] at hread₂
  unfold criticalLevelsFailureReason
  simp only [hfirst, hsecond, if_neg hne]
  rw [Prog.readOn_bind _ hread₁]
  exact hread₂

/-- With two roles, the holders of the first and the second one pass. -/
theorem revalidation_of_two_roles (intent : ActionIntent) (role₁ role₂ : String)
    (rest scopes : List String) (dbNow : Time) :
    ∃ db v decisions, Prog.readOn (D := Db) db dbNow v
      (criticalLevelsFailureReason intent decisions (role₁ :: role₂ :: rest) scopes dbNow) =
        some (.ok none) := by
  refine ⟨twoHolders intent.key.tenantId role₁ role₂ scopes, Scenario.environment.draw,
    [approvalBy intent "alice" 1, approvalBy intent "bob" 2], ?_⟩
  have hfirst : levelActor [approvalBy intent "alice" 1, approvalBy intent "bob" 2] 1 =
      some "alice" := rfl
  have hsecond : levelActor [approvalBy intent "alice" 1, approvalBy intent "bob" 2] 2 =
      some "bob" := rfl
  refine readOn_criticalLevels hfirst hsecond (by decide) ?_ ?_ rest
  · rw [twoHolders_alice]
    exact approverReason_grant List.mem_cons_self _ _ _ _ _
  · rw [twoHolders_bob]
    exact approverReason_grant List.mem_cons_self _ _ _ _ _

/-- A critical route over fewer than two roles has no role for the second level. -/
theorem canBeGiven_iff {intent : ActionIntent} {dbNow : Time} {p : PolicyEvaluation}
    (hroute : p.route = .single ∨ p.route = .criticalTwoStep) (hroles : p.requiredRoles ≠ []) :
    CanBeGiven intent dbNow p ↔ ¬ (p.route = .criticalTwoStep ∧ p.requiredRoles.length = 1) := by
  constructor
  · rintro ⟨hlevels, -⟩ ⟨hcritical, hone⟩
    have h := hlevels 2 (by rw [hcritical]; decide)
    rw [hcritical] at h
    obtain ⟨role, hrole⟩ := List.length_eq_one_iff.1 hone
    rw [hrole] at h
    cases h
  -- One role is enough for a single step, two steps take the first two roles.
  · intro hnot
    rcases hroute with hsingle | hcritical
    · refine ⟨fun level hlevel => ?_, fun h => ?_⟩
      · rw [hsingle] at hlevel ⊢
        rw [levelsOf, List.mem_singleton] at hlevel
        subst hlevel
        obtain ⟨role, rest, hr⟩ := List.exists_cons_of_ne_nil hroles
        rw [hr]
        rfl
      · rw [hsingle] at h
        cases h
    · obtain ⟨role₁, rest, hr⟩ := List.exists_cons_of_ne_nil hroles
      have hrest : rest ≠ [] := by
        rintro rfl
        exact hnot ⟨hcritical, by rw [hr]; rfl⟩
      obtain ⟨role₂, rest, rfl⟩ := List.exists_cons_of_ne_nil hrest
      refine ⟨fun level hlevel => ?_, fun _ => ?_⟩
      · rw [hcritical] at hlevel ⊢
        rw [levelsOf, List.mem_cons, List.mem_singleton] at hlevel
        rw [hr]
        rcases hlevel with rfl | rfl <;> rfl
      · rw [hr]
        exact revalidation_of_two_roles intent role₁ role₂ rest p.requiredScopes dbNow

/-- The roles of the rule that applies are absent or a list of role names. -/
def ListsRoles (bundle : PolicyBundle) (tool : ToolName) (parameters : Dict) : Prop :=
  ∀ rule, toolRule bundle tool (parameters.get? "environment") = some rule →
    rule.get? "required_roles" = none ∨
      ∃ names : List String, rule.get? "required_roles" = some (.list (names.map .str))

/-- The request escalates to two levels while the rule that applies names one role. -/
structure OneRoleForTwoLevels (rt : Runtime) (tool : ToolName) (parameters : Dict)
    (context : RiskContext) (bundle : PolicyBundle) : Prop where
  critical : (evaluateRisk tool parameters context).band = .critical
  rule : ∃ rule name, toolRule bundle tool (parameters.get? "environment") = some rule ∧
    rule.get? "required_roles" = some (.list [.str name]) ∧
    (validTtl rule bundle).isSome = true ∧ rawDisposition rt rule ≠ "BLOCK" ∧
    (∃ scopes, textsOf rt rule "scopes" (defaultScopes tool) = .ok scopes) ∧
    ∃ obligations, textsOf rt rule "obligations" [] = .ok obligations

theorem map_toStr_str (printable : Char → Bool) (names : List String) :
    (names.map Json.str).map (Json.toStr printable) = names := by
  rw [List.map_map]
  exact List.map_id names

/-- The roles that the evaluator reads from a list of role names. -/
theorem textsOf_list {rt : Runtime} {rule : Dict} {names : List String}
    (h : rule.get? "required_roles" = some (.list (names.map .str))) :
    textsOf rt rule "required_roles" [] = .ok names := by
  unfold textsOf Dict.getD
  rw [h]
  show Except.ok _ = _
  rw [map_toStr_str]

theorem textsOf_absent {rt : Runtime} {rule : Dict} (h : rule.get? "required_roles" = none) :
    textsOf rt rule "required_roles" [] = .ok [] := by
  unfold textsOf Dict.getD
  rw [h]
  rfl

/-- The conclusion in the `CRITICAL` band. -/
theorem concludePolicy_critical {roles scopes obligations : List String} {raw : String} {ttl : Nat}
    {version : String} (hraw : raw ≠ "BLOCK") :
    (concludePolicy .critical roles scopes obligations raw ttl version).disposition =
        .requireApproval ∧
      (concludePolicy .critical roles scopes obligations raw ttl version).route =
        .criticalTwoStep ∧
      (concludePolicy .critical roles scopes obligations raw ttl version).requiredRoles =
        rolesFor .critical .requireApproval roles := by
  have hroute : routeFor .critical raw = some (.requireApproval, .criticalTwoStep,
      if raw = "ALLOW" then ["tool_minimum_enforced"] else []) := by
    simp only [routeFor, if_neg hraw]
  unfold concludePolicy
  rw [hroute]
  exact ⟨rfl, rfl, rfl⟩

theorem concludePolicy_roles {band : RiskBand} {roles scopes obligations : List String}
    {raw : String} {ttl : Nat} {version : String}
    (h : (concludePolicy band roles scopes obligations raw ttl version).disposition =
      .requireApproval) :
    (concludePolicy band roles scopes obligations raw ttl version).requiredRoles =
        rolesFor band .requireApproval roles ∧ (band = .critical → raw ≠ "BLOCK") := by
  unfold concludePolicy at h ⊢
  cases hr : routeFor band raw with
  | none =>
      rw [hr] at h
      cases h
  | some e =>
      obtain ⟨d, r, reasons⟩ := e
      rw [hr] at h
      have hd : d = .requireApproval := h
      subst hd
      refine ⟨rfl, ?_⟩
      rintro rfl rfl
      cases hr

/-- The approval that an evaluation asks for can be given, unless one role stands for two levels. -/
theorem approval_can_be_given (rt : Runtime) (parameters : ToolParameters) (context : RiskContext)
    (bundle : PolicyBundle) (hlist : ListsRoles bundle parameters.tool parameters.modelDump)
    (intent : ActionIntent) (dbNow : Time) :
    (∀ p, evaluatePolicy rt parameters.tool
        (evaluateRisk parameters.tool parameters.modelDump context) parameters.modelDump bundle =
          .ok p → p.disposition = .requireApproval → CanBeGiven intent dbNow p) ↔
      ¬ OneRoleForTwoLevels rt parameters.tool parameters.modelDump context bundle := by
  constructor
  · rintro h ⟨hband, rule, name, hrule, hname, httl, hraw, ⟨scopes, hscopes⟩, obligations, hobl⟩
    obtain ⟨ttl, httl⟩ := Option.isSome_iff_exists.1 httl
    have hroles : textsOf rt rule "required_roles" [] = .ok [name] :=
      @textsOf_list rt rule [name] hname
    have hin : PolicyInputs rt parameters.tool parameters.modelDump bundle rule ttl [name] scopes
        obligations := ⟨hrule, httl, hroles, hscopes, hobl⟩
    have hp := evaluatePolicy_of_inputs
      (evaluateRisk parameters.tool parameters.modelDump context) hin
    rw [hband] at hp
    obtain ⟨hd, hroute, hreq⟩ := @concludePolicy_critical [name] scopes obligations _ ttl
      bundle.version hraw
    have hgiven := h _ hp hd
    have hone : rolesFor .critical .requireApproval [name] = [name] := rfl
    rw [canBeGiven_iff (Or.inr hroute) (by rw [hreq, hone]; exact List.cons_ne_nil _ _)] at hgiven
    exact hgiven ⟨hroute, by rw [hreq, hone]; rfl⟩
  · intro hnot p hp hd
    have htreat := (treatment_of_evaluate hp).approval hd
    obtain ⟨hroute, hne, -⟩ := htreat
    have hroutes : p.route = .single ∨ p.route = .criticalTwoStep := by
      rw [hroute]
      split
      · exact Or.inr rfl
      · exact Or.inl rfl
    rw [canBeGiven_iff hroutes hne]
    rintro ⟨hcritical, hone⟩
    refine hnot ?_
    have hband : (evaluateRisk parameters.tool parameters.modelDump context).band = .critical := by
      by_contra hb
      rw [hroute, if_neg hb] at hcritical
      cases hcritical
    rcases evaluatePolicy_cases hp with ⟨reason, rfl⟩ |
      ⟨rule, ttl, roles, scopes, obligations, hin, rfl⟩
    · cases hd
    · obtain ⟨hreq, hraw⟩ := concludePolicy_roles hd
      rw [hreq, hband] at hone
      -- Without names the critical defaults apply, and there are two of them.
      rcases hlist rule hin.ofTool with habsent | ⟨names, hnames⟩
      · have hnil := hin.ofRoles
        rw [textsOf_absent habsent, Except.ok.injEq] at hnil
        rw [← hnil] at hone
        exact absurd hone (by decide)
      · have hroles := hin.ofRoles
        rw [textsOf_list hnames, Except.ok.injEq] at hroles
        rw [← hroles] at hone
        match names, hone with
        | [], hone => exact absurd hone (by decide)
        | [name], _ =>
            exact ⟨hband, rule, name, hin.ofTool, hnames, by rw [hin.ofTtl]; rfl, hraw hband,
              ⟨scopes, hin.ofScopes⟩, obligations, hin.ofObligations⟩
        | _ :: _ :: _, hone =>
            simp only [rolesFor, ne_eq, reduceCtorEq, not_false_eq_true, if_true,
              List.length_cons] at hone
            omega

/-- The deletion of a staging database. -/
def deletion : ToolParameters :=
  .deleteResource .staging .postgresInstance ⟨"db-1", by decide⟩ .soft

/-- The provisioning of a costly staging database. -/
def costlyProvision : ToolParameters :=
  .provisionResource .staging .postgresInstance ⟨"db-1", by decide⟩ .usEast1 .large .high

/-- The stored intent of a proposal. -/
def storedIntent (parameters : ToolParameters) : ActionIntent :=
  ⟨Scenario.key, parameters.tool, parameters.modelDump, "", "rachel", "", none, .direct, .requested,
    1, none⟩

/-- The two approvals of a deletion under the seed bundle can be given. -/
theorem approval_can_be_given_deletion :
    ∃ p, evaluatePolicy Scenario.runtime deletion.tool
        (evaluateRisk deletion.tool deletion.modelDump {}) deletion.modelDump seedPolicyBundle =
          .ok p ∧ CanBeGiven (storedIntent deletion) 0 p := by
  have hlist : ListsRoles seedPolicyBundle deletion.tool deletion.modelDump := by
    intro rule hrule
    cases hrule
    exact Or.inr ⟨["critical_approver_l1", "critical_approver_l2"], rfl⟩
  have hnot : ¬ OneRoleForTwoLevels Scenario.runtime deletion.tool deletion.modelDump {}
      seedPolicyBundle := by
    rintro ⟨-, rule, name, hrule, hname, -⟩
    cases hrule
    cases hname
  exact ⟨_, rfl, (approval_can_be_given Scenario.runtime deletion {} seedPolicyBundle hlist
    (storedIntent deletion) 0).2 hnot _ rfl rfl⟩

/-- A costly provisioning asks for two approvals and names one role. -/
theorem approval_cannot_be_given_provision :
    ¬ ∀ p, evaluatePolicy Scenario.runtime costlyProvision.tool
        (evaluateRisk costlyProvision.tool costlyProvision.modelDump {}) costlyProvision.modelDump
          seedPolicyBundle = .ok p → p.disposition = .requireApproval →
            CanBeGiven (storedIntent costlyProvision) 0 p := by
  intro h
  have hlevels := (h _ rfl rfl).roles 2 (by decide)
  exact absurd hlevels (by decide)

end HitlOps.Properties
