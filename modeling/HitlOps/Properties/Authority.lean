import HitlOps.Properties.Policy

/-!
# The authority to approve

`decide` asks each level of a route for one role of an ordered list, while the revalidation compares
role lists as sets and accepts any role of the list from the approver of a single-step route. This
module states the guards of `decide` as a program, and when the two views agree.
-/

set_option autoImplicit false

namespace HitlOps.Properties

open HitlOps.Python HitlOps.Domain HitlOps.Infrastructure HitlOps.Application HitlOps.Transaction

/-! ## The guards of a decision -/

/-- The guards of `decide` on roles, scopes and obligations; they return what they have read. -/
def decisionGuards (command : ApprovalDecisionCommand) (policy : PolicyEvaluation)
    (environment : Option Json) : M (List String × List String) := do
  let roles ← currentRoles command.actor environment
  enforceRole policy.route command.level policy.requiredRoles roles
  let scopes ← approverScopes command policy environment
  return (roles, scopes)

/-- A decision runs these guards before it looks at the requester and the state. -/
theorem decideCurrent_eq (command : ApprovalDecisionCommand) (intent : ActionIntent)
    (dbNow : Time) :
    decideCurrent command intent dbNow = (do
      let policies ← Prog.query (D := Db) (·.policiesOf command.key)
      let policy ← scalarOne policies
      let held ← decisionGuards command policy.evaluation intent.environment
      Prog.raiseIf (command.decision = .approve ∧ command.actor.actorId = intent.requesterId)
        (.forbiddenError "requester cannot approve their own intent")
      let target ← resolveTarget intent policy.evaluation.route command
      writeDecision command intent policy.evaluation held.1 held.2 target dbNow) := by
  unfold decideCurrent decisionGuards
  simp only [Prog.bind_assoc]
  rfl

/-- A clock that stands at `t`. -/
def standingAt (t : Time) : ∀ o : Source, Draw o
  | .now => t
  | .uuid => UUID.nil
  | .order => id

/-- The guards of `decide` accept the command at the instant `t` over the assignments of `db`. -/
def PassesGuards (db : Store) (t : Time) (environment : Option Json)
    (command : ApprovalDecisionCommand) (p : PolicyEvaluation) : Prop :=
  ∃ held, Prog.readOn (D := Db) db t (standingAt t) (decisionGuards command p environment) =
    some (.ok held)

/-- What the guards ask of an approval. -/
structure Accepted (assignments : List RoleAssignment) (t : Time) (environment : Option Json)
    (command : ApprovalDecisionCommand) (p : PolicyEvaluation) : Prop where
  role : p.requiredRoles ≠ [] →
    ∃ role, requiredRoleForLevel p.route command.level p.requiredRoles = some role ∧
      role ∈ evaluateCurrentRoles assignments t environment
  tokens : ∀ scope ∈ p.requiredScopes, scope ∈ command.actor.scopes
  scopes : ∀ scope ∈ p.requiredScopes, scope ∈ evaluateCurrentScopes assignments t environment
  obligations : ∀ name ∈ p.obligations, acknowledged command.obligations name = true

section Guards

variable {db : Store} {t : Time} {environment : Option Json} {command : ApprovalDecisionCommand}
  {p : PolicyEvaluation} {v : ∀ o : Source, Draw o} {u : Unit}

theorem readOn_enforceRole {route : ApprovalRoute} {level : Nat} {requiredRoles roles : List String} :
    Prog.readOn (D := Db) db t v (enforceRole route level requiredRoles roles) = some (.ok u) ↔
      (requiredRoles ≠ [] →
        ∃ role, requiredRoleForLevel route level requiredRoles = some role ∧ role ∈ roles) := by
  unfold enforceRole
  rw [Prog.readOn_raiseIf]
  cases requiredRoleForLevel route level requiredRoles with
  | none => simp
  | some role => simp

theorem readOn_enforceScopes {held required : List String} :
    Prog.readOn (D := Db) db t v (enforceScopes held required) = some (.ok u) ↔
      ∀ scope ∈ required, scope ∈ held := by
  unfold enforceScopes
  rw [Prog.readOn_raiseIf]
  simp only [ne_eq, Decidable.not_not, List.filter_eq_nil_iff, decide_eq_true_eq]

theorem readOn_enforceObligations {provided : List (String × String)} {required : List String} :
    Prog.readOn (D := Db) db t v (enforceObligations provided required) = some (.ok u) ↔
      ∀ name ∈ required, acknowledged provided name = true := by
  unfold enforceObligations
  rw [Prog.readOn_raiseIf]
  simp only [ne_eq, Decidable.not_not, List.filter_eq_nil_iff, decide_eq_true_eq,
    Bool.not_eq_false]

/-- The guards accept an approval exactly when it has what they ask for. -/
theorem passesGuards_iff (happrove : command.decision = .approve) :
    PassesGuards db t environment command p ↔
      Accepted (db.loadAssignments command.actor.tenantId command.actor.actorId) t environment
        command p := by
  unfold PassesGuards decisionGuards approverScopes
  simp only [if_pos happrove]
  constructor
  · rintro ⟨held, h⟩
    obtain ⟨roles, hroles, h⟩ := Prog.readOn_bind_ok.1 h
    obtain ⟨_, hrole, h⟩ := Prog.readOn_bind_ok.1 h
    obtain ⟨scopes, hscopes, -⟩ := Prog.readOn_bind_ok.1 h
    obtain ⟨_, htokens, h⟩ := Prog.readOn_bind_ok.1 hscopes
    obtain ⟨current, hcurrent, h⟩ := Prog.readOn_bind_ok.1 h
    obtain ⟨_, henough, h⟩ := Prog.readOn_bind_ok.1 h
    obtain ⟨_, hobligations, -⟩ := Prog.readOn_bind_ok.1 h
    cases hroles
    cases hcurrent
    exact ⟨readOn_enforceRole.1 hrole, readOn_enforceScopes.1 htokens,
      readOn_enforceScopes.1 henough, readOn_enforceObligations.1 hobligations⟩
  · rintro ⟨hrole, htokens, hscopes, hobligations⟩
    refine ⟨(evaluateCurrentRoles (db.loadAssignments command.actor.tenantId command.actor.actorId) t
      environment, evaluateCurrentScopes (db.loadAssignments command.actor.tenantId
        command.actor.actorId) t environment), ?_⟩
    refine Prog.readOn_bind_ok.2 ⟨_, rfl, Prog.readOn_bind_ok.2 ⟨(), ?_, ?_⟩⟩
    · exact readOn_enforceRole.2 hrole
    refine Prog.readOn_bind_ok.2 ⟨_, ?_, rfl⟩
    refine Prog.readOn_bind_ok.2 ⟨(), readOn_enforceScopes.2 htokens, ?_⟩
    refine Prog.readOn_bind_ok.2 ⟨_, rfl, Prog.readOn_bind_ok.2 ⟨(), ?_, ?_⟩⟩
    · exact readOn_enforceScopes.2 hscopes
    · exact Prog.readOn_bind_ok.2 ⟨(), readOn_enforceObligations.2 hobligations, rfl⟩

end Guards

/-! ## Approvals under a later policy -/

/-- The approver of `command` holds exactly what the guards ask for under `p`. -/
structure HoldsExactly (assignments : List RoleAssignment) (t : Time) (environment : Option Json)
    (command : ApprovalDecisionCommand) (p : PolicyEvaluation) : Prop where
  approve : command.decision = .approve
  role : ∃ role, requiredRoleForLevel p.route command.level p.requiredRoles = some role ∧
    ∀ r, r ∈ evaluateCurrentRoles assignments t environment ↔ r = role
  tokens : ∀ scope, scope ∈ command.actor.scopes ↔ scope ∈ p.requiredScopes
  scopes : ∀ scope, scope ∈ evaluateCurrentScopes assignments t environment ↔
    scope ∈ p.requiredScopes
  obligations : ∀ name, acknowledged command.obligations name = true ↔ name ∈ p.obligations

/-- Approvals at every level, by approvers who hold exactly what `p` asks for. -/
def ApprovedUnder (db : Store) (t : Time) (environment : Option Json)
    (commands : Nat → ApprovalDecisionCommand) (p : PolicyEvaluation) : Prop :=
  ∀ level ∈ levelsOf p.route, (commands level).level = level ∧
    HoldsExactly (db.loadAssignments (commands level).actor.tenantId (commands level).actor.actorId)
      t environment (commands level) p

/-- Unless `current` is stricter, the approvals under `stored` satisfy `decide` under `current`. -/
def StillSuffices (stored current : PolicyEvaluation) : Prop :=
  policyStricter current stored = false → ∀ db t environment commands,
    ApprovedUnder db t environment commands stored → ∀ level ∈ levelsOf current.route,
      PassesGuards db t environment (commands level) current

/-- Both evaluations name the same role for each level of the current route. -/
def SameRoles (stored current : PolicyEvaluation) : Prop :=
  ∀ level ∈ levelsOf current.route,
    requiredRoleForLevel current.route level current.requiredRoles =
      requiredRoleForLevel stored.route level stored.requiredRoles

/-- What a policy that is not stricter leaves as it was. -/
theorem not_stricter {current stored : PolicyEvaluation}
    (h : policyStricter current stored = false) :
    routeStrictness current.route ≤ routeStrictness stored.route ∧
      (∀ scope ∈ current.requiredScopes, scope ∈ stored.requiredScopes) ∧
        ∀ name ∈ current.obligations, name ∈ stored.obligations := by
  obtain ⟨-, hroute, -, hscopes, hobligations, -⟩ := policyStricter_eq_false.1 h
  exact ⟨hroute, fun _ hmem => hscopes hmem, fun _ hmem => hobligations hmem⟩

theorem levelsOf_subset {r r' : ApprovalRoute} (h : routeStrictness r ≤ routeStrictness r')
    {level : Nat} (hlevel : level ∈ levelsOf r) : level ∈ levelsOf r' := by
  cases r <;> cases r' <;>
    simp only [routeStrictness, levelsOf, List.mem_cons, List.not_mem_nil, or_false] at h hlevel ⊢ <;>
    omega

/-- The role of each level, when the route asks no more levels than there are roles. -/
theorem exists_requiredRole {p : PolicyEvaluation} (hroles : p.requiredRoles ≠ [])
    (hone : ¬ (p.route = .criticalTwoStep ∧ p.requiredRoles.length = 1)) {level : Nat}
    (hlevel : level ∈ levelsOf p.route) :
    ∃ role, requiredRoleForLevel p.route level p.requiredRoles = some role := by
  obtain ⟨role₁, rest, hr⟩ := List.exists_cons_of_ne_nil hroles
  cases hroute : p.route with
  | none =>
      rw [hroute] at hlevel
      cases hlevel
  | single =>
      rw [hroute, levelsOf, List.mem_singleton] at hlevel
      subst hlevel
      exact ⟨role₁, by rw [hr]; rfl⟩
  | criticalTwoStep =>
      rw [hroute, levelsOf, List.mem_cons, List.mem_singleton] at hlevel
      rcases hlevel with rfl | rfl
      · exact ⟨role₁, by rw [hr]; rfl⟩
      · cases rest with
        | nil => exact absurd ⟨hroute, by rw [hr]; rfl⟩ hone
        | cons role₂ _ => exact ⟨role₂, by rw [hr]; rfl⟩

/-- A single role for two levels can be held at no second level. -/
theorem not_approvedUnder_of_one_role {p : PolicyEvaluation} {db : Store} {t : Time}
    {environment : Option Json} {commands : Nat → ApprovalDecisionCommand}
    (hone : p.route = .criticalTwoStep ∧ p.requiredRoles.length = 1) :
    ¬ ApprovedUnder db t environment commands p := by
  intro h
  obtain ⟨role, hrole⟩ := List.length_eq_one_iff.1 hone.2
  obtain ⟨hlevel, hexact⟩ := h 2 (by rw [hone.1]; decide)
  obtain ⟨r, hr, -⟩ := hexact.role
  rw [hlevel, hone.1, hrole] at hr
  cases hr

/-- The approvers of the examples: one for each level, who differ. -/
def approverOf (level : Nat) : String := if level = 1 then "alice" else "bob"

/-- An actor of the tenant `acme` whose token asserts the given scopes. -/
def actorOf (level : Nat) (scopes : List String) : AuthenticatedActor :=
  ⟨approverOf level, "acme", "", scopes, by unfold approverOf; split <;> decide⟩

/-- The approval of a level that asserts and acknowledges what `p` asks for. -/
def approvalUnder (p : PolicyEvaluation) (level : Nat) : ApprovalDecisionCommand :=
  { tenantId := "acme"
    intentId := UUID.nil
    revision := 1
    level
    decision := .approve
    actor := actorOf level p.requiredScopes
    intentDigest := ""
    expectedStateVersion := 4
    commandId := ""
    reason := ""
    obligations := p.obligations.map fun name => (name, "done") }

theorem acknowledged_all {names : List String} {name : String} :
    acknowledged (names.map fun name => (name, "done")) name = true ↔ name ∈ names := by
  unfold acknowledged
  induction names with
  | nil => simp
  | cons first rest ih =>
      rw [List.map_cons, List.lookup_cons, List.mem_cons]
      by_cases hfirst : name = first
      · subst hfirst
        simp
      · have hbeq : (name == first) = false := beq_eq_false_iff_ne.2 hfirst
        rw [hbeq]
        simp only [hfirst, false_or]
        exact ih

/-- A store in which the approvers hold exactly what `p` asks for. -/
def holdersOf (p : PolicyEvaluation) : Store :=
  twoHolders "acme" ((requiredRoleForLevel p.route 1 p.requiredRoles).getD "")
    ((requiredRoleForLevel p.route 2 p.requiredRoles).getD "") p.requiredScopes

theorem approvedUnder_holders {p : PolicyEvaluation} (hroles : p.requiredRoles ≠ [])
    (hone : ¬ (p.route = .criticalTwoStep ∧ p.requiredRoles.length = 1)) (t : Time)
    (environment : Option Json) :
    ApprovedUnder (holdersOf p) t environment (approvalUnder p) p := by
  intro level hlevel
  obtain ⟨role, hrole⟩ := exists_requiredRole hroles hone hlevel
  have hlevels : level = 1 ∨ level = 2 := by
    have hmem := @levelsOf_subset p.route .criticalTwoStep (by cases p.route <;> decide) level hlevel
    rw [levelsOf, List.mem_cons, List.mem_singleton] at hmem
    exact hmem
  have hloaded : (holdersOf p).loadAssignments "acme" (approverOf level) =
      [(grant "acme" (approverOf level) role p.requiredScopes).assignment] := by
    rcases hlevels with rfl | rfl
    · rw [holdersOf, hrole]
      exact twoHolders_alice _ _ _ _
    · rw [holdersOf, hrole]
      exact twoHolders_bob _ _ _ _
  refine ⟨rfl, ?_⟩
  show HoldsExactly ((holdersOf p).loadAssignments "acme" (approverOf level)) t environment _ p
  rw [hloaded]
  refine ⟨rfl, ⟨role, hrole, fun r => ?_⟩, fun _ => Iff.rfl, fun scope => ?_, fun name =>
    acknowledged_all⟩
  · rw [evaluateCurrentRoles_grant, List.mem_singleton]
  · rw [evaluateCurrentScopes_grant]

/-- The approvals under a stored policy still satisfy `decide` under a current one that is not
stricter, when both name the same role for each level. -/
theorem approvals_still_suffice {rt : Runtime} {tool : ToolName} {parameters : Dict}
    {risk risk' : RiskEvaluation} {bundle bundle' : PolicyBundle}
    {stored current : PolicyEvaluation}
    (hstored : evaluatePolicy rt tool risk parameters bundle = .ok stored)
    (hcurrent : evaluatePolicy rt tool risk' parameters bundle' = .ok current)
    (hs : stored.disposition = .requireApproval) (hc : current.disposition = .requireApproval) :
    StillSuffices stored current ↔ policyStricter current stored = true ∨
      (stored.route = .criticalTwoStep ∧ stored.requiredRoles.length = 1) ∨
        SameRoles stored current := by
  have hroles := (soundPolicy_of_evaluate hstored).roles hs
  have hroles' := (soundPolicy_of_evaluate hcurrent).roles hc
  constructor
  · intro h
    by_contra hnot
    rw [not_or, not_or, Bool.not_eq_true] at hnot
    obtain ⟨hstricter, hone, hdiffer⟩ := hnot
    refine hdiffer fun level hlevel => ?_
    -- Approvers that hold exactly what the stored policy asks for: their role at a level is its own.
    have happroved := approvedUnder_holders hroles hone 0 none
    have hpass := h hstricter _ _ _ _ happroved level hlevel
    have hlevel' := levelsOf_subset (not_stricter hstricter).1 hlevel
    obtain ⟨role, hrole, honly⟩ := (happroved level hlevel').2.role
    -- The role that the current policy accepts is one that the approver holds, hence that one.
    obtain ⟨role', hrole', hheld⟩ := ((passesGuards_iff rfl).1 hpass).role hroles'
    have heq : role' = role := (honly role').1 hheld
    subst heq
    exact hrole'.trans hrole.symm
  -- A policy that is not stricter asks for no level, scope or obligation that is not there.
  · rintro (hstricter | hone | hsame) hnot db t environment commands happroved level hlevel
    · rw [hstricter] at hnot
      cases hnot
    · exact absurd happroved (not_approvedUnder_of_one_role hone)
    · obtain ⟨hroute, hscopes, hobligations⟩ := not_stricter hnot
      obtain ⟨hlevels, hexact⟩ := happroved level (levelsOf_subset hroute hlevel)
      obtain ⟨role, hrole, honly⟩ := hexact.role
      rw [hlevels] at hrole
      refine (passesGuards_iff hexact.approve).2 ⟨fun _ => ⟨role, ?_, (honly role).2 rfl⟩, ?_, ?_, ?_⟩
      · rw [hlevels, hsame level hlevel, hrole]
      · exact fun scope h => (hexact.tokens scope).2 (hscopes scope h)
      · exact fun scope h => (hexact.scopes scope).2 (hscopes scope h)
      · exact fun name h => (hexact.obligations name).2 (hobligations name h)

/-- A bundle that names the roles of a deletion. -/
def deletionBundle (version : String) (roles : List String) : PolicyBundle :=
  ⟨version, [("tools", .dict [("delete_resource",
    .dict [("required_roles", .list (roles.map .str))])])]⟩

/-- The evaluation of a deletion under such a bundle. -/
def deletionUnder (version : String) (roles : List String) : PolicyEvaluation :=
  concludePolicy .critical roles ["ops:write"] [] "REQUIRE_APPROVAL" 900 version

/-- The approvals of a deletion under the seed bundle suffice under a later one that names the same
roles and is not stricter. -/
theorem approvals_still_suffice_deletion :
    let stored := Scenario.evaluation .deleteResource
    let current := deletionUnder "policy-2" ["critical_approver_l1", "critical_approver_l2"]
    stored ≠ current ∧ policyStricter current stored = false ∧ StillSuffices stored current :=
  ⟨by decide, by decide, (@approvals_still_suffice Scenario.runtime .deleteResource
    Scenario.parameters (evaluateRisk .deleteResource Scenario.parameters {})
    (evaluateRisk .deleteResource Scenario.parameters {}) seedPolicyBundle
    (deletionBundle "policy-2" ["critical_approver_l1", "critical_approver_l2"]) _ _
    rfl rfl rfl rfl).2 (Or.inr (Or.inr fun _ _ => rfl))⟩

/-- Two roles that change places: the relation is not stricter, and neither approver would still be
accepted at the own level. -/
theorem approvals_of_swapped_roles :
    ¬ ∀ stored current, evaluatePolicy Scenario.runtime .deleteResource
        (evaluateRisk .deleteResource Scenario.parameters {}) Scenario.parameters
          (deletionBundle "policy-2" ["critical_approver_l1", "critical_approver_l2"]) =
            .ok stored →
      evaluatePolicy Scenario.runtime .deleteResource
        (evaluateRisk .deleteResource Scenario.parameters {}) Scenario.parameters
          (deletionBundle "policy-3" ["critical_approver_l2", "critical_approver_l1"]) =
            .ok current → StillSuffices stored current := by
  intro h
  have hsuffices := h
    (deletionUnder "policy-2" ["critical_approver_l1", "critical_approver_l2"])
    (deletionUnder "policy-3" ["critical_approver_l2", "critical_approver_l1"]) rfl rfl
  have happroved := approvedUnder_holders
    (p := deletionUnder "policy-2" ["critical_approver_l1", "critical_approver_l2"]) (by decide)
    (by decide) 0 none
  have hpass := hsuffices (by decide) _ _ _ _ happroved 1 (by decide)
  obtain ⟨role, hrole, hheld⟩ := ((passesGuards_iff rfl).1 hpass).role (by decide)
  cases hrole
  revert hheld
  decide

/-! ## Approvers at revalidation -/

/-- The revalidation counts the actor as a current approver under `p`. -/
def CountsAsApprover (db : Store) (t : Time) (environment : Option Json)
    (tenantId actorId : String) (p : PolicyEvaluation) : Prop :=
  Prog.readOn (D := Db) db t (standingAt t) (approverFailureReason tenantId actorId
    p.requiredRoles p.requiredScopes t environment) = some (.ok none)

/-- An approval at level 1 by the actor, with a token that asserts every scope and with every
obligation acknowledged. -/
structure ApprovalAtFirstLevel (tenantId actorId : String) (p : PolicyEvaluation)
    (command : ApprovalDecisionCommand) : Prop where
  approve : command.decision = .approve
  level : command.level = 1
  tenant : command.actor.tenantId = tenantId
  actor : command.actor.actorId = actorId
  tokens : ∀ scope ∈ p.requiredScopes, scope ∈ command.actor.scopes
  obligations : ∀ name ∈ p.obligations, acknowledged command.obligations name = true

/-- Whoever the revalidation counts as an approver could approve at that instant. -/
def CountsOnlyApprovers (p : PolicyEvaluation) : Prop :=
  ∀ db t environment tenantId actorId, CountsAsApprover db t environment tenantId actorId p →
    ∀ command, ApprovalAtFirstLevel tenantId actorId p command →
      PassesGuards db t environment command p

theorem countsAsApprover_iff {db : Store} {t : Time} {environment : Option Json}
    {tenantId actorId : String} {p : PolicyEvaluation} (hroles : p.requiredRoles ≠ []) :
    CountsAsApprover db t environment tenantId actorId p ↔
      (∃ role ∈ p.requiredRoles, role ∈ evaluateCurrentRoles
        (db.loadAssignments tenantId actorId) t environment) ∧
      ∀ scope ∈ p.requiredScopes, scope ∈ evaluateCurrentScopes
        (db.loadAssignments tenantId actorId) t environment := by
  unfold CountsAsApprover
  rw [readOn_approverFailureReason, Option.some.injEq, Except.ok.injEq, approverReason_eq_none]
  exact and_congr_left fun _ => ⟨fun h => h hroles, fun h _ => h⟩

/-- The approver of a single-step route has lost the authority to approve only when the revalidation
sees it, provided that the list of roles names one role. -/
theorem counted_approvers_may_approve {p : PolicyEvaluation} (hroute : p.route = .single)
    (hroles : p.requiredRoles ≠ []) :
    CountsOnlyApprovers p ↔ ∀ role ∈ p.requiredRoles, p.requiredRoles.head? = some role := by
  have hfirst : requiredRoleForLevel p.route 1 p.requiredRoles = p.requiredRoles.head? := by
    rw [hroute]
    rfl
  constructor
  · intro h role hrole
    -- The holder of this role counts, and the guards ask for the first one.
    have hcounts : CountsAsApprover (twoHolders "acme" role role p.requiredScopes) 0 none "acme"
        "alice" p := by
      refine (countsAsApprover_iff hroles).2 ?_
      rw [twoHolders_alice, evaluateCurrentRoles_grant, evaluateCurrentScopes_grant]
      exact ⟨⟨role, hrole, List.mem_singleton_self role⟩, fun _ h => h⟩
    have hpass := h _ _ _ _ _ hcounts (approvalUnder p 1)
      ⟨rfl, rfl, rfl, rfl, fun _ h => h, fun _ h => acknowledged_all.2 h⟩
    obtain ⟨first, hlevel, hheld⟩ := ((passesGuards_iff rfl).1 hpass).role hroles
    have hloaded : (twoHolders "acme" role role p.requiredScopes).loadAssignments
        (approvalUnder p 1).actor.tenantId (approvalUnder p 1).actor.actorId =
          [(grant "acme" "alice" role p.requiredScopes).assignment] := twoHolders_alice _ _ _ _
    rw [hloaded, evaluateCurrentRoles_grant, List.mem_singleton] at hheld
    rw [← hfirst, ← hheld]
    exact hlevel
  · intro honly db t environment tenantId actorId hcounts command hcommand
    obtain ⟨⟨role, hmem, hheld⟩, hscopes⟩ := (countsAsApprover_iff hroles).1 hcounts
    refine (passesGuards_iff hcommand.approve).2 ⟨fun _ => ⟨role, ?_, ?_⟩, hcommand.tokens, ?_,
      hcommand.obligations⟩
    · rw [hcommand.level, hfirst]
      exact honly role hmem
    · rw [hcommand.tenant, hcommand.actor]
      exact hheld
    · rw [hcommand.tenant, hcommand.actor]
      exact hscopes

/-- An evaluation for one approver that names the given roles. -/
def singleStep (roles : List String) : PolicyEvaluation :=
  concludePolicy .high roles ["ops:write"] [] "REQUIRE_APPROVAL" 900 "policy-2"

theorem counted_approvers_may_approve_one_role : CountsOnlyApprovers (singleStep ["approver"]) :=
  (counted_approvers_may_approve (p := singleStep ["approver"]) rfl (by decide)).2 (by decide)

/-- The holder of the second of two roles counts at revalidation and could not approve. -/
theorem counted_approver_may_not_approve :
    ¬ CountsOnlyApprovers (singleStep ["approver", "service_owner"]) := by
  intro h
  have hcounts : CountsAsApprover
      (twoHolders "acme" "service_owner" "service_owner" ["ops:write"]) 0 none "acme" "alice"
        (singleStep ["approver", "service_owner"]) := by
    refine (countsAsApprover_iff (by decide)).2 ?_
    rw [twoHolders_alice, evaluateCurrentRoles_grant, evaluateCurrentScopes_grant]
    exact ⟨⟨"service_owner", by decide, List.mem_singleton_self _⟩, fun _ h => h⟩
  have hpass := h _ _ _ _ _ hcounts (approvalUnder (singleStep ["approver", "service_owner"]) 1)
    ⟨rfl, rfl, rfl, rfl, fun _ h => h, fun _ h => acknowledged_all.2 h⟩
  obtain ⟨role, hrole, hheld⟩ := ((passesGuards_iff rfl).1 hpass).role (by decide)
  cases hrole
  revert hheld
  decide

end HitlOps.Properties
