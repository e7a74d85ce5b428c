import HitlOps.Properties.Authority
import HitlOps.Infrastructure.Constraints
import HitlOps.Lifecycle.Claim

/-!
# The content that was approved

The gates compare the digest of a row with the row itself, and select its approvals by other
columns. A row that was rewritten with a matching digest therefore passes on approvals of its former
content, unless every approval that could count carries the digest that the row has now.
-/

set_option autoImplicit false

namespace HitlOps.Properties

open HitlOps.Python HitlOps.Domain HitlOps.Infrastructure HitlOps.Application HitlOps.Adapters
open HitlOps.Transaction

/-! ## What the gates count -/

/-- The approver of a decision counts for a single-step route. -/
def Authorized (db : Store) (intent : ActionIntent) (policy : PolicyEvaluation) (dbNow : Time)
    (d : ApprovalDecisionRow) : Prop :=
  approverReason (db.loadAssignments intent.key.tenantId d.actorId) policy.requiredRoles
    policy.requiredScopes dbNow intent.environment = none

/-- A decision that the second gate counts towards the stored route: any authorized one of a single
step, the first one of each level of a critical route. -/
def Counted (db : Store) (intent : ActionIntent) (policy : PolicyEvaluation) (dbNow : Time)
    (decisions : List ApprovalDecisionRow) (d : ApprovalDecisionRow) : Prop :=
  match policy.route with
  | .none => False
  | .single => d ∈ decisions ∧ Authorized db intent policy dbNow d
  | .criticalTwoStep =>
      decisions.find? (fun e => e.level = 1) = some d ∨
        decisions.find? (fun e => e.level = 2) = some d

/-- The gates pass the row, whatever else the store holds, only on approvals of its digest. -/
def BindsContent (rt : Runtime) (db : Store) (intent : ActionIntent) (dbNow : Time) : Prop :=
  ∀ db' : Store, db'.Constrained → intent ∈ db'.intents →
    (db'.approvalsOf intent.key).Perm (db.approvalsOf intent.key) →
    ∀ execution bundle snapshot v policy passed, policy ∈ db'.policiesOf intent.key →
      Prog.readOn (D := Db) db' dbNow v
        (revalidateGates rt intent execution dbNow bundle snapshot) = some (.ok (.passed passed)) →
      ∀ d, Counted db' intent policy.evaluation dbNow
        (arrange (v .order) (db'.approvalsOf intent.key)) d → d.intentDigest = intent.intentDigest

/-- Every approval that can count carries the digest of the row: any approval below the `CRITICAL`
band, and in it any pair of approvals of the two levels by two actors. -/
def DigestsAgree (db : Store) (intent : ActionIntent) : Prop :=
  if (evaluateRisk intent.tool intent.canonicalParameters {}).band = .critical then
    ∀ d₁ ∈ db.approvalsOf intent.key, ∀ d₂ ∈ db.approvalsOf intent.key,
      d₁.level = 1 → d₂.level = 2 → d₁.actorId ≠ d₂.actorId →
        d₁.intentDigest = intent.intentDigest ∧ d₂.intentDigest = intent.intentDigest
  else ∀ d ∈ db.approvalsOf intent.key, d.intentDigest = intent.intentDigest

/-! ## Gates that pass -/

section Gates

variable {rt : Runtime} {db : Store} {v : ∀ o : Source, Draw o} {intent : ActionIntent}
  {execution : Execution} {dbNow : Time} {bundle : PolicyBundle} {snapshot : TargetSnapshot}

theorem readOn_scalarOne {α : Type} {rows : List α} {a : α} :
    Prog.readOn (D := Db) db dbNow v (scalarOne rows) = some (.ok a) ↔ rows = [a] := by
  match rows with
  | [] =>
      constructor
      · intro h
        cases h
      · intro h
        cases h
  | [b] =>
      constructor
      · intro h
        cases h
        rfl
      · intro h
        cases h
        rfl
  | b :: c :: rest =>
      constructor
      · intro h
        cases h
      · intro h
        cases h

theorem readOn_ofExcept {α : Type} {r : Except Error α} {a : α} :
    Prog.readOn (D := Db) db dbNow v (ofExcept r) = some (.ok a) ↔ r = .ok a := by
  cases r with
  | ok b =>
      constructor
      · intro h
        cases h
        rfl
      · intro h
        cases h
        rfl
  | error e =>
      constructor
      · intro h
        cases h
      · intro h
        cases h

/-- The gates pass exactly when each of them does. -/
theorem readOn_revalidateGates {passed : Execution} :
    Prog.readOn (D := Db) db dbNow v (revalidateGates rt intent execution dbNow bundle snapshot) =
        some (.ok (.passed passed)) ↔
      recomputeDigest rt intent = intent.intentDigest ∧ windowElapsed intent dbNow = false ∧
        ∃ policy, db.policiesOf intent.key = [policy] ∧
          Prog.readOn (D := Db) db dbNow v (approvalsFailureReason intent policy.evaluation dbNow) =
            some (.ok none) ∧
          policyAndTarget rt intent policy.evaluation bundle snapshot execution =
            .ok (.passed passed) := by
  unfold revalidateGates
  constructor
  · intro h
    split at h
    · cases h
    · next hdigest =>
        obtain ⟨policies, hpolicies, h⟩ := Prog.readOn_bind_ok.1 h
        cases hpolicies
        obtain ⟨policy, hpolicy, h⟩ := Prog.readOn_bind_ok.1 h
        rw [readOn_scalarOne] at hpolicy
        split at h
        · cases h
        · next hwindow =>
            obtain ⟨reason, hreason, h⟩ := Prog.readOn_bind_ok.1 h
            cases reason with
            | some text => cases h
            | none =>
                exact ⟨Decidable.not_not.1 hdigest, Bool.eq_false_iff.2 hwindow, policy, hpolicy,
                  hreason, readOn_ofExcept.1 h⟩
  · rintro ⟨hdigest, hwindow, policy, hpolicy, hreason, hpass⟩
    rw [if_neg fun h => h hdigest]
    refine Prog.readOn_bind_ok.2 ⟨_, rfl, Prog.readOn_bind_ok.2 ⟨policy, ?_, ?_⟩⟩
    · exact readOn_scalarOne.2 hpolicy
    · have hopen : ¬ intent.approvalExpiresAt.any
          (fun expires => Decidable.decide (expires ≤ dbNow)) = true := Bool.eq_false_iff.1 hwindow
      rw [if_neg hopen]
      exact Prog.readOn_bind_ok.2 ⟨none, hreason, readOn_ofExcept.2 hpass⟩

/-- The loop counts a decision exactly when one of them has an authorized approver. -/
theorem readOn_countAuthorized {policy : PolicyEvaluation} (rows : List ApprovalDecisionRow)
    (n : Nat) (last : Option String) :
    ∃ m last', Prog.readOn (D := Db) db dbNow v
        (countAuthorized intent policy.requiredRoles policy.requiredScopes dbNow rows n last) =
      some (.ok (m, last')) ∧ n ≤ m ∧
        ((∃ d ∈ rows, Authorized db intent policy dbNow d) ↔ n < m) := by
  induction rows generalizing n last with
  | nil =>
      refine ⟨n, last, rfl, Nat.le_refl n, ?_, fun h => absurd h (Nat.lt_irrefl n)⟩
      rintro ⟨d, hd, -⟩
      cases hd
  | cons d rest ih =>
      have hread := readOn_approverFailureReason db v intent.key.tenantId d.actorId
        policy.requiredRoles policy.requiredScopes dbNow intent.environment
      cases hreason : approverReason (db.loadAssignments intent.key.tenantId d.actorId)
          policy.requiredRoles policy.requiredScopes dbNow intent.environment with
      -- The approver of the first decision is authorized: the loop has counted it.
      | none =>
          rw [hreason] at hread
          obtain ⟨m, last', hloop, hle, -⟩ := ih (n + 1) last
          refine ⟨m, last', ?_, Nat.le_of_succ_le hle, fun _ => hle, fun _ => ?_⟩
          · unfold countAuthorized
            rw [Prog.readOn_bind _ hread]
            exact hloop
          · exact ⟨d, List.mem_cons_self, hreason⟩
      | some reason =>
          rw [hreason] at hread
          obtain ⟨m, last', hloop, hle, hiff⟩ := ih n (some reason)
          refine ⟨m, last', ?_, hle, ?_, fun hlt => ?_⟩
          · unfold countAuthorized
            rw [Prog.readOn_bind _ hread]
            exact hloop
          · rintro ⟨e, he, hauthorized⟩
            rcases List.mem_cons.1 he with rfl | he
            · unfold Authorized at hauthorized
              rw [hreason] at hauthorized
              cases hauthorized
            · exact hiff.1 ⟨e, he, hauthorized⟩
          · obtain ⟨e, he, hauthorized⟩ := hiff.2 hlt
            exact ⟨e, List.mem_cons_of_mem d he, hauthorized⟩

/-- The approvals that the second gate asks for hold, for this order of the decisions. -/
def ApprovalsHold (db : Store) (intent : ActionIntent) (policy : PolicyEvaluation) (dbNow : Time)
    (decisions : List ApprovalDecisionRow) : Prop :=
  match policy.route with
  | .none => True
  | .single => ∃ d ∈ decisions, Authorized db intent policy dbNow d
  | .criticalTwoStep => ∃ role₁ role₂ rest d₁ d₂, policy.requiredRoles = role₁ :: role₂ :: rest ∧
      decisions.find? (fun e => e.level = 1) = some d₁ ∧
      decisions.find? (fun e => e.level = 2) = some d₂ ∧ d₁.actorId ≠ d₂.actorId ∧
      approverReason (db.loadAssignments intent.key.tenantId d₁.actorId) [role₁]
        policy.requiredScopes dbNow intent.environment = none ∧
      approverReason (db.loadAssignments intent.key.tenantId d₂.actorId) [role₂]
        policy.requiredScopes dbNow intent.environment = none

/-- A single step passes exactly with an authorized approver. -/
theorem readOn_approvals_single_iff {policy : PolicyEvaluation} (hroute : policy.route = .single) :
    Prog.readOn (D := Db) db dbNow v (approvalsFailureReason intent policy dbNow) =
        some (.ok none) ↔
      ∃ d ∈ arrange (v .order) (db.approvalsOf intent.key), Authorized db intent policy dbNow d := by
  obtain ⟨m, last, hloop, -, hiff⟩ := @readOn_countAuthorized db v intent dbNow policy
    (arrange (v .order) (db.approvalsOf intent.key)) 0 none
  have hread : Prog.readOn (D := Db) db dbNow v (approvalsFailureReason intent policy dbNow) =
      some (.ok (if m < 1 then some (last.getD "approver_no_longer_authorized") else none)) := by
    unfold approvalsFailureReason
    rw [hroute, if_neg (by decide)]
    refine Prog.readOn_bind_ok.2 ⟨_, rfl, ?_⟩
    rw [if_neg (by decide)]
    refine Prog.readOn_bind_ok.2 ⟨(m, last), hloop, ?_⟩
    dsimp only
    split
    · rfl
    · rfl
  rw [hread, hiff]
  by_cases hm : m < 1
  · rw [if_pos hm]
    exact ⟨fun h => (by cases h), fun h => absurd h (by omega)⟩
  · rw [if_neg hm]
    exact ⟨fun _ => Nat.lt_of_not_le fun h => hm (Nat.lt_succ_of_le h), fun _ => rfl⟩

/-- One authorized approver is enough for a single-step route. -/
theorem readOn_approvals_single {policy : PolicyEvaluation} (hroute : policy.route = .single)
    {d : ApprovalDecisionRow} (hd : d ∈ db.approvalsOf intent.key)
    (hauthorized : Authorized db intent policy dbNow d) :
    Prog.readOn (D := Db) db dbNow v (approvalsFailureReason intent policy dbNow) =
      some (.ok none) :=
  (readOn_approvals_single_iff hroute).2 ⟨d, mem_arrange.2 hd, hauthorized⟩

/-- A critical route passes exactly when the first decision of each level is one of its two current
role holders. -/
theorem readOn_criticalLevels_iff {decisions : List ApprovalDecisionRow} {roles scopes : List String} :
    Prog.readOn (D := Db) db dbNow v
        (criticalLevelsFailureReason intent decisions roles scopes dbNow) = some (.ok none) ↔
      ∃ role₁ role₂ rest d₁ d₂, roles = role₁ :: role₂ :: rest ∧
        decisions.find? (fun e => e.level = 1) = some d₁ ∧
        decisions.find? (fun e => e.level = 2) = some d₂ ∧ d₁.actorId ≠ d₂.actorId ∧
        approverReason (db.loadAssignments intent.key.tenantId d₁.actorId) [role₁] scopes dbNow
          intent.environment = none ∧
        approverReason (db.loadAssignments intent.key.tenantId d₂.actorId) [role₂] scopes dbNow
          intent.environment = none := by
  constructor
  · intro h
    unfold criticalLevelsFailureReason at h
    split at h
    · next role₁ role₂ rest actor₁ actor₂ hfirst hsecond =>
        obtain ⟨d₁, hd₁, rfl⟩ := Option.map_eq_some_iff.1 hfirst
        obtain ⟨d₂, hd₂, rfl⟩ := Option.map_eq_some_iff.1 hsecond
        split at h
        · cases h
        · next hne =>
            obtain ⟨r₁, hr₁, h⟩ := Prog.readOn_bind_ok.1 h
            rw [readOn_approverFailureReason, Option.some.injEq, Except.ok.injEq] at hr₁
            cases r₁ with
            | some reason => cases h
            | none =>
                have h₂ : Prog.readOn (D := Db) db dbNow v (approverFailureReason
                    intent.key.tenantId d₂.actorId [role₂] scopes dbNow intent.environment) =
                      some (.ok none) := h
                rw [readOn_approverFailureReason, Option.some.injEq, Except.ok.injEq] at h₂
                exact ⟨role₁, role₂, rest, d₁, d₂, rfl, hd₁, hd₂, hne, hr₁, h₂⟩
    · cases h
  · rintro ⟨role₁, role₂, rest, d₁, d₂, rfl, hd₁, hd₂, hne, h₁, h₂⟩
    have hactor₁ : levelActor decisions 1 = some d₁.actorId := by
      rw [levelActor, hd₁]
      rfl
    have hactor₂ : levelActor decisions 2 = some d₂.actorId := by
      rw [levelActor, hd₂]
      rfl
    exact readOn_criticalLevels hactor₁ hactor₂ hne h₁ h₂ rest

/-- A critical route counts the first decision of each level, by two actors. -/
theorem levelActors_of_critical {decisions : List ApprovalDecisionRow} {roles scopes : List String}
    (h : Prog.readOn (D := Db) db dbNow v
      (criticalLevelsFailureReason intent decisions roles scopes dbNow) = some (.ok none)) :
    ∃ d₁ d₂, decisions.find? (fun e => e.level = 1) = some d₁ ∧
      decisions.find? (fun e => e.level = 2) = some d₂ ∧ d₁.actorId ≠ d₂.actorId := by
  obtain ⟨-, -, -, d₁, d₂, -, hd₁, hd₂, hne, -, -⟩ := readOn_criticalLevels_iff.1 h
  exact ⟨d₁, d₂, hd₁, hd₂, hne⟩

theorem readOn_approvals_critical {policy : PolicyEvaluation}
    (hroute : policy.route = .criticalTwoStep) :
    Prog.readOn (D := Db) db dbNow v (approvalsFailureReason intent policy dbNow) =
      Prog.readOn (D := Db) db dbNow v (criticalLevelsFailureReason intent
        (arrange (v .order) (db.approvalsOf intent.key)) policy.requiredRoles policy.requiredScopes
          dbNow) := by
  unfold approvalsFailureReason
  simp only [hroute, reduceCtorEq, if_false, if_true]
  rfl

/-- The second gate passes exactly when its approvals hold. -/
theorem readOn_approvals_iff {policy : PolicyEvaluation} :
    Prog.readOn (D := Db) db dbNow v (approvalsFailureReason intent policy dbNow) =
        some (.ok none) ↔
      ApprovalsHold db intent policy dbNow (arrange (v .order) (db.approvalsOf intent.key)) := by
  unfold ApprovalsHold
  cases hroute : policy.route with
  | none =>
      unfold approvalsFailureReason
      rw [hroute, if_pos rfl]
      exact ⟨fun _ => trivial, fun _ => rfl⟩
  | single => exact readOn_approvals_single_iff hroute
  | criticalTwoStep =>
      rw [readOn_approvals_critical hroute]
      exact readOn_criticalLevels_iff

end Gates

/-! ## A store that passes -/

/-- In the `CRITICAL` band, only a critical stored route passes the third gate. -/
theorem route_of_passed {rt : Runtime} {intent : ActionIntent} {stored : PolicyEvaluation}
    {bundle : PolicyBundle} {snapshot : TargetSnapshot} {execution passed : Execution}
    (hband : (evaluateRisk intent.tool intent.canonicalParameters {}).band = .critical)
    (h : policyAndTarget rt intent stored bundle snapshot execution = .ok (.passed passed)) :
    stored.route = .criticalTwoStep := by
  obtain ⟨current, hcurrent, hblock, hlets⟩ := Lifecycle.policyLets_of_passed h
  have htreatment := treatment_of_evaluate hcurrent
  rw [hband] at htreatment
  cases hd : current.disposition with
  | allow =>
      rcases (htreatment.allow hd).2.2 with hlow | hlow
      · cases hlow
      · cases hlow
  | block => exact absurd hd hblock
  | requireApproval =>
      have hroute := (htreatment.approval hd).1
      rw [if_pos rfl] at hroute
      have hle := (not_stricter (hlets (by rw [hd]; decide))).1
      rw [hroute] at hle
      revert hle
      cases stored.route <;> decide

/-- A bundle whose rule for the tool says nothing: the defaults of the evaluator apply. -/
def bareBundle (tool : ToolName) : PolicyBundle :=
  ⟨"policy-2", [("tools", .dict [(tool.value, .dict [])])]⟩

/-- The evaluation of the row under that bundle. -/
def bareEvaluation (intent : ActionIntent) : PolicyEvaluation :=
  concludePolicy (evaluateRisk intent.tool intent.canonicalParameters {}).band []
    (defaultScopes intent.tool) [] "REQUIRE_APPROVAL" 900 "policy-2"

theorem toolRule_bare (tool : ToolName) (environment : Option Json) :
    toolRule (bareBundle tool) tool environment = some [] := by
  have hmerge : mergeEnvironment [] environment = [] := by
    unfold mergeEnvironment
    split
    · rfl
    · rfl
  have hrule : toolRule (bareBundle tool) tool environment =
      some (mergeEnvironment [] environment) := by
    cases tool <;> rfl
  rw [hrule, hmerge]

theorem evaluatePolicy_bare (rt : Runtime) (intent : ActionIntent) :
    evaluatePolicy rt intent.tool (evaluateRisk intent.tool intent.canonicalParameters {})
      intent.canonicalParameters (bareBundle intent.tool) = .ok (bareEvaluation intent) := by
  have hinputs : PolicyInputs rt intent.tool intent.canonicalParameters (bareBundle intent.tool) []
      900 [] (defaultScopes intent.tool) [] := by
    refine ⟨toolRule_bare _ _, rfl, rfl, ?_, rfl⟩
    cases intent.tool <;> rfl
  exact evaluatePolicy_of_inputs _ hinputs

/-- The evaluation asks one approver below the `CRITICAL` band, and two in it. -/
theorem bareEvaluation_spec (intent : ActionIntent) :
    (bareEvaluation intent).disposition = .requireApproval ∧
      (if (evaluateRisk intent.tool intent.canonicalParameters {}).band = .critical then
        (bareEvaluation intent).route = .criticalTwoStep ∧
          (bareEvaluation intent).requiredRoles = criticalRoles
      else (bareEvaluation intent).route = .single ∧
        (bareEvaluation intent).requiredRoles = singleApprovalRoles) := by
  unfold bareEvaluation
  cases (evaluateRisk intent.tool intent.canonicalParameters {}).band with
  | critical => exact ⟨rfl, rfl, rfl⟩
  | high => exact ⟨rfl, rfl, rfl⟩
  | medium => exact ⟨rfl, rfl, rfl⟩
  | low => exact ⟨rfl, rfl, rfl⟩

/-- A healthy target that carries the parameters of the row. -/
def matchingTarget (intent : ActionIntent) : TargetSnapshot :=
  ⟨true, intent.canonicalParameters, "healthy", [], none⟩

theorem checkPreconditions_matching (intent : ActionIntent) :
    checkPreconditions intent.canonicalParameters (matchingTarget intent) = none := by
  have hfield : ∀ field, replacedField intent.canonicalParameters (matchingTarget intent) field =
      false := by
    intro field
    unfold replacedField matchingTarget
    split
    · rfl
    · rfl
    · next h => exact decide_eq_false fun hne => hne h
  have hfound : ¬ (matchingTarget intent).found = false := Bool.noConfusion
  have hhealthy : ¬ (matchingTarget intent).health = "degraded" := by
    show ¬ "healthy" = "degraded"
    decide
  unfold checkPreconditions
  rw [if_neg hfound, if_neg hhealthy, if_neg]
  simp only [List.any_cons, List.any_nil, hfield, Bool.or_self, Bool.false_eq_true,
    not_false_eq_true]

/-- The last two gates pass. -/
theorem policyAndTarget_bare (rt : Runtime) (intent : ActionIntent) (execution : Execution) :
    ∃ passed, policyAndTarget rt intent (bareEvaluation intent) (bareBundle intent.tool)
      (matchingTarget intent) execution = .ok (.passed passed) := by
  refine ⟨{ execution with
    preconditionSnapshot := some (preconditionSnapshot (matchingTarget intent)) }, ?_⟩
  unfold policyAndTarget
  simp only [evaluatePolicy_bare, bind, Except.bind, (bareEvaluation_spec intent).1, policyStricter_self,
    checkPreconditions_matching, reduceCtorEq, Bool.false_eq_true, false_and, if_false]
  rfl

/-- The row with its approvals and the bare evaluation, and grants for two holders. -/
def preparedStore (intent : ActionIntent) (approvals : List ApprovalDecisionRow)
    (grants : List RoleAssignmentRow) : Store :=
  { Store.empty with
    intents := [intent]
    decisions := approvals
    policies := [⟨intent.key, bareEvaluation intent, 0⟩]
    assignments := grants }

/-- The approvals that a constrained store holds for the row. -/
structure ApprovalsOf (intent : ActionIntent) (approvals : List ApprovalDecisionRow) : Prop where
  rows : ∀ d ∈ approvals, d.key = intent.key ∧ d.decision = .approve
  levels : ∀ d ∈ approvals, d.level = 1 ∨ d.level = 2
  unique : (approvals.map (·.approver)).Nodup

theorem approvalsOf_prepared {intent : ActionIntent} {approvals : List ApprovalDecisionRow}
    (h : ApprovalsOf intent approvals) (grants : List RoleAssignmentRow) :
    (preparedStore intent approvals grants).approvalsOf intent.key = approvals := by
  unfold Store.approvalsOf Store.decisionsOf preparedStore
  rw [List.filter_filter, List.filter_eq_self]
  intro d hd
  obtain ⟨hkey, happrove⟩ := h.rows d hd
  rw [happrove, hkey]
  simp only [decide_true, Bool.and_self]

theorem constrained_prepared {intent : ActionIntent} (hrevision : 1 ≤ intent.key.revision)
    (hversion : 1 ≤ intent.stateVersion) {approvals : List ApprovalDecisionRow}
    (h : ApprovalsOf intent approvals) {grants : List RoleAssignmentRow}
    (hids : (grants.map (·.id)).Nodup) (hgrants : (grants.map (·.grantKey)).Nodup) :
    (preparedStore intent approvals grants).Constrained where
  intents := List.nodup_singleton _
  transitions := List.nodup_nil
  commands := List.nodup_nil
  risks := List.nodup_nil
  policies := List.nodup_singleton _
  approvals := (List.filter_sublist.map _).nodup h.unique
  executionIds := List.nodup_nil
  executions := List.nodup_nil
  operations := List.nodup_nil
  outbox := List.nodup_nil
  idempotency := List.nodup_nil
  assignmentIds := hids
  grants := (List.filter_sublist.map _).nodup hgrants
  bundleIds := List.nodup_nil
  activeBundles := List.nodup_nil
  transitionOf := fun _ h => by cases h
  riskOf := fun _ h => by cases h
  policyOf := fun r hr => by
    cases List.mem_singleton.1 hr
    exact List.mem_singleton_self _
  decisionOf := fun d hd => by
    rw [(h.rows d hd).1]
    exact List.mem_singleton_self _
  executionOf := fun _ h => by cases h
  revisions := fun i hi => by
    cases List.mem_singleton.1 hi
    exact hrevision
  versions := fun i hi => by
    cases List.mem_singleton.1 hi
    exact hversion
  levels := h.levels
  attempts := fun _ h => by cases h

/-- A scan that returns the rows as they are stored. -/
def asStored : ∀ o : Source, Draw o
  | .now => 0
  | .uuid => UUID.nil
  | .order => fun _ => 0

theorem arrange_asStored {α : Type} (rows : List α) : arrange (asStored .order) rows = rows := by
  have hsorted : rows.zipIdx.Pairwise fun a b => (0 : Nat) ≤ 0 := List.pairwise_of_forall fun _ _ =>
    Nat.le_refl 0
  unfold arrange asStored
  rw [List.Pairwise.insertionSort_eq hsorted, List.zipIdx_map_fst]

/-- Two actors hold one role each, with the scopes that the evaluation asks for. -/
def heldBy (intent : ActionIntent) (actor₁ role₁ actor₂ role₂ : String) : List RoleAssignmentRow :=
  [grant intent.key.tenantId actor₁ role₁ (bareEvaluation intent).requiredScopes,
    { grant intent.key.tenantId actor₂ role₂ (bareEvaluation intent).requiredScopes with
      id := Scenario.freshId }]

theorem loadAssignments_heldBy {intent : ActionIntent} {approvals : List ApprovalDecisionRow}
    {actor₁ actor₂ : String} (hne : actor₁ ≠ actor₂) (role₁ role₂ : String) :
    (preparedStore intent approvals (heldBy intent actor₁ role₁ actor₂ role₂)).loadAssignments
        intent.key.tenantId actor₁ = [(grant intent.key.tenantId actor₁ role₁
          (bareEvaluation intent).requiredScopes).assignment] ∧
      (preparedStore intent approvals (heldBy intent actor₁ role₁ actor₂ role₂)).loadAssignments
        intent.key.tenantId actor₂ = [(grant intent.key.tenantId actor₂ role₂
          (bareEvaluation intent).requiredScopes).assignment] := by
  constructor
  · simp [Store.loadAssignments, Store.assignmentsOf, preparedStore, heldBy, grant, hne.symm]
  · simp [Store.loadAssignments, Store.assignmentsOf, preparedStore, heldBy, grant, hne,
      RoleAssignmentRow.assignment]

theorem constrained_heldBy {intent : ActionIntent} (hrevision : 1 ≤ intent.key.revision)
    (hversion : 1 ≤ intent.stateVersion) {approvals : List ApprovalDecisionRow}
    (h : ApprovalsOf intent approvals) {actor₁ actor₂ : String} (hne : actor₁ ≠ actor₂)
    (role₁ role₂ : String) :
    (preparedStore intent approvals (heldBy intent actor₁ role₁ actor₂ role₂)).Constrained := by
  refine constrained_prepared hrevision hversion h ?_ ?_
  · show [UUID.nil, Scenario.freshId].Nodup
    decide
  · simp [heldBy, grant, RoleAssignmentRow.grantKey, hne]

section Prepared

variable {rt : Runtime} {intent : ActionIntent} {approvals : List ApprovalDecisionRow}
  {dbNow : Time}

/-- The first two gates pass on the approvals of two current holders. -/
theorem passes_critical (h : ApprovalsOf intent approvals)
    (hdigest : recomputeDigest rt intent = intent.intentDigest)
    (hwindow : windowElapsed intent dbNow = false)
    (hband : (evaluateRisk intent.tool intent.canonicalParameters {}).band = .critical)
    {d₁ d₂ : ApprovalDecisionRow} (hfirst : approvals.find? (fun e => e.level = 1) = some d₁)
    (hsecond : approvals.find? (fun e => e.level = 2) = some d₂)
    (hne : d₁.actorId ≠ d₂.actorId) (execution : Execution) :
    ∃ passed, Prog.readOn (D := Db) (preparedStore intent approvals (heldBy intent d₁.actorId
        "critical_approver_l1" d₂.actorId "critical_approver_l2")) dbNow asStored
      (revalidateGates rt intent execution dbNow (bareBundle intent.tool) (matchingTarget intent)) =
        some (.ok (.passed passed)) := by
  have hspec := (bareEvaluation_spec intent).2
  rw [if_pos hband] at hspec
  obtain ⟨hroute, hroles⟩ := hspec
  obtain ⟨passed, hpassed⟩ := policyAndTarget_bare rt intent execution
  have hloaded := @loadAssignments_heldBy intent approvals _ _ hne "critical_approver_l1"
    "critical_approver_l2"
  refine ⟨passed, readOn_revalidateGates.2 ⟨hdigest, hwindow, ⟨intent.key, bareEvaluation intent, 0⟩,
    ?_, ?_, hpassed⟩⟩
  · simp [Store.policiesOf, preparedStore]
  · show Prog.readOn (D := Db) _ dbNow asStored
      (approvalsFailureReason intent (bareEvaluation intent) dbNow) = some (.ok none)
    rw [readOn_approvals_critical hroute, approvalsOf_prepared h, arrange_asStored, hroles]
    have hactor₁ : levelActor approvals 1 = some d₁.actorId := by
      rw [levelActor, hfirst]
      rfl
    have hactor₂ : levelActor approvals 2 = some d₂.actorId := by
      rw [levelActor, hsecond]
      rfl
    refine readOn_criticalLevels hactor₁ hactor₂ hne ?_ ?_ []
    · rw [hloaded.1]
      exact approverReason_grant List.mem_cons_self _ _ _ _ _
    · rw [hloaded.2]
      exact approverReason_grant List.mem_cons_self _ _ _ _ _

/-- They pass on the approval of one current holder. -/
theorem passes_single (h : ApprovalsOf intent approvals)
    (hdigest : recomputeDigest rt intent = intent.intentDigest)
    (hwindow : windowElapsed intent dbNow = false)
    (hband : (evaluateRisk intent.tool intent.canonicalParameters {}).band ≠ .critical)
    {d : ApprovalDecisionRow} (hd : d ∈ approvals) {other : String} (hne : d.actorId ≠ other)
    (execution : Execution) :
    Authorized (preparedStore intent approvals (heldBy intent d.actorId "approver" other ""))
        intent (bareEvaluation intent) dbNow d ∧
      ∃ passed, Prog.readOn (D := Db)
        (preparedStore intent approvals (heldBy intent d.actorId "approver" other "")) dbNow asStored
        (revalidateGates rt intent execution dbNow (bareBundle intent.tool)
          (matchingTarget intent)) = some (.ok (.passed passed)) := by
  have hspec := (bareEvaluation_spec intent).2
  rw [if_neg hband] at hspec
  obtain ⟨hroute, hroles⟩ := hspec
  obtain ⟨passed, hpassed⟩ := policyAndTarget_bare rt intent execution
  have hauthorized : Authorized
      (preparedStore intent approvals (heldBy intent d.actorId "approver" other "")) intent
        (bareEvaluation intent) dbNow d := by
    unfold Authorized
    rw [(loadAssignments_heldBy hne "approver" "").1, hroles]
    exact approverReason_grant List.mem_cons_self _ _ _ _ _
  refine ⟨hauthorized, passed, readOn_revalidateGates.2 ⟨hdigest, hwindow,
    ⟨intent.key, bareEvaluation intent, 0⟩, ?_, ?_, hpassed⟩⟩
  · simp [Store.policiesOf, preparedStore]
  · refine readOn_approvals_single hroute ?_ hauthorized
    rw [approvalsOf_prepared h]
    exact hd

end Prepared

/-! ## When approvals bind the content -/

theorem approvalsOf_perm {db : Store} (hdb : db.Constrained) {intent : ActionIntent}
    {approvals : List ApprovalDecisionRow}
    (hperm : approvals.Perm (db.approvalsOf intent.key)) : ApprovalsOf intent approvals where
  rows := fun _ hd => (Store.mem_approvalsOf.1 (hperm.mem_iff.1 hd)).2
  levels := fun d hd => hdb.levels d (Store.mem_approvalsOf.1 (hperm.mem_iff.1 hd)).1
  unique := (hperm.map _).nodup_iff.2 (hdb.approvalsOf intent.key)

/-- Two approvals can be the first ones of a scan. -/
theorem exists_perm_cons_cons {approvals : List ApprovalDecisionRow} {d₁ d₂ : ApprovalDecisionRow}
    (h₁ : d₁ ∈ approvals) (h₂ : d₂ ∈ approvals) (hne : d₁ ≠ d₂) :
    ∃ rest, (d₁ :: d₂ :: rest).Perm approvals := by
  refine ⟨(approvals.erase d₁).erase d₂, ?_⟩
  have hmem : d₂ ∈ approvals.erase d₁ := (List.mem_erase_of_ne hne.symm).2 h₂
  exact ((List.perm_cons_erase hmem).symm.cons d₁).trans (List.perm_cons_erase h₁).symm

section Binding

variable {rt : Runtime} {db : Store} (hdb : db.Constrained) {intent : ActionIntent}
  (hintent : intent ∈ db.intents) {dbNow : Time}

include hdb hintent in
/-- In the `CRITICAL` band, approvals of the two levels by two actors can be made to count. -/
theorem agree_of_binds_critical (h : BindsContent rt db intent dbNow)
    (hdigest : recomputeDigest rt intent = intent.intentDigest)
    (hwindow : windowElapsed intent dbNow = false)
    (hband : (evaluateRisk intent.tool intent.canonicalParameters {}).band = .critical)
    {d₁ d₂ : ApprovalDecisionRow} (h₁ : d₁ ∈ db.approvalsOf intent.key)
    (h₂ : d₂ ∈ db.approvalsOf intent.key) (hlevel₁ : d₁.level = 1) (hlevel₂ : d₂.level = 2)
    (hne : d₁.actorId ≠ d₂.actorId) :
    d₁.intentDigest = intent.intentDigest ∧ d₂.intentDigest = intent.intentDigest := by
  have hdiffer : d₁ ≠ d₂ := fun heq => hne (congrArg ApprovalDecisionRow.actorId heq)
  -- The order of the scan is open, so the two decisions may come first.
  obtain ⟨rest, hperm⟩ := exists_perm_cons_cons h₁ h₂ hdiffer
  have hrows := approvalsOf_perm hdb hperm
  have hfirst : (d₁ :: d₂ :: rest).find? (fun e => e.level = 1) = some d₁ := by
    simp only [List.find?_cons, hlevel₁, decide_true]
  have hsecond : (d₁ :: d₂ :: rest).find? (fun e => e.level = 2) = some d₂ := by
    simp only [List.find?_cons, hlevel₁, hlevel₂, decide_true]
    rfl
  -- In a store that differs in the policy row and the grants, the gates pass on the two of them.
  obtain ⟨passed, hpassed⟩ := passes_critical hrows hdigest hwindow hband hfirst hsecond hne
    (claimedExecution UUID.nil intent.key 0)
  have hstored := approvalsOf_prepared hrows
    (heldBy intent d₁.actorId "critical_approver_l1" d₂.actorId "critical_approver_l2")
  have hcounts := h _ (constrained_heldBy (hdb.revisions intent hintent)
    (hdb.versions intent hintent) hrows hne _ _) (List.mem_singleton_self _)
    (hstored.symm ▸ hperm) _ _ _ _ ⟨intent.key, bareEvaluation intent, 0⟩ passed
    (by simp [Store.policiesOf, preparedStore]) hpassed
  have hspec := (bareEvaluation_spec intent).2
  rw [if_pos hband] at hspec
  rw [hstored, arrange_asStored] at hcounts
  unfold Counted at hcounts
  rw [hspec.1] at hcounts
  exact ⟨hcounts d₁ (Or.inl hfirst), hcounts d₂ (Or.inr hsecond)⟩

include hdb hintent in
/-- Below it, any approval can. -/
theorem agree_of_binds_single (h : BindsContent rt db intent dbNow)
    (hdigest : recomputeDigest rt intent = intent.intentDigest)
    (hwindow : windowElapsed intent dbNow = false)
    (hband : (evaluateRisk intent.tool intent.canonicalParameters {}).band ≠ .critical)
    {d : ApprovalDecisionRow} (hd : d ∈ db.approvalsOf intent.key) :
    d.intentDigest = intent.intentDigest := by
  have hrows := approvalsOf_perm hdb (List.Perm.refl (db.approvalsOf intent.key))
  obtain ⟨other, hne⟩ : ∃ other : String, other ≠ d.actorId := by
    by_cases h : d.actorId = ""
    · exact ⟨"bob", by rw [h]; decide⟩
    · exact ⟨"", Ne.symm h⟩
  obtain ⟨hauthorized, passed, hpassed⟩ := passes_single hrows hdigest hwindow hband hd hne.symm
    (claimedExecution UUID.nil intent.key 0)
  have hstored := approvalsOf_prepared hrows (heldBy intent d.actorId "approver" other "")
  have hcounts := h _ (constrained_heldBy (hdb.revisions intent hintent)
    (hdb.versions intent hintent) hrows hne.symm _ _) (List.mem_singleton_self _)
    (by rw [hstored]) _ _ _ _ ⟨intent.key, bareEvaluation intent, 0⟩ passed
    (by simp [Store.policiesOf, preparedStore]) hpassed d
  have hspec := (bareEvaluation_spec intent).2
  rw [if_neg hband] at hspec
  rw [hstored, arrange_asStored] at hcounts
  unfold Counted at hcounts
  rw [hspec.1] at hcounts
  exact hcounts ⟨hd, hauthorized⟩

end Binding

/-- What is counted is an approval of the row, and in the `CRITICAL` band one of two of the two
levels by two actors. -/
theorem digest_of_counted {rt : Runtime} {db : Store} {intent : ActionIntent} {dbNow : Time}
    {approvals : List ApprovalDecisionRow} (hperm : (db.approvalsOf intent.key).Perm approvals)
    {execution passed : Execution} {bundle : PolicyBundle} {snapshot : TargetSnapshot}
    {v : ∀ o : Source, Draw o} {policy : PolicyEvaluationRow}
    (hpolicy : policy ∈ db.policiesOf intent.key)
    (hpassed : Prog.readOn (D := Db) db dbNow v
      (revalidateGates rt intent execution dbNow bundle snapshot) = some (.ok (.passed passed)))
    {d : ApprovalDecisionRow} (hcounted : Counted db intent policy.evaluation dbNow
      (arrange (v .order) (db.approvalsOf intent.key)) d) :
    d ∈ approvals ∧
      ((evaluateRisk intent.tool intent.canonicalParameters {}).band = .critical →
        ∃ d₁ ∈ approvals, ∃ d₂ ∈ approvals, d₁.level = 1 ∧ d₂.level = 2 ∧
          d₁.actorId ≠ d₂.actorId ∧ (d = d₁ ∨ d = d₂)) := by
  have hscan : ∀ e, e ∈ arrange (v .order) (db.approvalsOf intent.key) → e ∈ approvals :=
    fun e he => hperm.mem_iff.1 (mem_arrange.1 he)
  obtain ⟨-, -, row, hrow, hreason, htarget⟩ := readOn_revalidateGates.1 hpassed
  rw [hrow, List.mem_singleton] at hpolicy
  subst hpolicy
  unfold Counted at hcounted
  -- What counts depends on the stored route, which in the `CRITICAL` band has two steps.
  cases hroute : policy.evaluation.route with
  | none =>
      rw [hroute] at hcounted
      exact hcounted.elim
  | single =>
      rw [hroute] at hcounted
      refine ⟨hscan d hcounted.1, fun hband => ?_⟩
      rw [route_of_passed hband htarget] at hroute
      cases hroute
  | criticalTwoStep =>
      rw [hroute] at hcounted
      rw [readOn_approvals_critical hroute] at hreason
      obtain ⟨d₁, d₂, hfirst, hsecond, hne⟩ := levelActors_of_critical hreason
      have h₁ := hscan d₁ (List.mem_of_find?_eq_some hfirst)
      have h₂ := hscan d₂ (List.mem_of_find?_eq_some hsecond)
      have hlevel₁ : d₁.level = 1 := by simpa using List.find?_some hfirst
      have hlevel₂ : d₂.level = 2 := by simpa using List.find?_some hsecond
      have hd : d = d₁ ∨ d = d₂ := by
        rcases hcounted with hd | hd
        · exact Or.inl (Option.some.inj (hd.symm.trans hfirst))
        · exact Or.inr (Option.some.inj (hd.symm.trans hsecond))
      refine ⟨?_, fun _ => ⟨d₁, h₁, d₂, h₂, hlevel₁, hlevel₂, hne, hd⟩⟩
      rcases hd with rfl | rfl
      · exact h₁
      · exact h₂

/-- The gates pass only on approvals of the content of the row exactly when they refuse the row for
its digest or its window, or when every approval that can count carries the digest. -/
theorem approvals_bind_content {rt : Runtime} {db : Store} (hdb : db.Constrained)
    {intent : ActionIntent} (hintent : intent ∈ db.intents) (dbNow : Time) :
    BindsContent rt db intent dbNow ↔ recomputeDigest rt intent ≠ intent.intentDigest ∨
      windowElapsed intent dbNow = true ∨ DigestsAgree db intent := by
  constructor
  · intro h
    rw [or_iff_not_imp_left, or_iff_not_imp_left]
    intro hdigest hwindow
    rw [ne_eq, Decidable.not_not] at hdigest
    rw [Bool.not_eq_true] at hwindow
    -- Each approval that can count is made to count in a store with the same approvals.
    unfold DigestsAgree
    split
    · next hband =>
        intro d₁ h₁ d₂ h₂ hlevel₁ hlevel₂ hne
        exact agree_of_binds_critical hdb hintent h hdigest hwindow hband h₁ h₂ hlevel₁ hlevel₂ hne
    · next hband =>
        intro d hd
        exact agree_of_binds_single hdb hintent h hdigest hwindow hband hd
  · rintro hcases db' - - hperm execution bundle snapshot v policy passed hpolicy hpassed d hcounted
    -- Gates that pass have compared the digest and the window, which leaves the third case.
    obtain ⟨hdigest, hwindow, -⟩ := readOn_revalidateGates.1 hpassed
    obtain ⟨hd, hcritical⟩ := digest_of_counted hperm hpolicy hpassed hcounted
    rcases hcases with hdiffer | helapsed | hagree
    · exact absurd hdigest hdiffer
    · rw [hwindow] at helapsed
      cases helapsed
    · unfold DigestsAgree at hagree
      split at hagree
      · next hband =>
          obtain ⟨d₁, h₁, d₂, h₂, hlevel₁, hlevel₂, hne, hd⟩ := hcritical hband
          obtain ⟨heq₁, heq₂⟩ := hagree d₁ h₁ d₂ h₂ hlevel₁ hlevel₂ hne
          rcases hd with rfl | rfl
          · exact heq₁
          · exact heq₂
      · exact hagree d hd

/-- The row of a restart in staging, with a digest of its own. -/
def restartOf (service : String) : ActionIntent :=
  { key := Scenario.key
    tool := .restartService
    canonicalParameters := [("environment", .str "staging"), ("service", .str service)]
    intentDigest := Scenario.runtime.sha256 ((digestEnvelope .restartService "acme" "rachel" 1
      [("environment", .str "staging"), ("service", .str service)]).dumps canonicalOptions)
    requesterId := "rachel"
    requesterRationale := ""
    rawProposal := none
    source := .direct
    state := .approved
    stateVersion := 5
    approvalExpiresAt := none }

/-- The row holds one restart, and its approval was given to another one. -/
def rewrittenStore (approved stored : String) : Store :=
  preparedStore (restartOf stored) [approvalBy (restartOf approved) "alice" 1]
    (heldBy (restartOf stored) "alice" "approver" "bob" "")

theorem rewrittenStore_constrained (approved stored : String) :
    (rewrittenStore approved stored).Constrained := by
  have hversion : 1 ≤ (restartOf stored).stateVersion := by
    show 1 ≤ 5
    omega
  refine constrained_heldBy (le_refl 1) hversion ⟨?_, ?_, ?_⟩ (by decide) _ _
  · intro d hd
    cases List.mem_singleton.1 hd
    exact ⟨rfl, rfl⟩
  · intro d hd
    cases List.mem_singleton.1 hd
    exact Or.inl rfl
  · exact List.nodup_singleton _

/-- A row that was not rewritten runs on the approval of its content. -/
theorem approvals_bind_content_restart :
    BindsContent Scenario.runtime (rewrittenStore "api" "api") (restartOf "api") 0 := by
  refine (approvals_bind_content (rewrittenStore_constrained "api" "api")
    (List.mem_singleton_self _) 0).2 (Or.inr (Or.inr ?_))
  unfold DigestsAgree
  rw [if_neg (by decide)]
  intro d hd
  cases List.mem_singleton.1 (Store.mem_approvalsOf.1 hd).1
  rfl

/-- The restart of `api` was approved, the row was rewritten to restart `billing` with a matching
digest, and the gates pass it. -/
theorem rewritten_row_passes :
    ¬ ∀ intent ∈ (rewrittenStore "api" "billing").intents,
      BindsContent Scenario.runtime (rewrittenStore "api" "billing") intent 0 := by
  intro h
  have hmem : restartOf "billing" ∈ (rewrittenStore "api" "billing").intents :=
    List.mem_singleton_self _
  have happroval : approvalBy (restartOf "api") "alice" 1 ∈
      (rewrittenStore "api" "billing").approvalsOf (restartOf "billing").key :=
    Store.mem_approvalsOf.2 ⟨List.mem_singleton_self _, rfl, rfl⟩
  have hagree := agree_of_binds_single (rewrittenStore_constrained "api" "billing") hmem
    (h _ hmem) rfl rfl (by decide) happroval
  revert hagree
  decide

end HitlOps.Properties
