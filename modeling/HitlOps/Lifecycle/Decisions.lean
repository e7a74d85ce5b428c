import HitlOps.Lifecycle.Creation

/-!
# Decisions and cancellations

`decide` and `cancel` meet the lifecycle contract. A decision passes its guards in the order of the
source; `Resolved` lists the outcomes of `_resolve_target`, and the evidence lemmas say what the
decision is worth in the state it leads to. The expiry path raises an error with `persist_state`,
so its transition may be committed too.
-/

set_option autoImplicit false

namespace HitlOps.Lifecycle

open HitlOps.Python HitlOps.Domain HitlOps.Infrastructure HitlOps.Application HitlOps.Transaction

/-! ## Outcomes -/

/-- What `_resolve_target` accepts: a rejection, the only approval, the first of two, or the second
of two by another actor. -/
inductive Resolved (command : ApprovalDecisionCommand) (state : IntentState)
    (route : ApprovalRoute) (decisions : List ApprovalDecisionRow) : IntentState → Prop
  | reject (hd : command.decision = .reject) (hlegal : isLegal state .rejected = true) :
      Resolved command state route decisions .rejected
  | single (hd : command.decision = .approve) (hs : state = .pendingApproval1)
      (hl : command.level = 1) (hr : route ≠ .criticalTwoStep) :
      Resolved command state route decisions .approved
  | first (hd : command.decision = .approve) (hs : state = .pendingApproval1)
      (hl : command.level = 1) (hr : route = .criticalTwoStep) :
      Resolved command state route decisions .approvedByLevel1
  | second (hd : command.decision = .approve) (hs : state = .pendingApproval2)
      (hl : command.level = 2) (hr : route = .criticalTwoStep)
      (hne : ∀ d, decisions = [d] → d.level = 1 → d.decision = .approve →
        d.actorId ≠ command.actor.actorId) :
      Resolved command state route decisions .approved

/-- A legal rejection comes from a state before the last approval. -/
theorem rank_of_rejectable {s : IntentState} (h : isLegal s .rejected = true) :
    rank s < rank .approved ∧ s ≠ .requested ∧ s ≠ .cancelled := by
  revert h
  cases s <;> decide

namespace Evidence

variable {P : PolicyEvaluation → Prop} {a : ActionIntent} {r : Revision}
  {row : PolicyEvaluationRow} {d : ApprovalDecisionRow}

/-- The revision with one more decision. -/
def withDecision (r : Revision) (d : ApprovalDecisionRow) : Revision :=
  { r with decisions := r.decisions ++ [d] }

theorem digests_append (h : Evidence P a r) (hd : d.intentDigest = a.intentDigest) :
    ∀ d' ∈ r.decisions ++ [d], d'.intentDigest = a.intentDigest := by
  intro d' hd'
  rcases List.mem_append.1 hd' with hd' | hd'
  · exact h.digests d' hd'
  · rw [List.mem_singleton] at hd'
    rw [hd']
    exact hd

theorem not_policyEvaluated_singleton {t : StateTransition} (ht : t.toState ≠ .policyEvaluated) :
    ∀ u ∈ [t], u.toState ≠ .policyEvaluated := fun _ hu => by
  rw [List.mem_singleton] at hu
  rw [hu]
  exact ht

theorem distinct_append (h : Evidence P a r)
    (hd : d.decision = .approve → d.actorId ≠ a.requesterId) :
    ∀ d' ∈ r.decisions ++ [d], d'.decision = .approve → d'.actorId ≠ a.requesterId := by
  intro d' hd'
  rcases List.mem_append.1 hd' with hd' | hd'
  · exact h.distinct d' hd'
  · rw [List.mem_singleton] at hd'
    rw [hd']
    exact hd

/-- A rejection ends the approval. -/
theorem reject (h : Evidence P a r) (hchain : Chain r.log a.state)
    (hlegal : isLegal a.state .rejected = true) (hdigest : d.intentDigest = a.intentDigest)
    (hdistinct : d.decision = .approve → d.actorId ≠ a.requesterId) {t : StateTransition}
    {m : OutboxMessage} (hto : t.toState = .rejected) :
    Evidence P (moved a .rejected) ((withDecision r d).move a .rejected t m) := by
  obtain ⟨hrank, hreq, hcan⟩ := rank_of_rejectable hlegal
  have hlog : ¬ ∃ u ∈ r.log ++ [t], u.toState = .approved := by
    rintro ⟨u, hu, hua⟩
    rcases List.mem_append.1 hu with hu | hu
    · exact absurd hua (hchain.not_approved hrank u hu)
    · rw [List.mem_singleton] at hu
      subst hu
      rw [hto] at hua
      cases hua
  refine
    { digests := h.digests_append hdigest
      distinct := h.distinct_append hdistinct
      policies := h.policies
      window := h.window
      fresh := fun hs => by cases hs
      evaluated := fun _ _ => h.evaluated hreq hcan
      asked := ?_
      waiting := fun hs => by cases hs
      halfway := fun hs => by cases hs
      approved := fun hu => absurd hu hlog
      routed := h.routed.append rfl rfl
        (not_policyEvaluated_singleton (by rw [hto]; decide)) }
  rintro (hs | hs | hu)
  · cases hs
  · cases hs
  · exact absurd hu hlog

/-- The last approval completes the decisions. -/
theorem approve (h : Evidence P a r) (hrow : r.policies = [row])
    (hdigest : d.intentDigest = a.intentDigest)
    (hdistinct : d.decision = .approve → d.actorId ≠ a.requesterId)
    (hasked : ∀ row ∈ r.policies, row.evaluation.disposition = .requireApproval)
    (happ : Approved a.approvalExpiresAt row.evaluation (r.decisions ++ [d]))
    {t : StateTransition} {m : OutboxMessage} (hto : t.toState = .approved) :
    Evidence P (moved a .approved) ((withDecision r d).move a .approved t m) where
  digests := h.digests_append hdigest
  distinct := h.distinct_append hdistinct
  policies := h.policies
  window := h.window
  fresh := fun hs => by cases hs
  evaluated := fun _ _ => ⟨row, hrow⟩
  asked := fun _ => hasked
  waiting := fun hs => by cases hs
  halfway := fun hs => by cases hs
  approved := fun _ => ⟨row, hrow, happ⟩
  routed := h.routed.append rfl rfl
    (not_policyEvaluated_singleton (by rw [hto]; decide))

/-- The first of two approvals leads to the second waiting state. -/
theorem half (h : Evidence P a r) (hchain : Chain r.log a.state)
    (hs : a.state = .pendingApproval1) (hrow : r.policies = [row])
    (hdigest : d.intentDigest = a.intentDigest)
    (hdistinct : d.decision = .approve → d.actorId ≠ a.requesterId)
    (hhalf : HalfApproved a.approvalExpiresAt row.evaluation (r.decisions ++ [d]))
    {t t' : StateTransition} {m m' : OutboxMessage} (hto : t.toState = .approvedByLevel1)
    (hto' : t'.toState = .pendingApproval2) :
    Evidence P (moved (moved a .approvedByLevel1) .pendingApproval2)
      (((withDecision r d).move a .approvedByLevel1 t m).move (moved a .approvedByLevel1)
        .pendingApproval2 t' m') := by
  refine
    { digests := h.digests_append hdigest
      distinct := h.distinct_append hdistinct
      policies := h.policies
      window := h.window
      fresh := fun hs => by cases hs
      evaluated := fun _ _ => ⟨row, hrow⟩
      asked := fun _ => h.asked (Or.inl hs)
      waiting := fun hs => by cases hs
      halfway := fun _ => ⟨row, hrow, hhalf⟩
      approved := ?_
      routed := ?_ }
  rotate_left
  · let r' := (withDecision r d).move a .approvedByLevel1 t m
    have hmid : Routed r' := h.routed.append rfl rfl
      (not_policyEvaluated_singleton (by rw [hto]; decide))
    exact hmid.append rfl rfl (not_policyEvaluated_singleton (by rw [hto']; decide))
  -- Neither the log so far nor one of the two moves enters `APPROVED`.
  rintro ⟨u, hu, hua⟩
  have hu' : u ∈ r.log ++ [t] ++ [t'] := hu
  simp only [List.mem_append, List.mem_singleton] at hu'
  rcases hu' with (hu' | rfl) | rfl
  · exact absurd hua (hchain.not_approved (by rw [hs]; decide) u hu')
  · rw [hto] at hua
    cases hua
  · rw [hto'] at hua
    cases hua

end Evidence

section Rules

variable {rt : Runtime} {P : PolicyEvaluation → Prop} {τ : Know} {b : Store × Instant}
  {duty : Duty} {k : RevisionKey}

/-! ## Guards -/

theorem lwp_enforceScopes {actorScopes requiredScopes : List String}
    {Q : Except Error Unit → Know → Prop} (hQ : Safe Q)
    (h : (∀ scope ∈ requiredScopes, scope ∈ actorScopes) → Q (.ok ()) τ) :
    lwp rt P (enforceScopes actorScopes requiredScopes) Q τ := by
  refine lwp_raiseIf rfl hQ fun hm => h fun scope hs => ?_
  rw [Decidable.not_not, List.filter_eq_nil_iff] at hm
  have hin := hm scope hs
  simpa only [decide_not, Bool.not_eq_true', decide_eq_false_iff_not, Decidable.not_not] using hin

theorem lwp_enforceObligations {provided : List (String × String)} {required : List String}
    {Q : Except Error Unit → Know → Prop} (hQ : Safe Q)
    (h : (∀ name ∈ required, acknowledged provided name = true) → Q (.ok ()) τ) :
    lwp rt P (enforceObligations provided required) Q τ := by
  refine lwp_raiseIf rfl hQ fun hm => h fun name hn => ?_
  rw [Decidable.not_not, List.filter_eq_nil_iff] at hm
  have hin := hm name hn
  rw [decide_eq_true_eq, Bool.not_eq_false] at hin
  exact hin

theorem lwp_enforceRole {route : ApprovalRoute} {level : Nat} {requiredRoles roles : List String}
    {Q : Except Error Unit → Know → Prop} (hQ : Safe Q)
    (h : (requiredRoles ≠ [] → ∃ role, requiredRoleForLevel route level requiredRoles = some role ∧
      role ∈ roles) → Q (.ok ()) τ) :
    lwp rt P (enforceRole route level requiredRoles roles) Q τ := by
  refine lwp_raiseIf rfl hQ fun hm => h fun hne => ?_
  have hall : ¬ (requiredRoleForLevel route level requiredRoles).all (fun role => role ∉ roles) =
      true := fun hall => hm ⟨hne, hall⟩
  cases hrole : requiredRoleForLevel route level requiredRoles with
  | none => rw [hrole] at hall; exact absurd rfl hall
  | some role =>
      rw [hrole] at hall
      refine ⟨role, rfl, ?_⟩
      simpa using hall

/-- What the scope and obligation guards have established. -/
structure Scoped (command : ApprovalDecisionCommand) (policy : PolicyEvaluation)
    (environment : Option Json) (scopes : List String) (τ : Know) : Prop where
  token : command.decision = .approve → ∀ scope ∈ policy.requiredScopes,
    scope ∈ command.actor.scopes
  current : command.decision = .approve → ∀ scope ∈ policy.requiredScopes, scope ∈ scopes
  obligations : command.decision = .approve → ∀ name ∈ policy.obligations,
    acknowledged command.obligations name = true
  source : command.decision = .approve → ∃ σ ∈ τ.ghost.reads, ∃ now ∈ τ.ghost.clocks,
    ∀ scope ∈ scopes, scope ∈ evaluateCurrentScopes
      (σ.loadAssignments command.actor.tenantId command.actor.actorId) now environment

theorem lwp_approverScopes {command : ApprovalDecisionCommand} {policy : PolicyEvaluation}
    {environment : Option Json} {Q : Except Error (List String) → Know → Prop} (hQ : Safe Q)
    (h : ∀ scopes τ', Reads τ τ' → Scoped command policy environment scopes τ' →
      Q (.ok scopes) τ') : lwp rt P (approverScopes command policy environment) Q τ := by
  unfold approverScopes
  rw [lwp, Contract.wp_ite]
  split
  · rw [Contract.wp_bind]
    refine lwp_enforceScopes hQ fun htoken => ?_
    rw [Contract.andThen_ok, Contract.wp_bind]
    refine lwp_currentScopes fun σ now τ₁ hr hσ hnow => ?_
    rw [Contract.andThen_ok, Contract.wp_bind]
    refine lwp_enforceScopes hQ fun hcurrent => ?_
    rw [Contract.andThen_ok, Contract.wp_bind]
    refine lwp_enforceObligations hQ fun hobl => ?_
    exact h _ τ₁ hr ⟨fun _ => htoken, fun _ => hcurrent, fun _ => hobl,
      fun _ => ⟨σ, hσ, now, hnow, fun scope hs => hs⟩⟩
  · next hne =>
      exact h _ τ (.refl τ) ⟨fun hd => absurd hd hne, fun hd => absurd hd hne,
        fun hd => absurd hd hne, fun hd => absurd hd hne⟩

/-- The second approver differs from an only first one. -/
theorem lwp_enforceDistinctL1 {actorId : String} {base cur : Revision}
    {es : List StateTransition} {ds : List ApprovalDecisionRow}
    (hT : Txn τ b duty k base cur es ds) {Q : Except Error Unit → Know → Prop} (hQ : Safe Q)
    (h : ∀ τ', Reads τ τ' → (∀ d, cur.decisions = [d] → d.level = 1 → d.decision = .approve →
      d.actorId ≠ actorId) → Q (.ok ()) τ') :
    lwp rt P (enforceDistinctL1 k actorId) Q τ := by
  unfold enforceDistinctL1
  rw [lwp, Contract.wp_bind]
  refine lwp_scan fun σ rows τ₁ hr _ hv hperm => ?_
  have hrow : σ.decisionsOf k = cur.decisions := by
    rw [← (hv.1 k base cur hT.held : revision σ k = cur)]
    rfl
  rw [hrow] at hperm
  rw [Contract.andThen_ok, Contract.wp_bind]
  have hfirst : ∀ d, cur.decisions = [d] → d.level = 1 → d.decision = .approve →
      rows = [d.actorId] := by
    intro d hd hl ha
    rw [hd, List.filter_cons, if_pos (by simp only [hl, ha, and_self, decide_true])] at hperm
    exact List.perm_singleton.1 hperm
  refine lwp_scalarOneOrNone hQ (fun hnil => ?_) fun actor hone => ?_
  · rw [Contract.andThen_ok]
    refine lwp_raiseIf rfl hQ fun _ => h τ₁ hr fun d hd hl ha => ?_
    rw [hfirst d hd hl ha] at hnil
    cases hnil
  · rw [Contract.andThen_ok]
    refine lwp_raiseIf rfl hQ fun hne => h τ₁ hr fun d hd hl ha heq => ?_
    rw [hfirst d hd hl ha, List.cons.injEq] at hone
    exact hne (by rw [← hone.1, heq])

theorem lwp_resolveTarget {a : ActionIntent} {route : ApprovalRoute}
    {command : ApprovalDecisionCommand} {base cur : Revision} {es : List StateTransition}
    {ds : List ApprovalDecisionRow} (hT : Txn τ b duty k base cur es ds) (hkey : a.key = k)
    {Q : Except Error IntentState → Know → Prop} (hQ : Safe Q)
    (h : ∀ target τ', Reads τ τ' → Resolved command a.state route cur.decisions target →
      Q (.ok target) τ') : lwp rt P (resolveTarget a route command) Q τ := by
  unfold resolveTarget requireTransition
  rw [lwp, Contract.wp_ite]
  split
  · next hd =>
      rw [Contract.wp_bind]
      refine lwp_raiseIf rfl hQ fun hlegal => ?_
      rw [Bool.not_eq_false] at hlegal
      exact h _ τ (.refl τ) (.reject hd hlegal)
  · next hnr =>
      have hd : command.decision = .approve := by
        cases hdec : command.decision with
        | approve => rfl
        | reject => exact absurd hdec hnr
      rw [Contract.wp_ite]
      split
      · next hs =>
          rw [Contract.wp_ite]
          split
          · exact hQ _ _ rfl
          · next hl =>
              rw [Decidable.not_not] at hl
              rw [Contract.wp_ite]
              split
              · next hr => exact h _ τ (.refl τ) (.first hd hs hl hr)
              · next hr => exact h _ τ (.refl τ) (.single hd hs hl hr)
      · rw [Contract.wp_ite]
        split
        · next hs =>
            rw [Contract.wp_ite]
            split
            · exact hQ _ _ rfl
            · next hl =>
                rw [Decidable.not_not] at hl
                rw [Contract.wp_ite]
                split
                · exact hQ _ _ rfl
                · next hr =>
                    rw [Decidable.not_not] at hr
                    rw [Contract.wp_bind, hkey]
                    refine lwp_enforceDistinctL1 hT hQ fun τ₁ hr₁ hne => ?_
                    exact h _ τ₁ hr₁ (.second hd hs hl hr hne)
        · exact hQ _ _ rfl

/-! ## Rows -/

theorem commandPayload_names {a : ActionIntent} (hkey : a.key = k) (target : IntentState)
    (cause : Cause) : Names k (Commands.transitionPayload a target cause) := by
  subst hkey
  exact ⟨rfl, rfl, rfl⟩

theorem transitioned_topic : "intent.transitioned" ∈ lifecycleTopics ∧
    "intent.transitioned" ≠ "intent.created" := by decide

theorem announces_command {a : ActionIntent} (hkey : a.key = k) {target : IntentState}
    {cause : Cause} {sequence n : Nat} {dbNow : Time} :
    Announces k (transitionRow a target cause sequence dbNow)
      ⟨n, "intent.transitioned", Commands.transitionPayload a target cause⟩ :=
  announces_transitionRow transitioned_topic.1 transitioned_topic.2
    (commandPayload_names hkey target cause) rfl

theorem lwp_insertDecision {row : ApprovalDecisionRow} {base cur : Revision}
    {es : List StateTransition} {ds : List ApprovalDecisionRow} (hkey : row.key = k)
    (hT : Txn τ b duty k base cur es ds) {Q : Except Error Unit → Know → Prop} (hQ : Safe Q)
    (h : ∀ τ', Txn τ' b duty k base (Evidence.withDecision cur row) es (ds ++ [row]) →
      Grows τ τ' → Q (.ok ()) τ') : lwp rt P (insertDecision row) Q τ := by
  unfold insertDecision
  rw [lwp, Contract.wp_bind]
  refine lwp_query fun σ τ₁ hr₁ _ _ => ?_
  rw [Contract.andThen_ok, Contract.wp_bind]
  refine lwp_raiseIf rfl hQ fun _ => ?_
  rw [Contract.andThen_ok]
  refine lwp_flush (w := .insertDecision row) (congrArg some hkey) (hT.reads hr₁) hQ
    fun n τ₂ _ hT₂ hg₂ => ?_
  simp only [enteredBy, decidedBy, List.append_nil] at hT₂
  exact h τ₂ hT₂ (hr₁.toGrows.trans hg₂)

/-- What the guards of `decide` have established when the rows are written. -/
structure Guarded (P : PolicyEvaluation → Prop) (τ : Know) (b : Store × Instant) (duty : Duty)
    (k : RevisionKey) (command : ApprovalDecisionCommand) (a : ActionIntent) (base : Revision)
    (row : PolicyEvaluationRow) (roles scopes : List String) : Prop where
  txn : Txn τ b duty k base base [] []
  valid : Valid P k a base
  key : command.key = k
  tenant : command.tenantId = command.actor.tenantId
  version : a.stateVersion = command.expectedStateVersion
  digest : a.intentDigest = command.intentDigest
  current : a.state ∈ expirableStates → windowElapsed a b.2 = false
  policy : base.policies = [row]
  role : row.evaluation.requiredRoles ≠ [] → ∃ role, requiredRoleForLevel row.evaluation.route
    command.level row.evaluation.requiredRoles = some role ∧ role ∈ roles
  roles : ∃ σ ∈ τ.ghost.reads, ∃ now ∈ τ.ghost.clocks, ∀ role ∈ roles,
    role ∈ evaluateCurrentRoles (σ.loadAssignments command.actor.tenantId command.actor.actorId)
      now a.environment
  scopes : Scoped command row.evaluation a.environment scopes τ
  requester : command.decision = .approve → command.actor.actorId ≠ a.requesterId
  duty : duty.command = some (.decide command) ∧ duty.permit = none

namespace Guarded

variable {command : ApprovalDecisionCommand} {a : ActionIntent} {base : Revision}
  {row : PolicyEvaluationRow} {roles scopes : List String}

theorem reads {τ' : Know} (h : Guarded P τ b duty k command a base row roles scopes)
    (h' : Reads τ τ') : Guarded P τ' b duty k command a base row roles scopes := by
  obtain ⟨σ, hσ, now, hnow, hroles⟩ := h.roles
  refine { h with
    txn := h.txn.reads h'
    roles := ⟨σ, h'.reads σ hσ, now, h'.clocks now hnow, hroles⟩
    scopes := { h.scopes with source := fun hd => ?_ } }
  obtain ⟨σ', hσ', now', hnow', hs⟩ := h.scopes.source hd
  exact ⟨σ', h'.reads σ' hσ', now', h'.clocks now' hnow', hs⟩

theorem tenant_eq (h : Guarded P τ b duty k command a base row roles scopes) :
    command.actor.tenantId = a.key.tenantId := by
  rw [h.valid.core.key, ← h.key, ← h.tenant]
  rfl

/-- An accepted approval is what the policy asks for. -/
theorem granted (h : Guarded P τ b duty k command a base row roles scopes)
    (hd : command.decision = .approve) (hs : a.state ∈ expirableStates) :
    Granted a.approvalExpiresAt row.evaluation command.level
      (decisionRow command a row.evaluation roles scopes b.2) where
  approve := hd
  level_eq := rfl
  role := fun hne => by
    obtain ⟨role, hrole, hin⟩ := h.role hne
    exact ⟨role, hrole, mem_sortedTexts.2 hin⟩
  scopes := fun scope hs =>
    ⟨mem_sortedTexts.2 (h.scopes.current hd scope hs), mem_sortedTexts.2 (h.scopes.token hd scope hs)⟩
  obligations := h.scopes.obligations hd
  inTime := fun t ht => by
    have hcur := h.current hs
    rw [windowElapsed, ht] at hcur
    exact Nat.lt_of_not_le (of_decide_eq_false hcur)

/-- The snapshots of the decision row are true. -/
theorem truthful (h : Guarded P τ b duty k command a base row roles scopes) :
    Truthful τ.ghost b.2 command a (decisionRow command a row.evaluation roles scopes b.2) where
  actor := ⟨rfl, h.tenant_eq⟩
  digest := h.digest.symm
  decidedAt := rfl
  roles := by
    obtain ⟨σ, hσ, now, hnow, hroles⟩ := h.roles
    refine ⟨σ, hσ, now, hnow, fun role hr => ?_⟩
    rw [← h.tenant_eq]
    exact hroles role (mem_sortedTexts.1 hr)
  scopes := fun hd => by
    obtain ⟨σ, hσ, now, hnow, hscopes⟩ := h.scopes.source hd
    refine ⟨σ, hσ, now, hnow, fun scope hs => ?_⟩
    rw [← h.tenant_eq]
    exact hscopes scope (mem_sortedTexts.1 hs)
  token := fun scope hs => mem_sortedTexts.1 hs

/-- The duties of a decision's commit. -/
theorem entitled (h : Guarded P τ b duty k command a base row roles scopes) {τ' : Know}
    {es : List StateTransition} (hes : es ≠ []) (hno : ∀ t ∈ es, t.toState ≠ .executing)
    (hs : a.state ≠ .revalidating) (hg : Grows τ τ') :
    Entitled rt τ' b.2 duty k base es
      [decisionRow command a row.evaluation roles scopes b.2] where
  command := fun c hc => by
    rw [h.duty.1, Option.some.injEq] at hc
    subst hc
    exact ⟨h.key, hes, a, h.valid.core.intent, h.version⟩
  owned := fun a₀ ha₀ hs₀ => by
    rw [h.valid.core.intent, Option.some.injEq] at ha₀
    subst ha₀
    exact absurd hs₀ hs
  permit := fun p hp => by rw [h.duty.2] at hp; cases hp
  executing := fun ⟨t, ht, hte⟩ => absurd hte (hno t ht)
  decided := fun d hd => by
    rw [List.mem_singleton] at hd
    subst hd
    exact ⟨command, a, h.duty.1, h.valid.core.intent, h.truthful.mono hg.reads hg.clocks⟩

end Guarded

/-- The evidence behind the approval that completes the decisions. -/
theorem approved_of_resolved {command : ApprovalDecisionCommand} {a : ActionIntent}
    {base : Revision} {row : PolicyEvaluationRow} {roles scopes : List String}
    (h : Guarded P τ b duty k command a base row roles scopes)
    (hres : Resolved command a.state row.evaluation.route base.decisions .approved) :
    Approved a.approvalExpiresAt row.evaluation
      (base.decisions ++ [decisionRow command a row.evaluation roles scopes b.2]) := by
  generalize htarget : IntentState.approved = target at hres
  cases hres with
  | reject => cases htarget
  | first => cases htarget
  | single hd hs hl hr =>
      have hgr := h.granted hd (by rw [hs]; decide)
      rw [hl] at hgr
      rw [Approved, if_neg hr, h.valid.evidence.waiting hs]
      exact ⟨_, rfl, hgr⟩
  | second hd hs hl hr hne =>
      have hgr := h.granted hd (by rw [hs]; decide)
      rw [hl] at hgr
      obtain ⟨row', hrow', hroute, d₁, hd₁, hgr₁⟩ := h.valid.evidence.halfway hs
      rw [h.policy, List.cons.injEq] at hrow'
      rw [← hrow'.1] at hgr₁
      rw [Approved, if_pos hr, hd₁]
      exact ⟨d₁, _, rfl, hgr₁, hgr, hne d₁ hd₁ hgr₁.level_eq hgr₁.approve⟩

theorem resolved_state {command : ApprovalDecisionCommand} {s target : IntentState}
    {route : ApprovalRoute} {decisions : List ApprovalDecisionRow}
    (h : Resolved command s route decisions target) : s ≠ .revalidating ∧ target ≠ .executing := by
  cases h with
  | reject hd hlegal =>
      refine ⟨?_, by decide⟩
      rintro rfl
      cases hlegal
  | single hd hs => subst hs; decide
  | first hd hs => subst hs; decide
  | second hd hs => subst hs; decide

/-- The rows of a guarded decision may be committed. -/
theorem lwp_writeDecision {command : ApprovalDecisionCommand} {a : ActionIntent}
    {base : Revision} {row : PolicyEvaluationRow} {roles scopes : List String}
    {target : IntentState} (hg : Guarded P τ b duty k command a base row roles scopes)
    (hres : Resolved command a.state row.evaluation.route base.decisions target)
    {Q : Except Error IntentSnapshot → Know → Prop} (hQ : Accepts rt P Q) :
    lwp rt P (writeDecision command a row.evaluation roles scopes target b.2) Q τ := by
  set d := decisionRow command a row.evaluation roles scopes b.2 with hdef
  have hdigest : d.intentDigest = a.intentDigest := hg.digest.symm
  have hcore : Core k a (Evidence.withDecision base d) :=
    hg.valid.core.of_eq hg.valid.core.intent rfl rfl rfl rfl rfl
  obtain ⟨hsreval, htexec⟩ := resolved_state hres
  have hident : ∀ a₀, base.intent = some a₀ → SameIdentity a₀ a := fun a₀ ha₀ => by
    rw [hg.valid.core.intent, Option.some.injEq] at ha₀
    exact ha₀ ▸ .refl a
  set cause : Cause := ⟨"human", command.actor.actorId, command.commandId,
    "approval_" ++ command.decision.lowered⟩ with hcause
  unfold writeDecision Commands.recordTransition
  rw [lwp, Contract.wp_bind]
  refine lwp_insertDecision hg.key hg.txn hQ.benign fun τ₁ hT₁ hg₁ => ?_
  rw [Contract.andThen_ok, Contract.wp_bind]
  refine lwp_appendTransition hT₁ hcore (fun n => announces_command hcore.key) hQ.benign
    fun n τ₂ _ hn hcore₂ hT₂ hg₂ => ?_
  have hgrow := hg₁.trans hg₂
  rw [Contract.andThen_ok, Contract.wp_ite]
  split
  · -- The first of two approvals: a second row leads to the second waiting state.
    next hfirst =>
      obtain ⟨hd, rfl⟩ := hfirst
      have hfacts : a.state = .pendingApproval1 ∧ command.level = 1 ∧
          row.evaluation.route = .criticalTwoStep := by
        generalize htarget : IntentState.approvedByLevel1 = target at hres
        cases hres with
        | first hd hs hl hr => exact ⟨hs, hl, hr⟩
        | reject => cases htarget
        | single => cases htarget
        | second => cases htarget
      obtain ⟨hs, hl, hr⟩ := hfacts
      have hgr := hg.granted hd (by rw [hs]; decide)
      rw [hl] at hgr
      have hhalf : HalfApproved a.approvalExpiresAt row.evaluation (base.decisions ++ [d]) := by
        rw [hg.valid.evidence.waiting hs]
        exact ⟨hr, d, rfl, hgr⟩
      rw [Contract.wp_bind]
      refine lwp_appendTransition hT₂ hcore₂ (fun n' => announces_command hcore₂.key) hQ.benign
        fun n' τ₃ _ _ hcore₃ hT₃ hg₃ => ?_
      refine hQ.ok _ _ (hT₃.commitOk ⟨hcore₃, hg.valid.evidence.half hg.valid.core.chain hs hg.policy
        hdigest hg.requester hhalf rfl rfl⟩ ⟨?_, rfl, fun a₀ ha₀ => ?_⟩
        (hg.entitled ?_ ?_ hsreval (hgrow.trans hg₃)))
      · exact List.append_assoc _ _ _
      · exact ((hident a₀ ha₀).trans (sameIdentity_moved _ _)).trans (sameIdentity_moved _ _)
      · exact List.cons_ne_nil _ _
      · intro t ht hte
        simp only [List.nil_append, List.cons_append, List.mem_cons, List.not_mem_nil,
          or_false] at ht
        rcases ht with rfl | rfl
        · cases hte
        · cases hte
  · next hother =>
      refine hQ.ok _ _ (hT₂.commitOk ⟨hcore₂, ?_⟩ ⟨rfl, rfl, fun a₀ ha₀ => ?_⟩
        (hg.entitled ?_ ?_ hsreval hgrow))
      · cases hres with
        | reject hd hl =>
            exact hg.valid.evidence.reject hg.valid.core.chain hl hdigest hg.requester rfl
        | single hd hs hl hr =>
            exact hg.valid.evidence.approve hg.policy hdigest hg.requester
              (hg.valid.evidence.asked (Or.inl hs))
              (approved_of_resolved hg (.single hd hs hl hr)) rfl
        | first hd hs hl hr => exact absurd ⟨hd, rfl⟩ hother
        | second hd hs hl hr hne =>
            exact hg.valid.evidence.approve hg.policy hdigest hg.requester
              (hg.valid.evidence.asked (Or.inr (Or.inl hs)))
              (approved_of_resolved hg (.second hd hs hl hr hne)) rfl
      · exact (hident a₀ ha₀).trans (sameIdentity_moved _ _)
      · exact List.cons_ne_nil _ _
      · intro t ht hte
        rw [List.nil_append, List.mem_singleton] at ht
        subst ht
        exact htexec hte

/-- The part of `decide` behind the window check. -/
theorem lwp_decideCurrent {command : ApprovalDecisionCommand} {a : ActionIntent}
    {base : Revision} (hT : Txn τ b duty k base base [] []) (hv : Valid P k a base)
    (hkey : command.key = k) (htenant : command.tenantId = command.actor.tenantId)
    (hversion : a.stateVersion = command.expectedStateVersion)
    (hdigest : a.intentDigest = command.intentDigest)
    (hcurrent : a.state ∈ expirableStates → windowElapsed a b.2 = false)
    (hduty : duty.command = some (.decide command) ∧ duty.permit = none)
    {Q : Except Error IntentSnapshot → Know → Prop} (hQ : Accepts rt P Q) :
    lwp rt P (decideCurrent command a b.2) Q τ := by
  unfold decideCurrent
  rw [lwp, Contract.wp_bind]
  refine lwp_query fun σ τ₁ hr₁ _ hview => ?_
  have hpol : σ.policiesOf command.key = base.policies := by
    rw [hkey, ← (hview.1 k base base hT.held : revision σ k = base)]
    rfl
  rw [Contract.andThen_ok, hpol, Contract.wp_bind]
  refine lwp_scalarOne hQ.benign fun row hrow => ?_
  rw [Contract.andThen_ok, Contract.wp_bind]
  refine lwp_currentRoles fun σ₂ now τ₂ hr₂ hσ₂ hnow => ?_
  rw [Contract.andThen_ok, Contract.wp_bind]
  refine lwp_enforceRole hQ.benign fun hrole => ?_
  rw [Contract.andThen_ok, Contract.wp_bind]
  refine lwp_approverScopes hQ.benign fun scopes τ₃ hr₃ hscoped => ?_
  rw [Contract.andThen_ok, Contract.wp_bind]
  refine lwp_raiseIf rfl hQ.benign fun hrequester => ?_
  -- Each guard that has passed is a part of what the decision rests on.
  have hg : Guarded P τ₃ b duty k command a base row
      (evaluateCurrentRoles (σ₂.loadAssignments command.actor.tenantId command.actor.actorId) now
        a.environment) scopes :=
    { txn := hT.reads ((hr₁.trans hr₂).trans hr₃)
      valid := hv
      key := hkey
      tenant := htenant
      version := hversion
      digest := hdigest
      current := hcurrent
      policy := hrow
      role := hrole
      roles := ⟨σ₂, hr₃.reads σ₂ hσ₂, now, hr₃.clocks now hnow, fun role hr => hr⟩
      scopes := hscoped
      requester := fun hd heq => hrequester ⟨hd, heq⟩
      duty := hduty }
  rw [Contract.andThen_ok, Contract.wp_bind]
  refine lwp_resolveTarget hg.txn hv.core.key hQ.benign fun target τ₄ hr₄ hres => ?_
  exact lwp_writeDecision (hg.reads hr₄) hres hQ

/-- The first step of both commands: a lock that must be granted at once. -/
theorem lwp_loadLockedIntent (hF : Free τ duty)
    {Q : Except Error (ActionIntent × Time) → Know → Prop} (hQ : Safe Q)
    (h : ∀ σ b a τ', Locked P τ τ' duty k σ b a → Q (.ok (a, b.2)) τ') :
    lwp rt P (loadLockedIntent k) Q τ := by
  unfold loadLockedIntent
  rw [lwp, Contract.wp_bind]
  refine lwp_lockIntentNowait hF (fun τ' _ _ => hQ _ _ rfl) (fun t τ' _ _ => hQ _ _ rfl)
    fun σ b a τ' hl => h σ b a τ' hl

variable (rt P) in
theorem free_marked (m : Mark) (hF : Free τ duty) :
    Free ((contract rt P).noted τ (.did (.mark m) ())) (τ.ghost.marked m).duty := by
  cases m with
  | decide c => exact ⟨hF.held, rfl, hF.entered, hF.decided⟩
  | cancel c => exact ⟨hF.held, rfl, hF.entered, hF.decided⟩
  | claim key bundle => exact ⟨hF.held, rfl, hF.entered, hF.decided⟩
  | permit p => exact ⟨hF.held, rfl, hF.entered, hF.decided⟩

/-- `decide` may commit its decision, and its expiry transition too. -/
theorem lwp_decide {command : ApprovalDecisionCommand} (hF : Free τ duty) (hd : duty.Idle)
    {Q : Except Error IntentSnapshot → Know → Prop} (hQ : Accepts rt P Q) :
    lwp rt P (Application.decide command) Q τ := by
  unfold Application.decide
  rw [lwp, Contract.wp_bind, Contract.wp_mark, Contract.andThen_ok, Contract.wp_bind]
  have hF₁ := free_marked rt P (.decide command) hF
  set duty₁ := (τ.ghost.marked (.decide command)).duty with hduty₁
  have hduty : duty₁.command = some (.decide command) ∧ duty₁.permit = none := by
    refine ⟨rfl, ?_⟩
    show τ.ghost.duty.permit = none
    rw [hF.duty]
    exact hd.permit
  refine lwp_raiseIf rfl hQ.benign fun htenant => ?_
  rw [Decidable.not_not] at htenant
  rw [Contract.andThen_ok, Contract.wp_bind]
  refine lwp_loadLockedIntent hF₁ hQ.benign fun σ b a τ₁ hl => ?_
  rw [Contract.andThen_ok]
  show (contract rt P).wp (_ >>= _) Q τ₁
  rw [Contract.wp_bind]
  refine lwp_raiseIf rfl hQ.benign fun hversion => ?_
  rw [Decidable.not_not] at hversion
  rw [Contract.andThen_ok, Contract.wp_bind]
  refine lwp_raiseIf rfl hQ.benign fun hdigest => ?_
  rw [Decidable.not_not] at hdigest
  rw [Contract.andThen_ok, Contract.wp_ite]
  -- The expiry is one plain move, which may be committed although the command fails.
  split
  · next hexpired =>
      unfold Commands.recordTransition
      rw [Contract.wp_bind]
      refine lwp_appendTransition hl.txn hl.valid.core
        (fun n => announces_command hl.valid.core.key) hQ.benign
        fun n τ₂ hlegal hn _ hT₂ hg₂ => ?_
      refine hQ.error _ _ (hT₂.commitOk_move hl.valid (by decide) hlegal rfl
        (announces_command hl.valid.core.key) hn (fun c hc => ?_) (fun hs => ?_) (fun p hp => ?_)
        fun h => by cases h)
      · rw [hduty.1, Option.some.injEq] at hc
        subst hc
        exact ⟨rfl, hversion⟩
      · rw [hs] at hexpired
        exact absurd hexpired.1 (by decide)
      · rw [hduty.2] at hp
        cases hp
  · next hcurrent =>
      refine lwp_decideCurrent hl.txn hl.valid rfl htenant hversion hdigest (fun hs => ?_) hduty hQ
      rw [← Bool.not_eq_true]
      exact fun helapsed => hcurrent ⟨hs, helapsed⟩

theorem enforceCanceller_aside (command : CancelIntentCommand) (a : ActionIntent) :
    (enforceCanceller command a).Uses Aside Benign := by
  unfold enforceCanceller currentRoles loadAssignments
  refine Prog.uses_ite (fun _ => ?_) fun _ => trivial
  refine ((Prog.uses_query trivial).bind fun l => (Prog.uses_draw trivial).bind fun t => ?_).bind
    fun roles => Prog.uses_raiseIf rfl
  exact trivial

/-- `cancel` may commit. -/
theorem lwp_cancel {command : CancelIntentCommand} (hF : Free τ duty) (hd : duty.Idle)
    {Q : Except Error IntentSnapshot → Know → Prop} (hQ : Accepts rt P Q) :
    lwp rt P (cancel command) Q τ := by
  unfold cancel
  rw [lwp, Contract.wp_bind, Contract.wp_mark, Contract.andThen_ok, Contract.wp_bind]
  have hF₁ := free_marked rt P (.cancel command) hF
  set duty₁ := (τ.ghost.marked (.cancel command)).duty with hduty₁
  have hpermit : duty₁.permit = none := by
    show τ.ghost.duty.permit = none
    rw [hF.duty]
    exact hd.permit
  refine lwp_raiseIf rfl hQ.benign fun _ => ?_
  rw [Contract.andThen_ok, Contract.wp_bind]
  refine lwp_loadLockedIntent hF₁ hQ.benign fun σ b a τ₁ hl => ?_
  rw [Contract.andThen_ok]
  show (contract rt P).wp (_ >>= _) Q τ₁
  rw [Contract.wp_bind]
  refine lwp_raiseIf rfl hQ.benign fun hversion => ?_
  rw [Decidable.not_not] at hversion
  rw [Contract.andThen_ok, Contract.wp_bind]
  refine lwp_raiseIf rfl hQ.benign fun hstate => ?_
  rw [Decidable.not_not] at hstate
  rw [Contract.andThen_ok, Contract.wp_bind]
  refine lwp_aside (enforceCanceller_aside command a) fun r τ₂ hr₂ hx => ?_
  cases r with
  | error x => exact hQ.benign x τ₂ (hx x rfl)
  | ok _ =>
      unfold Commands.recordTransition
      rw [Contract.andThen_ok, Contract.wp_bind]
      refine lwp_appendTransition (hl.txn.reads hr₂) hl.valid.core
        (fun n => announces_command hl.valid.core.key) hQ.benign
        fun n τ₃ hlegal hn _ hT₃ _ => ?_
      refine hQ.ok _ _ (hT₃.commitOk_move hl.valid (by decide) hlegal rfl
        (announces_command hl.valid.core.key) hn (fun c hc => ?_) (fun hs => ?_) (fun p hp => ?_)
        fun h => by cases h)
      · have hcmd : duty₁.command = some (.cancel command) := rfl
        rw [hcmd, Option.some.injEq] at hc
        subst hc
        exact ⟨rfl, hversion⟩
      · rw [hs] at hstate
        exact absurd hstate (by decide)
      · rw [hpermit] at hp
        cases hp

end Rules

end HitlOps.Lifecycle
