import HitlOps.Lifecycle.Provenance
import HitlOps.Properties.Approval

/-!
# What a permit rests on

The transaction that commits a permit has checked the approvers, the window and the policy at its own
time. The policy check uses the bundle that the claim was given, so a bundle that was activated in
the meantime counts only when it is that bundle.
-/

set_option autoImplicit false

namespace HitlOps.Properties

open HitlOps.Python HitlOps.Domain HitlOps.Infrastructure HitlOps.Application
open HitlOps.Transaction HitlOps.Lifecycle

/-! ## Critical permits -/

/-- An assignment that counts at a time for an environment. -/
structure InForce (g : RoleAssignment) (at_ : Time) (environment : Option Json) : Prop where
  unrevoked : g.revokedAt = none
  begun : g.validFrom ≤ at_
  unexpired : ∀ t, g.validUntil = some t → at_ < t
  covers : g.environments = [] ∨ ∃ name ∈ g.environments, environment = some (.str name)

theorem inForce_of_isCurrent {g : RoleAssignment} {at_ : Time} {environment : Option Json}
    (h : g.isCurrent at_ environment = true) : InForce g at_ environment := by
  unfold RoleAssignment.isCurrent at h
  rw [Bool.and_eq_true, Bool.and_eq_true, Bool.and_eq_true, Option.isNone_iff_eq_none,
    decide_eq_true_eq, Option.all_eq_true, Bool.or_eq_true, List.isEmpty_iff] at h
  obtain ⟨⟨⟨hrevoked, hfrom⟩, huntil⟩, henv⟩ := h
  refine ⟨hrevoked, hfrom, fun t ht => of_decide_eq_true (huntil t ht), ?_⟩
  rcases henv with hempty | hin
  · exact Or.inl hempty
  · unfold inEnvironments at hin
    split at hin
    · next name => exact Or.inr ⟨name, List.contains_iff_mem.1 hin, rfl⟩
    · cases hin

/-- The approver of `d` is not the requester and holds the role and every required scope at `dbNow`,
in the assignments that the transaction of `e` was shown. -/
structure StillApproves (e : Entry) (a : ActionIntent) (p : PolicyEvaluation) (dbNow : Time)
    (level : Nat) (d : ApprovalDecisionRow) : Prop where
  approve : d.decision = .approve
  atLevel : d.level = level
  notRequester : d.actorId ≠ a.requesterId
  authority : ∃ role, p.requiredRoles[level - 1]? = some role ∧ ∃ σ ∈ openReads e.history,
    (∃ g ∈ σ.loadAssignments a.key.tenantId d.actorId,
      InForce g dbNow a.environment ∧ g.role = role) ∧
    ∀ scope ∈ p.requiredScopes, ∃ g ∈ σ.loadAssignments a.key.tenantId d.actorId,
      InForce g dbNow a.environment ∧ scope ∈ g.scopes

/-- What a permit on a critical route rests on. -/
structure CriticalPermit (rt : Runtime) (e : Entry) (k : RevisionKey) (a : ActionIntent)
    (p : PolicyEvaluation) (dbNow : Time) : Prop where
  approvers : ∃ d₁ ∈ e.db.decisionsOf k, ∃ d₂ ∈ e.db.decisionsOf k, d₁.actorId ≠ d₂.actorId ∧
    StillApproves e a p dbNow 1 d₁ ∧ StillApproves e a p dbNow 2 d₂
  window : ∃ expires, a.approvalExpiresAt = some expires ∧ dbNow < expires
  policy : ∃ bundle, givenClaim e.history = some (k, bundle) ∧ PolicyLets rt a p bundle

theorem stillApproves {e : Entry} {a : ActionIntent} {p : PolicyEvaluation} {dbNow : Time}
    {level : Nat} {d : ApprovalDecisionRow} {role : String} (happrove : d.decision = .approve)
    (hlevel : d.level = level) (hne : d.actorId ≠ a.requesterId)
    (hrole : p.requiredRoles[level - 1]? = some role) {σ : Store} (hσ : σ ∈ openReads e.history)
    (hholds : HoldsNow σ a.key.tenantId d.actorId role p.requiredScopes dbNow a.environment) :
    StillApproves e a p dbNow level d := by
  refine ⟨happrove, hlevel, hne, role, hrole, σ, hσ, ?_, fun scope hscope => ?_⟩
  · obtain ⟨g, hg, hcurrent, hr⟩ := mem_evaluateCurrentRoles.1 hholds.role
    exact ⟨g, hg, inForce_of_isCurrent hcurrent, hr⟩
  · obtain ⟨g, hg, hcurrent, hs⟩ := mem_evaluateCurrentScopes.1 (hholds.scopes scope hscope)
    exact ⟨g, hg, inForce_of_isCurrent hcurrent, hs⟩

/-- Whenever a permit commits on a critical route, both approvers still approve at `dbNow`. -/
theorem critical_permit_is_current {rt : Runtime} {s : State}
    (h : Run rt (RecordsEvaluations rt) s) :
    ∀ e ∈ s.trace, ∀ k a, IssuesPermit e k a → ∀ row ∈ e.db.policiesOf k,
      row.evaluation.route = .criticalTwoStep →
        ∃ b, e.session.begun = some b ∧ CriticalPermit rt e k a row.evaluation b.2 := by
  intro e he k a hissues row hrow hroute
  have hrec := recorded_of_run covers_sound admits_of_recordsEvaluations h e he
  have hvalid := (hrec.rows k).valid (show (revision e.db k).intent = some a from
    hissues.revalidating.1)
  obtain ⟨b, hb, hauthorized⟩ := authorized_of_issues hrec hissues
  obtain ⟨a', row', bundle, ha', hrows, hclaim, hwindow, hcritical, hpolicy⟩ :=
    hauthorized.evidence
  have haa : a' = a := Option.some.inj (ha'.symm.trans hissues.revalidating.1)
  subst haa
  have hrr : row = row' := by
    rw [show e.db.policiesOf k = [row'] from hrows] at hrow
    exact List.mem_singleton.1 hrow
  subst hrr
  refine ⟨b, hb, ?_, ?_, bundle, by rw [givenClaim_eq]; exact hclaim, hpolicy⟩
  · obtain ⟨d₁, hd₁, d₂, hd₂, role₁, role₂, rest, happ₁, hlev₁, happ₂, hlev₂, hne, hroles,
      ⟨σ₁, hσ₁, hholds₁⟩, σ₂, hσ₂, hholds₂⟩ := hcritical hroute
    rw [← openReads_eq] at hσ₁ hσ₂
    have hrole₁ : row.evaluation.requiredRoles[1 - 1]? = some role₁ := by rw [hroles]; rfl
    have hrole₂ : row.evaluation.requiredRoles[2 - 1]? = some role₂ := by rw [hroles]; rfl
    exact ⟨d₁, hd₁, d₂, hd₂, hne,
      stillApproves happ₁ hlev₁ (hvalid.evidence.distinct d₁ hd₁ happ₁) hrole₁ hσ₁ hholds₁,
      stillApproves happ₂ hlev₂ (hvalid.evidence.distinct d₂ hd₂ happ₂) hrole₂ hσ₂ hholds₂⟩
  · -- A critical route comes with an approval, and an approval comes with a window.
    have hsound := hvalid.evidence.policies row hrow
    have hasked : row.evaluation.disposition = .requireApproval := by
      by_contra hother
      rw [hsound.unrouted hother] at hroute
      cases hroute
    obtain ⟨expires, hexp⟩ := Option.isSome_iff_exists.1
      (hvalid.evidence.window row hrow (hsound.ttl hasked))
    exact ⟨expires, hexp, hwindow expires hexp⟩

/-- The intent that the event moves from `REVALIDATING` to `EXECUTING`. -/
def permitOf (k : RevisionKey) (e : Entry) : Option ActionIntent :=
  match e.act, e.db.intent? k, e.after.intent? k with
  | .commit, some a, some a' =>
      if a.state = .revalidating ∧ a'.state = .executing then some a else none
  | _, _, _ => none

theorem permitOf_eq_some_iff {k : RevisionKey} {e : Entry} {a : ActionIntent} :
    permitOf k e = some a ↔ IssuesPermit e k a := by
  unfold permitOf
  constructor
  · intro h
    split at h
    · next b b' hact hb hb' =>
        split at h
        · next hstates =>
            cases h
            exact ⟨hact, ⟨hb, hstates.1⟩, b', hb', hstates.2⟩
        · cases h
    · cases h
  · rintro ⟨hact, ⟨hb, hstate⟩, b', hb', hstate'⟩
    simp only [hact, hb, hb', hstate, hstate', and_self, if_true]

set_option maxRecDepth 100000 in
/-- The permit of the deletion, on its critical route. -/
theorem deletion_permit : ∃ e ∈ (Scenario.after Scenario.deletion).trace, ∃ a,
    IssuesPermit e Scenario.key a ∧
      ∃ row ∈ e.db.policiesOf Scenario.key, row.evaluation.route = .criticalTwoStep := by
  have h : (Scenario.after Scenario.deletion).trace.any (fun e =>
      (permitOf Scenario.key e).isSome && (e.db.policiesOf Scenario.key).any fun row : PolicyEvaluationRow =>
        decide (row.evaluation.route = .criticalTwoStep)) = true := by
    decide +kernel
  obtain ⟨e, he, hcheck⟩ := List.any_eq_true.1 h
  rw [Bool.and_eq_true, Option.isSome_iff_exists, List.any_eq_true] at hcheck
  obtain ⟨⟨a, ha⟩, row, hrow, hroute⟩ := hcheck
  exact ⟨e, he, a, permitOf_eq_some_iff.1 ha, row, hrow, of_decide_eq_true hroute⟩

theorem critical_permit_is_current_deletion :
    ∃ e ∈ (Scenario.after Scenario.deletion).trace, ∃ (a : ActionIntent)
      (row : PolicyEvaluationRow) (b : Store × Instant), IssuesPermit e Scenario.key a ∧ e.session.begun = some b ∧
        CriticalPermit Scenario.runtime e Scenario.key a row.evaluation b.2 := by
  obtain ⟨e, he, a, hissues, row, hrow, hroute⟩ := deletion_permit
  obtain ⟨b, hb, hpermit⟩ := critical_permit_is_current (Scenario.run_after _ _ deletion_records) e he
    Scenario.key a hissues row hrow hroute
  exact ⟨e, he, a, row, b, hissues, hb, hpermit⟩

/-! ## Activations in between -/

/-- The bundle that is active when the transaction of `e` begins lets the intent pass. -/
def RespectsActive (rt : Runtime) (e : Entry) (k : RevisionKey) (a : ActionIntent) : Prop :=
  ∃ b, e.session.begun = some b ∧ ∀ active ∈ b.1.activeBundles k.tenantId,
    ∀ row ∈ e.db.policiesOf k, PolicyLets rt a row.evaluation ⟨active.version, active.rules⟩

/-- The bundle that is active when the transaction of `e` begins is the one that the claim was
given. -/
def GivenActive (e : Entry) (k : RevisionKey) : Prop :=
  ∀ b, e.session.begun = some b → ∀ active ∈ b.1.activeBundles k.tenantId,
    givenClaim e.history = some (k, ⟨active.version, active.rules⟩)

/-- In a run whose claims were all given the bundle that is active when their last transaction
begins, every permit respects the active bundle. -/
theorem permit_respects_active_bundle {rt : Runtime} {s : State} (h : Run rt (fun _ => True) s)
    (hgiven : ∀ e ∈ s.trace, ∀ k a, IssuesPermit e k a → GivenActive e k) :
    ∀ e ∈ s.trace, ∀ k a, IssuesPermit e k a → RespectsActive rt e k a := by
  intro e he k a hissues
  have hrec := recorded_of_run covers_any (fun op _ => admits_any op) h e he
  obtain ⟨b, hb, hauthorized⟩ := authorized_of_issues hrec hissues
  obtain ⟨a', row', bundle, ha', hrows, hclaim, -, -, hpolicy⟩ := hauthorized.evidence
  have haa : a' = a := Option.some.inj (ha'.symm.trans hissues.revalidating.1)
  subst haa
  refine ⟨b, hb, fun active hactive row hrow => ?_⟩
  have hrr : row = row' := by
    rw [show e.db.policiesOf k = [row'] from hrows] at hrow
    exact List.mem_singleton.1 hrow
  subst hrr
  have hbundle := hgiven e he k a' hissues b hb active hactive
  rw [givenClaim_eq, hclaim, Option.some.injEq, Prod.mk.injEq] at hbundle
  rw [← hbundle.2]
  exact hpolicy

/-- The claim of the event was given the active bundle, and the event knows no other revision. -/
def givenActive (e : Entry) : Bool :=
  e.db.intents.all (fun a => decide (a.key = Scenario.key)) &&
    ((permitOf Scenario.key e).isNone || e.session.begun.all fun b =>
      (b.1.activeBundles Scenario.key.tenantId).all fun active =>
        decide (givenClaim e.history = some (Scenario.key, ⟨active.version, active.rules⟩)))

theorem givenActive_sound {e : Entry} (h : givenActive e = true) :
    ∀ k a, IssuesPermit e k a → GivenActive e k := by
  intro k a hissues b hb active hactive
  unfold givenActive at h
  rw [Bool.and_eq_true, List.all_eq_true, Bool.or_eq_true] at h
  obtain ⟨hkeys, hgiven⟩ := h
  have hfound := hissues.revalidating.1
  have hmem := List.mem_of_find?_eq_some hfound
  have hkey : a.key = k := by
    have hfind := List.find?_some hfound
    exact of_decide_eq_true hfind
  have hk : k = Scenario.key := hkey.symm.trans (of_decide_eq_true (hkeys a hmem))
  subst hk
  rcases hgiven with hnone | hall
  · rw [permitOf_eq_some_iff.2 hissues] at hnone
    cases hnone
  · rw [Option.all_eq_true] at hall
    have hb' := hall b hb
    rw [List.all_eq_true] at hb'
    exact of_decide_eq_true (hb' active hactive)

set_option maxRecDepth 100000 in
theorem permit_respects_active_bundle_deletion :
    ∃ e ∈ (Scenario.after Scenario.deletion).trace, ∃ a, IssuesPermit e Scenario.key a ∧
      RespectsActive Scenario.runtime e Scenario.key a := by
  have hcheck : (Scenario.after Scenario.deletion).trace.all givenActive = true := by
    decide +kernel
  have hgiven : ∀ e ∈ (Scenario.after Scenario.deletion).trace, ∀ k a, IssuesPermit e k a →
      GivenActive e k :=
    fun e he => givenActive_sound (List.all_eq_true.1 hcheck e he)
  obtain ⟨e, he, a, hissues, -⟩ := deletion_permit
  exact ⟨e, he, a, hissues, permit_respects_active_bundle
    (Scenario.run_after (fun _ => True) _ fun _ _ => trivial) hgiven e he _ a hissues⟩

/-! ## An activation that comes too late -/

/-- A bundle without rules, which blocks every tool. -/
def emptyBundle : PolicyBundleRow := ⟨Scenario.intentId, "acme", "policy-2", [], false⟩

/-- The administrator activates the empty bundle. -/
def activation : Op :=
  .route ⟨⟨"root", "acme", "corr", [], by decide, by decide⟩, "activate-policy-2", "corr"⟩
    (.activatePolicyBundle "policy-2" ⟨"stop", by decide⟩)

/-- The approvers and an administrator, with the seed bundle active. -/
def contestedStore : Store :=
  initialStore (Scenario.assignment "root" "administrator" :: Scenario.approvers)
    [Scenario.seedBundle, emptyBundle]

/-- The worker waits for the target while the empty bundle is activated. -/
def contested : List (Move Db Op) :=
  Scenario.complete 0 (.create (Scenario.creation .deleteResource))
    ++ Scenario.complete 1 (Scenario.recording .deleteResource)
    ++ Scenario.complete 2 (.decide (Scenario.approval .deleteResource "alice" Scenario.alice_ne 1 4))
    ++ Scenario.complete 3 (.decide (Scenario.approval .deleteResource "bob" Scenario.bob_ne 2 6))
    ++ [.spawn .workerTick, .go 4 22 Scenario.environment]
    ++ Scenario.complete 5 activation
    ++ [.go 4 20 Scenario.environment]

def contestedState : State :=
  Sys.play (code Scenario.runtime) (Sys.initial contestedStore) contested

theorem run_contested : Run Scenario.runtime (fun _ => True) contestedState :=
  .of _ _ (Sys.reachable_play .initial contested fun _ _ => trivial)

/-- The permit that the worker commits after the activation. -/
def permitsAgainst (e : Entry) : Bool :=
  (permitOf Scenario.key e).isSome && decide (e.db.policiesOf Scenario.key ≠ []) &&
    e.session.begun.all fun b =>
      decide ({ emptyBundle with isActive := true } ∈ b.1.activeBundles Scenario.key.tenantId)

/-- Nothing is let through under the empty bundle. -/
theorem not_policyLets_empty (rt : Runtime) (a : ActionIntent) (stored : PolicyEvaluation) :
    ¬ PolicyLets rt a stored ⟨"policy-2", []⟩ := by
  rintro ⟨current, heval, hne, -⟩
  cases heval
  exact hne rfl

set_option maxRecDepth 100000 in
/-- The worker's permit does not respect the bundle that was activated during its fetch. -/
theorem permit_ignores_activation :
    ¬ ∀ s, Run Scenario.runtime (fun _ => True) s →
      ∀ e ∈ s.trace, ∀ k a, IssuesPermit e k a → RespectsActive Scenario.runtime e k a := by
  intro h
  have hcheck : contestedState.trace.any permitsAgainst = true := by decide +kernel
  obtain ⟨e, he, hpermits⟩ := List.any_eq_true.1 hcheck
  unfold permitsAgainst at hpermits
  rw [Bool.and_eq_true, Bool.and_eq_true, Option.isSome_iff_exists, decide_eq_true_eq,
    Option.all_eq_true] at hpermits
  obtain ⟨⟨⟨a, ha⟩, hpolicies⟩, hactive⟩ := hpermits
  obtain ⟨b, hb, hrespects⟩ := h _ run_contested e he Scenario.key a (permitOf_eq_some_iff.1 ha)
  obtain ⟨row, hrow⟩ := List.exists_mem_of_ne_nil _ hpolicies
  exact not_policyLets_empty _ _ _ (hrespects _ (of_decide_eq_true (hactive b hb)) row hrow)

end HitlOps.Properties
