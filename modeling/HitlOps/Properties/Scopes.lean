import HitlOps.Properties.Claim

/-!
# The scopes behind an execution

An approver of a revision that enters `EXECUTING` holds every required scope at that time, on both
routes that ask for approval. A revision that was allowed at once can run although its requester holds
no scope.
-/

set_option autoImplicit false

namespace HitlOps.Properties

open HitlOps.Python HitlOps.Domain HitlOps.Infrastructure HitlOps.Application
open HitlOps.Transaction HitlOps.Lifecycle

/-- The principal holds every scope that `p` asks for, by assignments that count at `at_` for the
environment of the intent, in a store that the transaction of `e` was shown. -/
def HoldsScopes (e : Entry) (a : ActionIntent) (p : PolicyEvaluation) (at_ : Time)
    (principalId : String) : Prop :=
  ∃ σ ∈ openReads e.history, ∀ scope ∈ p.requiredScopes,
    ∃ g ∈ σ.loadAssignments a.key.tenantId principalId,
      InForce g at_ a.environment ∧ scope ∈ g.scopes

/-- The person on whose authority the intent runs holds the scopes: the requester without an
approval, an approver of a single step, the two approvers of a critical route. -/
def ScopesHeld (e : Entry) (k : RevisionKey) (a : ActionIntent) (p : PolicyEvaluation) (at_ : Time) :
    Prop :=
  match p.route with
  | .none => HoldsScopes e a p at_ a.requesterId
  | .single => ∃ d ∈ e.db.decisionsOf k, d.decision = .approve ∧ HoldsScopes e a p at_ d.actorId
  | .criticalTwoStep =>
      ∃ d₁ ∈ e.db.decisionsOf k, ∃ d₂ ∈ e.db.decisionsOf k,
        d₁.decision = .approve ∧ d₁.level = 1 ∧ d₂.decision = .approve ∧ d₂.level = 2 ∧
          d₁.actorId ≠ d₂.actorId ∧ HoldsScopes e a p at_ d₁.actorId ∧
            HoldsScopes e a p at_ d₂.actorId

/-- The stored evaluation of the revision that enters `EXECUTING` with `e`, at the time of its
transaction. -/
structure Entering (e : Entry) (k : RevisionKey) (a : ActionIntent) (p : PolicyEvaluation)
    (at_ : Time) : Prop where
  intent : e.db.intent? k = some a
  policy : ∃ row, e.db.policiesOf k = [row] ∧ row.evaluation = p
  began : ∃ b, e.session.begun = some b ∧ b.2 = at_

theorem holdsScopes {e : Entry} {a : ActionIntent} {p : PolicyEvaluation} {at_ : Time}
    {principalId : String} {σ : Store} (hσ : σ ∈ (ghostAfter e.history).reads)
    (h : ∀ scope ∈ p.requiredScopes, scope ∈ evaluateCurrentScopes
      (σ.loadAssignments a.key.tenantId principalId) at_ a.environment) :
    HoldsScopes e a p at_ principalId := by
  rw [← openReads_eq] at hσ
  refine ⟨σ, hσ, fun scope hscope => ?_⟩
  obtain ⟨g, hg, hcurrent, hs⟩ := mem_evaluateCurrentScopes.1 (h scope hscope)
  exact ⟨g, hg, inForce_of_isCurrent hcurrent, hs⟩

/-- A revision that enters `EXECUTING` on a route that asks for approval does so on the authority of
approvers who hold every required scope at that time. -/
theorem approvers_hold_scopes {rt : Runtime} {s : State} (h : Run rt (fun _ => True) s) :
    ∀ e ∈ s.trace, ∀ k, Reaches e k .executing → ∃ a p at_, Entering e k a p at_ ∧
      (p.route ≠ .none → ScopesHeld e k a p at_) := by
  intro e he k hreach
  have hrec := recorded_of_run covers_any (fun op _ => admits_any op) h e he
  obtain ⟨b, before, t, hb, hcom, hentered, htarget, -⟩ := entered_of_reaches hrec hreach
  have hmem : t ∈ (ghostAfter e.history).entered := by
    rw [hentered]
    exact List.mem_append_right _ (List.mem_singleton_self t)
  have hauthorized := hcom.executing ⟨t, hmem, htarget⟩
  obtain ⟨a, row, bundle, ha, hrow, -, -, hcritical, -⟩ := hauthorized.evidence
  refine ⟨a, row.evaluation, b.2, ⟨ha, ⟨row, hrow, rfl⟩, b, hb, rfl⟩, fun hasked => ?_⟩
  unfold ScopesHeld
  cases hroute : row.evaluation.route with
  | none => exact absurd hroute hasked
  | single =>
      obtain ⟨d, hd, happrove, σ, hσ, -, hscopes⟩ := hauthorized.single a row ha hrow hroute
      exact ⟨d, hd, happrove, holdsScopes hσ hscopes⟩
  | criticalTwoStep =>
      obtain ⟨d₁, hd₁, d₂, hd₂, role₁, role₂, rest, happ₁, hlev₁, happ₂, hlev₂, hne, -, ⟨σ₁, hσ₁, hholds₁⟩,
        σ₂, hσ₂, hholds₂⟩ := hcritical hroute
      exact ⟨d₁, hd₁, d₂, hd₂, happ₁, hlev₁, happ₂, hlev₂, hne, holdsScopes hσ₁ hholds₁.scopes,
        holdsScopes hσ₂ hholds₂.scopes⟩

/-- Both approvers of the deletion, which asks for two, hold its scopes when it enters `EXECUTING`. -/
theorem approvers_hold_scopes_deletion :
    ∃ e ∈ (Scenario.after Scenario.deletion).trace, ∃ a p at_,
      Reaches e Scenario.key .executing ∧ Entering e Scenario.key a p at_ ∧
        p.route = .criticalTwoStep ∧ ScopesHeld e Scenario.key a p at_ := by
  obtain ⟨e, he, a₀, hissues, row₀, hrow₀, hcritical⟩ := deletion_permit
  have hreach := reaches_of_issues hissues
  obtain ⟨a, p, at_, hentering, hheld⟩ := approvers_hold_scopes
    (Scenario.run_after (fun _ => True) _ fun _ _ => trivial) e he Scenario.key hreach
  have hroute : p.route = .criticalTwoStep := by
    obtain ⟨row, hrow, rfl⟩ := hentering.policy
    rw [hrow, List.mem_singleton] at hrow₀
    exact hrow₀ ▸ hcritical
  have hasked : p.route ≠ .none := by
    rw [hroute]
    exact ApprovalRoute.noConfusion
  exact ⟨e, he, a, p, at_, hreach, hentering, hroute, hheld hasked⟩

/-! ## An execution without a holder -/

/-- The request of a principal without assignments to read the health of a service. -/
def inspection : Op :=
  .route ⟨⟨"rachel", "acme", "corr", [], by decide, by decide⟩, "inspect-1", "corr"⟩
    (.createIntent ⟨"inspect_service", [("environment", .str "staging"), ("service", .str "api"),
      ("requested_fields", .list [.str "health"])], "", by decide⟩)

/-- The request is allowed at once, and a worker takes it up. -/
def inspected : List (Move Db Op) :=
  Scenario.complete 0 inspection ++ Scenario.complete 1 .workerTick

/-- The revision that the request creates. -/
def inspectedKey : RevisionKey := ⟨"acme", Scenario.freshId, 1⟩

/-- The event takes that revision into `EXECUTING` on the route `NONE` with a required scope, and its
transaction was shown no assignment of the requester. -/
def runsUnheld (e : Entry) : Bool :=
  (permitOf inspectedKey e).any (fun a =>
    decide (a.key.tenantId = "acme" ∧ a.requesterId = "rachel"))
  && (e.db.policiesOf inspectedKey).all (fun row : PolicyEvaluationRow =>
    decide (row.evaluation.route = .none ∧ "ops:read" ∈ row.evaluation.requiredScopes))
  && (openReads e.history).all fun σ => decide (σ.loadAssignments "acme" "rachel" = [])

theorem not_scopesHeld_of_runsUnheld {e : Entry} (h : runsUnheld e = true) :
    Reaches e inspectedKey .executing ∧
      ¬ ∃ a p at_, Entering e inspectedKey a p at_ ∧ ScopesHeld e inspectedKey a p at_ := by
  unfold runsUnheld at h
  rw [Bool.and_eq_true, Bool.and_eq_true, Option.any_eq_true, List.all_eq_true,
    List.all_eq_true] at h
  obtain ⟨⟨⟨a, ha, hrequester⟩, hpolicies⟩, hreads⟩ := h
  obtain ⟨htenant, hrequester⟩ := of_decide_eq_true hrequester
  have hissues := permitOf_eq_some_iff.1 ha
  refine ⟨reaches_of_issues hissues, ?_⟩
  rintro ⟨a₀, p, at_, ⟨ha₀, ⟨row, hrow, rfl⟩, -⟩, hheld⟩
  have haa : a₀ = a := Option.some.inj (ha₀.symm.trans hissues.revalidating.1)
  subst haa
  have hmem : row ∈ e.db.policiesOf inspectedKey := hrow ▸ List.mem_singleton_self row
  obtain ⟨hroute, hscope⟩ := of_decide_eq_true (hpolicies row hmem)
  unfold ScopesHeld at hheld
  rw [hroute] at hheld
  obtain ⟨σ, hσ, hall⟩ := hheld
  obtain ⟨g, hg, -⟩ := hall _ hscope
  rw [htenant, hrequester, of_decide_eq_true (hreads σ hσ)] at hg
  cases hg

set_option maxRecDepth 100000 in
/-- The inspection runs although its requester holds no scope at all. -/
theorem requester_holds_no_scope :
    ¬ ∀ s, Run Scenario.runtime (fun _ => True) s → ∀ e ∈ s.trace, ∀ k, Reaches e k .executing →
      ∃ a p at_, Entering e k a p at_ ∧ ScopesHeld e k a p at_ := by
  intro h
  have hcheck : (Scenario.after inspected).trace.any runsUnheld = true := by decide +kernel
  obtain ⟨e, he, hunheld⟩ := List.any_eq_true.1 hcheck
  obtain ⟨hreach, hnot⟩ := not_scopesHeld_of_runsUnheld hunheld
  exact hnot (h _ (Scenario.run_after _ inspected fun _ _ => trivial) e he _ hreach)

end HitlOps.Properties
