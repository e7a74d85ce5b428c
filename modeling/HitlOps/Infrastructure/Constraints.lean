import HitlOps.Infrastructure.Tables

/-!
# Constraints

What the primary keys, unique indexes, checks and foreign keys of `infrastructure/orm.py` ask of the
tables as a whole. The claims about every durable store range over the stores that satisfy them. At
the end, the minted identifiers are texts that every column holds.
-/

set_option autoImplicit false

namespace HitlOps.Infrastructure

open HitlOps.Python HitlOps.Domain

/-- The approvals of a revision, as the revalidation selects them. -/
def Store.approvalsOf (s : Store) (k : RevisionKey) : List ApprovalDecisionRow :=
  (s.decisionsOf k).filter fun d => d.decision = .approve

/-- The columns of `uq_approval_decisions_approving_actor`. -/
def ApprovalDecisionRow.approver (d : ApprovalDecisionRow) : RevisionKey × Nat × String :=
  (d.key, d.level, d.actorId)

/-- The columns of `uq_role_assignments_active_grant`. -/
def RoleAssignmentRow.grantKey (r : RoleAssignmentRow) : String × String × String × String :=
  (r.tenantId, r.principalId, r.role, r.environmentsKey)

/-- The primary keys and the unique indexes. -/
structure Store.UniqueKeys (s : Store) : Prop where
  intents : (s.intents.map (·.key)).Nodup
  transitions : (s.transitions.map fun r => (r.key, r.sequence)).Nodup
  commands : (s.transitions.map (·.commandId)).Nodup
  risks : (s.risks.map (·.key)).Nodup
  policies : (s.policies.map (·.key)).Nodup
  approvals : ((s.decisions.filter fun d => d.decision = .approve).map (·.approver)).Nodup
  executionIds : (s.executions.map (·.id)).Nodup
  executions : (s.executions.map (·.key)).Nodup
  operations : (s.executions.map (·.operationKey)).Nodup
  outbox : (s.outbox.map (·.sequence)).Nodup
  idempotency : (s.idempotency.map (·.key)).Nodup
  assignmentIds : (s.assignments.map (·.id)).Nodup
  grants : ((s.assignments.filter fun r => r.revokedAt = none).map (·.grantKey)).Nodup
  bundleIds : (s.bundles.map (·.id)).Nodup
  activeBundles : ((s.bundles.filter fun r => r.isActive = true).map (·.tenantId)).Nodup

/-- The rows that refer to a revision refer to one of the table `action_intents`. -/
structure Store.ForeignKeys (s : Store) : Prop where
  transitionOf : ∀ r ∈ s.transitions, r.key ∈ s.intents.map (·.key)
  riskOf : ∀ r ∈ s.risks, r.key ∈ s.intents.map (·.key)
  policyOf : ∀ r ∈ s.policies, r.key ∈ s.intents.map (·.key)
  decisionOf : ∀ d ∈ s.decisions, d.key ∈ s.intents.map (·.key)
  executionOf : ∀ e ∈ s.executions, e.key ∈ s.intents.map (·.key)

/-- The store satisfies the constraints of the schema. -/
structure Store.Constrained (s : Store) : Prop extends s.UniqueKeys, s.ForeignKeys where
  revisions : ∀ i ∈ s.intents, 1 ≤ i.key.revision
  versions : ∀ i ∈ s.intents, 1 ≤ i.stateVersion
  levels : ∀ d ∈ s.decisions, d.level = 1 ∨ d.level = 2
  attempts : ∀ e ∈ s.executions, 1 ≤ e.attempt

/-- Two approvals of one revision by one actor at one level are one row. -/
theorem Store.UniqueKeys.approvalsOf {s : Store} (h : s.UniqueKeys) (k : RevisionKey) :
    ((s.approvalsOf k).map (·.approver)).Nodup := by
  have hsub : (s.approvalsOf k).Sublist (s.decisions.filter fun d => d.decision = .approve) :=
    List.filter_sublist.filter _
  exact (hsub.map _).nodup h.approvals

theorem Store.mem_approvalsOf {s : Store} {k : RevisionKey} {d : ApprovalDecisionRow} :
    d ∈ s.approvalsOf k ↔ d ∈ s.decisions ∧ d.key = k ∧ d.decision = .approve := by
  unfold Store.approvalsOf Store.decisionsOf
  simp only [List.mem_filter, decide_eq_true_eq]
  exact and_assoc

/-! ## Minted identifiers -/

/-- The characters of a UUID: hexadecimal digits and dashes. -/
theorem char_of_uuid (u : UUID) {c : Char} (hc : c ∈ u.text.toList) :
    c = '-' ∨ isHexDigit c = true := by
  have hall := (Bool.and_eq_true_iff.1 u.canonical).2
  obtain ⟨n, hn, rfl⟩ := List.mem_iff_getElem.1 hc
  have hmem : (u.text.toList[n], n) ∈ u.text.toList.zipIdx := by
    rw [List.mem_zipIdx_iff_getElem?]
    exact List.getElem?_eq_getElem hn
  have hchar := List.all_eq_true.1 hall _ hmem
  dsimp only at hchar
  split at hchar
  · exact Or.inl (of_decide_eq_true hchar)
  · exact Or.inr hchar

theorem storable_of_uuid (u : UUID) {c : Char} (hc : c ∈ u.text.toList) : c.toNat ≠ 0 := by
  intro hzero
  have hnul : c = Char.ofNat 0 := by
    rw [← hzero, Char.ofNat_toNat]
  subst hnul
  rcases char_of_uuid u hc with h | h
  · revert h; decide
  · revert h; decide

theorem storableText_text (u : UUID) : Json.storableText u.text = true :=
  List.all_eq_true.2 fun _ hc => decide_eq_true (storable_of_uuid u hc)

theorem storableText_hex (u : UUID) : Json.storableText u.hex = true := by
  refine List.all_eq_true.2 fun c hc => decide_eq_true (storable_of_uuid u ?_)
  unfold UUID.hex at hc
  rw [String.toList_ofList] at hc
  exact List.mem_of_mem_filter hc

end HitlOps.Infrastructure
