import HitlOps.Lifecycle.Provenance
import HitlOps.Scenario

/-!
# Approved means approved

A revision whose log has reached `APPROVED` carries exactly the approvals that its stored policy asks
for. Each one was given by a different person than the requester, who held the role and the scopes of
the level when the decision was taken.
-/

set_option autoImplicit false

namespace HitlOps.Properties

open HitlOps.Python HitlOps.Domain HitlOps.Infrastructure HitlOps.Application
open HitlOps.Transaction HitlOps.Lifecycle

/-- Policies are recorded as the evaluator returns them. -/
def RecordsEvaluations (rt : Runtime) : Op → Prop
  | .record _ _ policy _ _ => ∃ tool risk parameters bundle,
      evaluatePolicy rt tool risk parameters bundle = .ok policy
  | _ => True

theorem admits_of_recordsEvaluations {rt : Runtime} (op : Op) (h : RecordsEvaluations rt op) :
    Admits SoundPolicy op := by
  cases op with
  | record key risk policy commandId correlationId =>
      obtain ⟨tool, risk', parameters, bundle, heval⟩ := h
      exact soundPolicy_of_evaluate heval
  | _ => trivial

/-! ## One approval -/

/-- The actor of `d` held the role and the scopes when the commit `e` stored the decision: in the
assignments that the transaction was shown, at the clocks that it read, and in the token. -/
structure HeldAuthority (e : Entry) (k : RevisionKey) (a : ActionIntent) (p : PolicyEvaluation)
    (role : String) (d : ApprovalDecisionRow) : Prop where
  commit : e.act = .commit
  decidedAt : ∃ b, e.session.begun = some b ∧ d.decidedAt = b.2
  role : ∃ σ ∈ openReads e.history, ∃ now ∈ openClocks e.history,
    role ∈ evaluateCurrentRoles (σ.loadAssignments k.tenantId d.actorId) now a.environment
  scopes : ∃ σ ∈ openReads e.history, ∃ now ∈ openClocks e.history, ∀ scope ∈ p.requiredScopes,
    scope ∈ evaluateCurrentScopes (σ.loadAssignments k.tenantId d.actorId) now a.environment
  token : ∃ c, openCommand e.history = some (.decide c) ∧ c.actor.actorId = d.actorId ∧
    ∀ scope ∈ p.requiredScopes, scope ∈ c.actor.scopes

/-- The decision `d` of the revision `k` is a complete approval at a level. -/
structure ApprovedAt (s : State) (k : RevisionKey) (a : ActionIntent) (p : PolicyEvaluation)
    (level : Nat) (d : ApprovalDecisionRow) : Prop where
  approve : d.decision = .approve
  atLevel : d.level = level
  notRequester : d.actorId ≠ a.requesterId
  digest : d.intentDigest = a.intentDigest
  inTime : ∃ expires, a.approvalExpiresAt = some expires ∧ d.decidedAt < expires
  obligations : ∀ name ∈ p.obligations, ∃ text,
    d.scopeSnapshot.obligations.lookup name = some text ∧ text ≠ ""
  authority : ∃ role, p.requiredRoles[level - 1]? = some role ∧
    ∃ e ∈ s.trace, HeldAuthority e k a p role d

theorem acknowledged_iff {provided : List (String × String)} {name : String} :
    acknowledged provided name = true ↔ ∃ text, provided.lookup name = some text ∧ text ≠ "" := by
  unfold acknowledged
  cases provided.lookup name with
  | none => exact ⟨fun h => (by cases h), fun ⟨_, h, _⟩ => (by cases h)⟩
  | some text =>
      rw [decide_eq_true_eq]
      exact ⟨fun h => ⟨text, rfl, h⟩, fun ⟨_, heq, hne⟩ => Option.some.inj heq ▸ hne⟩

/-- The role of a level is the role at its position. -/
theorem requiredRole_position {route : ApprovalRoute} {level : Nat} {roles : List String}
    {role : String} (h : requiredRoleForLevel route level roles = some role) :
    roles[level - 1]? = some role := by
  unfold requiredRoleForLevel at h
  split at h
  · split at h
    · exact h
    · cases h
  · split at h
    · next hlevel =>
        subst hlevel
        rw [← h, List.head?_eq_getElem?]
    · cases h

section Approvals

variable {s : State} {k : RevisionKey} {a : ActionIntent} {p : PolicyEvaluation} {level : Nat}
  {d : ApprovalDecisionRow}

/-- The snapshots of a granted approval are what its transaction read. -/
theorem heldAuthority_of_stored {role : String} (ha : s.db.intent? k = some a)
    (hgranted : Granted a.approvalExpiresAt p level d) (hrole : role ∈ d.actorRolesSnapshot)
    {e : Entry} (hstored : Stored k d e) (hlater : Later (revision e.db k) (revision s.db k))
    (hkey : a.key = k) : HeldAuthority e k a p role d := by
  obtain ⟨b, c, a₀, hb, hc, ha₀, htruthful⟩ := hstored.truthful
  -- The intent of that time has the key and the environment of the stored one.
  obtain ⟨a', ha', hsame⟩ := hlater.identity a₀ ha₀
  have heq : a' = a := Option.some.inj (ha'.symm.trans ha)
  subst heq
  have hkey₀ : a₀.key = k := hsame.key.symm.trans hkey
  have henv : a₀.environment = a'.environment := by
    unfold ActionIntent.environment
    rw [hsame.parameters]
  obtain ⟨σ, hσ, now, hnow, hroles⟩ := htruthful.roles
  obtain ⟨σ', hσ', now', hnow', hscopes⟩ := htruthful.scopes hgranted.approve
  rw [← openReads_eq] at hσ hσ'
  rw [← openClocks_eq] at hnow hnow'
  rw [hkey₀, henv] at hroles hscopes
  refine ⟨hstored.commit, ⟨b, hb, htruthful.decidedAt⟩, ⟨σ, hσ, now, hnow, hroles _ hrole⟩,
    ⟨σ', hσ', now', hnow', fun scope hscope => ?_⟩, c, hc, htruthful.actor.1.symm,
    fun scope hscope => ?_⟩
  · exact hscopes scope (hgranted.scopes scope hscope).1
  · exact htruthful.token scope (hgranted.scopes scope hscope).2

theorem approvedAt {rt : Runtime} (hs : (contract rt SoundPolicy).Sound s)
    (hrec : ∀ e ∈ s.trace, Recorded rt SoundPolicy s e) (hattested : Attested s)
    (ha : s.db.intent? k = some a) (hd : d ∈ s.db.decisionsOf k)
    (hgranted : Granted a.approvalExpiresAt p level d) (hroles : p.requiredRoles ≠ [])
    (hexpires : a.approvalExpiresAt.isSome = true) : ApprovedAt s k a p level d := by
  have hvalid := valid_of_sound hs ha
  obtain ⟨expires, hexp⟩ := Option.isSome_iff_exists.1 hexpires
  obtain ⟨role, hrole, hmem⟩ := hgranted.role hroles
  obtain ⟨e, he, hstored⟩ := hattested k d hd
  exact
    { approve := hgranted.approve
      atLevel := hgranted.level_eq
      notRequester := hvalid.evidence.distinct d hd hgranted.approve
      digest := hvalid.evidence.digests d hd
      inTime := ⟨expires, hexp, hgranted.inTime expires hexp⟩
      obligations := fun name hname => acknowledged_iff.1 (hgranted.obligations name hname)
      authority := ⟨role, requiredRole_position hrole, e, he, heldAuthority_of_stored ha hgranted
        hmem hstored ((hrec e he).later k) hvalid.core.key⟩ }

end Approvals

/-! ## All approvals -/

/-- The decisions of the revision `k` are exactly the approvals that the stored policy `p` asks
for. -/
inductive FullyApproved (s : State) (k : RevisionKey) (a : ActionIntent) (p : PolicyEvaluation) :
    Prop
  | single (hroute : p.route = .single) (d : ApprovalDecisionRow)
      (hdecisions : s.db.decisionsOf k = [d]) (h : ApprovedAt s k a p 1 d)
  | criticalTwoStep (hroute : p.route = .criticalTwoStep) (d₁ d₂ : ApprovalDecisionRow)
      (hdecisions : s.db.decisionsOf k = [d₁, d₂]) (h₁ : ApprovedAt s k a p 1 d₁)
      (h₂ : ApprovedAt s k a p 2 d₂) (hdistinct : d₁.actorId ≠ d₂.actorId)

/-- A revision that was approved has one stored policy and exactly the approvals it asks for. -/
theorem approved_means_approved {rt : Runtime} {s : State} (h : Run rt (RecordsEvaluations rt) s) :
    ∀ k, (∃ t ∈ s.db.transitionsOf k, t.toState = .approved) →
      ∃ a row, s.db.intent? k = some a ∧ s.db.policiesOf k = [row] ∧
        FullyApproved s k a row.evaluation := by
  intro k happroved
  have hs := sound_of_run covers_sound admits_of_recordsEvaluations h
  have hrec := recorded_of_run covers_sound admits_of_recordsEvaluations h
  have hattested := attested_of_run covers_sound admits_of_recordsEvaluations h
  cases ha : s.db.intent? k with
  | none =>
      -- Without an intent there is no log.
      have hempty := WellFormed.eq_empty (hs.rows k) (show (revision s.db k).intent = none from ha)
      have hlog : s.db.transitionsOf k = [] := congrArg Revision.log hempty
      obtain ⟨t, ht, -⟩ := happroved
      rw [hlog] at ht
      cases ht
  | some a =>
      have hevidence := (valid_of_sound hs ha).evidence
      obtain ⟨row, hrow, hdecisions⟩ := hevidence.approved happroved
      have hmem : row ∈ s.db.policiesOf k := by
        rw [show s.db.policiesOf k = [row] from hrow]
        exact List.mem_singleton_self row
      have hsound := hevidence.policies row hmem
      have hasked := hevidence.asked (Or.inr (Or.inr happroved)) row hmem
      have hroles := hsound.roles hasked
      have hexpires := hevidence.window row hmem (hsound.ttl hasked)
      refine ⟨a, row, rfl, hrow, ?_⟩
      unfold Approved at hdecisions
      rcases hsound.route hasked with hroute | hroute
      · rw [if_neg (by rw [hroute]; decide)] at hdecisions
        obtain ⟨d, hd, hgranted⟩ := hdecisions
        have hd' : s.db.decisionsOf k = [d] := hd
        exact .single hroute d hd' (approvedAt hs hrec hattested ha
          (by rw [hd']; exact List.mem_singleton_self d) hgranted hroles hexpires)
      · rw [if_pos hroute] at hdecisions
        obtain ⟨d₁, d₂, hd, hgranted₁, hgranted₂, hdistinct⟩ := hdecisions
        have hd' : s.db.decisionsOf k = [d₁, d₂] := hd
        exact .criticalTwoStep hroute d₁ d₂ hd'
          (approvedAt hs hrec hattested ha (by rw [hd']; exact List.mem_cons_self) hgranted₁ hroles
            hexpires)
          (approvedAt hs hrec hattested ha
            (by rw [hd']; exact List.mem_cons_of_mem _ List.mem_cons_self) hgranted₂ hroles hexpires)
          hdistinct

/-- Each operation of the deletion records what the evaluator returned. -/
theorem deletion_records : ∀ op, .spawn op ∈ Scenario.deletion →
    RecordsEvaluations Scenario.runtime op := by
  intro op hop
  rw [Scenario.mem_started] at hop
  have hstarted : op ∈ [Op.create (Scenario.creation .deleteResource),
      Scenario.recording .deleteResource,
      .decide (Scenario.approval .deleteResource "alice" (by decide) 1 4),
      .decide (Scenario.approval .deleteResource "bob" (by decide) 2 6), .workerTick] := hop
  simp only [List.mem_cons, List.not_mem_nil, or_false] at hstarted
  rcases hstarted with rfl | rfl | rfl | rfl | rfl
  · trivial
  · exact ⟨.deleteResource, evaluateRisk .deleteResource Scenario.parameters {}, Scenario.parameters,
      seedPolicyBundle, rfl⟩
  · trivial
  · trivial
  · trivial

theorem approved_means_approved_deletion :
    ∃ a row, (Scenario.after Scenario.deletion).db.intent? Scenario.key = some a ∧
      (Scenario.after Scenario.deletion).db.policiesOf Scenario.key = [row] ∧
        FullyApproved (Scenario.after Scenario.deletion) Scenario.key a row.evaluation :=
  approved_means_approved (Scenario.run_after _ _ deletion_records) Scenario.key
    Scenario.deletion_approved

end HitlOps.Properties
