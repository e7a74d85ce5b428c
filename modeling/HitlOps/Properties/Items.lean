import HitlOps.Lifecycle.InStep
import HitlOps.Properties.Content
import HitlOps.Properties.Tenants
import HitlOps.Properties.Tick
import HitlOps.Transaction.Span

/-!
# An item of a tick

What the claim, the execution and the reconciliation of one item come to when the worker runs alone: the
outcome is a function of the rows of the item, of the bundle that is active for its tenant, and of what
the adapter answers. An item leaves the rows of the others as they are.
-/

set_option autoImplicit false

namespace HitlOps.Properties

open HitlOps.Python HitlOps.Domain HitlOps.Infrastructure HitlOps.Application HitlOps.Adapters
open HitlOps.Transaction HitlOps.Worker

/-! ## Rows of other items -/

/-- `s'` has the rows of `s`, but for those of the revision `key`; a new row of an execution has an
identifier of `U`. -/
structure Spares (key : RevisionKey) (U : UUID → Prop) (s s' : Store) : Prop where
  intents : ∀ k, k ≠ key → s'.intent? k = s.intent? k
  executions : ∀ id revision, ¬ (id = key.intentId ∧ revision = key.revision) →
    s'.executionsOf id revision = s.executionsOf id revision
  rows : ∀ id e, s.execution? id = some e → e.key ≠ key → s'.execution? id = some e
  ids : ∀ e' ∈ s'.executions, (∃ e ∈ s.executions, e.id = e'.id ∧ e.key = e'.key) ∨ U e'.id
  policies : s'.policies = s.policies
  decisions : s'.decisions = s.decisions
  assignments : s'.assignments = s.assignments
  bundles : s'.bundles = s.bundles

section Spares

variable {key : RevisionKey} {U : UUID → Prop} {s s' s'' : Store} {n : Nat}

theorem Spares.refl (key : RevisionKey) (U : UUID → Prop) (s : Store) : Spares key U s s :=
  ⟨fun _ _ => rfl, fun _ _ _ => rfl, fun _ _ h _ => h, fun e he => Or.inl ⟨e, he, rfl, rfl⟩, rfl, rfl,
    rfl, rfl⟩

theorem Spares.trans (h : Spares key U s s') (h' : Spares key U s' s'') : Spares key U s s'' where
  intents := fun k hk => (h'.intents k hk).trans (h.intents k hk)
  executions := fun id r hr => (h'.executions id r hr).trans (h.executions id r hr)
  rows := fun id e he hk => h'.rows id e (h.rows id e he hk) hk
  ids := fun e'' he'' => by
    rcases h'.ids e'' he'' with ⟨e', he', hid', hkey'⟩ | hU
    · rw [← hid', ← hkey']
      exact h.ids e' he'
    · exact Or.inr hU
  policies := h'.policies.trans h.policies
  decisions := h'.decisions.trans h.decisions
  assignments := h'.assignments.trans h.assignments
  bundles := h'.bundles.trans h.bundles

/-- The rows under an identifier are those of the revision. -/
def OwnRow (key : RevisionKey) (id : UUID) (s : Store) : Prop :=
  ∀ e ∈ s.executions, e.id = id → e.key = key

theorem spares_advanced {intent : ActionIntent} (hkey : intent.key = key) {target : IntentState}
    {row : StateTransition} {topic : String} {payload : Dict} :
    Spares key U s (advanced s intent target n row topic payload) where
  intents := fun k hk => by
    show (s.intents.map _).find? _ = _
    rw [Lifecycle.intent?_update, if_neg (hkey ▸ Ne.symm hk)]
  executions := fun _ _ _ => rfl
  rows := fun _ _ h _ => h
  ids := fun e he => Or.inl ⟨e, he, rfl, rfl⟩
  policies := rfl
  decisions := rfl
  assignments := rfl
  bundles := rfl

/-- A new row is found behind the others. -/
theorem spares_insertExecution {row : Execution} (hkey : row.key = key) (hU : U row.id) :
    Spares key U s (s.apply n (.insertExecution row)) where
  intents := fun _ _ => rfl
  executions := fun id r hr => by
    have hnot : ¬ (row.key.intentId = id ∧ row.key.revision = r) := fun h => hr (by
      rw [← hkey]
      exact ⟨h.1.symm, h.2.symm⟩)
    show (s.executions ++ [row]).filter _ = _
    rw [Lifecycle.filter_append_one, if_neg (by simpa using hnot)]
    rfl
  rows := fun id e he _ => by
    show (s.executions ++ [row]).find? _ = _
    rw [Lifecycle.find?_append_one, show s.executions.find? _ = some e from he]
    rfl
  ids := fun e he => by
    rcases List.mem_append.1 he with he | he
    · exact Or.inl ⟨e, he, rfl, rfl⟩
    · rw [List.mem_singleton.1 he]
      exact Or.inr hU
  policies := rfl
  decisions := rfl
  assignments := rfl
  bundles := rfl

/-- The row under an identifier behind an update. -/
theorem execution?_update (s : Store) (id : UUID) (old new : Execution) :
    (s.apply n (.updateExecution old new)).execution? id =
      (s.execution? id).map fun e => if e.id = old.id then Execution.merge old new e else e := by
  show (s.executions.map _).find? _ = _
  have hids : (fun e : Execution => decide (e.id = id)) ∘
      (fun e => if e.id = old.id then Execution.merge old new e else e) =
        fun e => decide (e.id = id) := by
    funext e
    simp only [Function.comp_apply]
    split
    · rw [Lifecycle.merge_id]
    · rfl
  rw [List.find?_map, hids]
  rfl

/-- The rows of a revision behind an update. -/
theorem executionsOf_update (s : Store) (id : UUID) (r : Nat) (old new : Execution) :
    (s.apply n (.updateExecution old new)).executionsOf id r =
      (s.executionsOf id r).map fun e => if e.id = old.id then Execution.merge old new e else e := by
  show (s.executions.map _).filter _ = _
  have hkeys : (fun e : Execution => decide (e.key.intentId = id ∧ e.key.revision = r)) ∘
      (fun e => if e.id = old.id then Execution.merge old new e else e) =
        fun e => decide (e.key.intentId = id ∧ e.key.revision = r) := by
    funext e
    simp only [Function.comp_apply]
    split
    · rw [Lifecycle.merge_key]
    · rfl
  rw [List.filter_map, hkeys]
  rfl

theorem spares_updateExecution {old new : Execution} (hown : OwnRow key old.id s) :
    Spares key U s (s.apply n (.updateExecution old new)) where
  intents := fun _ _ => rfl
  executions := fun id r hr => by
    rw [executionsOf_update]
    refine (List.map_congr_left fun e he => ?_).trans (List.map_id _)
    obtain ⟨he, hmatch⟩ := List.mem_filter.1 he
    have hmatch := of_decide_eq_true hmatch
    rw [if_neg fun hid => hr ?_]
    · rfl
    · rw [← hown e he hid]
      exact ⟨hmatch.1.symm, hmatch.2.symm⟩
  rows := fun id e he hk => by
    rw [execution?_update, he, Option.map_some, if_neg fun hid => hk ?_]
    exact hown e (List.mem_of_find?_eq_some he) hid
  ids := fun e' he' => by
    obtain ⟨e, he, rfl⟩ := List.mem_map.1 he'
    refine Or.inl ⟨e, he, ?_, ?_⟩
    · split
      · rw [Lifecycle.merge_id]
      · rfl
    · split
      · rw [Lifecycle.merge_key]
      · rfl
  policies := rfl
  decisions := rfl
  assignments := rfl
  bundles := rfl

/-- The rows of a revision that is claimed: its intent and its only execution. -/
structure Held (key : RevisionKey) (i : ActionIntent) (x : Execution) (s : Store) : Prop where
  intent : s.intent? key = some i
  only : s.executionsOf key.intentId key.revision = [x]
  row : s.execution? x.id = some x
  own : OwnRow key x.id s

theorem intent?_advanced {i : ActionIntent} (hi : s.intent? key = some i) {target : IntentState}
    {row : StateTransition} {topic : String} {payload : Dict} :
    (advanced s i target n row topic payload).intent? key = some (moved i target) := by
  show (s.intents.map _).find? _ = _
  rw [Lifecycle.intent?_update, if_pos (Lifecycle.key_of_intent? hi), hi]
  rfl

theorem Held.advanced {i : ActionIntent} {x : Execution} (h : Held key i x s) {target : IntentState}
    {row : StateTransition} {topic : String} {payload : Dict} :
    Held key (moved i target) x (advanced s i target n row topic payload) :=
  ⟨intent?_advanced h.intent, h.only, h.row, h.own⟩

/-- The row that a first claim inserts is the only one. -/
theorem held_inserted {i : ActionIntent} (hi : s.intent? key = some i)
    (hnone : s.executionsOf key.intentId key.revision = []) {x : Execution} (hkey : x.key = key)
    (hfresh : ∀ e ∈ s.executions, e.id ≠ x.id) : Held key i x (s.apply n (.insertExecution x)) where
  intent := hi
  only := by
    show (s.executions ++ [x]).filter _ = _
    rw [Lifecycle.filter_append_one, if_pos (by simp [hkey])]
    show s.executionsOf key.intentId key.revision ++ [x] = [x]
    rw [hnone]
    rfl
  row := by
    have hnot : s.execution? x.id = none :=
      List.find?_eq_none.2 fun e he hid => hfresh e he (of_decide_eq_true hid)
    show (s.executions ++ [x]).find? _ = _
    rw [Lifecycle.find?_append_one, show s.executions.find? _ = none from hnot, if_pos (by simp)]
    rfl
  own := fun e he hid => by
    rcases List.mem_append.1 he with he | he
    · exact absurd hid (hfresh e he)
    · rw [List.mem_singleton.1 he]
      exact hkey

/-- An update of the row that sends all columns that it changes. -/
theorem Held.updated {i : ActionIntent} {x new : Execution} (h : Held key i x s)
    (hid : new.id = x.id) (hmerge : Execution.merge x new x = new) :
    Held key i new (s.apply n (.updateExecution x new)) where
  intent := h.intent
  only := by
    rw [executionsOf_update, h.only, List.map_singleton, if_pos rfl, hmerge]
  row := by
    rw [execution?_update, hid, h.row, Option.map_some, if_pos rfl, hmerge]
  own := fun e he heid => by
    obtain ⟨e₀, he₀, rfl⟩ := List.mem_map.1 he
    rw [hid] at heid
    split at heid
    · next heq =>
        rw [if_pos heq, Lifecycle.merge_key]
        exact h.own e₀ he₀ heq
    · next hne => exact absurd heid hne

end Spares

/-! ## Exceptions that end a tick -/

/-- The exception ends the tick when it is raised in a claim: it is no state conflict, and none of the
lock conflicts that are reported as one. -/
def Fatal (x : Error) : Prop := (reported x).isStateConflict = false

/-! ## The gates -/

/-- The first two gates pass at `dbNow`: the digest is that of the row, its window is open, and the
approvals that its evaluation asks for hold for this order of the decisions. -/
structure Cleared (rt : Runtime) (db : Store) (intent : ActionIntent) (policy : PolicyEvaluation)
    (dbNow : Time) (rank : Nat → Nat) : Prop where
  digest : recomputeDigest rt intent = intent.intentDigest
  stored : (db.policiesOf intent.key).map (·.evaluation) = [policy]
  window : windowElapsed intent dbNow = false
  approvals : ApprovalsHold db intent policy dbNow (arrange rank (db.approvalsOf intent.key))

section Gates

variable {rt : Runtime} {db : Store} {v : ∀ o : Source, Draw o} {intent : ActionIntent}
  {execution : Execution} {dbNow : Time} {bundle : PolicyBundle} {snapshot : TargetSnapshot}
  {stored : PolicyEvaluation}

/-- The gates leave the row as it is, with the snapshot of the target. -/
def withTarget (execution : Execution) (snapshot : TargetSnapshot) : Execution :=
  { execution with preconditionSnapshot := some (preconditionSnapshot snapshot) }

theorem policyAndTarget_error :
    (∃ x, policyAndTarget rt intent stored bundle snapshot execution = .error x) ↔
      ∃ x, evaluatePolicy rt intent.tool (evaluateRisk intent.tool intent.canonicalParameters {})
        intent.canonicalParameters bundle = .error x := by
  cases heval : evaluatePolicy rt intent.tool
      (evaluateRisk intent.tool intent.canonicalParameters {}) intent.canonicalParameters bundle with
  | error x =>
      refine ⟨fun _ => ⟨x, rfl⟩, fun _ => ⟨x, ?_⟩⟩
      simp only [policyAndTarget, heval, bind, Except.bind]
  | ok current =>
      constructor
      · rintro ⟨x, h⟩
        simp only [policyAndTarget, heval, bind, Except.bind] at h
        split at h
        · cases h
        · split at h
          · cases h
          · split at h
            · cases h
            · cases h
      · rintro ⟨x, h⟩
        cases h

theorem policyAndTarget_passed {passed : Execution} :
    policyAndTarget rt intent stored bundle snapshot execution = .ok (.passed passed) ↔
      Lifecycle.PolicyLets rt intent stored bundle ∧
        checkPreconditions intent.canonicalParameters snapshot = none ∧
        passed = withTarget execution snapshot := by
  constructor
  · intro h
    refine ⟨Lifecycle.policyLets_of_passed h, ?_⟩
    unfold policyAndTarget at h
    cases heval : evaluatePolicy rt intent.tool
        (evaluateRisk intent.tool intent.canonicalParameters {}) intent.canonicalParameters bundle with
    | error x =>
        simp only [heval, bind, Except.bind] at h
        cases h
    | ok current =>
        simp only [heval, bind, Except.bind] at h
        split at h
        · cases h
        · split at h
          · cases h
          · split at h
            · cases h
            · next hcheck =>
                cases h
                exact ⟨hcheck, rfl⟩
  · rintro ⟨⟨current, heval, hblock, hlets⟩, hcheck, rfl⟩
    have hstrict : ¬ (policyStricter current stored = true ∧ current.disposition ≠ .allow) := by
      rintro ⟨hs, hallow⟩
      rw [hlets hallow] at hs
      cases hs
    unfold policyAndTarget
    simp only [heval, bind, Except.bind, if_neg hblock, if_neg hstrict, hcheck]
    rfl

theorem cleared_of_policy {row : PolicyEvaluationRow} (hrow : db.policiesOf intent.key = [row])
    (hdigest : recomputeDigest rt intent = intent.intentDigest)
    (hwindow : windowElapsed intent dbNow = false)
    (happrovals : Prog.readOn (D := Db) db dbNow v
      (approvalsFailureReason intent row.evaluation dbNow) = some (.ok none)) :
    Cleared rt db intent row.evaluation dbNow (v .order) :=
  ⟨hdigest, by rw [hrow]; rfl, hwindow, readOn_approvals_iff.1 happrovals⟩

theorem Cleared.row {policy : PolicyEvaluation} {rank : Nat → Nat}
    (h : Cleared rt db intent policy dbNow rank) :
    ∃ row, db.policiesOf intent.key = [row] ∧ row.evaluation = policy :=
  List.map_eq_singleton_iff.1 h.stored

/-- The gates pass the row exactly when the first two do, the current policy lets it, and the target is
as the row expects it. -/
theorem readOn_gates_passed {passed : Execution} :
    Prog.readOn (D := Db) db dbNow v (revalidateGates rt intent execution dbNow bundle snapshot) =
        some (.ok (.passed passed)) ↔
      ∃ policy, Cleared rt db intent policy dbNow (v .order) ∧
        Lifecycle.PolicyLets rt intent policy bundle ∧
        checkPreconditions intent.canonicalParameters snapshot = none ∧
        passed = withTarget execution snapshot := by
  rw [readOn_revalidateGates]
  constructor
  · rintro ⟨hdigest, hwindow, row, hrow, happrovals, hpass⟩
    exact ⟨row.evaluation, cleared_of_policy hrow hdigest hwindow happrovals,
      policyAndTarget_passed.1 hpass⟩
  · rintro ⟨policy, hcleared, hrest⟩
    obtain ⟨row, hrow, rfl⟩ := hcleared.row
    exact ⟨hcleared.digest, hcleared.window, row, hrow, readOn_approvals_iff.2 hcleared.approvals,
      policyAndTarget_passed.2 hrest⟩

/-- The policy row of a revision is unique. -/
def OnePolicy (db : Store) (key : RevisionKey) : Prop := (db.policiesOf key).length ≤ 1

/-- The gates raise exactly when the row of the policy is missing, or when the evaluator raises behind
the first two. -/
theorem readOn_gates_error (hone : OnePolicy db intent.key) :
    (∃ x, Prog.readOn (D := Db) db dbNow v
        (revalidateGates rt intent execution dbNow bundle snapshot) = some (.error x)) ↔
      recomputeDigest rt intent = intent.intentDigest ∧
        (db.policiesOf intent.key = [] ∨ ∃ policy, Cleared rt db intent policy dbNow (v .order) ∧
          ∃ x, evaluatePolicy rt intent.tool (evaluateRisk intent.tool intent.canonicalParameters {})
            intent.canonicalParameters bundle = .error x) := by
  unfold revalidateGates
  constructor
  · rintro ⟨x, h⟩
    split at h
    · cases h
    · next hdigest =>
        refine ⟨Decidable.not_not.1 hdigest, ?_⟩
        -- `scalar_one` raises at no row; a second row would contradict the unique constraint.
        rcases Prog.readOn_bind_error.1 h with h | ⟨rows, hrows, h⟩
        · cases h
        cases hrows
        match hpolicies : db.policiesOf intent.key with
        | [] => exact Or.inl rfl
        | a :: b :: rest =>
            unfold OnePolicy at hone
            rw [hpolicies] at hone
            simp at hone
        | [row] =>
            refine Or.inr ⟨row.evaluation, ?_⟩
            simp only [hpolicies] at h
            rcases Prog.readOn_bind_error.1 h with h | ⟨row', hrow, h⟩
            · cases h
            cases hrow
            split at h
            · cases h
            · next hwindow =>
                -- The second gate raises nothing: what is left is the evaluator behind it.
                rcases Prog.readOn_bind_error.1 h with h | ⟨reason, hreason, h⟩
                · exact ((Lifecycle.looks_approvalsFailureReason _ _ _).readOn_error h).elim
                cases reason with
                | some text => cases h
                | none =>
                    refine ⟨cleared_of_policy hpolicies (Decidable.not_not.1 hdigest)
                      (Bool.eq_false_iff.2 hwindow) hreason, ?_⟩
                    refine (@policyAndTarget_error rt intent execution bundle snapshot
                      row.evaluation).1 ?_
                    cases htarget : policyAndTarget rt intent row.evaluation bundle snapshot
                      execution with
                    | error y => exact ⟨y, rfl⟩
                    | ok gates =>
                        simp only [htarget] at h
                        cases h
  · rintro ⟨hdigest, hcases⟩
    rw [if_neg fun h => h hdigest]
    rcases hcases with hnone | ⟨policy, hcleared, heval⟩
    · refine ⟨.noResult, Prog.readOn_bind_error.2 (Or.inr ⟨_, rfl, ?_⟩)⟩
      show Prog.readOn (D := Db) db dbNow v (scalarOne (db.policiesOf intent.key) >>= _) = _
      rw [hnone]
      rfl
    · obtain ⟨row, hrow, rfl⟩ := hcleared.row
      obtain ⟨x, hx⟩ := (@policyAndTarget_error rt intent execution bundle snapshot
        row.evaluation).2 heval
      refine ⟨x, Prog.readOn_bind_error.2 (Or.inr ⟨_, rfl, Prog.readOn_bind_error.2
        (Or.inr ⟨row, readOn_scalarOne.2 hrow, ?_⟩)⟩)⟩
      have hopen : ¬ intent.approvalExpiresAt.any
          (fun expires => Decidable.decide (expires ≤ dbNow)) = true :=
        Bool.eq_false_iff.1 hcleared.window
      rw [if_neg hopen]
      refine Prog.readOn_bind_error.2 (Or.inr ⟨none, readOn_approvals_iff.2 hcleared.approvals, ?_⟩)
      dsimp only
      rw [hx]
      rfl

/-- What the gates may say: a reason that its column holds, for one of two states. -/
def Judged : Gates → Prop
  | .failed state reason => (state = .stale ∨ state = .expired) ∧ fits 64 reason = true
  | .passed _ => True

theorem yields_approverFailureReason (tenantId actorId : String) (roles scopes : List String)
    (environment : Option Json) :
    (approverFailureReason tenantId actorId roles scopes dbNow environment).Yields
      fun r => r.all (fits 64) = true := by
  refine Prog.Yields.bind (Prog.yields_true _) fun assignments _ => ?_
  show (approverReason assignments roles scopes dbNow environment).all (fits 64) = true
  unfold approverReason
  split
  · decide
  · split
    · decide
    · rfl

theorem yields_countAuthorized (roles scopes : List String) (decisions : List ApprovalDecisionRow)
    (n : Nat) {last : Option String} (hlast : last.all (fits 64) = true) :
    (countAuthorized intent roles scopes dbNow decisions n last).Yields
      fun r => r.2.all (fits 64) = true := by
  induction decisions generalizing n last with
  | nil => exact hlast
  | cons d rest ih =>
      refine Prog.Yields.bind (yields_approverFailureReason _ _ _ _ _) fun r hr => ?_
      cases r with
      | none => exact ih _ hlast
      | some reason => exact ih _ hr

theorem yields_criticalLevels (decisions : List ApprovalDecisionRow) (roles scopes : List String) :
    (criticalLevelsFailureReason intent decisions roles scopes dbNow).Yields
      fun r => r.all (fits 64) = true := by
  have hunauthorized : fits 64 "approver_no_longer_authorized" = true := by decide
  unfold criticalLevelsFailureReason
  split
  · refine Prog.yields_ite (fun _ => hunauthorized) fun _ => ?_
    refine Prog.Yields.bind (yields_approverFailureReason _ _ _ _ _) fun r hr => ?_
    cases r with
    | some reason => exact hr
    | none => exact yields_approverFailureReason _ _ _ _ _
  · exact hunauthorized

theorem yields_approvalsFailureReason (policy : PolicyEvaluation) :
    (approvalsFailureReason intent policy dbNow).Yields fun r => r.all (fits 64) = true := by
  have hunauthorized : fits 64 "approver_no_longer_authorized" = true := by decide
  refine Prog.yields_ite (fun _ => rfl) fun _ => ?_
  refine Prog.Yields.bind (Prog.yields_true _) fun decisions _ => ?_
  refine Prog.yields_ite (fun _ => yields_criticalLevels _ _ _) fun _ => ?_
  refine Prog.Yields.bind (yields_countAuthorized _ _ _ 0 rfl) fun r hr => ?_
  refine Prog.yields_ite (fun _ => ?_) fun _ => rfl
  show fits 64 (r.2.getD "approver_no_longer_authorized") = true
  cases hlast : r.2 with
  | none => exact hunauthorized
  | some reason =>
      rw [hlast] at hr
      exact hr

theorem judged_of_target {gates : Gates}
    (h : policyAndTarget rt intent stored bundle snapshot execution = .ok gates) : Judged gates := by
  cases heval : evaluatePolicy rt intent.tool
      (evaluateRisk intent.tool intent.canonicalParameters {}) intent.canonicalParameters bundle with
  | error x =>
      simp only [policyAndTarget, heval, bind, Except.bind] at h
      cases h
  | ok current =>
      simp only [policyAndTarget, heval, bind, Except.bind] at h
      split at h
      · cases h
        exact ⟨Or.inl rfl, by decide⟩
      · split at h
        · cases h
          exact ⟨Or.inl rfl, by decide⟩
        · split at h
          · next reason hcheck =>
              cases h
              refine ⟨Or.inl rfl, ?_⟩
              unfold checkPreconditions at hcheck
              split at hcheck
              · cases hcheck
                decide
              · split at hcheck
                · cases hcheck
                  decide
                · split at hcheck
                  · cases hcheck
                    decide
                  · cases hcheck
          · cases h
            exact trivial

theorem yields_revalidateGates :
    (revalidateGates rt intent execution dbNow bundle snapshot).Yields Judged := by
  refine Prog.yields_ite (fun _ => ⟨Or.inl rfl, by decide⟩) fun _ => ?_
  refine Prog.Yields.bind (Prog.yields_true _) fun policies _ => ?_
  refine Prog.Yields.bind (Prog.yields_true _) fun policy _ => ?_
  refine Prog.yields_ite (fun _ => ⟨Or.inr rfl, by decide⟩) fun _ => ?_
  refine Prog.Yields.bind (yields_approvalsFailureReason _) fun reason hreason => ?_
  cases reason with
  | some text => exact ⟨Or.inl rfl, hreason⟩
  | none =>
      show (ofExcept _).Yields Judged
      cases htarget : policyAndTarget rt intent policy.evaluation bundle snapshot execution with
      | error x => exact trivial
      | ok gates => exact judged_of_target htarget

theorem looks_scalarOne {α : Type} {F : Source → Prop} (rows : List α) :
    (scalarOne rows).Uses (Prog.Looks (D := Db) F) Fatal := by
  match rows with
  | [] => exact rfl
  | [a] => exact trivial
  | a :: b :: rest => exact rfl

/-- The gates look around; what they raise is fatal. -/
theorem looks_revalidateGates :
    (revalidateGates rt intent execution dbNow bundle snapshot).Uses
      (Prog.Looks (D := Db) (· = Source.order)) Fatal := by
  refine Prog.uses_ite (fun _ => trivial) fun _ => ?_
  refine (Prog.uses_query trivial).bind fun policies => (looks_scalarOne policies).bind fun policy => ?_
  refine Prog.uses_ite (fun _ => trivial) fun _ => ?_
  refine ((Lifecycle.looks_approvalsFailureReason _ _ _).mono (fun _ h => h)
    fun _ h => h.elim).bind fun reason => ?_
  cases reason with
  | some text => exact trivial
  | none =>
      show (ofExcept _).Uses _ _
      cases htarget : policyAndTarget rt intent policy.evaluation bundle snapshot execution with
      | ok gates => exact trivial
      | error x =>
          obtain ⟨y, hy⟩ := (@policyAndTarget_error rt intent execution bundle snapshot
            policy.evaluation).1 ⟨x, htarget⟩
          obtain ⟨message, rfl⟩ := Lifecycle.evaluatePolicy_typeError hy
          have hx : x = .typeError message := by
            simp only [policyAndTarget, hy, bind, Except.bind, Except.error.injEq] at htarget
            exact htarget.symm
          subst hx
          exact rfl

variable {d : Desk Db}

theorem asIfStill_approvals (policy : PolicyEvaluation) (hopen : d.session.begun.isSome = true) :
    Prog.AsIfStill (approvalsFailureReason intent policy dbNow) d := by
  rw [Lifecycle.approvalsFailureReason_eq]
  split
  · exact Prog.asIfStill_of_looks (E := fun _ => False) trivial hopen
  · unfold scan
    simp only [Prog.bind_assoc]
    refine Prog.AsIfStill.bind (E := fun _ => False) (Prog.uses_query trivial) hopen
      fun rows d' _ hopen' => ?_
    exact Prog.asIfStill_draw (fun rank => Lifecycle.looks_judgeDecisions _ _ _ _) hopen'

theorem asIfStill_gates (hopen : d.session.begun.isSome = true) :
    Prog.AsIfStill (revalidateGates rt intent execution dbNow bundle snapshot) d := by
  unfold revalidateGates
  split
  · exact Prog.asIfStill_of_looks (E := fun _ => False) trivial hopen
  · refine Prog.AsIfStill.bind (E := fun _ => False) (Prog.uses_query trivial) hopen
      fun rows d₁ _ hopen₁ => ?_
    refine Prog.AsIfStill.bind (looks_scalarOne rows) hopen₁ fun policy d₂ _ hopen₂ => ?_
    split
    · exact Prog.asIfStill_of_looks (E := fun _ => False) trivial hopen₂
    · refine (asIfStill_approvals policy.evaluation hopen₂).andThen
        (Lifecycle.looks_approvalsFailureReason _ _ _) hopen₂ fun reason => ?_
      cases reason with
      | some text => exact trivial
      | none =>
          show (ofExcept _).Uses _ _
          cases policyAndTarget rt intent policy.evaluation bundle snapshot execution with
          | ok gates => exact trivial
          | error x => exact trivial

/-- The gates alone, in an open transaction: they come out as over the rows that the session sees. -/
theorem alone_gates (hopen : d.session.begun.isSome = true) : ∃ n r d',
    (revalidateGates rt intent execution dbNow bundle snapshot).alone d = (r, d') ∧
      d'.db = d.db ∧ d'.session = d.session ∧
      Prog.readOn (D := Db) d.view d.start.2 (d.moments n).draw
        (revalidateGates rt intent execution dbNow bundle snapshot) = some r ∧
      (∀ x, r = .error x → Fatal x) ∧ ∀ gates, r = .ok gates → Judged gates := by
  obtain ⟨n, hread⟩ := @asIfStill_gates rt intent execution dbNow bundle snapshot d hopen
  obtain ⟨hdb, hsession⟩ := Prog.still_alone
    (@looks_revalidateGates rt intent execution dbNow bundle snapshot) hopen
  refine ⟨n, _, _, rfl, hdb, hsession, hread, fun x hx => ?_, fun gates hgates => ?_⟩
  · exact looks_revalidateGates.alone_error (Prod.ext hx rfl)
  · exact yields_revalidateGates.alone_ok (Prod.ext hgates rfl)

end Gates

/-! ## Writes of an item -/

section Writes

variable {key : RevisionKey} {U : UUID → Prop} {i : ActionIntent} {x : Execution} {d : Desk Db}

theorem changed_self {α : Type} [DecidableEq α] (old new : α) : changed old new old = new := by
  unfold changed
  split
  · next h => exact h.symm
  · rfl

/-- A row that is as it was read takes all columns of the update. -/
theorem merge_self {new : Execution} (hid : new.id = x.id) (hkey : new.key = x.key)
    (hoperation : new.operationKey = x.operationKey) : Execution.merge x new x = new := by
  cases new
  cases x
  simp only at hid hkey hoperation
  subst hid hkey hoperation
  simp only [Execution.merge, changed_self]

theorem alone_flush_error {w : Write} (h : w.admissible = false) (d : Desk Db) :
    (flush w).alone d = (.error (.dbapi false), d) := by
  unfold flush Prog.raiseIf
  rw [h, if_pos rfl]
  rfl

/-- An update of the row that its columns hold. -/
theorem alone_updateHeld (new : Execution) (hheld : Held key i x d.view) (hid : new.id = x.id)
    (hkey : new.key = x.key)
    (hoperation : new.operationKey = x.operationKey)
    (hadmissible : (Write.updateExecution x new).admissible = true) :
    ∃ d', (flush (.updateExecution x new)).alone d = (.ok (), d') ∧
      Spares key U d.view d'.view ∧ Held key i new d'.view := by
  have hview : (d.wait.writing (.updateExecution x new)).view =
      d.view.apply d.counter (.updateExecution x new) := Desk.view_writing _
  refine ⟨_, alone_flush hadmissible d, ?_, ?_⟩
  · rw [hview]
    exact spares_updateExecution hheld.own
  · rw [hview]
    exact hheld.updated hid (merge_self hid hkey hoperation)

end Writes

/-! ## The phases of a claim -/

/-- The claim that a worker asks for. -/
abbrev claimRequest (key : RevisionKey) (commandId : String) (bundle : PolicyBundle) : ClaimRequest :=
  ⟨key, workerId, commandId, bundle, defaultClaimLeaseSeconds⟩

/-- The texts of an item are held by their columns. -/
structure Texts (key : RevisionKey) (commandId : String) : Prop where
  tenant : Json.storableText key.tenantId = true
  command : Json.storableText commandId = true

/-- The row of an execution that was sent. -/
def started (x : Execution) (snapshot : TargetSnapshot) (t : Time) : Execution :=
  { withTarget x snapshot with status := .executing, startedAt := some t }

section Phases

variable {rt : Runtime} {key : RevisionKey} {U : UUID → Prop} {commandId : String}
  {bundle : PolicyBundle} {i : ActionIntent} {x : Execution} {snapshot : TargetSnapshot} {d : Desk Db}
  {t : Time}

/-- The lock of an intent alone. -/
theorem alone_lockIntent (hi : d.view.intent? key = some i) :
    (lockIntent key).alone d = (.ok i, d.wait.opening) := by
  unfold lockIntent
  rw [alone_then (Prog.alone_lock _ _ _)]
  show (Prog.orRaise .noResult (d.view.intent? key) : M _).alone _ = _
  rw [hi]
  rfl

theorem alone_revalidation_recordTransition (htexts : Texts key commandId)
    (hi : d.view.intent? key = some i) {target : IntentState} {reason : String}
    (hlegal : isLegal i.state target = true) (hreason : fits 64 reason = true) :
    ∃ d', (Revalidation.recordTransition i target workerId commandId reason t).alone d =
        (.ok (moved i target), d') ∧
      ∃ row topic payload, d'.view = advanced d.view i target d.counter row topic payload := by
  have htenant : Json.storableText i.key.tenantId = true := by
    rw [Lifecycle.key_of_intent? hi]
    exact htexts.tenant
  have hworker : fits 255 workerId = true := by decide
  obtain ⟨d', row, hrun, hview⟩ := @alone_appendTransition i target
    ⟨"system", workerId, commandId, reason⟩ t "intent.transitioned" _ hlegal hworker hreason
    (storable_transitionPayload htenant (storableText_of_fits hworker) htexts.command
      (storableText_of_fits hreason)) d
  exact ⟨d', hrun, row, _, _, hview⟩

/-- A claim that ends without a permit. -/
theorem alone_failClaim (bundle : PolicyBundle) (t : Time) (htexts : Texts key commandId)
    (hheld : Held key i x d.view)
    (hstate : i.state = .revalidating) {state : IntentState} {reason : String}
    (hto : state = .stale ∨ state = .expired) (hreason : fits 64 reason = true) :
    ∃ f d', (failClaim (claimRequest key commandId bundle) i x t state reason).alone d =
      (.ok f, d') ∧ Spares key U d.view d'.view := by
  have hlegal : isLegal i.state state = true := by
    rw [hstate]
    rcases hto with rfl | rfl
    · rfl
    · rfl
  -- The intent leaves `REVALIDATING`, then the row of the execution is closed.
  obtain ⟨d₁, hmove, row, topic, payload, hview⟩ :=
    alone_revalidation_recordTransition (t := t) htexts hheld.intent hlegal hreason
  have hheld₁ : Held key (moved i state) x d₁.view := hview ▸ hheld.advanced
  obtain ⟨d₂, hflush, hspares, -⟩ := alone_updateHeld
    { x with status := .failed, errorCode := some reason, finishedAt := some t } hheld₁ rfl rfl rfl
    (by simp [Write.admissible, sends, hreason])
  refine ⟨⟨state, reason, x.id⟩, d₂, ?_, ?_⟩
  · unfold failClaim
    rw [alone_then hmove, alone_then hflush]
    rfl
  · refine Spares.trans ?_ hspares
    rw [hview]
    exact spares_advanced (Lifecycle.key_of_intent? hheld.intent)

/-- A claim that ends in a permit, when its column holds the snapshot of the target. -/
theorem alone_issuePermit (rt : Runtime) (bundle : PolicyBundle) (t : Time)
    (htexts : Texts key commandId) (hheld : Held key i x d.view)
    (hstate : i.state = .revalidating)
    (hsnapshot : storableDict (preconditionSnapshot snapshot) = true) :
    ∃ d', (issuePermit rt (claimRequest key commandId bundle) i x (withTarget x snapshot) t).alone d =
        (.ok (permitFor rt (moved i .executing) (withTarget x snapshot) t), d') ∧
      Spares key U d.view d'.view ∧ Held key (moved i .executing) (started x snapshot t) d'.view := by
  have hlegal : isLegal i.state .executing = true := by
    rw [hstate]
    rfl
  obtain ⟨d₁, hmove, row, topic, payload, hview⟩ :=
    alone_revalidation_recordTransition (t := t) htexts hheld.intent hlegal
      (show fits 64 "revalidation_passed" = true by decide)
  have hheld₁ : Held key (moved i .executing) x d₁.view := hview ▸ hheld.advanced
  obtain ⟨d₂, hflush, hspares, hheld₂⟩ := alone_updateHeld (started x snapshot t) hheld₁ rfl rfl rfl
    (by simp [Write.admissible, sends, started, withTarget, hsnapshot])
  refine ⟨d₂.wait, ?_, Spares.trans ?_ hspares, hheld₂⟩
  · unfold issuePermit
    rw [alone_then hmove]
    exact alone_then hflush
  · rw [hview]
    exact spares_advanced (Lifecycle.key_of_intent? hheld.intent)

/-- A snapshot that its column does not hold. -/
theorem alone_issuePermit_unstorable (rt : Runtime) (bundle : PolicyBundle) (t : Time)
    (htexts : Texts key commandId) (hheld : Held key i x d.view)
    (hstate : i.state = .revalidating) (hfirst : x.preconditionSnapshot = none)
    (hsnapshot : storableDict (preconditionSnapshot snapshot) = false) :
    ∃ d', (issuePermit rt (claimRequest key commandId bundle) i x (withTarget x snapshot) t).alone d =
      (.error (.dbapi false), d') := by
  have hlegal : isLegal i.state .executing = true := by
    rw [hstate]
    rfl
  obtain ⟨d₁, hmove, -⟩ :=
    alone_revalidation_recordTransition (t := t) htexts hheld.intent hlegal
      (show fits 64 "revalidation_passed" = true by decide)
  -- The row has no snapshot yet, so the update sends this one.
  have hrefused : (Write.updateExecution x (started x snapshot t)).admissible = false := by
    simp [Write.admissible, sends, started, withTarget, hfirst, hsnapshot]
  refine ⟨d₁, ?_⟩
  unfold issuePermit
  rw [alone_then hmove]
  exact alone_stop (alone_flush_error hrefused d₁)

/-- The head of the third phase. -/
theorem alone_reopenClaim (hheld : Held key i x d.view) (hstate : i.state = .revalidating) :
    (reopenClaim (claimRequest key commandId bundle)).alone d =
      (.ok (i, x, phaseTime d), d.wait.opening.wait.opening) := by
  have hlock : (lockIntentNowait key).alone d =
      (.ok (some (d.view.intent? key, phaseTime d)), d.wait.opening) := rfl
  unfold reopenClaim
  rw [Prog.alone_bind, hlock, hheld.intent]
  show (if i.state ≠ .revalidating then _ else _ : M _).alone d.wait.opening = _
  rw [if_neg fun h => h hstate, alone_then (Prog.alone_query _ _)]
  show (scalarOne (d.view.executionsOf key.intentId key.revision) >>= _ : M _).alone _ = _
  rw [hheld.only]
  rfl

/-- How the third phase comes out, from the store `s` to the store `s'`, by what the gates say. -/
inductive Concludes (rt : Runtime) (key : RevisionKey) (U : UUID → Prop) (i : ActionIntent)
    (x : Execution) (snapshot : TargetSnapshot) (t : Time) (s s' : Store) :
    Except Error Gates → Except Error (Except RevalidationFailure ExecutionPermit) → Prop
  | raised {e : Error} (hfatal : Fatal e) : Concludes rt key U i x snapshot t s s' (.error e) (.error e)
  | failed {state : IntentState} {reason : String} {f : RevalidationFailure}
      (hspares : Spares key U s s') :
      Concludes rt key U i x snapshot t s s' (.ok (.failed state reason)) (.ok (.error f))
  | unstorable (hsnapshot : storableDict (preconditionSnapshot snapshot) = false) :
      Concludes rt key U i x snapshot t s s' (.ok (.passed (withTarget x snapshot)))
        (.error (.dbapi false))
  | permitted (hsnapshot : storableDict (preconditionSnapshot snapshot) = true)
      (hspares : Spares key U s s')
      (hheld : Held key (moved i .executing) (started x snapshot t) s') :
      Concludes rt key U i x snapshot t s s' (.ok (.passed (withTarget x snapshot)))
        (.ok (.ok (permitFor rt (moved i .executing) (withTarget x snapshot) t)))

/-- The third phase behind the gates. -/
def concludeGates (rt : Runtime) (request : ClaimRequest) (intent : ActionIntent)
    (execution : Execution) (dbNow : Time) :
    Gates → M (Except RevalidationFailure ExecutionPermit)
  | .failed state reasonCode => do
      let failure ← failClaim request intent execution dbNow state reasonCode
      return .error failure
  | .passed passed => do
      let permit ← issuePermit rt request intent execution passed dbNow
      return .ok permit

theorem gatePhase_eq (rt : Runtime) (request : ClaimRequest) (snapshot : TargetSnapshot) :
    gatePhase rt request snapshot = Prog.transaction (D := Db) (do
      let (intent, execution, dbNow) ← reopenClaim request
      let gates ← revalidateGates rt intent execution dbNow request.bundle snapshot
      concludeGates rt request intent execution dbNow gates) := by
  unfold gatePhase
  refine congrArg Prog.transaction (congrArg (Bind.bind _) (funext fun reopened => ?_))
  obtain ⟨intent, execution, dbNow⟩ := reopened
  refine congrArg (Bind.bind _) (funext fun gates => ?_)
  cases gates with
  | failed state reasonCode => rfl
  | passed passed => rfl

theorem alone_concludeGates (rt : Runtime) (bundle : PolicyBundle) (t : Time)
    (htexts : Texts key commandId) (hheld : Held key i x d.view)
    (hstate : i.state = .revalidating) (hfirst : x.preconditionSnapshot = none)
    {gates : Gates} (hjudged : Judged gates)
    (hpassed : ∀ y, gates = .passed y → y = withTarget x snapshot) :
    ∃ r d', (concludeGates rt (claimRequest key commandId bundle) i x t gates).alone d = (r, d') ∧
      Concludes rt key U i x snapshot t d.view d'.view (.ok gates) r := by
  cases gates with
  | failed state reason =>
      obtain ⟨f, d', hrun, hspares⟩ := alone_failClaim bundle t htexts hheld hstate
        hjudged.1 hjudged.2
      exact ⟨.ok (.error f), d', alone_then hrun, .failed hspares⟩
  | passed y =>
      obtain rfl := hpassed y rfl
      by_cases hsnapshot : storableDict (preconditionSnapshot snapshot) = true
      · obtain ⟨d', hrun, hspares, hheld'⟩ := alone_issuePermit rt bundle t htexts hheld hstate
          hsnapshot
        exact ⟨_, d', alone_then hrun, .permitted hsnapshot hspares hheld'⟩
      · rw [Bool.not_eq_true] at hsnapshot
        obtain ⟨d', hrun⟩ := alone_issuePermit_unstorable rt bundle t htexts hheld hstate hfirst
          hsnapshot
        exact ⟨_, d', alone_stop hrun, .unstorable hsnapshot⟩

/-- What is raised commits nothing. -/
theorem Concludes.closed {s s' : Store} {g : Except Error Gates}
    {r : Except Error (Except RevalidationFailure ExecutionPermit)} {e : Error}
    (h : Concludes rt key U i x snapshot t s s' g r) (hr : r = .error e) (s'' : Store) :
    Concludes rt key U i x snapshot t s s'' g r := by
  cases h with
  | raised hfatal => exact .raised hfatal
  | unstorable hsnapshot => exact .unstorable hsnapshot
  | failed hspares => cases hr
  | permitted hsnapshot hspares hheld => cases hr

/-- The gates with what follows them, in an open transaction. -/
theorem alone_gated (rt : Runtime) (bundle : PolicyBundle) (snapshot : TargetSnapshot)
    (hopen : d.session.begun.isSome = true) (htexts : Texts key commandId)
    (hheld : Held key i x d.view) (hstate : i.state = .revalidating)
    (hfirst : x.preconditionSnapshot = none) : ∃ n g r d',
      (revalidateGates rt i x d.start.2 bundle snapshot >>=
        concludeGates rt (claimRequest key commandId bundle) i x d.start.2).alone d = (r, d') ∧
      Prog.readOn (D := Db) d.view d.start.2 (d.moments n).draw
        (revalidateGates rt i x d.start.2 bundle snapshot) = some g ∧
      Concludes rt key U i x snapshot d.start.2 d.view d'.view g r := by
  obtain ⟨n, g, d₁, hgates, hdb, hsession, hread, hfatal, hjudged⟩ :=
    @alone_gates rt i x d.start.2 bundle snapshot d hopen
  have hview : d₁.view = d.view := Desk.view_congr hdb hsession
  -- The gates write nothing: what follows them finds the row as they did.
  cases g with
  | error e => exact ⟨n, .error e, .error e, d₁, alone_stop hgates, hread, .raised (hfatal e rfl)⟩
  | ok gates =>
      have hpassed : ∀ y, gates = .passed y → y = withTarget x snapshot := by
        rintro y rfl
        obtain ⟨-, -, -, -, hy⟩ := readOn_gates_passed.1 hread
        exact hy
      obtain ⟨r, d', hrun, hconcludes⟩ := alone_concludeGates rt bundle d.start.2 htexts
        (hview.symm ▸ hheld) hstate hfirst (hjudged gates rfl) hpassed
      rw [hview] at hconcludes
      exact ⟨n, .ok gates, r, d', (alone_then hgates).trans hrun, hread, hconcludes⟩

/-- The third phase of a claim alone. -/
theorem alone_gatePhase (rt : Runtime) (bundle : PolicyBundle) (snapshot : TargetSnapshot)
    (hclosed : d.session = .closed) (htexts : Texts key commandId)
    (hheld : Held key i x d.db) (hstate : i.state = .revalidating)
    (hfirst : x.preconditionSnapshot = none) : ∃ n t g r d',
      (gatePhase rt (claimRequest key commandId bundle) snapshot).alone d = (r, d') ∧
        d.clock ≤ t ∧ t ≤ d'.clock ∧
        Prog.readOn (D := Db) d.db t (d.moments n).draw
          (revalidateGates rt i x t bundle snapshot) = some g ∧
        Concludes rt key U i x snapshot t d.db d'.db g r := by
  have hview : d.view = d.db := Desk.view_of_closed hclosed
  have htime : phaseTime d = d.wait.clock := by
    show (d.session.start d.db d.wait.clock).2 = _
    rw [hclosed]
    rfl
  -- The lock opens the transaction: its time is that of the gates.
  have hreopen := @alone_reopenClaim key commandId bundle i x d (hview.symm ▸ hheld) hstate
  obtain ⟨n, g, r, d₁, hrun, hread, hconcludes⟩ := alone_gated rt bundle snapshot
    (d := d.wait.opening.wait.opening) rfl htexts
    (show Held key i x d.view from hview.symm ▸ hheld) hstate hfirst
  have hrun : (revalidateGates rt i x (phaseTime d) bundle snapshot >>= concludeGates rt
      (claimRequest key commandId bundle) i x (phaseTime d)).alone d.wait.opening.wait.opening =
        (r, d₁) := hrun
  have hread : Prog.readOn (D := Db) d.view (phaseTime d) (d.moments (n + 2)).draw
      (revalidateGates rt i x (phaseTime d) bundle snapshot) = some g := hread
  have hconcludes : Concludes rt key U i x snapshot (phaseTime d) d.view d₁.view g r := hconcludes
  have hlater : d.wait.wait.clock ≤ d₁.clock := (Prog.later_of_alone hrun).clock
  rw [hview] at hread hconcludes
  have hbody : (do
      let (intent, execution, dbNow) ← reopenClaim (claimRequest key commandId bundle)
      let gates ← revalidateGates rt intent execution dbNow bundle snapshot
      concludeGates rt (claimRequest key commandId bundle) intent execution dbNow gates :
        M (Except RevalidationFailure ExecutionPermit)).alone d = (r, d₁) :=
    (alone_then hreopen).trans hrun
  have hstart : d.clock ≤ phaseTime d := htime ▸ (Desk.later_wait d).clock
  have hend : phaseTime d ≤ d₁.wait.clock := by
    rw [htime]
    exact ((Desk.later_wait d.wait).clock.trans hlater).trans (Desk.later_wait d₁).clock
  rw [gatePhase_eq]
  -- What is raised is rolled back, what is returned is committed.
  cases r with
  | ok a =>
      exact ⟨n + 2, phaseTime d, g, _, _, Prog.alone_transaction_ok hbody, hstart, hend, hread,
        hconcludes⟩
  | error e =>
      exact ⟨n + 2, phaseTime d, g, _, _, Prog.alone_transaction_error hbody, hstart, hend, hread,
        hconcludes.closed rfl _⟩

end Phases

/-! ## A claim alone -/

/-- The row of a revision that a worker may claim for the first time. -/
structure ReadyRow (key : RevisionKey) (i : ActionIntent) (s : Store) : Prop where
  intent : s.intent? key = some i
  state : i.state = .autoApproved ∨ i.state = .approved
  unclaimed : s.executionsOf key.intentId key.revision = []
  bundle : (s.activeBundles key.tenantId).length ≤ 1
  policy : OnePolicy s key
  tenant : fits 63 key.tenantId = true

/-- How the fetch of the target ended. -/
inductive Fetched (moments : Nat → Moment Db) (tool : ToolName) (parameters : Dict) :
    Except Error (Except String TargetSnapshot) → Prop
  | snapshot {n : Nat} {s : TargetSnapshot}
      (h : (moments n).answer (.fetch tool parameters) = .snapshot s) :
      Fetched moments tool parameters (.ok (.ok s))
  | failed {n : Nat} {why : String} (h : (moments n).answer (.fetch tool parameters) = .timeout ∨
        (moments n).answer (.fetch tool parameters) = .error) (hfits : fits 64 why = true) :
      Fetched moments tool parameters (.ok (.error why))
  | cancelled {n : Nat} (h : (moments n).answer (.fetch tool parameters) = .cancelled) :
      Fetched moments tool parameters (.error .cancelled)

/-- What a claim returns to the worker. -/
def permitOf? : Except RevalidationFailure ExecutionPermit → Option ExecutionPermit
  | .error _ => none
  | .ok permit => some permit

/-- How a claim under a bundle comes out between two desks: the fetch is cancelled, or it fails, or the
target is fetched and the gates are read at the time `t`. -/
inductive BundleRun (rt : Runtime) (key : RevisionKey) (U : UUID → Prop) (i : ActionIntent)
    (bundle : PolicyBundle) (d d' : Desk Db) :
    Except Error (Except RevalidationFailure ExecutionPermit) → Prop
  | cancelled {n : Nat}
      (hfetch : (d.moments n).answer (.fetch i.tool i.canonicalParameters) = .cancelled) :
      BundleRun rt key U i bundle d d' (.error .cancelled)
  | unfetched {n : Nat} {f : RevalidationFailure}
      (hfetch : (d.moments n).answer (.fetch i.tool i.canonicalParameters) = .timeout ∨
        (d.moments n).answer (.fetch i.tool i.canonicalParameters) = .error)
      (hspares : Spares key U d.db d'.db) : BundleRun rt key U i bundle d d' (.ok (.error f))
  | gated {snapshot : TargetSnapshot} {n m : Nat} {id : UUID} {expires t : Time} {s : Store}
      {g : Except Error Gates} {r : Except Error (Except RevalidationFailure ExecutionPermit)}
      (hfetch : (d.moments n).answer (.fetch i.tool i.canonicalParameters) = .snapshot snapshot)
      (hspares : Spares key U d.db s) (hstart : d.clock ≤ t) (hend : t ≤ d'.clock)
      (hread : Prog.readOn (D := Db) s t (d.moments m).draw (revalidateGates rt
        (moved i .revalidating) (claimedExecution id key expires) t bundle snapshot) = some g)
      (hconcludes : Concludes rt key U (moved i .revalidating) (claimedExecution id key expires)
        snapshot t s d'.db g r) : BundleRun rt key U i bundle d d' r

/-- The run as it is seen from an earlier and to a later desk over the same stores. -/
theorem BundleRun.widen {rt : Runtime} {key : RevisionKey} {U : UUID → Prop} {i : ActionIntent}
    {bundle : PolicyBundle} {d d₁ d₂ d' : Desk Db}
    {r : Except Error (Except RevalidationFailure ExecutionPermit)}
    (h : BundleRun rt key U i bundle d₁ d₂ r) (hbefore : Desk.Later d d₁) (hdb : d₁.db = d.db)
    (hbehind : Desk.Later d₂ d') (hdb' : d'.db = d₂.db) : BundleRun rt key U i bundle d d' r := by
  obtain ⟨k, hk⟩ := hbefore.moments
  cases h with
  | cancelled hfetch =>
      rw [hk] at hfetch
      exact .cancelled hfetch
  | unfetched hfetch hspares =>
      rw [hk] at hfetch
      rw [hdb, ← hdb'] at hspares
      exact .unfetched hfetch hspares
  | gated hfetch hspares hstart hend hread hconcludes =>
      rw [hk] at hfetch hread
      rw [hdb] at hspares
      rw [← hdb'] at hconcludes
      exact .gated hfetch hspares (hbefore.clock.trans hstart) (hend.trans hbehind.clock) hread
        hconcludes

/-- How the attempt of a claim comes out: without an active bundle there is nothing to do. -/
inductive ClaimRun (rt : Runtime) (key : RevisionKey) (U : UUID → Prop) (i : ActionIntent) (d d' : Desk Db) :
    Except Error (Option ExecutionPermit) → Prop
  | idle (hbundle : d.db.activeBundles key.tenantId = []) (hdb : d'.db = d.db) :
      ClaimRun rt key U i d d' (.ok none)
  | under {row : PolicyBundleRow} {r : Except Error (Except RevalidationFailure ExecutionPermit)}
      (hbundle : d.db.activeBundles key.tenantId = [row])
      (hrun : BundleRun rt key U i row.bundle d d' r) : ClaimRun rt key U i d d' (r.map permitOf?)

section Claim

variable {rt : Runtime} {key : RevisionKey} {U : UUID → Prop} {commandId : String}
  {bundle : PolicyBundle} {i : ActionIntent} {d : Desk Db}

theorem alone_fetchTarget (tool : ToolName) (parameters : Dict) (attempts : Nat) (reason : String)
    (d : Desk Db) : ∃ r d', (fetchTarget tool parameters (attempts + 1) reason).alone d = (r, d') ∧
      d'.db = d.db ∧ d'.session = d.session ∧ Fetched d.moments tool parameters r := by
  -- A failed attempt is followed by the remaining ones.
  have hretry : ∀ why, fits 64 why = true →
      (d.moments 0).answer (.fetch tool parameters) = .timeout ∨
        (d.moments 0).answer (.fetch tool parameters) = .error →
      ∃ r d', (fetchTarget tool parameters attempts why).alone d.wait = (r, d') ∧
        d'.db = d.db ∧ d'.session = d.session ∧ Fetched d.moments tool parameters r := by
    intro why hwhy hanswer
    cases attempts with
    | zero => exact ⟨_, _, rfl, rfl, rfl, .failed hanswer hwhy⟩
    | succ attempts =>
        obtain ⟨r, d', hrun, hdb, hsession, hfetched⟩ :=
          alone_fetchTarget tool parameters attempts why d.wait
        refine ⟨r, d', hrun, hdb, hsession, ?_⟩
        cases hfetched with
        | snapshot h => exact .snapshot h
        | failed h hfits => exact .failed h hfits
        | cancelled h => exact .cancelled h
  have hcall : ∀ f : FetchAnswer → M (Except String TargetSnapshot),
      (Prog.call (D := Db) (.fetch tool parameters) >>= f : M _).alone d =
        (f ((d.moments 0).answer (.fetch tool parameters))).alone d.wait := fun f => rfl
  unfold fetchTarget
  rw [hcall]
  cases hanswer : (d.moments 0).answer (.fetch tool parameters) with
  | snapshot s => exact ⟨_, _, rfl, rfl, rfl, .snapshot hanswer⟩
  | timeout => exact hretry "target_fetch_timeout" (by decide) (Or.inl hanswer)
  | error => exact hretry "target_fetch_failed" (by decide) (Or.inr hanswer)
  | cancelled => exact ⟨_, _, rfl, rfl, rfl, .cancelled hanswer⟩
termination_by attempts

/-- The first phase of a first claim. -/
theorem alone_claimPhase_first (bundle : PolicyBundle) (htexts : Texts key commandId)
    (hrow : ReadyRow key i d.view)
    (hfresh : FreshMoments d.moments d.view) (hU : ∀ n, U ((d.moments n).draw .uuid)) : ∃ id expires d',
      (claimPhase (claimRequest key commandId bundle)).alone d = (.ok (moved i .revalidating), d') ∧
        Spares key U d.view d'.view ∧
        Held key (moved i .revalidating) (claimedExecution id key expires) d'.view := by
  have hkey : i.key = key := Lifecycle.key_of_intent? hrow.intent
  have hworker : fits 255 workerId = true := by decide
  have hready : ReadyClaim (claimRequest key commandId bundle) i d.view :=
    ⟨hrow.intent, hrow.state, hworker, htexts.command, hkey ▸ htexts.tenant⟩
  -- The row is inserted under the identifier that this moment draws, then the intent moves.
  obtain ⟨n, d₁, hclaim, hview₁⟩ := @alone_claimExecution_first d.wait.opening key
    (phaseTime d) defaultClaimLeaseSeconds hrow.unclaimed fun n => hfresh (n + 1)
  let id := (d.moments (n + 1)).draw .uuid
  obtain ⟨d₂, row, topic, payload, hphase, hview₂⟩ := alone_claimPhase_ok hready hclaim
  have hheld : Held key i (claimedExecution id key (leaseUntil (phaseTime d)
      defaultClaimLeaseSeconds)) d₁.view := by
    rw [hview₁]
    exact held_inserted hrow.intent hrow.unclaimed rfl (hfresh (n + 1))
  refine ⟨id, leaseUntil (phaseTime d) defaultClaimLeaseSeconds, d₂, hphase, ?_, ?_⟩
  · rw [hview₂]
    refine Spares.trans ?_ (spares_advanced hkey)
    rw [hview₁]
    exact spares_insertExecution rfl (hU (n + 1))
  · rw [hview₂]
    exact hheld.advanced

/-- A transaction that closes a claim whose target could not be fetched. -/
theorem alone_failAfterFetchFailure (bundle : PolicyBundle) {x : Execution} (hclosed : d.session = .closed)
    (htexts : Texts key commandId) (hheld : Held key i x d.db) (hstate : i.state = .revalidating)
    {reason : String} (hreason : fits 64 reason = true) : ∃ f d',
      (failAfterFetchFailure (claimRequest key commandId bundle) reason).alone d = (.ok f, d') ∧
        Spares key U d.db d'.db := by
  have hview : d.view = d.db := Desk.view_of_closed hclosed
  have hreopen := @alone_reopenClaim key commandId bundle i x d (hview.symm ▸ hheld) hstate
  obtain ⟨f, d₁, hfail, hspares⟩ := alone_failClaim bundle (phaseTime d)
    (d := d.wait.opening.wait.opening) htexts (show Held key i x d.view from hview.symm ▸ hheld) hstate
    (Or.inl rfl) hreason
  have hspares : Spares key U d.view d₁.view := hspares
  rw [hview] at hspares
  exact ⟨f, _, Prog.alone_transaction_ok ((alone_then hreopen).trans hfail), hspares⟩

/-- A claim under a bundle. -/
theorem alone_claimBody (rt : Runtime) (bundle : PolicyBundle) (hview : d.view = d.db)
    (htexts : Texts key commandId)
    (hrow : ReadyRow key i d.db) (hfresh : FreshMoments d.moments d.db)
    (hU : ∀ n, U ((d.moments n).draw .uuid)) : ∃ r d',
      (claimAndRevalidateBody rt (claimRequest key commandId bundle)).alone d = (r, d') ∧
        BundleRun rt key U i bundle d d' r := by
  obtain ⟨id, expires, d₁, hphase, hspares, hheld⟩ := alone_claimPhase_first bundle htexts
    (hview.symm ▸ hrow) (hview.symm ▸ hfresh) hU
  rw [hview] at hspares
  have hlater : Desk.Later d d₁ := Prog.later_of_alone hphase
  -- The first phase is committed, and the target is fetched outside of a transaction.
  let d₂ : Desk Db := d₁.wait.closing d₁.view
  have hcommit : (Prog.commit (D := Db) (X := Error)).alone d₁ = (.ok (), d₂) := rfl
  have hlater₂ : Desk.Later d d₂ := hlater.trans (Desk.later_exec d₁ .commit)
  obtain ⟨r, d₃, hfetch, hdb, hsession, hfetched⟩ := alone_fetchTarget i.tool i.canonicalParameters 1
    "target_fetch_failed" d₂
  have hlater₃ : Desk.Later d₂ d₃ := Prog.later_of_alone hfetch
  have hheld₃ : Held key (moved i .revalidating) (claimedExecution id key expires) d₃.db := hdb ▸ hheld
  obtain ⟨k, hk⟩ := hlater₂.moments
  unfold claimAndRevalidateBody
  rw [alone_then hphase, alone_then hcommit]
  cases hfetched with
  | cancelled h =>
      rw [hk] at h
      exact ⟨_, _, alone_stop hfetch, .cancelled h⟩
  | failed h hfits =>
      rw [hk] at h
      obtain ⟨f, d', hfail, hspares'⟩ := alone_failAfterFetchFailure bundle hsession htexts
        hheld₃ rfl hfits
      refine ⟨_, d', (alone_then hfetch).trans (alone_then hfail), .unfetched h (hspares.trans ?_)⟩
      rw [hdb] at hspares'
      exact hspares'
  | @snapshot _ snapshot h =>
      rw [hk] at h
      obtain ⟨n, t, g, r, d', hgate, hstart, hend, hread, hconcludes⟩ := alone_gatePhase rt bundle snapshot
        hsession htexts hheld₃ rfl rfl
      obtain ⟨k', hk'⟩ := (hlater₂.trans hlater₃).moments
      rw [hk'] at hread
      exact ⟨r, d', (alone_then hfetch).trans hgate, .gated h (hdb.symm ▸ hspares)
        ((hlater₂.trans hlater₃).clock.trans hstart) hend hread hconcludes⟩

/-- What a claim under a bundle raises is fatal. -/
theorem BundleRun.fatal {d' : Desk Db} {x : Error} (h : BundleRun rt key U i bundle d d' (.error x)) :
    Fatal x := by
  cases h with
  | cancelled hfetch => rfl
  | gated hfetch hspares hstart hend hread hconcludes =>
      cases hconcludes with
      | raised hfatal => exact hfatal
      | unstorable hsnapshot => rfl

theorem reported_of_fatal {x : Error} (h : Fatal x) : reported x = x := by
  unfold reported
  split
  · next hx =>
      subst hx
      cases h
  · rfl

/-- What a claim raises ends the loop. -/
theorem ClaimRun.fatal {d' : Desk Db} {x : Error} (h : ClaimRun rt key U i d d' (.error x)) :
    x.isStateConflict = false := by
  generalize hr : (Except.error x : Except Error (Option ExecutionPermit)) = r at h
  cases h with
  | idle hbundle hdb => cases hr
  | under hbundle hrun =>
      rename_i r
      cases r with
      | ok a => cases hr
      | error y =>
          cases hr
          have hfatal := hrun.fatal
          unfold Fatal at hfatal
          rwa [reported_of_fatal hrun.fatal] at hfatal

/-- `claim_and_revalidate` passes the fatal exceptions of its body on. -/
theorem alone_claimAndRevalidate {r : Except Error (Except RevalidationFailure ExecutionPermit)}
    {d' : Desk Db} {request : ClaimRequest}
    (h : (claimAndRevalidateBody rt request).alone d.wait = (r, d'))
    (hfatal : ∀ x, r = .error x → Fatal x) :
    (claimAndRevalidate rt request).alone d = (r, d') := by
  show (Prog.handle (claimAndRevalidateBody rt request) _).alone d.wait = _
  rw [Prog.alone_handle, h]
  cases r with
  | ok a => rfl
  | error x =>
      have hx : x ≠ .dbapi true := by
        rintro rfl
        cases hfatal _ rfl
      show (if x = .dbapi true then _ else _ : M _).alone d' = _
      rw [if_neg hx]
      rfl

/-- The attempt to claim a row that is ready. -/
theorem alone_claimAttempt (hclosed : d.session = .closed) (htexts : Texts key commandId)
    (hrow : ReadyRow key i d.db) (hfresh : FreshMoments d.moments d.db)
    (hU : ∀ n, U ((d.moments n).draw .uuid)) : ∃ r d',
      (claimAttempt rt key commandId).alone d = (r, d') ∧ ClaimRun rt key U i d d' r := by
  have hview : d.view = d.db := Desk.view_of_closed hclosed
  have hrows : (Prog.query (D := Db) (X := Error) (·.activeBundles key.tenantId)).alone d =
      (.ok (d.db.activeBundles key.tenantId), d.wait.opening) := by
    rw [Prog.alone_query, Desk.view_wait, hview]
  unfold claimAttempt
  -- Without a bundle the claim ends here; two active bundles would break a unique index.
  match hbundles : d.db.activeBundles key.tenantId with
  | [] =>
      have hactive : (getActive key.tenantId).alone d = (.ok none, d.wait.opening) := by
        unfold getActive
        rw [alone_then hrows, hbundles]
        rfl
      exact ⟨_, _, Prog.alone_session_ok (alone_then hactive), .idle hbundles rfl⟩
  | [row] =>
      have hactive : (getActive key.tenantId).alone d = (.ok (some row.bundle), d.wait.opening) := by
        unfold getActive
        rw [alone_then hrows, hbundles]
        rfl
      obtain ⟨r, d', hbody, hrun⟩ := alone_claimBody rt row.bundle
        (d := d.wait.opening.wait) hview htexts hrow (fun n => hfresh (n + 1 + 1))
        fun n => hU (n + 1 + 1)
      have hclaim := alone_claimAndRevalidate hbody fun x hx => (hx ▸ hrun).fatal
      have hbefore : Desk.Later d d.wait.opening.wait :=
        (Desk.later_exec d .select).trans (Desk.later_wait _)
      -- The bundle was read in front of the claim, and the session is closed behind it.
      have hwide : BundleRun rt key U i row.bundle d (d'.wait.closing d'.db) r :=
        hrun.widen hbefore rfl (Desk.later_exec d' .rollback) rfl
      cases r with
      | error x =>
          exact ⟨.error x, _, Prog.alone_session_error ((alone_then hactive).trans (alone_stop hclaim)),
            .under (r := .error x) hbundles hwide⟩
      | ok a =>
          refine ⟨.ok (permitOf? a), _, Prog.alone_session_ok
            ((alone_then hactive).trans ((alone_then hclaim).trans ?_)),
            .under (r := .ok a) hbundles hwide⟩
          cases a with
          | error f => rfl
          | ok permit => rfl
  | a :: b :: rest =>
      have hone := hrow.bundle
      rw [hbundles] at hone
      simp at hone

end Claim

/-! ## An execution alone -/

/-- The command that the permit of the row sends for a target. -/
def sentCommand (rt : Runtime) (i : ActionIntent) (snapshot : TargetSnapshot) : AdapterCommand :=
  ⟨operationKeyFor i.key, rt.sha256 ((Json.dict (preconditionSnapshot snapshot)).dumps ⟨true, true⟩),
    i.canonicalParameters, storedResourceVersion (some (preconditionSnapshot snapshot))⟩

/-- What an execution can record of an answer: an outcome that it knows, and texts and a summary that
their columns hold. -/
def Recordable (rt : Runtime) : ExecuteAnswer → Prop
  | .result r => (ExecutionOutcome.parse? r.outcome).isSome = true ∧ r.errorCode.all (fits 64) = true ∧
      r.providerOperationId.all (fits 255) = true ∧
        storableDict (sanitizeRawProposal rt (.dict r.summary)) = true
  | .cancelled => False
  | _ => True

section Execution

variable {rt : Runtime} {key : RevisionKey} {U : UUID → Prop} {commandId : String}
  {j : ActionIntent} {y : Execution}
  {d : Desk Db} {t : Time}

/-- The row of an execution of which nothing is recorded. -/
structure Unrecorded (y : Execution) : Prop where
  provider : y.providerOperationId = none
  error : y.errorCode = none
  summary : y.resultSummary = none

/-- A transition whose reason its column does not hold. -/
theorem alone_appendTransition_refused {intent : ActionIntent} {target : IntentState} {cause : Cause}
    (topic : String) (payload : Dict) (hlegal : isLegal intent.state target = true)
    (hreason : fits 64 cause.reasonCode = false) (d : Desk Db) :
    ∃ d', (appendTransition intent target cause t topic payload).alone d =
      (.error (.dbapi false), d') := by
  have hcheck : (requireTransition intent.state target).alone d = (.ok (), d) := by
    unfold requireTransition Prog.raiseIf
    rw [hlegal, if_neg Bool.noConfusion]
    rfl
  have hrow : ∀ sequence, (Write.insertTransition
      (transitionRow intent target cause sequence t)).admissible = false := by
    intro sequence
    show (fits 255 cause.actorId && fits 64 cause.reasonCode) = false
    rw [hreason, Bool.and_false]
  unfold appendTransition
  rw [alone_then hcheck, alone_then (Prog.alone_query _ _)]
  exact ⟨_, alone_stop (alone_flush_error (hrow _) _)⟩

theorem storable_executionPayload {target : IntentState}
    (htenant : Json.storableText j.key.tenantId = true) (hcommand : Json.storableText commandId = true) :
    storableDict (ExecutionService.transitionPayload j target commandId) = true := by
  simp only [ExecutionService.transitionPayload, storableDict, Json.storable, Json.storableFields,
    htenant, hcommand, storableText_text, storableText_state, Bool.and_true]
  decide

theorem fits_reasonOr {errorCode : Option String} (h : errorCode.all (fits 64) = true)
    (outcome : ExecutionOutcome) :
    fits 64 (reasonOr errorCode ("execution_" ++ outcome.lowered)) = true := by
  have hdefault : fits 64 ("execution_" ++ outcome.lowered) = true := by
    cases outcome <;> decide
  cases errorCode with
  | none => exact hdefault
  | some code =>
      unfold reasonOr
      by_cases hcode : code = ""
      · simp only [if_pos hcode]
        exact hdefault
      · simp only [if_neg hcode]
        exact h

theorem not_fits_reasonOr {errorCode : Option String} (h : errorCode.all (fits 64) = false)
    (default : String) : fits 64 (reasonOr errorCode default) = false := by
  cases errorCode with
  | none => cases h
  | some code =>
      have hcode : code ≠ "" := by
        rintro rfl
        revert h
        decide
      unfold reasonOr
      simp only [if_neg hcode]
      exact h

theorem sends_none {α : Type} [DecidableEq α] (accepts : α → Bool) (new : Option α) :
    sends accepts none new = new.all accepts := by
  cases new with
  | none => rfl
  | some a => rfl

theorem sends_same {α : Type} [DecidableEq α] (accepts : α → Bool) (old : Option α) :
    sends accepts old old = true := by
  unfold sends
  rw [decide_eq_true rfl, Bool.true_or]

/-- The columns that the row of an execution sends behind its call. -/
theorem admissible_finished (hnew : Unrecorded y) {answer : ExecuteAnswer} {outcome : ExecutionOutcome}
    {errorCode : Option String} :
    (Write.updateExecution y (finishedExecution rt y answer outcome errorCode t)).admissible =
      (((resultOf answer).bind (·.providerOperationId)).all (fits 255) &&
        errorCode.all (fits 64) &&
        ((resultOf answer).map fun r => sanitizeRawProposal rt (.dict r.summary)).all
          storableDict) := by
  unfold Write.admissible finishedExecution
  simp only [hnew.provider, hnew.error, hnew.summary, sends_none, sends_same, Bool.and_true]
  cases resultOf answer <;> rfl

/-- An answer can be recorded when it is classified, and its columns hold it. -/
theorem recordable_iff (hnew : Unrecorded y) {answer : ExecuteAnswer} {outcome : ExecutionOutcome}
    {errorCode : Option String} (hclass : classifyOutcome answer = some (outcome, errorCode)) :
    Recordable rt answer ↔ errorCode.all (fits 64) = true ∧
      (Write.updateExecution y (finishedExecution rt y answer outcome errorCode t)).admissible = true := by
  rw [admissible_finished hnew]
  cases answer with
  | result r =>
      obtain ⟨o, hparse, heq⟩ := Option.map_eq_some_iff.1 hclass
      cases heq
      unfold Recordable
      simp only [resultOf, Option.bind_some, Option.map_some, Option.all_some, Bool.and_eq_true, hparse,
        Option.isSome_some, true_and]
      constructor
      · rintro ⟨herror, hprovider, hsummary⟩
        exact ⟨herror, ⟨hprovider, herror⟩, hsummary⟩
      · rintro ⟨herror, ⟨hprovider, -⟩, hsummary⟩
        exact ⟨herror, hprovider, hsummary⟩
  | cancelled => cases hclass
  | timeout =>
      cases hclass
      have hcode : fits 64 "adapter_timeout_after_send" = true := by decide
      exact ⟨fun _ => ⟨hcode, Bool.and_eq_true_iff.2 ⟨hcode, rfl⟩⟩, fun _ => trivial⟩
  | preSend =>
      cases hclass
      have hcode : fits 64 "adapter_pre_send_rejected" = true := by decide
      exact ⟨fun _ => ⟨hcode, Bool.and_eq_true_iff.2 ⟨hcode, rfl⟩⟩, fun _ => trivial⟩
  | error =>
      cases hclass
      have hcode : fits 64 "adapter_unavailable" = true := by decide
      exact ⟨fun _ => ⟨hcode, Bool.and_eq_true_iff.2 ⟨hcode, rfl⟩⟩, fun _ => trivial⟩

theorem recordable_classified {answer : ExecuteAnswer} (h : Recordable rt answer) :
    ∃ outcome errorCode, classifyOutcome answer = some (outcome, errorCode) := by
  cases answer with
  | result r =>
      obtain ⟨o, ho⟩ := Option.isSome_iff_exists.1 h.1
      exact ⟨o, r.errorCode, by rw [classifyOutcome, ho]; rfl⟩
  | cancelled => exact h.elim
  | timeout => exact ⟨_, _, rfl⟩
  | preSend => exact ⟨_, _, rfl⟩
  | error => exact ⟨_, _, rfl⟩

theorem alone_execution_recordTransition (htexts : Texts key commandId)
    (hj : d.view.intent? key = some j) (hstate : j.state = .executing) (outcome : ExecutionOutcome)
    {reason : String} (hreason : fits 64 reason = true) :
    ∃ d', (ExecutionService.recordTransition j (targetState outcome) workerId commandId reason t).alone
        d = (.ok (moved j (targetState outcome)), d') ∧
      ∃ row topic payload,
        d'.view = advanced d.view j (targetState outcome) d.counter row topic payload := by
  have htenant : Json.storableText j.key.tenantId = true := by
    rw [Lifecycle.key_of_intent? hj]
    exact htexts.tenant
  have hlegal : isLegal j.state (targetState outcome) = true := by
    rw [hstate]
    cases outcome <;> rfl
  have hworker : fits 255 workerId = true := by decide
  obtain ⟨d', row, hrun, hview⟩ := @alone_appendTransition j (targetState outcome)
    ⟨"system", workerId, commandId, reason⟩ t ("execution." ++ (targetState outcome).lowered) _ hlegal
    hworker hreason (storable_executionPayload htenant htexts.command) d
  exact ⟨d', hrun, row, _, _, hview⟩

/-- What follows the call, when the answer can be recorded. -/
theorem alone_recordOutcome (htexts : Texts key commandId) (hheld : Held key j y d.view)
    (hstate : j.state = .executing) (hnew : Unrecorded y) {answer : ExecuteAnswer}
    (hanswer : Recordable rt answer) : ∃ r d',
      (recordOutcome rt j y answer workerId commandId).alone d = (.ok r, d') ∧
        Spares key U d.view d'.view := by
  obtain ⟨outcome, errorCode, hclass⟩ := recordable_classified hanswer
  let t := (d.moments 0).draw .now
  obtain ⟨herror, hadmissible⟩ := (recordable_iff (t := t) hnew hclass).1 hanswer
  have hdraw : (Prog.draw (D := Db) (X := Error) .now).alone d = (.ok t, d.wait) := rfl
  obtain ⟨d₁, hmove, row, topic, payload, hview⟩ := alone_execution_recordTransition (t := t)
    (d := d.wait) htexts hheld.intent hstate outcome (fits_reasonOr herror outcome)
  have hview : d₁.view = advanced d.view j (targetState outcome) d.counter row topic payload := hview
  have hheld₁ : Held key (moved j (targetState outcome)) y d₁.view := hview ▸ hheld.advanced
  obtain ⟨d₂, hflush, hspares, -⟩ := alone_updateHeld
    (finishedExecution rt y answer outcome errorCode t) hheld₁ rfl rfl rfl hadmissible
  unfold recordOutcome
  rw [hclass]
  refine ⟨_, d₂, (alone_then hdraw).trans ((alone_then hmove).trans (alone_then hflush)),
    Spares.trans ?_ hspares⟩
  rw [hview]
  exact spares_advanced (Lifecycle.key_of_intent? hheld.intent)

/-- What follows the call, when the answer cannot be recorded. -/
theorem alone_recordOutcome_refused (htexts : Texts key commandId) (hheld : Held key j y d.view)
    (hstate : j.state = .executing) (hnew : Unrecorded y) {answer : ExecuteAnswer}
    (hanswer : ¬ Recordable rt answer) : ∃ x d',
      (recordOutcome rt j y answer workerId commandId).alone d = (.error x, d') ∧
        x.isStateConflict = false := by
  unfold recordOutcome
  cases hclass : classifyOutcome answer with
  | none =>
      refine ⟨_, d, rfl, ?_⟩
      split
      · rfl
      · rfl
  | some classified =>
      obtain ⟨outcome, errorCode⟩ := classified
      let t := (d.moments 0).draw .now
      have hdraw : (Prog.draw (D := Db) (X := Error) .now).alone d = (.ok t, d.wait) := rfl
      have hlegal : isLegal j.state (targetState outcome) = true := by
        rw [hstate]
        cases outcome <;> rfl
      by_cases herror : errorCode.all (fits 64) = true
      · have hadmissible : (Write.updateExecution y
            (finishedExecution rt y answer outcome errorCode t)).admissible = false := by
          rw [← Bool.not_eq_true]
          exact fun h => hanswer ((recordable_iff hnew hclass).2 ⟨herror, h⟩)
        obtain ⟨d₁, hmove, -⟩ := alone_execution_recordTransition (t := t) (d := d.wait) htexts
          hheld.intent hstate outcome (fits_reasonOr herror outcome)
        exact ⟨_, _, (alone_then hdraw).trans ((alone_then hmove).trans
          (alone_stop (alone_flush_error hadmissible d₁))), rfl⟩
      · -- The error code is too long for the reason of the transition already.
        rw [Bool.not_eq_true] at herror
        obtain ⟨d₁, hmove⟩ := @alone_appendTransition_refused t j (targetState outcome)
          ⟨"system", workerId, commandId, reasonOr errorCode ("execution_" ++ outcome.lowered)⟩
          ("execution." ++ (targetState outcome).lowered)
          (ExecutionService.transitionPayload j (targetState outcome) commandId) hlegal
          (not_fits_reasonOr herror _) d.wait
        exact ⟨_, _, (alone_then hdraw).trans (alone_stop hmove), rfl⟩

/-- How the attempt of an execution comes out: the answer is recorded, or it ends the tick. -/
inductive ExecuteRun (rt : Runtime) (key : RevisionKey) (U : UUID → Prop) (tool : ToolName)
    (command : AdapterCommand) (d d' : Desk Db) : Except Error Bool → Prop
  | recorded {n : Nat} (hanswer : Recordable rt ((d.moments n).answer (.execute tool command)))
      (hspares : Spares key U d.db d'.db) : ExecuteRun rt key U tool command d d' (.ok true)
  | refused {n : Nat} {x : Error}
      (hanswer : ¬ Recordable rt ((d.moments n).answer (.execute tool command)))
      (hfatal : x.isStateConflict = false) : ExecuteRun rt key U tool command d d' (.error x)

/-- The attempt to execute a permit of the row. -/
theorem alone_executeAttempt (hclosed : d.session = .closed) (htexts : Texts key commandId)
    (hheld : Held key j y d.db) (hstate : j.state = .executing) (hnew : Unrecorded y)
    {permit : ExecutionPermit} (hid : permit.executionId = y.id) (hkey : permit.key = key) : ∃ r d',
      (executeAttempt rt permit commandId).alone d = (r, d') ∧
        ExecuteRun rt key U permit.tool (adapterCommand permit) d d' r := by
  have hview : d.view = d.db := Desk.view_of_closed hclosed
  have hheld' : Held key j y d.view := hview.symm ▸ hheld
  -- The two rows are read, and the call is sent.
  have hrow : (Prog.query (D := Db) (X := Error) (·.execution? permit.executionId)).alone d =
      (.ok (some y), d.wait.opening) := by
    rw [Prog.alone_query, Desk.view_wait, hid, hheld'.row]
  have hlock : (lockIntent permit.key).alone d.wait.opening = (.ok j, d.wait.opening.wait.opening) :=
    alone_lockIntent (hkey ▸ hheld'.intent)
  let d₁ := d.wait.opening.wait.opening.wait
  have hbody : (executePermit rt permit workerId commandId).alone d =
      (recordOutcome rt j y ((d.moments 2).answer (.execute permit.tool (adapterCommand permit)))
        workerId commandId).alone d₁ := by
    unfold executePermit
    rw [alone_then hrow, alone_then (show (Prog.orRaise .noResult (some y) : M _).alone _ =
      (.ok y, d.wait.opening) from rfl), alone_then hlock, if_neg fun h => h hstate]
    rfl
  by_cases hanswer : Recordable rt ((d.moments 2).answer (.execute permit.tool (adapterCommand permit)))
  · obtain ⟨record, d₂, hrecord, hspares⟩ := alone_recordOutcome (d := d₁) htexts
      (show Held key j y d.view from hheld') hstate hnew hanswer
    have hspares : Spares key U d.view d₂.view := hspares
    rw [hview] at hspares
    exact ⟨_, _, alone_then (Prog.alone_transaction_ok (hbody.trans hrecord)), .recorded hanswer hspares⟩
  · obtain ⟨x, d₂, hrecord, hx⟩ := alone_recordOutcome_refused (d := d₁) htexts
      (show Held key j y d.view from hheld') hstate hnew hanswer
    exact ⟨_, _, alone_stop (Prog.alone_transaction_error (hbody.trans hrecord)),
      .refused hanswer hx⟩

end Execution

/-! ## A reconciliation alone -/

/-- The rows of an execution whose outcome is not known. -/
structure UnknownRow (e : Execution) (i : ActionIntent) (s : Store) : Prop where
  row : s.execution? e.id = some e
  intent : s.intent? e.key = some i
  state : i.state = .executionUnknown
  own : OwnRow e.key e.id s

/-- The writes to the log, to the mailbox, to the intent `key` and to the row `id`. -/
def OwnWrite (key : RevisionKey) (id : UUID) : Write → Prop
  | .insertTransition _ => True
  | .insertOutbox _ _ => True
  | .updateIntent k _ => k = key
  | .updateExecution old _ => old.id = id
  | _ => False

/-- The rows of other items are those of `s`, and the row `id` is one of `key`. -/
def Within (key : RevisionKey) (U : UUID → Prop) (id : UUID) (s s' : Store) : Prop :=
  Spares key U s s' ∧ OwnRow key id s'

section Reconciliation

variable {rt : Runtime} {key : RevisionKey} {U : UUID → Prop} {id : UUID} {s s' : Store}
  {commandId : String} {i : ActionIntent} {e : Execution} {d : Desk Db}

theorem spares_updateIntent {patch : IntentPatch} {n : Nat} :
    Spares key U s (s.apply n (.updateIntent key patch)) where
  intents := fun k hk => by
    show (s.intents.map _).find? _ = _
    rw [Lifecycle.intent?_update, if_neg hk.symm]
  executions := fun _ _ _ => rfl
  rows := fun _ _ h _ => h
  ids := fun e he => Or.inl ⟨e, he, rfl, rfl⟩
  policies := rfl
  decisions := rfl
  assignments := rfl
  bundles := rfl

/-- Such a write spares the rows of the other items. -/
theorem Within.apply {w : Write} (h : Within key U id s s') (hw : OwnWrite key id w) (n : Nat) :
    Within key U id s (s'.apply n w) := by
  obtain ⟨hspares, hown⟩ := h
  cases w with
  | insertTransition row => exact ⟨{ hspares with }, hown⟩
  | insertOutbox topic payload => exact ⟨{ hspares with }, hown⟩
  | updateIntent k patch =>
      obtain rfl : k = key := hw
      exact ⟨hspares.trans spares_updateIntent, hown⟩
  | updateExecution old new =>
      obtain rfl : old.id = id := hw
      refine ⟨hspares.trans (spares_updateExecution hown), fun e he hid => ?_⟩
      obtain ⟨e₀, he₀, rfl⟩ := List.mem_map.1 he
      split at hid
      · next hold =>
          rw [if_pos hold, Lifecycle.merge_key]
          exact hown e₀ he₀ hold
      · next hold => exact absurd hid hold
  | _ => exact hw.elim

theorem isException_false {x : Error} : x.isException = false ↔ x = .cancelled := by
  cases x <;> simp [Error.isException]

theorem keeps_flush {w : Write} (hw : OwnWrite key id w) :
    (flush w).Uses (Prog.Keeps (D := Db) (Within key U id s)) (· ≠ .cancelled) :=
  Prog.Uses.bind (Prog.uses_raiseIf fun h => nomatch h) fun _ =>
    Prog.uses_write fun _ n h => h.apply hw n

theorem keeps_appendTransition (hkey : i.key = key) (target : IntentState) (cause : Cause) (t : Time)
    (topic : String) (payload : Dict) : (appendTransition i target cause t topic payload).Uses
      (Prog.Keeps (D := Db) (Within key U id s)) (· ≠ .cancelled) := by
  refine Prog.Uses.bind (Prog.uses_raiseIf fun h => nomatch h) fun _ => ?_
  refine (Prog.uses_query trivial).bind fun last => ?_
  refine Prog.Uses.bind (keeps_flush trivial) fun _ => ?_
  refine Prog.Uses.bind (keeps_flush trivial) fun _ => ?_
  exact Prog.Uses.bind (keeps_flush hkey) fun _ => trivial

/-- What follows a lookup that is answered writes to the rows of the item, and is not cancelled. -/
theorem keeps_recordEvidence (hkey : i.key = e.key) {answer : LookupAnswer}
    (hanswer : answer ≠ .cancelled) : (recordEvidence rt i e answer workerId commandId).Uses
      (Prog.Keeps (D := Db) (Within e.key U e.id s)) (· ≠ .cancelled) := by
  unfold recordEvidence
  rw [if_neg hanswer]
  refine Prog.Uses.bind (Prog.uses_draw trivial) fun t => Prog.uses_ite (fun _ => ?_) fun _ => ?_
  · -- No evidence: the last attempt is reported in the mailbox, an earlier one is only counted.
    refine Prog.uses_ite (fun _ => ?_) fun _ => ?_
    · exact Prog.Uses.bind (keeps_flush trivial) fun _ =>
        Prog.Uses.bind (keeps_flush rfl) fun _ => trivial
    · exact Prog.Uses.bind (keeps_flush rfl) fun _ => trivial
  · split
    · exact fun h => nomatch h
    · exact Prog.Uses.bind (keeps_appendTransition hkey _ _ _ _ _) fun _ =>
        Prog.Uses.bind (keeps_flush rfl) fun _ => trivial

/-- The lookup of an execution. -/
abbrev lookupOf (e : Execution) (i : ActionIntent) : Call :=
  .lookupStatus i.tool e.operationKey e.providerOperationId

/-- How the reconciliation of an item comes out: it spares the rows of the others, and it raises what the
loop does not pass over exactly when its lookup is cancelled. -/
structure ReconcileRun (e : Execution) (i : ActionIntent) (U : UUID → Prop) (d d' : Desk Db)
    (r : Except Error Bool) : Prop where
  closed : d'.session = .closed
  spares : Spares e.key U d.db d'.db
  uncaught : (∃ x, r = .error x ∧ x.isException = false) ↔
    (d.moments 2).answer (lookupOf e i) = .cancelled

/-- The attempt to reconcile an execution whose outcome is not known. -/
theorem alone_reconcileAttempt (hclosed : d.session = .closed) (hrow : UnknownRow e i d.db) : ∃ r d',
    (reconcileAttempt rt e.id commandId).alone d = (r, d') ∧ ReconcileRun e i U d d' r := by
  have hview : d.view = d.db := Desk.view_of_closed hclosed
  have hfound : (Prog.query (D := Db) (X := Error) (·.execution? e.id)).alone d =
      (.ok (some e), d.wait.opening) := by
    rw [Prog.alone_query, Desk.view_wait, hview, hrow.row]
  have hlock : (lockIntent e.key).alone d.wait.opening = (.ok i, d.wait.opening.wait.opening) :=
    alone_lockIntent ((congrArg (·.intent? e.key) hview).trans hrow.intent)
  let d₁ := d.wait.opening.wait.opening.wait
  let answer : LookupAnswer := (d.moments 2).answer (lookupOf e i)
  have hbody : (reconcile rt e.id workerId commandId).alone d =
      (recordEvidence rt i e answer workerId commandId).alone d₁ := by
    unfold reconcile
    rw [alone_then hfound, alone_then (show (Prog.orRaise _ (some e) : M _).alone _ =
      (.ok e, d.wait.opening) from rfl), alone_then hlock, if_neg fun h => h hrow.state]
    rfl
  -- A cancelled lookup is raised at once; what any other answer leads to is passed over by the loop.
  by_cases hanswer : answer = .cancelled
  · have hraise : (recordEvidence rt i e answer workerId commandId).alone d₁ =
        (.error .cancelled, d₁) := by
      unfold recordEvidence
      rw [if_pos hanswer]
      rfl
    exact ⟨_, _, alone_stop (Prog.alone_transaction_error (hbody.trans hraise)), rfl,
      Spares.refl _ _ _, fun _ => hanswer, fun _ => ⟨.cancelled, rfl, rfl⟩⟩
  · have hkeeps : (recordEvidence rt i e answer workerId commandId).Uses
        (Prog.Keeps (D := Db) (Within e.key U e.id d.db)) (· ≠ .cancelled) :=
      keeps_recordEvidence (Lifecycle.key_of_intent? hrow.intent) hanswer
    have hwithin : Within e.key U e.id d.db d₁.db := ⟨Spares.refl _ _ _, hrow.own⟩
    obtain ⟨hdb, hseen⟩ := Prog.keeps_alone hkeeps (d := d₁) hwithin (hview.symm ▸ hwithin)
    rcases hrun : (recordEvidence rt i e answer workerId commandId).alone d₁ with ⟨r, d₂⟩
    rw [hrun] at hdb hseen
    cases r with
    | ok a =>
        refine ⟨_, _, alone_then (Prog.alone_transaction_ok (hbody.trans hrun)), rfl, hseen.1, ?_,
          fun h => absurd h hanswer⟩
        rintro ⟨x, hx, -⟩
        cases hx
    | error x =>
        refine ⟨_, _, alone_stop (Prog.alone_transaction_error (hbody.trans hrun)), rfl, hdb.1, ?_,
          fun h => absurd h hanswer⟩
        rintro ⟨y, hy, hexception⟩
        cases hy
        exact absurd (isException_false.1 hexception) (hkeeps.alone_error hrun)

end Reconciliation

end HitlOps.Properties
