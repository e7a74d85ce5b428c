import HitlOps.Lifecycle.Decisions

/-!
# Claims

`claim_and_revalidate` meets the lifecycle contract. Phase 1 enters `REVALIDATING` and leaves the
duty `claimed`; the closing transaction leaves `REVALIDATING` under that duty, and when it issues a
permit it has read everything that `Authorized` asks for. `Warrant` is what the permit is worth
afterwards: it repeats a committed row whose digest was recomputed.
-/

set_option autoImplicit false

namespace HitlOps.Lifecycle

open HitlOps.Python HitlOps.Domain HitlOps.Infrastructure HitlOps.Application HitlOps.Adapters
open HitlOps.Transaction

section Rules

variable {rt : Runtime} {P : PolicyEvaluation → Prop} {τ : Know} {b : Store × Instant}
  {duty : Duty} {k : RevisionKey} {base : Revision}

theorem uses_flush {w : Write} (hw : target? w = none) : (flush w).Uses Aside Benign := by
  unfold flush
  exact (Prog.uses_raiseIf (E := Benign) rfl).bind fun _ => Prog.uses_write (S := Aside) hw

theorem uses_scalarOneOrNone {α : Type} (rows : List α) :
    (scalarOneOrNone rows).Uses Aside Benign := by
  match rows with
  | [] => exact trivial
  | [_] => exact trivial
  | _ :: _ :: _ => exact rfl

/-- A postcondition that is met whatever the error, and by a process at rest. -/
structure Rested (τ : Know) : Prop where
  free : ∃ duty, Free τ duty ∧ duty.Idle

theorem rested_rolledBack (τ : Know) : Rested ((contract rt P).rolledBack τ) :=
  ⟨_, free_rolledBack τ, ⟨rfl, rfl⟩⟩

theorem rested_committed (τ : Know) : Rested ((contract rt P).committed τ) :=
  ⟨_, free_committed τ, ⟨rfl, rfl⟩⟩

theorem Rested.reads {τ τ' : Know} (h : Rested τ) (h' : Reads τ τ') : Rested τ' := by
  obtain ⟨duty, hF, hd⟩ := h.free
  exact ⟨duty, hF.reads h', hd⟩

theorem Rested.commitOk (h : Rested τ) : (contract rt P).CommitOk τ := by
  obtain ⟨duty, hF, hd⟩ := h.free
  exact hF.commitOk hd

/-! ## Transitions of the worker -/

theorem revalidationPayload_names {a : ActionIntent} (hkey : a.key = k) (target : IntentState)
    (cause : Cause) : Names k (Revalidation.transitionPayload a target cause) := by
  subst hkey
  exact ⟨rfl, rfl, rfl⟩

theorem announces_revalidation {a : ActionIntent} (hkey : a.key = k) {target : IntentState}
    {cause : Cause} {sequence n : Nat} {dbNow : Time} :
    Announces k (transitionRow a target cause sequence dbNow)
      ⟨n, "intent.transitioned", Revalidation.transitionPayload a target cause⟩ :=
  announces_transitionRow transitioned_topic.1 transitioned_topic.2
    (revalidationPayload_names hkey target cause) rfl

/-- One move of a locked revision by a worker, up to the commit. -/
structure MovedTo (τ τ' : Know) (b : Store × Instant) (duty : Duty) (k : RevisionKey)
    (base : Revision) (a : ActionIntent) (target : IntentState) (t : StateTransition)
    (m : OutboxMessage) : Prop where
  txn : Txn τ' b duty k base (base.move a target t m) [t] []
  grows : Grows τ τ'
  legal : isLegal a.state target = true
  row : ∃ cause dbNow, t = transitionRow a target cause (base.log.length + 1) dbNow
  announces : Announces k t m
  fresh : ∀ m' ∈ base.messages, m'.sequence < m.sequence

theorem lwp_workerMove {a : ActionIntent} {target : IntentState} {cause : Cause} {dbNow : Time}
    {topic : String} {payload : Dict} (hT : Txn τ b duty k base base [] []) (hv : Valid P k a base)
    (hm : ∀ n, Announces k (transitionRow a target cause (base.log.length + 1) dbNow)
      ⟨n, topic, payload⟩)
    {Q : Except Error ActionIntent → Know → Prop} (hQ : Safe Q)
    (h : ∀ t m τ', MovedTo τ τ' b duty k base a target t m → Q (.ok (moved a target)) τ') :
    lwp rt P (appendTransition a target cause dbNow topic payload) Q τ := by
  refine lwp_appendTransition hT hv.core hm hQ fun n τ' hlegal hn _ hT' hg => ?_
  exact h _ _ τ' ⟨hT', hg, hlegal, ⟨cause, dbNow, rfl⟩, hm n, hn⟩

namespace MovedTo

variable {a : ActionIntent} {target : IntentState} {t : StateTransition} {m : OutboxMessage}
  {τ' τ'' : Know} {duty' : Duty}

theorem toState (h : MovedTo τ τ' b duty k base a target t m) : t.toState = target := by
  obtain ⟨cause, dbNow, rfl⟩ := h.row
  rfl

/-- A process without a command may commit the move, under the duty it has then. -/
theorem commitOk (h : MovedTo τ τ' b duty k base a target t m) (hv : Valid P k a base)
    (hT : Txn τ'' b duty' k base (base.move a target t m) [t] []) (hplain : target ∈ plainTargets)
    (hcommand : duty'.command = none) (howned : a.state = .revalidating → duty'.claimed = some k)
    (hpermit : ∀ p, duty'.permit = some p → p.key = k ∧ target = .executing)
    (hexec : target = .executing → Authorized rt τ''.ghost b.2 k base) :
    (contract rt P).CommitOk τ'' := by
  obtain ⟨cause, dbNow, rfl⟩ := h.row
  exact hT.commitOk_move hv hplain h.legal rfl h.announces h.fresh
    (fun c hc => by rw [hcommand] at hc; cases hc) howned hpermit hexec

/-- The duty after the commit of a move. -/
theorem settle (h : MovedTo τ τ' b duty k base a target t m) (hkey : a.key = k)
    (hT : Txn τ'' b duty' k base (base.move a target t m) [t] []) :
    τ''.ghost.settle.duty = ⟨none, none, duty'.claim,
      if target = .revalidating then some k else none, duty'.permit.or duty'.credit⟩ := by
  obtain ⟨cause, dbNow, rfl⟩ := h.row
  subst hkey
  simp only [Ghost.settle, Ghost.claimedAfter, hT.entered, hT.duty, List.getLast?_singleton]
  rfl

end MovedTo

/-! ## Phase 1 -/

theorem claimExecution_aside (key : RevisionKey) (dbNow : Time) (leaseSeconds : Nat) :
    (claimExecution key dbNow leaseSeconds).Uses Aside Benign := by
  unfold claimExecution
  refine (Prog.uses_query trivial).bind fun found => (uses_scalarOneOrNone found).bind fun e => ?_
  cases e with
  | none =>
      refine (Prog.uses_draw trivial).bind fun id => ?_
      exact (Prog.uses_insert ⟨rfl, rfl⟩).bind fun _ => Prog.uses_raiseIf rfl
  | some existing =>
      refine Prog.uses_ite (fun _ => ?_) fun _ => uses_flush rfl
      exact Prog.uses_raise rfl

/-- The claim phase may commit, and then the process is the owner of `REVALIDATING`. -/
theorem lwp_claimPhase {request : ClaimRequest} (hF : Free τ duty) (hd : duty.Idle)
    {Q : Except Error ActionIntent → Know → Prop} (hQ : Safe Q)
    (h : ∀ a τ', (contract rt P).CommitOk τ' → τ'.ghost.settle.duty =
      ⟨none, none, duty.claim, some request.key, duty.credit⟩ → Q (.ok a) τ') :
    lwp rt P (claimPhase request) Q τ := by
  unfold claimPhase
  rw [lwp, Contract.wp_bind]
  refine lwp_lockIntentNowait hF (fun τ' _ _ => hQ _ _ rfl) (fun t τ' _ _ => hQ _ _ rfl)
    fun σ b a τ₁ hl => ?_
  rw [Contract.andThen_ok]
  show (contract rt P).wp (ite _ _ _) Q τ₁
  rw [Contract.wp_ite]
  split
  · exact hQ _ _ rfl
  · next hstate =>
      rw [Contract.wp_bind]
      refine lwp_aside (claimExecution_aside _ _ _) fun r τ₂ hr₂ hx => ?_
      cases r with
      | error x => exact hQ x τ₂ (hx x rfl)
      | ok _ =>
          rw [Contract.andThen_ok]
          unfold Revalidation.recordTransition
          refine lwp_workerMove (hl.txn.reads hr₂) hl.valid
            (fun n => announces_revalidation hl.valid.core.key) hQ fun t m τ₃ hm => ?_
          have hnot : a.state ≠ .revalidating := by
            intro hs
            rw [hs] at hstate
            exact hstate ⟨by decide, by decide⟩
          refine h _ τ₃ (hm.commitOk hl.valid hm.txn (by decide) hd.command
            (fun hs => absurd hs hnot) (fun p hp => by rw [hd.permit] at hp; cases hp)
            fun he => by cases he) ?_
          rw [hm.settle hl.valid.core.key hm.txn, if_pos rfl, hd.permit, Option.none_or]

/-! ## Gates -/

/-- An approver that passes for one role holds it. -/
theorem holdsNow_of_reason {σ : Store} {tenantId actorId role : String} {scopes : List String}
    {t : Time} {environment : Option Json}
    (h : approverReason (σ.loadAssignments tenantId actorId) [role] scopes t environment = none) :
    HoldsNow σ tenantId actorId role scopes t environment := by
  obtain ⟨hroles, hscopes⟩ := approverReason_eq_none.1 h
  obtain ⟨r, hr, hheld⟩ := hroles (List.cons_ne_nil _ _)
  cases List.mem_singleton.1 hr
  exact ⟨hheld, hscopes⟩

theorem lwp_approverFailureReason {tenantId actorId : String} {roles scopes : List String}
    {t : Time} {environment : Option Json} {Q : Except Error (Option String) → Know → Prop}
    (h : ∀ σ τ', Reads τ τ' → σ ∈ τ'.ghost.reads →
      Q (.ok (approverReason (σ.loadAssignments tenantId actorId) roles scopes t environment)) τ') :
    lwp rt P (approverFailureReason tenantId actorId roles scopes t environment) Q τ := by
  unfold approverFailureReason loadAssignments
  rw [lwp, Contract.wp_bind]
  exact lwp_query fun σ τ' hr hσ _ => h σ τ' hr hσ

theorem levelActor_some {decisions : List ApprovalDecisionRow} {level : Nat} {actor : String}
    (h : levelActor decisions level = some actor) :
    ∃ d ∈ decisions, d.level = level ∧ d.actorId = actor := by
  obtain ⟨d, hd, hactor⟩ := Option.map_eq_some_iff.1 h
  have hlevel := List.find?_some hd
  exact ⟨d, List.mem_of_find?_eq_some hd, of_decide_eq_true hlevel, hactor⟩

/-- The critical levels pass only for two approvers who hold their roles now. -/
theorem lwp_criticalLevels {a : ActionIntent} {decisions : List ApprovalDecisionRow}
    {p : PolicyEvaluation} {dbNow : Time}
    (happ : ∀ d ∈ decisions, d ∈ base.decisions ∧ d.decision = .approve)
    {Q : Except Error (Option String) → Know → Prop}
    (h : ∀ r τ', Reads τ τ' →
      (r = none → CriticalHold τ'.ghost.reads a p base.decisions dbNow) → Q (.ok r) τ') :
    lwp rt P (criticalLevelsFailureReason a decisions p.requiredRoles p.requiredScopes dbNow) Q
      τ := by
  unfold criticalLevelsFailureReason
  split
  · next role₁ role₂ rest actor₁ actor₂ hroles h₁ h₂ =>
      rw [lwp, Contract.wp_ite]
      split
      · exact h _ τ (.refl τ) fun hr => by cases hr
      · next hne =>
          rw [Contract.wp_bind]
          refine lwp_approverFailureReason fun σ₁ τ₁ hr₁ hσ₁ => ?_
          rw [Contract.andThen_ok]
          cases hreason : approverReason (σ₁.loadAssignments a.key.tenantId actor₁) [role₁]
              p.requiredScopes dbNow a.environment with
          | some reason => exact h _ τ₁ hr₁ fun hr => by cases hr
          | none =>
              refine lwp_approverFailureReason fun σ₂ τ₂ hr₂ hσ₂ => ?_
              refine h _ τ₂ (hr₁.trans hr₂) fun hpass => ?_
              obtain ⟨d₁, hd₁, hl₁, rfl⟩ := levelActor_some h₁
              obtain ⟨d₂, hd₂, hl₂, rfl⟩ := levelActor_some h₂
              obtain ⟨hb₁, ha₁⟩ := happ d₁ hd₁
              obtain ⟨hb₂, ha₂⟩ := happ d₂ hd₂
              exact ⟨d₁, hb₁, d₂, hb₂, role₁, role₂, rest, ha₁, hl₁, ha₂, hl₂, hne, hroles,
                ⟨σ₁, hr₂.reads σ₁ hσ₁, holdsNow_of_reason hreason⟩,
                ⟨σ₂, hσ₂, holdsNow_of_reason hpass⟩⟩
  · exact h _ τ (.refl τ) fun hr => by cases hr

/-- The loop counts a further approver only when the approver holds the scopes now. -/
theorem lwp_countAuthorized {a : ActionIntent} {p : PolicyEvaluation} {dbNow : Time}
    {decisions : List ApprovalDecisionRow}
    (happ : ∀ d ∈ decisions, d ∈ base.decisions ∧ d.decision = .approve) (n : Nat)
    (last : Option String) {Q : Except Error (Nat × Option String) → Know → Prop}
    (h : ∀ m last' τ', Reads τ τ' →
      m ≤ n ∨ SingleHold τ'.ghost.reads a p base.decisions dbNow → Q (.ok (m, last')) τ') :
    lwp rt P (countAuthorized a p.requiredRoles p.requiredScopes dbNow decisions n last) Q τ := by
  induction decisions generalizing n last τ with
  | nil => exact h n last τ (.refl τ) (Or.inl (Nat.le_refl n))
  | cons d rest ih =>
      obtain ⟨hd, happrove⟩ := happ d List.mem_cons_self
      have hrest : ∀ e ∈ rest, e ∈ base.decisions ∧ e.decision = .approve :=
        fun e he => happ e (List.mem_cons_of_mem d he)
      unfold countAuthorized
      rw [lwp, Contract.wp_bind]
      refine lwp_approverFailureReason fun σ τ₁ hr₁ hσ => ?_
      rw [Contract.andThen_ok]
      cases hreason : approverReason (σ.loadAssignments a.key.tenantId d.actorId) p.requiredRoles
          p.requiredScopes dbNow a.environment with
      | some reason =>
          exact ih hrest n (some reason) fun m last' τ₂ hr₂ hm => h m last' τ₂ (hr₁.trans hr₂) hm
      | none =>
          refine ih hrest (n + 1) last fun m last' τ₂ hr₂ _ => h m last' τ₂ (hr₁.trans hr₂) ?_
          obtain ⟨hroles, hscopes⟩ := approverReason_eq_none.1 hreason
          exact Or.inr ⟨d, hd, happrove, σ, hr₂.reads σ hσ, hroles, hscopes⟩

/-- What approvals that pass have established, by the stored route. -/
structure StillHeld (reads : List Store) (a : ActionIntent) (p : PolicyEvaluation)
    (decisions : List ApprovalDecisionRow) (dbNow : Time) : Prop where
  critical : p.route = .criticalTwoStep → CriticalHold reads a p decisions dbNow
  single : p.route = .single → SingleHold reads a p decisions dbNow

theorem lwp_approvals {a : ActionIntent} {p : PolicyEvaluation} {dbNow : Time}
    (hT : Txn τ b duty k base base [] []) (hkey : a.key = k)
    {Q : Except Error (Option String) → Know → Prop}
    (h : ∀ r τ', Reads τ τ' →
      (r = none → StillHeld τ'.ghost.reads a p base.decisions dbNow) → Q (.ok r) τ') :
    lwp rt P (approvalsFailureReason a p dbNow) Q τ := by
  unfold approvalsFailureReason
  rw [lwp, Contract.wp_ite]
  split
  · next hroute =>
      refine h _ τ (.refl τ) fun _ => ⟨fun hcrit => ?_, fun hsingle => ?_⟩
      · rw [hroute] at hcrit
        cases hcrit
      · rw [hroute] at hsingle
        cases hsingle
  · rw [Contract.wp_bind]
    refine lwp_scan fun σ rows τ₁ hr₁ _ hview hperm => ?_
    -- The row is locked: the scan sees the decisions of the base.
    have hdec : σ.decisionsOf a.key = base.decisions := by
      rw [hkey, ← (hview.1 k base base hT.held : revision σ k = base)]
      rfl
    have happ : ∀ d ∈ rows, d ∈ base.decisions ∧ d.decision = .approve := by
      intro d hd
      have := hperm.mem_iff.1 hd
      rw [hdec, List.mem_filter, decide_eq_true_eq] at this
      exact this
    rw [Contract.andThen_ok, Contract.wp_ite]
    split
    · next hroute =>
        refine lwp_criticalLevels happ fun r τ₂ hr₂ hc =>
          h r τ₂ (hr₁.trans hr₂) fun hnone => ⟨fun _ => hc hnone, fun hsingle => ?_⟩
        rw [hroute] at hsingle
        cases hsingle
    · next hroute =>
        rw [Contract.wp_bind]
        refine lwp_countAuthorized happ 0 none fun m last τ₂ hr₂ hm => ?_
        rw [Contract.andThen_ok]
        show (contract rt P).wp (ite _ _ _) Q τ₂
        rw [Contract.wp_ite]
        split
        · exact h _ τ₂ (hr₁.trans hr₂) fun hnone => by cases hnone
        · next hcount =>
            refine h _ τ₂ (hr₁.trans hr₂) fun _ => ⟨fun hcrit => absurd hcrit hroute, fun _ => ?_⟩
            rcases hm with hzero | hhold
            · exact absurd (Nat.lt_succ_of_le hzero) hcount
            · exact hhold

/-- What gates that pass have established. -/
structure Passed (rt : Runtime) (τ : Know) (dbNow : Time) (a : ActionIntent) (base : Revision)
    (bundle : PolicyBundle) : Prop where
  digest : recomputeDigest rt a = a.intentDigest
  evidence : ∃ row, base.policies = [row] ∧
    (∀ t, a.approvalExpiresAt = some t → dbNow < t) ∧
    StillHeld τ.ghost.reads a row.evaluation base.decisions dbNow ∧
    PolicyLets rt a row.evaluation bundle

theorem policyLets_of_passed {a : ActionIntent} {stored : PolicyEvaluation}
    {bundle : PolicyBundle} {snapshot : TargetSnapshot} {execution passed : Execution}
    (h : policyAndTarget rt a stored bundle snapshot execution = .ok (.passed passed)) :
    PolicyLets rt a stored bundle := by
  unfold policyAndTarget at h
  cases hev : evaluatePolicy rt a.tool (evaluateRisk a.tool a.canonicalParameters {})
      a.canonicalParameters bundle with
  | error e => simp only [hev, bind, Except.bind] at h; cases h
  | ok current =>
      simp only [hev, bind, Except.bind] at h
      split at h
      · cases h
      · next hblock =>
          split at h
          · cases h
          · next hstrict =>
              refine ⟨current, hev, hblock, fun hallow => ?_⟩
              rw [← Bool.not_eq_true]
              exact fun hs => hstrict ⟨hs, hallow⟩

theorem failed_state {a : ActionIntent} {stored : PolicyEvaluation}
    {bundle : PolicyBundle} {snapshot : TargetSnapshot} {execution : Execution}
    {state : IntentState} {reason : String}
    (h : policyAndTarget rt a stored bundle snapshot execution = .ok (.failed state reason)) :
    state = .stale := by
  unfold policyAndTarget at h
  cases hev : evaluatePolicy rt a.tool (evaluateRisk a.tool a.canonicalParameters {})
      a.canonicalParameters bundle with
  | error e => simp only [hev, bind, Except.bind] at h; cases h
  | ok current =>
      simp only [hev, bind, Except.bind] at h
      split at h
      · cases h
        rfl
      · split at h
        · cases h
          rfl
        · split at h
          · cases h
            rfl
          · cases h

theorem textsOf_typeError {rule : Dict} {key : String} {default : List String} {x : Error}
    (h : textsOf rt rule key default = .error x) : ∃ message, x = .typeError message := by
  unfold textsOf at h
  split at h
  · cases h
  · cases h
    exact ⟨_, rfl⟩

/-- The evaluator raises when it iterates a value that is no collection, and nothing else. -/
theorem evaluatePolicy_typeError {tool : ToolName} {risk : RiskEvaluation} {parameters : Dict}
    {bundle : PolicyBundle} {x : Error}
    (h : evaluatePolicy rt tool risk parameters bundle = .error x) :
    ∃ message, x = .typeError message := by
  unfold evaluatePolicy at h
  cases hrule : toolRule bundle tool (parameters.get? "environment") with
  | none => simp only [hrule, reduceCtorEq] at h
  | some rule =>
      cases httl : validTtl rule bundle with
      | none => simp only [hrule, httl, reduceCtorEq] at h
      | some ttl =>
          simp only [hrule, httl, bind, Except.bind] at h
          split at h
          · next hroles =>
              cases h
              exact textsOf_typeError hroles
          · split at h
            · next hscopes =>
                cases h
                exact textsOf_typeError hscopes
            · split at h
              · next hobligations =>
                  cases h
                  exact textsOf_typeError hobligations
              · cases h

theorem evaluatePolicy_benign {tool : ToolName} {risk : RiskEvaluation} {parameters : Dict}
    {bundle : PolicyBundle} {x : Error}
    (h : evaluatePolicy rt tool risk parameters bundle = .error x) : Benign x := by
  obtain ⟨message, rfl⟩ := evaluatePolicy_typeError h
  rfl

theorem policyAndTarget_benign {a : ActionIntent} {stored : PolicyEvaluation}
    {bundle : PolicyBundle} {snapshot : TargetSnapshot} {execution : Execution} {x : Error}
    (h : policyAndTarget rt a stored bundle snapshot execution = .error x) : Benign x := by
  unfold policyAndTarget at h
  cases hev : evaluatePolicy rt a.tool (evaluateRisk a.tool a.canonicalParameters {})
      a.canonicalParameters bundle with
  | error e =>
      simp only [hev, bind, Except.bind, Except.error.injEq] at h
      exact h ▸ evaluatePolicy_benign hev
  | ok current =>
      simp only [hev, bind, Except.bind] at h
      split at h
      · cases h
      · split at h
        · cases h
        · split at h
          · cases h
          · cases h

theorem lwp_revalidateGates {a : ActionIntent} {execution : Execution} {bundle : PolicyBundle}
    {snapshot : TargetSnapshot} (hT : Txn τ b duty k base base [] []) (hv : Valid P k a base)
    {Q : Except Error Gates → Know → Prop} (hQ : Safe Q)
    (hfail : ∀ state reason τ', Reads τ τ' → state = .stale ∨ state = .expired →
      Q (.ok (.failed state reason)) τ')
    (hpass : ∀ passed τ', Reads τ τ' → Passed rt τ' b.2 a base bundle →
      Q (.ok (.passed passed)) τ') :
    lwp rt P (revalidateGates rt a execution b.2 bundle snapshot) Q τ := by
  unfold revalidateGates
  rw [lwp, Contract.wp_ite]
  split
  · exact hfail _ _ τ (.refl τ) (Or.inl rfl)
  · next hdigest =>
      rw [Decidable.not_not] at hdigest
      rw [Contract.wp_bind]
      refine lwp_query fun σ τ₁ hr₁ _ hview => ?_
      -- So does the query of the policy row.
      have hpol : σ.policiesOf a.key = base.policies := by
        rw [hv.core.key, ← (hview.1 k base base hT.held : revision σ k = base)]
        rfl
      rw [Contract.andThen_ok, hpol, Contract.wp_bind]
      refine lwp_scalarOne hQ fun row hrow => ?_
      rw [Contract.andThen_ok, Contract.wp_ite]
      split
      · exact hfail _ _ τ₁ hr₁ (Or.inr rfl)
      · next hwindow =>
          rw [Contract.wp_bind]
          refine lwp_approvals (hT.reads hr₁) hv.core.key fun r τ₂ hr₂ hcrit => ?_
          rw [Contract.andThen_ok]
          cases r with
          | some reason => exact hfail _ _ τ₂ (hr₁.trans hr₂) (Or.inl rfl)
          | none =>
              show (contract rt P).wp (ofExcept _) Q τ₂
              cases hgate : policyAndTarget rt a row.evaluation bundle snapshot execution with
              | error x => exact hQ x τ₂ (policyAndTarget_benign hgate)
              | ok gates =>
                  cases gates with
                  | failed state reason =>
                      exact hfail _ _ τ₂ (hr₁.trans hr₂) (Or.inl (failed_state hgate))
                  | passed e =>
                      refine hpass e τ₂ (hr₁.trans hr₂) ⟨hdigest, row, hrow, fun t ht => ?_,
                        hcrit rfl, policyLets_of_passed hgate⟩
                      by_contra hle
                      rw [ht] at hwindow
                      exact hwindow (decide_eq_true (Nat.le_of_not_lt hle))

/-! ## Transactions -/

variable {α : Type}

/-- The postcondition of a body that a transaction commits. -/
def Commits (rt : Runtime) (P : PolicyEvaluation → Prop) (Q : Except Error α → Know → Prop) :
    Except Error α → Know → Prop
  | .ok a, τ => (contract rt P).CommitOk τ ∧ Q (.ok a) ((contract rt P).committed τ)
  | .error x, τ => Q (.error x) ((contract rt P).rolledBack τ)

theorem lwp_transaction {p : M α} {Q : Except Error α → Know → Prop}
    (h : lwp rt P p (Commits rt P Q) τ) : lwp rt P (Prog.transaction (D := Db) p) Q τ := by
  unfold Prog.transaction
  rw [lwp, Contract.wp_handle, Contract.wp_bind]
  refine Contract.wp_mono (contract rt P) (fun r τ' hr => ?_) h
  cases r with
  | ok a => exact hr
  | error x => exact hr

/-- The postcondition of a body whose session is closed behind it. -/
def Closes (rt : Runtime) (P : PolicyEvaluation → Prop) (Q : Except Error α → Know → Prop) :
    Except Error α → Know → Prop := fun r τ => Q r ((contract rt P).rolledBack τ)

theorem lwp_session {p : M α} {Q : Except Error α → Know → Prop}
    (h : lwp rt P p (Closes rt P Q) τ) : lwp rt P (Prog.session (D := Db) p) Q τ := by
  unfold Prog.session
  rw [lwp, Contract.wp_handle, Contract.wp_bind]
  refine Contract.wp_mono (contract rt P) (fun r τ' hr => ?_) h
  cases r with
  | ok a => exact hr
  | error x => exact hr

/-- Every error meets the postcondition of a process at rest. -/
def Recovers (Q : Except Error α → Know → Prop) : Prop :=
  ∀ x τ', Rested τ' → Q (.error x) τ'

theorem safe_commits {Q : Except Error α → Know → Prop} (hQ : Recovers Q) :
    Safe (Commits rt P Q) := fun x τ' _ => hQ x _ (rested_rolledBack τ')

/-! ## Phase 2 -/

theorem fetchTarget_aside (tool : ToolName) (parameters : Dict) (attempts : Nat)
    (reason : String) : (fetchTarget tool parameters attempts reason).Uses Aside Benign := by
  induction attempts generalizing reason with
  | zero => exact trivial
  | succ attempts ih =>
      unfold fetchTarget
      refine (Prog.uses_call (S := Aside) fun _ _ h => by cases h).bind fun answer => ?_
      cases answer with
      | snapshot s => exact trivial
      | timeout => exact ih _
      | error => exact ih _
      | cancelled => exact rfl

/-! ## Phase 3 -/

theorem lwp_reopenClaim {request : ClaimRequest} (hF : Free τ duty)
    {Q : Except Error (ActionIntent × Execution × Time) → Know → Prop} (hQ : Safe Q)
    (h : ∀ a execution b base τ', Txn τ' b duty request.key base base [] [] →
      Valid P request.key a base → a.state = .revalidating →
      Q (.ok (a, execution, b.2)) τ') :
    lwp rt P (reopenClaim request) Q τ := by
  unfold reopenClaim
  rw [lwp, Contract.wp_bind]
  refine lwp_lockIntentNowait hF (fun τ' _ _ => hQ _ _ rfl) (fun t τ' _ _ => hQ _ _ rfl)
    fun σ b a τ₁ hl => ?_
  rw [Contract.andThen_ok]
  show (contract rt P).wp (ite _ _ _) Q τ₁
  rw [Contract.wp_ite]
  split
  · exact hQ _ _ rfl
  · next hstate =>
      rw [Contract.wp_bind]
      refine lwp_query fun σ' τ₂ hr₂ _ _ => ?_
      rw [Contract.andThen_ok, Contract.wp_bind]
      refine lwp_scalarOne hQ fun execution _ => ?_
      exact h a execution b _ τ₂ (hl.txn.reads hr₂) hl.valid (Decidable.not_not.1 hstate)

theorem lwp_failClaim {request : ClaimRequest} {a : ActionIntent} {execution : Execution}
    {state : IntentState} {reason : String} (hT : Txn τ b duty k base base [] [])
    (hv : Valid P k a base) (hd : duty.Idle) (hclaimed : duty.claimed = some k)
    (hstate : state = .stale ∨ state = .expired)
    {Q : Except Error RevalidationFailure → Know → Prop} (hQ : Safe Q)
    (h : ∀ failure τ', (contract rt P).CommitOk τ' → Q (.ok failure) τ') :
    lwp rt P (failClaim request a execution b.2 state reason) Q τ := by
  unfold failClaim
  rw [lwp, Contract.wp_bind]
  unfold Revalidation.recordTransition
  refine lwp_workerMove hT hv (fun n => announces_revalidation hv.core.key) hQ
    fun t m τ₁ hm => ?_
  rw [Contract.andThen_ok, Contract.wp_bind]
  refine lwp_flush_aside rfl hQ fun τ₂ _ hr₂ => ?_
  have hplain : state ∈ plainTargets ∧ state ≠ .executing := by
    rcases hstate with rfl | rfl
    · exact ⟨by decide, by decide⟩
    · exact ⟨by decide, by decide⟩
  refine h _ τ₂ (hm.commitOk hv (hm.txn.reads hr₂) hplain.1 hd.command (fun _ => hclaimed)
    (fun p hp => by rw [hd.permit] at hp; cases hp) fun he => absurd he hplain.2)

theorem lwp_failAfterFetchFailure {request : ClaimRequest} {reason : String} (hF : Free τ duty)
    (hd : duty.Idle) (hclaimed : duty.claimed = some request.key)
    {Q : Except Error RevalidationFailure → Know → Prop} (hQ : Recovers Q)
    (h : ∀ failure τ', Rested τ' → Q (.ok failure) τ') :
    lwp rt P (failAfterFetchFailure request reason) Q τ := by
  unfold failAfterFetchFailure
  refine lwp_transaction ?_
  rw [lwp, Contract.wp_bind]
  refine lwp_reopenClaim hF (safe_commits hQ) fun a execution b base τ₁ hT hv _ => ?_
  rw [Contract.andThen_ok]
  exact lwp_failClaim hT hv hd hclaimed (Or.inl rfl) (safe_commits hQ)
    fun failure τ₂ hok => ⟨hok, h failure _ (rested_committed τ₂)⟩

/-! ## Permits -/

/-- The permit repeats the intent, whose digest was recomputed. -/
structure Backs (rt : Runtime) (a : ActionIntent) (permit : ExecutionPermit) : Prop where
  key : permit.key = a.key
  tool : permit.tool = a.tool
  parameters : permit.typedParameters = a.canonicalParameters
  operationKey : permit.operationKey = operationKeyFor a.key
  digest : recomputeDigest rt a = a.intentDigest

theorem recomputeDigest_congr {a a' : ActionIntent} (h : SameIdentity a a') :
    recomputeDigest rt a' = recomputeDigest rt a := by
  unfold recomputeDigest
  rw [h.key, h.tool, h.parameters, h.requester]

theorem Backs.mono {a a' : ActionIntent} {permit : ExecutionPermit} (h : Backs rt a permit)
    (hs : SameIdentity a a') : Backs rt a' permit where
  key := h.key.trans hs.key.symm
  tool := h.tool.trans hs.tool.symm
  parameters := h.parameters.trans hs.parameters.symm
  operationKey := by rw [h.operationKey, hs.key]
  digest := by rw [recomputeDigest_congr hs, h.digest, hs.digest]

theorem backs_permitFor {a : ActionIntent} {execution : Execution} {dbNow : Time}
    (h : recomputeDigest rt a = a.intentDigest) :
    Backs rt a (permitFor rt a execution dbNow) := ⟨rfl, rfl, rfl, rfl, h⟩

/-- The process may use the permit once: it repeats a committed row. -/
structure Warrant (rt : Runtime) (τ : Know) (permit : ExecutionPermit) : Prop where
  free : ∃ duty, Free τ duty ∧ duty.Idle ∧ duty.credit = some permit
  backed : ∃ r a, τ.seen permit.key r ∧ r.intent = some a ∧ Backs rt a permit

theorem Warrant.rolledBack {permit : ExecutionPermit} (h : Warrant rt τ permit) :
    Warrant rt ((contract rt P).rolledBack τ) permit := by
  obtain ⟨duty, hF, _, hcredit⟩ := h.free
  refine ⟨⟨_, free_rolledBack τ, ⟨rfl, rfl⟩, ?_⟩, h.backed⟩
  show τ.ghost.duty.credit = some permit
  rw [hF.duty]
  exact hcredit

/-- Gates that passed authorize the move to `EXECUTING`. -/
theorem Passed.authorized {request : ClaimRequest} {a : ActionIntent} {dbNow : Time} {τ' : Know}
    (h : Passed rt τ dbNow a base request.bundle) (hv : Valid P request.key a base)
    (hclaim : τ'.ghost.duty.claim = some (request.key, request.bundle)) (hg : Grows τ τ') :
    Authorized rt τ'.ghost dbNow request.key base := by
  obtain ⟨row, hrow, hwindow, hheld, hlets⟩ := h.evidence
  refine ⟨⟨a, row, request.bundle, hv.core.intent, hrow, hclaim, hwindow, fun hroute =>
    (hheld.critical hroute).mono hg.reads, hlets⟩, fun a' row' ha' hrow' hroute => ?_⟩
  cases hv.core.intent.symm.trans ha'
  cases hrow.symm.trans hrow'
  exact (hheld.single hroute).mono hg.reads

theorem lwp_issuePermit {request : ClaimRequest} {a : ActionIntent} {read passed : Execution}
    (hT : Txn τ b duty request.key base base [] []) (hv : Valid P request.key a base)
    (hd : duty.Idle) (hclaimed : duty.claimed = some request.key)
    (hclaim : duty.claim = some (request.key, request.bundle))
    (hpassed : Passed rt τ b.2 a base request.bundle)
    {Q : Except Error ExecutionPermit → Know → Prop} (hQ : Safe Q)
    (h : ∀ permit τ', (contract rt P).CommitOk τ' →
      Warrant rt ((contract rt P).committed τ') permit → Q (.ok permit) τ') :
    lwp rt P (issuePermit rt request a read passed b.2) Q τ := by
  unfold issuePermit
  rw [lwp, Contract.wp_bind]
  unfold Revalidation.recordTransition
  refine lwp_workerMove hT hv (fun n => announces_revalidation hv.core.key) hQ
    fun t m τ₁ hm => ?_
  rw [Contract.andThen_ok, Contract.wp_bind]
  refine lwp_flush_aside rfl hQ fun τ₂ _ hr₂ => ?_
  rw [Contract.andThen_ok, Contract.wp_bind, Contract.wp_mark, Contract.andThen_ok,
    Contract.wp_pure]
  have hdigest : recomputeDigest rt (moved a .executing) = (moved a .executing).intentDigest :=
    hpassed.digest
  set permit := permitFor rt (moved a .executing) passed b.2 with hpermit
  have hT₂ := hm.txn.reads hr₂
  set τ₃ := (contract rt P).noted τ₂ (.did (.mark (.permit permit)) ()) with hτ₃
  -- The trace point sets the permit of the open transaction.
  have hT₃ : Txn τ₃ b { duty with permit := some permit } request.key base
      (base.move a .executing t m) [t] [] := by
    refine ⟨hT₂.begun, hT₂.held, ?_, hT₂.entered, hT₂.decided⟩
    show { τ₂.ghost.duty with permit := some permit } = _
    rw [hT₂.duty]
  have hg₃ : Grows τ τ₃ := (hm.grows.trans hr₂.toGrows).trans
    ⟨fun _ _ h => h, fun _ h => h, fun _ h => h⟩
  refine h permit τ₃ (hm.commitOk hv hT₃ (by decide) hd.command (fun _ => hclaimed)
    (fun p hp => ?_) fun _ => ?_) ⟨⟨_, free_committed τ₃, ⟨rfl, rfl⟩, ?_⟩, ?_⟩
  · cases hp
    exact ⟨hv.core.key, rfl⟩
  · refine hpassed.authorized hv ?_ hg₃
    rw [hT₃.duty]
    exact hclaim
  · rw [hm.settle hv.core.key hT₃]
    rfl
  · refine ⟨base.move a .executing t m, moved a .executing, ?_, rfl, backs_permitFor hdigest⟩
    have hkey : permit.key = request.key := hv.core.key
    rw [hkey]
    exact Local.publish_held hT₃.held

theorem lwp_gatePhase {request : ClaimRequest} {snapshot : TargetSnapshot} (hF : Free τ duty)
    (hd : duty.Idle) (hclaimed : duty.claimed = some request.key)
    (hclaim : duty.claim = some (request.key, request.bundle))
    {Q : Except Error (Except RevalidationFailure ExecutionPermit) → Know → Prop}
    (hQ : Recovers Q) (hfail : ∀ failure τ', Rested τ' → Q (.ok (.error failure)) τ')
    (hpermit : ∀ permit τ', Warrant rt τ' permit → Q (.ok (.ok permit)) τ') :
    lwp rt P (gatePhase rt request snapshot) Q τ := by
  unfold gatePhase
  refine lwp_transaction ?_
  rw [lwp, Contract.wp_bind]
  refine lwp_reopenClaim hF (safe_commits hQ) fun a execution b base τ₁ hT hv _ => ?_
  rw [Contract.andThen_ok]
  show (contract rt P).wp (_ >>= _) _ τ₁
  rw [Contract.wp_bind]
  refine lwp_revalidateGates hT hv (safe_commits hQ) (fun state reason τ₂ hr₂ hstate => ?_)
    fun passed τ₂ hr₂ hpassed => ?_
  · rw [Contract.andThen_ok, Contract.wp_bind]
    refine lwp_failClaim (hT.reads hr₂) hv hd hclaimed hstate (safe_commits hQ)
      fun failure τ₃ hok => ?_
    exact ⟨hok, hfail failure _ (rested_committed τ₃)⟩
  · rw [Contract.andThen_ok, Contract.wp_bind]
    refine lwp_issuePermit (hT.reads hr₂) hv hd hclaimed hclaim hpassed (safe_commits hQ)
      fun permit τ₃ hok hw => ?_
    exact ⟨hok, hpermit permit _ hw⟩

/-- A claim by a process at rest, up to the session that its caller closes. -/
theorem lwp_claimAndRevalidate {request : ClaimRequest} (hτ : Rested τ)
    {Q : Except Error (Except RevalidationFailure ExecutionPermit) → Know → Prop}
    (hQ : ∀ x τ', Q (.error x) τ') (hfail : ∀ failure τ', Rested τ' → Q (.ok (.error failure)) τ')
    (hpermit : ∀ permit τ', Warrant rt τ' permit → Q (.ok (.ok permit)) τ') :
    lwp rt P (claimAndRevalidate rt request) Q τ := by
  obtain ⟨duty, hF, hd⟩ := hτ.free
  unfold claimAndRevalidate
  rw [lwp, Contract.wp_bind, Contract.wp_mark, Contract.andThen_ok, Contract.wp_handle]
  set duty₁ : Duty := { duty with claim := some (request.key, request.bundle) } with hduty₁
  set τ₁ := (contract rt P).noted τ (.did (.mark (.claim request.key request.bundle)) ())
  have hF₁ : Free τ₁ duty₁ := by
    refine ⟨hF.held, ?_, hF.entered, hF.decided⟩
    show { τ.ghost.duty with claim := some (request.key, request.bundle) } = _
    rw [hF.duty]
  have hd₁ : duty₁.Idle := ⟨hd.command, hd.permit⟩
  -- Every error leaves through the handler, which raises again.
  set Q' := (contract rt P).orElse (fun x =>
    if x = .dbapi true then
      (.raise (.stateConflictError "row lock or serialization conflict; retry") :
        M (Except RevalidationFailure ExecutionPermit))
    else .raise x) Q with hQ'
  have herr : ∀ x τ', Q' (.error x) τ' := by
    intro x τ'
    rw [hQ', Contract.orElse_error, Contract.wp_ite]
    split
    · exact hQ _ _
    · exact hQ _ _
  unfold claimAndRevalidateBody
  rw [Contract.wp_bind]
  refine lwp_claimPhase hF₁ hd₁ (fun x τ' _ => herr x τ') fun a τ₂ hok hsettle => ?_
  rw [Contract.andThen_ok, Contract.wp_bind, Contract.wp_commit]
  refine ⟨hok, ?_⟩
  rw [Contract.andThen_ok, Contract.wp_bind]
  have hF₃ := @free_committed rt P τ₂
  rw [hsettle] at hF₃
  refine lwp_aside (fetchTarget_aside _ _ _ _) fun r τ₄ hr₄ hx => ?_
  have hF₄ := hF₃.reads hr₄
  cases r with
  | error x => exact herr x τ₄
  | ok fetched =>
      rw [Contract.andThen_ok]
      cases fetched with
      | error reason =>
          show (contract rt P).wp (_ >>= _) Q' τ₄
          rw [Contract.wp_bind]
          exact lwp_failAfterFetchFailure hF₄ ⟨rfl, rfl⟩ rfl (fun x τ' _ => herr x τ')
            fun failure τ₅ h => hfail failure τ₅ h
      | ok snapshot =>
          exact lwp_gatePhase hF₄ ⟨rfl, rfl⟩ rfl rfl (fun x τ' _ => herr x τ') hfail hpermit

end Rules

end HitlOps.Lifecycle
