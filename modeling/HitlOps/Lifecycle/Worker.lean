import HitlOps.Lifecycle.Claim
import HitlOps.Worker

/-!
# Worker passes

Execution, reconciliation and recovery meet the lifecycle contract, and so does a whole tick: each
loop of the tick starts every round with a process at rest. `execute` is the only place that calls
`adapter.execute`, and it does so under a `Warrant`.
-/

set_option autoImplicit false

namespace HitlOps.Lifecycle

open HitlOps.Python HitlOps.Domain HitlOps.Infrastructure HitlOps.Application HitlOps.Adapters
open HitlOps.Transaction HitlOps.Worker

section Rules

variable {rt : Runtime} {P : PolicyEvaluation → Prop} {τ : Know} {b : Store × Instant}
  {duty : Duty} {k : RevisionKey} {base : Revision} {α : Type}

/-! ## Messages -/

theorem executionPayload_names {a : ActionIntent} (hkey : a.key = k) (target : IntentState)
    (commandId : String) : Names k (ExecutionService.transitionPayload a target commandId) := by
  subst hkey
  exact ⟨rfl, rfl, rfl⟩

theorem announces_execution {a : ActionIntent} (hkey : a.key = k) {target : IntentState}
    {cause : Cause} {sequence n : Nat} {dbNow : Time} {topic commandId : String}
    (htopic : topic ∈ lifecycleTopics) (hcreated : topic ≠ "intent.created") :
    Announces k (transitionRow a target cause sequence dbNow)
      ⟨n, topic, ExecutionService.transitionPayload a target commandId⟩ :=
  announces_transitionRow htopic hcreated (executionPayload_names hkey target commandId) rfl

/-- The topics of the execution service announce transitions. -/
theorem executionTopic (outcome : ExecutionOutcome) :
    "execution." ++ (targetState outcome).lowered ∈ lifecycleTopics ∧
      "execution." ++ (targetState outcome).lowered ≠ "intent.created" := by
  cases outcome <;> exact ⟨by decide, by decide⟩

/-- A worker's last move of an intent leaves `EXECUTING` or `EXECUTION_UNKNOWN` behind. -/
theorem targetState_plain (outcome : ExecutionOutcome) :
    targetState outcome ∈ plainTargets ∧ targetState outcome ≠ .executing := by
  cases outcome <;> exact ⟨by decide, by decide⟩

/-! ## Execution -/

theorem lwp_recordOutcome {a : ActionIntent} {execution : Execution} {answer : ExecuteAnswer}
    {workerId commandId : String} (hT : Txn τ b duty k base base [] []) (hv : Valid P k a base)
    (hstate : a.state = .executing) (hd : duty.Idle)
    {Q : Except Error ExecutionRecord → Know → Prop} (hQ : Safe Q)
    (h : ∀ record τ', (contract rt P).CommitOk τ' → Q (.ok record) τ') :
    lwp rt P (recordOutcome rt a execution answer workerId commandId) Q τ := by
  unfold recordOutcome
  cases classifyOutcome answer with
  | none =>
      refine hQ _ _ ?_
      split
      · rfl
      · rfl
  | some e =>
      obtain ⟨outcome, errorCode⟩ := e
      show (contract rt P).wp (_ >>= _) Q τ
      rw [Contract.wp_bind]
      refine lwp_now fun dbNow τ₁ hr₁ _ => ?_
      rw [Contract.andThen_ok, Contract.wp_bind]
      unfold ExecutionService.recordTransition
      obtain ⟨htopic, hcreated⟩ := executionTopic outcome
      obtain ⟨hplain, hexec⟩ := targetState_plain outcome
      refine lwp_workerMove (hT.reads hr₁) hv
        (fun n => announces_execution hv.core.key htopic hcreated) hQ fun t m τ₂ hm => ?_
      rw [Contract.andThen_ok, Contract.wp_bind]
      refine lwp_flush_aside rfl hQ fun τ₃ _ hr₃ => ?_
      refine h _ τ₃ (hm.commitOk hv (hm.txn.reads hr₃) hplain hd.command (fun hs => ?_)
        (fun p hp => by rw [hd.permit] at hp; cases hp) fun he => absurd he hexec)
      rw [hstate] at hs
      cases hs

/-- The call of the adapter, under a warrant and the row lock of an executing intent. -/
theorem lwp_executePermit {permit : ExecutionPermit} {workerId commandId : String}
    (hw : Warrant rt τ permit) {Q : Except Error ExecutionRecord → Know → Prop} (hQ : Safe Q)
    (h : ∀ record τ', (contract rt P).CommitOk τ' → Q (.ok record) τ') :
    lwp rt P (executePermit rt permit workerId commandId) Q τ := by
  obtain ⟨⟨duty, hF, hd, hcredit⟩, r, a₀, hseen, ha₀, hback⟩ := hw
  unfold executePermit
  rw [lwp, Contract.wp_bind]
  refine lwp_query fun σ₁ τ₁ hr₁ _ _ => ?_
  rw [Contract.andThen_ok, Contract.wp_bind]
  refine lwp_orRaise rfl hQ fun execution _ => ?_
  rw [Contract.andThen_ok, Contract.wp_bind]
  refine lwp_lockIntent (hF.reads hr₁) hQ fun σ b a τ₂ hl => ?_
  rw [Contract.andThen_ok, Contract.wp_ite]
  split
  · exact hQ _ _ rfl
  · next hstate =>
      rw [Decidable.not_not] at hstate
      rw [Contract.wp_bind, Contract.wp_call]
      -- The locked row still has the identity that the permit repeats.
      obtain ⟨a', ha', hsame⟩ := (hl.later r (hr₁.seen _ r hseen)).identity a₀ ha₀
      rw [hl.valid.core.intent, Option.some.injEq] at ha'
      subst ha'
      have hbacks := hback.mono hsame
      refine ⟨⟨permit.key, _, a, permit, hl.txn.held, hl.valid.core.intent, hstate, ?_, rfl, ?_,
        hbacks.tool, hbacks.parameters, hbacks.digest⟩, fun answer => ?_⟩
      · rw [hl.txn.duty]
        exact hcredit
      · rw [hbacks.key]
        exact hbacks.operationKey
      · rw [Contract.andThen_ok]
        refine lwp_recordOutcome (?_ : Txn _ b { duty with credit := none } _ _ _ _ _) hl.valid
          hstate ⟨hd.command, hd.permit⟩ hQ h
        refine ⟨hl.txn.begun, hl.txn.held, ?_, hl.txn.entered, hl.txn.decided⟩
        show { τ₂.ghost.duty with credit := none } = _
        rw [hl.txn.duty]

theorem lwp_execute {permit : ExecutionPermit} {commandId : String} (hw : Warrant rt τ permit)
    {Q : Except Error Bool → Know → Prop} (hQ : Recovers Q)
    (h : ∀ done τ', Rested τ' → Q (.ok done) τ') :
    lwp rt P (execute rt permit commandId) Q τ := by
  unfold execute
  rw [lwp, Contract.wp_handle, Contract.wp_bind]
  have herr : Recovers ((contract rt P).andThen (fun _ => (return true : M Bool))
      ((contract rt P).orElse (fun x => if x.isStateConflict = true then return false else .raise x)
        Q)) (α := ExecutionRecord) := by
    intro x τ' hτ'
    rw [Contract.andThen_error, Contract.orElse_error, Contract.wp_ite]
    split
    · exact h _ _ hτ'
    · exact hQ _ _ hτ'
  refine lwp_transaction (lwp_executePermit hw (safe_commits herr) fun record τ' hok => ?_)
  exact ⟨hok, h _ _ (rested_committed τ')⟩

/-! ## Claims of the worker -/

theorem lwp_getActive {tenantId : String} {Q : Except Error (Option PolicyBundle) → Know → Prop}
    (hQ : Safe Q) (h : ∀ bundle τ', Reads τ τ' → Q (.ok bundle) τ') :
    lwp rt P (getActive tenantId) Q τ := by
  unfold getActive
  rw [lwp, Contract.wp_bind]
  refine lwp_query fun σ τ₁ hr₁ _ _ => ?_
  rw [Contract.andThen_ok, Contract.wp_bind]
  exact lwp_scalarOneOrNone hQ (fun _ => h _ _ hr₁) fun row _ => h _ _ hr₁

theorem lwp_claim {key : RevisionKey} {commandId : String} (hτ : Rested τ)
    {Q : Except Error (Option ExecutionPermit) → Know → Prop} (hQ : Recovers Q)
    (hnone : ∀ τ', Rested τ' → Q (.ok none) τ')
    (hsome : ∀ permit τ', Warrant rt τ' permit → Q (.ok (some permit)) τ') :
    lwp rt P (claim rt key commandId) Q τ := by
  unfold claim
  rw [lwp, Contract.wp_handle]
  refine lwp_session ?_
  set Q' := Closes rt P ((contract rt P).orElse
    (fun x => if x.isStateConflict = true then (return none : M (Option ExecutionPermit))
      else .raise x) Q) with hQ'
  have herr : ∀ x τ', Q' (.error x) τ' := by
    intro x τ'
    rw [hQ', Closes, Contract.orElse_error, Contract.wp_ite]
    split
    · exact hnone _ (rested_rolledBack τ')
    · exact hQ _ _ (rested_rolledBack τ')
  rw [lwp, Contract.wp_bind]
  refine lwp_getActive (fun x τ' _ => herr x τ') fun bundle τ₁ hr₁ => ?_
  rw [Contract.andThen_ok]
  cases bundle with
  | none => exact hnone _ (rested_rolledBack τ₁)
  | some bundle =>
      show (contract rt P).wp (_ >>= _) Q' τ₁
      rw [Contract.wp_bind]
      refine lwp_claimAndRevalidate (hτ.reads hr₁) herr (fun failure τ₂ _ => ?_)
        fun permit τ₂ hw => ?_
      · exact hnone _ (rested_rolledBack τ₂)
      · exact hsome permit _ hw.rolledBack

theorem lwp_executeEligible (keys : List RevisionKey) {stats : Stats} (hτ : Rested τ)
    {Q : Except Error Stats → Know → Prop} (hQ : Recovers Q)
    (h : ∀ stats' τ', Rested τ' → Q (.ok stats') τ') :
    lwp rt P (executeEligible rt keys stats) Q τ := by
  induction keys generalizing stats τ with
  | nil => exact h stats τ hτ
  | cons key rest ih =>
      unfold executeEligible
      rw [lwp, Contract.wp_bind]
      refine lwp_uuid fun id τ₁ hr₁ => ?_
      rw [Contract.andThen_ok, Contract.wp_bind]
      refine lwp_claim (hτ.reads hr₁) hQ (fun τ₂ hτ₂ => ih hτ₂) fun permit τ₂ hw => ?_
      rw [Contract.andThen_ok]
      show (contract rt P).wp (_ >>= _) Q τ₂
      rw [Contract.wp_bind]
      exact lwp_execute hw hQ fun done τ₃ hτ₃ => ih hτ₃

/-! ## Recovery -/

theorem lwp_recoverCandidate {candidate : Execution} {commandId : String} (hτ : Rested τ)
    {Q : Except Error Bool → Know → Prop} (hQ : Recovers Q)
    (h : ∀ done τ', Rested τ' → Q (.ok done) τ') :
    lwp rt P (recoverCandidate candidate commandId) Q τ := by
  unfold recoverCandidate
  refine lwp_transaction ?_
  have hdone : ∀ done τ', (contract rt P).CommitOk τ' → Commits rt P Q (.ok done) τ' :=
    fun done τ' hok => ⟨hok, h done _ (rested_committed τ')⟩
  obtain ⟨duty, hF, hd⟩ := hτ.free
  rw [lwp, Contract.wp_bind]
  refine lwp_query fun σ₁ τ₁ hr₁ _ _ => ?_
  rw [Contract.andThen_ok]
  have hF₁ := hF.reads hr₁
  cases σ₁.execution? candidate.id with
  | none => exact hdone _ _ (hF₁.commitOk hd)
  | some execution =>
      show (contract rt P).wp (ite _ _ _) _ τ₁
      rw [Contract.wp_ite]
      split
      · exact hdone _ _ (hF₁.commitOk hd)
      -- The two rows are read apart, so the state is checked again under the lock.
      · rw [Contract.wp_bind]
        refine lwp_select fun b₂ σ₂ τ₂ hr₂ _ _ _ => ?_
        rw [Contract.andThen_ok]
        show (contract rt P).wp (_ >>= _) _ τ₂
        rw [Contract.wp_bind]
        refine lwp_lockIntentNowait (hF₁.reads hr₂)
          (fun τ₃ hF₃ _ => hdone _ _ (hF₃.commitOk hd))
          (fun t τ₃ hF₃ _ => hdone _ _ (hF₃.commitOk hd)) fun σ b a τ₃ hl => ?_
        rw [Contract.andThen_ok]
        show (contract rt P).wp (ite _ _ _) _ τ₃
        rw [Contract.wp_ite]
        split
        · exact hdone _ _ (hl.commitOk hd)
        · next hstate =>
            rw [Decidable.not_not] at hstate
            rw [Contract.wp_bind]
            unfold recordRecovery
            refine lwp_workerMove hl.txn hl.valid
              (fun n => announces_execution hl.valid.core.key (by decide) (by decide))
              (safe_commits hQ) fun t m τ₄ hm => ?_
            rw [Contract.andThen_ok, Contract.wp_bind]
            refine lwp_flush_aside rfl (safe_commits hQ) fun τ₅ _ hr₅ => ?_
            refine hdone _ _ (hm.commitOk hl.valid (hm.txn.reads hr₅) (by decide) hd.command
              (fun hs => ?_) (fun p hp => by rw [hd.permit] at hp; cases hp) fun he => by cases he)
            rw [hstate] at hs
            cases hs

theorem lwp_recoverAll (candidates : List Execution) {recovered : Nat} (hτ : Rested τ)
    {Q : Except Error Nat → Know → Prop} (hQ : Recovers Q)
    (h : ∀ n τ', Rested τ' → Q (.ok n) τ') :
    lwp rt P (recoverAll candidates recovered) Q τ := by
  induction candidates generalizing recovered τ with
  | nil => exact h recovered τ hτ
  | cons candidate rest ih =>
      unfold recoverAll
      rw [lwp, Contract.wp_bind]
      refine lwp_uuid fun id τ₁ hr₁ => ?_
      rw [Contract.andThen_ok, Contract.wp_bind, Contract.wp_handle]
      refine lwp_recoverCandidate (hτ.reads hr₁) (fun x τ₂ hτ₂ => ?_) fun done τ₂ hτ₂ => ih hτ₂
      rw [Contract.orElse_error, Contract.wp_ite]
      split
      · exact ih hτ₂
      · exact hQ _ _ hτ₂

/-- A read-only session leaves the process at rest. -/
theorem lwp_readSession {p : M α} (hp : p.Uses Aside Benign) {Q : Except Error α → Know → Prop}
    (hQ : Recovers Q) (h : ∀ a τ', Rested τ' → Q (.ok a) τ') :
    lwp rt P (Prog.session (D := Db) p) Q τ := by
  refine lwp_session (lwp_aside hp fun r τ' _ _ => ?_)
  cases r with
  | ok a => exact h a _ (rested_rolledBack τ')
  | error x => exact hQ x _ (rested_rolledBack τ')

/-- A snapshot of a tick: one `select`, and an order for its rows. -/
theorem snapshot_aside (f : Store → Time → (Nat → Nat) → α) :
    (do
      let (s, now) ← Prog.select (D := Db)
      let rank ← Prog.draw (D := Db) .order
      return f s now rank : M α).Uses Aside Benign := by
  refine (Prog.uses_select trivial).bind fun e => ?_
  exact (Prog.uses_draw trivial).bind fun rank => trivial

theorem lwp_recoverStaleExecuting {Q : Except Error Nat → Know → Prop} (hQ : Recovers Q)
    (h : ∀ n τ', Rested τ' → Q (.ok n) τ') : lwp rt P recoverStaleExecuting Q τ := by
  unfold recoverStaleExecuting
  rw [lwp, Contract.wp_bind]
  refine lwp_readSession (snapshot_aside fun s now rank =>
    (arrange rank (staleExecutions now s)).take tickLimit) hQ fun candidates τ₁ hτ₁ => ?_
  exact lwp_recoverAll candidates hτ₁ hQ h

/-! ## Reconciliation -/

theorem lwp_resolveOutcome {a : ActionIntent} {execution : Execution} {evidence : AdapterResult}
    {outcome : ExecutionOutcome} {workerId commandId : String} {dbNow : Time}
    (hT : Txn τ b duty k base base [] []) (hv : Valid P k a base)
    (hstate : a.state = .executionUnknown) (hd : duty.Idle)
    {Q : Except Error ReconciliationResult → Know → Prop} (hQ : Safe Q)
    (h : ∀ result τ', (contract rt P).CommitOk τ' → Q (.ok result) τ') :
    lwp rt P (resolveOutcome rt a execution evidence outcome workerId commandId dbNow) Q τ := by
  unfold resolveOutcome
  rw [lwp, Contract.wp_bind]
  unfold Reconciliation.recordTransition
  have htarget : (if outcome = .succeeded then IntentState.succeeded else .failed) ∈ plainTargets ∧
      (if outcome = .succeeded then IntentState.succeeded else .failed) ≠ .executing := by
    cases outcome <;> exact ⟨by decide, by decide⟩
  refine lwp_workerMove hT hv
    (fun n => announces_execution hv.core.key (by decide) (by decide)) hQ fun t m τ₁ hm => ?_
  rw [Contract.andThen_ok, Contract.wp_bind]
  refine lwp_flush_aside rfl hQ fun τ₂ _ hr₂ => ?_
  refine h _ τ₂ (hm.commitOk hv (hm.txn.reads hr₂) htarget.1 hd.command (fun hs => ?_)
    (fun p hp => by rw [hd.permit] at hp; cases hp) fun he => absurd he htarget.2)
  rw [hstate] at hs
  cases hs

theorem announced?_none {topic : String} {payload : Dict} (h : topic ∉ lifecycleTopics) :
    announced? topic payload = none := if_neg h

theorem keepUnknown_aside (execution : Execution) (evidence : AdapterResult)
    (commandId : String) (dbNow : Time) :
    (keepUnknown rt execution evidence commandId dbNow).Uses Aside Benign := by
  have hrow : ∀ before after : Execution, (flush (.updateExecution before after)).Uses Aside
      Benign := fun _ _ => uses_flush rfl
  unfold keepUnknown
  refine Prog.uses_ite (fun _ => ?_) fun _ => ?_
  · have hmessage : ∀ payload, (flush (.insertOutbox "execution.reconciliation_exhausted"
        payload)).Uses Aside Benign := fun payload => uses_flush (announced?_none (by decide))
    exact (hmessage _).bind fun _ => (hrow _ _).bind fun _ => trivial
  · exact (hrow _ _).bind fun _ => trivial

theorem lwp_recordEvidence {a : ActionIntent} {execution : Execution} {answer : LookupAnswer}
    {workerId commandId : String} (hT : Txn τ b duty k base base [] []) (hv : Valid P k a base)
    (hstate : a.state = .executionUnknown) (hd : duty.Idle) (hok : (contract rt P).CommitOk τ)
    {Q : Except Error ReconciliationResult → Know → Prop} (hQ : Safe Q)
    (h : ∀ result τ', (contract rt P).CommitOk τ' → Q (.ok result) τ') :
    lwp rt P (recordEvidence rt a execution answer workerId commandId) Q τ := by
  unfold recordEvidence
  rw [lwp, Contract.wp_ite]
  split
  · exact hQ _ _ rfl
  · rw [Contract.wp_bind]
    refine lwp_now fun dbNow τ₁ hr₁ _ => ?_
    rw [Contract.andThen_ok]
    show (contract rt P).wp (ite _ _ _) Q τ₁
    rw [Contract.wp_ite]
    split
    · refine lwp_aside (keepUnknown_aside _ _ _ _) fun r τ₂ hr₂ hx => ?_
      cases r with
      | ok result => exact h _ _ (commitOk_reads hok (hr₁.trans hr₂))
      | error x => exact hQ _ _ (hx x rfl)
    · cases ExecutionOutcome.parse? (evidenceOf execution answer).outcome with
      | none => exact hQ _ _ rfl
      | some outcome => exact lwp_resolveOutcome (hT.reads hr₁) hv hstate hd hQ h

theorem lwp_reconcile {executionId : UUID} {workerId commandId : String} (hτ : Rested τ)
    {Q : Except Error ReconciliationResult → Know → Prop} (hQ : Safe Q)
    (h : ∀ result τ', (contract rt P).CommitOk τ' → Q (.ok result) τ') :
    lwp rt P (reconcile rt executionId workerId commandId) Q τ := by
  obtain ⟨duty, hF, hd⟩ := hτ.free
  unfold reconcile
  rw [lwp, Contract.wp_bind]
  refine lwp_query fun σ₁ τ₁ hr₁ _ _ => ?_
  rw [Contract.andThen_ok, Contract.wp_bind]
  refine lwp_orRaise rfl hQ fun execution _ => ?_
  rw [Contract.andThen_ok, Contract.wp_bind]
  refine lwp_lockIntent (hF.reads hr₁) hQ fun σ b a τ₂ hl => ?_
  rw [Contract.andThen_ok, Contract.wp_ite]
  split
  · exact hQ _ _ rfl
  · next hstate =>
      rw [Decidable.not_not] at hstate
      rw [Contract.wp_bind]
      have hlookup : ((Prog.call (D := Db) (.lookupStatus a.tool execution.operationKey
          execution.providerOperationId) : M LookupAnswer)).Uses Aside Benign :=
        Prog.uses_call (S := Aside) fun _ _ h => by cases h
      refine lwp_aside hlookup fun r τ₃ hr₃ hx => ?_
      cases r with
      | error x => exact hQ _ _ (hx x rfl)
      | ok answer =>
          exact lwp_recordEvidence (hl.txn.reads hr₃) hl.valid hstate hd
            (commitOk_reads (hl.commitOk hd) hr₃) hQ h

theorem lwp_reconcileOne {executionId : UUID} {commandId : String} (hτ : Rested τ)
    {Q : Except Error Bool → Know → Prop} (hQ : Recovers Q)
    (h : ∀ done τ', Rested τ' → Q (.ok done) τ') :
    lwp rt P (reconcileOne rt executionId commandId) Q τ := by
  unfold reconcileOne
  rw [lwp, Contract.wp_handle, Contract.wp_bind]
  have herr : Recovers ((contract rt P).andThen (fun _ => (return true : M Bool))
      ((contract rt P).orElse (fun x => if x.isException = true then return false else .raise x)
        Q)) (α := ReconciliationResult) := by
    intro x τ' hτ'
    rw [Contract.andThen_error, Contract.orElse_error, Contract.wp_ite]
    split
    · exact h _ _ hτ'
    · exact hQ _ _ hτ'
  refine lwp_transaction (lwp_reconcile hτ (safe_commits herr) fun result τ' hok => ?_)
  exact ⟨hok, h _ _ (rested_committed τ')⟩

theorem lwp_reconcileDue (ids : List UUID) {stats : Stats} (hτ : Rested τ)
    {Q : Except Error Stats → Know → Prop} (hQ : Recovers Q)
    (h : ∀ stats' τ', Rested τ' → Q (.ok stats') τ') :
    lwp rt P (reconcileDue rt ids stats) Q τ := by
  induction ids generalizing stats τ with
  | nil => exact h stats τ hτ
  | cons id rest ih =>
      unfold reconcileDue
      rw [lwp, Contract.wp_bind]
      refine lwp_uuid fun commandId τ₁ hr₁ => ?_
      rw [Contract.andThen_ok, Contract.wp_bind]
      exact lwp_reconcileOne (hτ.reads hr₁) hQ fun done τ₂ hτ₂ => ih hτ₂

/-! ## The tick -/

theorem scan_aside {q : Store → List α} : (scan q).Uses Aside Benign :=
  (Prog.uses_query trivial).bind fun _ => (Prog.uses_draw trivial).bind fun _ => trivial

theorem publishPending_aside : Worker.publishPending.Uses Aside fun _ => True := by
  unfold Worker.publishPending
  refine (Prog.uses_call (S := Aside) fun _ _ h => by cases h).bind fun answer => ?_
  cases answer with
  | none => exact trivial
  | some e => exact trivial

theorem lwp_runWorkerTick {Q : Except Error Stats → Know → Prop} (hQ : ∀ x τ', Q (.error x) τ')
    (h : ∀ stats τ', Rested τ' → Q (.ok stats) τ') : lwp rt P (runWorkerTick rt) Q τ := by
  have hrec : Recovers Q := fun x τ' _ => hQ x τ'
  unfold runWorkerTick
  rw [lwp, Contract.wp_bind]
  refine lwp_recoverStaleExecuting hrec fun recovered τ₁ _ => ?_
  rw [Contract.andThen_ok, Contract.wp_bind]
  refine lwp_readSession (snapshot_aside fun s now rank => dueExecutions now rank s) hrec fun due τ₂ _ => ?_
  rw [Contract.andThen_ok, Contract.wp_bind]
  refine lwp_readSession scan_aside hrec fun eligible τ₃ hτ₃ => ?_
  rw [Contract.andThen_ok, Contract.wp_bind]
  refine lwp_executeEligible _ hτ₃ hrec fun stats τ₄ hτ₄ => ?_
  rw [Contract.andThen_ok, Contract.wp_bind]
  refine lwp_reconcileDue due hτ₄ hrec fun stats' τ₅ hτ₅ => ?_
  rw [Contract.andThen_ok, Contract.wp_bind]
  refine lwp_aside publishPending_aside fun r τ₆ hr₆ _ => ?_
  cases r with
  | ok _ => exact h _ _ (hτ₅.reads hr₆)
  | error x => exact hQ x _

end Rules

end HitlOps.Lifecycle
