import HitlOps.Lifecycle.Creation
import HitlOps.Lifecycle.Worker
import HitlOps.Program

/-!
# Routes and operations

The mutation routes meet the lifecycle contract, and with them every operation: `verifies` is the
theorem that the runs of the system are built on. A body of `get_session` is proved for every
postcondition that `Accepts` the two ends of its transaction.
-/

set_option autoImplicit false

namespace HitlOps.Lifecycle

open HitlOps.Python HitlOps.Domain HitlOps.Infrastructure HitlOps.Application HitlOps.Adapters
open HitlOps.Transaction HitlOps.Api

/-- Every result of the policy evaluator is in `P`. -/
def Covers (rt : Runtime) (P : PolicyEvaluation → Prop) : Prop :=
  ∀ tool risk parameters bundle policy,
    evaluatePolicy rt tool risk parameters bundle = .ok policy → P policy

section Rules

variable {rt : Runtime} {P : PolicyEvaluation → Prop} {τ : Know} {α β : Type}

/-! ## Sessions of requests -/

variable (rt P) in
/-- The program may run as the body of a session. -/
def Runs (τ : Know) (p : M α) : Prop := ∀ Q, Accepts rt P Q → lwp rt P p Q τ

theorem runs_of_aside {p : M α} (hp : p.Uses Aside Benign) (hτ : (contract rt P).CommitOk τ) :
    Runs rt P τ p := by
  intro Q hQ
  refine lwp_aside hp fun r τ' hr hx => ?_
  cases r with
  | ok a => exact hQ.ok a τ' (commitOk_reads hτ hr)
  | error x => exact hQ.benign x τ' (hx x rfl)

/-- Aside statements may follow. -/
theorem Accepts.andThen {f : α → M β} {Q : Except Error β → Know → Prop} (hQ : Accepts rt P Q)
    (hf : ∀ a, (f a).Uses Aside Benign) : Accepts rt P ((contract rt P).andThen f Q) where
  benign := fun x τ' hx => hQ.benign x τ' hx
  error := fun x τ' hok => hQ.error x τ' hok
  ok := fun a _ hok => runs_of_aside (hf a) hok Q hQ

/-- Aside statements may come first. -/
theorem runs_bind {p : M α} {f : α → M β} (hp : p.Uses Aside Benign)
    (hf : ∀ a τ', Reads τ τ' → Runs rt P τ' (f a)) : Runs rt P τ (p >>= f) := by
  intro Q hQ
  rw [lwp, Contract.wp_bind]
  refine lwp_aside hp fun r τ' hr hx => ?_
  cases r with
  | ok a => exact hf a τ' hr Q hQ
  | error x => exact hQ.benign x τ' (hx x rfl)

/-- `get_session` runs a body to one of the two ends of its transaction. -/
theorem lwp_getSession {body : M α} (h : Runs rt P τ body) {Q : Except Error α → Know → Prop}
    (hQ : ∀ r τ', Q r τ') : lwp rt P (getSession body) Q τ := by
  unfold getSession
  rw [lwp, Contract.wp_handle, Contract.wp_bind]
  refine h _ ⟨fun x τ' hx => ?_, fun x τ' hok => ?_, fun a τ' hok => ⟨hok, hQ _ _⟩⟩
  · -- A benign error is rolled back.
    have hpersist : ¬ (x.isException = true ∧ x.persistState = true) := by
      rintro ⟨_, hp⟩
      rw [hx] at hp
      cases hp
    rw [Contract.andThen_error, Contract.orElse_error, Contract.wp_ite, if_neg hpersist]
    exact hQ _ _
  · rw [Contract.andThen_error, Contract.orElse_error, Contract.wp_ite]
    split
    · exact ⟨hok, hQ _ _⟩
    · exact hQ _ _

/-! ## Idempotency -/

theorem uses_orRaise {x : Error} (hx : Benign x) (o : Option α) :
    (Prog.orRaise (D := Db) x o).Uses Aside Benign := Prog.uses_orRaise hx

theorem uses_raiseIf {x : Error} (hx : Benign x) (c : Prop) [Decidable c] :
    (Prog.raiseIf (D := Db) c x).Uses Aside Benign := Prog.uses_raiseIf hx

theorem uses_ofExcept {r : Except Error α} (h : ∀ x, r = .error x → Benign x) :
    (ofExcept r).Uses Aside Benign := by
  cases r with
  | ok a => exact trivial
  | error x => exact h x rfl

theorem reservationFrom_aside (existing : IdempotencyRecord) (requestHash : String) :
    (reservationFrom existing requestHash).Uses Aside Benign := by
  unfold reservationFrom
  refine Prog.uses_ite (fun _ => rfl) fun _ => ?_
  exact Prog.uses_ite (fun _ => trivial) fun _ => trivial

theorem begin_aside (key : IdempotencyKey) (requestHash : String) :
    (begin key requestHash).Uses Aside Benign := by
  unfold begin lookupRecord
  refine (Prog.uses_query trivial).bind fun found => ?_
  cases found with
  | some existing => exact reservationFrom_aside existing requestHash
  | none =>
      refine (Prog.uses_insert (S := Aside) ⟨rfl, rfl⟩).bind fun inserted => ?_
      refine Prog.uses_ite (fun _ => trivial) fun _ => ?_
      refine (Prog.uses_query trivial).bind fun found => ?_
      cases found with
      | some existing => exact reservationFrom_aside existing requestHash
      | none => exact trivial

theorem complete_aside (key : IdempotencyKey) (status : Nat) (body : Dict) :
    (complete key status body).Uses Aside Benign := by
  unfold complete lookupRecord
  refine (Prog.uses_query trivial).bind fun found => ?_
  cases found with
  | none => exact rfl
  | some existing => exact uses_flush rfl

theorem reserve_aside (key : IdempotencyKey) (requestHash : String) :
    (reserve key requestHash).Uses Aside Benign := by
  unfold reserve
  refine (begin_aside key requestHash).bind fun reservation => ?_
  split
  · exact trivial
  · exact rfl
  · exact trivial

/-- A mutation route runs when its command does. -/
theorem runs_idempotent {request : Request} {scope : String} {payload : Dict} {status : Nat}
    {command : M Dict} (hτ : Rested τ) (h : ∀ τ', Rested τ' → Runs rt P τ' command) :
    Runs rt P τ (idempotent rt request scope payload status command) := by
  unfold idempotent
  refine runs_bind (reserve_aside _ _) fun stored τ₁ hr₁ => ?_
  cases stored with
  | some body => exact runs_of_aside trivial (hτ.reads hr₁).commitOk
  | none =>
      intro Q hQ
      show (contract rt P).wp (_ >>= _) Q τ₁
      rw [Contract.wp_bind]
      refine h τ₁ (hτ.reads hr₁) _ (hQ.andThen fun response => ?_)
      exact (complete_aside _ _ _).bind fun _ => trivial

/-! ## Creation -/

theorem parseToolParameters_benign {tool : String} {parameters : Dict} {x : Error}
    (h : parseToolParameters rt tool parameters = .error x) : Benign x := by
  unfold parseToolParameters at h
  split at h
  · cases h
    rfl
  · split at h
    · cases h
      rfl
    · cases h

theorem canonicalize_benign {tool : ToolName} {tenantId requesterId : String} {revision : Nat}
    {parameters : ToolParameters} {x : Error}
    (h : canonicalize rt tool tenantId requesterId revision parameters = .error x) : Benign x := by
  unfold canonicalize at h
  split at h
  · cases h
    rfl
  · split at h
    · cases h
      rfl
    · cases h

theorem runs_record {k : RevisionKey} {risk : RiskEvaluation} {policy : PolicyEvaluation}
    {commandId correlationId : String} {duty : Duty} (hp : Place rt τ duty k) (hd : duty.Idle)
    (hP : P policy) : Runs rt P τ (record k risk policy commandId correlationId) :=
  fun _ hQ => lwp_record hp hd hP hQ

/-- The creation of an intent with its first evaluation, in one transaction. -/
theorem runs_createIntentFromProposal {actor : AuthenticatedActor} {tool : String}
    {parameters : Dict} {rationale : String} {source : IntentSource} {correlationId : String}
    (hP : Covers rt P) (hτ : Rested τ) :
    Runs rt P τ
      (createIntentFromProposal rt actor tool parameters rationale source correlationId) := by
  unfold createIntentFromProposal
  refine runs_bind (uses_ofExcept fun x hx => parseToolParameters_benign hx) fun parsed τ₁ hr₁ => ?_
  refine runs_bind (uses_ofExcept fun x hx => canonicalize_benign hx) fun canonical τ₂ hr₂ => ?_
  refine runs_bind (Prog.uses_draw trivial) fun intentId τ₃ hr₃ => ?_
  refine runs_bind (Prog.uses_draw trivial) fun commandId τ₄ hr₄ => ?_
  set command := createCommand canonical intentId commandId tool parameters rationale source
    correlationId
  have hτ₄ := hτ.reads (((hr₁.trans hr₂).trans hr₃).trans hr₄)
  obtain ⟨duty, hF, hd⟩ := hτ₄.free
  intro Q hQ
  rw [lwp, Contract.wp_bind]
  refine lwp_create hF hQ.benign fun snapshot b now n τ₅ hT => ?_
  have hplace : Place rt τ₅ duty command.key := .created command b now n rfl hT
  rw [Contract.andThen_ok, Contract.wp_bind]
  refine lwp_getActive hQ.benign fun active τ₆ hr₆ => ?_
  rw [Contract.andThen_ok]
  cases active with
  | none => exact hQ.benign _ _ rfl
  | some bundle =>
      show (contract rt P).wp (_ >>= _) Q τ₆
      rw [Contract.wp_bind]
      cases heval : evaluatePolicy rt command.tool
          (evaluateRisk command.tool command.canonicalParameters {}) command.canonicalParameters
          bundle with
      | error x => exact hQ.benign x τ₆ (evaluatePolicy_benign heval)
      | ok policy =>
          show (contract rt P).wp (_ >>= _) Q τ₆
          rw [Contract.wp_bind]
          refine lwp_record (hplace.reads hr₆) hd (hP _ _ _ _ _ heval) (hQ.andThen fun r => ?_)
          refine (Prog.uses_query trivial).bind fun found => ?_
          exact (uses_orRaise rfl found).bind fun stored => trivial

/-! ## The agent -/

theorem boundProposal_benign {raw : Json} {x : Error} (h : boundProposal rt raw = .error x) :
    Benign x := by
  unfold boundProposal at h
  split at h
  · split at h
    · split at h
      · cases h
      · cases h
        rfl
      · cases h
        rfl
    · cases h
      rfl
  · cases h
    rfl

theorem propose_aside (body : AgentIntentBody) : (propose rt body).Uses Aside Benign := by
  unfold propose
  refine (Prog.uses_call (S := Aside) fun _ _ h => by cases h).bind fun answer => ?_
  cases answer with
  | value raw => exact uses_ofExcept fun x hx => boundProposal_benign hx
  | domain message code httpStatus retryable => exact rfl
  | timeout => exact rfl
  | error => exact rfl
  | cancelled => exact rfl

/-! ## Approvals -/

theorem runs_decide {command : ApprovalDecisionCommand} (hτ : Rested τ) :
    Runs rt P τ (Application.decide command) := by
  obtain ⟨duty, hF, hd⟩ := hτ.free
  exact fun Q hQ => lwp_decide hF hd hQ

theorem runs_cancel {command : CancelIntentCommand} (hτ : Rested τ) :
    Runs rt P τ (cancel command) := by
  obtain ⟨duty, hF, hd⟩ := hτ.free
  exact fun Q hQ => lwp_cancel hF hd hQ

theorem runs_decideAndComplete {request : Request} {intentId : UUID} {body : ApprovalBody}
    {key : IdempotencyKey} (hτ : Rested τ) :
    Runs rt P τ (decideAndComplete request intentId body key) := by
  unfold decideAndComplete
  refine runs_bind (Prog.uses_draw trivial) fun commandId τ₁ hr₁ Q hQ => ?_
  have hA := hQ.andThen fun snapshot => (complete_aside key 200 (snapshotBody snapshot)).bind
    fun _ => Prog.uses_ret (⟨200, snapshotBody snapshot⟩ : Response)
  rw [lwp, Contract.wp_bind, Contract.wp_handle]
  refine runs_decide (hτ.reads hr₁) _ ⟨fun x τ' hx => ?_, fun x τ' hok => ?_, hA.ok⟩
  · rw [Contract.orElse_error, Contract.wp_ite]
    split
    · rw [Contract.wp_bind]
      refine lwp_aside (complete_aside _ _ _) fun r τ'' _ hy => ?_
      cases r with
      | ok _ => exact hA.benign x τ'' hx
      | error y => exact hA.benign y τ'' (hy y rfl)
    · exact hA.benign x τ' hx
  · -- The expired decision is recorded, and then its error goes on.
    rw [Contract.orElse_error, Contract.wp_ite]
    split
    · rw [Contract.wp_bind]
      refine lwp_aside (complete_aside _ _ _) fun r τ'' hr hy => ?_
      cases r with
      | ok _ => exact hA.error x τ'' (commitOk_reads hok hr)
      | error y => exact hA.benign y τ'' (hy y rfl)
    · exact hA.error x τ' hok

theorem runs_decideApprovalBody {request : Request} {intentId : UUID} {body : ApprovalBody}
    (hτ : Rested τ) : Runs rt P τ (decideApprovalBody rt request intentId body) := by
  unfold decideApprovalBody
  refine runs_bind (begin_aside _ _) fun reservation τ₁ hr₁ => ?_
  have hok : (contract rt P).CommitOk τ₁ := (hτ.reads hr₁).commitOk
  split
  · refine runs_of_aside ?_ hok
    exact Prog.uses_ite (fun _ => rfl) fun _ => trivial
  · exact runs_of_aside rfl hok
  · exact runs_decideAndComplete (hτ.reads hr₁)

/-! ## Administration -/

theorem currentRoles_aside (actor : AuthenticatedActor) (environment : Option Json) :
    (currentRoles actor environment).Uses Aside Benign :=
  (Prog.uses_query trivial).bind fun _ => (Prog.uses_draw trivial).bind fun _ => trivial

theorem requireAdministrator_aside (actor : AuthenticatedActor) :
    (requireAdministrator actor).Uses Aside Benign :=
  (currentRoles_aside actor none).bind fun _ => uses_raiseIf rfl _

theorem uses_announce {topic : String} (h : topic ∉ lifecycleTopics) (payload : Dict) :
    (flush (.insertOutbox topic payload)).Uses Aside Benign := uses_flush (announced?_none h)

theorem grantRole_aside (command : GrantRoleCommand) : (grantRole command).Uses Aside Benign := by
  unfold grantRole
  refine (requireAdministrator_aside _).bind fun _ => ?_
  refine (Prog.uses_select trivial).bind fun e => ?_
  refine (uses_scalarOneOrNone _).bind fun existing => ?_
  cases existing with
  | some row => exact trivial
  | none =>
      refine (Prog.uses_draw trivial).bind fun id => ?_
      exact (uses_flush rfl).bind fun _ => (uses_announce (by decide) _).bind fun _ => trivial

theorem revokeRole_aside (command : RevokeRoleCommand) :
    (revokeRole command).Uses Aside Benign := by
  unfold revokeRole
  refine (requireAdministrator_aside _).bind fun _ => ?_
  refine (Prog.uses_query trivial).bind fun found => ?_
  refine (uses_orRaise rfl found).bind fun row => (uses_raiseIf rfl _).bind fun _ => ?_
  refine (Prog.uses_draw trivial).bind fun now => (uses_flush rfl).bind fun _ => ?_
  exact (uses_announce (by decide) _).bind fun _ => trivial

theorem registerPolicyBundle_aside (command : RegisterPolicyBundleCommand) :
    (registerPolicyBundle command).Uses Aside Benign := by
  unfold registerPolicyBundle
  refine (requireAdministrator_aside _).bind fun _ => ?_
  refine (Prog.uses_query trivial).bind fun found => (uses_scalarOneOrNone _).bind fun e => ?_
  refine (uses_raiseIf rfl _).bind fun _ => (Prog.uses_draw trivial).bind fun id => ?_
  exact (uses_flush rfl).bind fun _ => (uses_announce (by decide) _).bind fun _ => trivial

theorem activatePolicyBundle_aside (command : ActivatePolicyBundleCommand) :
    (activatePolicyBundle command).Uses Aside Benign := by
  unfold activatePolicyBundle
  refine (requireAdministrator_aside _).bind fun _ => ?_
  refine (Prog.uses_query trivial).bind fun found => (uses_scalarOneOrNone _).bind fun e => ?_
  refine (uses_orRaise rfl e).bind fun target => (uses_flush rfl).bind fun _ => ?_
  refine (uses_flush rfl).bind fun _ => ?_
  exact (uses_announce (by decide) _).bind fun _ => trivial

/-- An administration command behind its fresh identifier. -/
theorem runs_administration {p : UUID → M α} {f : α → Dict} (hp : ∀ id, (p id).Uses Aside Benign)
    (hτ : Rested τ) : Runs rt P τ (do
      let id ← Prog.draw (D := Db) .uuid
      let a ← p id
      return f a) :=
  runs_of_aside ((Prog.uses_draw trivial).bind fun id => (hp id).bind fun _ => trivial) hτ.commitOk

end Rules

/-! ## Operations -/

/-- The operation records only policies of `P`. -/
def Admits (P : PolicyEvaluation → Prop) : Op → Prop
  | .record _ _ policy _ _ => P policy
  | _ => True

section Operations

variable {rt : Runtime} {P : PolicyEvaluation → Prop} {α : Type} {τ : Know}

theorem lwp_wrapped {wrap : α → Result} {p : M α} {Q : Except Error Result → Know → Prop}
    (h : lwp rt P p (fun _ _ => True) τ) (hQ : ∀ r τ', Q r τ') :
    lwp rt P (wrapped wrap p) Q τ := by
  unfold wrapped
  rw [lwp, Contract.wp_bind]
  refine Contract.wp_mono (contract rt P) (fun r τ' _ => ?_) h
  cases r with
  | ok a => exact hQ _ _
  | error x => exact hQ _ _

theorem lwp_route (hP : Covers rt P) (request : Request) (route : Route) (hτ : Rested τ) :
    lwp rt P (routeProgram rt request route) (fun _ _ => True) τ := by
  cases route with
  | createIntent body =>
      exact lwp_getSession (runs_idempotent hτ fun τ' h => runs_createIntentFromProposal hP h)
        fun _ _ => trivial
  | createAgentIntent body =>
      refine lwp_getSession (runs_idempotent hτ fun τ' h => ?_) fun _ _ => trivial
      exact runs_bind (propose_aside body) fun proposal τ'' hr =>
        runs_createIntentFromProposal hP (h.reads hr)
  | decideApproval intentId body =>
      exact lwp_getSession (runs_decideApprovalBody hτ) fun _ _ => trivial
  | cancelIntent intentId body =>
      refine lwp_getSession (runs_idempotent hτ fun τ' h => ?_) fun _ _ => trivial
      refine runs_bind (Prog.uses_draw trivial) fun id τ'' hr Q hQ => ?_
      rw [lwp, Contract.wp_bind]
      exact runs_cancel (h.reads hr) _ (hQ.andThen fun snapshot => trivial)
  | grantRole body =>
      exact lwp_getSession (runs_idempotent hτ fun τ' h =>
        runs_administration (fun id => grantRole_aside _) h) fun _ _ => trivial
  | revokeRole assignmentId body =>
      exact lwp_getSession (runs_idempotent hτ fun τ' h =>
        runs_administration (fun id => revokeRole_aside _) h) fun _ _ => trivial
  | registerPolicyBundle body =>
      exact lwp_getSession (runs_idempotent hτ fun τ' h =>
        runs_administration (fun id => registerPolicyBundle_aside _) h) fun _ _ => trivial
  | activatePolicyBundle version body =>
      exact lwp_getSession (runs_idempotent hτ fun τ' h =>
        runs_administration (fun id => activatePolicyBundle_aside _) h) fun _ _ => trivial

/-- Every operation meets the lifecycle contract. -/
theorem verifies (hP : Covers rt P) (op : Op) (hop : Admits P op) :
    (contract rt P).Verifies (code rt) op := by
  have hF := @free_initial rt P op
  have hd : Ghost.initial.duty.Idle := ⟨rfl, rfl⟩
  have hτ : Rested ((contract rt P).enter op) := ⟨_, hF, hd⟩
  unfold Contract.Verifies code
  cases op with
  | route request route =>
      exact lwp_wrapped (lwp_route hP request route hτ) fun _ _ => trivial
  | create command =>
      refine lwp_wrapped (lwp_getSession (fun Q hQ => ?_) fun _ _ => trivial) fun _ _ => trivial
      exact lwp_create hF hQ.benign fun r b now n τ' hT => hQ.ok _ _ (commitOk_created hd hT)
  | record key risk policy commandId correlationId =>
      exact lwp_wrapped (lwp_getSession (runs_record (.free hF) hd hop) fun _ _ => trivial)
        fun _ _ => trivial
  | decide command =>
      exact lwp_wrapped (lwp_getSession (runs_decide hτ) fun _ _ => trivial) fun _ _ => trivial
  | cancel command =>
      exact lwp_wrapped (lwp_getSession (runs_cancel hτ) fun _ _ => trivial) fun _ _ => trivial
  | claim request =>
      refine lwp_wrapped ?_ fun _ _ => trivial
      unfold claimCall
      rw [lwp, Contract.wp_handle]
      exact lwp_claimAndRevalidate hτ (fun _ _ => trivial) (fun _ _ _ => trivial)
        fun _ _ _ => trivial
  | reconcile executionId workerId commandId =>
      refine lwp_wrapped (lwp_transaction (lwp_reconcile hτ (fun _ _ _ => trivial) ?_))
        fun _ _ => trivial
      exact fun result τ' hok => ⟨hok, trivial⟩
  | recover =>
      exact lwp_wrapped (lwp_recoverStaleExecuting (fun _ _ _ => trivial) fun _ _ _ => trivial)
        fun _ _ => trivial
  | workerTick =>
      exact lwp_wrapped (lwp_runWorkerTick (fun _ _ => trivial) fun _ _ _ => trivial)
        fun _ _ => trivial

end Operations

end HitlOps.Lifecycle
