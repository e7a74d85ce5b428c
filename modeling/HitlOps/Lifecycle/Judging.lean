import HitlOps.Lifecycle.Verdicts

/-!
# The verdicts of every operation

Each program meets the obligations of `judging`: a claim passes its gates before the deadline or
expires behind it, the worker claims in the same way, an evaluation opens the window of its revision,
and a route commits what its session has matched. `judging_code` holds of every operation.
-/

set_option autoImplicit false

namespace HitlOps.Lifecycle

open HitlOps.Python HitlOps.Domain HitlOps.Infrastructure HitlOps.Application HitlOps.Adapters
open HitlOps.Transaction HitlOps.Api

/-! ## Claims -/

section Claims

variable {rt : Runtime} {op : Op} {α β : Type} {h : List (Obs Db)}

theorem judging_reopenClaim {request : ClaimRequest}
    {Q : Except Error (ActionIntent × Execution × Time) → List (Obs Db) → Prop}
    (hs : OnlyReserved h) (hm : Matched h) (herr : ∀ x h', Matched h' → Q (.error x) h')
    (hok : ∀ a x t h', Matched h' → LockedRow h' a.key a → a.state = .revalidating →
      Q (.ok (a, x, t)) h') : (judging op).wp (reopenClaim request) Q h := by
  refine Watch.wp_bind (judging_lockIntentNowait hs hm (fun h' hm' => herr _ h' hm')
    (fun t h' hm' => herr _ h' hm') fun a t h₁ hs₁ hm₁ hl hkey => ?_)
  refine Watch.wp_ite (fun _ => herr _ h₁ hm₁) fun hstate => ?_
  refine Watch.wp_bind (judging_reading (calmly_query _) hm₁ fun r h₂ hd₂ hm₂ => ?_)
  cases r with
  | error x => exact herr x h₂ hm₂
  | ok rows =>
      refine Watch.wp_bind (judging_reading (calmly_scalarOne _) hm₂ fun r h₃ hd₃ hm₃ => ?_)
      cases r with
      | error x => exact herr x h₃ hm₃
      | ok x =>
          rw [← hkey] at hl
          exact hok a x t h₃ hm₃ (hl.during (hd₂.trans hd₃)) (not_not.1 hstate)

/-- A claim that ends without a permit. -/
theorem judging_failClaim {request : ClaimRequest} {a : ActionIntent} {x : Execution}
    {dbNow : Time} {state : IntentState} {reasonCode : String} (hm : Matched h)
    (hl : LockedRow h a.key a) (hs : a.state ≠ .requested)
    (hstate : state = .stale ∨ state = .expired ∧ ElapsedAt a dbNow) :
    (judging op).wp (failClaim request a x dbNow state reasonCode) Fit h := by
  have hstale : IntentState.stale ∉ [IntentState.cancelled, .expired, .executing] := by decide
  have hsilent : state ∉ verdictStates := by
    rcases hstate with rfl | ⟨rfl, -⟩ <;> decide
  refine Watch.wp_bind (judging_appendTransition (fun sequence h₁ hd₁ => ?_)
    (fun _ _ hx => .inl hx) fun sequence h₁ happ => ?_)
  · rcases hstate with rfl | ⟨rfl, helapsed⟩
    · exact warranted_of_verdict hstale
    · exact warranted_expired rfl (hl.during hd₁) hs helapsed
  · -- The row of the execution rests on nothing.
    have hm₁ : Matched h₁ := happ.matched hsilent hm
    exact Watch.wp_bind (judging_flush trivial (fun _ _ hx => .inl hx) hm₁)

theorem judging_issuePermit {request : ClaimRequest} {a : ActionIntent} {read passed : Execution}
    {dbNow : Time} (hm : Matched h) (hl : LockedRow h a.key a) (hs : a.state ≠ .requested)
    (hopen : OpenAt a dbNow) :
    (judging op).wp (issuePermit rt request a read passed dbNow) Fit h := by
  refine Watch.wp_bind (judging_appendTransition (fun sequence h₁ hd₁ => ?_)
    (fun _ _ hx => .inl hx) fun sequence h₁ happ => ?_)
  · exact warranted_executing rfl (hl.during hd₁) hs hopen
  · have hsilent : IntentState.executing ∉ verdictStates := by decide
    have hm₁ : Matched h₁ := happ.matched hsilent hm
    refine Watch.wp_bind (judging_flush trivial (fun _ _ hx => .inl hx) ?_)
    exact Watch.wp_bind ⟨trivial, fun _ _ => hm₁⟩

theorem judging_gatePhase (request : ClaimRequest) (snapshot : TargetSnapshot)
    (hs : OnlyReserved h) (hm : Matched h) :
    (judging op).wp (gatePhase rt request snapshot) (fun _ h' => Matched h') h := by
  refine judging_transaction (Watch.wp_bind (judging_reopenClaim hs hm
    (fun _ _ hm' => .inr hm') fun a x dbNow h₁ hm₁ hl hstate => ?_))
  have hne : a.state ≠ .requested := by
    rw [hstate]
    decide
  refine judging_choice (calmly_revalidateGates _ _ _ _ _) (yields_revalidateGates _ _ _ _ _) hm₁
    fun gates h₂ hgates hd₂ hm₂ => ?_
  have hl₂ := hl.during hd₂
  cases gates with
  | failed state reasonCode =>
      refine Watch.wp_bind (Watch.wp_mono (fun r h₃ hr => ?_)
        (judging_failClaim hm₂ hl₂ hne hgates))
      cases r with
      | ok failure => exact hr
      | error e => exact hr
  | passed execution =>
      refine Watch.wp_bind (Watch.wp_mono (fun r h₃ hr => ?_)
        (judging_issuePermit hm₂ hl₂ hne hgates))
      cases r with
      | ok permit => exact hr
      | error e => exact hr

theorem judging_claimAndRevalidate (request : ClaimRequest) (hm : Matched h) :
    (judging op).wp (claimAndRevalidate rt request) (fun _ h' => Matched h') h := by
  refine Watch.wp_bind ⟨trivial, fun _ _ => ?_⟩
  have hm₀ : Matched (extend h (.mark (.claim request.key request.bundle) : Stmt Db) ()) := hm
  have hraise : ∀ (x : Error) (h' : List (Obs Db)), Matched h' → (judging op).orElse
      (fun x => if x = .dbapi true then
        .raise (.stateConflictError "row lock or serialization conflict; retry") else .raise x)
      (fun _ h' => Matched h')
      (.error x : Except Error (Except RevalidationFailure ExecutionPermit)) h' :=
    fun x h' hm' => Watch.wp_ite (fun _ => hm') fun _ => hm'
  refine Watch.wp_handle (Watch.wp_bind (judging_aside (C := fun _ => True)
    (doing_claimPhase (fun _ hw => hw) request) (fun _ => neutral_of_executes (by decide)) hm₀
    fun r h₁ hm₁ => ?_))
  cases r with
  | error x => exact hraise x h₁ hm₁
  | ok a =>
      refine Watch.wp_bind ⟨hm₁, fun _ _ => Watch.wp_bind ?_⟩
      -- Phase 3 starts a transaction of its own.
      refine judging_reserving (C := fun _ => True) (doing_fetchTarget (fun _ _ => trivial) _ _ _ _)
        (onlyReserved_of_writes rfl) (matched_commit h₁) fun r h₂ hs₂ hm₂ => ?_
      cases r with
      | error x => exact hraise x h₂ hm₂
      | ok fetched =>
          cases fetched with
          | error reason =>
              refine Watch.wp_bind (judging_aside (C := fun _ => True)
                (calm_failAfterFetchFailure request reason).doing
                (fun _ => neutral_of_executes (by decide)) hm₂ fun r h₃ hm₃ => ?_)
              cases r with
              | error x => exact hraise x h₃ hm₃
              | ok failure => exact hm₃
          | ok snapshot =>
              refine Watch.wp_mono (fun r h₃ hr => ?_) (judging_gatePhase request snapshot hs₂ hm₂)
              cases r with
              | error x => exact hraise x h₃ hr
              | ok claimed => exact hr

/-! ## The worker -/

theorem judging_claim (key : RevisionKey) (commandId : String) (hm : Matched h) :
    (judging op).wp (Worker.claim rt key commandId) (fun _ h' => Matched h') h := by
  refine Watch.wp_handle (Watch.wp_session (Watch.wp_bind ?_))
  have hraise : ∀ (x : Error) (h' : List (Obs Db)), Matched h' → (judging op).orElse
      (fun x => if x.isStateConflict = true then return none else .raise x)
      (fun _ h' => Matched h') (.error x : Except Error (Option ExecutionPermit)) h' :=
    fun x h' hm' => Watch.wp_ite (fun _ => hm') fun _ => hm'
  refine judging_reading (calmly_getActive _) hm fun r h₁ hd₁ hm₁ => ?_
  match r with
  | .error x => exact ⟨trivial, hraise x _ (matched_rollback h₁)⟩
  | .ok none => exact ⟨trivial, matched_rollback h₁⟩
  | .ok (some bundle) =>
      refine Watch.wp_bind (Watch.wp_mono (fun r h₂ hm₂ => ?_) (judging_claimAndRevalidate _ hm₁))
      match r with
      | .error x => exact ⟨trivial, hraise x _ (matched_rollback h₂)⟩
      | .ok (.error failure) => exact ⟨trivial, matched_rollback h₂⟩
      | .ok (.ok permit) => exact ⟨trivial, matched_rollback h₂⟩

theorem judging_executeEligible (keys : List RevisionKey) (stats : Worker.Stats) (hm : Matched h) :
    (judging op).wp (Worker.executeEligible rt keys stats) (fun _ h' => Matched h') h := by
  induction keys generalizing stats h with
  | nil => exact hm
  | cons key rest ih =>
      refine Watch.wp_bind ⟨trivial, fun commandId _ => ?_⟩
      have hm₀ : Matched (extend h (.draw .uuid : Stmt Db) commandId) := hm
      refine Watch.wp_bind (Watch.wp_mono (fun r h₁ hm₁ => ?_) (judging_claim key _ hm₀))
      match r with
      | .error x => exact hm₁
      | .ok none => exact ih _ hm₁
      | .ok (some permit) =>
          have hexecute : Doing (Executes outcomeStates) (fun _ => True)
              (Worker.execute rt permit commandId.hex) :=
            doing_execute (fun _ hw => hw) (fun _ _ => trivial) _ _
          refine Watch.wp_bind (judging_aside hexecute (fun _ => neutral_of_executes (by decide)) hm₁
            fun r h₂ hm₂ => ?_)
          cases r with
          | error x => exact hm₂
          | ok executed => exact ih _ hm₂

theorem judging_runWorkerTick (hm : Matched h) :
    (judging op).wp (Worker.runWorkerTick rt) (fun _ _ => True) h := by
  have houtcomes : ∀ w, Executes outcomeStates w → Neutral w := fun _ =>
    neutral_of_executes (by decide)
  have hread : ∀ w : Write, False → Neutral w := fun _ hw => hw.elim
  refine Watch.wp_bind (judging_aside (C := fun _ => True)
    (doing_recoverStaleExecuting fun _ hw => hw) houtcomes hm fun r h₁ hm₁ => ?_)
  cases r with
  | error x => trivial
  | ok recovered =>
      refine Watch.wp_bind (judging_aside (C := fun _ => True) (doing_session ?_) hread hm₁
        fun r h₂ hm₂ => ?_)
      · exact Prog.Uses.bind (Prog.uses_select trivial) fun _ =>
          (Prog.uses_draw trivial).bind fun _ => trivial
      cases r with
      | error x => trivial
      | ok unknowns =>
          refine Watch.wp_bind (judging_aside (C := fun _ => True)
            (doing_session (calmly_scan _).doing) hread hm₂ fun r h₃ hm₃ => ?_)
          cases r with
          | error x => trivial
          | ok eligible =>
              refine Watch.wp_bind (Watch.wp_mono (fun r h₄ hm₄ => ?_)
                (judging_executeEligible _ _ hm₃))
              cases r with
              | error x => trivial
              | ok stats =>
                  refine judging_aside (W := Executes outcomeStates) (C := fun _ => True) ?_
                    houtcomes hm₄ fun _ _ _ => trivial
                  refine (doing_reconcileDue (fun _ hw => hw) (fun _ _ _ => trivial) _ _).bind
                    fun stats => Prog.Uses.bind ?_ fun _ => trivial
                  refine (Prog.uses_call trivial).bind fun answer => ?_
                  cases answer with
                  | none => exact trivial
                  | some x => exact trivial

end Claims

/-! ## Evaluations -/

section Evaluations

variable {rt : Runtime} {op : Op} {α β : Type} {h : List (Obs Db)}

/-- A row that rests on nothing. -/
theorem judging_row {w : Write} {f : Unit → M α} (hw : Neutral w) (hm : Matched h)
    (hf : Matched (.did (.write w) () :: h) →
      (judging op).wp (f ()) Fit (.did (.write w) () :: h)) :
    (judging op).wp (flush w >>= f) Fit h :=
  Watch.wp_bind (judging_flush (hw.restsOn op h) (fun _ _ hx => .inl hx)
    (hf (matched_write hw.unjudged hm)))

/-- The rows of an evaluation set the deadline behind its first transition. -/
theorem judging_writeEvaluation (a : ActionIntent) (risk : RiskEvaluation)
    (policy : PolicyEvaluation) (commandId correlationId : String) (now : Time) (hm : Matched h) :
    (judging op).wp (writeEvaluation a risk policy commandId correlationId now) Fit h := by
  have hroute : routeStateByDisposition policy.disposition ∉ weighedStates := by
    cases policy.disposition <;> decide
  have hrisk : IntentState.riskEvaluated ∉ weighedStates := by decide
  have hpolicy : IntentState.policyEvaluated ∉ weighedStates := by decide
  unfold writeEvaluation
  refine judging_row trivial hm fun hm₁ => judging_row trivial hm₁ fun hm₂ => ?_
  refine judging_row hrisk hm₂ fun hm₃ => judging_row hpolicy hm₃ fun hm₄ => ?_
  refine judging_row hroute hm₄ fun hm₅ => judging_row trivial hm₅ fun hm₆ => ?_
  refine judging_row trivial hm₆ fun hm₇ => judging_row trivial hm₇ fun hm₈ => ?_
  refine judging_row trivial hm₈ fun hm₉ => judging_row trivial hm₉ fun hm₁₀ => ?_
  refine judging_flush (fun _ => ?_) (fun _ _ hx => .inl hx) (matched_write (w := .updateIntent _ _)
    trivial hm₁₀)
  refine ⟨evaluationTransition a.key .requested .riskEvaluated commandId "risk" correlationId 2 now,
    ?_, rfl, rfl⟩
  exact List.mem_append_left _ (List.mem_append_left _
    (List.mem_append_right _ (List.mem_singleton_self _)))

theorem judging_record (key : RevisionKey) (risk : RiskEvaluation) (policy : PolicyEvaluation)
    (commandId correlationId : String) (hm : Matched h) :
    (judging op).wp (record key risk policy commandId correlationId) Fit h := by
  refine judging_guard (calmly_query _) hm fun risks h₁ _ hm₁ => ?_
  refine judging_guard (calmly_scalarOneOrNone _) hm₁ fun found h₂ _ hm₂ => ?_
  cases found with
  | some existing =>
      exact judging_rest (W := fun _ => False) (C := fun _ => True) (calmly_currentRecord _ _).doing
        (fun _ hw => hw.elim) hm₂
  | none =>
      refine Watch.wp_bind ⟨trivial, fun seen _ => ?_⟩
      have hm₃ : Matched (extend h₂ (.lock (.intent key) false : Stmt Db) seen) := hm₂
      cases seen with
      | none => exact Or.inr hm₃
      | some seen =>
          dsimp only [Watch.wp, Watch.andThen]
          generalize seen.1.intent? key = found
          cases found with
          | none => exact Or.inr hm₃
          | some a =>
              refine Watch.wp_ite (fun _ => .inr hm₃) fun _ => ?_
              refine Watch.wp_bind ⟨trivial, fun now _ => ?_⟩
              refine Watch.wp_bind (Watch.wp_mono (fun r h₄ hr => ?_)
                (judging_writeEvaluation a risk policy commandId correlationId now hm₃))
              cases r with
              | ok _ => exact hr
              | error x => exact hr

theorem judging_createIntentFromProposal (actor : AuthenticatedActor) (tool : String)
    (parameters : Dict) (rationale : String) (source : IntentSource) (correlationId : String)
    (hm : Matched h) : (judging op).wp
      (createIntentFromProposal rt actor tool parameters rationale source correlationId) Fit h := by
  refine judging_guard (calmly_ofExcept _) hm fun parsed h₁ _ hm₁ => ?_
  refine judging_guard (calmly_ofExcept _) hm₁ fun canonical h₂ _ hm₂ => ?_
  refine judging_guard (calmly_draw .uuid) hm₂ fun intentId h₃ _ hm₃ => ?_
  refine judging_guard (calmly_draw .uuid) hm₃ fun commandId h₄ _ hm₄ => ?_
  refine Watch.wp_bind (judging_aside (C := fun _ => True) (doing_create (fun _ hw => hw) _)
    (fun _ => neutral_of_creates) hm₄ fun r h₅ hm₅ => ?_)
  cases r with
  | error x => exact .inr hm₅
  | ok created =>
      refine judging_guard (calmly_getActive _) hm₅ fun active h₆ _ hm₆ => ?_
      cases active with
      | none => exact .inr hm₆
      | some bundle =>
          refine judging_guard (calmly_ofExcept _) hm₆ fun policy h₇ _ hm₇ => ?_
          refine Watch.wp_bind (Watch.wp_mono (fun r h₈ hr => ?_) (judging_record _ _ _ _ _ hm₇))
          cases r with
          | error x => exact hr
          | ok recorded =>
              refine judging_guard (calmly_query _) hr fun found h₉ _ hm₉ => ?_
              exact judging_guard (calmly_orRaise _ _) hm₉ fun stored h₁₀ _ hm₁₀ => hm₁₀

end Evaluations

/-! ## Operations -/

section Operations

variable {rt : Runtime} {op : Op} {α β : Type} {h : List (Obs Db)}

/-- The shape of a mutation route. -/
theorem judging_idempotent {request : Request} {scope : String} {payload : Dict} {status : Nat}
    {command : M Dict} (hc : ∀ h, OnlyReserved h → Matched h → (judging op).wp command Fit h) :
    (judging op).wp (getSession (idempotent rt request scope payload status command))
      (fun _ _ => True) [] := by
  refine Watch.wp_mono (fun _ _ _ => trivial) (judging_getSession ?_)
  refine Watch.wp_bind (judging_reserving (C := fun _ => True) (doing_reserve (fun _ hw => hw) _ _)
    onlyReserved_nil .nil fun r h₁ hs₁ hm₁ => ?_)
  cases r with
  | error x => exact .inr hm₁
  | ok found =>
      cases found with
      | some body => exact hm₁
      | none =>
          refine Watch.wp_bind (Watch.wp_mono (fun r h₂ hr => ?_) (hc h₁ hs₁ hm₁))
          cases r with
          | error x => exact hr
          | ok response =>
              have hcomplete : Doing Reserves (fun _ => True) (do
                  complete (recordKey rt request scope) status response
                  return (⟨status, response⟩ : Response)) :=
                (calmly_complete (fun _ hw => hw) _ _ _).doing.bind fun _ => trivial
              exact judging_rest hcomplete (fun _ => neutral_of_reserves) hr

theorem judging_decideApprovalBody (request : Request) (intentId : UUID) (body : ApprovalBody)
    (hop : personOf? op = some request.actor) (hs : OnlyReserved h) (hm : Matched h) :
    (judging op).wp (decideApprovalBody rt request intentId body) Fit h := by
  have hrespond : ∀ snapshot : IntentSnapshot, Doing Reserves (fun _ => True) (do
      complete (recordKey rt request "approvals") 200 (snapshotBody snapshot)
      return (⟨200, snapshotBody snapshot⟩ : Response)) :=
    fun _ => (calmly_complete (fun _ hw => hw) _ _ _).doing.bind fun _ => trivial
  have hrun : ∀ h', OnlyReserved h' → Matched h' → (judging op).wp
      (decideAndComplete request intentId body (recordKey rt request "approvals")) Fit h' := by
    intro h' hs' hm'
    refine Watch.wp_bind ⟨trivial, fun commandId _ => ?_⟩
    have hs₁ : OnlyReserved (extend h' (.draw .uuid : Stmt Db) commandId) := hs'
    have hm₁ : Matched (extend h' (.draw .uuid : Stmt Db) commandId) := hm'
    have hdecide : (judging op).wp
        (Application.decide (decisionCommand request intentId body commandId)) Fit _ :=
      judging_decide _ hop hs₁ hm₁
    refine Watch.wp_bind (Watch.wp_handle (Watch.wp_mono (fun r h₂ hr => ?_) hdecide))
    cases r with
    | ok snapshot => exact judging_rest (hrespond snapshot) (fun _ => neutral_of_reserves) hr
    | error x =>
        refine Watch.wp_ite (fun hexpired => ?_) fun _ => hr
        -- An expired approval is recorded and committed, so its error is not fatal.
        have hm₂ : Matched h₂ := hr.resolve_left fun hx => by
          rw [hx.2] at hexpired
          cases hexpired
        have hrecord : Doing Reserves (fun _ => True) (do
            complete (recordKey rt request "approvals") (expiredStatus x) (expiredBody x)
            (.raise x : M IntentSnapshot)) :=
          (calmly_complete (fun _ hw => hw) _ _ _).doing.bind fun _ => trivial
        refine judging_aside hrecord (fun _ => neutral_of_reserves) hm₂ fun r h₃ hm₃ => ?_
        cases r with
        | ok snapshot => exact judging_rest (hrespond snapshot) (fun _ => neutral_of_reserves) hm₃
        | error e => exact .inr hm₃
  refine Watch.wp_bind (judging_reserving (C := fun _ => True) (doing_begin (fun _ hw => hw) _ _) hs hm
    fun r h₁ hs₁ hm₁ => ?_)
  match r with
  | .error x => exact .inr hm₁
  | .ok ⟨false, _, _, _⟩ => exact hrun h₁ hs₁ hm₁
  | .ok ⟨true, _, _, some stored⟩ =>
      refine Watch.wp_ite (fun _ => .inr hm₁) fun _ => hm₁
  | .ok ⟨true, true, _, none⟩ => exact .inr hm₁
  | .ok ⟨true, false, _, none⟩ => exact hrun h₁ hs₁ hm₁

theorem judging_route (request : Request) (route : Route) :
    (judging (.route request route)).wp (routeProgram rt request route) (fun _ _ => True) [] := by
  have hadminister : ∀ {p : M Dict} {h : List (Obs Db)},
      Doing (Administers request.actor) (fun _ => True) p → Matched h →
        (judging (.route request route)).wp p Fit h :=
    fun hp hm => judging_rest hp (fun _ => neutral_of_administers) hm
  -- The four routes of an administrator write nothing that is judged.
  cases route with
  | createIntent body =>
      exact judging_idempotent fun h _ hm => judging_createIntentFromProposal _ _ _ _ _ _ hm
  | createAgentIntent body =>
      refine judging_idempotent fun h _ hm => ?_
      refine Watch.wp_bind (judging_aside (W := fun _ => False) (C := fun _ => True)
        (doing_propose body trivial) (fun _ hw => hw.elim) hm fun r h₁ hm₁ => ?_)
      cases r with
      | error x => exact .inr hm₁
      | ok proposal => exact judging_createIntentFromProposal _ _ _ _ _ _ hm₁
  | decideApproval intentId body =>
      refine Watch.wp_mono (fun _ _ _ => trivial) (judging_getSession ?_)
      exact judging_decideApprovalBody _ _ _ rfl onlyReserved_nil .nil
  | cancelIntent intentId body =>
      refine judging_idempotent fun h hs hm => Watch.wp_bind ⟨trivial, fun commandId _ => ?_⟩
      have hs₁ : OnlyReserved (extend h (.draw .uuid : Stmt Db) commandId) := hs
      have hm₁ : Matched (extend h (.draw .uuid : Stmt Db) commandId) := hm
      have hcancel : (judging (.route request (.cancelIntent intentId body))).wp
          (cancel (cancellationCommand request intentId body commandId)) Fit _ :=
        judging_cancel _ rfl hs₁ hm₁
      refine Watch.wp_bind (Watch.wp_mono (fun r h₂ hr => ?_) hcancel)
      cases r with
      | ok snapshot => exact hr
      | error x => exact hr
  | grantRole body =>
      refine judging_idempotent fun h _ hm => hadminister ?_ hm
      refine (Prog.uses_draw trivial).bind fun commandId => ?_
      exact (calmly_grantRole request.actor _ rfl rfl).doing.bind fun _ => trivial
  | revokeRole assignmentId body =>
      refine judging_idempotent fun h _ hm => hadminister ?_ hm
      refine (Prog.uses_draw trivial).bind fun commandId => ?_
      exact (calmly_revokeRole request.actor _ rfl).doing.bind fun _ => trivial
  | registerPolicyBundle body =>
      refine judging_idempotent fun h _ hm => hadminister ?_ hm
      refine (Prog.uses_draw trivial).bind fun commandId => ?_
      exact (calmly_registerPolicyBundle request.actor _ rfl).doing.bind fun _ => trivial
  | activatePolicyBundle version body =>
      refine judging_idempotent fun h _ hm => hadminister ?_ hm
      refine (Prog.uses_draw trivial).bind fun commandId => ?_
      exact (calmly_activatePolicyBundle request.actor _ rfl).doing.bind fun _ => trivial

/-- Every operation meets the obligations of its rows. -/
theorem judging_code (rt : Runtime) (op : Op) :
    (judging op).wp (code rt op) (fun _ _ => True) [] := by
  have hwrapped : ∀ {γ : Type} {wrap : γ → Result} {p : M γ} {Q : Except Error γ → List (Obs Db) → Prop},
      (judging op).wp p Q [] → (judging op).wp (wrapped wrap p) (fun _ _ => True) [] := by
    intro γ wrap p Q hp
    refine Watch.wp_bind (Watch.wp_mono (fun r h' _ => ?_) hp)
    cases r with
    | ok a => trivial
    | error x => trivial
  have hneutral : ∀ {W : Write → Prop} {C : Call → Prop}, Doing W C (code rt op) →
      (∀ w, W w → Neutral w) → (judging op).wp (code rt op) (fun _ _ => True) [] :=
    fun hp hW => judging_aside hp hW .nil fun _ _ _ => trivial
  cases op with
  | route request route => exact hwrapped (judging_route request route)
  | create command => exact hneutral (doing_code rt _) fun _ => neutral_of_creates
  | record key risk policy commandId correlationId =>
      exact hwrapped (judging_getSession (judging_record _ _ _ _ _ .nil))
  | decide command =>
      exact hwrapped (judging_getSession (judging_decide command rfl onlyReserved_nil .nil))
  | cancel command =>
      exact hwrapped (judging_getSession (judging_cancel command rfl onlyReserved_nil .nil))
  | claim request =>
      have hclaim : (judging (.claim request)).wp (claimCall rt request) (fun _ _ => True) [] := by
        refine Watch.wp_handle (Watch.wp_mono (fun r h' _ => ?_) (judging_claimAndRevalidate request .nil))
        cases r with
        | ok a => trivial
        | error x => exact Watch.wp_bind ⟨trivial, fun _ _ => trivial⟩
      exact hwrapped hclaim
  | reconcile executionId workerId commandId =>
      exact hneutral (doing_code rt _) fun _ => neutral_of_executes (by decide)
  | recover => exact hneutral (doing_code rt _) fun _ => neutral_of_executes (by decide)
  | workerTick => exact hwrapped (judging_runWorkerTick .nil)

end Operations

end HitlOps.Lifecycle
