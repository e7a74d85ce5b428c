import HitlOps.Lifecycle.Footprint

/-!
# The powers of the operations

What each operation may write and whom it may call. `doing_code` shows that its program stays within
these powers on every path, and `powers_of_run` carries this to the events of every run.
-/

set_option autoImplicit false

namespace HitlOps.Lifecycle

open HitlOps.Python HitlOps.Domain HitlOps.Infrastructure HitlOps.Application HitlOps.Adapters
open HitlOps.Transaction HitlOps.Api

/-! ## Powers -/

/-- The writes of the service behind a route. -/
def ServiceWrites (actor : AuthenticatedActor) : Route → Write → Prop
  | .createIntent _, w => Creates w ∨ Evaluates w
  | .createAgentIntent _, w => Creates w ∨ Evaluates w
  | .decideApproval _ _, w => Judges w
  | .cancelIntent _ _, w => MovesInto [.cancelled] w
  | .grantRole _, w => Administers actor w
  | .revokeRole _ _, w => Administers actor w
  | .registerPolicyBundle _, w => Administers actor w
  | .activatePolicyBundle _ _, w => Administers actor w

/-- The states that a worker moves an intent into. -/
def workedStates : List IntentState := .revalidating :: gatedStates ++ outcomeStates

/-- The writes of an operation. -/
def MayWrite : Op → Write → Prop
  | .route request route, w => Reserves w ∨ ServiceWrites request.actor route w
  | .create _, w => Creates w
  | .record _ _ _ _ _, w => Evaluates w
  | .decide _, w => Judges w
  | .cancel _, w => MovesInto [.cancelled] w
  | .claim _, w => Executes (.revalidating :: gatedStates) w
  | .reconcile _ _ _, w => Executes outcomeStates w
  | .recover, w => Executes outcomeStates w
  | .workerTick, w => Executes workedStates w

/-- The calls of an operation. -/
def MayCall : Op → Call → Prop
  | .route _ (.createAgentIntent body), c => c = .propose body.request (body.contextRefs.take 20)
  | .claim _, c => ∃ tool parameters, c = .fetch tool parameters
  | .reconcile _ _ _, c => ∃ tool key provider, c = .lookupStatus tool key provider
  | .workerTick, c => ∀ request context, c ≠ .propose request context
  | _, _ => False

theorem MovesInto.mono {T T' : List IntentState} (hT : ∀ state ∈ T, state ∈ T') {w : Write}
    (h : MovesInto T w) : MovesInto T' w := by
  cases w with
  | insertTransition t => exact hT _ h
  | updateIntent key patch => exact ⟨hT _ h.1, h.2⟩
  | _ => exact h

theorem Executes.mono {T T' : List IntentState} (hT : ∀ state ∈ T, state ∈ T') {w : Write}
    (h : Executes T w) : Executes T' w := by
  cases w with
  | insertTransition t => exact hT _ h
  | updateIntent key patch => exact ⟨hT _ h.1, h.2⟩
  | _ => exact h

/-! ## Parts of programs -/

section Parts

variable {rt : Runtime} {W : Write → Prop} {C : Call → Prop} {α β : Type}

theorem doing_commit : Doing W C (Prog.commit (D := Db) : M Unit) := ⟨trivial, fun _ => trivial⟩

theorem doing_rollback : Doing W C (Prog.rollback (D := Db) : M Unit) :=
  ⟨trivial, fun _ => trivial⟩

theorem doing_transaction {p : M α} (hp : Doing W C p) :
    Doing W C (Prog.transaction (D := Db) p) :=
  Prog.Uses.handle (hp.bind fun _ => doing_commit.bind fun _ => trivial)
    fun _ _ => doing_rollback.bind fun _ => trivial

theorem doing_session {p : M α} (hp : Doing W C p) : Doing W C (Prog.session (D := Db) p) :=
  Prog.Uses.handle (hp.bind fun _ => doing_rollback.bind fun _ => trivial)
    fun _ _ => doing_rollback.bind fun _ => trivial

theorem doing_getSession {p : M α} (hp : Doing W C p) : Doing W C (getSession p) := by
  refine Prog.Uses.handle (hp.bind fun _ => doing_commit.bind fun _ => trivial) fun x _ => ?_
  exact Prog.uses_ite (fun _ => doing_commit.bind fun _ => trivial)
    fun _ => doing_rollback.bind fun _ => trivial

theorem CalmTransaction.doing {p : M α} (hp : CalmTransaction W p) : Doing W C p := by
  obtain ⟨body, rfl, hbody⟩ := hp
  exact doing_transaction hbody.doing

theorem doing_wrapped (wrap : α → Result) {p : M α} (hp : Doing W C p) :
    Doing W C (wrapped wrap p) := hp.bind fun _ => trivial

theorem doing_lockIntent (key : RevisionKey) : Doing W C (lockIntent key) := by
  refine (Prog.uses_lock trivial).bind fun r => ?_
  cases r with
  | none => exact trivial
  | some seen => exact Prog.uses_orRaise trivial

/-! ## Creation -/

theorem doing_create (hW : ∀ w, Creates w → W w) (command : CreateIntentCommand) :
    Doing W C (create rt command) := by
  refine (Prog.uses_draw trivial).bind fun now => ?_
  have hborn : Creates (.insertTransition (createdTransition command now)) :=
    List.mem_singleton_self _
  refine Prog.Uses.bind (p := insertIntent _) ?_ fun _ => ?_
  · refine Prog.Uses.bind (Prog.uses_raiseIf trivial) fun _ => ?_
    refine Prog.Uses.bind (Prog.uses_insert (hW (.insertIntent _) trivial)) fun _ => Prog.uses_raiseIf trivial
  · refine Prog.Uses.bind (calmly_flush (hW _ hborn)).doing fun _ => ?_
    exact Prog.Uses.bind (calmly_flush (hW (.insertOutbox _ _) trivial)).doing fun _ => trivial

theorem doing_record (hW : ∀ w, Evaluates w → W w) (key : RevisionKey) (risk : RiskEvaluation)
    (policy : PolicyEvaluation) (commandId correlationId : String) :
    Doing W C (record key risk policy commandId correlationId) := by
  refine (calmly_query (W := W) _).doing.bind fun risks => ?_
  refine (calmly_scalarOneOrNone (W := W) _).doing.bind fun found => ?_
  cases found with
  | some existing => exact (calmly_currentRecord _ _).doing
  | none =>
      refine (Prog.uses_lock trivial).bind fun seen => ?_
      cases seen with
      | none => exact trivial
      | some seen =>
          dsimp only
          generalize seen.1.intent? key = found
          cases found with
          | none => exact trivial
          | some intent =>
              refine Prog.uses_ite (fun _ => trivial) fun _ => ?_
              refine (Prog.uses_draw trivial).bind fun now => ?_
              have hrows := (calmly_writeEvaluation intent risk policy commandId correlationId now)
              exact (hrows.mono hW).doing.bind fun _ => trivial

theorem doing_ofExcept (r : Except Error α) : Doing W C (ofExcept r) := (calmly_ofExcept r).doing

theorem doing_createIntentFromProposal (hW : ∀ w, Creates w ∨ Evaluates w → W w)
    (actor : AuthenticatedActor) (tool : String) (parameters : Dict) (rationale : String)
    (source : IntentSource) (correlationId : String) :
    Doing W C
      (createIntentFromProposal rt actor tool parameters rationale source correlationId) := by
  have hcreates : ∀ w, Creates w → W w := fun w hw => hW w (.inl hw)
  have hevaluates : ∀ w, Evaluates w → W w := fun w hw => hW w (.inr hw)
  refine (doing_ofExcept _).bind fun parsed => (doing_ofExcept _).bind fun canonical => ?_
  refine (Prog.uses_draw trivial).bind fun intentId => ?_
  refine (Prog.uses_draw trivial).bind fun commandId => ?_
  refine (doing_create hcreates _).bind fun _ => ?_
  refine (calmly_getActive (W := W) _).doing.bind fun active => ?_
  cases active with
  | none => exact trivial
  | some bundle =>
      refine (doing_ofExcept _).bind fun policy => ?_
      refine (doing_record hevaluates _ _ _ _ _).bind fun _ => ?_
      refine (calmly_query (W := W) _).doing.bind fun found => ?_
      exact Prog.Uses.bind (Prog.uses_orRaise trivial) fun stored => trivial

theorem doing_propose (body : AgentIntentBody)
    (hC : C (.propose body.request (body.contextRefs.take 20))) : Doing W C (propose rt body) := by
  refine (Prog.uses_call hC).bind fun answer => ?_
  cases answer with
  | value raw => exact doing_ofExcept _
  | _ => exact trivial

/-! ## Routes -/

theorem doing_reservationFrom (existing : IdempotencyRecord) (requestHash : String) :
    Doing W C (reservationFrom existing requestHash) :=
  Prog.uses_ite (fun _ => trivial) fun _ => Prog.uses_ite (fun _ => trivial) fun _ => trivial

theorem doing_begin (hW : ∀ w, Reserves w → W w) (key : IdempotencyKey) (requestHash : String) :
    Doing W C (begin key requestHash) := by
  refine (calmly_query (W := W) _).doing.bind fun found => ?_
  cases found with
  | some existing => exact doing_reservationFrom _ _
  | none =>
      refine (Prog.uses_insert (hW (.insertIdempotency _) trivial)).bind fun inserted => Prog.uses_ite (fun _ => trivial) ?_
      refine fun _ => (calmly_query (W := W) _).doing.bind fun found => ?_
      cases found with
      | none => exact trivial
      | some existing => exact doing_reservationFrom _ _

theorem doing_reserve (hW : ∀ w, Reserves w → W w) (key : IdempotencyKey) (requestHash : String) :
    Doing W C (reserve key requestHash) := by
  refine (doing_begin hW _ _).bind fun reservation => ?_
  obtain ⟨replayed, pending, responseStatus, responseBody⟩ := reservation
  cases replayed with
  | false => exact trivial
  | true =>
      cases responseBody with
      | some body => exact trivial
      | none => cases pending <;> exact trivial

theorem doing_idempotent (hW : ∀ w, Reserves w → W w) {request : Request} {scope : String}
    {payload : Dict} {status : Nat} {command : M Dict} (hc : Doing W C command) :
    Doing W C (idempotent rt request scope payload status command) := by
  refine (doing_reserve hW _ _).bind fun found => ?_
  cases found with
  | some body => exact trivial
  | none => exact hc.bind fun _ => (calmly_complete hW _ _ _).doing.bind fun _ => trivial

theorem doing_decideApprovalBody (hW : ∀ w, Reserves w ∨ Judges w → W w) (request : Request)
    (intentId : UUID) (body : ApprovalBody) :
    Doing W C (decideApprovalBody rt request intentId body) := by
  have hreserves : ∀ w, Reserves w → W w := fun w hw => hW w (.inl hw)
  have hrun : Doing W C (decideAndComplete request intentId body
      (recordKey rt request "approvals")) := (calmly_decideAndComplete hW _ _ _ _).doing
  refine (doing_begin hreserves _ _).bind fun reservation => ?_
  obtain ⟨replayed, pending, responseStatus, responseBody⟩ := reservation
  cases replayed with
  | false => exact hrun
  | true =>
      cases responseBody with
      | some body => exact Prog.uses_ite (fun _ => trivial) fun _ => trivial
      | none =>
          cases pending with
          | true => exact trivial
          | false => exact hrun

theorem doing_route (request : Request) (route : Route) :
    Doing (MayWrite (.route request route)) (MayCall (.route request route))
      (routeProgram rt request route) := by
  have hreserves : ∀ w, Reserves w → MayWrite (.route request route) w := fun _ hw => .inl hw
  have hserves : ∀ w, ServiceWrites request.actor route w → MayWrite (.route request route) w :=
    fun _ hw => .inr hw
  cases route with
  | createIntent body =>
      refine doing_getSession (doing_idempotent hreserves ?_)
      exact doing_createIntentFromProposal hserves _ _ _ _ _ _
  | createAgentIntent body =>
      refine doing_getSession (doing_idempotent hreserves ?_)
      have hpropose : Doing (MayWrite (.route request (.createAgentIntent body)))
          (MayCall (.route request (.createAgentIntent body))) (propose rt body) :=
        doing_propose body rfl
      exact hpropose.bind fun proposal => doing_createIntentFromProposal hserves _ _ _ _ _ _
  | decideApproval intentId body =>
      exact doing_getSession (doing_decideApprovalBody (fun _ hw => hw) _ _ _)
  | cancelIntent intentId body =>
      refine doing_getSession (doing_idempotent hreserves ?_)
      refine (Prog.uses_draw trivial).bind fun commandId => ?_
      exact ((calmly_cancel _).mono hserves).doing.bind fun _ => trivial
  | grantRole body =>
      refine doing_getSession (doing_idempotent hreserves ?_)
      refine (Prog.uses_draw trivial).bind fun commandId => ?_
      exact ((calmly_grantRole request.actor _ rfl rfl).mono hserves).doing.bind fun _ => trivial
  | revokeRole assignmentId body =>
      refine doing_getSession (doing_idempotent hreserves ?_)
      refine (Prog.uses_draw trivial).bind fun commandId => ?_
      exact ((calmly_revokeRole request.actor _ rfl).mono hserves).doing.bind fun _ => trivial
  | registerPolicyBundle body =>
      refine doing_getSession (doing_idempotent hreserves ?_)
      refine (Prog.uses_draw trivial).bind fun commandId => ?_
      exact ((calmly_registerPolicyBundle request.actor _ rfl).mono hserves).doing.bind fun _ => trivial
  | activatePolicyBundle version body =>
      refine doing_getSession (doing_idempotent hreserves ?_)
      refine (Prog.uses_draw trivial).bind fun commandId => ?_
      exact ((calmly_activatePolicyBundle request.actor _ rfl).mono hserves).doing.bind fun _ => trivial

/-! ## Workers -/

theorem doing_claimExecution (hW : ∀ w, Executes [] w → W w) (key : RevisionKey) (dbNow : Time)
    (leaseSeconds : Nat) : Doing W C (claimExecution key dbNow leaseSeconds) := by
  refine (calmly_query (W := W) _).doing.bind fun rows => ?_
  refine (calmly_scalarOneOrNone (W := W) _).doing.bind fun found => ?_
  cases found with
  | some existing =>
      exact Prog.uses_ite (fun _ => trivial) fun _ => (calmly_flush (hW (.updateExecution _ _) trivial)).doing
  | none =>
      refine (Prog.uses_draw trivial).bind fun id => ?_
      exact Prog.Uses.bind (Prog.uses_insert (hW (.insertExecution _) trivial)) fun _ =>
        Prog.uses_raiseIf trivial

theorem doing_fetchTarget (hC : ∀ tool parameters, C (.fetch tool parameters)) (tool : ToolName)
    (parameters : Dict) (attempts : Nat) (reason : String) :
    Doing W C (fetchTarget tool parameters attempts reason) := by
  induction attempts generalizing reason with
  | zero => exact trivial
  | succ attempts ih =>
      refine (Prog.uses_call (hC _ _)).bind fun answer => ?_
      cases answer with
      | snapshot s => exact trivial
      | timeout => exact ih _
      | error => exact ih _
      | cancelled => exact trivial

theorem doing_claimPhase (hW : ∀ w, Executes [.revalidating] w → W w) (request : ClaimRequest) :
    Doing W C (claimPhase request) := by
  have hrows : ∀ w, Executes [] w → W w := fun w hw =>
    hW w (hw.mono fun _ hs => absurd hs List.not_mem_nil)
  refine (calmly_lockIntentNowait (W := W) _).doing.bind fun r => ?_
  match r with
  | none => exact trivial
  | some (none, _) => exact trivial
  | some (some intent, dbNow) =>
      refine Prog.uses_ite (fun _ => trivial) fun _ => ?_
      refine (doing_claimExecution hrows _ _ _).bind fun _ => ?_
      exact (calmly_appendTransition (fun w hw => hW w (executes_of_moves hw))
        (List.mem_singleton_self _) _ _ _ _ _).doing

theorem doing_claimAndRevalidate (hW : ∀ w, Executes (.revalidating :: gatedStates) w → W w)
    (hC : ∀ tool parameters, C (.fetch tool parameters)) (request : ClaimRequest) :
    Doing W C (claimAndRevalidate rt request) := by
  have hgated : ∀ w, Executes gatedStates w → W w := fun w hw =>
    hW w (hw.mono fun _ hs => List.mem_cons_of_mem _ hs)
  have hclaim : ∀ w, Executes [.revalidating] w → W w := fun w hw => hW w (hw.mono (by decide))
  have hbody : Doing W C (claimAndRevalidateBody rt request) := by
    refine Prog.Uses.bind (p := claimPhase request) ?_ fun intent => ?_
    · exact doing_claimPhase hclaim request
    · refine doing_commit.bind fun _ => (doing_fetchTarget hC _ _ _ _).bind fun fetched => ?_
      cases fetched with
      | error reason =>
          have hfail := (calm_failAfterFetchFailure request reason).doing (C := C)
          have hstale : ∀ w, Executes [.stale] w → W w := fun w hw =>
            hgated w (hw.mono (by decide))
          exact (hfail.mono hstale fun _ hc => hc).bind fun _ => trivial
      | ok snapshot =>
          have hgates : CalmTransaction (Executes gatedStates) (gatePhase rt request snapshot) :=
            calm_gatePhase request snapshot
          exact (hgates.doing (C := C)).mono hgated fun _ hc => hc
  refine Prog.Uses.bind ⟨trivial, fun _ => trivial⟩ fun _ => Prog.Uses.handle hbody fun x _ => ?_
  exact Prog.uses_ite (fun _ => trivial) fun _ => trivial

theorem doing_executePermit (hW : ∀ w, Executes outcomeStates w → W w)
    (hC : ∀ tool command, C (.execute tool command)) (permit : ExecutionPermit)
    (workerId commandId : String) : Doing W C (executePermit rt permit workerId commandId) := by
  refine (calmly_query (W := W) _).doing.bind fun found => ?_
  refine Prog.Uses.bind (Prog.uses_orRaise trivial) fun execution => ?_
  refine (doing_lockIntent _).bind fun intent => Prog.uses_ite (fun _ => trivial) fun _ => ?_
  refine (Prog.uses_call (hC _ _)).bind fun answer => ?_
  exact ((calmly_recordOutcome _ _ _ _ _).mono hW).doing

theorem doing_reconcile (hW : ∀ w, Executes outcomeStates w → W w)
    (hC : ∀ tool key provider, C (.lookupStatus tool key provider)) (executionId : UUID)
    (workerId commandId : String) : Doing W C (reconcile rt executionId workerId commandId) := by
  refine (calmly_query (W := W) _).doing.bind fun found => ?_
  refine Prog.Uses.bind (Prog.uses_orRaise trivial) fun execution => ?_
  refine (doing_lockIntent _).bind fun intent => Prog.uses_ite (fun _ => trivial) fun _ => ?_
  refine (Prog.uses_call (hC _ _ _)).bind fun answer => ?_
  exact ((calmly_recordEvidence _ _ _ _ _).mono hW).doing

theorem doing_recoverAll (hW : ∀ w, Executes outcomeStates w → W w) (candidates : List Execution)
    (recovered : Nat) : Doing W C (Worker.recoverAll candidates recovered) := by
  induction candidates generalizing recovered with
  | nil => exact trivial
  | cons candidate rest ih =>
      refine (Prog.uses_draw trivial).bind fun commandId => ?_
      have hone := (calm_recoverCandidate candidate commandId.hex).doing (C := C)
      refine Prog.Uses.bind (Prog.Uses.handle (hone.mono hW fun _ hc => hc) fun x _ => ?_)
        fun _ => ih _
      exact Prog.uses_ite (fun _ => trivial) fun _ => trivial

theorem doing_recoverStaleExecuting (hW : ∀ w, Executes outcomeStates w → W w) :
    Doing W C Worker.recoverStaleExecuting := by
  refine Prog.Uses.bind (doing_session ?_) fun candidates => doing_recoverAll hW _ _
  exact Prog.Uses.bind (Prog.uses_select trivial) fun _ =>
    (Prog.uses_draw trivial).bind fun _ => trivial

theorem doing_claim (hW : ∀ w, Executes (.revalidating :: gatedStates) w → W w)
    (hC : ∀ tool parameters, C (.fetch tool parameters)) (key : RevisionKey) (commandId : String) :
    Doing W C (Worker.claim rt key commandId) := by
  refine Prog.Uses.handle (doing_session ?_) fun x _ => Prog.uses_ite (fun _ => trivial) fun _ => trivial
  refine (calmly_getActive (W := W) _).doing.bind fun active => ?_
  cases active with
  | none => exact trivial
  | some bundle =>
      refine (doing_claimAndRevalidate hW hC _).bind fun claimed => ?_
      cases claimed <;> exact trivial

theorem doing_execute (hW : ∀ w, Executes outcomeStates w → W w)
    (hC : ∀ tool command, C (.execute tool command)) (permit : ExecutionPermit)
    (commandId : String) : Doing W C (Worker.execute rt permit commandId) := by
  refine Prog.Uses.handle ((doing_transaction (doing_executePermit hW hC _ _ _)).bind
    fun _ => trivial) fun x _ => ?_
  exact Prog.uses_ite (fun _ => trivial) fun _ => trivial

theorem doing_executeEligible (hW : ∀ w, Executes workedStates w → W w)
    (hC : ∀ c, (∀ request context, c ≠ .propose request context) → C c) (keys : List RevisionKey)
    (stats : Worker.Stats) : Doing W C (Worker.executeEligible rt keys stats) := by
  have hclaims : ∀ w, Executes (.revalidating :: gatedStates) w → W w := fun w hw =>
    hW w (hw.mono fun _ hs => List.mem_append_left _ hs)
  have houtcomes : ∀ w, Executes outcomeStates w → W w := fun w hw =>
    hW w (hw.mono fun _ hs => List.mem_append_right _ hs)
  have hfetch : ∀ tool parameters, C (.fetch tool parameters) := fun _ _ =>
    hC _ fun _ _ h => by cases h
  have hexecute : ∀ tool command, C (.execute tool command) := fun _ _ =>
    hC _ fun _ _ h => by cases h
  induction keys generalizing stats with
  | nil => exact trivial
  | cons key rest ih =>
      refine (Prog.uses_draw trivial).bind fun commandId => ?_
      refine (doing_claim hclaims hfetch _ _).bind fun claimed => ?_
      cases claimed with
      | none => exact ih _
      | some permit => exact (doing_execute houtcomes hexecute _ _).bind fun executed => ih _

theorem doing_reconcileDue (hW : ∀ w, Executes outcomeStates w → W w)
    (hC : ∀ tool key provider, C (.lookupStatus tool key provider)) (ids : List UUID)
    (stats : Worker.Stats) : Doing W C (Worker.reconcileDue rt ids stats) := by
  induction ids generalizing stats with
  | nil => exact trivial
  | cons id rest ih =>
      refine (Prog.uses_draw trivial).bind fun commandId => ?_
      have hone : Doing W C (reconcile rt id Worker.workerId commandId.hex) :=
        doing_reconcile hW hC _ _ _
      refine Prog.Uses.bind (Prog.Uses.handle ((doing_transaction hone).bind fun _ => trivial)
        fun x _ => ?_) fun _ => ih _
      exact Prog.uses_ite (fun _ => trivial) fun _ => trivial

theorem doing_runWorkerTick (hW : ∀ w, Executes workedStates w → W w)
    (hC : ∀ c, (∀ request context, c ≠ .propose request context) → C c) :
    Doing W C (Worker.runWorkerTick rt) := by
  have houtcomes : ∀ w, Executes outcomeStates w → W w := fun w hw =>
    hW w (hw.mono fun _ hs => List.mem_append_right _ hs)
  have hlookup : ∀ tool key provider, C (.lookupStatus tool key provider) := fun _ _ _ =>
    hC _ fun _ _ h => by cases h
  have hpublish : C .publishPending := hC _ fun _ _ h => by cases h
  refine (doing_recoverStaleExecuting houtcomes).bind fun recovered => ?_
  refine Prog.Uses.bind (doing_session ?_) fun unknowns => ?_
  · exact Prog.Uses.bind (Prog.uses_select trivial) fun _ =>
      (Prog.uses_draw trivial).bind fun _ => trivial
  refine Prog.Uses.bind (doing_session (calmly_scan (W := W) _).doing) fun eligible => ?_
  refine (doing_executeEligible hW hC _ _).bind fun stats => ?_
  refine (doing_reconcileDue houtcomes hlookup _ _).bind fun stats => Prog.Uses.bind ?_ fun _ => trivial
  refine (Prog.uses_call hpublish).bind fun answer => ?_
  cases answer with
  | none => exact trivial
  | some x => exact trivial

end Parts

/-- Every operation stays within its powers. -/
theorem doing_code (rt : Runtime) (op : Op) :
    Doing (MayWrite op) (MayCall op) (code rt op) := by
  cases op with
  | route request route => exact doing_wrapped _ (doing_route request route)
  | create command => exact doing_wrapped _ (doing_getSession (doing_create (fun _ hw => hw) _))
  | record key risk policy commandId correlationId =>
      exact doing_wrapped _ (doing_getSession (doing_record (fun _ hw => hw) _ _ _ _ _))
  | decide command => exact doing_wrapped _ (doing_getSession (calmly_decide command).doing)
  | cancel command => exact doing_wrapped _ (doing_getSession (calmly_cancel command).doing)
  | claim request =>
      have hclaim : Doing (MayWrite (.claim request)) (MayCall (.claim request))
          (claimAndRevalidate rt request) :=
        doing_claimAndRevalidate (fun _ hw => hw) (fun _ _ => ⟨_, _, rfl⟩) request
      exact doing_wrapped _
        (Prog.Uses.handle hclaim fun x _ => doing_rollback.bind fun _ => trivial)
  | reconcile executionId workerId commandId =>
      refine doing_wrapped _ (doing_transaction ?_)
      exact doing_reconcile (fun _ hw => hw) (fun _ _ _ => ⟨_, _, _, rfl⟩) _ _ _
  | recover => exact doing_wrapped _ (doing_recoverStaleExecuting fun _ hw => hw)
  | workerTick => exact doing_wrapped _ (doing_runWorkerTick (fun _ hw => hw) fun _ hc => hc)

/-! ## Runs -/

/-- What an operation may do does not depend on its history. -/
def withinPowers (op : Op) (_ : List (Obs Db)) (st : Stmt Db) : Prop :=
  Does (MayWrite op) (MayCall op) st

/-- In every run the writes and the calls of an event are those of its operation. -/
theorem powers_of_run {rt : Runtime} {allowed : Op → Prop} {s : State} (h : Run rt allowed s)
    {e : Entry} (he : e ∈ s.trace) : (∀ c, e.act = .call c → MayCall e.op c) ∧
      ∀ w ∈ History.writes e.history, MayWrite e.op w := by
  obtain ⟨assignments, bundles, h⟩ := h
  have hcode : ∀ op, allowed op →
      (Watch.over (fun _ => True) (withinPowers op)).wp (code rt op) (fun _ _ => True) [] := by
    intro op _
    refine Watch.wp_uses (fun _ => True) (fun st hst _ _ => ⟨hst, fun _ _ => trivial⟩)
      (doing_code rt op) trivial fun _ _ _ _ => trivial
  have hfollowed := followedEach_of_reachable hcode h
  obtain ⟨hkept, hmust⟩ := hfollowed.trace e he
  refine ⟨fun c hc => ?_, fun w hw => ?_⟩
  · rw [hc] at hmust
    exact hmust
  · exact hkept.writes (fun _ _ hw => hw) (fun _ _ _ hw => hw) w hw

end HitlOps.Lifecycle
