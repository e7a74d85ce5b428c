import HitlOps.Lifecycle.Decisions
import HitlOps.Lifecycle.Ledger
import HitlOps.Lifecycle.Routes

/-!
# Footprints

What the programs may write, which calls they may send and which locks they ask for. `Calm W` is a
statement inside a transaction that waits for nobody, calls nobody and writes only what `W` allows;
`Does W C` is any statement whose write `W` allows and whose call `C` allows. Each service has its own
class of writes.
-/

set_option autoImplicit false

namespace HitlOps.Lifecycle

open HitlOps.Python HitlOps.Domain HitlOps.Infrastructure HitlOps.Application HitlOps.Adapters
open HitlOps.Transaction HitlOps.Api

/-! ## Classes of writes -/

/-- A move of an intent into a state of `T`: its transition, its message and its row. -/
def MovesInto (T : List IntentState) : Write → Prop
  | .insertTransition t => t.toState ∈ T
  -- Only the patch of an evaluation carries a deadline.
  | .updateIntent _ patch => patch.state ∈ T ∧ patch.approvalExpiresAt = none
  | .insertOutbox _ _ => True
  | _ => False

/-- The states that an evaluation leads to. -/
def evaluatedStates : List IntentState :=
  [.riskEvaluated, .policyEvaluated, .autoApproved, .pendingApproval1, .blocked]

/-- The states that a decision leads to. -/
def decidedStates : List IntentState :=
  [.approvedByLevel1, .pendingApproval2, .approved, .rejected, .expired]

/-- The states that the gates lead to. -/
def gatedStates : List IntentState := [.executing, .stale, .expired]

/-- The states in which an execution ends. -/
def outcomeStates : List IntentState := [.succeeded, .failed, .executionUnknown]

/-- A write of an evaluation. -/
def Evaluates : Write → Prop
  | .insertRisk _ => True
  | .insertPolicy _ => True
  | .updateIntent _ patch => patch.state ∈ evaluatedStates
  | w => MovesInto evaluatedStates w

/-- A write of a decision. -/
def Judges : Write → Prop
  | .insertDecision _ => True
  | w => MovesInto decidedStates w

/-- A write to an execution, with the move of its intent into a state of `T`. -/
def Executes (T : List IntentState) : Write → Prop
  | .insertExecution _ => True
  | .updateExecution _ _ => True
  | w => MovesInto T w

/-- A write of an administration command of the actor. -/
def Administers (actor : AuthenticatedActor) : Write → Prop
  | .insertAssignment row => row.tenantId = actor.tenantId ∧ row.grantedBy = actor.actorId
  | .revokeAssignment _ _ => True
  | .insertBundle row => row.tenantId = actor.tenantId
  | .deactivateBundles tenantId => tenantId = actor.tenantId
  | .activateBundle _ => True
  | .insertOutbox _ _ => True
  | _ => False

/-- A write of an idempotency record. -/
def Reserves : Write → Prop
  | .insertIdempotency _ => True
  | .completeIdempotency _ _ _ => True
  | _ => False

/-- A write of a creation. -/
def Creates : Write → Prop
  | .insertIntent _ => True
  | w => MovesInto [.requested] w

theorem judges_of_moves {w : Write} (h : MovesInto decidedStates w) : Judges w := by
  cases w <;> first | exact trivial | exact h

theorem executes_of_moves {T : List IntentState} {w : Write} (h : MovesInto T w) : Executes T w := by
  cases w <;> first | exact trivial | exact h

/-! ## Deadlines -/

/-- The deadline of the intent lies ahead of the instant. -/
def OpenAt (a : ActionIntent) (t : Time) : Prop := ∀ x, a.approvalExpiresAt = some x → t < x

/-- The deadline of the intent has passed at the instant. -/
def ElapsedAt (a : ActionIntent) (t : Time) : Prop := ∃ x, a.approvalExpiresAt = some x ∧ x ≤ t

theorem elapsedAt_of_windowElapsed {a : ActionIntent} {t : Time} (hw : windowElapsed a t = true) :
    ElapsedAt a t := by
  unfold windowElapsed at hw
  cases hx : a.approvalExpiresAt with
  | none =>
      rw [hx] at hw
      cases hw
  | some x =>
      rw [hx] at hw
      exact ⟨x, hx, of_decide_eq_true hw⟩

theorem openAt_of_windowElapsed {a : ActionIntent} {t : Time} (hw : ¬ windowElapsed a t = true) :
    OpenAt a t := by
  intro x hx
  unfold windowElapsed at hw
  rw [hx, Option.any_some, decide_eq_true_eq] at hw
  exact Nat.lt_of_not_le hw

/-! ## Classes of statements -/

/-- A statement that waits for nobody, leaves the transaction open, calls nobody and writes what `W`
allows. -/
def Calm (W : Write → Prop) : Stmt Db → Prop
  | .lock (.intent _) nowait => nowait = true
  | .lock _ _ => False
  | .insert _ _ => False
  | .write w => W w
  | .commit => False
  | .rollback => False
  | .call _ => False
  | _ => True

/-- A statement that writes what `W` allows and calls what `C` allows. -/
def Does (W : Write → Prop) (C : Call → Prop) : Stmt Db → Prop
  | .insert _ w => W w
  | .write w => W w
  | .call c => C c
  | _ => True

/-- A program of calm statements. -/
abbrev Calmly {α : Type} (W : Write → Prop) (p : M α) : Prop := p.Uses (Calm W) fun _ => True

/-- A program that writes what `W` allows and calls what `C` allows. -/
abbrev Doing {α : Type} (W : Write → Prop) (C : Call → Prop) (p : M α) : Prop :=
  p.Uses (Does W C) fun _ => True

theorem does_mono {W W' : Write → Prop} {C C' : Call → Prop} (hW : ∀ w, W w → W' w)
    (hC : ∀ c, C c → C' c) {st : Stmt Db} (hst : Does W C st) : Does W' C' st := by
  cases st with
  | write w => exact hW w hst
  | insert k w => exact hW w hst
  | call c => exact hC c hst
  | _ => exact trivial

theorem Doing.mono {α : Type} {W W' : Write → Prop} {C C' : Call → Prop} {p : M α}
    (hp : Doing W C p) (hW : ∀ w, W w → W' w) (hC : ∀ c, C c → C' c) : Doing W' C' p :=
  Prog.Uses.mono hp (fun _ hst => does_mono hW hC hst) fun _ _ => trivial

theorem calm_mono {W W' : Write → Prop} (h : ∀ w, W w → W' w) {st : Stmt Db} (hst : Calm W st) :
    Calm W' st := by
  cases st with
  | write w => exact h w hst
  | lock k nowait =>
      cases k with
      | intent key => exact hst
      | idempotency key => exact hst.elim
      | execution id => exact hst.elim
  | insert k w => exact hst.elim
  | commit => exact hst.elim
  | rollback => exact hst.elim
  | call c => exact hst.elim
  | _ => exact trivial

theorem Calmly.mono {α : Type} {W W' : Write → Prop} {p : M α} (hp : Calmly W p)
    (h : ∀ w, W w → W' w) : Calmly W' p :=
  Prog.Uses.mono hp (fun _ hst => calm_mono h hst) fun _ _ => trivial

theorem does_of_calm {W : Write → Prop} {C : Call → Prop} {st : Stmt Db} (hst : Calm W st) :
    Does W C st := by
  cases st with
  | write w => exact hst
  | insert k w => exact hst.elim
  | call c => exact hst.elim
  | _ => exact trivial

theorem Calmly.doing {α : Type} {W : Write → Prop} {C : Call → Prop} {p : M α} (hp : Calmly W p) :
    Doing W C p := Prog.Uses.mono hp (fun _ => does_of_calm) fun _ _ => trivial

/-- A transaction with a calm body. -/
def CalmTransaction {α : Type} (W : Write → Prop) (p : M α) : Prop :=
  ∃ body, p = Prog.transaction (D := Db) body ∧ Calmly W body

/-! ## Parts of programs -/

section Parts

variable {W : Write → Prop} {T : List IntentState} {rt : Runtime} {α β : Type}

theorem calmly_query (q : Store → α) : Calmly W (Prog.query (D := Db) q : M α) :=
  Prog.uses_query trivial

theorem calmly_draw (o : Application.Source) : Calmly W (Prog.draw (D := Db) o : M _) :=
  Prog.uses_draw trivial

theorem calmly_raiseIf (c : Prop) [Decidable c] (x : Error) :
    Calmly W (Prog.raiseIf (D := Db) c x) := Prog.uses_raiseIf trivial

theorem calmly_orRaise (x : Error) (o : Option α) : Calmly W (Prog.orRaise (D := Db) x o) :=
  Prog.uses_orRaise trivial

theorem calmly_mark (m : Mark) : Calmly W (Prog.mark (D := Db) m : M Unit) := Prog.uses_mark trivial

theorem calmly_scan (q : Store → List α) : Calmly W (scan q) :=
  (calmly_query q).bind fun _ => (calmly_draw .order).bind fun _ => trivial

theorem calmly_scalarOne (rows : List α) : Calmly W (scalarOne rows) := by
  match rows with
  | [] => exact trivial
  | [_] => exact trivial
  | _ :: _ :: _ => exact trivial

theorem calmly_scalarOneOrNone (rows : List α) : Calmly W (scalarOneOrNone rows) := by
  match rows with
  | [] => exact trivial
  | [_] => exact trivial
  | _ :: _ :: _ => exact trivial

theorem calmly_ofExcept (r : Except Error α) : Calmly W (ofExcept r) := by
  cases r with
  | ok a => exact trivial
  | error x => exact trivial

theorem calmly_flush {w : Write} (hw : W w) : Calmly W (flush w) :=
  Prog.Uses.bind (calmly_raiseIf _ _) fun _ => Prog.uses_write hw

theorem calmly_lockIntentNowait (key : RevisionKey) : Calmly W (lockIntentNowait key) := by
  have hlock : Calm W (.lock (.intent key) true) := rfl
  refine (Prog.uses_lock hlock).bind fun r => ?_
  cases r with
  | none => exact trivial
  | some _ => exact trivial

theorem calmly_currentRoles (actor : AuthenticatedActor) (environment : Option Json) :
    Calmly W (currentRoles actor environment) :=
  (calmly_query _).bind fun _ => (calmly_draw .now).bind fun _ => trivial

theorem calmly_currentScopes (actor : AuthenticatedActor) (environment : Option Json) :
    Calmly W (currentScopes actor environment) :=
  (calmly_query _).bind fun _ => (calmly_draw .now).bind fun _ => trivial

theorem calmly_getActive (tenantId : String) : Calmly W (getActive tenantId) :=
  (calmly_query _).bind fun _ => (calmly_scalarOneOrNone _).bind fun _ => trivial

theorem calmly_appendTransition (hW : ∀ w, MovesInto T w → W w) {target : IntentState}
    (hT : target ∈ T) (intent : ActionIntent) (cause : Cause) (dbNow : Time) (topic : String)
    (payload : Dict) : Calmly W (appendTransition intent target cause dbNow topic payload) := by
  have hrow : ∀ t : StateTransition, t.toState = target → W (.insertTransition t) := by
    intro t ht
    refine hW _ ?_
    rw [← ht] at hT
    exact hT
  have hpatch : ∀ n, W (.updateIntent intent.key ⟨target, n, none⟩) := fun n => hW _ ⟨hT, rfl⟩
  have hmessage : W (.insertOutbox topic payload) := hW _ trivial
  refine Prog.Uses.bind (p := requireTransition _ _) (calmly_raiseIf _ _) fun _ => ?_
  refine (calmly_query _).bind fun last => ?_
  refine Prog.Uses.bind (calmly_flush (hrow _ rfl)) fun _ => ?_
  refine Prog.Uses.bind (calmly_flush hmessage) fun _ => ?_
  exact Prog.Uses.bind (calmly_flush (hpatch _)) fun _ => trivial

/-! ## Commands -/

theorem calmly_loadLockedIntent (key : RevisionKey) : Calmly W (loadLockedIntent key) := by
  refine (calmly_lockIntentNowait key).bind fun r => ?_
  match r with
  | none => exact trivial
  | some (none, _) => exact trivial
  | some (some _, _) => exact trivial

theorem calmly_enforceDistinctL1 (key : RevisionKey) (actorId : String) :
    Calmly W (enforceDistinctL1 key actorId) := by
  refine (calmly_scan _).bind fun actors => (calmly_scalarOneOrNone _).bind fun _ => ?_
  exact calmly_raiseIf _ _

theorem calmly_resolveTarget (intent : ActionIntent) (route : ApprovalRoute)
    (command : ApprovalDecisionCommand) : Calmly W (resolveTarget intent route command) := by
  refine Prog.uses_ite (fun _ => ?_) fun _ => Prog.uses_ite (fun _ => ?_) fun _ =>
    Prog.uses_ite (fun _ => ?_) fun _ => trivial
  · exact Prog.Uses.bind (p := requireTransition _ _) (calmly_raiseIf _ _) fun _ => trivial
  · refine Prog.uses_ite (fun _ => trivial) fun _ => ?_
    exact Prog.uses_ite (fun _ => trivial) fun _ => trivial
  · refine Prog.uses_ite (fun _ => trivial) fun _ => Prog.uses_ite (fun _ => trivial) fun _ => ?_
    exact (calmly_enforceDistinctL1 _ _).bind fun _ => trivial

theorem yields_resolved (intent : ActionIntent) (route : ApprovalRoute)
    (command : ApprovalDecisionCommand) :
    (resolveTarget intent route command).Yields (Resolved command intent.state route []) := by
  refine Prog.yields_ite (fun hd => ?_) fun hd => ?_
  · exact (Prog.yields_raiseIf _ _).bind fun _ hlegal => .reject hd (by simpa using hlegal)
  have happrove : command.decision = .approve := by
    cases h : command.decision with
    | approve => rfl
    | reject => exact absurd h hd
  refine Prog.yields_ite (fun hs => ?_) fun _ => Prog.yields_ite (fun hs => ?_) fun _ => trivial
  · refine Prog.yields_ite (fun _ => trivial) fun hl => ?_
    refine Prog.yields_ite (fun hr => ?_) fun hr => ?_
    · exact .first happrove hs (not_not.1 hl) hr
    · exact .single happrove hs (not_not.1 hl) hr
  · refine Prog.yields_ite (fun _ => trivial) fun hl => Prog.yields_ite (fun _ => trivial) fun hr => ?_
    refine (Prog.yields_true _).bind fun _ _ => ?_
    exact .second happrove hs (not_not.1 hl) (not_not.1 hr) fun d hd => (by cases hd)

/-- What a decision leads to. -/
theorem decided_of_resolved {command : ApprovalDecisionCommand} {state target : IntentState}
    {route : ApprovalRoute} {decisions : List ApprovalDecisionRow}
    (h : Resolved command state route decisions target) : target ∈ decidedStates := by
  cases h with
  | reject => decide
  | single => decide
  | first => decide
  | second => decide

theorem calmly_writeDecision {target : IntentState} (hT : target ∈ decidedStates)
    (command : ApprovalDecisionCommand) (intent : ActionIntent) (policy : PolicyEvaluation)
    (roles scopes : List String) (dbNow : Time) :
    Calmly Judges (writeDecision command intent policy roles scopes target dbNow) := by
  refine Prog.Uses.bind (p := insertDecision _) ?_ fun _ => ?_
  · refine (calmly_query _).bind fun existing => Prog.Uses.bind (calmly_raiseIf _ _) fun _ => ?_
    exact calmly_flush trivial
  · refine (calmly_appendTransition (fun _ => judges_of_moves) hT _ _ _ _ _).bind fun moved => ?_
    refine Prog.uses_ite (fun _ => ?_) fun _ => trivial
    have hpending : IntentState.pendingApproval2 ∈ decidedStates := by decide
    exact (calmly_appendTransition (fun _ => judges_of_moves) hpending _ _ _ _ _).bind
      fun _ => trivial

theorem calmly_approverScopes (command : ApprovalDecisionCommand) (policy : PolicyEvaluation)
    (environment : Option Json) : Calmly W (approverScopes command policy environment) := by
  refine Prog.uses_ite (fun _ => ?_) fun _ => trivial
  refine Prog.Uses.bind (p := enforceScopes _ _) (calmly_raiseIf _ _) fun _ => ?_
  refine (calmly_currentScopes _ _).bind fun scopes => ?_
  refine Prog.Uses.bind (p := enforceScopes _ _) (calmly_raiseIf _ _) fun _ => ?_
  exact Prog.Uses.bind (p := enforceObligations _ _) (calmly_raiseIf _ _) fun _ => trivial

theorem calmly_decideCurrent (command : ApprovalDecisionCommand) (intent : ActionIntent)
    (dbNow : Time) : Calmly Judges (decideCurrent command intent dbNow) := by
  refine (calmly_query _).bind fun policies => (calmly_scalarOne _).bind fun policy => ?_
  refine (calmly_currentRoles _ _).bind fun roles => ?_
  refine Prog.Uses.bind (p := enforceRole _ _ _ _) (calmly_raiseIf _ _) fun _ => ?_
  refine (calmly_approverScopes _ _ _).bind fun scopes => ?_
  refine Prog.Uses.bind (calmly_raiseIf _ _) fun _ => ?_
  refine (calmly_resolveTarget _ _ _).bind_yields (yields_resolved _ _ _) fun target hres => ?_
  exact calmly_writeDecision (decided_of_resolved hres) _ _ _ _ _ _

theorem calmly_decide (command : ApprovalDecisionCommand) :
    Calmly Judges (Application.decide command) := by
  have hexpired : IntentState.expired ∈ decidedStates := by decide
  refine (calmly_mark _).bind fun _ => Prog.Uses.bind (calmly_raiseIf _ _) fun _ => ?_
  refine (calmly_loadLockedIntent _).bind fun e => ?_
  refine Prog.Uses.bind (calmly_raiseIf _ _) fun _ => Prog.Uses.bind (calmly_raiseIf _ _) fun _ => ?_
  refine Prog.uses_ite (fun _ => ?_) fun _ => calmly_decideCurrent _ _ _
  exact (calmly_appendTransition (fun _ => judges_of_moves) hexpired _ _ _ _ _).bind
    fun _ => trivial

theorem calmly_enforceCanceller (command : CancelIntentCommand) (intent : ActionIntent) :
    Calmly W (enforceCanceller command intent) := by
  refine Prog.uses_ite (fun _ => ?_) fun _ => trivial
  exact (calmly_currentRoles _ _).bind fun _ => calmly_raiseIf _ _

theorem calmly_cancel (command : CancelIntentCommand) :
    Calmly (MovesInto [.cancelled]) (cancel command) := by
  have hcancelled : IntentState.cancelled ∈ [IntentState.cancelled] := List.mem_singleton_self _
  refine (calmly_mark _).bind fun _ => Prog.Uses.bind (calmly_raiseIf _ _) fun _ => ?_
  refine (calmly_loadLockedIntent _).bind fun e => ?_
  refine Prog.Uses.bind (calmly_raiseIf _ _) fun _ => Prog.Uses.bind (calmly_raiseIf _ _) fun _ => ?_
  refine (calmly_enforceCanceller _ _).bind fun _ => ?_
  exact (calmly_appendTransition (fun _ hw => hw) hcancelled _ _ _ _ _).bind fun _ => trivial

/-! ## Administration -/

theorem calmly_requireAdministrator (actor : AuthenticatedActor) :
    Calmly W (requireAdministrator actor) :=
  (calmly_currentRoles _ _).bind fun _ => calmly_raiseIf _ _

theorem calmly_grantRole (actor : AuthenticatedActor) (command : GrantRoleCommand) (hactor : command.actor = actor)
    (htenant : command.tenantId = actor.tenantId) :
    Calmly (Administers actor) (grantRole command) := by
  subst hactor
  refine (calmly_requireAdministrator _).bind fun _ => ?_
  refine Prog.Uses.bind (Prog.uses_select trivial) fun e => ?_
  refine (calmly_scalarOneOrNone _).bind fun found => ?_
  cases found with
  | some existing => exact trivial
  | none =>
      refine (calmly_draw .uuid).bind fun id => ?_
      refine Prog.Uses.bind (calmly_flush ⟨htenant, rfl⟩) fun _ => ?_
      exact Prog.Uses.bind (calmly_flush trivial) fun _ => trivial

theorem calmly_revokeRole (actor : AuthenticatedActor) (command : RevokeRoleCommand)
    (hactor : command.actor = actor) : Calmly (Administers actor) (revokeRole command) := by
  subst hactor
  refine (calmly_requireAdministrator _).bind fun _ => (calmly_query _).bind fun found => ?_
  refine (calmly_orRaise _ _).bind fun row => Prog.Uses.bind (calmly_raiseIf _ _) fun _ => ?_
  refine (calmly_draw .now).bind fun now => Prog.Uses.bind (calmly_flush trivial) fun _ => ?_
  exact Prog.Uses.bind (calmly_flush trivial) fun _ => trivial

theorem calmly_registerPolicyBundle (actor : AuthenticatedActor) (command : RegisterPolicyBundleCommand)
    (hactor : command.actor = actor) : Calmly (Administers actor) (registerPolicyBundle command) := by
  subst hactor
  refine (calmly_requireAdministrator _).bind fun _ => (calmly_query _).bind fun found => ?_
  refine (calmly_scalarOneOrNone _).bind fun existing => ?_
  refine Prog.Uses.bind (calmly_raiseIf _ _) fun _ => (calmly_draw .uuid).bind fun id => ?_
  refine Prog.Uses.bind (calmly_flush rfl) fun _ => ?_
  exact Prog.Uses.bind (calmly_flush trivial) fun _ => trivial

theorem calmly_activatePolicyBundle (actor : AuthenticatedActor) (command : ActivatePolicyBundleCommand)
    (hactor : command.actor = actor) : Calmly (Administers actor) (activatePolicyBundle command) := by
  subst hactor
  refine (calmly_requireAdministrator _).bind fun _ => (calmly_query _).bind fun found => ?_
  refine (calmly_scalarOneOrNone _).bind fun existing => (calmly_orRaise _ _).bind fun row => ?_
  refine Prog.Uses.bind (calmly_flush rfl) fun _ => Prog.Uses.bind (calmly_flush trivial) fun _ => ?_
  exact Prog.Uses.bind (calmly_flush trivial) fun _ => trivial

/-! ## Idempotency -/

theorem calmly_complete (hW : ∀ w, Reserves w → W w) (key : IdempotencyKey) (status : Nat)
    (body : Dict) : Calmly W (complete key status body) := by
  refine (calmly_query _).bind fun found => ?_
  cases found with
  | none => exact trivial
  | some existing => exact calmly_flush (hW (.completeIdempotency _ _ _) trivial)

theorem calmly_decideAndComplete (hW : ∀ w, Reserves w ∨ Judges w → W w) (request : Request)
    (intentId : UUID) (body : ApprovalBody) (key : IdempotencyKey) :
    Calmly W (decideAndComplete request intentId body key) := by
  have hcomplete : ∀ status response, Calmly W (complete key status response) := fun _ _ =>
    calmly_complete (fun w hw => hW w (.inl hw)) _ _ _
  refine (calmly_draw .uuid).bind fun commandId => ?_
  refine Prog.Uses.bind (Prog.Uses.handle ((calmly_decide _).mono fun w hw => hW w (.inr hw)) ?_) ?_
  · intro x _
    refine Prog.uses_ite (fun _ => ?_) fun _ => trivial
    exact (hcomplete _ _).bind fun _ => trivial
  · exact fun snapshot => (hcomplete _ _).bind fun _ => trivial

/-! ## Creation -/

theorem routeState_mem (disposition : PolicyDisposition) :
    routeStateByDisposition disposition ∈ evaluatedStates := by
  cases disposition <;> decide

theorem calmly_currentRecord (key : RevisionKey) (risk : RiskEvaluationRow) :
    Calmly W (currentRecord key risk) := by
  refine (calmly_query _).bind fun s => (calmly_orRaise _ _).bind fun intent => ?_
  exact (calmly_query _).bind fun policies => (calmly_scalarOne _).bind fun _ => trivial

theorem calmly_writeEvaluation (intent : ActionIntent) (risk : RiskEvaluation)
    (policy : PolicyEvaluation) (commandId correlationId : String) (now : Time) :
    Calmly Evaluates
      (writeEvaluation intent risk policy commandId correlationId now) := by
  have hroute := routeState_mem policy.disposition
  have hrisk : IntentState.riskEvaluated ∈ evaluatedStates := by decide
  have hpolicy : IntentState.policyEvaluated ∈ evaluatedStates := by decide
  unfold writeEvaluation
  refine Prog.Uses.bind (calmly_flush trivial) fun _ => ?_
  refine Prog.Uses.bind (calmly_flush trivial) fun _ => ?_
  refine Prog.Uses.bind (calmly_flush hrisk) fun _ => ?_
  refine Prog.Uses.bind (calmly_flush hpolicy) fun _ => ?_
  refine Prog.Uses.bind (calmly_flush hroute) fun _ => ?_
  refine Prog.Uses.bind (calmly_flush trivial) fun _ => ?_
  refine Prog.Uses.bind (calmly_flush trivial) fun _ => ?_
  refine Prog.Uses.bind (calmly_flush trivial) fun _ => ?_
  refine Prog.Uses.bind (calmly_flush trivial) fun _ => ?_
  refine Prog.Uses.bind (calmly_flush trivial) fun _ => ?_
  exact calmly_flush hroute

/-! ## Claims -/

theorem calmly_reopenClaim (request : ClaimRequest) : Calmly W (reopenClaim request) := by
  refine (calmly_lockIntentNowait _).bind fun r => ?_
  match r with
  | none => exact trivial
  | some (none, _) => exact trivial
  | some (some intent, dbNow) =>
      refine Prog.uses_ite (fun _ => trivial) fun _ => (calmly_query _).bind fun rows => ?_
      exact (calmly_scalarOne _).bind fun _ => trivial

theorem calmly_failClaim {state : IntentState} (hT : state ∈ T) (request : ClaimRequest)
    (intent : ActionIntent) (execution : Execution) (dbNow : Time) (reasonCode : String) :
    Calmly (Executes T) (failClaim request intent execution dbNow state reasonCode) :=
  (calmly_appendTransition (fun _ => executes_of_moves) hT _ _ _ _ _).bind fun _ =>
    Prog.Uses.bind (calmly_flush trivial) fun _ => trivial

theorem calmly_issuePermit (hT : IntentState.executing ∈ T) (request : ClaimRequest)
    (intent : ActionIntent) (read passed : Execution) (dbNow : Time) :
    Calmly (Executes T) (issuePermit rt request intent read passed dbNow) :=
  (calmly_appendTransition (fun _ => executes_of_moves) hT _ _ _ _ _).bind fun _ =>
    Prog.Uses.bind (calmly_flush trivial) fun _ => (calmly_mark _).bind fun _ => trivial

/-- What the gates have found at the instant: a failure is stale, or expired behind the deadline, and
a pass lies before it. -/
def Gated (a : ActionIntent) (t : Time) : Gates → Prop
  | .failed state _ => state = .stale ∨ state = .expired ∧ ElapsedAt a t
  | .passed _ => OpenAt a t

theorem gated_of_policyAndTarget {intent : ActionIntent} {stored : PolicyEvaluation}
    {bundle : PolicyBundle} {snapshot : TargetSnapshot} {execution : Execution} {dbNow : Time}
    {gates : Gates} (hopen : OpenAt intent dbNow)
    (h : policyAndTarget rt intent stored bundle snapshot execution = .ok gates) :
    Gated intent dbNow gates := by
  simp only [policyAndTarget, bind, Except.bind, pure, Except.pure] at h
  split at h
  · cases h
  · split at h
    · cases h
      exact .inl rfl
    · split at h
      · cases h
        exact .inl rfl
      · split at h
        · cases h
          exact .inl rfl
        · cases h
          exact hopen

theorem calmly_approverFailureReason (tenantId actorId : String) (roles scopes : List String)
    (t : Time) (environment : Option Json) :
    Calmly W (approverFailureReason tenantId actorId roles scopes t environment) :=
  Prog.Uses.bind (calmly_query _) fun _ => trivial

theorem calmly_countAuthorized (a : ActionIntent) (roles scopes : List String) (dbNow : Time)
    (decisions : List ApprovalDecisionRow) (n : Nat) (last : Option String) :
    Calmly W (countAuthorized a roles scopes dbNow decisions n last) := by
  induction decisions generalizing n last with
  | nil => exact trivial
  | cons d rest ih =>
      refine (calmly_approverFailureReason _ _ _ _ _ _).bind fun r => ?_
      cases r with
      | none => exact ih _ _
      | some reason => exact ih _ _

theorem calmly_criticalLevels (a : ActionIntent) (decisions : List ApprovalDecisionRow)
    (roles scopes : List String) (dbNow : Time) :
    Calmly W (criticalLevelsFailureReason a decisions roles scopes dbNow) := by
  unfold criticalLevelsFailureReason
  split
  · refine Prog.uses_ite (fun _ => trivial) fun _ => ?_
    refine (calmly_approverFailureReason _ _ _ _ _ _).bind fun r => ?_
    cases r with
    | some reason => exact trivial
    | none => exact calmly_approverFailureReason _ _ _ _ _ _
  · exact trivial

theorem calmly_approvalsFailureReason (a : ActionIntent) (policy : PolicyEvaluation)
    (dbNow : Time) : Calmly W (approvalsFailureReason a policy dbNow) := by
  refine Prog.uses_ite (fun _ => trivial) fun _ => (calmly_scan _).bind fun decisions => ?_
  refine Prog.uses_ite (fun _ => calmly_criticalLevels _ _ _ _ _) fun _ => ?_
  refine (calmly_countAuthorized _ _ _ _ _ _ _).bind fun r => ?_
  exact Prog.uses_ite (fun _ => trivial) fun _ => trivial

theorem calmly_revalidateGates (intent : ActionIntent) (execution : Execution) (dbNow : Time)
    (bundle : PolicyBundle) (snapshot : TargetSnapshot) :
    Calmly W (revalidateGates rt intent execution dbNow bundle snapshot) := by
  refine Prog.uses_ite (fun _ => trivial) fun _ => (calmly_query _).bind fun policies => ?_
  refine (calmly_scalarOne _).bind fun policy => Prog.uses_ite (fun _ => trivial) fun _ => ?_
  refine (calmly_approvalsFailureReason _ _ _).bind fun reason => ?_
  cases reason with
  | some code => exact trivial
  | none => exact calmly_ofExcept _

theorem yields_revalidateGates (intent : ActionIntent) (execution : Execution) (dbNow : Time)
    (bundle : PolicyBundle) (snapshot : TargetSnapshot) :
    (revalidateGates rt intent execution dbNow bundle snapshot).Yields (Gated intent dbNow) := by
  refine Prog.yields_ite (fun _ => .inl rfl) fun _ => ?_
  refine (Prog.yields_true _).bind fun policies _ => (Prog.yields_true _).bind fun policy _ => ?_
  refine Prog.yields_ite (fun helapsed => .inr ⟨rfl, elapsedAt_of_windowElapsed helapsed⟩)
    fun hcurrent => ?_
  have hopen : OpenAt intent dbNow := openAt_of_windowElapsed hcurrent
  refine (Prog.yields_true _).bind fun reason _ => ?_
  cases reason with
  | some code => exact .inl rfl
  | none =>
      dsimp only
      cases h : policyAndTarget rt intent policy.evaluation bundle snapshot execution with
      | ok gates => exact gated_of_policyAndTarget hopen h
      | error x => exact trivial

/-- Where the gates may lead. -/
theorem gated_of_failed {a : ActionIntent} {t : Time} {state : IntentState} {reason : String}
    (h : Gated a t (.failed state reason)) : state ∈ gatedStates := by
  rcases h with rfl | ⟨rfl, -⟩ <;> decide

theorem calm_gatePhase (request : ClaimRequest) (snapshot : TargetSnapshot) :
    CalmTransaction (Executes gatedStates) (gatePhase rt request snapshot) := by
  refine ⟨_, rfl, (calmly_reopenClaim _).bind fun reopened => ?_⟩
  refine (calmly_revalidateGates _ _ _ _ _).bind_yields (yields_revalidateGates _ _ _ _ _) ?_
  intro gates hgates
  cases gates with
  | failed state reasonCode =>
      exact (calmly_failClaim (gated_of_failed hgates) _ _ _ _ _).bind fun _ => trivial
  | passed execution => exact (calmly_issuePermit (by decide) _ _ _ _ _).bind fun _ => trivial

theorem calm_failAfterFetchFailure (request : ClaimRequest) (reasonCode : String) :
    CalmTransaction (Executes [.stale]) (failAfterFetchFailure request reasonCode) :=
  ⟨_, rfl, (calmly_reopenClaim _).bind fun _ => calmly_failClaim (by decide) _ _ _ _ _⟩

/-! ## Executions -/

theorem targetState_mem (outcome : ExecutionOutcome) : targetState outcome ∈ outcomeStates := by
  cases outcome <;> decide

theorem calmly_recordOutcome (intent : ActionIntent) (execution : Execution)
    (answer : ExecuteAnswer) (workerId commandId : String) :
    Calmly (Executes outcomeStates) (recordOutcome rt intent execution answer workerId commandId) := by
  unfold recordOutcome
  split
  · exact trivial
  · refine (calmly_draw .now).bind fun dbNow => ?_
    refine (calmly_appendTransition (fun _ => executes_of_moves) (targetState_mem _) _ _ _ _ _).bind fun _ => ?_
    exact Prog.Uses.bind (calmly_flush trivial) fun _ => trivial

theorem calmly_recordEvidence (intent : ActionIntent) (execution : Execution)
    (answer : LookupAnswer) (workerId commandId : String) :
    Calmly (Executes outcomeStates) (recordEvidence rt intent execution answer workerId commandId) := by
  refine Prog.uses_ite (fun _ => trivial) fun _ => (calmly_draw .now).bind fun dbNow => ?_
  refine Prog.uses_ite (fun _ => Prog.uses_ite (fun _ => ?_) fun _ => ?_) fun _ => ?_
  · refine Prog.Uses.bind (calmly_flush trivial) fun _ => ?_
    exact Prog.Uses.bind (calmly_flush trivial) fun _ => trivial
  · exact Prog.Uses.bind (calmly_flush trivial) fun _ => trivial
  · split
    · exact trivial
    · next outcome _ =>
        have htarget : (if outcome = ExecutionOutcome.succeeded then IntentState.succeeded
            else .failed) ∈ outcomeStates := by
          cases outcome <;> decide
        refine (calmly_appendTransition (fun _ => executes_of_moves) htarget _ _ _ _ _).bind fun _ => ?_
        exact Prog.Uses.bind (calmly_flush trivial) fun _ => trivial

/-! ## Recovery -/

theorem calm_recoverCandidate (candidate : Execution) (commandId : String) :
    CalmTransaction (Executes outcomeStates) (Worker.recoverCandidate candidate commandId) := by
  refine ⟨_, rfl, (calmly_query _).bind fun found => ?_⟩
  cases found with
  | none => exact trivial
  | some execution =>
      refine Prog.uses_ite (fun _ => trivial) fun _ => ?_
      refine Prog.Uses.bind (Prog.uses_select trivial) fun e => ?_
      refine (calmly_lockIntentNowait _).bind fun r => ?_
      match r with
      | none => exact trivial
      | some (none, _) => exact trivial
      | some (some row, _) =>
          refine Prog.uses_ite (fun _ => trivial) fun _ => ?_
          have hunknown : IntentState.executionUnknown ∈ outcomeStates := by decide
          refine (calmly_appendTransition (fun _ => executes_of_moves) hunknown _ _ _ _ _).bind
            fun _ => ?_
          exact Prog.Uses.bind (calmly_flush trivial) fun _ => trivial

end Parts

end HitlOps.Lifecycle
