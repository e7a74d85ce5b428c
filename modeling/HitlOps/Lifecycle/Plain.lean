import HitlOps.Program

/-!
# Programs that leave executions alone

The creation, the commands of approvers and of administrators and their routes write neither
evaluations nor execution rows nor transitions into the states behind a claim, call no adapter and
issue no permit. `Plain` says so of one statement, and this module shows it of each of these
programs.
-/

set_option autoImplicit false

namespace HitlOps.Lifecycle

open HitlOps.Python HitlOps.Domain HitlOps.Infrastructure HitlOps.Application HitlOps.Transaction
open HitlOps.Api

/-- The states that only a claim and what follows it lead to. -/
def claimedStates : List IntentState :=
  [.revalidating, .stale, .executing, .executionUnknown, .succeeded, .failed]

/-- The topic under which a reconciliation hands over to the operators. -/
def exhaustedTopic : String := "execution.reconciliation_exhausted"

/-- The transition does not lead behind a claim, and it expires before a claim only. -/
structure PlainTransition (t : StateTransition) : Prop where
  target : t.toState ∉ claimedStates
  expired : t.toState = .expired → ∀ s, t.fromState = some s → s ∈ expirableStates

theorem plainTransition_of_ne {t : StateTransition} (htarget : t.toState ∉ claimedStates)
    (hne : t.toState ≠ .expired) : PlainTransition t := ⟨htarget, fun h => absurd h hne⟩

/-- A write that concerns no evaluation and no execution. -/
def PlainWrite : Write → Prop
  | .insertTransition t => PlainTransition t
  | .updateIntent _ patch => patch.state ∉ claimedStates
  | .insertExecution _ => False
  | .updateExecution _ _ => False
  | .insertRisk _ => False
  | .insertPolicy _ => False
  | .insertOutbox topic _ => topic ≠ exhaustedTopic
  | _ => True

/-- A statement that concerns no evaluation and no execution; intents and idempotency records are
inserted under their own keys. -/
def Plain : Stmt Db → Prop
  | .write (.insertIntent _) => False
  | .write (.insertIdempotency _) => False
  | .write w => PlainWrite w
  | .insert k (.insertIntent row) => k = .intent row.key
  | .insert k (.insertIdempotency row) => k = .idempotency row.key
  | .insert _ w => PlainWrite w
  | .call (.propose _ _) => True
  | .call _ => False
  | .mark (.permit _) => False
  | .mark (.claim _ _) => False
  | _ => True

theorem plainWrite_of_write {w : Write} (h : Plain (.write w)) : PlainWrite w := by
  cases w <;> first | exact h | exact h.elim

theorem plainWrite_of_insert {k : LockKey} {w : Write} (h : Plain (.insert k w)) : PlainWrite w := by
  cases w <;> first | exact h | exact trivial

/-- A program that concerns no evaluation and no execution. -/
abbrev Plainly {α : Type} (p : M α) : Prop := p.Uses Plain fun _ => True

section Plain

variable {rt : Runtime} {α β : Type}

/-! ## Parts of programs -/

theorem plainly_raiseIf (c : Prop) [Decidable c] (x : Error) : Plainly (Prog.raiseIf c x) :=
  Prog.uses_raiseIf trivial

theorem plainly_orRaise (x : Error) (o : Option α) : Plainly (Prog.orRaise x o) :=
  Prog.uses_orRaise trivial

theorem plainly_query (q : Store → α) : Plainly (Prog.query (D := Db) q) := Prog.uses_query trivial

theorem plainly_ofExcept (r : Except Error α) : Plainly (ofExcept r) := by
  cases r with
  | ok a => exact trivial
  | error x => exact trivial

theorem plainly_scalarOne (rows : List α) : Plainly (scalarOne rows) := by
  match rows with
  | [] => exact trivial
  | [_] => exact trivial
  | _ :: _ :: _ => exact trivial

theorem plainly_scalarOneOrNone (rows : List α) : Plainly (scalarOneOrNone rows) := by
  match rows with
  | [] => exact trivial
  | [_] => exact trivial
  | _ :: _ :: _ => exact trivial

theorem plainly_draw (o : Source) : Plainly (Prog.draw (D := Db) o) := Prog.uses_draw trivial

theorem plainly_scan (q : Store → List α) : Plainly (scan q) :=
  (plainly_query q).bind fun _ => (plainly_draw .order).bind fun _ => trivial

theorem plainly_flush {w : Write} (hw : Plain (.write w)) : Plainly (flush w) :=
  (plainly_raiseIf _ _).bind fun _ => Prog.uses_write hw

/-- A flushed row at the head of a program. -/
theorem plainly_flush_bind {w : Write} {f : Unit → M α} (hw : Plain (.write w))
    (hf : Plainly (f ())) : Plainly (flush w >>= f) := (plainly_flush hw).bind fun _ => hf

theorem plainly_flush_message {topic : String} {payload : Dict} {f : Unit → M α}
    (ht : topic ≠ exhaustedTopic) (hf : Plainly (f ())) :
    Plainly (flush (.insertOutbox topic payload) >>= f) := plainly_flush_bind ht hf

theorem plainly_lockIntentNowait (key : RevisionKey) : Plainly (lockIntentNowait key) := by
  refine (Prog.uses_lock trivial).bind fun r => ?_
  cases r with
  | none => exact trivial
  | some _ => exact trivial

theorem plainly_appendTransition {intent : ActionIntent} {target : IntentState}
    (htarget : target ∉ claimedStates) (hexpired : target = .expired → intent.state ∈ expirableStates)
    (cause : Cause) (dbNow : Time) {topic : String} (htopic : topic ≠ exhaustedTopic)
    (payload : Dict) :
    Plainly (appendTransition intent target cause dbNow topic payload) := by
  refine (plainly_raiseIf _ _).bind fun _ => (plainly_query _).bind fun _ => ?_
  refine plainly_flush_bind ⟨htarget, fun h s hs => ?_⟩ (plainly_flush_bind htopic ?_)
  · cases hs
    exact hexpired h
  · exact plainly_flush_bind htarget trivial

theorem plainly_currentRoles (actor : AuthenticatedActor) (environment : Option Json) :
    Plainly (currentRoles actor environment) :=
  (plainly_query _).bind fun _ => (plainly_draw .now).bind fun _ => trivial

theorem plainly_currentScopes (actor : AuthenticatedActor) (environment : Option Json) :
    Plainly (currentScopes actor environment) :=
  (plainly_query _).bind fun _ => (plainly_draw .now).bind fun _ => trivial

theorem plainly_getActive (tenantId : String) : Plainly (getActive tenantId) :=
  (plainly_query _).bind fun _ => (plainly_scalarOneOrNone _).bind fun _ => trivial

/-! ## Creation -/

theorem plainly_create (command : CreateIntentCommand) : Plainly (create rt command) := by
  refine (plainly_draw .now).bind fun now => ?_
  refine Prog.Uses.bind (p := insertIntent (createdIntent rt command)) ?_ fun _ => ?_
  · refine (plainly_raiseIf _ _).bind fun _ => Prog.Uses.bind (Prog.uses_insert ?_) fun _ => ?_
    · exact (rfl : LockKey.intent _ = LockKey.intent _)
    · exact plainly_raiseIf _ _
  · have hrequested : IntentState.requested ∉ claimedStates := by decide
    exact plainly_flush_bind (plainTransition_of_ne hrequested fun h => by cases h)
      (plainly_flush_message (by decide) trivial)

/-! ## Commands -/

theorem plainly_loadLockedIntent (key : RevisionKey) : Plainly (loadLockedIntent key) := by
  refine (plainly_lockIntentNowait key).bind fun r => ?_
  match r with
  | none => exact trivial
  | some (none, _) => exact trivial
  | some (some _, _) => exact trivial

/-- The target of a decision. -/
theorem plainly_resolveTarget (intent : ActionIntent) (route : ApprovalRoute)
    (command : ApprovalDecisionCommand) {f : IntentState → M β}
    (hf : ∀ target ∉ claimedStates, target ≠ .expired → Plainly (f target)) :
    Plainly (resolveTarget intent route command >>= f) := by
  have hrejected := hf .rejected (by decide) (by decide)
  have happroved := hf .approved (by decide) (by decide)
  have hlevel1 := hf .approvedByLevel1 (by decide) (by decide)
  unfold resolveTarget
  split
  · exact (plainly_raiseIf _ _).bind_bind fun _ => hrejected
  · split
    · split
      · exact trivial
      · split
        · exact hlevel1
        · exact happroved
    · split
      · split
        · exact trivial
        · split
          · exact trivial
          · refine Prog.Uses.bind_bind ?_ fun _ => happroved
            refine (plainly_scan _).bind fun actors => ?_
            exact (plainly_scalarOneOrNone _).bind fun _ => plainly_raiseIf _ _
      · exact trivial

theorem plainly_recordTransition {intent : ActionIntent} {target : IntentState}
    (htarget : target ∉ claimedStates) (hexpired : target = .expired → intent.state ∈ expirableStates)
    (cause : Cause) (dbNow : Time) :
    Plainly (Commands.recordTransition intent target cause dbNow) :=
  plainly_appendTransition htarget hexpired _ _ (by decide) _

theorem plainly_writeDecision (command : ApprovalDecisionCommand) (intent : ActionIntent)
    (policy : PolicyEvaluation) (roles scopes : List String) {target : IntentState}
    (htarget : target ∉ claimedStates) (hne : target ≠ .expired) (dbNow : Time) :
    Plainly (writeDecision command intent policy roles scopes target dbNow) := by
  have hpending : IntentState.pendingApproval2 ∉ claimedStates := by decide
  refine Prog.Uses.bind (p := insertDecision _) ?_ fun _ => ?_
  · refine (plainly_query _).bind fun existing => (plainly_raiseIf _ _).bind fun _ => ?_
    exact plainly_flush trivial
  · refine (plainly_recordTransition htarget (fun h => absurd h hne) _ _).bind fun moved => ?_
    refine Prog.uses_ite (fun _ => ?_) fun _ => trivial
    exact (plainly_recordTransition hpending (fun h => by cases h) _ _).bind fun _ => trivial

theorem plainly_approverScopes (command : ApprovalDecisionCommand) (policy : PolicyEvaluation)
    (environment : Option Json) : Plainly (approverScopes command policy environment) := by
  refine Prog.uses_ite (fun _ => ?_) fun _ => trivial
  refine Prog.Uses.bind (plainly_raiseIf _ _) fun _ => ?_
  refine (plainly_currentScopes _ _).bind fun scopes => ?_
  refine Prog.Uses.bind (plainly_raiseIf _ _) fun _ => ?_
  exact Prog.Uses.bind (plainly_raiseIf _ _) fun _ => trivial

theorem plainly_decide (command : ApprovalDecisionCommand) : Plainly (decide command) := by
  have hexpired : IntentState.expired ∉ claimedStates := by decide
  refine Prog.Uses.bind (Prog.uses_mark trivial) fun _ => (plainly_raiseIf _ _).bind fun _ => ?_
  refine (plainly_loadLockedIntent _).bind fun e => (plainly_raiseIf _ _).bind fun _ => ?_
  refine (plainly_raiseIf _ _).bind fun _ => Prog.uses_ite (fun h => ?_) fun _ => ?_
  · exact (plainly_recordTransition hexpired (fun _ => h.1) _ _).bind fun _ => trivial
  · refine (plainly_query _).bind fun policies => (plainly_scalarOne _).bind fun policy => ?_
    refine (plainly_currentRoles _ _).bind fun roles => Prog.Uses.bind (plainly_raiseIf _ _) fun _ => ?_
    refine (plainly_approverScopes _ _ _).bind fun scopes => (plainly_raiseIf _ _).bind fun _ => ?_
    exact plainly_resolveTarget _ _ _ fun target htarget hne =>
      plainly_writeDecision _ _ _ _ _ htarget hne _

theorem plainly_cancel (command : CancelIntentCommand) : Plainly (cancel command) := by
  have hcancelled : IntentState.cancelled ∉ claimedStates := by decide
  refine Prog.Uses.bind (Prog.uses_mark trivial) fun _ => (plainly_raiseIf _ _).bind fun _ => ?_
  refine (plainly_loadLockedIntent _).bind fun e => (plainly_raiseIf _ _).bind fun _ => ?_
  refine (plainly_raiseIf _ _).bind fun _ => ?_
  refine Prog.Uses.bind (p := enforceCanceller _ _) ?_ fun _ => ?_
  · exact Prog.uses_ite (fun _ => (plainly_currentRoles _ _).bind fun _ => plainly_raiseIf _ _)
      fun _ => trivial
  · exact (plainly_recordTransition hcancelled (fun h => by cases h) _ _).bind fun _ => trivial

/-! ## Administration -/

theorem plainly_requireAdministrator (actor : AuthenticatedActor) :
    Plainly (requireAdministrator actor) :=
  (plainly_currentRoles _ _).bind fun _ => plainly_raiseIf _ _

theorem plainly_grantRole (command : GrantRoleCommand) : Plainly (grantRole command) := by
  refine (plainly_requireAdministrator _).bind fun _ => ?_
  refine Prog.Uses.bind (Prog.uses_select trivial) fun e => ?_
  refine (plainly_scalarOneOrNone _).bind fun found => ?_
  cases found with
  | some existing => exact trivial
  | none =>
      refine (plainly_draw .uuid).bind fun id => ?_
      exact plainly_flush_bind trivial (plainly_flush_message (by decide) trivial)

theorem plainly_revokeRole (command : RevokeRoleCommand) : Plainly (revokeRole command) := by
  refine (plainly_requireAdministrator _).bind fun _ => (plainly_query _).bind fun found => ?_
  refine (plainly_orRaise _ _).bind fun row => (plainly_raiseIf _ _).bind fun _ => ?_
  refine (plainly_draw .now).bind fun now => ?_
  exact plainly_flush_bind trivial (plainly_flush_message (by decide) trivial)

theorem plainly_registerPolicyBundle (command : RegisterPolicyBundleCommand) :
    Plainly (registerPolicyBundle command) := by
  refine (plainly_requireAdministrator _).bind fun _ => (plainly_query _).bind fun found => ?_
  refine (plainly_scalarOneOrNone _).bind fun existing => (plainly_raiseIf _ _).bind fun _ => ?_
  refine (plainly_draw .uuid).bind fun id => ?_
  exact plainly_flush_bind trivial (plainly_flush_message (by decide) trivial)

theorem plainly_activatePolicyBundle (command : ActivatePolicyBundleCommand) :
    Plainly (activatePolicyBundle command) := by
  refine (plainly_requireAdministrator _).bind fun _ => (plainly_query _).bind fun found => ?_
  refine (plainly_scalarOneOrNone _).bind fun existing => (plainly_orRaise _ _).bind fun row => ?_
  refine plainly_flush_bind trivial (plainly_flush_bind trivial ?_)
  exact plainly_flush_message (by decide) trivial

/-! ## Routes -/

theorem plainly_getSession {p : M α} (hp : Plainly p) : Plainly (getSession p) := by
  refine Prog.Uses.handle (hp.bind fun a => ?_) fun x _ => ?_
  · exact Prog.Uses.bind ⟨trivial, fun _ => trivial⟩ fun _ => trivial
  · exact Prog.uses_ite (fun _ => Prog.Uses.bind ⟨trivial, fun _ => trivial⟩ fun _ => trivial)
      fun _ => Prog.Uses.bind ⟨trivial, fun _ => trivial⟩ fun _ => trivial

theorem plainly_reservationFrom (existing : IdempotencyRecord) (requestHash : String) :
    Plainly (reservationFrom existing requestHash) :=
  Prog.uses_ite (fun _ => trivial) fun _ => Prog.uses_ite (fun _ => trivial) fun _ => trivial

theorem plainly_begin (key : IdempotencyKey) (requestHash : String) :
    Plainly (begin key requestHash) := by
  refine Prog.Uses.bind (p := lookupRecord key) (plainly_query _) fun found => ?_
  cases found with
  | some existing => exact plainly_reservationFrom _ _
  | none =>
      have hkey : Plain (.insert (.idempotency key)
          (.insertIdempotency ⟨key, requestHash, .pending, none, none⟩)) := rfl
      refine Prog.Uses.bind (Prog.uses_insert hkey) fun inserted => ?_
      refine Prog.uses_ite (fun _ => trivial) fun _ => ?_
      refine Prog.Uses.bind (p := lookupRecord key) (plainly_query _) fun found => ?_
      cases found with
      | some existing => exact plainly_reservationFrom _ _
      | none => exact trivial

theorem plainly_complete (key : IdempotencyKey) (status : Nat) (body : Dict) :
    Plainly (complete key status body) := by
  refine Prog.Uses.bind (p := lookupRecord key) (plainly_query _) fun found => ?_
  cases found with
  | none => exact trivial
  | some _ => exact plainly_flush trivial

theorem plainly_reserve (key : IdempotencyKey) (requestHash : String) :
    Plainly (reserve key requestHash) := by
  refine (plainly_begin _ _).bind fun reservation => ?_
  split
  · exact trivial
  · exact trivial
  · exact trivial

theorem plainly_idempotent {request : Request} {scope : String} {payload : Dict} {status : Nat}
    {command : M Dict} (h : Plainly command) :
    Plainly (idempotent rt request scope payload status command) := by
  refine (plainly_reserve _ _).bind fun found => ?_
  cases found with
  | some body => exact trivial
  | none => exact h.bind fun _ => (plainly_complete _ _ _).bind fun _ => trivial

theorem plainly_decideApprovalBody (request : Request) (intentId : UUID) (body : ApprovalBody) :
    Plainly (decideApprovalBody rt request intentId body) := by
  refine (plainly_begin _ _).bind fun reservation => ?_
  split
  · exact Prog.uses_ite (fun _ => trivial) fun _ => trivial
  · exact trivial
  · refine (plainly_draw .uuid).bind fun commandId => ?_
    refine Prog.Uses.bind ((plainly_decide _).handle fun x _ => ?_) fun snapshot => ?_
    · exact Prog.uses_ite (fun _ => (plainly_complete _ _ _).bind fun _ => trivial) fun _ => trivial
    · exact (plainly_complete _ _ _).bind fun _ => trivial

/-- The routes behind the creation of an intent. -/
def PlainRoute : Route → Prop
  | .createIntent _ => False
  | .createAgentIntent _ => False
  | _ => True

/-- No other route concerns an evaluation or an execution. -/
theorem plainly_route (request : Request) {route : Route} (h : PlainRoute route) :
    Plainly (routeProgram rt request route) := by
  cases route with
  | createIntent body => exact h.elim
  | createAgentIntent body => exact h.elim
  | decideApproval intentId body => exact plainly_getSession (plainly_decideApprovalBody _ _ _)
  | cancelIntent intentId body =>
      refine plainly_getSession (plainly_idempotent ((plainly_draw .uuid).bind fun commandId => ?_))
      exact (plainly_cancel _).bind fun _ => trivial
  | grantRole body =>
      refine plainly_getSession (plainly_idempotent ((plainly_draw .uuid).bind fun commandId => ?_))
      exact (plainly_grantRole _).bind fun _ => trivial
  | revokeRole assignmentId body =>
      refine plainly_getSession (plainly_idempotent ((plainly_draw .uuid).bind fun commandId => ?_))
      exact (plainly_revokeRole _).bind fun _ => trivial
  | registerPolicyBundle body =>
      refine plainly_getSession (plainly_idempotent ((plainly_draw .uuid).bind fun commandId => ?_))
      exact (plainly_registerPolicyBundle _).bind fun _ => trivial
  | activatePolicyBundle version body =>
      refine plainly_getSession (plainly_idempotent ((plainly_draw .uuid).bind fun commandId => ?_))
      exact (plainly_activatePolicyBundle _).bind fun _ => trivial

end Plain

end HitlOps.Lifecycle
