import HitlOps.Transaction.TwoRuns
import HitlOps.Infrastructure.Tenants
import HitlOps.Api.Queries
import HitlOps.Lifecycle.Bookkeeping

/-!
# Operations of a tenant

Two stores share the rows of a tenant and may differ in those of the others. The operations of the
tenant are blind to that difference, a claim as long as no other tenant has an execution of the same
intent and revision: its lookup of the execution row does not ask for the tenant.
-/

set_option autoImplicit false

namespace HitlOps.Lifecycle

open HitlOps.Python HitlOps.Domain HitlOps.Infrastructure HitlOps.Application HitlOps.Adapters
open HitlOps.Transaction
open HitlOps.Api (getSession)

/-! ## Stores that share a tenant -/

/-- No execution of `others` has the identifier. -/
def Unnamed (others : Store) (id : UUID) : Prop := ∀ e ∈ others.executions, e.id ≠ id

/-- The stores have the same rows of the tenant; the rows of the others are `O` and `O'`. -/
structure Shares (tenantId : String) (O O' s s' : Store) : Prop where
  own : s.rowsOf tenantId = s'.rowsOf tenantId
  left : s.rowsOfOthers tenantId = O
  right : s'.rowsOfOthers tenantId = O'
  apart : ∀ e ∈ (s.rowsOf tenantId).executions, Unnamed O e.id ∧ Unnamed O' e.id

/-- A write of the tenant, which names no execution of another one. -/
structure OwnWrite (tenantId : String) (O O' : Store) (w : Write) : Prop where
  tenant : w.tenant? = some tenantId
  inserted : ∀ row, w = .insertExecution row → Unnamed O row.id ∧ Unnamed O' row.id
  updated : ∀ old new, w = .updateExecution old new → Unnamed O old.id ∧ Unnamed O' old.id

/-- The write is about an execution. -/
def onExecution : Write → Bool
  | .insertExecution _ => true
  | .updateExecution _ _ => true
  | _ => false

section Writes

variable {tenantId : String} {O O' s s' : Store} {w : Write}

/-- A write to another table names no execution. -/
theorem OwnWrite.plain (h : w.tenant? = some tenantId) (hplain : onExecution w = false) :
    OwnWrite tenantId O O' w := by
  refine ⟨h, ?_, ?_⟩
  · rintro row rfl
    cases hplain
  · rintro old new rfl
    cases hplain

/-- The executions behind a write have the identifiers of those before it, or are inserted. -/
theorem executions_apply {n : Nat} {e : Execution} (h : e ∈ (s.apply n w).executions) :
    (∃ x ∈ s.executions, x.id = e.id) ∨ w = .insertExecution e := by
  cases w with
  | insertExecution row =>
      rcases List.mem_append.1 h with hold | hnew
      · exact Or.inl ⟨e, hold, rfl⟩
      · rw [List.mem_singleton.1 hnew]
        exact Or.inr rfl
  | updateExecution old new =>
      obtain ⟨x, hx, rfl⟩ := List.mem_map.1 h
      refine Or.inl ⟨x, hx, ?_⟩
      split <;> rfl
  | _ => exact Or.inl ⟨e, h, rfl⟩

/-- An update of an execution of the tenant reaches no row of another one. -/
theorem reachesOwn {others : Store} (hothers : s.rowsOfOthers tenantId = others)
    (htenant : w.tenant? = some tenantId)
    (hupdated : ∀ old new, w = .updateExecution old new → Unnamed others old.id) :
    s.ReachesOwn w := by
  rintro old new rfl e he hid
  cases htenant
  by_contra hne
  refine hupdated old new rfl e ?_ hid
  rw [← hothers]
  exact List.mem_filter.2 ⟨he, decide_eq_true hne⟩

theorem respects_own (h : OwnWrite tenantId O O' w) :
    Respects (D := Db) (Shares tenantId O O') w := by
  intro s s' n hs
  have hown : (decide (tenantId = tenantId) : Bool) = true := decide_eq_true rfl
  have hother : (decide (tenantId ≠ tenantId) : Bool) = false := decide_eq_false fun h => h rfl
  have hleft := reachesOwn hs.left h.tenant fun old new hw => (h.updated old new hw).1
  have hright := reachesOwn hs.right h.tenant fun old new hw => (h.updated old new hw).2
  have happly : ∀ σ : Store, (σ.apply n w).rowsOf tenantId = (σ.rowsOf tenantId).apply n w :=
    fun σ => Store.apply_keep σ n h.tenant hown
  refine ⟨?_, ?_, ?_, fun e he => ?_⟩
  · show (s.apply n w).rowsOf tenantId = (s'.apply n w).rowsOf tenantId
    rw [happly, happly, hs.own]
  · exact (Store.apply_keep_other n h.tenant hother hleft).trans hs.left
  · exact (Store.apply_keep_other n h.tenant hother hright).trans hs.right
  · have he' : e ∈ ((s.rowsOf tenantId).apply n w).executions := happly s ▸ he
    rcases executions_apply he' with ⟨x, hx, hid⟩ | hw
    · rw [← hid]
      exact hs.apart x hx
    · exact h.inserted e hw

end Writes

/-- The identifiers that a process mints are those of no execution of another tenant. -/
def Minted (O O' : Store) : ∀ o : Application.Source, Draw o → Prop
  | .uuid, id => Unnamed O id ∧ Unnamed O' id
  | _, _ => True

section Rules

variable {α β : Type} {tenantId : String} {O O' : Store} {k : RevisionKey}

/-- The program is blind to the rows of the other tenants. -/
@[reducible] def BlindTo (tenantId : String) (O O' : Store) (p : M α) (Q : α → Prop) : Prop :=
  Prog.Blind (D := Db) (Shares tenantId O O') (Minted O O') Q p

/-- The value of a query that reads the rows of the tenant only. -/
theorem Shares.query {q : Store → α} {s s' : Store} (h : Shares tenantId O O' s s')
    (hq : ∀ σ : Store, q (σ.rowsOf tenantId) = q σ) : q s = q s' := by
  rw [← hq s, h.own, hq s']

theorem blind_query_own {q : Store → α} (hq : ∀ σ : Store, q (σ.rowsOf tenantId) = q σ)
    {Q : α → Prop} (h : ∀ σ : Store, Q (q σ)) : BlindTo tenantId O O' (Prog.query (D := Db) q) Q :=
  Prog.blind_query fun s _ hs => ⟨hs.query hq, h s⟩

theorem blind_scan {q : Store → List α} (hq : ∀ σ : Store, q (σ.rowsOf tenantId) = q σ) :
    BlindTo tenantId O O' (scan q) fun _ => True := by
  refine (blind_query_own (Q := fun _ => True) hq fun _ => trivial).bind fun rows _ => ?_
  exact (Prog.blind_draw (Q := fun _ => True) fun _ _ => trivial).bind fun _ _ => trivial

theorem blind_flush {w : Write} (h : OwnWrite tenantId O O' w) :
    BlindTo tenantId O O' (flush w) fun _ => True := by
  refine (Prog.blind_raiseIf (Q := fun _ => True) fun _ => trivial).bind fun _ _ => ?_
  exact Prog.blind_write (respects_own h) trivial

theorem blind_scalarOne (rows : List α) :
    BlindTo tenantId O O' (scalarOne rows) fun a => rows = [a] := by
  match rows with
  | [] => exact trivial
  | [a] => exact rfl
  | _ :: _ :: _ => exact trivial

theorem blind_scalarOneOrNone (rows : List α) :
    BlindTo tenantId O O' (scalarOneOrNone rows) fun o => ∀ a, o = some a → rows = [a] := by
  match rows with
  | [] => exact fun a h => by cases h
  | [a] => exact fun b h => by cases h; rfl
  | _ :: _ :: _ => exact trivial

theorem blind_ofExcept (r : Except Error α) :
    BlindTo tenantId O O' (ofExcept r) fun a => r = .ok a := by
  cases r with
  | ok a => exact rfl
  | error e => exact trivial

theorem blind_orRaise (x : Error) (o : Option α) :
    BlindTo tenantId O O' (Prog.orRaise (D := Db) x o) fun a => o = some a := by
  cases o with
  | none => exact trivial
  | some a => exact rfl

/-- Keys of the tenant. -/
theorem ownKey (h : k.tenantId = tenantId) :
    (decide (k.tenantId = tenantId) : Bool) = true := decide_eq_true h

end Rules

/-! ## Transitions -/

section Transitions

variable {tenantId : String} {O O' : Store} {key : RevisionKey}

theorem blind_lockIntentNowait (h : key.tenantId = tenantId) :
    BlindTo tenantId O O' (lockIntentNowait key) fun r =>
      ∀ i t, r = some (some i, t) → i.key = key := by
  intro s s' t hs
  have heq : s.intent? key = s'.intent? key :=
    hs.query (q := fun σ => σ.intent? key) fun σ => Store.intent?_keep (ownKey h)
  constructor
  · show (Prog.ret (some (s.intent? key, t)) : M _) = Prog.ret (some (s'.intent? key, t))
    rw [heq]
  · intro i t' hi
    rw [Option.some.injEq, Prod.mk.injEq] at hi
    exact key_of_intent? hi.1

theorem blind_loadLockedIntent (h : key.tenantId = tenantId) :
    BlindTo tenantId O O' (loadLockedIntent key) fun r => r.1.key = key := by
  refine (blind_lockIntentNowait h).bind fun r hr => ?_
  match r with
  | none => exact trivial
  | some (none, _) => exact trivial
  | some (some intent, dbNow) => exact hr intent dbNow rfl

/-- The rows of a transition are rows of the tenant. -/
theorem blind_appendTransition {intent : ActionIntent} {target : IntentState} {cause : Cause}
    {dbNow : Time} {topic : String} {payload : Dict} (h : intent.key.tenantId = tenantId)
    (hpayload : payloadTenant payload = tenantId) :
    BlindTo tenantId O O' (appendTransition intent target cause dbNow topic payload) fun a =>
      a.key = intent.key := by
  unfold appendTransition requireTransition
  refine (Prog.blind_raiseIf (Q := fun _ => True) fun _ => trivial).bind fun _ _ => ?_
  refine (blind_query_own (Q := fun _ => True)
    (fun σ => Store.maxSequence_keep (ownKey h)) fun _ => trivial).bind fun last _ => ?_
  refine (blind_flush ?_).bind fun _ _ => ?_
  · exact .plain (congrArg some h) rfl
  refine (blind_flush ?_).bind fun _ _ => ?_
  · exact .plain (congrArg some hpayload) rfl
  refine (blind_flush ?_).bind fun _ _ => ?_
  · exact .plain (congrArg some h) rfl
  exact Prog.blind_pure rfl

theorem blind_getSession {α : Type} {p : M α} {Q : α → Prop} (h : BlindTo tenantId O O' p Q) :
    BlindTo tenantId O O' (getSession p) Q := by
  have hbody : BlindTo tenantId O O' (do let a ← p; Prog.commit (D := Db); return a) Q :=
    h.bind fun _ ha => ha
  exact hbody.handle fun x => Prog.blind_ite (fun _ => trivial) fun _ => trivial

end Transitions

/-! ## Decisions -/

section Decisions

variable {tenantId : String} {O O' : Store} {command : ApprovalDecisionCommand}
  {intent : ActionIntent}

theorem blind_loadAssignments {principalId : String} :
    BlindTo tenantId O O' (loadAssignments tenantId principalId) fun _ => True :=
  blind_query_own (fun _ => Store.loadAssignments_keep (decide_eq_true rfl)) fun _ => trivial

theorem blind_currentRoles {actor : AuthenticatedActor} {environment : Option Json}
    (h : actor.tenantId = tenantId) :
    BlindTo tenantId O O' (currentRoles actor environment) fun _ => True := by
  subst h
  refine blind_loadAssignments.bind fun _ _ => ?_
  exact (Prog.blind_draw (Q := fun _ => True) fun _ _ => trivial).bind fun _ _ => trivial

theorem blind_currentScopes {actor : AuthenticatedActor} {environment : Option Json}
    (h : actor.tenantId = tenantId) :
    BlindTo tenantId O O' (currentScopes actor environment) fun _ => True := by
  subst h
  refine blind_loadAssignments.bind fun _ _ => ?_
  exact (Prog.blind_draw (Q := fun _ => True) fun _ _ => trivial).bind fun _ _ => trivial

theorem blind_check {c : Prop} [Decidable c] {x : Error} :
    BlindTo tenantId O O' (Prog.raiseIf c x) fun _ => True :=
  Prog.blind_raiseIf fun _ => trivial

theorem blind_approverScopes {policy : PolicyEvaluation} {environment : Option Json}
    (h : command.actor.tenantId = tenantId) :
    BlindTo tenantId O O' (approverScopes command policy environment) fun _ => True := by
  refine Prog.blind_ite (fun _ => ?_) fun _ => trivial
  refine blind_check.bind fun _ _ => ?_
  refine (blind_currentScopes h).bind fun _ _ => ?_
  refine blind_check.bind fun _ _ => ?_
  exact blind_check.bind fun _ _ => trivial

theorem blind_enforceDistinctL1 {key : RevisionKey} {actorId : String}
    (h : key.tenantId = tenantId) :
    BlindTo tenantId O O' (enforceDistinctL1 key actorId) fun _ => True := by
  refine (blind_scan fun σ => ?_).bind fun actors _ => ?_
  · rw [show (σ.rowsOf tenantId).decisionsOf key = σ.decisionsOf key from
      Store.decisionsOf_keep (ownKey h)]
  · exact (blind_scalarOneOrNone actors).bind fun _ _ => blind_check

theorem blind_resolveTarget {route : ApprovalRoute} (h : intent.key.tenantId = tenantId) :
    BlindTo tenantId O O' (resolveTarget intent route command) fun _ => True := by
  unfold resolveTarget requireTransition
  refine Prog.blind_ite (fun _ => blind_check.bind fun _ _ => trivial) fun _ => ?_
  refine Prog.blind_ite (fun _ => ?_) fun _ => Prog.blind_ite (fun _ => ?_) fun _ => trivial
  · refine Prog.blind_ite (fun _ => trivial) fun _ => ?_
    exact Prog.blind_ite (fun _ => trivial) fun _ => trivial
  · refine Prog.blind_ite (fun _ => trivial) fun _ => Prog.blind_ite (fun _ => trivial) fun _ => ?_
    exact (blind_enforceDistinctL1 h).bind fun _ _ => trivial

theorem blind_insertDecision {row : ApprovalDecisionRow} (h : row.key.tenantId = tenantId) :
    BlindTo tenantId O O' (insertDecision row) fun _ => True := by
  refine (blind_query_own (Q := fun _ => True)
    (fun σ => Store.decisionsOf_keep (ownKey h)) fun _ => trivial).bind fun _ _ => ?_
  refine blind_check.bind fun _ _ => blind_flush ?_
  exact .plain (congrArg some h) rfl

theorem blind_recordTransition {target : IntentState} {cause : Cause} {dbNow : Time}
    (h : intent.key.tenantId = tenantId) :
    BlindTo tenantId O O' (Commands.recordTransition intent target cause dbNow) fun a =>
      a.key = intent.key :=
  blind_appendTransition h h

theorem blind_writeDecision {policy : PolicyEvaluation} {roles scopes : List String}
    {target : IntentState} {dbNow : Time} (hcommand : command.tenantId = tenantId)
    (h : intent.key.tenantId = tenantId) :
    BlindTo tenantId O O' (writeDecision command intent policy roles scopes target dbNow)
      fun _ => True := by
  refine (blind_insertDecision hcommand).bind fun _ _ => ?_
  refine (blind_recordTransition h).bind fun a ha => ?_
  refine Prog.blind_ite (fun _ => ?_) fun _ => trivial
  exact (blind_recordTransition (ha ▸ h)).bind fun _ _ => trivial

theorem blind_decideCurrent {dbNow : Time} (hcommand : command.tenantId = tenantId)
    (hactor : command.actor.tenantId = tenantId) (h : intent.key.tenantId = tenantId) :
    BlindTo tenantId O O' (decideCurrent command intent dbNow) fun _ => True := by
  refine (blind_query_own (Q := fun _ => True)
    (fun σ => Store.policiesOf_keep (ownKey hcommand)) fun _ => trivial).bind fun policies _ => ?_
  refine (blind_scalarOne policies).bind fun policy _ => ?_
  refine (blind_currentRoles hactor).bind fun _ _ => ?_
  refine blind_check.bind fun _ _ => ?_
  refine (blind_approverScopes hactor).bind fun _ _ => ?_
  refine blind_check.bind fun _ _ => ?_
  refine (blind_resolveTarget h).bind fun _ _ => ?_
  exact blind_writeDecision hcommand h

/-- A decision of the tenant. -/
theorem blind_decide (hcommand : command.tenantId = tenantId)
    (hactor : command.actor.tenantId = tenantId) :
    BlindTo tenantId O O' (Application.decide command) fun _ => True := by
  refine (show BlindTo tenantId O O' (Prog.mark (D := Db) (.decide command)) fun _ => True from
    trivial).bind fun _ _ => ?_
  refine blind_check.bind fun _ _ => ?_
  refine (blind_loadLockedIntent hcommand).bind fun r hr => ?_
  obtain ⟨intent, dbNow⟩ := r
  have hintent : intent.key.tenantId = tenantId := by
    rw [show intent.key = command.key from hr]
    exact hcommand
  refine blind_check.bind fun _ _ => ?_
  refine blind_check.bind fun _ _ => ?_
  refine Prog.blind_ite (fun _ => ?_) fun _ => blind_decideCurrent hcommand hactor hintent
  exact (blind_recordTransition hintent).bind fun _ _ => trivial

theorem blind_enforceCanceller {command : CancelIntentCommand}
    (hactor : command.actor.tenantId = tenantId) :
    BlindTo tenantId O O' (enforceCanceller command intent) fun _ => True := by
  refine Prog.blind_ite (fun _ => ?_) fun _ => trivial
  exact (blind_currentRoles hactor).bind fun _ _ => blind_check

/-- A cancellation of the tenant. -/
theorem blind_cancel {command : CancelIntentCommand} (hcommand : command.tenantId = tenantId)
    (hactor : command.actor.tenantId = tenantId) :
    BlindTo tenantId O O' (cancel command) fun _ => True := by
  refine (show BlindTo tenantId O O' (Prog.mark (D := Db) (.cancel command)) fun _ => True from
    trivial).bind fun _ _ => ?_
  refine blind_check.bind fun _ _ => ?_
  refine (blind_loadLockedIntent hcommand).bind fun r hr => ?_
  obtain ⟨intent, dbNow⟩ := r
  have hintent : intent.key.tenantId = tenantId := by
    rw [show intent.key = command.key from hr]
    exact hcommand
  refine blind_check.bind fun _ _ => ?_
  refine blind_check.bind fun _ _ => ?_
  refine (blind_enforceCanceller hactor).bind fun _ _ => ?_
  exact (blind_recordTransition hintent).bind fun _ _ => trivial

end Decisions

/-! ## Claims -/

/-- No other tenant has an execution of this intent and revision. -/
def NoRival (others : Store) (key : RevisionKey) : Prop :=
  ∀ e ∈ others.executions, ¬ (e.key.intentId = key.intentId ∧ e.key.revision = key.revision)

/-- An execution of the tenant. -/
def OwnExecution (tenantId : String) (O O' : Store) (e : Execution) : Prop :=
  e.key.tenantId = tenantId ∧ Unnamed O e.id ∧ Unnamed O' e.id

section Claims

variable {tenantId : String} {O O' s s' : Store} {key : RevisionKey} {request : ClaimRequest}
  {intent : ActionIntent} {execution : Execution} {dbNow : Time}

/-- Without a rival the lookup of the executions sees rows of the tenant only. -/
theorem executionsOf_rowsOf (h : NoRival (s.rowsOfOthers tenantId) key) :
    (s.rowsOf tenantId).executionsOf key.intentId key.revision =
      s.executionsOf key.intentId key.revision := by
  refine Store.filter_filter_key fun e he hmatch => decide_eq_true ?_
  by_contra hne
  exact h e (List.mem_filter.2 ⟨he, decide_eq_true hne⟩) (of_decide_eq_true hmatch)

/-- An identifier of no other tenant finds rows of the tenant only. -/
theorem execution?_rowsOf {id : UUID} (h : Unnamed (s.rowsOfOthers tenantId) id) :
    (s.rowsOf tenantId).execution? id = s.execution? id := by
  unfold Store.execution?
  rw [← List.head?_filter, ← List.head?_filter]
  refine congrArg _ (Store.filter_filter_key fun e he hid => decide_eq_true ?_)
  by_contra hne
  exact h e (List.mem_filter.2 ⟨he, decide_eq_true hne⟩) (of_decide_eq_true hid)

theorem blind_executionsOf (hO : NoRival O key) (hO' : NoRival O' key) :
    BlindTo tenantId O O' (Prog.query (D := Db) (·.executionsOf key.intentId key.revision))
      fun rows => ∀ e ∈ rows, OwnExecution tenantId O O' e := by
  refine Prog.blind_query fun s s' hs => ?_
  have hleft := executionsOf_rowsOf (hs.left ▸ hO)
  have hright := executionsOf_rowsOf (hs.right ▸ hO')
  refine ⟨?_, fun e he => ?_⟩
  · show s.executionsOf _ _ = s'.executionsOf _ _
    rw [← hleft, ← hright, hs.own]
  · have hmem : e ∈ (s.rowsOf tenantId).executions := by
      rw [show s.executionsOf key.intentId key.revision = _ from hleft.symm] at he
      exact List.mem_of_mem_filter he
    have htenant : e.key.tenantId = tenantId := of_decide_eq_true (List.mem_filter.1 hmem).2
    exact ⟨htenant, hs.apart e hmem⟩

theorem blind_updateExecution {old new : Execution} (h : OwnExecution tenantId O O' old) :
    BlindTo tenantId O O' (flush (.updateExecution old new)) fun _ => True := by
  refine blind_flush ⟨congrArg some h.1, ?_, ?_⟩
  · rintro row hw
    cases hw
  · rintro old' new' hw
    cases hw
    exact h.2

/-- A minted identifier is inserted on both sides or on neither. -/
theorem blind_insertExecution {row : Execution} (h : OwnExecution tenantId O O' row) :
    BlindTo tenantId O O' (insertExecution row) fun _ => True := by
  have hwrite : OwnWrite tenantId O O' (.insertExecution row) := by
    refine ⟨congrArg some h.1, ?_, ?_⟩
    · rintro row' hw
      cases hw
      exact h.2
    · rintro old new hw
      cases hw
  have hpresent : ∀ σ σ', Shares tenantId O O' σ σ' →
      Db.present σ (.execution row.id) = Db.present σ' (.execution row.id) := by
    intro σ σ' hs
    have hleft : (σ.rowsOf tenantId).execution? row.id = σ.execution? row.id :=
      execution?_rowsOf (hs.left ▸ h.2.1)
    have hright : (σ'.rowsOf tenantId).execution? row.id = σ'.execution? row.id :=
      execution?_rowsOf (hs.right ▸ h.2.2)
    show (σ.execution? row.id).isSome = (σ'.execution? row.id).isSome
    rw [← hleft, ← hright, hs.own]
  refine Prog.Blind.bind (Q := fun _ => True) ?_ fun _ _ => blind_check
  exact ⟨hpresent, respects_own hwrite, fun _ => trivial⟩

/-- The claim of the execution row without a rival. -/
theorem blind_claimExecution {leaseSeconds : Nat} (hkey : key.tenantId = tenantId)
    (hO : NoRival O key) (hO' : NoRival O' key) :
    BlindTo tenantId O O' (claimExecution key dbNow leaseSeconds) fun _ => True := by
  refine (blind_executionsOf hO hO').bind fun rows hrows => ?_
  refine (blind_scalarOneOrNone rows).bind fun found hfound => ?_
  cases found with
  | some existing =>
      refine Prog.blind_ite (fun _ => trivial) fun _ => blind_updateExecution (hrows _ ?_)
      rw [hfound existing rfl]
      exact List.mem_singleton_self existing
  | none =>
      refine (Prog.blind_draw (Q := fun id => Unnamed O id ∧ Unnamed O' id) fun _ hid => hid).bind
        fun id hid => ?_
      exact blind_insertExecution ⟨hkey, hid⟩

theorem blind_revalidation_recordTransition {target : IntentState}
    {actorId commandId reasonCode : String} (h : intent.key.tenantId = tenantId) :
    BlindTo tenantId O O'
      (Revalidation.recordTransition intent target actorId commandId reasonCode dbNow) fun a =>
        a.key = intent.key :=
  blind_appendTransition h h

theorem blind_claimPhase (hkey : request.key.tenantId = tenantId) (hO : NoRival O request.key)
    (hO' : NoRival O' request.key) :
    BlindTo tenantId O O' (claimPhase request) fun a => a.key = request.key := by
  refine (blind_lockIntentNowait hkey).bind fun r hr => ?_
  match r with
  | none => exact trivial
  | some (none, _) => exact trivial
  | some (some intent, dbNow) =>
      have hintent : intent.key = request.key := hr intent dbNow rfl
      refine Prog.blind_ite (fun _ => trivial) fun _ => ?_
      refine (blind_claimExecution hkey hO hO').bind fun _ _ => ?_
      refine (blind_revalidation_recordTransition (hintent ▸ hkey)).mono fun a ha => ?_
      exact ha.trans hintent

theorem blind_fetchTarget {tool : ToolName} {parameters : Dict} {attempts : Nat} {reason : String} :
    BlindTo tenantId O O' (fetchTarget tool parameters attempts reason) fun _ => True := by
  induction attempts generalizing reason with
  | zero => exact trivial
  | succ n ih =>
      intro answer
      cases answer with
      | snapshot s => exact trivial
      | timeout => exact ih
      | error => exact ih
      | cancelled => exact trivial

theorem blind_reopenClaim (hkey : request.key.tenantId = tenantId) (hO : NoRival O request.key)
    (hO' : NoRival O' request.key) :
    BlindTo tenantId O O' (reopenClaim request) fun r =>
      r.1.key.tenantId = tenantId ∧ OwnExecution tenantId O O' r.2.1 := by
  refine (blind_lockIntentNowait hkey).bind fun r hr => ?_
  match r with
  | none => exact trivial
  | some (none, _) => exact trivial
  | some (some intent, dbNow) =>
      have hintent : intent.key = request.key := hr intent dbNow rfl
      refine Prog.blind_ite (fun _ => trivial) fun _ => ?_
      refine (blind_executionsOf hO hO').bind fun rows hrows => ?_
      refine (blind_scalarOne rows).bind fun execution hone => ⟨hintent ▸ hkey, hrows _ ?_⟩
      rw [show rows = [execution] from hone]
      exact List.mem_singleton_self execution

theorem blind_failClaim {state : IntentState} {reasonCode : String}
    (hintent : intent.key.tenantId = tenantId) (h : OwnExecution tenantId O O' execution) :
    BlindTo tenantId O O' (failClaim request intent execution dbNow state reasonCode)
      fun _ => True := by
  refine (blind_revalidation_recordTransition hintent).bind fun _ _ => ?_
  exact (blind_updateExecution h).bind fun _ _ => trivial

theorem blind_approverFailureReason {actorId : String} {roles scopes : List String}
    {environment : Option Json} :
    BlindTo tenantId O O' (approverFailureReason tenantId actorId roles scopes dbNow environment)
      fun _ => True :=
  blind_loadAssignments.bind fun _ _ => trivial

theorem blind_countAuthorized {roles scopes : List String} {decisions : List ApprovalDecisionRow}
    {authorized : Nat} {last : Option String} (h : intent.key.tenantId = tenantId) :
    BlindTo tenantId O O' (countAuthorized intent roles scopes dbNow decisions authorized last)
      fun _ => True := by
  subst h
  induction decisions generalizing authorized last with
  | nil => exact trivial
  | cons d rest ih =>
      refine blind_approverFailureReason.bind fun reason _ => ?_
      cases reason with
      | none => exact ih
      | some text => exact ih

theorem blind_criticalLevels {roles scopes : List String} {decisions : List ApprovalDecisionRow}
    (h : intent.key.tenantId = tenantId) :
    BlindTo tenantId O O' (criticalLevelsFailureReason intent decisions roles scopes dbNow)
      fun _ => True := by
  subst h
  unfold criticalLevelsFailureReason
  split
  · refine Prog.blind_ite (fun _ => trivial) fun _ => ?_
    refine blind_approverFailureReason.bind fun reason _ => ?_
    cases reason with
    | none => exact blind_approverFailureReason
    | some text => exact trivial
  · exact trivial

theorem blind_approvalsFailureReason {policy : PolicyEvaluation}
    (h : intent.key.tenantId = tenantId) :
    BlindTo tenantId O O' (approvalsFailureReason intent policy dbNow) fun _ => True := by
  refine Prog.blind_ite (fun _ => trivial) fun _ => ?_
  refine (blind_scan fun σ => ?_).bind fun decisions _ => ?_
  · rw [show (σ.rowsOf tenantId).decisionsOf intent.key = σ.decisionsOf intent.key from
      Store.decisionsOf_keep (ownKey h)]
  · refine Prog.blind_ite (fun _ => blind_criticalLevels h) fun _ => ?_
    refine (blind_countAuthorized h).bind fun _ _ => ?_
    exact Prog.blind_ite (fun _ => trivial) fun _ => trivial

theorem blind_revalidateGates {rt : Runtime} {bundle : PolicyBundle} {snapshot : TargetSnapshot}
    (h : intent.key.tenantId = tenantId) :
    BlindTo tenantId O O' (revalidateGates rt intent execution dbNow bundle snapshot)
      fun _ => True := by
  refine Prog.blind_ite (fun _ => trivial) fun _ => ?_
  refine (blind_query_own (Q := fun _ => True)
    (fun σ => Store.policiesOf_keep (ownKey h)) fun _ => trivial).bind fun policies _ => ?_
  refine (blind_scalarOne policies).bind fun policy _ => ?_
  refine Prog.blind_ite (fun _ => trivial) fun _ => ?_
  refine (blind_approvalsFailureReason h).bind fun reason _ => ?_
  cases reason with
  | some text => exact trivial
  | none => exact (blind_ofExcept _).mono fun _ _ => trivial

theorem blind_gatePhase {rt : Runtime} {snapshot : TargetSnapshot}
    (hkey : request.key.tenantId = tenantId) (hO : NoRival O request.key)
    (hO' : NoRival O' request.key) :
    BlindTo tenantId O O' (gatePhase rt request snapshot) fun _ => True := by
  refine Prog.Blind.transaction ?_
  refine (blind_reopenClaim hkey hO hO').bind fun r hr => ?_
  obtain ⟨intent, execution, dbNow⟩ := r
  obtain ⟨hintent, hexecution⟩ := hr
  refine (blind_revalidateGates hintent).bind fun gates _ => ?_
  cases gates with
  | failed state reasonCode => exact (blind_failClaim hintent hexecution).bind fun _ _ => trivial
  | passed passed =>
      refine Prog.Blind.bind (Q := fun _ => True) ?_ fun _ _ => trivial
      refine (blind_revalidation_recordTransition hintent).bind fun _ _ => ?_
      exact (blind_updateExecution hexecution).bind fun _ _ => trivial

/-- A claim of the tenant without a rival. -/
theorem blind_claimCall {rt : Runtime} (hkey : request.key.tenantId = tenantId)
    (hO : NoRival O request.key) (hO' : NoRival O' request.key) :
    BlindTo tenantId O O' (claimCall rt request) fun _ => True := by
  refine Prog.Blind.handle ?_ fun _ => trivial
  refine Prog.Blind.handle (Q := fun _ => True) ?_ fun _ =>
    Prog.blind_ite (fun _ => trivial) fun _ => trivial
  refine (blind_claimPhase hkey hO hO').bind fun intent _ => ?_
  refine blind_fetchTarget.bind fun target _ => ?_
  cases target with
  | ok snapshot => exact blind_gatePhase hkey hO hO'
  | error reason =>
      refine Prog.Blind.bind (Q := fun _ => True) ?_ fun _ _ => trivial
      refine Prog.Blind.transaction ((blind_reopenClaim hkey hO hO').bind fun r hr => ?_)
      exact blind_failClaim hr.1 hr.2

end Claims

/-! ## Queries -/

section Queries

variable {tenantId : String} {O O' : Store} {rt : Runtime} {actor : AuthenticatedActor}
  {intentId : UUID}

theorem blind_getIntent (h : actor.tenantId = tenantId) :
    BlindTo tenantId O O' (Api.getIntent rt actor intentId) fun _ => True := by
  subst h
  refine (blind_scan fun σ => ?_).bind fun revisions _ => ?_
  · exact Store.filter_filter_key fun r _ hr => decide_eq_true (of_decide_eq_true hr).1
  refine (blind_orRaise _ _).bind fun row _ => ?_
  refine (blind_query_own (Q := fun _ => True)
    (fun σ => Store.risksOf_keep (ownKey rfl)) fun _ => trivial).bind fun risks _ => ?_
  refine (blind_scalarOneOrNone risks).bind fun risk _ => ?_
  refine (blind_query_own (Q := fun _ => True)
    (fun σ => Store.policiesOf_keep (ownKey rfl)) fun _ => trivial).bind fun policies _ => ?_
  refine (blind_scalarOneOrNone policies).bind fun policy _ => ?_
  refine (blind_scan fun σ => Store.decisionsOf_keep (ownKey rfl)).bind fun approvals _ => ?_
  refine (blind_scan fun σ => ?_).bind fun executions _ => trivial
  refine Store.filter_filter_key fun e _ he => decide_eq_true ?_
  rw [of_decide_eq_true he]

theorem blind_getEvents {audit : List AuditEventRow} {query : Api.EventsQuery}
    (h : actor.tenantId = tenantId) :
    BlindTo tenantId O O' (Api.getEvents rt audit actor intentId query) fun _ => True := by
  subst h
  refine (blind_query_own (Q := fun _ => True) (fun σ => ?_) fun _ => trivial).bind
    fun revisions _ => ?_
  · exact Store.filter_filter_key fun r _ hr => decide_eq_true (of_decide_eq_true hr).1
  refine (blind_scalarOneOrNone revisions).bind fun found _ => ?_
  refine (blind_orRaise _ found).bind fun _ _ => ?_
  refine (blind_scan fun σ => ?_).bind fun rows _ => trivial
  exact Store.filter_filter_key fun r _ hr => decide_eq_true (of_decide_eq_true hr).1

/-- The audit rows of the tenant decide the response. -/
theorem getEvents_audit {audit audit' : List AuditEventRow} {query : Api.EventsQuery}
    (h : (audit.filter fun row => row.tenantId = actor.tenantId) =
      audit'.filter fun row => row.tenantId = actor.tenantId) :
    Api.getEvents rt audit actor intentId query = Api.getEvents rt audit' actor intentId query := by
  have hrows : ∀ rows : List AuditEventRow, Api.aggregateRows rows actor.tenantId intentId =
      Api.aggregateRows (rows.filter fun row => row.tenantId = actor.tenantId) actor.tenantId
        intentId := by
    intro rows
    unfold Api.aggregateRows
    refine congrArg _ (Store.filter_filter_key fun r _ hr => ?_).symm
    exact decide_eq_true (of_decide_eq_true hr).1
  unfold Api.getEvents
  rw [hrows audit, h, ← hrows audit']

end Queries

end HitlOps.Lifecycle
