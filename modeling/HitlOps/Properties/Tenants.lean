import HitlOps.Lifecycle.Tenants
import HitlOps.Infrastructure.Constraints
import HitlOps.Scenario

/-!
# Separation of tenants

A decision, a cancellation, a claim and the two queries of a tenant change no row of another tenant
and come out the same whatever the rows of the others are, with one exception: `claim_and_revalidate`
looks its execution row up by intent and revision only, and meets the rows of other tenants.
-/

set_option autoImplicit false

namespace HitlOps.Properties

open HitlOps.Python HitlOps.Domain HitlOps.Infrastructure HitlOps.Application HitlOps.Adapters
open HitlOps.Transaction HitlOps.Lifecycle
open HitlOps.Api (getSession)

/-! ## Operations of a tenant -/

/-- The tables: those of the lifecycle and the audit events. -/
structure Tables where
  store : Store
  audit : List AuditEventRow

/-- The rows of a tenant. -/
def Tables.rowsOf (tenantId : String) (t : Tables) : Tables :=
  ⟨t.store.rowsOf tenantId, t.audit.filter fun row => row.tenantId = tenantId⟩

/-- The operations that run for a tenant. -/
inductive TenantOp : Type
  | decide (command : ApprovalDecisionCommand)
  | cancel (command : CancelIntentCommand)
  | claim (request : ClaimRequest)
  | getIntent (actor : AuthenticatedActor) (intentId : UUID)
  | getEvents (actor : AuthenticatedActor) (intentId : UUID) (query : Api.EventsQuery)

/-- What they return. -/
inductive Reply : Type
  | snapshot (s : IntentSnapshot)
  | claimed (r : Except RevalidationFailure ExecutionPermit)
  | body (d : Dict)

/-- The program of an operation over the audit rows. -/
def TenantOp.program (rt : Runtime) (audit : List AuditEventRow) : TenantOp → M Reply
  | .decide command => Reply.snapshot <$> getSession (Application.decide command)
  | .cancel command => Reply.snapshot <$> getSession (Application.cancel command)
  | .claim request => Reply.claimed <$> claimCall rt request
  | .getIntent actor intentId => Reply.body <$> getSession (Api.getIntent rt actor intentId)
  | .getEvents actor intentId query =>
      Reply.body <$> getSession (Api.getEvents rt audit actor intentId query)

/-- The command identifier is minted: the hexadecimal text of a UUID that no transition carries. -/
def MintedCommand (s : Store) (commandId : String) : Prop :=
  (∃ id : UUID, commandId = id.hex) ∧
    ∀ r ∈ s.transitions, ¬ (commandId ++ ":").toList <+: r.commandId.toList

/-- The operation runs for the tenant, by an actor of the tenant. -/
def TenantOp.RunsFor (tenantId : String) (s : Store) : TenantOp → Prop
  | .decide command =>
      command.tenantId = tenantId ∧ command.actor.tenantId = tenantId ∧ MintedCommand s command.commandId
  | .cancel command =>
      command.tenantId = tenantId ∧ command.actor.tenantId = tenantId ∧ MintedCommand s command.commandId
  | .claim request =>
      request.key.tenantId = tenantId ∧ fits 255 request.workerId = true ∧
        MintedCommand s request.commandId
  | .getIntent actor _ => actor.tenantId = tenantId
  | .getEvents actor _ _ => actor.tenantId = tenantId

/-- A store as the program fills it: within the constraints of the schema, tenants that their column
holds, operation keys as claims write them, and an identifier that is still free. -/
structure Deployed (s : Store) : Prop extends s.Constrained where
  tenants : ∀ i ∈ s.intents, fits 63 i.key.tenantId = true
  operationKeys : ∀ e ∈ s.executions, e.operationKey = operationKeyFor e.key
  free : ∃ id : UUID, ∀ e ∈ s.executions, e.id ≠ id

/-! ## Separation -/

/-- The outcome of an operation that runs alone, and the lifecycle tables behind it. -/
def TenantOp.run (rt : Runtime) (op : TenantOp) (t : Tables) (counter : Nat) (clock : Time)
    (moments : Nat → Moment Db) : Except Error Reply × Store :=
  let r := (op.program rt t.audit).alone (.opened t.store counter clock moments)
  (r.1, r.2.db)

/-- The identifiers to come are those of no execution. -/
def FreshMoments (moments : Nat → Moment Db) (s : Store) : Prop :=
  ∀ n, ∀ e ∈ s.executions, e.id ≠ (moments n).draw .uuid

/-- On both tables the operation has the same outcome, leaves the same rows of the tenant behind, and
leaves the rows of the other tenants as they were. -/
def SameInBoth (rt : Runtime) (tenantId : String) (op : TenantOp) (t t' : Tables) : Prop :=
  ∀ counter clock moments, FreshMoments moments t.store → FreshMoments moments t'.store →
    let r := op.run rt t counter clock moments
    let r' := op.run rt t' counter clock moments
    r.1 = r'.1 ∧ r.2.rowsOf tenantId = r'.2.rowsOf tenantId ∧
      r.2.rowsOfOthers tenantId = t.store.rowsOfOthers tenantId ∧
      r'.2.rowsOfOthers tenantId = t'.store.rowsOfOthers tenantId

/-- The operation runs as if the tenant were alone. -/
def Separated (rt : Runtime) (tenantId : String) (op : TenantOp) (t : Tables) : Prop :=
  SameInBoth rt tenantId op t (t.rowsOf tenantId)

/-- A claim of an intent that is ready for it, while another tenant has an execution of the same intent
identifier and revision. -/
def Crosses (tenantId : String) (s : Store) : TenantOp → Prop
  | .claim request =>
      (∃ i, s.intent? request.key = some i ∧ (i.state = .autoApproved ∨ i.state = .approved)) ∧
        ∃ e ∈ s.executions, e.key.tenantId ≠ tenantId ∧
          e.key.intentId = request.key.intentId ∧ e.key.revision = request.key.revision
  | _ => False

/-! ## A claim alone -/

section Claim

variable {rt : Runtime} {request : ClaimRequest} {d d' : Desk Db} {intent : ActionIntent}

theorem alone_then {α β : Type} {p : M α} {f : α → M β} {a : α} (h : p.alone d = (.ok a, d')) :
    (p >>= f).alone d = (f a).alone d' := by
  rw [Prog.alone_bind, h]

theorem alone_stop {α β : Type} {p : M α} {f : α → M β} {x : Error}
    (h : p.alone d = (.error x, d')) : (p >>= f).alone d = (.error x, d') := by
  rw [Prog.alone_bind, h]

theorem alone_flush {w : Write} (h : w.admissible = true) (d : Desk Db) :
    (flush w).alone d = (.ok (), d.wait.writing w) := by
  unfold flush Prog.raiseIf
  rw [h, if_neg Bool.noConfusion]
  rfl

/-- The error that a claim reports for one of its body. -/
def reported (x : Error) : Error :=
  if x = .dbapi true then .stateConflictError "row lock or serialization conflict; retry" else x

/-- A claim phase that raises leaves the committed store as it is. -/
theorem alone_claimCall_error {x : Error} (h : (claimPhase request).alone d.wait = (.error x, d')) :
    ((claimCall rt request).alone d).1 = .error (reported x) ∧
      ((claimCall rt request).alone d).2.db = d'.db := by
  have hbody : (claimAndRevalidateBody rt request).alone d.wait = (.error x, d') := by
    unfold claimAndRevalidateBody
    rw [Prog.alone_bind, h]
  have hclaim : (claimAndRevalidate rt request).alone d = (.error (reported x), d') := by
    show (Prog.handle (claimAndRevalidateBody rt request) _).alone d.wait = _
    rw [Prog.alone_handle, hbody]
    unfold reported
    by_cases hx : x = .dbapi true
    · rw [if_pos hx]
      show (if x = .dbapi true then _ else _ : M _).alone d' = _
      rw [if_pos hx]
      rfl
    · rw [if_neg hx]
      show (if x = .dbapi true then _ else _ : M _).alone d' = _
      rw [if_neg hx]
      rfl
  unfold claimCall
  rw [Prog.alone_handle, hclaim]
  exact ⟨rfl, rfl⟩

/-- The target query of a claim is cancelled. -/
def Interrupted (moments : Nat → Moment Db) : Prop :=
  ∀ n tool parameters, (moments n).answer (.fetch tool parameters) = .cancelled

theorem alone_fetchTarget_cancelled {tool : ToolName} {parameters : Dict} {n : Nat} {reason : String}
    (h : (d.moments 0).answer (.fetch tool parameters) = .cancelled) :
    (fetchTarget tool parameters (n + 1) reason).alone d = (.error .cancelled, d.wait) := by
  have hcall : (Prog.call (D := Db) (X := Error) (.fetch tool parameters)).alone d =
      (.ok .cancelled, d.wait) := by
    rw [← h]
    rfl
  unfold fetchTarget
  rw [alone_then hcall]
  rfl

/-- A claim that is cancelled behind its first phase leaves the claim behind. -/
theorem alone_claimCall_cancelled (h : (claimPhase request).alone d.wait = (.ok intent, d'))
    (hcancel : Interrupted d'.moments) :
    ((claimCall rt request).alone d).1 = .error .cancelled ∧
      ((claimCall rt request).alone d).2.db = d'.view := by
  have hfetch : (fetchTarget intent.tool intent.canonicalParameters 2 "target_fetch_failed").alone
      (d'.exec .commit).2 = (.error .cancelled, (d'.exec .commit).2.wait) :=
    alone_fetchTarget_cancelled (hcancel 1 intent.tool intent.canonicalParameters)
  have hbody : (claimAndRevalidateBody rt request).alone d.wait =
      (.error .cancelled, (d'.exec .commit).2.wait) := by
    unfold claimAndRevalidateBody
    rw [Prog.alone_bind, h]
    show (fetchTarget intent.tool intent.canonicalParameters 2 "target_fetch_failed" >>= _ :
      M _).alone (d'.exec .commit).2 = _
    rw [Prog.alone_bind, hfetch]
  have hclaim : (claimAndRevalidate rt request).alone d =
      (.error .cancelled, (d'.exec .commit).2.wait) := by
    show (Prog.handle (claimAndRevalidateBody rt request) _).alone d.wait = _
    rw [Prog.alone_handle, hbody]
    rfl
  unfold claimCall
  rw [Prog.alone_handle, hclaim]
  exact ⟨rfl, rfl⟩

/-- The time at which a phase that starts at this desk reads. -/
abbrev phaseTime (d : Desk Db) : Time := d.wait.start.2

theorem alone_claimPhase_unready {x : Error}
    (h : (d.view.intent? request.key = none ∧ x = .notFoundError "intent revision not found") ∨
      ∃ i, d.view.intent? request.key = some i ∧ ¬ (i.state = .autoApproved ∨ i.state = .approved) ∧
        x = .stateConflictError ("intent is not executable in state " ++ i.state.value)) :
    (claimPhase request).alone d = (.error x, d.wait.opening) := by
  have hlock : (lockIntentNowait request.key).alone d =
      (.ok (some (d.view.intent? request.key, phaseTime d)), d.wait.opening) := rfl
  unfold claimPhase
  rw [Prog.alone_bind, hlock]
  rcases h with ⟨hnone, rfl⟩ | ⟨i, hi, hstate, rfl⟩
  · rw [hnone]
    rfl
  · rw [hi]
    show (if i.state ≠ .autoApproved ∧ i.state ≠ .approved then _ else _ : M _).alone _ = _
    rw [if_pos ⟨fun h => hstate (Or.inl h), fun h => hstate (Or.inr h)⟩]
    rfl

theorem alone_claimPhase_ready (hi : d.view.intent? request.key = some intent)
    (hstate : intent.state = .autoApproved ∨ intent.state = .approved) :
    (claimPhase request).alone d = (do
      claimExecution request.key (phaseTime d) request.leaseSeconds
      Revalidation.recordTransition intent .revalidating request.workerId request.commandId
        "execution_claimed" (phaseTime d) : M _).alone d.wait.opening := by
  have hlock : (lockIntentNowait request.key).alone d =
      (.ok (some (d.view.intent? request.key, phaseTime d)), d.wait.opening) := rfl
  unfold claimPhase
  rw [Prog.alone_bind, hlock, hi]
  show (if intent.state ≠ .autoApproved ∧ intent.state ≠ .approved then _ else _ : M _).alone _ = _
  rw [if_neg fun h => hstate.elim h.1 h.2]

/-- The store behind a transition of the intent. -/
def advanced (s : Store) (intent : ActionIntent) (target : IntentState) (n : Nat)
    (row : StateTransition) (topic : String) (payload : Dict) : Store :=
  ((s.apply n (.insertTransition row)).apply (n + 1) (.insertOutbox topic payload)).apply (n + 2)
    (.updateIntent intent.key ⟨target, intent.stateVersion + 1, none⟩)

/-- A transition whose texts fit is recorded. -/
theorem alone_appendTransition {target : IntentState} {cause : Cause} {dbNow : Time}
    {topic : String} {payload : Dict} (hlegal : isLegal intent.state target = true)
    (hactor : fits 255 cause.actorId = true) (hreason : fits 64 cause.reasonCode = true)
    (hpayload : storableDict payload = true) (d : Desk Db) :
    ∃ d' row, (appendTransition intent target cause dbNow topic payload).alone d =
        (.ok (moved intent target), d') ∧
      d'.view = advanced d.view intent target d.counter row topic payload := by
  have hcheck : (requireTransition intent.state target).alone d = (.ok (), d) := by
    unfold requireTransition Prog.raiseIf
    rw [hlegal, if_neg Bool.noConfusion]
    rfl
  have hrow : ∀ sequence, (Write.insertTransition
      (transitionRow intent target cause sequence dbNow)).admissible = true := by
    intro sequence
    show (fits 255 cause.actorId && fits 64 cause.reasonCode) = true
    rw [hactor, hreason]
    rfl
  have hmessage : (Write.insertOutbox topic payload).admissible = true := hpayload
  have hmove : (Write.updateIntent intent.key ⟨target, intent.stateVersion + 1, none⟩).admissible =
      true := rfl
  unfold appendTransition
  refine ⟨((d.wait.opening.wait.writing (.insertTransition (transitionRow intent target cause
    (d.view.maxSequence intent.key + 1) dbNow))).wait.writing (.insertOutbox topic payload)).wait.writing
    (.updateIntent intent.key ⟨target, intent.stateVersion + 1, none⟩),
    transitionRow intent target cause (d.view.maxSequence intent.key + 1) dbNow, ?_, ?_⟩
  · rw [alone_then hcheck, alone_then (Prog.alone_query _ _), alone_then (alone_flush (hrow _) _),
      alone_then (alone_flush hmessage _), alone_then (alone_flush hmove _)]
    rfl
  · rw [Desk.view_writing, Desk.view_wait, Desk.view_writing, Desk.view_wait, Desk.view_writing]
    rfl

/-- The claimed row of an execution whose claim was given up. -/
def retaken (existing : Execution) (expires : Time) : Execution :=
  { existing with
    attempt := existing.attempt + 1
    status := .claimed
    claimExpiresAt := some expires
    errorCode := none }

/-- The claim of the row is not over at `now`. -/
abbrev ClaimedAt (e : Execution) (now : Time) : Prop :=
  e.status = .claimed ∧ e.claimExpiresAt.any (fun expires => Decidable.decide (now < expires)) = true

section Execution

variable {key : RevisionKey} {now : Time} {leaseSeconds : Nat}

theorem alone_claimExecution_many {x y : Execution}
    (hx : x ∈ d.view.executionsOf key.intentId key.revision)
    (hy : y ∈ d.view.executionsOf key.intentId key.revision) (hne : x ≠ y) :
    (claimExecution key now leaseSeconds).alone d = (.error .multipleResults, d.wait.opening) := by
  unfold claimExecution
  rw [Prog.alone_bind, Prog.alone_query, Desk.view_wait]
  match hrows : d.view.executionsOf key.intentId key.revision with
  | [] =>
      rw [hrows] at hx
      cases hx
  | [a] =>
      rw [hrows] at hx hy
      exact absurd ((List.mem_singleton.1 hx).trans (List.mem_singleton.1 hy).symm) hne
  | a :: b :: rest => 
      rfl

theorem alone_claimExecution_live {x : Execution}
    (hrows : d.view.executionsOf key.intentId key.revision = [x]) (hlive : ClaimedAt x now) :
    (claimExecution key now leaseSeconds).alone d =
      (.error (.stateConflictError "execution already claimed by another worker"),
        d.wait.opening) := by
  unfold claimExecution
  rw [Prog.alone_bind, Prog.alone_query, Desk.view_wait, hrows]
  show (if x.status = .claimed ∧ _ then _ else _ : M _).alone _ = _
  rw [if_pos hlive]
  rfl

theorem alone_claimExecution_retaken {x : Execution}
    (hrows : d.view.executionsOf key.intentId key.revision = [x]) (hlive : ¬ ClaimedAt x now) :
    (claimExecution key now leaseSeconds).alone d =
      (.ok (), d.wait.opening.wait.writing
        (.updateExecution x (retaken x (leaseUntil now leaseSeconds)))) := by
  unfold claimExecution
  rw [Prog.alone_bind, Prog.alone_query, Desk.view_wait, hrows]
  show (if x.status = .claimed ∧ _ then _ else _ : M _).alone _ = _
  rw [if_neg hlive]
  refine alone_flush ?_ _
  simp [Write.admissible, sends]

theorem alone_claimExecution_first
    (hrows : d.view.executionsOf key.intentId key.revision = [])
    (hfresh : FreshMoments d.moments d.view) :
    ∃ n d', (claimExecution key now leaseSeconds).alone d = (.ok (), d') ∧
      d'.view = d.view.apply d.counter (.insertExecution
        (claimedExecution ((d.moments n).draw .uuid) key (leaseUntil now leaseSeconds))) := by
  -- The claim draws its identifier at the second moment, behind the search for a row.
  let id := (d.moments 1).draw .uuid
  have habsent : d.view.execution? id = none := by
    refine List.find?_eq_none.2 fun e he hid => ?_
    exact hfresh 1 e he (of_decide_eq_true hid)
  have hinsert : ∀ d' : Desk Db, d'.view = d.view →
      (insertExecution (claimedExecution id key (leaseUntil now leaseSeconds))).alone d' =
        (.ok (), d'.wait.writing
          (.insertExecution (claimedExecution id key (leaseUntil now leaseSeconds)))) := by
    intro d' hview
    have hpresent : present d'.wait.view (.execution id) = false := by
      rw [Desk.view_wait, hview]
      show (d.view.execution? id).isSome = false
      rw [habsent]
      rfl
    have hreply : (Prog.insert (D := Db) (X := Error) (.execution id)
        (.insertExecution (claimedExecution id key (leaseUntil now leaseSeconds)))).alone d' =
          (.ok true, d'.wait.writing
            (.insertExecution (claimedExecution id key (leaseUntil now leaseSeconds)))) := by
      show (Except.ok (d'.exec (.insert _ _)).1, (d'.exec (.insert _ _)).2) = _
      simp only [Desk.exec, Desk.reply, hpresent, Bool.false_eq_true, if_false]
    exact alone_then hreply
  unfold claimExecution
  rw [Prog.alone_bind, Prog.alone_query, Desk.view_wait, hrows]
  refine ⟨1, _, hinsert d.wait.opening.wait rfl, ?_⟩
  rw [Desk.view_writing]
  rfl

end Execution

/-- The store holds the intent of the claim, ready for it, and the texts of the claim fit their
columns. -/
structure ReadyClaim (request : ClaimRequest) (intent : ActionIntent) (s : Store) : Prop where
  found : s.intent? request.key = some intent
  state : intent.state = .autoApproved ∨ intent.state = .approved
  worker : fits 255 request.workerId = true
  command : Json.storableText request.commandId = true
  tenant : Json.storableText intent.key.tenantId = true

theorem storableText_state (state : IntentState) : Json.storableText state.value = true := by
  cases state <;> decide

theorem storableText_of_fits {n : Nat} {text : String} (h : fits n text = true) :
    Json.storableText text = true := (Bool.and_eq_true_iff.1 h).2

/-- The payload of a transition holds texts that a column holds. -/
theorem storable_transitionPayload {target : IntentState} {actorId commandId reasonCode : String}
    (htenant : Json.storableText intent.key.tenantId = true)
    (hactor : Json.storableText actorId = true) (hcommand : Json.storableText commandId = true)
    (hreason : Json.storableText reasonCode = true) :
    storableDict (Revalidation.transitionPayload intent target
      ⟨"system", actorId, commandId, reasonCode⟩) = true := by
  simp only [Revalidation.transitionPayload, storableDict, Json.storable, Json.storableFields,
    htenant, hactor, hcommand, hreason, storableText_text, storableText_state, Bool.and_true]
  decide

/-- A claim phase whose claim of the row succeeds moves the intent. -/
theorem alone_claimPhase_ok {d₁ : Desk Db} (hready : ReadyClaim request intent d.view)
    (h : (claimExecution request.key (phaseTime d) request.leaseSeconds).alone d.wait.opening =
      (.ok (), d₁)) :
    ∃ d' row topic payload, (claimPhase request).alone d = (.ok (moved intent .revalidating), d') ∧
      d'.view = advanced d₁.view intent .revalidating d₁.counter row topic payload := by
  have hlegal : isLegal intent.state .revalidating = true := by
    rcases hready.state with h | h
    · rw [h]; rfl
    · rw [h]; rfl
  have hpayload := @storable_transitionPayload intent .revalidating request.workerId
    request.commandId "execution_claimed" hready.tenant (storableText_of_fits hready.worker)
    hready.command (by decide)
  have hreason : fits 64 "execution_claimed" = true := by decide
  obtain ⟨d', row, hd', hview⟩ := @alone_appendTransition intent .revalidating
    ⟨"system", request.workerId, request.commandId, "execution_claimed"⟩ (phaseTime d)
    "intent.transitioned" _ hlegal hready.worker hreason hpayload d₁
  refine ⟨d', row, _, _, ?_, hview⟩
  rw [alone_claimPhase_ready hready.found hready.state, alone_then h]
  exact hd'

end Claim

/-! ## Operations without a rival -/

section Separation

variable {rt : Runtime} {tenantId : String} {op : TenantOp} {t t' : Tables}

/-- The tables share the rows of the tenant. -/
theorem shares_of_agree (ht : t.store.UniqueKeys) (ht' : t'.store.UniqueKeys)
    (hagree : t'.rowsOf tenantId = t.rowsOf tenantId) :
    Shares tenantId (t.store.rowsOfOthers tenantId) (t'.store.rowsOfOthers tenantId) t.store
      t'.store := by
  have hown : t'.store.rowsOf tenantId = t.store.rowsOf tenantId := congrArg Tables.store hagree
  have hapart : ∀ s : Store, s.UniqueKeys → ∀ e ∈ (s.rowsOf tenantId).executions,
      Unnamed (s.rowsOfOthers tenantId) e.id := by
    intro s hs e he x hx hid
    obtain ⟨he, hetenant⟩ := List.mem_filter.1 he
    obtain ⟨hx, hxtenant⟩ := List.mem_filter.1 hx
    have heq : x = e := List.inj_on_of_nodup_map hs.executionIds hx he hid
    rw [heq] at hxtenant
    exact of_decide_eq_true hxtenant (of_decide_eq_true hetenant)
  refine ⟨hown.symm, rfl, rfl, fun e he => ⟨hapart _ ht e he, hapart _ ht' e ?_⟩⟩
  rw [hown]
  exact he

/-- A program that is blind to the rows of the others does the same in both. -/
theorem sameInBoth_of_blind {α : Type} {p : M α} {wrap : α → Reply} {Q : α → Prop}
    (hp : op.program rt t.audit = wrap <$> p) (hp' : op.program rt t'.audit = wrap <$> p)
    (hblind : BlindTo tenantId (t.store.rowsOfOthers tenantId) (t'.store.rowsOfOthers tenantId) p Q)
    (ht : t.store.UniqueKeys) (ht' : t'.store.UniqueKeys)
    (hagree : t'.rowsOf tenantId = t.rowsOf tenantId) : SameInBoth rt tenantId op t t' := by
  intro counter clock moments hfresh hfresh'
  have halike := Desk.Alike.opened (D := Db) (shares_of_agree ht ht' hagree) counter clock moments
  have hwrapped : BlindTo tenantId (t.store.rowsOfOthers tenantId) (t'.store.rowsOfOthers tenantId)
      (wrap <$> p) fun _ => True := hblind.bind fun _ _ => trivial
  have hdraws : ∀ n o, Lifecycle.Minted (t.store.rowsOfOthers tenantId)
      (t'.store.rowsOfOthers tenantId) o ((moments n).draw o) := by
    intro n o
    cases o with
    | uuid =>
        exact ⟨fun e he => hfresh n e (List.mem_of_mem_filter he),
          fun e he => hfresh' n e (List.mem_of_mem_filter he)⟩
    | _ => exact trivial
  obtain ⟨hout, hdesk⟩ := Prog.alone_blind hwrapped halike hdraws
  unfold TenantOp.run
  rw [hp, hp']
  exact ⟨hout, hdesk.db.own, hdesk.db.left, hdesk.db.right⟩

/-- A claim that raises passes its error on. -/
theorem run_claim_error {request : ClaimRequest} {counter : Nat} {clock : Time}
    {moments : Nat → Moment Db} {x : Error}
    (h : ((claimCall rt request).alone (.opened t.store counter clock moments)).1 = .error x) :
    (TenantOp.claim request).run rt t counter clock moments =
      (.error x, ((claimCall rt request).alone (.opened t.store counter clock moments)).2.db) := by
  have hmap : ((TenantOp.claim request).program rt t.audit).alone
      (.opened t.store counter clock moments) =
        (.error x, ((claimCall rt request).alone (.opened t.store counter clock moments)).2) := by
    show (claimCall rt request >>= fun r => pure (Reply.claimed r) : M Reply).alone _ = _
    rw [Prog.alone_bind]
    cases hrun : (claimCall rt request).alone (.opened t.store counter clock moments) with
    | mk out d' =>
        rw [hrun] at h
        cases h
        rfl
  unfold TenantOp.run
  rw [hmap]

/-- Only a claim of an intent that is ready meets the executions. -/
theorem sameInBoth_of_unready {request : ClaimRequest}
    (hready : ¬ ∃ i, t.store.intent? request.key = some i ∧
      (i.state = .autoApproved ∨ i.state = .approved))
    (hintent : t'.store.intent? request.key = t.store.intent? request.key)
    (hagree : t'.rowsOf tenantId = t.rowsOf tenantId) :
    SameInBoth rt tenantId (.claim request) t t' := by
  -- The claim ends in its first phase, with an error that depends on the row of the intent alone.
  intro counter clock moments _ _
  have hrun : ∃ x, ∀ s : Store, s.intent? request.key = t.store.intent? request.key →
      ((claimCall rt request).alone (.opened s counter clock moments)).1 = .error x ∧
        ((claimCall rt request).alone (.opened s counter clock moments)).2.db = s := by
    cases hfound : t.store.intent? request.key with
    | none =>
        refine ⟨_, fun s hs => alone_claimCall_error (alone_claimPhase_unready (Or.inl ⟨?_, rfl⟩))⟩
        exact hs
    | some i =>
        refine ⟨_, fun s hs => alone_claimCall_error (alone_claimPhase_unready
          (Or.inr ⟨i, ?_, fun hstate => hready ⟨i, hfound, hstate⟩, rfl⟩))⟩
        exact hs
  obtain ⟨x, hx⟩ := hrun
  have hsame : ∀ u : Tables, u.store.intent? request.key = t.store.intent? request.key →
      (TenantOp.claim request).run rt u counter clock moments = (.error x, u.store) := by
    intro u hu
    rw [run_claim_error (hx u.store hu).1, (hx u.store hu).2]
  have hown : t'.store.rowsOf tenantId = t.store.rowsOf tenantId := congrArg Tables.store hagree
  rw [hsame t rfl, hsame t' hintent]
  exact ⟨rfl, hown.symm, rfl, rfl⟩

end Separation

/-! ## Claims with a rival -/

section Rival

variable {rt : Runtime} {tenantId : String} {request : ClaimRequest} {t : Tables} {id : UUID}

/-- Moments at which the target query is cancelled and identifiers are `id`. -/
def cancelledMoment (id : UUID) : Moment Db where
  elapsed := 0
  draw
    | .now => 0
    | .uuid => id
    | .order => fun n => n
  answer
    | .fetch _ _ => .cancelled
    | .execute _ _ => .cancelled
    | .lookupStatus _ _ _ => .cancelled
    | .propose _ _ => .cancelled
    | .publishPending => none

/-- The run of the claim at these moments. -/
def cancelledRun (rt : Runtime) (request : ClaimRequest) (id : UUID) (t : Tables) :
    Except Error Reply × Store :=
  (TenantOp.claim request).run rt t 0 0 fun _ => cancelledMoment id

/-- The desk at which its claim phase starts. -/
def claimDesk (id : UUID) (s : Store) : Desk Db :=
  (Desk.opened s 0 0 fun _ => cancelledMoment id).wait

theorem run_of_raised {x : Error} {d' : Desk Db}
    (h : (claimPhase request).alone (claimDesk id t.store) = (.error x, d')) :
    (cancelledRun rt request id t).1 = .error (reported x) := by
  have hout : ((claimCall rt request).alone (.opened t.store 0 0 fun _ => cancelledMoment id)).1 =
      .error (reported x) := (alone_claimCall_error h).1
  unfold cancelledRun
  rw [run_claim_error hout]

theorem run_of_claimed {a : ActionIntent} {d' : Desk Db}
    (h : (claimPhase request).alone (claimDesk id t.store) = (.ok a, d')) :
    cancelledRun rt request id t = (.error .cancelled, d'.view) := by
  have hmoments : ∀ n, d'.moments n = cancelledMoment id := by
    have hkeep := Prog.moments_alone (claimPhase request) (d := claimDesk id t.store)
      (m := cancelledMoment id) fun _ => rfl
    rw [h] at hkeep
    exact hkeep
  have hcancel : Interrupted d'.moments := by
    intro n tool parameters
    rw [hmoments n]
    rfl
  have hclaim : ((claimCall rt request).alone
      (.opened t.store 0 0 fun _ => cancelledMoment id)).1 = .error .cancelled ∧
      ((claimCall rt request).alone (.opened t.store 0 0 fun _ => cancelledMoment id)).2.db =
        d'.view := alone_claimCall_cancelled h hcancel
  unfold cancelledRun
  rw [run_claim_error hclaim.1, hclaim.2]

/-- The executions that the claim finds. -/
abbrev found (request : ClaimRequest) (s : Store) : List Execution :=
  s.executionsOf request.key.intentId request.key.revision

variable {intent : ActionIntent}

/-- The desk at which the claim reads the executions. -/
abbrev readDesk (id : UUID) (s : Store) : Desk Db := (claimDesk id s).wait.opening

/-- The time at which a claim is compared. -/
abbrev claimTime (id : UUID) (s : Store) : Time := phaseTime (claimDesk id s)

/-- A claim phase that stops at its executions. -/
theorem run_of_refused {x : Error} {d' : Desk Db} (hready : ReadyClaim request intent t.store)
    (h : (claimExecution request.key (claimTime id t.store) request.leaseSeconds).alone
      (readDesk id t.store) = (.error x, d')) :
    (cancelledRun rt request id t).1 = .error (reported x) := by
  have hfound : (claimDesk id t.store).view.intent? request.key = some intent := hready.found
  have hphase : (claimPhase request).alone (claimDesk id t.store) = (.error x, d') := by
    rw [alone_claimPhase_ready hfound hready.state, Prog.alone_bind, h]
  exact run_of_raised hphase

/-- Two executions raise. -/
theorem run_many {x y : Execution} (hready : ReadyClaim request intent t.store)
    (hx : x ∈ found request t.store) (hy : y ∈ found request t.store) (hne : x ≠ y) :
    (cancelledRun rt request id t).1 = .error .multipleResults :=
  run_of_refused hready (alone_claimExecution_many hx hy hne)

/-- A live claim of the only execution is a conflict. -/
theorem run_live {x : Execution} (hready : ReadyClaim request intent t.store)
    (hx : found request t.store = [x]) (hlive : ClaimedAt x (claimTime id t.store)) :
    (cancelledRun rt request id t).1 =
      .error (.stateConflictError "execution already claimed by another worker") :=
  run_of_refused hready (alone_claimExecution_live hx hlive)

/-- The only execution is taken when its claim is over. -/
theorem run_retaken {x : Execution} (hready : ReadyClaim request intent t.store)
    (hx : found request t.store = [x]) (hlive : ¬ ClaimedAt x (claimTime id t.store)) :
    ∃ expires s', cancelledRun rt request id t = (.error .cancelled, s') ∧
      s'.executions = t.store.executions.map fun e =>
        if e.id = x.id then Execution.merge x (retaken x expires) e else e := by
  have hclaim : (claimExecution request.key (claimTime id t.store) request.leaseSeconds).alone
      (readDesk id t.store) = (.ok (), _) := alone_claimExecution_retaken hx hlive
  obtain ⟨d', row, topic, payload, hphase, hview⟩ :=
    alone_claimPhase_ok (d := claimDesk id t.store) hready hclaim
  refine ⟨leaseUntil (claimTime id t.store) request.leaseSeconds, d'.view, run_of_claimed hphase, ?_⟩
  rw [hview, Desk.view_writing]
  rfl

/-- The first claim inserts the execution. -/
theorem run_first (hready : ReadyClaim request intent t.store) (hnone : found request t.store = [])
    (hfresh : ∀ e ∈ t.store.executions, e.id ≠ id) :
    (cancelledRun rt request id t).1 = .error .cancelled := by
  obtain ⟨-, d₁, hclaim, -⟩ := @alone_claimExecution_first (readDesk id t.store) request.key
    (claimTime id t.store) request.leaseSeconds hnone fun _ e he => hfresh e he
  obtain ⟨d', row, topic, payload, hphase, -⟩ :=
    alone_claimPhase_ok (d := claimDesk id t.store) hready hclaim
  rw [run_of_claimed hphase]

/-- Rows that agree in a unique column are at most one. -/
theorem single_of_nodup {α β : Type} {f : α → β} {table rows : List α}
    (hnodup : (table.map f).Nodup) (hrows : rows.Sublist table)
    (hall : ∀ x ∈ rows, ∀ y ∈ rows, f x = f y) : rows = [] ∨ ∃ x, rows = [x] := by
  have hnodup' : (rows.map f).Nodup := (hrows.map f).nodup hnodup
  match rows with
  | [] => exact Or.inl rfl
  | [x] => exact Or.inr ⟨x, rfl⟩
  | x :: y :: rest =>
      have heq := hall x List.mem_cons_self y (List.mem_cons_of_mem x List.mem_cons_self)
      rw [List.map_cons, List.map_cons, heq] at hnodup'
      exact absurd List.mem_cons_self (List.nodup_cons.1 hnodup').1

/-- A claim with a rival does not run as if its tenant were alone. -/
theorem not_separated (ht : t.store.UniqueKeys) (hready : ReadyClaim request intent t.store)
    (hkey : request.key.tenantId = tenantId) (hfree : ∃ id : UUID, ∀ e ∈ t.store.executions, e.id ≠ id)
    {r : Execution} (hr : r ∈ found request t.store) (hrival : r.key.tenantId ≠ tenantId) :
    ¬ Separated rt tenantId (.claim request) t := by
  intro h
  obtain ⟨id, hfree⟩ := hfree
  have hready' : ReadyClaim request intent (t.rowsOf tenantId).store :=
    { hready with found := (Store.intent?_keep (ownKey hkey)).trans hready.found }
  have hown : ∀ e ∈ found request (t.rowsOf tenantId).store,
      e ∈ found request t.store ∧ e.key.tenantId = tenantId := by
    intro e he
    obtain ⟨hmem, hmatch⟩ := List.mem_filter.1 he
    obtain ⟨hmem, htenant⟩ := List.mem_filter.1 hmem
    exact ⟨List.mem_filter.2 ⟨hmem, hmatch⟩, of_decide_eq_true htenant⟩
  have hkeyOf : ∀ e ∈ found request (t.rowsOf tenantId).store, e.key = request.key := by
    intro e he
    obtain ⟨hmem, htenant⟩ := hown e he
    obtain ⟨hintent, hrevision⟩ := of_decide_eq_true (List.mem_filter.1 hmem).2
    show RevisionKey.mk e.key.tenantId e.key.intentId e.key.revision = _
    rw [htenant, hintent, hrevision, ← hkey]
  have hsub : (found request t.store).Sublist t.store.executions := List.filter_sublist
  have hfree' : ∀ e ∈ (t.rowsOf tenantId).store.executions, e.id ≠ id := fun e he =>
    hfree e (List.mem_of_mem_filter he)
  obtain ⟨hout, -, hothers, -⟩ := h 0 0 (fun _ => cancelledMoment id) (fun _ => hfree) fun _ => hfree'
  have hsame : (cancelledRun rt request id t).1 = (cancelledRun rt request id (t.rowsOf tenantId)).1 :=
    hout
  by_cases hmany : ∃ y ∈ found request t.store, y ≠ r
  · -- Both rows are found, where the tenant alone has at most one.
    obtain ⟨y, hy, hne⟩ := hmany
    rw [run_many hready hy hr hne] at hsame
    have hsingle : found request (t.rowsOf tenantId).store = [] ∨
        ∃ x, found request (t.rowsOf tenantId).store = [x] := by
      refine single_of_nodup (f := (·.key)) ht.executions
        (List.filter_sublist.trans List.filter_sublist) fun x hx z hz => ?_
      exact (hkeyOf x hx).trans (hkeyOf z hz).symm
    rcases hsingle with hnone | ⟨x, hx⟩
    · rw [run_first hready' hnone hfree'] at hsame
      cases hsame
    · by_cases hlive : ClaimedAt x (claimTime id (t.rowsOf tenantId).store)
      · rw [run_live hready' hx hlive] at hsame
        cases hsame
      · obtain ⟨expires, s', hrun, -⟩ := @run_retaken rt request _ id _ _ hready' hx hlive
        rw [hrun] at hsame
        cases hsame
  · -- The row of the rival is the only one: the tenant alone has none.
    push Not at hmany
    have hnone : found request (t.rowsOf tenantId).store = [] := by
      refine List.eq_nil_iff_forall_not_mem.2 fun e he => ?_
      obtain ⟨hmem, htenant⟩ := hown e he
      rw [hmany e hmem] at htenant
      exact hrival htenant
    have hone : found request t.store = [r] := by
      rcases single_of_nodup (f := (·.id)) ht.executionIds hsub
        (fun x hx y hy => by rw [hmany x hx, hmany y hy]) with hnil | ⟨x, hx⟩
      · rw [hnil] at hr
        cases hr
      · rw [hx] at hr
        rw [hx, List.mem_singleton.1 hr]
    rw [run_first hready' hnone hfree'] at hsame
    by_cases hlive : ClaimedAt r (claimTime id t.store)
    · rw [run_live hready hone hlive] at hsame
      cases hsame
    · -- Its row is taken over.
      obtain ⟨expires, s', hrun, hexecutions⟩ := @run_retaken rt request _ id _ _ hready hone hlive
      have hchanged : (cancelledRun rt request id t).2.rowsOfOthers tenantId =
          t.store.rowsOfOthers tenantId := hothers
      rw [hrun] at hchanged
      have hmap : ((t.store.rowsOfOthers tenantId).executions.map fun e =>
          if e.id = r.id then Execution.merge r (retaken r expires) e else e) =
            (t.store.rowsOfOthers tenantId).executions := by
        refine Eq.trans ?_ (congrArg Store.executions hchanged)
        show _ = s'.executions.filter _
        rw [hexecutions]
        refine (Store.filter_map_same fun e => ?_).symm
        split <;> rfl
      have hmem : r ∈ (t.store.rowsOfOthers tenantId).executions :=
        List.mem_filter.2 ⟨hsub.subset hr, decide_eq_true hrival⟩
      have hfixed := List.map_inj_left.1 (hmap.trans (List.map_id _).symm) r hmem
      rw [if_pos rfl] at hfixed
      have hattempt : changed r.attempt (r.attempt + 1) r.attempt = r.attempt :=
        congrArg Execution.attempt hfixed
      unfold changed at hattempt
      rw [if_neg (by omega)] at hattempt
      omega

end Rival

/-! ## The operations of a tenant -/

section Tenants

variable {rt : Runtime} {tenantId : String} {op : TenantOp} {t t' : Tables}

/-- Operations that meet no rival come out the same on tables that agree on the tenant's rows. -/
theorem sameInBoth_of_agree (ht : t.store.UniqueKeys) (ht' : t'.store.UniqueKeys)
    (hop : op.RunsFor tenantId t.store) (hagree : t'.rowsOf tenantId = t.rowsOf tenantId)
    (hcross : ¬ Crosses tenantId t.store op) (hcross' : ¬ Crosses tenantId t'.store op) :
    SameInBoth rt tenantId op t t' := by
  cases op with
  | decide command =>
      exact sameInBoth_of_blind rfl rfl (blind_getSession (blind_decide hop.1 hop.2.1)) ht ht' hagree
  | cancel command =>
      exact sameInBoth_of_blind rfl rfl (blind_getSession (blind_cancel hop.1 hop.2.1)) ht ht' hagree
  | getIntent actor intentId =>
      exact sameInBoth_of_blind rfl rfl (blind_getSession (blind_getIntent hop)) ht ht' hagree
  | getEvents actor intentId query =>
      have haudit : (t'.audit.filter fun row => row.tenantId = actor.tenantId) =
          t.audit.filter fun row => row.tenantId = actor.tenantId := by
        rw [show actor.tenantId = tenantId from hop]
        exact congrArg Tables.audit hagree
      refine sameInBoth_of_blind rfl ?_ (blind_getSession (blind_getEvents hop)) ht ht' hagree
      show Reply.body <$> getSession (Api.getEvents rt t'.audit actor intentId query) = _
      rw [getEvents_audit haudit]
  | claim request =>
      have hkey : request.key.tenantId = tenantId := hop.1
      have hstore : t'.store.rowsOf tenantId = t.store.rowsOf tenantId := congrArg Tables.store hagree
      have hintent : t'.store.intent? request.key = t.store.intent? request.key := by
        have hkeep : ∀ s : Store, (s.rowsOf tenantId).intent? request.key = s.intent? request.key :=
          fun s => Store.intent?_keep (ownKey hkey)
        rw [← hkeep t'.store, hstore, hkeep]
      -- Only a claim of a ready intent comes to the executions, and there it meets no row of another tenant.
      by_cases hready : ∃ i, t.store.intent? request.key = some i ∧
          (i.state = .autoApproved ∨ i.state = .approved)
      · have hrival : ∀ u : Tables, u.store.intent? request.key = t.store.intent? request.key →
            ¬ Crosses tenantId u.store (.claim request) →
            NoRival (u.store.rowsOfOthers tenantId) request.key := by
          intro u hu hno e he hmatch
          obtain ⟨he, hother⟩ := List.mem_filter.1 he
          exact hno ⟨hu ▸ hready, e, he, of_decide_eq_true hother, hmatch⟩
        exact sameInBoth_of_blind rfl rfl
          (blind_claimCall hkey (hrival t rfl hcross) (hrival t' hintent hcross')) ht ht' hagree
      · exact sameInBoth_of_unready hready hintent hagree

theorem uniqueKeys_rowsOf {s : Store} (h : s.UniqueKeys) : (s.rowsOf tenantId).UniqueKeys where
  intents := (List.filter_sublist.map _).nodup h.intents
  transitions := (List.filter_sublist.map _).nodup h.transitions
  commands := (List.filter_sublist.map _).nodup h.commands
  risks := (List.filter_sublist.map _).nodup h.risks
  policies := (List.filter_sublist.map _).nodup h.policies
  approvals := ((List.filter_sublist.filter _).map _).nodup h.approvals
  executionIds := (List.filter_sublist.map _).nodup h.executionIds
  executions := (List.filter_sublist.map _).nodup h.executions
  operations := (List.filter_sublist.map _).nodup h.operations
  outbox := (List.filter_sublist.map _).nodup h.outbox
  idempotency := (List.filter_sublist.map _).nodup h.idempotency
  assignmentIds := (List.filter_sublist.map _).nodup h.assignmentIds
  grants := ((List.filter_sublist.filter _).map _).nodup h.grants
  bundleIds := (List.filter_sublist.map _).nodup h.bundleIds
  activeBundles := ((List.filter_sublist.filter _).map _).nodup h.activeBundles

/-- The key of a row of the tenant refers to an intent of the tenant. -/
theorem mem_intents_rowsOf {s : Store} {k : RevisionKey} (h : k ∈ s.intents.map (·.key))
    (hk : (Decidable.decide (k.tenantId = tenantId) : Bool) = true) :
    k ∈ (s.rowsOf tenantId).intents.map (·.key) := by
  obtain ⟨i, hi, rfl⟩ := List.mem_map.1 h
  exact List.mem_map_of_mem (List.mem_filter.2 ⟨hi, hk⟩)

/-- The rows of a tenant are a store that the program can fill. -/
theorem Deployed.rowsOf {s : Store} (h : Deployed s) : Deployed (s.rowsOf tenantId) where
  toUniqueKeys := uniqueKeys_rowsOf h.toUniqueKeys
  transitionOf := fun r hr => mem_intents_rowsOf
    (h.transitionOf r (List.mem_of_mem_filter hr)) (List.mem_filter.1 hr).2
  riskOf := fun r hr => mem_intents_rowsOf
    (h.riskOf r (List.mem_of_mem_filter hr)) (List.mem_filter.1 hr).2
  policyOf := fun r hr => mem_intents_rowsOf
    (h.policyOf r (List.mem_of_mem_filter hr)) (List.mem_filter.1 hr).2
  decisionOf := fun r hr => mem_intents_rowsOf
    (h.decisionOf r (List.mem_of_mem_filter hr)) (List.mem_filter.1 hr).2
  executionOf := fun r hr => mem_intents_rowsOf
    (h.executionOf r (List.mem_of_mem_filter hr)) (List.mem_filter.1 hr).2
  revisions := fun i hi => h.revisions i (List.mem_of_mem_filter hi)
  versions := fun i hi => h.versions i (List.mem_of_mem_filter hi)
  levels := fun d hd => h.levels d (List.mem_of_mem_filter hd)
  attempts := fun e he => h.attempts e (List.mem_of_mem_filter he)
  tenants := fun i hi => h.tenants i (List.mem_of_mem_filter hi)
  operationKeys := fun e he => h.operationKeys e (List.mem_of_mem_filter he)
  free := by
    obtain ⟨id, hid⟩ := h.free
    exact ⟨id, fun e he => hid e (List.mem_of_mem_filter he)⟩

theorem rowsOf_rowsOf (t : Tables) : (t.rowsOf tenantId).rowsOf tenantId = t.rowsOf tenantId := by
  unfold Tables.rowsOf Store.rowsOf Store.keep
  simp only [List.filter_filter, Bool.and_self]

/-- A tenant that is alone has no rival. -/
theorem not_crosses_rowsOf (s : Store) : ¬ Crosses tenantId (s.rowsOf tenantId) op := by
  cases op with
  | claim request =>
      rintro ⟨-, e, he, hother, -⟩
      exact hother (of_decide_eq_true (List.mem_filter.1 he).2)
  | _ => exact id

/-- An operation of a tenant runs as if the tenant were alone unless it is a claim with a rival; and
two tables on which it is none, and which agree on the tenant's rows, give the same. -/
theorem tenants_are_separate (ht : Deployed t.store) (hop : op.RunsFor tenantId t.store) :
    (Separated rt tenantId op t ↔ ¬ Crosses tenantId t.store op) ∧
      ∀ t' : Tables, Deployed t'.store → op.RunsFor tenantId t'.store →
        t'.rowsOf tenantId = t.rowsOf tenantId → ¬ Crosses tenantId t.store op →
        ¬ Crosses tenantId t'.store op → SameInBoth rt tenantId op t t' := by
  refine ⟨⟨fun hsep hcross => ?_, fun hcross => ?_⟩, fun t' ht' _ hagree hcross hcross' => ?_⟩
  · cases op with
    | claim request =>
        obtain ⟨⟨i, hi, hstate⟩, r, hr, hrival, hmatch⟩ := hcross
        obtain ⟨hkey, hworker, ⟨id, hid⟩, -⟩ := hop
        have hmem : i ∈ t.store.intents := List.mem_of_find?_eq_some hi
        have hready : ReadyClaim request i t.store :=
          { found := hi
            state := hstate
            worker := hworker
            command := by rw [hid]; exact storableText_hex id
            tenant := storableText_of_fits (ht.tenants i hmem) }
        have hfound : r ∈ found request t.store := List.mem_filter.2 ⟨hr, decide_eq_true hmatch⟩
        exact not_separated ht.toUniqueKeys hready hkey ht.free hfound hrival hsep
    | _ => exact hcross
  · exact sameInBoth_of_agree ht.toUniqueKeys (uniqueKeys_rowsOf ht.toUniqueKeys) hop
      (rowsOf_rowsOf t) hcross (not_crosses_rowsOf t.store)
  · exact sameInBoth_of_agree ht.toUniqueKeys ht'.toUniqueKeys hop hagree hcross hcross'

end Tenants

/-! ## Two tenants with one intent identifier -/

/-- A revision of the intent of a tenant. -/
def revisionOf (tenantId : String) (revision : Nat) (state : IntentState) : ActionIntent :=
  { key := ⟨tenantId, Scenario.intentId, revision⟩
    tool := .inspectService
    canonicalParameters := Scenario.parameters
    intentDigest := ""
    requesterId := "rachel"
    requesterRationale := ""
    rawProposal := none
    source := .direct
    state
    stateVersion := 3
    approvalExpiresAt := none }

/-- Two approved revisions of `acme`, and a revision of `globex` whose execution is claimed. -/
def sharedTables : Tables where
  store := { Store.empty with
    intents := [revisionOf "acme" 1 .approved, revisionOf "acme" 2 .approved,
      revisionOf "globex" 1 .revalidating]
    executions := [claimedExecution Scenario.freshId ⟨"globex", Scenario.intentId, 1⟩ 60] }
  audit := []

/-- The claim of a revision of `acme`. -/
def acmeClaim (revision : Nat) : TenantOp :=
  .claim ⟨⟨"acme", Scenario.intentId, revision⟩, "execution-worker", Scenario.freshId.hex,
    Scenario.seedBundle.bundle, 60⟩

theorem deployed_shared : Deployed sharedTables.store where
  intents := by decide
  transitions := List.nodup_nil
  commands := List.nodup_nil
  risks := List.nodup_nil
  policies := List.nodup_nil
  approvals := List.nodup_nil
  executionIds := List.nodup_singleton _
  executions := List.nodup_singleton _
  operations := List.nodup_singleton _
  outbox := List.nodup_nil
  idempotency := List.nodup_nil
  assignmentIds := List.nodup_nil
  grants := List.nodup_nil
  bundleIds := List.nodup_nil
  activeBundles := List.nodup_nil
  transitionOf := fun r hr => absurd hr List.not_mem_nil
  riskOf := fun r hr => absurd hr List.not_mem_nil
  policyOf := fun r hr => absurd hr List.not_mem_nil
  decisionOf := fun r hr => absurd hr List.not_mem_nil
  executionOf := by decide
  revisions := by decide
  versions := by decide
  levels := fun r hr => absurd hr List.not_mem_nil
  attempts := by decide
  tenants := by decide
  operationKeys := by decide
  free := ⟨Scenario.intentId, by decide⟩

theorem acmeClaim_runsFor (revision : Nat) :
    (acmeClaim revision).RunsFor "acme" sharedTables.store := by
  have hworker : fits 255 "execution-worker" = true := by decide
  exact ⟨rfl, hworker, ⟨Scenario.freshId, rfl⟩, fun r hr => absurd hr List.not_mem_nil⟩

/-- The second revision has no rival. -/
theorem tenants_are_separate_shared :
    Separated Scenario.runtime "acme" (acmeClaim 2) sharedTables := by
  refine (tenants_are_separate deployed_shared (acmeClaim_runsFor 2)).1.2 ?_
  rintro ⟨-, r, hr, -, -, hrevision⟩
  rw [List.mem_singleton.1 hr] at hrevision
  cases hrevision

/-- The first revision has one: its claim is refused for the live execution of the other tenant, and
not when `acme` is alone. -/
theorem rival_decides_claim :
    ¬ ∀ (op : TenantOp) (t t' : Tables), Deployed t.store → Deployed t'.store →
      op.RunsFor "acme" t.store → op.RunsFor "acme" t'.store →
      t'.rowsOf "acme" = t.rowsOf "acme" → SameInBoth Scenario.runtime "acme" op t t' := by
  intro h
  have hsep : Separated Scenario.runtime "acme" (acmeClaim 1) sharedTables := by
    refine h _ _ _ deployed_shared deployed_shared.rowsOf (acmeClaim_runsFor 1) ?_ (rowsOf_rowsOf _)
    obtain ⟨hkey, hworker, hid, -⟩ := acmeClaim_runsFor 1
    exact ⟨hkey, hworker, hid, fun r hr => absurd hr List.not_mem_nil⟩
  have hready : ReadyClaim ⟨⟨"acme", Scenario.intentId, 1⟩, "execution-worker", Scenario.freshId.hex,
      Scenario.seedBundle.bundle, 60⟩ (revisionOf "acme" 1 .approved) sharedTables.store := by
    refine ⟨rfl, Or.inr rfl, ?_, storableText_hex _, ?_⟩
    · decide
    · decide
  have hrival : claimedExecution Scenario.freshId ⟨"globex", Scenario.intentId, 1⟩ 60 ∈
      found ⟨⟨"acme", Scenario.intentId, 1⟩, "execution-worker", Scenario.freshId.hex,
        Scenario.seedBundle.bundle, 60⟩ sharedTables.store := List.mem_singleton_self _
  exact not_separated deployed_shared.toUniqueKeys hready rfl deployed_shared.free hrival (by decide)
    hsep

end HitlOps.Properties
