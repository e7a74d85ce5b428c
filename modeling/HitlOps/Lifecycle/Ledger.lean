import HitlOps.Lifecycle.Bookkeeping
import HitlOps.Transaction.Span

/-!
# The lifecycle programs keep the books

Each program of a claim, an execution, a reconciliation and a recovery is checked against `filing`.
What a program hands to the next one is stated as a fact of the history: a permit is `Permitted`
when it carries the operation key of its revision and the identifier of a row that was shown.
-/

set_option autoImplicit false

namespace HitlOps.Lifecycle

open HitlOps.Python HitlOps.Domain HitlOps.Infrastructure HitlOps.Application HitlOps.Adapters
open HitlOps.Transaction

section Ledger

variable {rt : Runtime} {Due : List (Obs Db) → UUID → Prop} {α : Type} {h : List (Obs Db)}

/-! ## Claims -/

/-- `h'` comes from `h` by the writes of a claim of `k` that rest on the store `σ`. -/
structure Claimed (h h' : List (Obs Db)) (k : RevisionKey) : Prop extends Keeps h h' where
  entered : entered h' = []
  escalated : escalated h' = []
  twins : Twins (History.writes h')
  filed : ∃ σ keys, (σ, keys) ∈ booksRead h' ∧ .intent k ∈ keys ∧ Claims σ k (filed h')
  asked : askedFor h' = none

theorem bw_insertExecution (hb : Begun h) {k : RevisionKey} {id : UUID} {expires : Time}
    {Q : Except Error Unit → List (Obs Db) → Prop} (hQ : ∀ x h', Q (.error x) h')
    (hok : ∀ h', Keeps h h' → entered h' = [] → escalated h' = [] →
      Twins (History.writes h') → filed h' = [.insertExecution (claimedExecution id k expires)] →
      askedFor h' = none → Q (.ok ()) h') :
    (filing rt Due).wp (insertExecution (claimedExecution id k expires)) Q h := by
  refine Watch.wp_bind ⟨⟨rfl, rfl⟩, fun r _ => ?_⟩
  cases r with
  | false => exact hQ _ _
  | true =>
      refine hok _ (keeps_cons (o := (.did (.insert _ _) true : Obs Db)) trivial h) hb.entered ?_
        ((twins_of_unwritten hb.toUnwritten).append rfl rfl) ?_ hb.asked
      · show (History.writes h ++ [_]).filterMap handOver? = []
        rw [hb.writes]
        rfl
      · show (History.writes h ++ [_]).filter filesExecution = _
        rw [hb.writes]
        rfl

theorem bw_claimExecution (hb : Begun h) {k : RevisionKey} {dbNow : Time} {leaseSeconds : Nat}
    (hheld : .intent k ∈ History.held h) {Q : Except Error Unit → List (Obs Db) → Prop}
    (hQ : ∀ x h', Q (.error x) h') (hok : ∀ h', Claimed h h' k → Q (.ok ()) h') :
    (filing rt Due).wp (claimExecution k dbNow leaseSeconds) Q h := by
  refine Watch.wp_bind (bw_query hb.toUnwritten _ fun σ h₁ hn _ hread _ => ?_)
  have hb₁ := hb.notes hn
  have hheld₁ := hn.held _ hheld
  match hfound : σ.executionsOf k.intentId k.revision with
  | [] =>
      refine Watch.wp_bind ⟨trivial, fun id _ => ?_⟩
      have hn₂ := notes_cons (o := (.did (.draw .uuid) id : Obs Db)) ⟨trivial, trivial⟩ h₁
      refine bw_insertExecution (hb₁.notes hn₂) hQ
        fun h₃ hk hentered hescalated ht hfiled hasked => ?_
      refine hok h₃ ⟨hn.toKeeps.trans (hn₂.toKeeps.trans hk), hentered, hescalated, ht,
        ⟨σ, _, hk.reads _ (hn₂.reads _ hread), hheld₁, ?_⟩, hasked⟩
      rw [hfiled]
      exact .first _ _ hfound
  | [x] =>
      refine Watch.wp_ite (fun _ => hQ _ _) fun _ => ?_
      refine bw_updateExecution hQ fun h₂ hf => ?_
      refine hok h₂ ⟨hn.toKeeps.trans hf.toKeeps, hf.entered.trans hb₁.entered,
        hf.escalated.trans (escalated_of_unwritten hb₁.toUnwritten),
        hf.twins (twins_of_unwritten hb₁.toUnwritten),
        ⟨σ, _, hf.reads _ hread, hheld₁, ?_⟩, hf.asked.trans hb₁.asked⟩
      rw [hf.filed, filed_of_unwritten hb₁.toUnwritten]
      exact .again x _ hfound rfl
  | x :: y :: rest => exact hQ _ _

theorem bw_claimPhase (hb : Begun h) (request : ClaimRequest)
    {Q : Except Error ActionIntent → List (Obs Db) → Prop} (hQ : ∀ x h', Q (.error x) h')
    (hok : ∀ a h', Settled rt h' → Q (.ok a) h') :
    (filing rt Due).wp (claimPhase request) Q h := by
  refine Watch.wp_bind (bw_lockIntentNowait hb.toUnwritten request.key (fun h' _ => hQ _ h')
    (fun t h' _ => hQ _ h') fun σ a t h₁ hn hread hheld ha => ?_)
  refine Watch.wp_ite (fun _ => hQ _ _) fun _ => ?_
  refine Watch.wp_bind (bw_claimExecution (hb.notes hn) hheld hQ fun h₂ hc => ?_)
  refine bw_appendTransition (by decide) hQ fun t' h₃ he => ?_
  obtain ⟨σ', keys, hσ', hkey, hfiled⟩ := hc.filed
  refine hok _ _ ⟨.claim request.key t' σ' keys (he.reads _ hσ') hkey ?_ ?_ he.toState ?_ ?_
    (he.asked.trans hc.asked), he.twins hc.twins⟩
  · rw [he.entered, hc.entered]
    rfl
  · rw [he.key, key_of_intent? ha]
  · rw [he.escalated, hc.escalated]
  · rw [he.filed]
    exact hfiled

/-! ## Gates -/

/-- What the gates leave behind: a state without a permit, or the row with its new snapshot. -/
def GatesOf (x : Execution) : Gates → Prop
  | .failed state _ => state = .stale ∨ state = .expired
  | .passed y => ∃ snapshot, y = { x with preconditionSnapshot := some snapshot }

theorem gatesOf_policyAndTarget {a : ActionIntent} {stored : PolicyEvaluation}
    {bundle : PolicyBundle} {snapshot : TargetSnapshot} {x : Execution} {gates : Gates}
    (h : policyAndTarget rt a stored bundle snapshot x = .ok gates) : GatesOf x gates := by
  cases hcurrent : evaluatePolicy rt a.tool (evaluateRisk a.tool a.canonicalParameters {})
      a.canonicalParameters bundle with
  | error e =>
      simp only [policyAndTarget, hcurrent, bind, Except.bind] at h
      cases h
  | ok current =>
      simp only [policyAndTarget, hcurrent, bind, Except.bind] at h
      split at h
      · cases h
        exact Or.inl rfl
      · split at h
        · cases h
          exact Or.inl rfl
        · split at h
          · cases h
            exact Or.inl rfl
          · cases h
            exact ⟨_, rfl⟩

theorem looks_approverFailureReason {F : Application.Source → Prop} (tenantId actorId : String)
    (roles scopes : List String) (t : Time) (environment : Option Json) :
    (approverFailureReason tenantId actorId roles scopes t environment).Uses (Prog.Looks (D := Db) F)
      fun _ => False :=
  Prog.Uses.bind (Prog.uses_query trivial) fun _ => trivial

theorem looks_countAuthorized {F : Application.Source → Prop} (a : ActionIntent)
    (roles scopes : List String) (dbNow : Time) (decisions : List ApprovalDecisionRow) (n : Nat)
    (last : Option String) :
    (countAuthorized a roles scopes dbNow decisions n last).Uses (Prog.Looks (D := Db) F)
      fun _ => False := by
  induction decisions generalizing n last with
  | nil => exact trivial
  | cons d rest ih =>
      refine (looks_approverFailureReason _ _ _ _ _ _).bind fun r => ?_
      cases r with
      | none => exact ih _ _
      | some reason => exact ih _ _

theorem looks_criticalLevels {F : Application.Source → Prop} (a : ActionIntent)
    (decisions : List ApprovalDecisionRow) (roles scopes : List String) (dbNow : Time) :
    (criticalLevelsFailureReason a decisions roles scopes dbNow).Uses (Prog.Looks (D := Db) F)
      fun _ => False := by
  unfold criticalLevelsFailureReason
  split
  · refine Prog.uses_ite (fun _ => trivial) fun _ => ?_
    refine (looks_approverFailureReason _ _ _ _ _ _).bind fun r => ?_
    cases r with
    | some reason => exact trivial
    | none => exact looks_approverFailureReason _ _ _ _ _ _
  · exact trivial

/-- The second gate behind its scan of the decisions. -/
def judgeDecisions (a : ActionIntent) (policy : PolicyEvaluation) (dbNow : Time)
    (decisions : List ApprovalDecisionRow) : M (Option String) :=
  if policy.route = .criticalTwoStep then
    criticalLevelsFailureReason a decisions policy.requiredRoles policy.requiredScopes dbNow
  else do
    let (authorized, last) ← countAuthorized a policy.requiredRoles policy.requiredScopes dbNow
      decisions 0 none
    if authorized < 1 then return some (last.getD "approver_no_longer_authorized")
    else return none

theorem approvalsFailureReason_eq (a : ActionIntent) (policy : PolicyEvaluation) (dbNow : Time) :
    approvalsFailureReason a policy dbNow = if policy.route = .none then return none
      else scan (fun s => (s.decisionsOf a.key).filter fun d => d.decision = .approve) >>=
        judgeDecisions a policy dbNow := rfl

theorem looks_judgeDecisions {F : Application.Source → Prop} (a : ActionIntent)
    (policy : PolicyEvaluation) (dbNow : Time) (decisions : List ApprovalDecisionRow) :
    (judgeDecisions a policy dbNow decisions).Uses (Prog.Looks (D := Db) F) fun _ => False := by
  refine Prog.uses_ite (fun _ => looks_criticalLevels _ _ _ _ _) fun _ => ?_
  refine (looks_countAuthorized _ _ _ _ _ _ _).bind fun r => ?_
  exact Prog.uses_ite (fun _ => trivial) fun _ => trivial

/-- The second gate looks around, draws the order of its scan, and raises nothing. -/
theorem looks_approvalsFailureReason (a : ActionIntent) (policy : PolicyEvaluation)
    (dbNow : Time) : (approvalsFailureReason a policy dbNow).Uses
      (Prog.Looks (D := Db) (· = Application.Source.order)) fun _ => False := by
  rw [approvalsFailureReason_eq]
  refine Prog.uses_ite (fun _ => trivial) fun _ => ?_
  have hscan : ∀ q : Store → List ApprovalDecisionRow, (scan q).Uses
      (Prog.Looks (D := Db) (· = Application.Source.order)) fun _ => False := fun q =>
    Prog.Uses.bind (Prog.uses_query trivial) fun _ =>
      Prog.Uses.bind (Prog.uses_draw rfl) fun _ => trivial
  exact (hscan _).bind fun decisions => looks_judgeDecisions _ _ _ _

theorem reads_approvalsFailureReason (a : ActionIntent) (policy : PolicyEvaluation)
    (dbNow : Time) : (approvalsFailureReason a policy dbNow).Uses Reading fun _ => True := by
  refine (looks_approvalsFailureReason a policy dbNow).mono (fun st hst => ?_) fun _ _ => trivial
  cases st with
  | select => exact trivial
  | draw o => exact trivial
  | _ => exact hst.elim

theorem bw_revalidateGates (hb : Begun h) {a : ActionIntent} {x : Execution} {dbNow : Time}
    {bundle : PolicyBundle} {snapshot : TargetSnapshot}
    {Q : Except Error Gates → List (Obs Db) → Prop} (hQ : ∀ e h', Q (.error e) h')
    (hok : ∀ gates h', Notes h h' → GatesOf x gates → Q (.ok gates) h') :
    (filing rt Due).wp (revalidateGates rt a x dbNow bundle snapshot) Q h := by
  refine Watch.wp_ite (fun _ => hok _ h (.refl h) (Or.inl rfl)) fun _ => ?_
  refine Watch.wp_bind (bw_query hb.toUnwritten _ fun σ h₁ hn₁ _ _ _ => ?_)
  refine Watch.wp_bind (bw_reading (reads_scalarOne _) fun r h₂ hn₂ => ?_)
  have hn := hn₁.trans hn₂
  cases r with
  | error e => exact hQ e h₂
  | ok policy =>
      refine Watch.wp_ite (fun _ => hok _ h₂ hn (Or.inr rfl)) fun _ => ?_
      refine Watch.wp_bind (bw_reading (reads_approvalsFailureReason _ _ _) fun r h₃ hn₃ => ?_)
      match r with
      | .error e => exact hQ e h₃
      | .ok (some reason) => exact hok _ h₃ (hn.trans hn₃) (Or.inl rfl)
      | .ok none =>
          show (filing rt Due).wp (ofExcept _) Q h₃
          cases hgates : policyAndTarget rt a policy.evaluation bundle snapshot x with
          | error e => exact hQ e h₃
          | ok gates => exact hok gates h₃ (hn.trans hn₃) (gatesOf_policyAndTarget hgates)

/-! ## Permits and failures -/

/-- A permit has the operation key of its revision and names a row that was shown. -/
structure Permitted (h : List (Obs Db)) (permit : ExecutionPermit) : Prop where
  operationKey : permit.operationKey = operationKeyFor permit.key
  located : Located h permit.key permit.executionId

theorem Permitted.suffix {h h' : List (Obs Db)} {permit : ExecutionPermit}
    (hp : Permitted h permit) (hs : h <:+ h') : Permitted h' permit :=
  ⟨hp.operationKey, hp.located.suffix hs⟩

/-- A claim that was opened again: the row lock is held and the execution row is known. -/
structure Reopened (h : List (Obs Db)) (k : RevisionKey) (a : ActionIntent) (x : Execution) :
    Prop where
  begun : Begun h
  key : a.key = k
  source : Source h k x
  located : Located h k x.id

theorem Reopened.notes {h h' : List (Obs Db)} {k : RevisionKey} {a : ActionIntent} {x : Execution}
    (hr : Reopened h k a x) (hn : Notes h h') : Reopened h' k a x :=
  ⟨hr.begun.notes hn, hr.key, hr.source.keeps hn.toKeeps, hr.located.keeps hn.toKeeps⟩

theorem bw_reopenClaim (hb : Begun h) (request : ClaimRequest)
    {Q : Except Error (ActionIntent × Execution × Time) → List (Obs Db) → Prop}
    (hQ : ∀ x h', Q (.error x) h')
    (hok : ∀ a x t h', Reopened h' request.key a x → Q (.ok (a, x, t)) h') :
    (filing rt Due).wp (reopenClaim request) Q h := by
  refine Watch.wp_bind (bw_lockIntentNowait hb.toUnwritten request.key (fun h' _ => hQ _ h')
    (fun t h' _ => hQ _ h') fun σ a t h₁ hn hread hheld ha => ?_)
  refine Watch.wp_ite (fun _ => hQ _ _) fun _ => ?_
  refine Watch.wp_bind (bw_query (hb.notes hn).toUnwritten _ fun σ₂ h₂ hn₂ _ hread₂ hshown₂ => ?_)
  match hfound : σ₂.executionsOf request.key.intentId request.key.revision with
  | [] => exact hQ _ _
  | x :: y :: rest => exact hQ _ _
  | [x] =>
      have hmem : x ∈ σ₂.executionsOf request.key.intentId request.key.revision := by
        rw [hfound]
        exact List.mem_singleton_self x
      obtain ⟨hrow, hkeys⟩ := List.mem_filter.1 hmem
      obtain ⟨hintent, hrevision⟩ := of_decide_eq_true hkeys
      exact hok a x t h₂ ⟨(hb.notes hn).notes hn₂, key_of_intent? ha,
        .locked σ₂ _ hread₂ (hn₂.held _ hheld) hfound,
        σ₂, hshown₂, x, hrow, rfl, hintent, hrevision⟩

/-- A state that no answer of the provider is asked for. -/
theorem evident_of_ne {k : RevisionKey} {target : IntentState} (hs : target ≠ .succeeded)
    (hf : target ≠ .failed) : Evident h k target := by
  intro outcome hne htarget
  cases outcome with
  | succeeded => exact absurd htarget hs
  | failed => exact absurd htarget hf
  | unknown => exact absurd rfl hne

/-- One transition and one update of the execution row settle a transaction. -/
theorem settled_of_move {h₁ h₂ : List (Obs Db)} {k : RevisionKey} {t : StateTransition}
    {x new : Execution} {target : IntentState} (hb : Unwritten h) (hx : Source h k x)
    (he : Enters h h₁ k target t) (hf : Files h₁ h₂ x new) (htarget : target ≠ .revalidating)
    (hstatus : statusFor target = some new.status) (hattempt : new.attempt = x.attempt)
    (hcount : new.reconcileAttempts = x.reconcileAttempts) (hevident : Evident h k target)
    (hasked : askedFor h = none ∨ askedFor h = some (operationKeyFor k)) : Settled rt h₂ := by
  refine ⟨.move k t x new (hx.keeps (he.toKeeps.trans hf.toKeeps)) ?_ he.key ?_ ?_ ?_ hattempt hcount
    ?_ ?_ ?_, hf.twins (he.twins (twins_of_unwritten hb))⟩
  · rw [hf.entered, he.entered, hb.entered]
    rfl
  · rw [he.toState]
    exact htarget
  · rw [hf.filed, he.filed, filed_of_unwritten hb]
    rfl
  · rw [he.toState]
    exact hstatus
  · intro outcome hne heq
    rw [he.toState] at heq
    rw [hf.answer, he.answer]
    exact hevident outcome hne heq
  · rw [hf.escalated, he.escalated, escalated_of_unwritten hb]
  · rw [hf.asked, he.asked]
    exact hasked

theorem bw_failClaim {request : ClaimRequest} {k : RevisionKey} {a : ActionIntent} {x : Execution}
    {dbNow : Time} {state : IntentState} {reasonCode : String} (hr : Reopened h k a x)
    (hstate : state = .stale ∨ state = .expired)
    {Q : Except Error RevalidationFailure → List (Obs Db) → Prop} (hQ : ∀ e h', Q (.error e) h')
    (hok : ∀ f h', Settled rt h' → Q (.ok f) h') :
    (filing rt Due).wp (failClaim request a x dbNow state reasonCode) Q h := by
  refine Watch.wp_bind (bw_appendTransition (by decide) hQ fun t h₁ he => ?_)
  refine Watch.wp_bind (bw_updateExecution hQ fun h₂ hf => ?_)
  rw [hr.key] at he
  refine hok _ h₂ (settled_of_move hr.begun.toUnwritten hr.source he hf ?_ ?_ rfl rfl ?_
    (Or.inl hr.begun.asked))
  · rcases hstate with rfl | rfl <;> decide
  · rcases hstate with rfl | rfl <;> rfl
  · rcases hstate with rfl | rfl <;> exact evident_of_ne (by decide) (by decide)

theorem bw_issuePermit {request : ClaimRequest} {k : RevisionKey} {a : ActionIntent}
    {x passed : Execution} {dbNow : Time} (hr : Reopened h k a x)
    (hpassed : GatesOf x (.passed passed))
    {Q : Except Error ExecutionPermit → List (Obs Db) → Prop} (hQ : ∀ e h', Q (.error e) h')
    (hok : ∀ p h', Settled rt h' → Permitted h' p → Q (.ok p) h') :
    (filing rt Due).wp (issuePermit rt request a x passed dbNow) Q h := by
  obtain ⟨snapshot, rfl⟩ := hpassed
  refine Watch.wp_bind (bw_appendTransition (by decide) hQ fun t h₁ he => ?_)
  refine Watch.wp_bind (bw_updateExecution hQ fun h₂ hf => ?_)
  refine Watch.wp_bind ⟨trivial, fun _ _ => ?_⟩
  rw [hr.key] at he
  have hkeeps := he.toKeeps.trans hf.toKeeps
  have hnotes : ∀ m, Notes h₂ (.did (.mark m) () :: h₂) := fun m =>
    notes_cons (o := (.did (.mark m) () : Obs Db)) ⟨trivial, trivial⟩ h₂
  refine hok _ _ ?_ ⟨rfl, ?_⟩
  · -- The mark changes nothing of the deed.
    have hf' := fun m => Files.mk (hf.toKeeps.trans (hnotes m).toKeeps) hf.answer hf.asked
      ((hnotes m).entered.trans hf.entered) hf.filed hf.escalated hf.twins
    exact settled_of_move hr.begun.toUnwritten hr.source he (hf' _) (by decide) rfl rfl rfl
      (evident_of_ne (by decide) (by decide)) (Or.inl hr.begun.asked)
  · show Located _ a.key x.id
    rw [hr.key]
    exact hr.located.keeps (hkeeps.trans (hnotes _).toKeeps)

/-! ## Claim and revalidation -/

theorem bw_gatePhase (hb : Begun h) (request : ClaimRequest) (snapshot : TargetSnapshot)
    {Q : Except Error (Except RevalidationFailure ExecutionPermit) → List (Obs Db) → Prop}
    (hQ : ∀ e h', Q (.error e) h') (hfail : ∀ f h', Begun h' → Q (.ok (.error f)) h')
    (hok : ∀ p h', Begun h' → Permitted h' p → Q (.ok (.ok p)) h') :
    (filing rt Due).wp (gatePhase rt request snapshot) Q h := by
  refine bw_transaction (fun x h' _ _ => hQ x h') ?_
  refine Watch.wp_bind (bw_reopenClaim hb request (fun _ _ => trivial) fun a x t h₁ hr => ?_)
  refine Watch.wp_bind (bw_revalidateGates hr.begun (fun _ _ => trivial) fun gates h₂ hn hg => ?_)
  have hr₂ := hr.notes hn
  cases gates with
  | failed state reasonCode =>
      refine Watch.wp_bind (bw_failClaim hr₂ hg (fun _ _ => trivial) fun f h₃ hsettled => ?_)
      exact ⟨hsettled, fun _ hb' => hfail f _ hb'⟩
  | passed passed =>
      refine Watch.wp_bind (bw_issuePermit hr₂ hg (fun _ _ => trivial) fun p h₃ hsettled hp => ?_)
      exact ⟨hsettled, fun _ hb' => hok p _ hb' (hp.suffix (List.suffix_cons _ _))⟩

theorem bw_failAfterFetchFailure (hb : Begun h) (request : ClaimRequest) (reasonCode : String)
    {Q : Except Error RevalidationFailure → List (Obs Db) → Prop} (hQ : ∀ e h', Q (.error e) h')
    (hok : ∀ f h', Begun h' → Q (.ok f) h') :
    (filing rt Due).wp (failAfterFetchFailure request reasonCode) Q h := by
  refine bw_transaction (fun x h' _ _ => hQ x h') ?_
  refine Watch.wp_bind (bw_reopenClaim hb request (fun _ _ => trivial) fun a x t h₁ hr => ?_)
  refine bw_failClaim hr (Or.inl rfl) (fun _ _ => trivial) fun f h₃ hsettled => ?_
  exact ⟨hsettled, fun _ hb' => hok f _ hb'⟩

theorem reads_fetchTarget (tool : ToolName) (parameters : Dict) (attempts : Nat)
    (reason : String) : (fetchTarget tool parameters attempts reason).Uses Reading fun _ => True := by
  induction attempts generalizing reason with
  | zero => exact trivial
  | succ n ih =>
      refine Prog.Uses.bind (Prog.uses_call (S := Reading) trivial) fun answer => ?_
      cases answer with
      | snapshot s => exact trivial
      | timeout => exact ih _
      | error => exact ih _
      | cancelled => exact trivial

theorem bw_claimAndRevalidate (hb : Begun h) (request : ClaimRequest)
    {Q : Except Error (Except RevalidationFailure ExecutionPermit) → List (Obs Db) → Prop}
    (hQ : ∀ e h', Q (.error e) h') (hfail : ∀ f h', Begun h' → Q (.ok (.error f)) h')
    (hok : ∀ p h', Begun h' → Permitted h' p → Q (.ok (.ok p)) h') :
    (filing rt Due).wp (claimAndRevalidate rt request) Q h := by
  refine Watch.wp_bind ⟨trivial, fun _ _ => ?_⟩
  have hn : ∀ m, Notes h (.did (.mark m) () :: h) := fun m =>
    notes_cons (o := (.did (.mark m) () : Obs Db)) ⟨trivial, trivial⟩ h
  refine Watch.wp_handle ?_
  have hQ' : ∀ e h', Watch.orElse (filing rt Due) (fun x =>
      if x = .dbapi true then
        .raise (.stateConflictError "row lock or serialization conflict; retry")
      else .raise x) Q (.error e) h' :=
    fun e h' => Watch.wp_ite (fun _ => hQ _ h') fun _ => hQ e h'
  refine Watch.wp_bind (bw_claimPhase (hb.notes (hn _)) request hQ' fun a h₁ hsettled => ?_)
  refine Watch.wp_bind ⟨hsettled, fun _ _ => ?_⟩
  refine Watch.wp_bind (bw_reading (reads_fetchTarget _ _ _ _) fun r h₂ hn₂ => ?_)
  have hb₂ : Begun h₂ := (begun_commit h₁).notes hn₂
  match r with
  | .error e => exact hQ' e h₂
  | .ok (.error reason) =>
      refine Watch.wp_bind (bw_failAfterFetchFailure hb₂ request reason hQ' fun f h₃ hb₃ => ?_)
      exact hfail f h₃ hb₃
  | .ok (.ok snapshot) => exact bw_gatePhase hb₂ request snapshot hQ' hfail hok

/-! ## Executions -/

theorem targetState_injective {o o' : ExecutionOutcome} (h : targetState o = targetState o') :
    o = o' := by
  cases o <;> cases o' <;> first | rfl | cases h

theorem statusFor_targetState (o : ExecutionOutcome) : statusFor (targetState o) = some o.status := by
  cases o <;> rfl

theorem targetState_ne_revalidating (o : ExecutionOutcome) : targetState o ≠ .revalidating := by
  cases o <;> decide

/-- What is classified as resolved was said by the adapter. -/
theorem tells_of_classifyOutcome {answer : ExecuteAnswer} {outcome : ExecutionOutcome}
    {code : Option String} {tool : ToolName} {command : AdapterCommand}
    (h : classifyOutcome answer = some (outcome, code)) (hne : outcome ≠ .unknown) :
    Tells command.operationKey outcome (.execute tool command) answer := by
  cases answer with
  | result r =>
      obtain ⟨o, ho, heq⟩ := Option.map_eq_some_iff.1 h
      cases heq
      exact ⟨rfl, Or.inl ⟨r, rfl, ho⟩⟩
  | timeout =>
      cases h
      exact absurd rfl hne
  | preSend =>
      cases h
      exact ⟨rfl, Or.inr ⟨rfl, rfl⟩⟩
  | error =>
      cases h
      exact absurd rfl hne
  | cancelled => cases h

theorem lowered_topic_ne (o : ExecutionOutcome) :
    "execution." ++ (targetState o).lowered ≠ exhaustedTopic := by
  cases o <;> decide

theorem bw_recordOutcome (hb : Begun h) {a : ActionIntent} {x : Execution} {tool : ToolName}
    {command : AdapterCommand} {answer : ExecuteAnswer} {workerId commandId : String}
    (hx : Source h a.key x) (hop : command.operationKey = operationKeyFor a.key)
    (hanswer : newestAnswer h = some ⟨.execute tool command, answer⟩)
    {Q : Except Error ExecutionRecord → List (Obs Db) → Prop} (hQ : ∀ e h', Q (.error e) h')
    (hok : ∀ r h', Settled rt h' → Q (.ok r) h') :
    (filing rt Due).wp (recordOutcome rt a x answer workerId commandId) Q h := by
  cases hclass : classifyOutcome answer with
  | none =>
      simp only [recordOutcome, hclass]
      exact hQ _ h
  | some e =>
      obtain ⟨outcome, code⟩ := e
      simp only [recordOutcome, hclass]
      refine Watch.wp_bind ⟨trivial, fun now _ => ?_⟩
      have hn := notes_cons (o := (.did (.draw .now) now : Obs Db)) ⟨trivial, trivial⟩ h
      refine Watch.wp_bind (bw_appendTransition (lowered_topic_ne outcome) hQ fun t h₂ he => ?_)
      refine Watch.wp_bind (bw_updateExecution hQ fun h₃ hf => ?_)
      refine hok _ h₃ (settled_of_move (hb.notes hn).toUnwritten (hx.keeps hn.toKeeps) he hf
        (targetState_ne_revalidating outcome) (statusFor_targetState outcome) rfl rfl ?_
        (Or.inl (hb.notes hn).asked))
      intro outcome' hne heq
      rw [← targetState_injective heq] at hne ⊢
      have htells : Tells command.operationKey outcome (.execute tool command) answer :=
        tells_of_classifyOutcome hclass hne
      rw [hop] at htells
      exact ⟨_, _, hanswer, htells⟩

theorem bw_executePermit (hb : Begun h) {permit : ExecutionPermit} (hp : Permitted h permit)
    {workerId commandId : String} {Q : Except Error ExecutionRecord → List (Obs Db) → Prop}
    (hQ : ∀ e h', Q (.error e) h') (hok : ∀ r h', Settled rt h' → Q (.ok r) h') :
    (filing rt Due).wp (executePermit rt permit workerId commandId) Q h := by
  refine Watch.wp_bind (bw_query hb.toUnwritten _ fun σ h₁ hn₁ _ _ hshown => ?_)
  refine Watch.wp_bind (Watch.wp_orRaise (fun _ => hQ _ h₁) fun x hx => ?_)
  refine Watch.wp_bind (bw_lockIntent (hb.notes hn₁).toUnwritten permit.key hQ fun σ₂ a h₂ hn₂ _ _ ha => ?_)
  refine Watch.wp_ite (fun _ => hQ _ h₂) fun _ => ?_
  refine Watch.wp_bind ⟨trivial, fun answer _ => ?_⟩
  have hkey : a.key = permit.key := key_of_intent? ha
  have hcall : Notes h₂ (extend h₂ (.call (.execute permit.tool (adapterCommand permit))) answer) :=
    (notes_cons (o := (.sent (.execute permit.tool (adapterCommand permit)) : Obs Db))
        ⟨trivial, trivial⟩ h₂).trans
      (notes_cons (o := (.did (.call _) answer : Obs Db)) ⟨trivial, trivial⟩ _)
  have hn := hn₁.toKeeps.trans (hn₂.trans hcall).toKeeps
  refine bw_recordOutcome (((hb.notes hn₁).notes hn₂).notes hcall) ?_ ?_ rfl hQ hok
  · rw [hkey]
    have hid := (id_of_execution? hx).1
    refine .byId σ ((hn₂.trans hcall).shown hshown) ?_ ?_
    · rw [hid]
      exact hx
    · rw [hid]
      exact hp.located.keeps hn
  · rw [hkey]
    exact hp.operationKey

/-! ## Reconciliation -/

/-- The only row of an identifier is a row of its own revision. -/
theorem source_self {σ : Store} {id : UUID} {x : Execution} (hσ : σ ∈ booksShown h)
    (hx : σ.execution? id = some x) : Source h x.key x := by
  obtain ⟨hid, hmem⟩ := id_of_execution? hx
  exact .byId σ hσ (hid ▸ hx) ⟨σ, hσ, x, hmem, rfl, rfl, rfl⟩

theorem bw_keepUnknown (hb : Unwritten h) {x : Execution} {answer : LookupAnswer}
    {commandId : String} {dbNow : Time} (hx : Source h x.key x) (hread : ReadRow h x)
    (hlocked : LockedIn h x.key .executionUnknown) (hasked : askedFor h = some (operationKeyFor x.key))
    {Q : Except Error ReconciliationResult → List (Obs Db) → Prop} (hQ : ∀ e h', Q (.error e) h')
    (hok : ∀ r h', Settled rt h' → Q (.ok r) h') :
    (filing rt Due).wp (keepUnknown rt x (evidenceOf x answer) commandId dbNow) Q h := by
  -- The attempt is counted on both paths; the exhausted one writes a message, too.
  refine Watch.wp_ite (fun hmax => ?_) fun hmax => ?_
  · refine Watch.wp_bind (bw_flush rfl hQ ?_)
    have hk := keeps_write (.insertOutbox "execution.reconciliation_exhausted"
      (exhaustedPayload x (unresolvedExecution rt x (evidenceOf x answer) dbNow).reconcileAttempts
        commandId)) h
    refine Watch.wp_bind (bw_updateExecution hQ fun h₂ hf => ?_)
    have hkeeps := hk.trans hf.toKeeps
    refine hok _ h₂ ⟨.keep x.key x answer dbNow commandId (hx.keeps hkeeps) rfl
      (hread.keeps hkeeps) (hlocked.keeps hkeeps) (hf.asked.trans hasked)
      (hf.entered.trans hb.entered) ?_ ?_,
      hf.twins ((twins_of_unwritten hb).append rfl rfl)⟩
    · rw [hf.filed]
      show (History.writes h ++ [_]).filter filesExecution ++ _ = _
      rw [hb.writes]
      rfl
    · rw [hf.escalated]
      show (History.writes h ++ [_]).filterMap handOver? = _
      rw [hb.writes]
      exact (if_pos hmax).symm
  · refine Watch.wp_bind (bw_updateExecution hQ fun h₂ hf => ?_)
    refine hok _ h₂ ⟨.keep x.key x answer dbNow commandId (hx.keeps hf.toKeeps) rfl
      (hread.keeps hf.toKeeps) (hlocked.keeps hf.toKeeps) (hf.asked.trans hasked)
      (hf.entered.trans hb.entered) ?_ ?_,
      hf.twins (twins_of_unwritten hb)⟩
    · rw [hf.filed, filed_of_unwritten hb]
      rfl
    · rw [hf.escalated, escalated_of_unwritten hb]
      exact (if_neg hmax).symm

theorem bw_resolveOutcome (hb : Unwritten h) {a : ActionIntent} {x : Execution}
    {evidence : AdapterResult} {outcome : ExecutionOutcome} {workerId commandId : String}
    {dbNow : Time} (hx : Source h a.key x) (hne : outcome ≠ .unknown)
    (hevident : Evident h a.key (targetState outcome))
    (hasked : askedFor h = some (operationKeyFor a.key))
    {Q : Except Error ReconciliationResult → List (Obs Db) → Prop} (hQ : ∀ e h', Q (.error e) h')
    (hok : ∀ r h', Settled rt h' → Q (.ok r) h') :
    (filing rt Due).wp (resolveOutcome rt a x evidence outcome workerId commandId dbNow) Q h := by
  have htarget : (if outcome = .succeeded then IntentState.succeeded else .failed) =
      targetState outcome := by
    cases outcome with
    | succeeded => rfl
    | failed => rfl
    | unknown => exact absurd rfl hne
  unfold resolveOutcome
  rw [htarget]
  refine Watch.wp_bind (bw_appendTransition (by decide) hQ fun t h₁ he => ?_)
  refine Watch.wp_bind (bw_updateExecution hQ fun h₂ hf => ?_)
  exact hok _ h₂ (settled_of_move hb hx he hf (targetState_ne_revalidating outcome)
    (statusFor_targetState outcome) rfl rfl hevident (Or.inr hasked))

theorem bw_recordEvidence (hb : Unwritten h) {a : ActionIntent} {x : Execution} {tool : ToolName}
    {provider : Option String} {answer : LookupAnswer} {workerId commandId : String}
    (hkey : a.key = x.key) (hx : Source h x.key x) (hread : ReadRow h x)
    (hlocked : LockedIn h x.key .executionUnknown)
    (hop : x.operationKey = operationKeyFor x.key) (hasked : askedFor h = some (operationKeyFor x.key))
    (hanswer : newestAnswer h = some ⟨.lookupStatus tool x.operationKey provider, answer⟩)
    {Q : Except Error ReconciliationResult → List (Obs Db) → Prop} (hQ : ∀ e h', Q (.error e) h')
    (hok : ∀ r h', Settled rt h' → Q (.ok r) h') :
    (filing rt Due).wp (recordEvidence rt a x answer workerId commandId) Q h := by
  refine Watch.wp_ite (fun _ => hQ _ h) fun hnot => ?_
  refine Watch.wp_bind ⟨trivial, fun now _ => ?_⟩
  have hn := notes_cons (o := (.did (.draw .now) now : Obs Db)) ⟨trivial, trivial⟩ h
  refine Watch.wp_ite (fun _ => ?_) fun hknown => ?_
  · exact bw_keepUnknown (hb.quiet hn.toQuiet) (hx.keeps hn.toKeeps) (hread.keeps hn.toKeeps)
      (hlocked.keeps hn.toKeeps) (hn.asked.trans hasked) hQ hok
  · -- The provider answered with a result whose outcome is not UNKNOWN.
    match answer, hknown, hanswer with
    | .error, hknown, _ => exact absurd (Or.inl rfl) hknown
    | .cancelled, _, _ => exact absurd rfl hnot
    | .result r, hknown, hanswer =>
        have hevidence : evidenceOf x (LookupAnswer.result r) = r := rfl
        rw [hevidence]
        cases hparse : ExecutionOutcome.parse? r.outcome with
        | none => exact hQ _ _
        | some outcome =>
            have hne : outcome ≠ .unknown := by
              rintro rfl
              exact hknown (Or.inr (ExecutionOutcome.eq_of_parse?_unknown hparse))
            have hsource := hx.keeps hn.toKeeps
            have hasked' := hn.asked.trans hasked
            rw [← hkey] at hsource hop hasked'
            refine bw_resolveOutcome (hb.quiet hn.toQuiet) hsource hne ?_ hasked' hQ hok
            intro outcome' hne' heq
            rw [← targetState_injective heq]
            exact ⟨_, _, hanswer, hop, r, rfl, hparse⟩

theorem bw_reconcile (hb : Begun h) {executionId : UUID} {workerId commandId : String}
    (hdue : ∀ h', h <:+ h' → Due h' executionId)
    {Q : Except Error ReconciliationResult → List (Obs Db) → Prop} (hQ : ∀ e h', Q (.error e) h')
    (hok : ∀ r h', Settled rt h' → Q (.ok r) h') :
    (filing rt Due).wp (reconcile rt executionId workerId commandId) Q h := by
  refine Watch.wp_bind (bw_query hb.toUnwritten _ fun σ h₁ hn₁ hkeyed hread₁ hshown => ?_)
  refine Watch.wp_bind (Watch.wp_orRaise (fun _ => hQ _ h₁) fun x hx => ?_)
  obtain ⟨hid, hmem⟩ := id_of_execution? hx
  refine Watch.wp_bind (bw_lockIntent (hb.notes hn₁).toUnwritten x.key hQ
    fun σ₂ a h₂ hn₂ hread hheld ha => ?_)
  refine Watch.wp_ite (fun _ => hQ _ h₂) fun hstate => ?_
  have hb₂ := (hb.notes hn₁).notes hn₂
  have hkey : a.key = x.key := key_of_intent? ha
  have hop : x.operationKey = operationKeyFor x.key := hkeyed x hmem
  have hsource : Source h₂ x.key x := (source_self hshown hx).keeps hn₂.toKeeps
  have hrow : ReadRow h₂ x := ReadRow.keeps ⟨_, hread₁, hid ▸ hx⟩ hn₂.toKeeps
  have hlocked : LockedIn h₂ x.key .executionUnknown :=
    ⟨_, hread, hheld, a, ha, not_not.1 hstate⟩
  have hpolls : Polls Due h₂ x.operationKey :=
    ⟨hb₂.asked, x, hsource, hrow, hop, hlocked, hid ▸ hdue h₂ (hn₁.trans hn₂).suffix⟩
  refine Watch.wp_bind ⟨hpolls, fun answer _ => ?_⟩
  have hcall : Quiet h₂ (extend h₂ (.call (.lookupStatus a.tool x.operationKey
      x.providerOperationId)) answer) :=
    (quiet_cons (o := (.sent _ : Obs Db)) trivial h₂).trans
      (quiet_cons (o := (.did (.call _) answer : Obs Db)) trivial _)
  exact bw_recordEvidence (hb₂.toUnwritten.quiet hcall) hkey (hsource.keeps hcall.toKeeps)
    (hrow.keeps hcall.toKeeps) (hlocked.keeps hcall.toKeeps) hop (congrArg some hop) rfl hQ hok

end Ledger

end HitlOps.Lifecycle
