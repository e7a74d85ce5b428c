import HitlOps.Lifecycle.Dispatch
import HitlOps.Lifecycle.InStep
import HitlOps.Lifecycle.Locking
import HitlOps.Lifecycle.Powers
import HitlOps.Transaction.Commits

/-!
# What a command rests on

Only a worker sends commands, and each command that it sends rests on a snapshot that it has fetched for
the revision itself: the target of the stored revision, found in order, with the version that the command
names. `checked_code` says so of every operation, whatever the store and the target query answer.
-/

set_option autoImplicit false

namespace HitlOps.Lifecycle

open HitlOps.Python HitlOps.Domain HitlOps.Infrastructure HitlOps.Application HitlOps.Adapters
open HitlOps.Transaction HitlOps.Api

/-! ## Evidence of a command -/

/-- The process was shown the stored revision `k`, as `a` names its tool and its parameters. -/
def Shown (h : List (Obs Db)) (k : RevisionKey) (a : ActionIntent) : Prop :=
  ∃ σ ∈ booksShown h, ∃ b, σ.intent? k = some b ∧ b.tool = a.tool ∧
    b.canonicalParameters = a.canonicalParameters

/-- The process has fetched the snapshot `sn` of the target of the stored revision `k`. -/
def Fetched (h : List (Obs Db)) (k : RevisionKey) (sn : TargetSnapshot) : Prop :=
  ∃ a, Shown h k a ∧
    (.did (.call (.fetch a.tool a.canonicalParameters)) (.snapshot sn) : Obs Db) ∈ h

/-- The command of a revision names the version of a snapshot that passes the checks. -/
structure Matches (k : RevisionKey) (sn : TargetSnapshot) (command : AdapterCommand) : Prop where
  operationKey : command.operationKey = operationKeyFor k
  version : command.resourceVersion = sn.resourceVersion
  checked : checkPreconditions command.parameters sn = none

/-- The process has fetched what the command rests on. -/
def Rests (h : List (Obs Db)) (command : AdapterCommand) : Prop :=
  ∃ k sn, Fetched h k sn ∧ Matches k sn command

/-- What a statement owes: a command rests on a snapshot. -/
def owesSnapshot (h : List (Obs Db)) : Stmt Db → Prop
  | .call (.execute _ command) => Rests h command
  | _ => True

/-- The watch of the commands. -/
@[reducible] def fetching : Watch Db := .over (fun _ => True) owesSnapshot

/-- A call that sends no command. -/
def Sendless (c : Call) : Prop := ∀ tool command, c ≠ .execute tool command

/-- A program that sends no command. -/
abbrev Sendlessly {α : Type} (p : M α) : Prop := Doing (fun _ => True) Sendless p

section Growth

variable {h h' : List (Obs Db)} {k : RevisionKey} {a : ActionIntent} {sn : TargetSnapshot}
  {command : AdapterCommand}

theorem Shown.suffix (hs : Shown h k a) (hsuffix : h <:+ h') : Shown h' k a := by
  obtain ⟨σ, hσ, hrest⟩ := hs
  exact ⟨σ, shown_of_suffix hsuffix hσ, hrest⟩

theorem Fetched.suffix (hf : Fetched h k sn) (hsuffix : h <:+ h') : Fetched h' k sn := by
  obtain ⟨a, hshown, hmem⟩ := hf
  exact ⟨a, hshown.suffix hsuffix, hsuffix.subset hmem⟩

theorem Rests.suffix (hr : Rests h command) (hsuffix : h <:+ h') : Rests h' command := by
  obtain ⟨k, sn, hfetched, hmatches⟩ := hr
  exact ⟨k, sn, hfetched.suffix hsuffix, hmatches⟩

end Growth

/-! ## Commands rest on snapshots -/

section Rules

variable {rt : Runtime} {α β : Type} {h : List (Obs Db)}
  {Q : Except Error α → List (Obs Db) → Prop}

theorem sendless_of_transaction {W : Write → Prop} {p : M α} (hp : CalmTransaction W p) :
    Sendlessly p := hp.doing.mono (fun _ _ => trivial) fun _ hc => hc

/-- A part that sends no command. -/
theorem fetching_sendless {p : M α} (hp : Sendlessly p) (hQ : ∀ r h', h <:+ h' → Q r h') :
    fetching.wp p Q h := by
  refine Watch.wp_uses (fun h' => h <:+ h') (fun st hst h' hs => ?_) hp (List.suffix_refl h)
    fun r h' hs _ => hQ r h' hs
  refine ⟨?_, fun r _ => hs.trans (Watch.suffix_extend h' st r)⟩
  cases st with
  | call c =>
      cases c with
      | execute tool command => exact absurd rfl (hst tool command)
      | _ => exact trivial
  | _ => exact trivial

/-- A part that sends no command, with the values that it returns. -/
theorem fetching_yields {V : α → Prop} {p : M α} (hp : Sendlessly p) (hv : p.Yields V)
    (hQ : ∀ r h', h <:+ h' → (∀ a, r = .ok a → V a) → Q r h') : fetching.wp p Q h := by
  have hfree : fetching.wp p (fun _ h' => h <:+ h') h := fetching_sendless hp fun _ _ hs => hs
  refine Watch.wp_mono (fun r h' hr => ?_) (Watch.wp_yields hv hfree)
  exact hQ r h' hr.1 hr.2

/-- A reading part writes nothing. -/
theorem fetching_reading {p : M α} (hw : History.writes h = []) (hp : p.Uses Reading fun _ => True)
    (hQ : ∀ r h', History.writes h' = [] → Q r h') : fetching.wp p Q h := by
  refine Watch.wp_uses (fun h' => History.writes h' = []) (fun st hst h' hs => ?_) hp hw
    fun r h' hs _ => hQ r h' hs
  cases st with
  | select => exact ⟨trivial, fun _ _ => hs⟩
  | draw o => exact ⟨trivial, fun _ _ => hs⟩
  | call c =>
      cases c with
      | fetch tool parameters => exact ⟨trivial, fun _ _ => hs⟩
      | publishPending => exact ⟨trivial, fun _ _ => hs⟩
      | _ => exact hst.elim
  | _ => exact hst.elim

/-- A part that sends no command and ends with its transaction. -/
theorem fetching_returning {p : M α} (hp : Sendlessly p) (hreturning : Returning p)
    (hr : Released h) (hQ : ∀ r h', Released h' → Q r h') : fetching.wp p Q h := by
  have hfree : fetching.wp p (fun _ _ => True) h := fetching_sendless hp fun _ _ _ => trivial
  refine Watch.wp_mono (fun r h' hboth => ?_)
    (Watch.wp_also (fun _ _ _ _ => trivial) (hreturning h hr) hfree)
  exact hQ r h' hboth.2

/-! ### The claim -/

theorem yields_appendTransition (a : ActionIntent) (target : IntentState) (cause : Cause)
    (dbNow : Time) (topic : String) (payload : Dict) :
    (appendTransition a target cause dbNow topic payload).Yields (· = moved a target) := by
  refine (Prog.yields_true _).bind fun _ _ => (Prog.yields_true _).bind fun _ _ => ?_
  refine (Prog.yields_true _).bind fun _ _ => (Prog.yields_true _).bind fun _ _ => ?_
  exact (Prog.yields_true _).bind fun _ _ => rfl

/-- A lock in a transaction without a write shows a store that counts. -/
theorem shown_of_lock (hw : History.writes h = []) (key : LockKey) (nowait : Bool) (σ : Store)
    (t : Instant) :
    σ ∈ booksShown (.did (.lock key nowait) (some (σ, t)) :: h : List (Obs Db)) := by
  have hclean : ¬ (History.writes h).any touchesBooks = true := by
    rw [hw]
    exact Bool.false_ne_true
  show σ ∈ (if _ then _ else _) ++ _
  rw [if_neg hclean]
  exact List.mem_append_left _ (List.mem_singleton_self _)

theorem fetching_lockIntentNowait {Q : Except Error (Option (Option ActionIntent × Time)) →
    List (Obs Db) → Prop} (key : RevisionKey) (hw : History.writes h = [])
    (hnone : ∀ h', Q (.ok none) h') (hmissing : ∀ t h', Q (.ok (some (none, t))) h')
    (hsome : ∀ a t h', Shown h' key a → Q (.ok (some (some a, t))) h') :
    fetching.wp (lockIntentNowait key) Q h := by
  refine Watch.wp_bind ⟨trivial, fun seen _ => ?_⟩
  cases seen with
  | none => exact hnone _
  | some seen =>
      obtain ⟨σ, t⟩ := seen
      show Q (.ok (some (σ.intent? key, t))) _
      cases ha : σ.intent? key with
      | none => exact hmissing t _
      | some a => exact hsome a t _ ⟨σ, shown_of_lock hw _ _ σ t, a, ha, rfl, rfl⟩

/-- The claimed intent is the stored one. -/
theorem fetching_claimPhase {Q : Except Error ActionIntent → List (Obs Db) → Prop}
    (request : ClaimRequest) (hw : History.writes h = []) (herr : ∀ x h', Q (.error x) h')
    (hok : ∀ a h', Shown h' request.key a → Q (.ok a) h') :
    fetching.wp (claimPhase request) Q h := by
  refine Watch.wp_bind (fetching_lockIntentNowait request.key hw (fun _ => herr _ _)
    (fun _ _ => herr _ _) fun a t h₁ hshown => ?_)
  refine Watch.wp_ite (fun _ => herr _ _) fun _ => ?_
  refine Watch.wp_bind (fetching_sendless (doing_claimExecution (fun _ _ => trivial) _ _ _) ?_)
  intro r h₂ hs₂
  cases r with
  | error x => exact herr x h₂
  | ok u =>
      have htarget : IntentState.revalidating ∈ [IntentState.revalidating] :=
        List.mem_singleton_self _
      have hmoved : Sendlessly (Revalidation.recordTransition a .revalidating request.workerId
          request.commandId "execution_claimed" t) :=
        (calmly_appendTransition (fun _ _ => trivial) htarget _ _ _ _ _).doing
      refine fetching_yields hmoved
        (yields_appendTransition _ _ _ _ _ _) fun r h₃ hs₃ hr => ?_
      cases r with
      | error x => exact herr x h₃
      | ok b =>
          obtain rfl := hr b rfl
          exact hok _ h₃ (hshown.suffix (hs₂.trans hs₃))

/-- The target is fetched with the tool and the parameters of the claimed intent. -/
theorem fetching_fetchTarget {Q : Except Error (Except String TargetSnapshot) → List (Obs Db) → Prop}
    (tool : ToolName) (parameters : Dict) (attempts : Nat) (reason : String)
    (hQ : ∀ r h', h <:+ h' → (∀ sn, r = .ok (.ok sn) →
      (.did (.call (.fetch tool parameters)) (.snapshot sn) : Obs Db) ∈ h') → Q r h') :
    fetching.wp (fetchTarget tool parameters attempts reason) Q h := by
  induction attempts generalizing reason h with
  | zero => exact hQ _ _ (List.suffix_refl h) fun sn hsn => by cases hsn
  | succ attempts ih =>
      refine Watch.wp_bind ⟨trivial, fun answer _ => ?_⟩
      have hs := Watch.suffix_extend h (.call (.fetch tool parameters) : Stmt Db) answer
      have hagain : ∀ reason, fetching.wp (fetchTarget tool parameters attempts reason) Q
          (extend h (.call (.fetch tool parameters) : Stmt Db) answer) := fun reason =>
        ih reason fun r h' hs' hr => hQ r h' (hs.trans hs') hr
      cases answer with
      | snapshot s =>
          refine hQ _ _ hs fun sn hsn => ?_
          cases hsn
          exact List.mem_cons_self
      | timeout => exact hagain _
      | error => exact hagain _
      | cancelled => exact hQ _ _ hs fun sn hsn => by cases hsn

/-! ### The gates -/

theorem storedResourceVersion_snapshot (sn : TargetSnapshot) :
    storedResourceVersion (some (preconditionSnapshot sn)) = sn.resourceVersion := by
  obtain ⟨found, identity, health, facts, version⟩ := sn
  cases version with
  | none => rfl
  | some v => rfl

/-- Gates that have passed keep a snapshot that passes the checks. -/
def KeepsSnapshot (parameters : Dict) (sn : TargetSnapshot) : Gates → Prop
  | .failed _ _ => True
  | .passed y => y.preconditionSnapshot = some (preconditionSnapshot sn) ∧
      checkPreconditions parameters sn = none

theorem policyAndTarget_keeps {a : ActionIntent} {stored : PolicyEvaluation} {bundle : PolicyBundle}
    {sn : TargetSnapshot} {x : Execution} {gates : Gates}
    (h : policyAndTarget rt a stored bundle sn x = .ok gates) :
    KeepsSnapshot a.canonicalParameters sn gates := by
  simp only [policyAndTarget, bind, Except.bind, pure, Except.pure] at h
  split at h
  · cases h
  · split at h
    · cases h
      exact trivial
    · split at h
      · cases h
        exact trivial
      · split at h
        · cases h
          exact trivial
        · next hchecked =>
            cases h
            exact ⟨rfl, hchecked⟩

theorem yields_gates (a : ActionIntent) (x : Execution) (dbNow : Time) (bundle : PolicyBundle)
    (sn : TargetSnapshot) :
    (revalidateGates rt a x dbNow bundle sn).Yields (KeepsSnapshot a.canonicalParameters sn) := by
  refine Prog.yields_ite (fun _ => trivial) fun _ => ?_
  refine (Prog.yields_true _).bind fun policies _ => (Prog.yields_true _).bind fun policy _ => ?_
  refine Prog.yields_ite (fun _ => trivial) fun _ => (Prog.yields_true _).bind fun reason _ => ?_
  cases reason with
  | some code => exact trivial
  | none =>
      dsimp only
      cases h : policyAndTarget rt a policy.evaluation bundle sn x with
      | ok gates => exact policyAndTarget_keeps h
      | error e => exact trivial

theorem yields_reopenClaim (request : ClaimRequest) :
    (reopenClaim request).Yields fun r => r.1.key = request.key := by
  have hlock : (lockIntentNowait request.key).Yields fun r =>
      ∀ a t, r = some (some a, t) → a.key = request.key := by
    refine (Prog.yields_true _).bind fun seen _ => ?_
    cases seen with
    | none => exact fun a t h => by cases h
    | some seen =>
        intro a t h
        obtain ⟨ha, -⟩ := Prod.mk.inj (Option.some.inj h)
        exact key_of_intent? ha
  refine hlock.bind fun r hr => ?_
  match r, hr with
  | none, _ => exact trivial
  | some (none, _), _ => exact trivial
  | some (some a, t), hr =>
      refine Prog.yields_ite (fun _ => trivial) fun _ => ?_
      refine (Prog.yields_true _).bind fun rows _ => (Prog.yields_true _).bind fun x _ => ?_
      exact hr a t rfl

/-- A permit is for the claimed revision and for the snapshot of its claim. -/
theorem yields_gatePhase (request : ClaimRequest) (sn : TargetSnapshot) :
    (gatePhase rt request sn).Yields fun r =>
      ∀ permit, r = .ok permit → Matches request.key sn (adapterCommand permit) := by
  refine Prog.Yields.transaction ((yields_reopenClaim request).bind fun reopened hkey => ?_)
  refine (yields_gates _ _ _ _ _).bind fun gates hgates => ?_
  cases gates with
  | failed state reasonCode =>
      exact (Prog.yields_true _).bind fun _ _ => fun permit h => by cases h
  | passed y =>
      obtain ⟨hsnapshot, hchecked⟩ := hgates
      have hissue : (issuePermit rt request reopened.1 reopened.2.1 y reopened.2.2).Yields
          fun permit => Matches request.key sn (adapterCommand permit) := by
        refine (yields_appendTransition _ _ _ _ _ _).bind fun b hb => ?_
        subst hb
        refine (Prog.yields_true _).bind fun _ _ => (Prog.yields_true _).bind fun _ _ => ?_
        refine ⟨congrArg operationKeyFor hkey, ?_, hchecked⟩
        show storedResourceVersion y.preconditionSnapshot = _
        rw [hsnapshot]
        exact storedResourceVersion_snapshot sn
      refine hissue.bind fun permit hpermit => ?_
      intro permit' h
      cases h
      exact hpermit

/-- A claim that grants a permit has fetched what the command of the permit rests on. -/
def PermitRests (r : Except Error (Except RevalidationFailure ExecutionPermit)) (h : List (Obs Db)) :
    Prop := ∀ permit, r = .ok (.ok permit) → Rests h (adapterCommand permit)

theorem permitRests_error (x : Error) (h : List (Obs Db)) : PermitRests (.error x) h :=
  fun permit hr => by cases hr

/-- The gates grant a permit for the snapshot that was fetched. -/
theorem fetching_gatePhase (request : ClaimRequest) {sn : TargetSnapshot}
    (hf : Fetched h request.key sn) : fetching.wp (gatePhase rt request sn) PermitRests h := by
  refine fetching_yields (sendless_of_transaction (calm_gatePhase request sn))
    (yields_gatePhase request sn) fun r h₁ hs₁ hvalue permit hr => ?_
  exact ⟨request.key, sn, hf.suffix hs₁, hvalue _ hr permit rfl⟩

theorem fetching_claimAndRevalidate (request : ClaimRequest) (hw : History.writes h = []) :
    fetching.wp (claimAndRevalidate rt request) PermitRests h := by
  refine Watch.wp_bind ⟨trivial, fun _ _ => ?_⟩
  have hraise : ∀ x h', fetching.orElse (fun x => if x = .dbapi true then
      .raise (.stateConflictError "row lock or serialization conflict; retry") else .raise x)
      PermitRests (.error x) h' := fun x h' =>
    Watch.wp_ite (fun _ => permitRests_error _ h') fun _ => permitRests_error _ h'
  have hwritten : History.writes (extend h (.mark (.claim request.key request.bundle) : Stmt Db) ()) =
      [] := hw
  refine Watch.wp_handle (Watch.wp_bind (fetching_claimPhase request hwritten hraise ?_))
  intro a h₁ hshown
  refine Watch.wp_bind ⟨trivial, fun _ _ => Watch.wp_bind ?_⟩
  have hshown₁ := hshown.suffix (List.suffix_cons (.did .commit () : Obs Db) h₁)
  refine fetching_fetchTarget _ _ _ _ fun r h₂ hs₂ hfetched => ?_
  cases r with
  | error x => exact hraise x h₂
  | ok fetched =>
      cases fetched with
      | error reason =>
          have hfail := sendless_of_transaction (calm_failAfterFetchFailure request reason)
          refine Watch.wp_bind (fetching_sendless hfail fun r h₃ _ => ?_)
          cases r with
          | error x => exact hraise x h₃
          | ok failure => exact fun permit hr => by cases hr
      | ok sn =>
          have hgates : fetching.wp (gatePhase rt request sn) PermitRests h₂ :=
            fetching_gatePhase request ⟨a, hshown₁.suffix hs₂, hfetched sn rfl⟩
          refine Watch.wp_mono (fun r h₃ hr => ?_) hgates
          cases r with
          | error x => exact hraise x h₃
          | ok claimed => exact hr

/-! ### The worker -/

theorem fetching_claim (key : RevisionKey) (commandId : String) (hw : History.writes h = []) :
    fetching.wp (Worker.claim rt key commandId)
      (fun r h' => ∀ permit, r = .ok (some permit) → Rests h' (adapterCommand permit)) h := by
  refine Watch.wp_handle (Watch.wp_session (Watch.wp_bind ?_))
  have hraise : ∀ (x : Error) (h' : List (Obs Db)), fetching.orElse
      (fun x => if x.isStateConflict = true then return none else .raise x)
      (fun r h' => ∀ permit, r = .ok (some permit) → Rests h' (adapterCommand permit))
      (.error x : Except Error (Option ExecutionPermit)) h' := by
    intro x h'
    refine Watch.wp_ite (fun _ => ?_) fun _ => ?_
    · exact fun permit hr => by cases hr
    · exact fun permit hr => by cases hr
  have hread : (getActive key.tenantId).Uses Reading fun _ => True :=
    (reads_query _).bind fun _ => (reads_scalarOneOrNone _).bind fun _ => trivial
  refine fetching_reading hw hread fun r h₁ hw₁ => ?_
  match r with
  | .error x => exact ⟨trivial, hraise x _⟩
  | .ok none => exact ⟨trivial, fun permit hr => by cases hr⟩
  | .ok (some bundle) =>
      refine Watch.wp_bind (Watch.wp_mono (fun r h₂ hr => ?_)
        (fetching_claimAndRevalidate _ hw₁))
      match r, hr with
      | .error x, _ => exact ⟨trivial, hraise x _⟩
      | .ok (.error failure), _ => exact ⟨trivial, fun permit hr => by cases hr⟩
      | .ok (.ok permit), hr =>
          refine ⟨trivial, fun permit' h => ?_⟩
          cases h
          exact (hr permit rfl).suffix (List.suffix_cons _ _)

/-- A permit is executed on what its claim has fetched. -/
theorem fetching_executePermit {permit : ExecutionPermit} (hr : Rests h (adapterCommand permit))
    (workerId commandId : String) :
    fetching.wp (executePermit rt permit workerId commandId) (fun _ _ => True) h := by
  refine Watch.wp_bind (fetching_sendless (calmly_query (W := fun _ => True) _).doing fun r h₁ hs₁ => ?_)
  cases r with
  | error x => trivial
  | ok found =>
      refine Watch.wp_bind (Watch.wp_orRaise (fun _ => trivial) fun execution _ => ?_)
      refine Watch.wp_bind (fetching_sendless (doing_lockIntent _) fun r h₂ hs₂ => ?_)
      cases r with
      | error x => trivial
      | ok intent =>
          refine Watch.wp_ite (fun _ => trivial) fun _ => ?_
          refine Watch.wp_bind ⟨hr.suffix (hs₁.trans hs₂), fun answer _ => ?_⟩
          show fetching.wp (recordOutcome rt intent execution answer workerId commandId) _ _
          exact fetching_sendless ((calmly_recordOutcome _ _ _ _ _).mono fun _ _ => trivial).doing
            fun _ _ _ => trivial

theorem fetching_execute {permit : ExecutionPermit} (hr : Rests h (adapterCommand permit))
    (commandId : String) :
    fetching.wp (Worker.execute rt permit commandId) (fun _ _ => True) h := by
  refine Watch.wp_handle (Watch.wp_bind (Watch.wp_transaction (Watch.wp_mono (fun r h' _ => ?_)
    (fetching_executePermit hr _ _))))
  cases r with
  | ok a => exact ⟨trivial, trivial⟩
  | error x =>
      refine ⟨trivial, Watch.wp_ite (fun _ => ?_) fun _ => ?_⟩
      · trivial
      · trivial

/-- The loop starts each round outside a transaction. -/
theorem fetching_executeEligible (keys : List RevisionKey) (stats : Worker.Stats) (hr : Released h) :
    fetching.wp (Worker.executeEligible rt keys stats) (fun _ _ => True) h := by
  induction keys generalizing stats h with
  | nil => trivial
  | cons key rest ih =>
      refine Watch.wp_bind ⟨trivial, fun commandId _ => ?_⟩
      have hreturning : Returning (Worker.claim rt key commandId.hex) := returning_claim _ _
      have hr₀ : Released (extend h (.draw .uuid : Stmt Db) commandId) := hr
      have hclaim := Watch.wp_also (fun _ _ _ _ => trivial) (hreturning _ hr₀)
        (fetching_claim key commandId.hex hr₀.2)
      refine Watch.wp_bind (Watch.wp_mono (fun r h₁ hr₁ => ?_) hclaim)
      match r, hr₁ with
      | .error x, _ => trivial
      | .ok none, hr₁ => exact ih _ hr₁.2
      | .ok (some permit), hr₁ =>
          have hreturning' : Returning (Worker.execute rt permit commandId.hex) :=
            returning_execute _ _
          have hexecute := Watch.wp_also (fun _ _ _ _ => trivial) (hreturning' h₁ hr₁.2)
            (fetching_execute (hr₁.1 permit rfl) commandId.hex)
          refine Watch.wp_bind (Watch.wp_mono (fun r h₂ hr₂ => ?_) hexecute)
          cases r with
          | error x => trivial
          | ok executed => exact ih _ hr₂.2

theorem fetching_runWorkerTick (hr : Released h) :
    fetching.wp (Worker.runWorkerTick rt) (fun _ _ => True) h := by
  refine Watch.wp_bind (fetching_returning (doing_recoverStaleExecuting fun _ _ => trivial)
    returning_recoverStaleExecuting hr fun r h₁ hr₁ => ?_)
  cases r with
  | error x => trivial
  | ok recovered =>
      refine Watch.wp_bind (fetching_returning (doing_session ?_) (returning_session ?_) hr₁
        fun r h₂ hr₂ => ?_)
      · exact Prog.Uses.bind (Prog.uses_select trivial) fun _ =>
          (Prog.uses_draw trivial).bind fun _ => trivial
      · refine climbing_calm (W := fun _ => True) ?_
        exact Prog.Uses.bind (Prog.uses_select trivial) fun _ =>
          (calmly_draw .order).bind fun _ => trivial
      cases r with
      | error x => trivial
      | ok unknowns =>
          have heligible : Calmly (fun _ => True) (scan Worker.eligibleKeys) := calmly_scan _
          refine Watch.wp_bind (fetching_returning (doing_session heligible.doing)
            (returning_session (climbing_calm heligible)) hr₂ fun r h₃ hr₃ => ?_)
          cases r with
          | error x => trivial
          | ok eligible =>
              refine Watch.wp_bind (Watch.wp_mono (fun r h₄ _ => ?_)
                (fetching_executeEligible _ _ hr₃))
              cases r with
              | error x => trivial
              | ok stats =>
                  refine fetching_sendless ?_ fun _ _ _ => trivial
                  -- Behind the first loop nothing is sent to be executed.
                  have hlookup : ∀ tool key provider, Sendless (.lookupStatus tool key provider) :=
                    fun _ _ _ _ _ h => by cases h
                  have hpublish : Sendless .publishPending := fun _ _ h => by cases h
                  refine (doing_reconcileDue (fun _ _ => trivial) hlookup _ _).bind fun stats => ?_
                  refine Prog.Uses.bind ?_ fun _ => trivial
                  refine (Prog.uses_call hpublish).bind fun answer => ?_
                  cases answer with
                  | none => exact trivial
                  | some x => exact trivial

/-- Only a worker sends commands. -/
theorem sendless_code {op : Op} (hop : op ≠ .workerTick) : Sendlessly (code rt op) := by
  refine (doing_code rt op).mono (fun _ _ => trivial) fun c hc tool command h => ?_
  subst h
  cases op with
  | route request route => cases route <;> cases hc
  | claim request =>
      obtain ⟨_, _, h⟩ := hc
      cases h
  | reconcile executionId workerId commandId =>
      obtain ⟨_, _, _, h⟩ := hc
      cases h
  | workerTick => exact hop rfl
  | _ => cases hc

/-- Every operation sends only commands that rest on a snapshot. -/
theorem rests_code (rt : Runtime) (op : Op) :
    fetching.wp (code rt op) (fun _ _ => True) [] := by
  by_cases hop : op = .workerTick
  · subst hop
    refine Watch.wp_bind (Watch.wp_mono (fun r h' _ => ?_) (fetching_runWorkerTick ⟨rfl, rfl⟩))
    cases r with
    | ok a => trivial
    | error x => trivial
  · exact fetching_sendless (sendless_code hop) fun _ _ _ => trivial

end Rules

/-! ## Runs -/

section Runs

variable {rt : Runtime} {allowed : Op → Prop} {s s' : State}

/-- Every revision of the newer table continues the one of the older table. -/
def AllLater (r r' : RevisionKey → Revision) : Prop := ∀ k, Later (r k) (r' k)

theorem untouching_revision : Untouching (D := Db) revision touchesBooks :=
  fun db n w hw => congrArg Prod.fst (untouching_booksOf db n w hw)

/-- What the processes were shown is behind the store. -/
theorem grown_revision {assignments : List RoleAssignmentRow} {bundles : List PolicyBundleRow}
    (h : Sys.Reachable (code rt) allowed (initialStore assignments bundles) s) :
    Grown (D := Db) revision touchesBooks AllLater s := by
  refine h.invariant (fun _ _ hp => by cases hp) fun s s' hr hr' hs hJ => ?_
  have hrun := Run.of assignments bundles hr
  have hup : AllLater (revision s.db) (revision s'.db) := by
    intro k
    rcases commitOf_of_moves hrun (.of assignments bundles hr') hs with hdb | ⟨pid, p, hc, -⟩
    · rw [hdb]
      exact .refl _
    · exact hc.later k
  exact hJ.step (fun hu hv k => (hu k).trans (hv k)) (exact_of_reachable hr) untouching_revision hs hup

/-- What the process of an event was shown is behind the store of the event. -/
theorem later_of_shown (h : Run rt allowed s) {e : Entry} (he : e ∈ s.trace) {σ : Store}
    (hσ : σ ∈ booksShown e.history) (k : RevisionKey) : Later (revision σ k) (revision e.db k) := by
  obtain ⟨assignments, bundles, h⟩ := h
  exact shown_of_event (fun _ => grown_revision) h e he σ hσ k

/-- In every run, every command rests on a snapshot. -/
theorem rests_of_run (h : Run rt allowed s) {e : Entry} (he : e ∈ s.trace) {tool : ToolName}
    {command : AdapterCommand} (hact : e.act = .call (.execute tool command)) :
    Rests e.history command := by
  obtain ⟨assignments, bundles, h⟩ := h
  have hany : ∀ db n w, (fun _ : Write => True) w → True → (fun _ : Store => True) (Store.apply db n w) :=
    fun _ _ _ _ _ => trivial
  have hfollowed : fetching.Followed (fun _ _ _ => True) s ∧ True :=
    Watch.followed_of_reachable hany (fun _ _ _ => trivial) (fun _ _ _ _ => trivial)
      (fun op _ => rests_code rt op) trivial h
  have hmust := (hfollowed.1.trace e he).2
  rw [hact] at hmust
  exact hmust

/-- The process that sends a command has fetched the target of the command itself, and the snapshot
that it got passes the checks and has the version that the command names. -/
theorem snapshot_of_run (h : Run rt (fun _ => True) s) {e : Entry} (he : e ∈ s.trace)
    {tool : ToolName} {command : AdapterCommand} (hact : e.act = .call (.execute tool command)) :
    ∃ sn, (.did (.call (.fetch tool command.parameters)) (.snapshot sn) : Obs Db) ∈ e.history ∧
      command.resourceVersion = sn.resourceVersion ∧ checkPreconditions command.parameters sn = none := by
  obtain ⟨k, sn, ⟨a, ⟨σ, hσ, b, hb, htool, hparams⟩, hmem⟩, hmatches⟩ := rests_of_run h he hact
  have hok := (recorded_of_run (P := AnyPolicy) covers_any (fun op _ => admits_any op) h e he).ok
  obtain ⟨k', a', permit, -, ha', -, -, -, hop, htool', hparams', -⟩ := executing_of_eventOk hact hok
  obtain rfl : k = k' := operationKeyFor_injective (hmatches.operationKey.symm.trans hop)
  -- The stored revision has kept its tool and its parameters since it was shown.
  obtain ⟨c, hc, hsame⟩ := (later_of_shown h he hσ k).identity b hb
  obtain rfl : a' = c := Option.some.inj (ha'.symm.trans hc)
  refine ⟨sn, ?_, hmatches.version, hmatches.checked⟩
  rw [htool', hparams', hsame.tool, hsame.parameters, htool, hparams]
  exact hmem

end Runs

end HitlOps.Lifecycle
