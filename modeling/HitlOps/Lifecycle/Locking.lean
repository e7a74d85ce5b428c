import HitlOps.Lifecycle.Footprint
import HitlOps.Transaction.Rest

/-!
# The order of locks

Every operation takes its locks in one order: the reservation of an idempotency record, then the row of
an intent, then the row of an execution. A second intent is never waited for while one is held; a claim
refuses to wait at all. `climbs_code` states this of each operation, whatever the store answers, and that
the transaction of an operation is over when it ends.
-/

set_option autoImplicit false

namespace HitlOps.Lifecycle

open HitlOps.Python HitlOps.Domain HitlOps.Infrastructure HitlOps.Application HitlOps.Adapters
open HitlOps.Transaction HitlOps.Api

/-- The place of a key in the order of locks. -/
def lockLevel : LockKey → Nat
  | .idempotency _ => 0
  | .intent _ => 1
  | .execution _ => 2

theorem lockLevel_lt : ∀ k : LockKey, lockLevel k < 3
  | .idempotency _ => Nat.succ_pos 2
  | .intent _ => Nat.lt_of_sub_eq_succ rfl
  | .execution _ => Nat.lt_succ_self 2

/-- The discipline of the lifecycle. -/
abbrev locking : Watch Db := Watch.climbing lockLevel

/-- The open transaction holds keys below the level `n` only. -/
def Below (n : Nat) (h : List (Obs Db)) : Prop := ∀ k ∈ History.held h, lockLevel k < n

/-- The history continues, still without an execution, and no key is given back. -/
structure Keeping (h h' : List (Obs Db)) : Prop where
  below : Below 2 h'
  kept : ∀ k ∈ History.held h, k ∈ History.held h'

section Rules

variable {rt : Runtime} {α β : Type} {h h' : List (Obs Db)}
  {Q : Except Error α → List (Obs Db) → Prop}

theorem below_of_released (hr : Released h) (n : Nat) : Below n h := by
  intro k hk
  rw [hr.1] at hk
  cases hk

theorem Below.mono {n m : Nat} (hb : Below n h) (hnm : n ≤ m) : Below m h :=
  fun k hk => Nat.lt_of_lt_of_le (hb k hk) hnm

theorem below_of_held_eq {n : Nat} (hb : Below n h) (heq : History.held h' = History.held h) :
    Below n h' := by
  intro k hk
  rw [heq] at hk
  exact hb k hk

/-- A key at the level `n` may be waited for. -/
theorem climbs_of_below {st : Stmt Db} (hb : ∀ k, st.awaits? = some k → Below (lockLevel k) h) :
    Climbs lockLevel h st := fun k hk => .inr fun k' hk' => hb k hk k' hk'

theorem released_commit (h : List (Obs Db)) : Released (.did .commit () :: h) := ⟨rfl, rfl⟩

/-! ## Calm parts -/

/-- A calm statement waits for nobody. -/
theorem awaits_of_calm {W : Write → Prop} {st : Stmt Db} (hst : Calm W st) : st.awaits? = none := by
  cases st with
  | lock k nowait =>
      cases k with
      | intent key =>
          have hnowait : nowait = true := hst
          rw [hnowait]
          rfl
      | idempotency key => exact hst.elim
      | execution id => exact hst.elim
  | insert k w => exact hst.elim
  | _ => rfl

/-- A calm statement takes the row of an intent at most. -/
theorem held_of_calm {W : Write → Prop} {st : Stmt Db} (hst : Calm W st) (h : List (Obs Db))
    (r : st.Resp) : History.held (extend h st r) = History.held h ∨
      ∃ key, History.held (extend h st r) = .intent key :: History.held h := by
  cases st with
  | lock k nowait =>
      cases k with
      | intent key =>
          simp only [extend, History.held]
          split
          · exact Or.inr ⟨key, rfl⟩
          · exact Or.inl rfl
      | idempotency key => exact hst.elim
      | execution id => exact hst.elim
  | insert k w => exact hst.elim
  | commit => exact hst.elim
  | rollback => exact hst.elim
  | _ => exact Or.inl rfl

theorem keeping_of_calm {W : Write → Prop} {st : Stmt Db} (hst : Calm W st) (hk : Keeping h h')
    (r : st.Resp) : Keeping h (extend h' st r) := by
  rcases held_of_calm hst h' r with hsame | ⟨key, htaken⟩
  · refine ⟨below_of_held_eq hk.below hsame, fun k hmem => ?_⟩
    rw [hsame]
    exact hk.kept k hmem
  · constructor
    · intro k hmem
      rw [htaken] at hmem
      rcases List.mem_cons.1 hmem with rfl | hmem
      · exact Nat.lt_succ_self 1
      · exact hk.below k hmem
    · intro k hmem
      rw [htaken]
      exact List.mem_cons_of_mem _ (hk.kept k hmem)

/-- A calm part keeps the keys that are held. -/
theorem locking_calm {W : Write → Prop} {p : M α} (hp : Calmly W p) (hb : Below 2 h)
    (hQ : ∀ r h', Keeping h h' → Q r h') : locking.wp p Q h := by
  refine Watch.wp_uses (Keeping h) (fun st hst h' hk => ?_) hp ⟨hb, fun _ hmem => hmem⟩
    fun r h' hk _ => hQ r h' hk
  exact ⟨climbs_of_awaits (awaits_of_calm hst), fun r _ => keeping_of_calm hst hk r⟩

/-- A calm part may run whatever is held. -/
theorem locking_last {W : Write → Prop} {p : M α} (hp : Calmly W p) :
    locking.wp p (fun _ _ => True) h := by
  refine Watch.wp_uses (fun _ => True) (fun st hst h' _ => ?_) hp trivial fun _ _ _ _ => trivial
  exact ⟨climbs_of_awaits (awaits_of_calm hst), fun _ _ => trivial⟩

/-- A reading part holds what it held. -/
theorem locking_reading {p : M α} (hp : p.Uses Reading fun _ => True)
    (hQ : ∀ r h', History.held h' = History.held h → Q r h') : locking.wp p Q h := by
  refine Watch.wp_uses (fun h' => History.held h' = History.held h) (fun st hst h' heq => ?_) hp rfl
    fun r h' heq _ => hQ r h' heq
  cases st with
  | lock k nowait => exact hst.elim
  | insert k w => exact hst.elim
  | write w => exact hst.elim
  | commit => exact hst.elim
  | rollback => exact hst.elim
  | _ => exact ⟨climbs_of_awaits rfl, fun _ _ => heq⟩

/-! ## Bodies of transactions -/

/-- A body that takes its locks in order, in a transaction that holds keys below `n`. -/
def ClimbsFrom (n : Nat) (p : M α) : Prop :=
  ∀ h, Below n h → locking.wp p (fun _ _ => True) h

/-- A body that takes its locks in order from the start of a transaction. -/
def Climbing (p : M α) : Prop := ∀ h, Released h → locking.wp p (fun _ _ => True) h

/-- A program that takes its locks in order and gives all of them back. -/
def Returning (p : M α) : Prop := ∀ h, Released h → locking.wp p (fun _ h' => Released h') h

theorem climbsFrom_calm {W : Write → Prop} {p : M α} {n : Nat} (hp : Calmly W p) : ClimbsFrom n p :=
  fun _ _ => locking_last hp

theorem climbing_calm {W : Write → Prop} {p : M α} (hp : Calmly W p) : Climbing p :=
  fun _ _ => locking_last hp

theorem ClimbsFrom.climbing {p : M α} {n : Nat} (hp : ClimbsFrom n p) : Climbing p :=
  fun h hr => hp h (below_of_released hr n)

theorem returning_ret (a : α) : Returning (.ret a : M α) := fun _ hr => hr

theorem returning_raise (x : Error) : Returning (.raise x : M α) := fun _ hr => hr

/-- A statement that neither waits nor touches the transaction. -/
theorem returning_draw (o : Application.Source) : Returning (Prog.draw (D := Db) o : M _) :=
  fun _ hr => ⟨climbs_of_awaits rfl, fun _ _ => hr⟩

theorem returning_call (c : Call) : Returning (Prog.call (D := Db) c : M _) :=
  fun _ hr => ⟨climbs_of_awaits rfl, fun _ _ => hr⟩

theorem Returning.bind {p : M α} {f : α → M β} (hp : Returning p) (hf : ∀ a, Returning (f a)) :
    Returning (p >>= f) := by
  intro h hr
  refine Watch.wp_bind (Watch.wp_mono (fun r h' hr' => ?_) (hp h hr))
  cases r with
  | ok a => exact hf a h' hr'
  | error x => exact hr'

theorem Returning.handle {p : M α} {g : Error → M α} (hp : Returning p)
    (hg : ∀ x, Returning (g x)) : Returning (Prog.handle p g) := by
  intro h hr
  refine Watch.wp_handle (Watch.wp_mono (fun r h' hr' => ?_) (hp h hr))
  cases r with
  | ok a => exact hr'
  | error x => exact hg x h' hr'

theorem returning_ite {c : Prop} [Decidable c] {p q : M α} (hp : Returning p) (hq : Returning q) :
    Returning (if c then p else q) := by
  split
  · exact hp
  · exact hq

theorem locking_commit {f : Unit → M α} (hf : locking.wp (f ()) Q (.did .commit () :: h)) :
    locking.wp (Prog.commit (D := Db) >>= f) Q h :=
  Watch.wp_bind ⟨climbs_of_awaits rfl, fun _ _ => hf⟩

/-- A transaction gives back what its body takes. -/
theorem returning_transaction {p : M α} (hp : Climbing p) :
    Returning (Prog.transaction (D := Db) p) := by
  intro h hr
  refine Watch.wp_transaction (Watch.wp_mono (fun r h' _ => ?_) (hp h hr))
  cases r with
  | ok a => exact ⟨climbs_of_awaits rfl, rfl, rfl⟩
  | error x => exact ⟨climbs_of_awaits rfl, rfl, rfl⟩

/-- A session gives back what its body takes. -/
theorem returning_session {p : M α} (hp : Climbing p) :
    Returning (Prog.session (D := Db) p) := by
  intro h hr
  refine Watch.wp_session (Watch.wp_mono (fun r h' _ => ?_) (hp h hr))
  exact ⟨climbs_of_awaits rfl, rfl, rfl⟩

/-- The session of a request gives back what the request takes. -/
theorem returning_getSession {p : M α} (hp : Climbing p) :
    Returning (getSession p) := by
  intro h hr
  have hbody := hp h hr
  refine Watch.wp_handle (Watch.wp_bind (Watch.wp_mono (fun r h' _ => ?_) hbody))
  cases r with
  | ok a => exact ⟨climbs_of_awaits rfl, fun _ _ => ⟨rfl, rfl⟩⟩
  | error x =>
      refine Watch.wp_ite (fun _ => ?_) fun _ => ?_
      · exact ⟨climbs_of_awaits rfl, fun _ _ => ⟨rfl, rfl⟩⟩
      · exact ⟨climbs_of_awaits rfl, fun _ _ => ⟨rfl, rfl⟩⟩

theorem returning_of_calm {W : Write → Prop} {p : M α} (hp : CalmTransaction W p) : Returning p := by
  obtain ⟨body, rfl, hbody⟩ := hp
  exact returning_transaction (climbing_calm hbody)

theorem returning_wrapped {wrap : α → Result} {p : M α} (hp : Returning p) :
    Returning (wrapped wrap p) := hp.bind fun _ => returning_ret _

/-! ## Routes -/

theorem reads_reservationFrom (existing : IdempotencyRecord) (requestHash : String) :
    (reservationFrom existing requestHash).Uses Reading fun _ => True :=
  Prog.uses_ite (fun _ => trivial) fun _ => Prog.uses_ite (fun _ => trivial) fun _ => trivial

/-- The reservation comes first: nothing is held before it, and nothing else after it. -/
theorem locking_begin {Q : Except Error IdempotencyReservation → List (Obs Db) → Prop}
    (key : IdempotencyKey) (requestHash : String) (hr : Released h)
    (hQ : ∀ r h', Below 1 h' → Q r h') : locking.wp (begin key requestHash) Q h := by
  refine Watch.wp_bind (locking_reading (reads_query _) fun r h₁ hheld => ?_)
  rw [hr.1] at hheld
  have hbelow : Below 1 h₁ := fun k hk => by
    rw [hheld] at hk
    cases hk
  -- A key that is there is read without a lock; otherwise the insert locks it.
  cases r with
  | error x => exact hQ _ _ hbelow
  | ok found =>
      cases found with
      | some existing =>
          refine locking_reading (reads_reservationFrom _ _) fun r h₂ heq => hQ r h₂ ?_
          exact below_of_held_eq hbelow heq
      | none =>
          refine Watch.wp_bind ⟨climbs_of_held hheld _, fun inserted _ => ?_⟩
          have hbelow' : Below 1 (extend h₁ (.insert (.idempotency key)
              (.insertIdempotency ⟨key, requestHash, .pending, none, none⟩)) inserted) := by
            intro k hk
            simp only [extend, History.held] at hk
            split at hk
            · rw [hheld] at hk
              cases List.mem_singleton.1 hk
              exact Nat.zero_lt_one
            · exact hbelow k hk
          refine Watch.wp_ite (fun _ => hQ _ _ hbelow') fun _ => ?_
          refine Watch.wp_bind (locking_reading (reads_query _) fun r h₂ heq => ?_)
          cases r with
          | error x => exact hQ _ _ (below_of_held_eq hbelow' heq)
          | ok found =>
              cases found with
              | none => exact hQ _ _ (below_of_held_eq hbelow' heq)
              | some existing =>
                  refine locking_reading (reads_reservationFrom _ _) fun r h₃ heq' => hQ r h₃ ?_
                  exact below_of_held_eq hbelow' (heq'.trans heq)

/-- A route: its command climbs from the reservation on. -/
theorem locking_idempotent {command : M Dict} (hc : ClimbsFrom 1 command) (request : Request) (scope : String) (payload : Dict)
    (status : Nat) (hr : Released h) :
    locking.wp (idempotent rt request scope payload status command) (fun _ _ => True) h := by
  refine Watch.wp_bind (Watch.wp_bind (locking_begin _ _ hr fun r h₁ hb => ?_))
  cases r with
  | error x => trivial
  | ok reservation =>
      have hrun : locking.wp (do
          let response ← command
          complete (recordKey rt request scope) status response
          return (⟨status, response⟩ : Response)) (fun _ _ => True) h₁ := by
        refine Watch.wp_bind (Watch.wp_mono (fun r h₂ _ => ?_) (hc h₁ hb))
        cases r with
        | error x => trivial
        | ok response =>
            exact locking_last ((calmly_complete (fun _ hw => hw) _ _ _).bind fun _ => trivial)
      obtain ⟨replayed, pending, responseStatus, responseBody⟩ := reservation
      cases replayed with
      | false => exact hrun
      | true =>
          cases responseBody with
          | some body => trivial
          | none =>
              cases pending with
              | true => trivial
              | false => exact hrun

/-! ## Creation -/

/-- A created intent is held from then on. -/
theorem locking_create {Q : Except Error IntentSnapshot → List (Obs Db) → Prop}
    (command : CreateIntentCommand) (hb : Below 1 h) (herr : ∀ x h', Q (.error x) h')
    (hQ : ∀ a h', Below 2 h' → LockKey.intent command.key ∈ History.held h' → Q (.ok a) h') :
    locking.wp (create rt command) Q h := by
  refine Watch.wp_bind ⟨climbs_of_awaits rfl, fun now _ => ?_⟩
  refine Watch.wp_bind (Watch.wp_bind (Watch.wp_raiseIf (fun _ => herr _ _) fun _ => ?_))
  refine Watch.wp_bind ⟨?_, fun inserted _ => ?_⟩
  · apply climbs_of_below
    intro k hk
    cases hk
    exact hb
  refine Watch.wp_raiseIf (fun _ => herr _ _) fun hne => ?_
  have hinserted : inserted = true := by
    cases inserted with
    | true => rfl
    | false => exact absurd rfl hne
  subst hinserted
  -- The rest of the creation adds rows only.
  have hrest : Calmly (fun _ => True) (do
      flush (.insertTransition (createdTransition command now))
      flush (.insertOutbox "intent.created" (createdPayload command))
      return (⟨command.tenantId, command.intentId, command.revision, command.tool,
        command.intentDigest, .requested, 1⟩ : IntentSnapshot)) :=
    Prog.Uses.bind (calmly_flush trivial) fun _ =>
      Prog.Uses.bind (calmly_flush trivial) fun _ => trivial
  refine locking_calm hrest ?_ fun r h' hk => ?_
  · intro k hk
    rcases List.mem_cons.1 hk with rfl | hk
    · exact Nat.lt_succ_self 1
    · exact Nat.lt_succ_of_lt (hb k hk)
  · cases r with
    | error x => exact herr x h'
    | ok a => exact hQ a h' hk.below (hk.kept _ (List.mem_cons_self ..))

/-- Waiting for the row of an intent: it is held already, or no intent is. -/
theorem locking_lock {f : Option (Store × Instant) → M α} {key : RevisionKey} (hb : Below 2 h)
    (hkey : Below 1 h ∨ LockKey.intent key ∈ History.held h)
    (hf : ∀ r h', Below 2 h' → locking.wp (f r) Q h') :
    locking.wp (Prog.lock (D := Db) (.intent key) false >>= f) Q h := by
  refine Watch.wp_bind ⟨?_, fun seen _ => hf seen _ ?_⟩
  · intro k hk
    cases hk
    exact hkey.elim (fun hlow => .inr hlow) fun hmem => .inl hmem
  · intro k hk
    simp only [extend, History.held] at hk
    split at hk
    · rcases List.mem_cons.1 hk with rfl | hk
      · exact Nat.lt_succ_self 1
      · exact hb k hk
    · exact hb k hk

/-- The evaluation locks an intent that is held already, or the first one. -/
theorem locking_record {Q : Except Error EvaluationRecorded → List (Obs Db) → Prop}
    (key : RevisionKey) (risk : RiskEvaluation) (policy : PolicyEvaluation)
    (commandId correlationId : String) (hb : Below 2 h)
    (hkey : Below 1 h ∨ LockKey.intent key ∈ History.held h)
    (hQ : ∀ r h', Below 2 h' → Q r h') :
    locking.wp (record key risk policy commandId correlationId) Q h := by
  have hread := reads_query (α := List RiskEvaluationRow) (·.risksOf key)
  refine Watch.wp_bind (locking_reading hread fun r h₁ heq => ?_)
  cases r with
  | error x => exact hQ _ _ (below_of_held_eq hb heq)
  | ok risks =>
      refine Watch.wp_bind (locking_reading (reads_scalarOneOrNone _) fun r h₂ heq' => ?_)
      have hheld := heq'.trans heq
      have hb₂ := below_of_held_eq hb hheld
      cases r with
      | error x => exact hQ _ _ hb₂
      | ok found =>
          cases found with
          | some existing =>
              refine locking_calm (W := fun _ => True) (calmly_currentRecord _ _) hb₂ ?_
              exact fun r h' hk => hQ r h' hk.below
          | none =>
              rw [← hheld] at hkey
              have hkey₂ : Below 1 h₂ ∨ LockKey.intent key ∈ History.held h₂ := by
                refine hkey.imp_left fun hlow => ?_
                exact below_of_held_eq hlow hheld
              refine locking_lock hb₂ hkey₂ fun seen h₃ hb₃ => ?_
              refine locking_calm (W := Evaluates) ?_ hb₃ fun r h' hk => hQ r h' hk.below
              cases seen with
              | none => exact trivial
              | some seen =>
                  dsimp only
                  generalize seen.1.intent? key = found
                  cases found with
                  | none => exact trivial
                  | some intent =>
                      refine Prog.uses_ite (fun _ => trivial) fun _ => ?_
                      refine (calmly_draw .now).bind fun now => ?_
                      exact (calmly_writeEvaluation _ _ _ _ _ _).bind fun _ => trivial

theorem locking_ofExcept {r : Except Error α} (hok : ∀ a, Q (.ok a) h)
    (herr : ∀ x, Q (.error x) h) : locking.wp (ofExcept r) Q h := by
  cases r with
  | ok a => exact hok a
  | error x => exact herr x

theorem locking_createIntentFromProposal (actor : AuthenticatedActor) (tool : String)
    (parameters : Dict) (rationale : String) (source : IntentSource) (correlationId : String) :
    ClimbsFrom 1
      (createIntentFromProposal rt actor tool parameters rationale source correlationId) := by
  intro h hb
  refine Watch.wp_bind (locking_ofExcept (fun parsed => ?_) fun _ => trivial)
  refine Watch.wp_bind (locking_ofExcept (fun canonical => ?_) fun _ => trivial)
  refine Watch.wp_bind ⟨climbs_of_awaits rfl, fun intentId _ => ?_⟩
  refine Watch.wp_bind ⟨climbs_of_awaits rfl, fun commandId _ => ?_⟩
  refine Watch.wp_bind (locking_create _ hb (fun _ _ => trivial) fun _ h₁ hb₁ hheld => ?_)
  -- The intent stays held while the active bundle is read.
  refine Watch.wp_bind (locking_calm (W := fun _ => True) (calmly_getActive _) hb₁ ?_)
  intro r h₂ hk
  cases r with
  | error x => trivial
  | ok active =>
      cases active with
      | none => trivial
      | some bundle =>
          refine Watch.wp_bind (locking_ofExcept (fun policy => ?_) fun _ => trivial)
          refine Watch.wp_bind (locking_record _ _ _ _ _ hk.below (.inr (hk.kept _ hheld)) ?_)
          intro r h₃ hb₃
          cases r with
          | error x => trivial
          | ok recorded =>
              refine locking_last (W := fun _ => True) ((calmly_query _).bind fun found => ?_)
              exact (calmly_orRaise _ _).bind fun stored => trivial

theorem locking_agentCommand (request : Request) (body : AgentIntentBody) :
    ClimbsFrom 1 (agentCommand rt request body) := by
  intro h hb
  refine Watch.wp_bind (Watch.wp_bind ⟨climbs_of_awaits rfl, fun answer _ => ?_⟩)
  -- The call to the provider leaves the reservation held.
  have hrest : ∀ r : Except Error BoundedProposal, locking.wp (ofExcept r) (locking.andThen
      (fun proposal => createIntentFromProposal rt request.actor proposal.tool
        proposal.parameters.modelDump proposal.rationale .agent request.correlationId)
      fun _ _ => True) (extend h (.call (.propose body.request (body.contextRefs.take 20)))
        answer) := fun r =>
    locking_ofExcept (fun proposal => locking_createIntentFromProposal _ _ _ _ _ _ _ hb)
      fun _ => trivial
  cases answer with
  | value raw => exact hrest _
  | _ => trivial

theorem locking_decideApprovalBody (request : Request) (intentId : UUID) (body : ApprovalBody)
    (hr : Released h) :
    locking.wp (decideApprovalBody rt request intentId body) (fun _ _ => True) h := by
  refine Watch.wp_bind (locking_begin _ _ hr fun r h₁ hb => ?_)
  cases r with
  | error x => trivial
  | ok reservation =>
      have hrun : locking.wp (decideAndComplete request intentId body
          (recordKey rt request "approvals")) (fun _ _ => True) h₁ :=
        locking_last (calmly_decideAndComplete (fun _ hw => hw) _ _ _ _)
      obtain ⟨replayed, pending, responseStatus, responseBody⟩ := reservation
      cases replayed with
      | false => exact hrun
      | true =>
          cases responseBody with
          | some body => exact Watch.wp_ite (fun _ => trivial) fun _ => trivial
          | none =>
              cases pending with
              | true => trivial
              | false => exact hrun

/-- A route whose body climbs from its reservation on. -/
theorem returning_idempotent {command : M Dict} (hc : ClimbsFrom 1 command) (request : Request)
    (scope : String) (payload : Dict) (status : Nat) :
    Returning (getSession (idempotent rt request scope payload status command)) :=
  returning_getSession fun _ hr => locking_idempotent hc _ _ _ _ hr

/-- Every route takes its locks in order. -/
theorem returning_routeProgram (request : Request) (route : Route) :
    Returning (routeProgram rt request route) := by
  cases route with
  | createIntent body =>
      exact returning_idempotent (locking_createIntentFromProposal _ _ _ _ _ _) _ _ _ _
  | createAgentIntent body => exact returning_idempotent (locking_agentCommand _ _) _ _ _ _
  | decideApproval intentId body =>
      exact returning_getSession fun _ hr => locking_decideApprovalBody _ _ _ hr
  | cancelIntent intentId body =>
      refine returning_idempotent (climbsFrom_calm (W := MovesInto [.cancelled]) ?_) _ _ _ _
      exact (calmly_draw .uuid).bind fun _ => (calmly_cancel _).bind fun _ => trivial
  | grantRole body =>
      refine returning_idempotent (climbsFrom_calm (W := Administers request.actor) ?_) _ _ _ _
      exact (calmly_draw .uuid).bind fun _ => Prog.Uses.bind (calmly_grantRole request.actor _ rfl rfl) fun _ => trivial
  | revokeRole assignmentId body =>
      refine returning_idempotent (climbsFrom_calm (W := Administers request.actor) ?_) _ _ _ _
      exact (calmly_draw .uuid).bind fun _ => Prog.Uses.bind (calmly_revokeRole request.actor _ rfl) fun _ => trivial
  | registerPolicyBundle body =>
      refine returning_idempotent (climbsFrom_calm (W := Administers request.actor) ?_) _ _ _ _
      exact (calmly_draw .uuid).bind fun _ => Prog.Uses.bind (calmly_registerPolicyBundle request.actor _ rfl) fun _ => trivial
  | activatePolicyBundle version body =>
      refine returning_idempotent (climbsFrom_calm (W := Administers request.actor) ?_) _ _ _ _
      exact (calmly_draw .uuid).bind fun _ => Prog.Uses.bind (calmly_activatePolicyBundle request.actor _ rfl) fun _ => trivial

/-! ## Claims -/

/-- The execution row comes last: its insert waits with an intent held at most. -/
theorem locking_claimExecution {Q : Except Error Unit → List (Obs Db) → Prop} (key : RevisionKey)
    (dbNow : Time) (leaseSeconds : Nat) (hb : Below 2 h) (hQ : ∀ r h', Q r h') :
    locking.wp (claimExecution key dbNow leaseSeconds) Q h := by
  refine Watch.wp_bind (locking_calm (W := fun _ => True) (calmly_query _) hb fun r h₁ hk => ?_)
  cases r with
  | error x => exact hQ _ _
  | ok found =>
      refine Watch.wp_bind (locking_calm (W := fun _ => True) (calmly_scalarOneOrNone _) hk.below ?_)
      intro r h₂ hk₂
      cases r with
      | error x => exact hQ _ _
      | ok row =>
          cases row with
          | some existing =>
              refine Watch.wp_ite (fun _ => hQ _ _) fun _ => ?_
              refine Watch.wp_mono (fun r h' _ => hQ r h') (locking_last (W := fun _ => True) ?_)
              exact calmly_flush trivial
          | none =>
              refine Watch.wp_bind ⟨climbs_of_awaits rfl, fun id _ => ?_⟩
              refine Watch.wp_bind ⟨climbs_of_below fun k hk => ?_, fun inserted _ => ?_⟩
              · cases hk
                exact hk₂.below
              · exact Watch.wp_raiseIf (fun _ => hQ _ _) fun _ => hQ _ _

theorem locking_claimPhase (request : ClaimRequest) : ClimbsFrom 2 (claimPhase request) := by
  intro h hb
  refine Watch.wp_bind (locking_calm (W := fun _ => True) (calmly_lockIntentNowait _) hb ?_)
  intro r h₁ hk
  match r with
  | .error x => trivial
  | .ok none => trivial
  | .ok (some (none, _)) => trivial
  | .ok (some (some intent, dbNow)) =>
      refine Watch.wp_ite (fun _ => trivial) fun _ => ?_
      refine Watch.wp_bind (locking_claimExecution _ _ _ hk.below fun r h₂ => ?_)
      cases r with
      | error x => trivial
      | ok u =>
          have htarget : IntentState.revalidating ∈ [IntentState.revalidating] :=
            List.mem_singleton_self _
          exact locking_last (calmly_appendTransition (fun _ hw => hw) htarget _ _ _ _ _)

theorem returning_fetchTarget (tool : ToolName) (parameters : Dict) (attempts : Nat)
    (reason : String) : Returning (fetchTarget tool parameters attempts reason) := by
  induction attempts generalizing reason with
  | zero => exact returning_ret _
  | succ attempts ih =>
      refine (returning_call _).bind fun answer => ?_
      cases answer with
      | snapshot s => exact returning_ret _
      | timeout => exact ih _
      | error => exact ih _
      | cancelled => exact returning_raise _

/-- A claim that returns has given back what it took; one that raises leaves that to its caller. -/
theorem locking_claimAndRevalidate (request : ClaimRequest) (hb : Below 2 h) :
    locking.wp (claimAndRevalidate rt request)
      (fun r h' => ∀ a, r = .ok a → Released h') h := by
  refine Watch.wp_bind ⟨climbs_of_awaits rfl, fun _ _ => ?_⟩
  refine Watch.wp_handle (Watch.wp_bind (Watch.wp_mono ?_ (locking_claimPhase request _ hb)))
  have hraise : ∀ x h', locking.orElse (fun x => if x = .dbapi true then
      .raise (.stateConflictError "row lock or serialization conflict; retry") else .raise x)
      (fun (r : Except Error (Except RevalidationFailure ExecutionPermit)) h' =>
        ∀ a, r = .ok a → Released h') (.error x) h' := by
    intro x h'
    refine Watch.wp_ite (fun _ => ?_) fun _ => ?_
    · exact fun a ha => by cases ha
    · exact fun a ha => by cases ha
  intro r h₁ _
  cases r with
  | error x => exact hraise x h₁
  | ok intent =>
      -- The open transaction is committed, and each later one returns what it takes.
      refine locking_commit (Watch.wp_mono (fun r h' hr => ?_) (Returning.bind
        (returning_fetchTarget _ _ _ _) (fun fetched => ?_) _ (released_commit h₁)))
      · cases r with
        | error x => exact hraise x h'
        | ok a => exact fun _ _ => hr
      · cases fetched with
        | error reason =>
            exact (returning_of_calm (calm_failAfterFetchFailure _ _)).bind fun _ => returning_ret _
        | ok snapshot => exact returning_of_calm (calm_gatePhase _ _)

/-! ## Executions -/

/-- A body that first waits for the row of an intent, and for nobody from then on. -/
theorem climbing_lockIntent {f : ActionIntent → M α} (key : RevisionKey)
    (hf : ∀ intent h', locking.wp (f intent) (fun _ _ => True) h') {h : List (Obs Db)}
    (hheld : History.held h = []) :
    locking.wp (lockIntent key >>= f) (fun _ _ => True) h := by
  have hb : ∀ n, Below n h := fun n k hk => by
    rw [hheld] at hk
    cases hk
  refine Watch.wp_bind (locking_lock (hb 2) (.inl (hb 1)) fun r h₁ _ => ?_)
  cases r with
  | none => trivial
  | some seen => exact Watch.wp_orRaise (fun _ => trivial) fun intent _ => hf intent h₁

theorem climbing_executePermit (permit : ExecutionPermit) (workerId commandId : String) :
    Climbing (executePermit rt permit workerId commandId) := by
  intro h hr
  refine Watch.wp_bind (locking_reading (reads_query _) fun r h₁ heq => ?_)
  cases r with
  | error x => trivial
  | ok found =>
      refine Watch.wp_bind (Watch.wp_orRaise (fun _ => trivial) fun execution _ => ?_)
      refine climbing_lockIntent _ (fun intent h₂ => ?_) (heq.trans hr.1)
      refine Watch.wp_ite (fun _ => trivial) fun _ => ?_
      refine Watch.wp_bind ⟨climbs_of_awaits rfl, fun answer _ => ?_⟩
      exact locking_last (calmly_recordOutcome _ _ _ _ _)

theorem climbing_reconcile (executionId : UUID) (workerId commandId : String) :
    Climbing (reconcile rt executionId workerId commandId) := by
  intro h hr
  refine Watch.wp_bind (locking_reading (reads_query _) fun r h₁ heq => ?_)
  cases r with
  | error x => trivial
  | ok found =>
      refine Watch.wp_bind (Watch.wp_orRaise (fun _ => trivial) fun execution _ => ?_)
      refine climbing_lockIntent _ (fun intent h₂ => ?_) (heq.trans hr.1)
      refine Watch.wp_ite (fun _ => trivial) fun _ => ?_
      refine Watch.wp_bind ⟨climbs_of_awaits rfl, fun answer _ => ?_⟩
      exact locking_last (calmly_recordEvidence _ _ _ _ _)

/-! ## The worker -/

theorem returning_recoverAll (candidates : List Execution) (recovered : Nat) :
    Returning (Worker.recoverAll candidates recovered) := by
  induction candidates generalizing recovered with
  | nil => exact returning_ret _
  | cons candidate rest ih =>
      refine (returning_draw .uuid).bind fun commandId => ?_
      have hone := returning_of_calm (calm_recoverCandidate candidate commandId.hex)
      refine (hone.handle fun x => ?_).bind fun _ => ih _
      exact returning_ite (returning_ret _) (returning_raise _)

theorem returning_recoverStaleExecuting : Returning Worker.recoverStaleExecuting := by
  refine (returning_session (climbing_calm (W := fun _ => True) ?_)).bind fun candidates =>
    returning_recoverAll _ _
  refine Prog.Uses.bind (Prog.uses_select trivial) fun _ => ?_
  exact (calmly_draw .order).bind fun _ => trivial

theorem returning_claim (key : RevisionKey) (commandId : String) :
    Returning (Worker.claim rt key commandId) := by
  refine (returning_session fun h hr => ?_).handle fun x =>
    returning_ite (returning_ret _) (returning_raise _)
  have hb := below_of_released hr 2
  refine Watch.wp_bind (locking_calm (W := fun _ => True) (calmly_getActive _) hb ?_)
  intro r h₁ hk
  cases r with
  | error x => trivial
  | ok active =>
      cases active with
      | none => trivial
      | some bundle =>
          refine Watch.wp_bind (Watch.wp_mono (fun r h₂ _ => ?_)
            (locking_claimAndRevalidate _ hk.below))
          match r with
          | .error x => trivial
          | .ok (.error failure) => trivial
          | .ok (.ok permit) => trivial

theorem returning_execute (permit : ExecutionPermit) (commandId : String) :
    Returning (Worker.execute rt permit commandId) := by
  have hpermit : Climbing (executePermit rt permit Worker.workerId commandId) :=
    climbing_executePermit permit _ _
  have hbody := returning_transaction hpermit
  refine (hbody.bind fun _ => returning_ret _).handle fun x => ?_
  exact returning_ite (returning_ret _) (returning_raise _)

theorem returning_executeEligible (keys : List RevisionKey) (stats : Worker.Stats) :
    Returning (Worker.executeEligible rt keys stats) := by
  induction keys generalizing stats with
  | nil => exact returning_ret _
  | cons key rest ih =>
      refine (returning_draw .uuid).bind fun commandId => ?_
      refine (returning_claim key _).bind fun claimed => ?_
      cases claimed with
      | none => exact ih _
      | some permit => exact (returning_execute permit _).bind fun _ => ih _

theorem returning_reconcileDue (ids : List UUID) (stats : Worker.Stats) :
    Returning (Worker.reconcileDue rt ids stats) := by
  induction ids generalizing stats with
  | nil => exact returning_ret _
  | cons id rest ih =>
      refine (returning_draw .uuid).bind fun commandId => ?_
      have hreconcile : Climbing (reconcile rt id Worker.workerId commandId.hex) :=
        climbing_reconcile id _ _
      have hbody := returning_transaction hreconcile
      refine Returning.bind ((hbody.bind fun _ => returning_ret _).handle fun x => ?_) fun _ => ih _
      exact returning_ite (returning_ret _) (returning_raise _)

theorem returning_runWorkerTick : Returning (Worker.runWorkerTick rt) := by
  refine returning_recoverStaleExecuting.bind fun recovered => ?_
  refine (returning_session (climbing_calm (W := fun _ => True) ?_)).bind fun unknowns => ?_
  · refine Prog.Uses.bind (Prog.uses_select trivial) fun _ => ?_
    exact (calmly_draw .order).bind fun _ => trivial
  have heligible := returning_session (climbing_calm (W := fun _ => True)
    (calmly_scan Worker.eligibleKeys))
  refine heligible.bind fun eligible => (returning_executeEligible _ _).bind fun stats => ?_
  refine (returning_reconcileDue _ _).bind fun stats => Returning.bind ?_ fun _ => returning_ret _
  refine (returning_call _).bind fun answer => ?_
  cases answer with
  | none => exact returning_ret _
  | some x => exact returning_raise _

/-! ## Operations -/

theorem returning_code (op : Op) : Returning (code rt op) := by
  cases op with
  | route request route => exact returning_wrapped (returning_routeProgram _ _)
  | create command =>
      refine returning_wrapped (returning_getSession fun h hr => ?_)
      refine locking_create command (below_of_released hr 1) (fun _ _ => trivial) ?_
      exact fun _ _ _ _ => trivial
  | record key risk policy commandId correlationId =>
      refine returning_wrapped (returning_getSession fun h hr => ?_)
      exact locking_record _ _ _ _ _ (below_of_released hr 2) (.inl (below_of_released hr 1))
        fun _ _ _ => trivial
  | decide command =>
      exact returning_wrapped (returning_getSession (climbing_calm (calmly_decide command)))
  | cancel command =>
      exact returning_wrapped (returning_getSession (climbing_calm (calmly_cancel command)))
  | claim request =>
      refine returning_wrapped fun h hr => Watch.wp_handle ?_
      have hclaim : locking.wp (claimAndRevalidate rt request)
          (fun r h' => ∀ a, r = .ok a → Released h') h :=
        locking_claimAndRevalidate request (below_of_released hr 2)
      refine Watch.wp_mono (fun r h₁ hr₁ => ?_) hclaim
      cases r with
      | ok a => exact hr₁ a rfl
      | error x => exact Watch.wp_bind ⟨climbs_of_awaits rfl, fun _ _ => ⟨rfl, rfl⟩⟩
  | reconcile executionId workerId commandId =>
      exact returning_wrapped (returning_transaction (climbing_reconcile _ _ _))
  | recover => exact returning_wrapped returning_recoverStaleExecuting
  | workerTick => exact returning_wrapped returning_runWorkerTick

end Rules

/-- Every operation takes its locks in order and ends with none, whatever it returns or raises. -/
theorem climbs_code (rt : Runtime) (op : Op) :
    locking.wp (code rt op) (EndsReleased op) [] := returning_code op [] ⟨rfl, rfl⟩

end HitlOps.Lifecycle
