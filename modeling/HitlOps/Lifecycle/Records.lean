import HitlOps.Lifecycle.Bookkeeping

/-!
# Programs that record evaluations

The programs that concern no execution keep the open transaction `Apart` from the books. Most of
them do so statement by statement; the evaluation of a revision writes its risk row and its policy
row one after the other, so it is followed step by step. `Steady` composes the two kinds.
-/

set_option autoImplicit false

namespace HitlOps.Lifecycle

open HitlOps.Python HitlOps.Domain HitlOps.Infrastructure HitlOps.Application HitlOps.Transaction
open HitlOps.Api

section Records

variable {rt : Runtime} {Due : List (Obs Db) → UUID → Prop} {α β : Type} {h : List (Obs Db)}

/-! ## Apart from the books -/

/-- The open transaction has concerned no execution, and its evaluations have both of their rows. -/
structure Apart (h : List (Obs Db)) : Prop where
  filed : filed h = []
  entered : ∀ t ∈ entered h, PlainTransition t
  escalated : escalated h = []
  twins : Twins (History.writes h)
  asked : askedFor h = none

theorem apart_nil : Apart [] := ⟨rfl, fun _ ht => absurd ht List.not_mem_nil, rfl, rfl, rfl⟩

theorem apart_commit (h : List (Obs Db)) : Apart (.did .commit () :: h) :=
  ⟨rfl, fun _ ht => absurd ht List.not_mem_nil, rfl, rfl, rfl⟩

theorem apart_rollback (h : List (Obs Db)) : Apart (.did .rollback () :: h) :=
  ⟨rfl, fun _ ht => absurd ht List.not_mem_nil, rfl, rfl, rfl⟩

theorem Apart.settled (ha : Apart h) : Settled rt h :=
  ⟨.plain ha.filed ha.entered ha.escalated ha.asked, ha.twins⟩

/-- An observation that is no write of the open transaction. -/
theorem Apart.notes {h' : List (Obs Db)} (ha : Apart h) (hn : Notes h h') : Apart h' := by
  refine ⟨?_, ?_, ?_, hn.writes ▸ ha.twins, hn.asked.trans ha.asked⟩
  · show (History.writes h').filter _ = []
    rw [hn.writes]
    exact ha.filed
  · rw [hn.entered]
    exact ha.entered
  · show (History.writes h').filterMap _ = []
    rw [hn.writes]
    exact ha.escalated

theorem twins_plain {ws : List Write} (ht : Twins ws) {w : Write} (hw : PlainWrite w) :
    Twins (ws ++ [w]) := by
  refine ht.append ?_ ?_
  · cases w <;> first | rfl | exact hw.elim
  · cases w <;> first | rfl | exact hw.elim

/-- A plain write of the open transaction. -/
theorem apart_wrote {h' : List (Obs Db)} (ha : Apart h) {w : Write} (hw : PlainWrite w)
    (hwrites : History.writes h' = History.writes h ++ [w])
    (hghost : entered h' = entered h ∨ entered h' = ((ghostAfter h).wrote w).entered)
    (hasked : askedFor h' = askedFor h) : Apart h' := by
  -- A plain write touches no execution row and hands nothing over.
  have hunfiled : filesExecution w = false := by
    cases w <;> first | rfl | exact hw.elim
  have hquiet : handOver? w = none := by
    cases w with
    | insertOutbox topic payload => exact if_neg hw
    | _ => rfl
  refine ⟨?_, ?_, ?_, hwrites ▸ twins_plain ha.twins hw, hasked.trans ha.asked⟩
  · show (History.writes h').filter _ = []
    rw [hwrites, List.filter_append, show (History.writes h).filter filesExecution = [] from ha.filed]
    rw [List.filter_cons, hunfiled]
    rfl
  · have hold := ha.entered
    rcases hghost with heq | heq
    · rw [heq]
      exact hold
    · rw [heq]
      cases w with
      | insertTransition t =>
          intro t' ht'
          rcases List.mem_append.1 ht' with ht' | ht'
          · exact hold t' ht'
          · rw [List.mem_singleton.1 ht']
            exact hw
      | _ => exact hold
  · show (History.writes h').filterMap _ = []
    rw [hwrites, List.filterMap_append,
      show (History.writes h).filterMap handOver? = [] from ha.escalated]
    rw [List.filterMap_cons, hquiet]
    rfl

/-- A plain statement keeps the transaction apart. -/
theorem apart_step {st : Stmt Db} (hst : Plain st) (ha : Apart h) :
    files rt Due h st ∧ ∀ r, Apart (extend h st r) := by
  cases st with
  | select =>
      exact ⟨trivial, fun r => ha.notes (notes_cons (o := (.did .select r : Obs Db)) ⟨trivial, trivial⟩ h)⟩
  | lock k nowait =>
      exact ⟨trivial, fun r =>
        ha.notes (notes_cons (o := (.did (.lock k nowait) r : Obs Db)) ⟨trivial, trivial⟩ h)⟩
  | draw d =>
      exact ⟨trivial, fun r => ha.notes (notes_cons (o := (.did (.draw d) r : Obs Db)) ⟨trivial, trivial⟩ h)⟩
  | mark m =>
      exact ⟨trivial, fun r => ha.notes (notes_cons (o := (.did (.mark m) r : Obs Db)) ⟨trivial, trivial⟩ h)⟩
  | commit => exact ⟨ha.settled, fun _ => apart_commit h⟩
  | rollback => exact ⟨trivial, fun _ => apart_rollback h⟩
  | write w =>
      refine ⟨?_, fun r => apart_wrote ha (plainWrite_of_write hst) rfl (Or.inr rfl) rfl⟩
      cases w with
      | insertExecution row => exact hst.elim
      | insertIntent row => exact hst.elim
      | insertIdempotency row => exact hst.elim
      | _ => rfl
  | insert k w =>
      refine ⟨?_, fun r => ?_⟩
      · cases w with
        | insertExecution row => exact hst.elim
        | insertIntent row => exact hst
        | insertIdempotency row => exact hst
        | _ => exact trivial
      · cases r with
        | false => exact ha.notes (notes_cons (o := (.did (.insert k w) false : Obs Db)) ⟨rfl, trivial⟩ h)
        | true => exact apart_wrote ha (plainWrite_of_insert hst) rfl (Or.inl rfl) rfl
  | call c =>
      cases c with
      | propose request context =>
          refine ⟨trivial, fun r => ha.notes ?_⟩
          exact (notes_cons (o := (.sent (.propose request context) : Obs Db)) ⟨trivial, trivial⟩ h).trans
            (notes_cons (o := (.did (.call _) r : Obs Db)) ⟨trivial, trivial⟩ _)
      | _ => exact hst.elim

/-! ## Steady programs -/

/-- The program keeps its transaction apart from the books, whether it returns or raises. -/
def Steady (rt : Runtime) (Due : List (Obs Db) → UUID → Prop) (p : M α) : Prop :=
  ∀ h, Apart h → (filing rt Due).wp p (fun _ h' => Apart h') h

theorem steady_of_plainly {p : M α} (hp : Plainly p) : Steady rt Due p := by
  intro h ha
  refine Watch.wp_uses Apart (fun st hst h' ha' => ?_) hp ha fun _ _ ha' _ => ha'
  obtain ⟨hmust, hnext⟩ := apart_step hst ha'
  exact ⟨hmust, fun r _ => hnext r⟩

theorem Steady.bind {p : M β} {f : β → M α} (hp : Steady rt Due p)
    (hf : ∀ b, Steady rt Due (f b)) : Steady rt Due (p >>= f) := by
  intro h ha
  refine Watch.wp_bind (Watch.wp_mono (fun r h' ha' => ?_) (hp h ha))
  cases r with
  | ok b => exact hf b h' ha'
  | error x => exact ha'

theorem Steady.handle {p : M α} {g : Error → M α} (hp : Steady rt Due p)
    (hg : ∀ x, Steady rt Due (g x)) : Steady rt Due (p.handle g) := by
  intro h ha
  refine Watch.wp_handle (Watch.wp_mono (fun r h' ha' => ?_) (hp h ha))
  cases r with
  | ok a => exact ha'
  | error x => exact hg x h' ha'

theorem steady_pure (a : α) : Steady rt Due (pure a : M α) := fun _ ha => ha

theorem steady_raise (x : Error) : Steady rt Due (.raise x : M α) := fun _ ha => ha

/-! ## Evaluations -/

/-- A risk row and the policy row that comes with it. -/
theorem steady_evaluation {risk : RiskEvaluationRow} {policy : PolicyEvaluationRow}
    (hkey : policy.key = risk.key) {f : Unit → M α} (hf : Steady rt Due (f ())) :
    Steady rt Due (flush (.insertRisk risk) >>= fun _ => flush (.insertPolicy policy) >>= f) := by
  intro h ha
  -- Both rows are admissible, so nothing is raised between them.
  refine ⟨rfl, fun _ _ => ⟨rfl, fun _ _ => hf _ ?_⟩⟩
  have hfiled := ha.filed
  have hescalated := ha.escalated
  have htwins : (History.writes h).filterMap riskKey? = (History.writes h).filterMap policyKey? :=
    ha.twins
  refine ⟨?_, ha.entered, ?_, ?_, ha.asked⟩
  · show ((History.writes h ++ [_]) ++ [_]).filter filesExecution = []
    rw [List.filter_append, List.filter_append,
      show (History.writes h).filter filesExecution = [] from hfiled]
    rfl
  · show ((History.writes h ++ [_]) ++ [_]).filterMap handOver? = []
    rw [List.filterMap_append, List.filterMap_append,
      show (History.writes h).filterMap handOver? = [] from hescalated]
    rfl
  · show ((History.writes h ++ [_]) ++ [_]).filterMap riskKey? =
      ((History.writes h ++ [_]) ++ [_]).filterMap policyKey?
    simp only [List.filterMap_append, List.filterMap_cons, List.filterMap_nil, riskKey?, policyKey?,
      htwins, hkey, List.append_nil]

theorem steady_writeEvaluation (intent : ActionIntent) (risk : RiskEvaluation)
    (policy : PolicyEvaluation) (commandId correlationId : String) (now : Time) :
    Steady rt Due (writeEvaluation intent risk policy commandId correlationId now) := by
  have hroute : routeStateByDisposition policy.disposition ∉ claimedStates := by
    cases policy.disposition <;> decide
  have hne : routeStateByDisposition policy.disposition ≠ .expired := by
    cases policy.disposition <;> decide
  have hrisk : IntentState.riskEvaluated ∉ claimedStates := by decide
  have hpolicy : IntentState.policyEvaluated ∉ claimedStates := by decide
  refine steady_evaluation rfl (steady_of_plainly ?_)
  refine plainly_flush_bind (plainTransition_of_ne hrisk fun h => by cases h) ?_
  refine plainly_flush_bind (plainTransition_of_ne hpolicy fun h => by cases h) ?_
  refine plainly_flush_bind (plainTransition_of_ne hroute hne) ?_
  refine plainly_flush_message (by decide) (plainly_flush_message (by decide) ?_)
  refine plainly_flush_message (by decide) (plainly_flush_message (by decide) ?_)
  exact plainly_flush_message (by decide) (plainly_flush hroute)

theorem steady_record (key : RevisionKey) (risk : RiskEvaluation) (policy : PolicyEvaluation)
    (commandId correlationId : String) :
    Steady rt Due (record key risk policy commandId correlationId) := by
  refine (steady_of_plainly (plainly_query _)).bind fun risks => ?_
  refine (steady_of_plainly (plainly_scalarOneOrNone _)).bind fun found => ?_
  cases found with
  | some existing =>
      refine steady_of_plainly ((plainly_query _).bind fun s => (plainly_orRaise _ _).bind fun _ => ?_)
      exact (plainly_query _).bind fun _ => (plainly_scalarOne _).bind fun _ => trivial
  | none =>
      refine (steady_of_plainly (Prog.uses_lock trivial)).bind fun r => ?_
      cases r with
      | none => exact steady_raise _
      | some e =>
          dsimp only
          cases e.1.intent? key with
          | none => exact steady_raise _
          | some intent =>
              intro h ha
              refine Watch.wp_ite (fun _ => ha) fun _ => ?_
              refine (steady_of_plainly (plainly_draw .now)).bind (fun now => ?_) h ha
              exact (steady_writeEvaluation _ _ _ _ _ _).bind fun _ => steady_pure _

/-! ## Routes -/

theorem steady_getSession {p : M α} (hp : Steady rt Due p) : Steady rt Due (getSession p) := by
  refine Steady.handle (hp.bind fun a => ?_) fun x => ?_
  · exact steady_of_plainly (Prog.Uses.bind ⟨trivial, fun _ => trivial⟩ fun _ => trivial)
  · refine steady_of_plainly (Prog.uses_ite (fun _ => ?_) fun _ => ?_)
    · exact Prog.Uses.bind ⟨trivial, fun _ => trivial⟩ fun _ => trivial
    · exact Prog.Uses.bind ⟨trivial, fun _ => trivial⟩ fun _ => trivial

theorem steady_idempotent {request : Request} {scope : String} {payload : Dict} {status : Nat}
    {command : M Dict} (hc : Steady rt Due command) :
    Steady rt Due (idempotent rt request scope payload status command) := by
  refine (steady_of_plainly (plainly_reserve _ _)).bind fun found => ?_
  cases found with
  | some body => exact steady_pure _
  | none =>
      exact hc.bind fun _ => (steady_of_plainly (plainly_complete _ _ _)).bind fun _ => steady_pure _

theorem steady_createIntentFromProposal (actor : AuthenticatedActor) (tool : String)
    (parameters : Dict) (rationale : String) (source : IntentSource) (correlationId : String) :
    Steady rt Due
      (createIntentFromProposal rt actor tool parameters rationale source correlationId) := by
  refine (steady_of_plainly (plainly_ofExcept _)).bind fun parsed => ?_
  refine (steady_of_plainly (plainly_ofExcept _)).bind fun canonical => ?_
  refine (steady_of_plainly (plainly_draw .uuid)).bind fun intentId => ?_
  refine (steady_of_plainly (plainly_draw .uuid)).bind fun commandId => ?_
  refine (steady_of_plainly (plainly_create _)).bind fun _ => ?_
  refine (steady_of_plainly (plainly_getActive _)).bind fun active => ?_
  cases active with
  | none => exact steady_raise _
  | some bundle =>
      refine (steady_of_plainly (plainly_ofExcept _)).bind fun policy => ?_
      refine (steady_record _ _ _ _ _).bind fun _ => steady_of_plainly ?_
      exact (plainly_query _).bind fun _ => (plainly_orRaise _ _).bind fun _ => trivial

theorem steady_agentCommand (request : Request) (body : AgentIntentBody) :
    Steady rt Due (agentCommand rt request body) := by
  refine Steady.bind (p := propose rt body) (steady_of_plainly ?_) fun proposal =>
    steady_createIntentFromProposal _ _ _ _ _ _
  refine Prog.Uses.bind (Prog.uses_call (S := Plain) trivial) fun answer => ?_
  cases answer with
  | value raw => exact plainly_ofExcept _
  | domain _ _ _ _ => exact trivial
  | timeout => exact trivial
  | error => exact trivial
  | cancelled => exact trivial

theorem steady_route (request : Request) (route : Route) :
    Steady rt Due (routeProgram rt request route) := by
  cases route with
  | createIntent body =>
      exact steady_getSession (steady_idempotent (steady_createIntentFromProposal _ _ _ _ _ _))
  | createAgentIntent body =>
      exact steady_getSession (steady_idempotent (steady_agentCommand _ _))
  | _ => exact steady_of_plainly (plainly_route request trivial)

/-- The operations whose programs concern no execution. -/
def PlainOp : Op → Prop
  | .claim _ => False
  | .reconcile _ _ _ => False
  | .recover => False
  | .workerTick => False
  | _ => True

theorem steady_code {op : Op} (hop : PlainOp op) : Steady rt Due (code rt op) := by
  cases op with
  | route request route => exact (steady_route request route).bind fun _ => steady_pure _
  | create command =>
      exact (steady_getSession (steady_of_plainly (plainly_create _))).bind fun _ => steady_pure _
  | record key risk policy commandId correlationId =>
      exact (steady_getSession (steady_record _ _ _ _ _)).bind fun _ => steady_pure _
  | decide command =>
      exact (steady_getSession (steady_of_plainly (plainly_decide _))).bind fun _ => steady_pure _
  | cancel command =>
      exact (steady_getSession (steady_of_plainly (plainly_cancel _))).bind fun _ => steady_pure _
  | claim request => exact hop.elim
  | reconcile executionId workerId commandId => exact hop.elim
  | recover => exact hop.elim
  | workerTick => exact hop.elim

end Records

end HitlOps.Lifecycle
