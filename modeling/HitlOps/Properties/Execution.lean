import HitlOps.Lifecycle.Dispatch
import HitlOps.Scenario

/-!
# Execution happens once, and as approved

Over every run: a revision is sent to its adapter at most once, only while it is `EXECUTING` and its
row is locked, and what is sent has the digest that its approvals carry.
-/

set_option autoImplicit false

namespace HitlOps.Properties

open HitlOps.Python HitlOps.Domain HitlOps.Infrastructure HitlOps.Application HitlOps.Adapters
open HitlOps.Transaction HitlOps.Lifecycle

/-- The event `e` sends `tool` and `command` for the revision `k` as the approvals in `db` have
it. -/
structure SentAsApproved (rt : Runtime) (db : Store) (e : Entry) (k : RevisionKey)
    (tool : ToolName) (command : AdapterCommand) : Prop where
  locked : e.locks (.intent k) = some e.pid
  intent : ∃ a, e.db.intent? k = some a ∧ a.state = .executing ∧
    ∀ d ∈ db.decisionsOf k, d.decision = .approve →
      d.intentDigest = rt.sha256 ((digestEnvelope tool k.tenantId a.requesterId k.revision
        command.parameters).dumps canonicalOptions)

theorem sentAsApproved {rt : Runtime} {P : PolicyEvaluation → Prop} {s : State} {e : Entry}
    (hs : (contract rt P).Sound s) (he : Recorded rt P s e) {tool : ToolName}
    {command : AdapterCommand} (hact : e.act = .call (.execute tool command)) :
    ∃ k, Invokes e k ∧ SentAsApproved rt s.db e k tool command := by
  obtain ⟨k, a, permit, hlock, ha, hstate, -, -, hop, rfl, hparams, hdigest⟩ :=
    executing_of_eventOk hact he.ok
  refine ⟨k, ⟨_, command, hact, hop⟩, hlock, a, ha, hstate, fun d hd _ => ?_⟩
  -- The decisions carry the digest of the row, and the row keeps its identity.
  obtain ⟨a', ha', hsame⟩ := (he.later k).identity a ha
  have hv := (he.rows k).valid ha
  have hv' : Valid P k a' (revision s.db k) := WellFormed.valid (hs.rows k) ha'
  rw [hv'.evidence.digests d hd, hsame.digest, ← hdigest, hparams, ← hv.core.key]
  rfl

/-- `adapter.execute` is called at most once for a revision, and as the revision was approved. -/
theorem execute_once_as_approved {rt : Runtime} {s : State} (h : Run rt (fun _ => True) s) :
    (s.trace.Pairwise fun e e' => ∀ k, Invokes e k → ¬ Invokes e' k) ∧
      ∀ e ∈ s.trace, ∀ tool command, e.act = .call (.execute tool command) →
        ∃ k, Invokes e k ∧ SentAsApproved rt s.db e k tool command := by
  have hadmits : ∀ op, True → Admits AnyPolicy op := fun op _ => admits_any op
  refine ⟨(exclusive_of_run covers_any hadmits h).once, fun e he tool command hact => ?_⟩
  exact sentAsApproved (sound_of_run covers_any hadmits h)
    (recorded_of_run covers_any hadmits h e he) hact

/-- The event calls `adapter.execute` with the operation key of `k`. -/
def invokes (k : RevisionKey) (e : Entry) : Bool :=
  match e.act with
  | .call (.execute _ command) => decide (command.operationKey = operationKeyFor k)
  | _ => false

theorem invokes_iff {k : RevisionKey} {e : Entry} : invokes k e = true ↔ Invokes e k := by
  unfold invokes Invokes
  constructor
  · intro h
    split at h
    · next tool command hact => exact ⟨tool, command, hact, of_decide_eq_true h⟩
    · cases h
  · rintro ⟨tool, command, hact, hop⟩
    rw [hact]
    exact decide_eq_true hop

set_option maxRecDepth 100000 in
/-- The deletion of the scenario is sent to its adapter. -/
theorem execute_once_as_approved_deletion :
    (∃ e ∈ (Scenario.after Scenario.deletion).trace, Invokes e Scenario.key ∧
      ∃ tool command k, Invokes e k ∧
        SentAsApproved Scenario.runtime (Scenario.after Scenario.deletion).db e k tool command) := by
  have hsent : ((Scenario.after Scenario.deletion).trace.any (invokes Scenario.key)) = true := by
    decide +kernel
  obtain ⟨e, he, hinv⟩ := List.any_eq_true.1 hsent
  have hinv' := invokes_iff.1 hinv
  obtain ⟨tool, command, hact, hop⟩ := hinv'
  obtain ⟨k, hk, hsent⟩ := (execute_once_as_approved (Scenario.run_after _ _ fun _ _ => trivial)).2 e he
    tool command hact
  exact ⟨e, he, ⟨tool, command, hact, hop⟩, tool, command, k, hk, hsent⟩

end HitlOps.Properties
