import HitlOps.Lifecycle.Provider
import HitlOps.Properties.Execution
import HitlOps.Properties.Outcome

/-!
# The provider and the books agree

Over every run of the operations beside the demo provider, whatever answers are lost and whoever dies:
a revision is `SUCCEEDED` only if the provider has applied its command, and `FAILED` only if it has not.
Every effect at the provider is one that a permit and the approvals allow, and none is asked for twice.
-/

set_option autoImplicit false

namespace HitlOps.Properties

open HitlOps.Python HitlOps.Domain HitlOps.Infrastructure HitlOps.Application HitlOps.Adapters
open HitlOps.Transaction HitlOps.Lifecycle

section Provider

variable {rt : Runtime} {s : State} {j : Beside rt}

/-! ## Outcomes -/

/-- The final states of the revisions agree with the records of the provider. -/
structure MatchesProvider (db : Store) (v : Provider) : Prop where
  succeeded : ∀ k, stateOf db k = some .succeeded →
    ∃ r, v.operations (operationKeyFor k) = some r ∧ r.outcome = .succeeded
  failed : ∀ k r, stateOf db k = some .failed → v.operations (operationKeyFor k) = some r →
    r.outcome = .failed

/-- A revision in a final state was told the outcome. -/
theorem told_of_state (h : Run rt (fun _ => True) s) {k : RevisionKey} {outcome : ExecutionOutcome}
    (hne : outcome ≠ .unknown) (hs : stateOf s.db k = some (targetState outcome)) :
    ∃ e ∈ s.trace, Told e k outcome := by
  obtain ⟨hfiling, -⟩ : (filing rt fun _ _ => True).Followed (fun _ _ _ => True) s ∧ Keyed s.db :=
    filing_of_run (fun _ _ _ _ _ _ _ => trivial)
      (fun op _ => by cases op <;> first | exact trivial | exact fun _ => trivial) h
  obtain ⟨e, he, hreach⟩ := reached_of_run h hs
  have hrec := recorded_of_run (P := AnyPolicy) covers_any (fun op _ => admits_any op) h e he
  obtain ⟨b, before, t, -, -, hentered, ht, hkey⟩ := entered_of_reaches hrec hreach
  have hdeed : Deed rt e.history := by
    have hmust := (hfiling.trace e he).2
    rw [hreach.commit] at hmust
    exact hmust.deed
  exact ⟨e, he, hkey ▸ told_of_deed hdeed hentered hne ht⟩

/-- A process that was told an outcome heard it from the provider. -/
theorem performed_of_told (h : RunBeside rt j) {e : Entry} (he : e ∈ j.sys.trace) {k : RevisionKey}
    {outcome : ExecutionOutcome} (ht : Told e k outcome) :
    ∃ q ∈ j.log, Tells (operationKeyFor k) outcome q.reply.1 q.reply.2 := by
  obtain ⟨c, answer, -, hmem, htells⟩ := ht
  obtain ⟨l, pre, hhistory⟩ := List.append_of_mem hmem
  have hsuffix : .did (.call c) answer :: pre <:+ e.history := by
    rw [hhistory]
    exact List.suffix_append _ _
  obtain ⟨rest, -, hheard⟩ := h.accounted.trace e he c answer pre hsuffix
  cases hheard with
  | performed q hq hr ha =>
      refine ⟨q, hq, ?_⟩
      rw [ha]
      exact htells
  | broken hbroken =>
      -- A broken connection tells nothing.
      exfalso
      cases c with
      | execute tool command =>
          obtain ⟨-, ⟨r, rfl, -⟩ | ⟨-, rfl⟩⟩ := htells
          · rcases hbroken with hb | hb | hb <;> cases hb
          · rcases hbroken with hb | hb | hb <;> cases hb
      | lookupStatus tool operationKey id =>
          obtain ⟨-, r, hr, -⟩ := htells
          exact hbroken r hr
      | _ => exact htells
  | elsewhere hnone =>
      exfalso
      cases c with
      | execute tool command => cases hnone
      | lookupStatus tool operationKey id => cases hnone
      | _ => exact htells

/-- A revision whose command was refused has no record. -/
theorem no_record_of_refused (h : RunBeside rt j) {q : Performance (demo rt)} (hq : q ∈ j.log)
    {tool : ToolName} {command : AdapterCommand} (hreply : q.reply = ⟨.execute tool command, .preSend⟩) :
    j.service.operations command.operationKey = none := by
  cases hrecord : j.service.operations command.operationKey with
  | none => rfl
  | some r =>
      obtain ⟨q', hq', tool', command', happlies, hkey, -⟩ := applied_of_beside h _ r hrecord
      have hcall : q.request.call = .execute tool command := congrArg Sigma.fst hreply
      have hcall' : q'.request.call = .execute tool' command' := congrArg Sigma.fst happlies.1
      have hsame := one_performance h hq hq' hcall hcall' hkey.symm
      subst hsame
      have hboth := hreply.symm.trans happlies.1
      cases hboth

/-- A final state of a revision agrees with the provider. -/
theorem record_of_state (h : RunBeside rt j) {k : RevisionKey} {outcome : ExecutionOutcome}
    (hne : outcome ≠ .unknown) (hs : stateOf j.sys.db k = some (targetState outcome)) :
    (∃ r, j.service.operations (operationKeyFor k) = some r ∧ r.outcome = outcome) ∨
      outcome = .failed ∧ j.service.operations (operationKeyFor k) = none := by
  obtain ⟨e, he, htold⟩ := told_of_state h.run hne hs
  obtain ⟨q, hq, htells⟩ := performed_of_told h he htold
  rcases backed_of_beside h q hq _ outcome hne htells with hrecord | ⟨hfailed, tool, command, hkey, hreply⟩
  · exact .inl hrecord
  · right
    rw [← hkey]
    exact ⟨hfailed, no_record_of_refused h hq hreply⟩

/-- The books never say of a command what the provider does not. -/
theorem reports_agree (h : RunBeside rt j) : MatchesProvider j.sys.db j.service := by
  constructor
  · intro k hs
    have hne : ExecutionOutcome.succeeded ≠ .unknown := by decide
    rcases record_of_state h hne hs with hrecord | ⟨hfailed, -⟩
    · exact hrecord
    · cases hfailed
  · intro k r hs hr
    have hne : ExecutionOutcome.failed ≠ .unknown := by decide
    rcases record_of_state h hne hs with ⟨r', hr', hout⟩ | ⟨-, hnone⟩
    · rw [hr, Option.some.injEq] at hr'
      rw [hr']
      exact hout
    · rw [hr] at hnone
      cases hnone

/-! ## Effects -/

/-- The record is that of the revision `k`: with the tool and the parameters of the stored revision,
which every approval of it names, and behind its claim. -/
structure EffectOf (rt : Runtime) (db : Store) (k : RevisionKey) (r : ProviderRecord) : Prop where
  started : Started db k
  intent : ∃ a token version, db.intent? k = some a ∧
    r = (Provider.apply rt a.tool
      ⟨operationKeyFor k, token, a.canonicalParameters, version⟩).1 ∧
    ∀ d ∈ db.decisionsOf k, d.decision = .approve →
      d.intentDigest = rt.sha256 ((digestEnvelope a.tool k.tenantId a.requesterId k.revision
        a.canonicalParameters).dumps canonicalOptions)

/-- The provider performs the command of the revision `k`. -/
def Delivers (q : Performance (demo rt)) (k : RevisionKey) : Prop :=
  ∃ tool command, q.request.call = .execute tool command ∧ command.operationKey = operationKeyFor k

/-- What was sent to the adapter is what the revision holds. -/
theorem effectOf_sent (h : Run rt (fun _ => True) s) {e : Entry} (he : e ∈ s.trace) {tool : ToolName}
    {command : AdapterCommand} (hact : e.act = .call (.execute tool command)) :
    ∃ k, command.operationKey = operationKeyFor k ∧
      EffectOf rt s.db k (Provider.apply rt tool command).1 := by
  have hadmits : ∀ op, True → Admits AnyPolicy op := fun op _ => admits_any op
  have hrec := recorded_of_run covers_any hadmits h e he
  have hsound := sound_of_run covers_any hadmits h
  obtain ⟨k, a, permit, -, ha, -, -, -, hop, htool, hparams, hdigest⟩ :=
    executing_of_eventOk hact hrec.ok
  obtain ⟨a', ha', hsame⟩ := (hrec.later k).identity a ha
  have hstarted := (exclusive_of_run covers_any hadmits h).events e he k ⟨tool, command, hact, hop⟩
  obtain ⟨operationKey, token, parameters, version⟩ := command
  obtain rfl : operationKey = operationKeyFor k := hop
  obtain rfl : parameters = a.canonicalParameters := hparams
  subst htool
  refine ⟨k, rfl, hstarted, a', token, version, ha', ?_, fun d hd _ => ?_⟩
  · rw [hsame.tool, hsame.parameters]
  · -- The decisions carry the digest of the row, and the row keeps its identity.
    have hv := (hrec.rows k).valid ha
    have hv' : Valid AnyPolicy k a' (revision s.db k) := WellFormed.valid (hsound.rows k) ha'
    rw [hv'.evidence.digests d hd, hsame.digest, ← hdigest, hsame.tool, hsame.requester,
      hsame.parameters, ← hv.core.key]
    rfl

/-- The provider has no effect but those of permitted commands, is asked for none twice, and performs
none whose key it has recorded. -/
theorem effects_are_permitted (h : RunBeside rt j) :
    (∀ key r, j.service.operations key = some r →
      ∃ k, key = operationKeyFor k ∧ EffectOf rt j.sys.db k r) ∧
      (j.log.Pairwise fun q q' => ∀ k, Delivers q k → ¬ Delivers q' k) ∧
      ∀ q ∈ j.log, ∀ tool command, q.request.call = .execute tool command →
        q.before.operations command.operationKey = none := by
  refine ⟨?_, ?_, unrecorded_of_beside h⟩
  · intro key r hr
    obtain ⟨q, hq, tool, command, happlies, rfl, rfl⟩ := applied_of_beside h key r hr
    obtain ⟨e, he, hact, -⟩ := event_of_request (h.faithful.sent q hq)
    have hcall : q.request.call = .execute tool command := congrArg Sigma.fst happlies.1
    rw [hcall] at hact
    exact effectOf_sent h.run he hact
  · refine h.faithful.once.imp_of_mem fun {q q'} hq hq' hne k hk hk' => ?_
    obtain ⟨tool, command, hcall, hop⟩ := hk
    obtain ⟨tool', command', hcall', hop'⟩ := hk'
    exact hne (congrArg _ (one_performance h hq hq' hcall hcall' (hop.trans hop'.symm)))

end Provider

/-! ## The scenario -/

/-- The operations of the scenario. -/
def deletionOps : List Op :=
  [.create (Scenario.creation .deleteResource), Scenario.recording .deleteResource,
    .decide (Scenario.approval .deleteResource "alice" Scenario.alice_ne 1 4),
    .decide (Scenario.approval .deleteResource "bob" Scenario.bob_ne 2 6), .workerTick]

/-- The scenario beside the demo provider. -/
def deletionBeside : Beside Scenario.runtime :=
  Joint.playAll (code Scenario.runtime) Scenario.environment 200 deletionOps
    ⟨Scenario.start, Provider.fresh, []⟩

theorem deletionBeside_run : RunBeside Scenario.runtime deletionBeside :=
  .of Scenario.approvers [Scenario.seedBundle]
    (Joint.reachable_playAll deletionOps (fun _ _ => trivial) .initial)

set_option maxRecDepth 100000 in
theorem deletionBeside_succeeds :
    stateOf deletionBeside.sys.db Scenario.key = some .succeeded := by
  decide +kernel

/-- The deletion is at the provider. -/
theorem reports_agree_deletion :
    ∃ r, deletionBeside.service.operations (operationKeyFor Scenario.key) = some r ∧
      r.outcome = .succeeded :=
  (reports_agree deletionBeside_run).succeeded Scenario.key deletionBeside_succeeds

/-- The deletion at the provider is the approved one. -/
theorem effects_are_permitted_deletion :
    ∃ r, deletionBeside.service.operations (operationKeyFor Scenario.key) = some r ∧
      ∃ k, operationKeyFor Scenario.key = operationKeyFor k ∧
        EffectOf Scenario.runtime deletionBeside.sys.db k r := by
  have hne : ExecutionOutcome.succeeded ≠ .unknown := by decide
  rcases record_of_state deletionBeside_run hne deletionBeside_succeeds with
    ⟨r, hr, -⟩ | ⟨hfailed, -⟩
  · exact ⟨r, hr, (effects_are_permitted deletionBeside_run).1 _ r hr⟩
  · cases hfailed

end HitlOps.Properties
