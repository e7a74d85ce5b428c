import HitlOps.Adapters.Demo
import HitlOps.Lifecycle.Dispatch
import HitlOps.Lifecycle.Filing
import HitlOps.Transaction.Service

/-!
# The operations beside the demo provider

`demo` puts the provider of `adapters/demo.py` behind the calls of the operations. All workers share one
provider, as one `DemoInfrastructureAdapter` serves them. A command may be applied while its caller sees
a timeout, or is dead; a target may be rotated at any time.

The records of the provider only grow. `recorded_of_besides` says which command each comes from, and
`backed_of_besides` that an answer which tells an outcome has its record, or refused the command.
-/

set_option autoImplicit false

namespace HitlOps.Lifecycle

open HitlOps.Python HitlOps.Domain HitlOps.Infrastructure HitlOps.Application HitlOps.Adapters
open HitlOps.Transaction

/-! ## The service -/

/-- What a caller may see although the provider did not answer it. -/
def ConnectionBroke : (c : Call) → Answer c → Prop
  | .fetch _ _, answer => ∀ s, answer ≠ .snapshot s
  | .execute _ _, answer => answer = .timeout ∨ answer = .error ∨ answer = .cancelled
  | .lookupStatus _ _ _, answer => ∀ r, answer ≠ .result r
  | .propose _ _, _ => False
  | .publishPending, _ => False

/-- What the provider does with a call; proposals and messages go elsewhere. -/
def performOf (rt : Runtime) : (c : Call) → Option (Provider → Provider × Answer c)
  | .fetch tool parameters => some (Provider.fetch rt tool parameters)
  | .execute tool command => some (Provider.execute rt tool command)
  | .lookupStatus tool operationKey id => some (Provider.lookupStatus tool operationKey id)
  | .propose _ _ => none
  | .publishPending => none

/-- The demo provider as a service. -/
@[reducible] def demo (rt : Runtime) : Service Db where
  State := Provider
  perform := performOf rt
  Broken := ConnectionBroke
  Drifts := fun v v' => ∃ tool parameters, v' = v.rotateTarget rt tool parameters

/-- The operations with their provider. -/
abbrev Beside (rt : Runtime) := Joint (demo rt) Error Result Op

/-- The states of the runs of all operations beside a provider that has just started. -/
inductive RunBeside (rt : Runtime) (j : Beside rt) : Prop
  | of (assignments : List RoleAssignmentRow) (bundles : List PolicyBundleRow)
      (h : Joint.Reachable (code rt) (fun _ => True) (initialStore assignments bundles)
        Provider.fresh j)

section Facts

variable {rt : Runtime} {j : Beside rt}

theorem RunBeside.run (h : RunBeside rt j) : Run rt (fun _ => True) j.sys := by
  obtain ⟨assignments, bundles, h⟩ := h
  exact .of assignments bundles h.sys

theorem RunBeside.faithful (h : RunBeside rt j) : Joint.Faithful j := by
  obtain ⟨assignments, bundles, h⟩ := h
  exact Joint.faithful_of_reachable h

theorem RunBeside.accounted (h : RunBeside rt j) : Joint.AllAccounted j := by
  obtain ⟨assignments, bundles, h⟩ := h
  exact Joint.accounted_of_reachable h

/-! ## Performances -/

/-- The provider applies the command. -/
def Applies (q : Performance (demo rt)) (tool : ToolName) (command : AdapterCommand) : Prop :=
  q.reply = ⟨.execute tool command, .result (Provider.apply rt tool command).2⟩ ∧
    q.before.operations command.operationKey = none ∧
    q.after.operations = Function.update q.before.operations command.operationKey
      (some (Provider.apply rt tool command).1)

/-- A command has its effect on the provider. -/
theorem effect_of_reply {q : Performance (demo rt)} {tool : ToolName} {command : AdapterCommand}
    {answer : ExecuteAnswer} (h : q.reply = ⟨.execute tool command, answer⟩) :
    Provider.Effect rt tool command q.before q.after answer := by
  obtain ⟨⟨pid, place, call⟩, answer', before, after, performed⟩ := q
  cases h
  have hsome : some (Provider.execute rt tool command before) = some (after, answer') := performed
  have heffect := Provider.effect_execute rt tool command before
  rw [Option.some.inj hsome] at heffect
  exact heffect

/-- A lookup answers what the provider has recorded. -/
theorem lookup_of_reply {q : Performance (demo rt)} {tool : ToolName} {operationKey : String}
    {id : Option String} {answer : LookupAnswer}
    (h : q.reply = ⟨.lookupStatus tool operationKey id, answer⟩) :
    answer = (Provider.lookupStatus tool operationKey id q.after).2 := by
  obtain ⟨⟨pid, place, call⟩, answer', before, after, performed⟩ := q
  cases h
  have hsome : some (Provider.lookupStatus tool operationKey id before) = some (after, answer') :=
    performed
  have hsame := Provider.lookupStatus_fst tool operationKey id before
  rw [Option.some.inj hsome] at hsame
  cases hsame
  exact (congrArg Prod.snd (Option.some.inj hsome)).symm

/-- A performance leaves the records alone, or applies a command. -/
theorem performance_cases (q : Performance (demo rt)) :
    q.after.operations = q.before.operations ∨ ∃ tool command, Applies q tool command := by
  obtain ⟨⟨pid, place, call⟩, answer, before, after, performed⟩ := q
  cases call with
  | fetch tool parameters =>
      have hsome : some (Provider.fetch rt tool parameters before) = some (after, answer) := performed
      left
      have hsame : (Provider.fetch rt tool parameters before).1.operations = before.operations :=
        Provider.fetch_operations before parameters
      rw [Option.some.inj hsome] at hsame
      exact hsame
  | execute tool command =>
      have heffect := effect_of_reply
        (q := ⟨⟨pid, place, .execute tool command⟩, answer, before, after, performed⟩) rfl
      cases heffect with
      | known r hr hv => exact .inl (congrArg Provider.operations hv)
      | refused hv => exact .inl hv
      | applied hnone hversion hv => exact .inr ⟨tool, command, rfl, hnone, hv⟩
  | lookupStatus tool operationKey id =>
      have hsome : some (Provider.lookupStatus tool operationKey id before) = some (after, answer) :=
        performed
      left
      have hsame := Provider.lookupStatus_fst tool operationKey id before
      rw [Option.some.inj hsome] at hsame
      exact congrArg Provider.operations hsame
  | propose request context => cases performed
  | publishPending => cases performed

/-! ## The records of the provider -/

/-- Every record comes from a command that the provider has applied. -/
def AllApplied (v : Provider) (log : List (Performance (demo rt))) : Prop :=
  ∀ key r, v.operations key = some r → ∃ q ∈ log, ∃ tool command, Applies q tool command ∧
    command.operationKey = key ∧ r = (Provider.apply rt tool command).1

/-- An answer that tells an outcome has its record, or it refused the command. -/
def Backed (v : Provider) (reply : Σ c : Call, Answer c) : Prop :=
  ∀ key outcome, outcome ≠ .unknown → Tells key outcome reply.1 reply.2 →
    (∃ r, v.operations key = some r ∧ r.outcome = outcome) ∨
      outcome = .failed ∧ ∃ tool command, command.operationKey = key ∧
        reply = ⟨.execute tool command, .preSend⟩

/-- A record stays as it is. -/
theorem kept_of_performance (q : Performance (demo rt)) {key : String} {r : ProviderRecord}
    (hr : q.before.operations key = some r) : q.after.operations key = some r := by
  rcases performance_cases q with hsame | ⟨tool, command, -, hnone, hafter⟩
  · rw [hsame]
    exact hr
  · rw [hafter, Function.update_of_ne]
    · exact hr
    · rintro rfl
      rw [hnone] at hr
      cases hr

theorem Backed.mono {v v' : Provider} {reply : Σ c : Call, Answer c} (h : Backed v reply)
    (hkept : ∀ key r, v.operations key = some r → v'.operations key = some r) : Backed v' reply := by
  intro key outcome hne htells
  rcases h key outcome hne htells with ⟨r, hr, hout⟩ | hrefused
  · exact .inl ⟨r, hkept key r hr, hout⟩
  · exact .inr hrefused

theorem parse?_value (outcome : ExecutionOutcome) :
    ExecutionOutcome.parse? outcome.value = some outcome := by
  cases outcome <;> rfl

/-- A performed command backs its answer. -/
theorem backed_execute {q : Performance (demo rt)} {tool : ToolName} {command : AdapterCommand}
    {answer : ExecuteAnswer} (hq : q.reply = ⟨.execute tool command, answer⟩) :
    Backed q.after ⟨.execute tool command, answer⟩ := by
  intro key outcome hne htells
  obtain ⟨rfl, hanswer⟩ := htells
  have heffect := effect_of_reply hq
  rcases hanswer with ⟨res, hres, hparse⟩ | ⟨hfailed, hpre⟩
  · left
    cases heffect with
    | known r hr hv =>
        cases hres
        have hout : ExecutionOutcome.parse? r.outcome.value = some outcome := hparse
        rw [parse?_value, Option.some.injEq] at hout
        rw [hv]
        exact ⟨r, hr, hout⟩
    | refused hv => cases hres
    | applied hnone hversion hv =>
        cases hres
        refine ⟨(Provider.apply rt tool command).1, ?_, ?_⟩
        · rw [hv]
          exact Function.update_self ..
        · -- The answer says what is recorded, as it does not say `UNKNOWN`.
          rcases Provider.apply_outcome rt tool command with hsame | hunknown
          · rw [hsame, parse?_value, Option.some.injEq] at hparse
            exact hparse
          · rw [hunknown, parse?_value, Option.some.injEq] at hparse
            exact absurd hparse.symm hne
  · have hpre' : answer = .preSend := hpre
    subst hpre'
    exact .inr ⟨hfailed, tool, command, rfl, rfl⟩

/-- A performed lookup backs its answer. -/
theorem backed_lookup {q : Performance (demo rt)} {tool : ToolName} {operationKey : String}
    {id : Option String} {answer : LookupAnswer}
    (hq : q.reply = ⟨.lookupStatus tool operationKey id, answer⟩) :
    Backed q.after ⟨.lookupStatus tool operationKey id, answer⟩ := by
  intro key outcome hne htells
  obtain ⟨rfl, res, hres, hparse⟩ := htells
  have hres' : answer = .result res := hres
  have hanswer := lookup_of_reply hq
  rw [hres'] at hanswer
  left
  unfold Provider.lookupStatus at hanswer
  split at hanswer
  · -- Without a record the answer says `UNKNOWN`.
    cases hanswer
    rw [parse?_value, Option.some.injEq] at hparse
    exact absurd hparse.symm hne
  · next r hr =>
      cases hanswer
      rw [parse?_value, Option.some.injEq] at hparse
      exact ⟨r, hr, hparse⟩

/-- A performance backs its own answer. -/
theorem backed_of_performance (q : Performance (demo rt)) : Backed q.after q.reply := by
  obtain ⟨⟨pid, place, call⟩, answer, before, after, performed⟩ := q
  cases call with
  | execute tool command =>
      exact backed_execute
        (q := ⟨⟨pid, place, .execute tool command⟩, answer, before, after, performed⟩) rfl
  | lookupStatus tool operationKey id =>
      exact backed_lookup
        (q := ⟨⟨pid, place, .lookupStatus tool operationKey id⟩, answer, before, after, performed⟩) rfl
  | _ => exact fun key outcome hne htells => htells.elim

/-- In every run, every record comes from an applied command. -/
theorem applied_of_beside (h : RunBeside rt j) : AllApplied j.service j.log := by
  obtain ⟨assignments, bundles, h⟩ := h
  refine h.service_invariant (I := AllApplied) (fun key r hr => by cases hr) ?_ ?_
  · intro log q hI key r hr
    rcases performance_cases q with hsame | ⟨tool, command, happlies⟩
    · rw [hsame] at hr
      obtain ⟨q', hq', hrest⟩ := hI key r hr
      exact ⟨q', List.mem_cons_of_mem _ hq', hrest⟩
    · rw [happlies.2.2] at hr
      by_cases hkey : key = command.operationKey
      · subst hkey
        rw [Function.update_self, Option.some.injEq] at hr
        exact ⟨q, List.mem_cons_self, tool, command, happlies, rfl, hr.symm⟩
      · rw [Function.update_of_ne hkey] at hr
        obtain ⟨q', hq', hrest⟩ := hI key r hr
        exact ⟨q', List.mem_cons_of_mem _ hq', hrest⟩
  · rintro log u u' ⟨tool, parameters, rfl⟩ hI
    exact hI

/-- In every run, every answer of the provider is backed. -/
theorem backed_of_beside (h : RunBeside rt j) : ∀ q ∈ j.log, Backed j.service q.reply := by
  obtain ⟨assignments, bundles, h⟩ := h
  refine h.service_invariant (I := fun v log => ∀ q ∈ log, Backed v q.reply)
    (fun q hq => absurd hq List.not_mem_nil) ?_ ?_
  · intro log q hI q' hq'
    rcases List.mem_cons.1 hq' with rfl | hq'
    · exact backed_of_performance q'
    · exact (hI q' hq').mono fun key r hr => kept_of_performance q hr
  · rintro log u u' ⟨tool, parameters, rfl⟩ hI
    exact hI

/-! ## One request for a revision -/

/-- The event behind a request. -/
theorem event_of_request {s : State} {r : Sent Db} (hr : r ∈ s.requests) :
    ∃ e ∈ s.trace, e.act = .call r.call ∧ e.request? = some r := by
  obtain ⟨e, he, her⟩ := List.mem_filterMap.1 hr
  exact ⟨e, he, (Joint.of_request her).1, her⟩

/-- Two performances of commands for one revision are the same. -/
theorem one_performance (h : RunBeside rt j) {q q' : Performance (demo rt)} (hq : q ∈ j.log)
    (hq' : q' ∈ j.log) {tool tool' : ToolName} {command command' : AdapterCommand}
    (hcall : q.request.call = .execute tool command)
    (hcall' : q'.request.call = .execute tool' command')
    (hkey : command.operationKey = command'.operationKey) : q = q' := by
  have hadmits : ∀ op, True → Admits AnyPolicy op := fun op _ => admits_any op
  obtain ⟨e, he, hact, hrequest⟩ := event_of_request (h.faithful.sent q hq)
  obtain ⟨e', he', hact', hrequest'⟩ := event_of_request (h.faithful.sent q' hq')
  rw [hcall] at hact
  rw [hcall'] at hact'
  obtain ⟨k, -, -, -, -, -, -, -, hop, -⟩ :=
    executing_of_eventOk hact (recorded_of_run covers_any hadmits h.run e he).ok
  have hinv : Invokes e k := ⟨tool, command, hact, hop⟩
  have hinv' : Invokes e' k := ⟨tool', command', hact', hkey.symm.trans hop⟩
  -- The revision was sent once, so the events agree.
  have honce := (exclusive_of_run covers_any hadmits h.run).once
  have hsymm : Std.Symm fun e e' : Entry => ∀ k, Invokes e k → ¬ Invokes e' k :=
    ⟨fun e e' hno k hk hk' => hno k hk' hk⟩
  have heq : e = e' := by
    by_contra hne
    exact honce.forall he he' hne k hinv hinv'
  subst heq
  rw [hrequest, Option.some.injEq] at hrequest'
  exact h.faithful.unique hq hq' hrequest'

/-- A command that the provider performs finds no record of its key. -/
theorem unrecorded_of_beside (h : RunBeside rt j) : ∀ q ∈ j.log, ∀ tool command,
    q.request.call = .execute tool command → q.before.operations command.operationKey = none := by
  obtain ⟨assignments, bundles, h⟩ := h
  refine h.invariant (J := fun j : Beside rt => ∀ q ∈ j.log, ∀ tool command,
    q.request.call = .execute tool command → q.before.operations command.operationKey = none)
    (fun q hq => absurd hq List.not_mem_nil) fun j j' hj hm hJ => ?_
  have hnext : RunBeside rt j' := .of assignments bundles (.step hj hm)
  cases hm with
  | own l hl hs hop => exact hJ
  | answer a hp hw hprog hh ha => exact hJ
  | drift hdrift => exact hJ
  | perform r hr hnew hv =>
      intro q hq tool command hcall
      rcases List.mem_cons.1 hq with rfl | hold
      · -- A record would be that of an earlier performance for the same revision.
        refine Option.eq_none_iff_forall_ne_some.2 fun record hrecord => ?_
        obtain ⟨q', hq', tool', command', happlies, hkey, -⟩ :=
          applied_of_beside (.of assignments bundles hj) _ record hrecord
        have hcall' : q'.request.call = .execute tool' command' := congrArg Sigma.fst happlies.1
        have hsame := one_performance hnext hq (List.mem_cons_of_mem _ hq') hcall hcall' hkey.symm
        exact hnew q' hq' (congrArg Performance.request hsame.symm)
      · exact hJ q hold tool command hcall

end Facts

end HitlOps.Lifecycle
