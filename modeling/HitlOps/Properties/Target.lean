import HitlOps.Lifecycle.Fetches
import HitlOps.Properties.Provider

/-!
# Commands go to the target that was checked

Every command rests on a snapshot that the same process has fetched: of the target of the command, found
in order, and of the version that the command names. Beside the demo provider, which compares versions
before it acts, a command is applied only while its target has the version that was checked.
-/

set_option autoImplicit false

namespace HitlOps.Properties

open HitlOps.Python HitlOps.Domain HitlOps.Infrastructure HitlOps.Application HitlOps.Adapters
open HitlOps.Transaction HitlOps.Lifecycle

section Target

variable {rt : Runtime} {s : State} {j : Beside rt}

/-- The process of the event has fetched a snapshot of the target of the command: it passes the
preconditions, and the command names its version. -/
def RestsOnSnapshot (e : Entry) (tool : ToolName) (command : AdapterCommand) : Prop :=
  ∃ sn, (.did (.call (.fetch tool command.parameters)) (.snapshot sn) : Obs Db) ∈ e.history ∧
    command.resourceVersion = sn.resourceVersion ∧ checkPreconditions command.parameters sn = none

/-- Whatever the target query and the adapter do, a command rests on a snapshot. -/
theorem commands_rest_on_snapshots (h : Run rt (fun _ => True) s) :
    ∀ e ∈ s.trace, ∀ tool command, e.act = .call (.execute tool command) →
      RestsOnSnapshot e tool command :=
  fun _ he _ _ hact => snapshot_of_run h he hact

set_option maxRecDepth 100000 in
/-- The deletion of the scenario rests on a snapshot. -/
theorem commands_rest_on_snapshots_deletion :
    ∃ e ∈ (Scenario.after Scenario.deletion).trace, ∃ tool command,
      e.act = .call (.execute tool command) ∧ RestsOnSnapshot e tool command := by
  have hsent : ((Scenario.after Scenario.deletion).trace.any (invokes Scenario.key)) = true := by
    decide +kernel
  obtain ⟨e, he, hinv⟩ := List.any_eq_true.1 hsent
  obtain ⟨tool, command, hact, -⟩ := invokes_iff.1 hinv
  have hrun := Scenario.run_after (fun _ => True) Scenario.deletion fun _ _ => trivial
  exact ⟨e, he, tool, command, hact, commands_rest_on_snapshots hrun e he tool command hact⟩

/-! ## Beside the demo provider -/

/-- Before it performed `q`, the provider told the same process of a snapshot that passes the
preconditions, and the target has kept its version since. -/
def OnCheckedTarget (rt : Runtime) (older : List (Performance (demo rt))) (q : Performance (demo rt))
    (tool : ToolName) (command : AdapterCommand) : Prop :=
  ∃ q₀ ∈ older, ∃ sn, q₀.request.pid = q.request.pid ∧
    q₀.reply = ⟨.fetch tool command.parameters, .snapshot sn⟩ ∧
    checkPreconditions command.parameters sn = none ∧
    q.before.version (Provider.targetKey rt tool command.parameters) =
      q₀.before.version (Provider.targetKey rt tool command.parameters)

theorem versionText_injective {n m : Nat} (h : Provider.versionText n = Provider.versionText m) :
    n = m := by
  have hlist := congrArg String.toList h
  simp only [Provider.versionText, String.toList_append] at hlist
  exact toString_injective (String.toList_inj.1 (List.append_cancel_left hlist))

/-- A fetch tells the version that the target has. -/
theorem version_of_fetch {q : Performance (demo rt)} {tool : ToolName} {parameters : Dict}
    {sn : TargetSnapshot} (hq : q.reply = ⟨.fetch tool parameters, .snapshot sn⟩) :
    sn.resourceVersion =
      some (Provider.versionText (q.before.version (Provider.targetKey rt tool parameters))) := by
  obtain ⟨⟨pid, place, call⟩, answer, before, after, performed⟩ := q
  cases hq
  have hsome : some (Provider.fetch rt tool parameters before) = some (after, .snapshot sn) :=
    performed
  have hanswer := congrArg Prod.snd (Option.some.inj hsome)
  cases hanswer
  rfl

/-- An applied command met the version that it names. -/
theorem version_of_applies {q : Performance (demo rt)} {tool : ToolName} {command : AdapterCommand}
    (ha : Applies q tool command) {t : String} (ht : command.resourceVersion = some t) :
    t = Provider.versionText
      (q.before.version (Provider.targetKey rt tool command.parameters)) := by
  obtain ⟨hreply, hnone, -⟩ := ha
  have heffect := effect_of_reply hreply
  generalize hanswer : ExecuteAnswer.result (Provider.apply rt tool command).2 = answer at heffect
  cases heffect with
  | known r hr hv =>
      rw [hnone] at hr
      cases hr
  | refused hv => cases hanswer
  | applied hnone' hversion hv => exact hversion t ht

/-- The provider changes a target only as it was when the worker checked it. -/
theorem effects_hit_checked_targets (h : RunBeside rt j) :
    ∀ newer q older, j.log = newer ++ q :: older → ∀ tool command, Applies q tool command →
      OnCheckedTarget rt older q tool command := by
  intro newer q older hlog tool command happlies
  obtain ⟨assignments, bundles, hreach⟩ := h
  have hrun : Run rt (fun _ => True) j.sys := .of assignments bundles hreach.sys
  obtain ⟨e, he, hrequest, haccounted⟩ := Joint.prompted_of_reachable hreach newer q older hlog
  obtain ⟨hact, hpid⟩ := Joint.of_request hrequest
  have hcall : q.request.call = .execute tool command := congrArg Sigma.fst happlies.1
  rw [hcall] at hact
  -- The command rests on a snapshot that the same process has fetched and checked.
  obtain ⟨sn, hmem, hversion, hchecked⟩ := snapshot_of_run hrun he hact
  obtain ⟨l, pre, hhistory⟩ := List.append_of_mem hmem
  have hsuffix : .did (.call (.fetch tool command.parameters)) (.snapshot sn) :: pre <:+ e.history := by
    rw [hhistory]
    exact List.suffix_append _ _
  obtain ⟨rest, -, hheard⟩ := haccounted _ _ pre hsuffix
  -- The answer to that fetch came from the provider, or it would be no snapshot.
  cases hheard with
  | performed q₀ hq₀ hr hreply =>
      refine ⟨q₀, hq₀, sn, ?_, hreply, hchecked, ?_⟩
      · rw [hr]
        exact hpid
      · rw [version_of_fetch hreply] at hversion
        exact (versionText_injective (version_of_applies happlies hversion)).symm
  | broken hbroken => exact absurd rfl (hbroken sn)
  | elsewhere hnone => cases hnone

/-- The deletion was applied to the target that was checked. -/
theorem effects_hit_checked_targets_deletion :
    ∃ q ∈ deletionBeside.log, ∃ tool command older, Applies q tool command ∧
      OnCheckedTarget Scenario.runtime older q tool command := by
  have hne : ExecutionOutcome.succeeded ≠ .unknown := by decide
  rcases record_of_state deletionBeside_run hne deletionBeside_succeeds with
    ⟨r, hr, -⟩ | ⟨hfailed, -⟩
  · obtain ⟨q, hq, tool, command, happlies, -⟩ := applied_of_beside deletionBeside_run _ r hr
    obtain ⟨newer, older, hlog⟩ := List.append_of_mem hq
    exact ⟨q, hq, tool, command, older, happlies,
      effects_hit_checked_targets deletionBeside_run newer q older hlog tool command happlies⟩
  · cases hfailed

end Target

end HitlOps.Properties
