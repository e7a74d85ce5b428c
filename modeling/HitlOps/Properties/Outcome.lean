import HitlOps.Lifecycle.Provenance
import HitlOps.Lifecycle.Rounds
import HitlOps.Scenario

/-!
# Outcomes are never guessed

Over every run: a commit takes a revision into `SUCCEEDED` or `FAILED` only when the newest answer
of its transaction is the provider's word for that outcome. A timeout, another exception, an expired
lease and an exhausted reconciliation tell no outcome.
-/

set_option autoImplicit false

namespace HitlOps.Properties

open HitlOps.Python HitlOps.Domain HitlOps.Infrastructure HitlOps.Application HitlOps.Adapters
open HitlOps.Transaction HitlOps.Lifecycle

/-- The process of the event was told the outcome: a call for the operation key of `k` returned it,
or the command was refused before it was sent. -/
def Told (e : Entry) (k : RevisionKey) (outcome : ExecutionOutcome) : Prop :=
  ∃ c answer, newestAnswer e.history = some ⟨c, answer⟩ ∧
    (.did (.call c) answer : Obs Db) ∈ e.history ∧ Tells (operationKeyFor k) outcome c answer

theorem mem_of_newestAnswer {h : List (Obs Db)} {c : Call} {answer : Answer c}
    (ha : newestAnswer h = some ⟨c, answer⟩) : (.did (.call c) answer : Obs Db) ∈ h := by
  induction h with
  | nil => cases ha
  | cons o h ih =>
      cases o with
      | sent c' => cases ha
      | did st r =>
          cases st with
          | call c' =>
              cases ha
              exact List.mem_cons_self
          | commit => cases ha
          | rollback => cases ha
          | _ => exact List.mem_cons_of_mem _ (ih ha)

theorem targetState_mem_claimedStates (outcome : ExecutionOutcome) :
    targetState outcome ∈ claimedStates := by
  cases outcome <;> decide

/-- A deed that enters a final state of a revision rests on an answer. -/
theorem told_of_deed {rt : Runtime} {e : Entry} (hd : Deed rt e.history)
    {before : List StateTransition} {t : StateTransition} (he : entered e.history = before ++ [t])
    {outcome : ExecutionOutcome} (hne : outcome ≠ .unknown)
    (ht : t.toState = targetState outcome) : Told e t.key outcome := by
  have hlast : t ∈ entered e.history := by
    rw [he]
    exact List.mem_append_right _ (List.mem_singleton_self t)
  -- Only a move enters a final state; it has heard the answer that tells it.
  cases hd with
  | plain hfiled hentered hescalated hasked =>
      have hplain := (hentered t hlast).target
      rw [ht] at hplain
      exact absurd (targetState_mem_claimedStates outcome) hplain
  | claim k t' σ keys hσ hk hentered hkey hstate hescalated hfiled hasked =>
      rw [hentered, List.mem_singleton] at hlast
      subst hlast
      rw [ht] at hstate
      exact absurd hstate (targetState_ne_revalidating outcome)
  | move k t' x new hx hentered hkey hstate hfiled hstatus hattempt hcount hevident hescalated hasked =>
      rw [hentered, List.mem_singleton] at hlast
      subst hlast
      obtain ⟨c, answer, hanswer, htells⟩ := hevident outcome hne ht
      exact ⟨c, answer, hanswer, mem_of_newestAnswer hanswer, hkey ▸ htells⟩
  | keep k x answer dbNow commandId hx hkey hread hlocked hasked hentered hfiled hescalated =>
      rw [hentered] at hlast
      cases hlast

/-- A revision reaches a final state only on the provider's word. -/
theorem outcome_is_told {rt : Runtime} {s : State} (h : Run rt (fun _ => True) s) :
    (∀ k outcome, outcome ≠ .unknown → stateOf s.db k = some (targetState outcome) →
      ∃ e ∈ s.trace, Reaches e k (targetState outcome) ∧ Told e k outcome) ∧
      ∀ e ∈ s.trace, ∀ k outcome, outcome ≠ .unknown → Reaches e k (targetState outcome) →
        Told e k outcome := by
  obtain ⟨hfiling, -⟩ : (filing rt fun _ _ => True).Followed (fun _ _ _ => True) s ∧ Keyed s.db :=
    filing_of_run (fun _ _ _ _ _ _ _ => trivial)
      (fun op _ => by cases op <;> first | exact trivial | exact fun _ => trivial) h
  have htold : ∀ e ∈ s.trace, ∀ k outcome, outcome ≠ .unknown → Reaches e k (targetState outcome) →
      Told e k outcome := by
    intro e he k outcome hne hreach
    have hrec := recorded_of_run (P := AnyPolicy) covers_any (fun op _ => admits_any op) h e he
    obtain ⟨b, before, t, -, -, hentered, ht, hkey⟩ := entered_of_reaches hrec hreach
    have hdeed : Deed rt e.history := by
      have hmust := (hfiling.trace e he).2
      rw [hreach.commit] at hmust
      exact hmust.deed
    exact hkey ▸ told_of_deed hdeed hentered hne ht
  refine ⟨fun k outcome hne hs => ?_, htold⟩
  obtain ⟨e, he, hreach⟩ := reached_of_run h hs
  exact ⟨e, he, hreach, htold e he k outcome hne hreach⟩

/-- The provider told the outcome of the deletion of the scenario. -/
theorem outcome_is_told_deletion :
    ∃ e ∈ (Scenario.after Scenario.deletion).trace,
      Reaches e Scenario.key .succeeded ∧ Told e Scenario.key .succeeded := by
  obtain ⟨a, ha, hstate⟩ := Scenario.deletion_succeeds
  have hs : stateOf (Scenario.after Scenario.deletion).db Scenario.key = some .succeeded := by
    rw [stateOf, ha, Option.map_some, hstate]
  exact (outcome_is_told (Scenario.run_after _ _ fun _ _ => trivial)).1 Scenario.key .succeeded
    (by decide) hs

end HitlOps.Properties
