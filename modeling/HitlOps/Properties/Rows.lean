import HitlOps.Lifecycle.InStep
import HitlOps.Scenario

/-!
# Rows that follow the log

In every reachable store whose intents have identifiers of their own, the execution row of a
revision exists exactly behind a claim and its status goes with the state, and an evaluated revision
has one risk row and one policy row, whose disposition is where the log went.
-/

set_option autoImplicit false

namespace HitlOps.Properties

open HitlOps.Python HitlOps.Domain HitlOps.Infrastructure HitlOps.Application HitlOps.Transaction
open HitlOps.Lifecycle

/-- The status of an execution row goes with the state of its intent. -/
structure Agrees (status : ExecutionStatus) (state : IntentState) : Prop where
  claimed : status = .claimed ↔ state = .revalidating
  executing : status = .executing ↔ state = .executing
  unknown : status = .unknown ↔ state = .executionUnknown
  succeeded : status = .succeeded ↔ state = .succeeded
  failed : status = .failed ↔ state = .failed ∨ state = .stale ∨ state = .expired

theorem agrees_of_statusFor {status : ExecutionStatus} {state : IntentState}
    (h : statusFor state = some status) : Agrees status state := by
  cases state <;> cases h <;> exact ⟨by decide, by decide, by decide, by decide, by decide⟩

/-- The rows of the revision `k` follow its log. -/
structure RowsFollow (db : Store) (k : RevisionKey) : Prop where
  present : rowsOf db k ≠ [] ↔ ∃ t ∈ db.transitionsOf k, t.toState = .revalidating
  unique : (rowsOf db k).length ≤ 1
  behind : ∀ a, db.intent? k = some a → a.state ∈ claimedStates → rowsOf db k ≠ []
  status : ∀ x ∈ rowsOf db k, ∃ a, db.intent? k = some a ∧ Agrees x.status a.state
  attempt : ∀ x ∈ rowsOf db k, x.attempt = 1
  evaluated : (∃ t ∈ db.transitionsOf k, t.toState = .policyEvaluated) →
    ∃ risk policy, db.risksOf k = [risk] ∧ db.policiesOf k = [policy] ∧
      ∃ t ∈ db.transitionsOf k, t.fromState = some .policyEvaluated ∧
        t.toState = routeStateByDisposition policy.evaluation.disposition

/-- A log that ends behind a claim has been through `REVALIDATING`. -/
theorem claimed_of_chain {log : List StateTransition} {state : IntentState}
    (h : Chain log state) (hs : state ∈ claimedStates) :
    ∃ t ∈ log, t.toState = .revalidating := by
  induction h with
  | born hfrom hto hseq => exact absurd hs (by decide)
  | @next log s s' t h hfrom hto hlegal hseq ih =>
      have hcases : s' = .revalidating ∨ s ∈ claimedStates := by
        revert hlegal hs
        cases s <;> cases s' <;> decide
      rcases hcases with rfl | hback
      · exact ⟨t, List.mem_append_right _ (List.mem_singleton_self t), hto⟩
      · obtain ⟨u, hu, hreval⟩ := ih hback
        exact ⟨u, List.mem_append_left _ hu, hreval⟩

/-- The rows of every revision follow its log. -/
theorem rows_follow {rt : Runtime} {s : State} (h : Run rt (fun _ => True) s)
    (hu : UniqueIds s.db) (k : RevisionKey) : RowsFollow s.db k := by
  have hpaired := (tidy_of_run h hu).inStep k
  have hwf := (sound_of_run (P := AnyPolicy) covers_any (fun op _ => admits_any op) h).rows k
  -- The row comes with the first claim, which is also what enters `REVALIDATING` first.
  have hpresent : rowsOf s.db k ≠ [] ↔ ∃ t ∈ s.db.transitionsOf k, t.toState = .revalidating := by
    constructor
    · intro hne
      obtain ⟨x, hx⟩ := List.exists_mem_of_ne_nil _ hne
      exact (hpaired.of_mem hx).2.2.1
    · intro hyes
      cases hpaired with
      | unclaimed hno hrows =>
          obtain ⟨t, ht, hreval⟩ := hyes
          exact absurd hreval (hno t ht)
      | claimed a x hlog ha hrows hstatus hattempt =>
          rw [hrows]
          exact List.cons_ne_nil _ _
  exact
    { present := hpresent
      unique := by
        cases hpaired with
        | unclaimed hno hrows =>
            rw [hrows]
            exact Nat.zero_le 1
        | claimed a x hlog ha hrows hstatus hattempt =>
            rw [hrows]
            exact Nat.le_refl 1
      behind := by
        intro a ha hstate
        have hchain := (hwf.valid (show (revision s.db k).intent = some a from ha)).core.chain
        exact hpresent.2 (claimed_of_chain hchain hstate)
      status := by
        intro x hx
        obtain ⟨-, -, -, a, ha, hstatus⟩ := hpaired.of_mem hx
        exact ⟨a, ha, agrees_of_statusFor hstatus⟩
      attempt := fun x hx => (hpaired.of_mem hx).2.1
      evaluated := by
        intro hyes
        cases ha : (revision s.db k).intent with
        | none =>
            obtain ⟨t, ht, -⟩ := hyes
            -- A revision without an intent has no log.
            have hempty : s.db.transitionsOf k = [] := congrArg Revision.log (hwf.eq_empty ha)
            rw [hempty] at ht
            cases ht
        | some a =>
            -- The two evaluations are written together, so there are as many of one as of the other.
            obtain ⟨policy, hpolicy, hroute⟩ := (hwf.valid ha).evidence.routed hyes
            have hpolicies : s.db.policiesOf k = [policy] := hpolicy
            have hlength := length_risksOf h k
            rw [hpolicies] at hlength
            obtain ⟨risk, hrisk⟩ := List.length_eq_one_iff.1 hlength
            exact ⟨risk, policy, hrisk, hpolicies, hroute⟩ }

set_option maxRecDepth 100000 in
/-- The rows of the deletion of the scenario follow its log. -/
theorem rows_follow_deletion :
    RowsFollow (Scenario.after Scenario.deletion).db Scenario.key ∧
      rowsOf (Scenario.after Scenario.deletion).db Scenario.key ≠ [] := by
  have hkeys : (Scenario.after Scenario.deletion).db.intents.map (·.key) = [Scenario.key] := by
    decide +kernel
  have hone : ∀ k, ((Scenario.after Scenario.deletion).db.intent? k).isSome → k = Scenario.key := by
    intro k hk
    obtain ⟨a, ha⟩ := Option.isSome_iff_exists.1 hk
    have hmem := List.mem_map_of_mem (f := (·.key)) (List.mem_of_find?_eq_some ha)
    rw [hkeys, List.mem_singleton] at hmem
    exact (key_of_intent? ha).symm.trans hmem
  have hfollow := rows_follow (Scenario.run_after _ Scenario.deletion fun _ _ => trivial)
    (fun k k' hk hk' _ => by rw [hone k hk, hone k' hk']) Scenario.key
  obtain ⟨a, ha, hstate⟩ := Scenario.deletion_succeeds
  exact ⟨hfollow, hfollow.behind a ha (by rw [hstate]; decide)⟩

end HitlOps.Properties
