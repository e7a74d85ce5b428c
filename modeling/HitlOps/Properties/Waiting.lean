import HitlOps.Lifecycle.Locking
import HitlOps.Properties.Idempotency

/-!
# Progress of the operations

The locks of the lifecycle never close a cycle of waiting operations, whatever runs beside what and
whichever process dies. Behind every operation that waits stands one that can go on, so the operations
in flight can always be brought to their ends, and an operation that has ended holds nothing.
-/

set_option autoImplicit false

namespace HitlOps.Properties

open HitlOps.Python HitlOps.Domain HitlOps.Application HitlOps.Transaction HitlOps.Lifecycle

section Waiting

variable {rt : Runtime} {allowed : Op → Prop} {s : State}

/-- No operations wait for each other. -/
structure DeadlockFree (rt : Runtime) (s : State) : Prop where
  acyclic : ∀ pid, ¬ Relation.TransGen s.Waits pid pid
  movable : ∀ pid p, s.procs pid = some p → p.outcome? = none →
    ∃ q, Relation.ReflTransGen s.Waits pid q ∧ Sys.CanMove (code rt) s q

/-- An operation that has ended holds no lock and has nothing pending. -/
def LeavesNothing (s : State) : Prop :=
  ∀ pid p, s.procs pid = some p → p.outcome?.isSome →
    (∀ k, s.locks k ≠ some pid) ∧ p.session.pending = []

theorem draw_nonempty (o : Source) : Nonempty (Draw o) := ⟨Scenario.environment.draw o⟩

theorem answer_nonempty (c : Call) : Nonempty (Answer c) := ⟨Scenario.environment.answer c⟩

/-- In every state of every run the locks are taken in order. -/
theorem climbing_of_run (h : Run rt allowed s) :
    locking.Followed EndsReleased s ∧ AllExact s := by
  obtain ⟨assignments, bundles, hreach⟩ := h
  exact ⟨climbing_of_reachable (fun op _ => climbs_code rt op) hreach, exact_of_reachable hreach⟩

/-- Waiting operations form no cycle, and each unfinished one waits for one that can move, if it
waits. -/
theorem deadlock_free (h : Run rt allowed s) : DeadlockFree rt s := by
  obtain ⟨hf, hx⟩ := climbing_of_run h
  constructor
  · intro pid
    exact Sys.not_waits_cycle hf hx pid
  · intro pid p hp hopen
    exact Sys.exists_mover hf hx draw_nonempty answer_nonempty lockLevel_lt hp hopen

/-- From every state the operations in flight can run to their ends. -/
theorem operations_can_end (h : Run rt allowed s) :
    ∃ s', Relation.ReflTransGen (Sys.MoveStep (code rt)) s s' ∧ s'.AtRest ∧ s.SameProcesses s' := by
  obtain ⟨assignments, bundles, hreach⟩ := h
  exact exists_rest (fun op _ => climbs_code rt op) draw_nonempty answer_nonempty lockLevel_lt hreach

/-- Whatever an operation returns or raises, it leaves no lock and no pending write behind. -/
theorem leaves_nothing (h : Run rt allowed s) : LeavesNothing s := by
  obtain ⟨hf, hx⟩ := climbing_of_run h
  intro pid p hp hended
  obtain ⟨r, hr⟩ := Option.isSome_iff_exists.1 hended
  obtain ⟨hheld, hwrites⟩ : Released p.history := hf.post hp hr
  have hexact := hx.procs pid p hp
  constructor
  · intro k hk
    have hmem := (hexact.locks k).1 hk
    rw [hheld] at hmem
    cases hmem
  · have hpending := hexact.pending
    rw [hwrites] at hpending
    exact List.map_eq_nil_iff.1 hpending

end Waiting

/-! ## Two cancellations under one key -/

/-- The first cancellation has its reservation; the second one stands before the same reservation. -/
def contended : List (Move Db Op) :=
  Scenario.complete 0 (.create (Scenario.creation .deleteResource))
    ++ [.spawn cancellation, .go 1 2 Scenario.environment,
      .spawn cancellation, .go 2 1 Scenario.environment]

set_option maxRecDepth 100000 in
theorem contended_facts : ((Scenario.after contended).procs 2).any (fun p => p.outcome?.isNone) ∧
    ((Scenario.after contended).step (code Scenario.runtime) (.run 2)).isNone ∧
    ((Scenario.after contended).procs 0).any (fun p => p.outcome?.isSome) := by
  decide +kernel

theorem contended_unfinished :
    ∃ p, (Scenario.after contended).procs 2 = some p ∧ p.outcome? = none := by
  obtain ⟨p, hp, hopen⟩ := (Option.any_eq_true _ _).1 contended_facts.1
  exact ⟨p, hp, Option.isNone_iff_eq_none.1 hopen⟩

/-- The second cancellation cannot move; behind it stands an operation that can. -/
theorem deadlock_free_contended :
    (Scenario.after contended).step (code Scenario.runtime) (.run 2) = none ∧
      ∃ q, Relation.ReflTransGen (Scenario.after contended).Waits 2 q ∧
        Sys.CanMove (code Scenario.runtime) (Scenario.after contended) q := by
  have hrun := Scenario.run_after (fun _ => True) contended fun _ _ => trivial
  obtain ⟨p, hp, hopen⟩ := contended_unfinished
  exact ⟨Option.isNone_iff_eq_none.1 contended_facts.2.1, (deadlock_free hrun).movable 2 p hp hopen⟩

/-- Both cancellations can still end. -/
theorem operations_can_end_contended :
    (∃ p, (Scenario.after contended).procs 2 = some p ∧ p.outcome? = none) ∧
      ∃ s', Relation.ReflTransGen (Sys.MoveStep (code Scenario.runtime)) (Scenario.after contended) s' ∧
        s'.AtRest ∧ (Scenario.after contended).SameProcesses s' :=
  ⟨contended_unfinished,
    operations_can_end (Scenario.run_after (fun _ => True) contended fun _ _ => trivial)⟩

/-- The creation, which has ended, holds nothing. -/
theorem leaves_nothing_contended : ∃ p, (Scenario.after contended).procs 0 = some p ∧
    (∀ k, (Scenario.after contended).locks k ≠ some 0) ∧ p.session.pending = [] := by
  have hrun := Scenario.run_after (fun _ => True) contended fun _ _ => trivial
  obtain ⟨p, hp, hended⟩ := (Option.any_eq_true _ _).1 contended_facts.2.2
  exact ⟨p, hp, leaves_nothing hrun 0 p hp hended⟩

end HitlOps.Properties
