import HitlOps.Lifecycle.Routes
import HitlOps.Transaction.Progress

/-!
# Runs

The lifecycle contract over whole runs: every reachable store is well formed, committed revisions
only move along `Later`, and every commit of a trace is `Committed`, so it either touches no
revision or moves one revision by the rows of its own transaction.
-/

set_option autoImplicit false

namespace HitlOps.Lifecycle

open HitlOps.Python HitlOps.Domain HitlOps.Infrastructure HitlOps.Application HitlOps.Adapters
open HitlOps.Transaction

/-! ## Ghost values of a run -/

/-- The ghost value of a history. -/
def ghostAfter (history : List (Obs Db)) : Ghost :=
  history.foldr (fun o g => g.observe o) .initial

@[simp] theorem ghostAfter_nil : ghostAfter [] = .initial := rfl

@[simp] theorem ghostAfter_cons (o : Obs Db) (history : List (Obs Db)) :
    ghostAfter (o :: history) = (ghostAfter history).observe o := rfl

/-! ## Commits -/

section Commits

variable {rt : Runtime} {P : PolicyEvaluation → Prop} {allowed : Op → Prop} {s s' : State}

/-- What a commit does to the revisions: nothing, or one move of one revision. -/
inductive Committed (rt : Runtime) (P : PolicyEvaluation → Prop) (e : Entry) : Prop
  | untouched (h : Untouched (ghostAfter e.history))
      (same : ∀ k, revision e.after k = revision e.db k)
  | touched (k : RevisionKey) (b : Store × Instant) (hb : e.session.begun = some b)
      (locked : e.locks (.intent k) = some e.pid)
      (h : Committing rt (ghostAfter e.history) b.2 k (revision e.db k) (revision e.after k))
      (valid : WellFormed P k (revision e.after k)) (later : Later (revision e.db k)
        (revision e.after k)) (same : ∀ k', k' ≠ k → revision e.after k' = revision e.db k')

theorem committed_of_eventOk {e : Entry} (h : (contract rt P).EventOk e) (hact : e.act = .commit) :
    Committed rt P e := by
  simp only [Contract.EventOk, hact] at h
  obtain ⟨held, hcommit, hheld, hother⟩ := h
  cases held with
  | none => exact .untouched hcommit fun k => hother k fun base cur hh => by cases hh
  | some row =>
      obtain ⟨k, base, cur⟩ := row
      obtain ⟨hlock, rfl, rfl, hvalid, hlater⟩ := hheld k base cur rfl
      obtain ⟨b, hb, hcom⟩ := hcommit
      refine .touched k b hb hlock hcom hvalid hlater fun k' hk' => hother k' fun base cur hh => ?_
      cases hh
      exact hk' rfl

/-- A commit moves every revision along `Later`. -/
theorem Committed.later {e : Entry} (h : Committed rt P e) (k : RevisionKey) :
    Later (revision e.db k) (revision e.after k) := by
  cases h with
  | untouched h same =>
      rw [same k]
      exact .refl _
  | touched k' b hb locked h valid hlater same =>
      by_cases hk : k = k'
      · subst hk
        exact hlater
      · rw [same k hk]
        exact .refl _

/-- A revision whose log grew is the one that the commit moved. -/
theorem Committed.moved {e : Entry} (h : Committed rt P e) {k : RevisionKey}
    (hne : revision e.after k ≠ revision e.db k) :
    ∃ b, e.session.begun = some b ∧ e.locks (.intent k) = some e.pid ∧
      Committing rt (ghostAfter e.history) b.2 k (revision e.db k) (revision e.after k) := by
  cases h with
  | untouched h same => exact absurd (same k) hne
  | touched k' b hb locked h valid hlater same =>
      by_cases hk : k = k'
      · subst hk
        exact ⟨b, hb, locked, h⟩
      · exact absurd (same k hk) hne

/-- A step moves every committed revision along `Later`. -/
theorem later_of_progress (h : (contract rt P).Progress allowed s s') (k : RevisionKey) :
    Later (revision s.db k) (revision s'.db k) := by
  cases h with
  | spawn op p hop hp hprocs hnext hdb htrace => rw [hdb]; exact .refl _
  | quiet pid p p' o hp hp' hseen ho hc hprocs hnext hdb htrace => rw [hdb]; exact .refl _
  | commit pid p p' hp hp' hok hprocs hnext hdb htrace =>
      rw [hdb]
      exact (committed_of_eventOk hok rfl).later k
  | call pid p p' c hp hp' hok hprocs hnext hdb htrace => rw [hdb]; exact .refl _
  | crash pid hprocs hnext hdb htrace => rw [hdb]; exact .refl _
  | tick hprocs hnext hdb htrace => rw [hdb]; exact .refl _

end Commits

/-! ## Runs -/

section Runs

variable {rt : Runtime} {P : PolicyEvaluation → Prop} {allowed : Op → Prop} {s : State}

/-- The states of a run are sound for the lifecycle contract. -/
theorem sound_of_run (hP : Covers rt P) (hallowed : ∀ op, allowed op → Admits P op)
    (h : Run rt allowed s) : (contract rt P).Sound s := by
  obtain ⟨assignments, bundles, h⟩ := h
  refine Contract.sound_of_reachable (contract_lawful rt P)
    (fun op hop => verifies hP op (hallowed op hop)) (fun k => ?_) (fun k => ?_) h
  · exact wellFormed_empty P k
  · intro m hm
    cases hm

/-- An invariant of sound steps holds along a run. -/
theorem invariant_of_run (hP : Covers rt P) (hallowed : ∀ op, allowed op → Admits P op)
    {J : State → Prop}
    (hinit : ∀ assignments bundles, J (Sys.initial (initialStore assignments bundles)))
    (hstep : ∀ s s', (contract rt P).Sound s → (contract rt P).Sound s' →
      (contract rt P).Progress allowed s s' → J s → J s')
    (h : Run rt allowed s) : J s := by
  obtain ⟨assignments, bundles, h⟩ := h
  refine Contract.invariant_of_progress (contract_lawful rt P)
    (fun op hop => verifies hP op (hallowed op hop)) (fun k => ?_) (fun k => ?_)
    (hinit assignments bundles) hstep h
  · exact wellFormed_empty P k
  · intro m hm
    cases hm

/-- Every policy evaluation. -/
abbrev AnyPolicy : PolicyEvaluation → Prop := fun _ => True

theorem covers_any : Covers rt AnyPolicy := fun _ _ _ _ _ _ => trivial

theorem admits_any (op : Op) : Admits AnyPolicy op := by
  cases op <;> exact trivial

theorem covers_sound : Covers rt SoundPolicy := fun _ _ _ _ _ h => soundPolicy_of_evaluate h

/-- The invariant of a stored revision. -/
theorem valid_of_sound (hs : (contract rt P).Sound s) {k : RevisionKey} {a : ActionIntent}
    (ha : s.db.intent? k = some a) : Valid P k a (revision s.db k) :=
  WellFormed.valid (hs.rows k) ha

end Runs

/-! ## Traces -/

section Traces

variable {rt : Runtime} {P : PolicyEvaluation → Prop} {allowed : Op → Prop} {s s' : State}

/-- What is known about the events of a trace once and for all. -/
structure Recorded (rt : Runtime) (P : PolicyEvaluation → Prop) (s : State) (e : Entry) :
    Prop where
  ok : (contract rt P).EventOk e
  rows : ∀ k, WellFormed P k (revision e.db k)
  later : ∀ k, Later (revision e.db k) (revision s.db k)
  after : e.act = .commit → ∀ k, Later (revision e.after k) (revision s.db k)

theorem Recorded.mono {e : Entry} (h : Recorded rt P s e)
    (hlater : ∀ k, Later (revision s.db k) (revision s'.db k)) : Recorded rt P s' e where
  ok := h.ok
  rows := h.rows
  later := fun k => (h.later k).trans (hlater k)
  after := fun hact k => (h.after hact k).trans (hlater k)

theorem recorded_step (hs : (contract rt P).Sound s)
    (h : (contract rt P).Progress allowed s s') (hJ : ∀ e ∈ s.trace, Recorded rt P s e) :
    ∀ e ∈ s'.trace, Recorded rt P s' e := by
  have hlater := later_of_progress h
  have hold : ∀ e ∈ s.trace, Recorded rt P s' e := fun e he => (hJ e he).mono hlater
  cases h with
  | spawn op p hop hp hprocs hnext hdb htrace => rw [htrace]; exact hold
  | quiet pid p p' o hp hp' hseen ho hc hprocs hnext hdb htrace => rw [htrace]; exact hold
  | commit pid p p' hp hp' hok hprocs hnext hdb htrace =>
      intro e he
      rw [htrace] at he
      rcases List.mem_cons.1 he with rfl | he
      · refine ⟨hok, hs.rows, hlater, fun _ k => ?_⟩
        rw [hdb]
        exact .refl _
      · exact hold e he
  | call pid p p' c hp hp' hok hprocs hnext hdb htrace =>
      intro e he
      rw [htrace] at he
      rcases List.mem_cons.1 he with rfl | he
      · exact ⟨hok, hs.rows, hlater, fun hact => by cases hact⟩
      · exact hold e he
  | crash pid hprocs hnext hdb htrace => rw [htrace]; exact hold
  | tick hprocs hnext hdb htrace => rw [htrace]; exact hold

/-- Every event of a run meets its obligation, and what it saw stays behind the store. -/
theorem recorded_of_run (hP : Covers rt P) (hallowed : ∀ op, allowed op → Admits P op)
    (h : Run rt allowed s) : ∀ e ∈ s.trace, Recorded rt P s e :=
  invariant_of_run hP hallowed (J := fun s => ∀ e ∈ s.trace, Recorded rt P s e)
    (fun _ _ e he => by cases he) (fun _ _ hs _ hp hJ => recorded_step hs hp hJ) h

/-- A commit of a run. -/
theorem Recorded.committed {e : Entry} (h : Recorded rt P s e) (hact : e.act = .commit) :
    Committed rt P e := committed_of_eventOk h.ok hact

end Traces

end HitlOps.Lifecycle
