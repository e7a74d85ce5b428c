import HitlOps.Lifecycle.Runs

/-!
# Commands and state versions

A commit that carries a command takes effect on the state version that the command names, and the
version moves on. Versions never come back, so two commits with commands on one revision name
different versions.
-/

set_option autoImplicit false

namespace HitlOps.Lifecycle

open HitlOps.Python HitlOps.Domain HitlOps.Infrastructure HitlOps.Application HitlOps.Transaction

/-- The command of the open transaction: the newest one since its start. -/
def openCommand : List (Obs Db) → Option Command
  | [] => none
  | .did (.mark (.decide c)) _ :: _ => some (.decide c)
  | .did (.mark (.cancel c)) _ :: _ => some (.cancel c)
  | .did .commit _ :: _ => none
  | .did .rollback _ :: _ => none
  | _ :: rest => openCommand rest

/-- The command that a commit carries. -/
def committedCommand (e : Entry) : Option Command :=
  match e.act with
  | .commit => openCommand e.history
  | .call _ => none

theorem openCommand_eq (history : List (Obs Db)) :
    openCommand history = (ghostAfter history).duty.command := by
  induction history with
  | nil => rfl
  | cons o rest ih =>
      cases o with
      | sent c =>
          show openCommand rest = ((ghostAfter rest).sent c).duty.command
          rw [ih]
          cases c <;> rfl
      | did st r =>
          cases st with
          | mark m =>
              cases m with
              | claim k bundle => exact ih
              | permit p => exact ih
              | _ => rfl
          | write w =>
              show openCommand rest = ((ghostAfter rest).wrote w).duty.command
              rw [ih]
              cases w <;> rfl
          | draw o =>
              show openCommand rest = ((ghostAfter rest).drawn o r).duty.command
              rw [ih]
              cases o <;> rfl
          | commit => rfl
          | rollback => rfl
          | _ => exact ih

/-- The commit `e` takes effect on the version that the command names, and only there. -/
structure TakesEffect (e : Entry) (c : Command) : Prop where
  named : ∃ a, e.db.intent? c.key = some a ∧ a.stateVersion = c.expectedStateVersion
  moved : ∃ a, e.after.intent? c.key = some a ∧ c.expectedStateVersion < a.stateVersion
  others : ∀ k, k ≠ c.key → revision e.after k = revision e.db k

section Versions

variable {rt : Runtime} {P : PolicyEvaluation → Prop} {allowed : Op → Prop} {s s' : State}

/-- A commit with a command. -/
theorem takesEffect {e : Entry} (he : Recorded rt P s e) {c : Command}
    (hc : committedCommand e = some c) : TakesEffect e c := by
  unfold committedCommand at hc
  split at hc
  · next hact =>
      rw [openCommand_eq] at hc
      cases he.committed hact with
      | untouched h same =>
          rw [h.command] at hc
          cases hc
      | touched k b hb locked h valid later same =>
          obtain ⟨rfl, hne, a, ha, hver⟩ := h.command c hc
          obtain ⟨a', ha', -⟩ := later.identity a ha
          have hold := ((he.rows _).valid ha).core.version
          have hnew := (valid.valid ha').core.version
          refine ⟨⟨a, ha, hver⟩, ⟨a', ha', ?_⟩, same⟩
          have hpos := List.length_pos_of_ne_nil hne
          rw [hnew, h.log, List.length_append, ← hver, hold]
          omega
  · cases hc

/-- The version that a command names has been left behind. -/
theorem spent_of_recorded (hs : (contract rt P).Sound s) {e : Entry} (he : Recorded rt P s e)
    {c : Command} (hc : committedCommand e = some c) :
    ∃ a, s.db.intent? c.key = some a ∧ c.expectedStateVersion < a.stateVersion := by
  have heff := takesEffect he hc
  obtain ⟨a, ha, hlt⟩ := heff.moved
  have hact : e.act = .commit := by
    unfold committedCommand at hc
    split at hc
    · assumption
    · cases hc
  have hlater := he.after hact c.key
  obtain ⟨a', ha', -⟩ := hlater.identity a ha
  refine ⟨a', ha', ?_⟩
  have hwell : WellFormed P c.key (revision e.after c.key) := by
    cases he.committed hact with
    | untouched h same =>
        rw [same]
        exact he.rows _
    | touched k b hb locked h valid later same =>
        by_cases hk : c.key = k
        · rw [hk]
          exact valid
        · rw [same _ hk]
          exact he.rows _
  have hv := (hwell.valid ha).core.version
  have hv' := (valid_of_sound hs ha').core.version
  have hlen := hlater.log.length_le
  rw [hv] at hlt
  rw [hv']
  exact Nat.lt_of_lt_of_le hlt hlen

/-- No two commits carry commands that name one version of one revision. -/
def DistinctVersions (trace : List Entry) : Prop :=
  trace.Pairwise fun e e' => ∀ c c', committedCommand e = some c → committedCommand e' = some c' →
    c.key = c'.key → c.expectedStateVersion ≠ c'.expectedStateVersion

theorem distinctVersions_step (hs : (contract rt P).Sound s)
    (hstep : (contract rt P).Progress allowed s s') (hJ : ∀ e ∈ s.trace, Recorded rt P s e)
    (h : DistinctVersions s.trace) : DistinctVersions s'.trace := by
  have hnew := recorded_step hs hstep hJ
  -- The newest event names a version of the store, and the older ones have left theirs behind.
  have hcons : ∀ e, s'.trace = e :: s.trace → e.db = s.db → DistinctVersions s'.trace := by
    intro e htrace hedb
    rw [htrace]
    refine List.pairwise_cons.2 ⟨fun e' he' c c' hc hc' hkey heq => ?_, h⟩
    have he : e ∈ s'.trace := by
      rw [htrace]
      exact List.mem_cons_self
    obtain ⟨a, ha, hver⟩ := (takesEffect (hnew e he) hc).named
    obtain ⟨a', ha', hlt⟩ := spent_of_recorded hs (hJ e' he') hc'
    rw [hedb, hkey, ha', Option.some.injEq] at ha
    subst ha
    omega
  cases hstep with
  | spawn op p hop hp hprocs hnext hdb htrace => rw [htrace]; exact h
  | quiet pid p p' o hp hp' hseen ho hc hprocs hnext hdb htrace => rw [htrace]; exact h
  | commit pid p p' hp hp' hok hprocs hnext hdb htrace => exact hcons _ htrace rfl
  | call pid p p' c hp hp' hok hprocs hnext hdb htrace => exact hcons _ htrace rfl
  | crash pid hprocs hnext hdb htrace => rw [htrace]; exact h
  | tick hprocs hnext hdb htrace => rw [htrace]; exact h

theorem distinctVersions_of_run (hP : Covers rt P) (hallowed : ∀ op, allowed op → Admits P op)
    (h : Run rt allowed s) : DistinctVersions s.trace := by
  refine (invariant_of_run hP hallowed (J := fun s => (∀ e ∈ s.trace, Recorded rt P s e) ∧
    DistinctVersions s.trace) (fun _ _ => ⟨fun e he => (by cases he), List.Pairwise.nil⟩) ?_ h).2
  intro s s' hs _ hstep hJ
  exact ⟨recorded_step hs hstep hJ.1, distinctVersions_step hs hstep hJ.1 hJ.2⟩

end Versions

end HitlOps.Lifecycle
