import HitlOps.Lifecycle.Versions

/-!
# Where decisions and permits come from

Functions of a history that say what the open transaction has been shown, and two facts about the
events of a run: every stored decision was written by a commit that read what it records, and every
move to `EXECUTING` was authorized in the transaction that commits it.
-/

set_option autoImplicit false

namespace HitlOps.Lifecycle

open HitlOps.Python HitlOps.Domain HitlOps.Infrastructure HitlOps.Application HitlOps.Transaction

/-! ## What the open transaction has been shown -/

/-- The stores that the open transaction has been shown, newest first. -/
def openReads : List (Obs Db) → List Store
  | [] => []
  | .did .select r :: rest => r.1 :: openReads rest
  | .did (.lock _ _) r :: rest => (r.map Prod.fst).toList ++ openReads rest
  | .did .commit _ :: _ => []
  | .did .rollback _ :: _ => []
  | _ :: rest => openReads rest

/-- The clocks that the open transaction has read, newest first. -/
def openClocks : List (Obs Db) → List Time
  | [] => []
  | .did (.draw .now) t :: rest => t :: openClocks rest
  | .did .commit _ :: _ => []
  | .did .rollback _ :: _ => []
  | _ :: rest => openClocks rest

/-- The revision and the bundle that the newest claim was given. -/
def givenClaim : List (Obs Db) → Option (RevisionKey × PolicyBundle)
  | [] => none
  | .did (.mark (.claim k bundle)) _ :: _ => some (k, bundle)
  | _ :: rest => givenClaim rest

theorem openReads_eq (history : List (Obs Db)) :
    openReads history = (ghostAfter history).reads := by
  induction history with
  | nil => rfl
  | cons o rest ih =>
      cases o with
      | sent c =>
          show openReads rest = ((ghostAfter rest).sent c).reads
          rw [ih]
          cases c <;> rfl
      | did st r =>
          cases st with
          | select => exact congrArg (r.1 :: ·) ih
          | lock k nowait => exact congrArg ((r.map Prod.fst).toList ++ ·) ih
          | mark m =>
              show openReads rest = ((ghostAfter rest).marked m).reads
              rw [ih]
              cases m <;> rfl
          | write w =>
              show openReads rest = ((ghostAfter rest).wrote w).reads
              rw [ih]
              cases w <;> rfl
          | draw o =>
              show openReads rest = ((ghostAfter rest).drawn o r).reads
              rw [ih]
              cases o <;> rfl
          | commit => rfl
          | rollback => rfl
          | _ => exact ih

theorem openClocks_eq (history : List (Obs Db)) :
    openClocks history = (ghostAfter history).clocks := by
  induction history with
  | nil => rfl
  | cons o rest ih =>
      cases o with
      | sent c =>
          show openClocks rest = ((ghostAfter rest).sent c).clocks
          rw [ih]
          cases c <;> rfl
      | did st r =>
          cases st with
          | mark m =>
              show openClocks rest = ((ghostAfter rest).marked m).clocks
              rw [ih]
              cases m <;> rfl
          | write w =>
              show openClocks rest = ((ghostAfter rest).wrote w).clocks
              rw [ih]
              cases w <;> rfl
          | draw o =>
              cases o with
              | now => exact congrArg (r :: ·) ih
              | uuid => exact ih
              | order => exact ih
          | commit => rfl
          | rollback => rfl
          | _ => exact ih

theorem givenClaim_eq (history : List (Obs Db)) :
    givenClaim history = (ghostAfter history).duty.claim := by
  induction history with
  | nil => rfl
  | cons o rest ih =>
      cases o with
      | sent c =>
          show givenClaim rest = ((ghostAfter rest).sent c).duty.claim
          rw [ih]
          cases c <;> rfl
      | did st r =>
          cases st with
          | mark m =>
              cases m with
              | claim k bundle => rfl
              | _ => exact ih
          | write w =>
              show givenClaim rest = ((ghostAfter rest).wrote w).duty.claim
              rw [ih]
              cases w <;> rfl
          | draw o =>
              show givenClaim rest = ((ghostAfter rest).drawn o r).duty.claim
              rw [ih]
              cases o <;> rfl
          | _ => exact ih

/-! ## Decisions -/

section Provenance

variable {rt : Runtime} {P : PolicyEvaluation → Prop} {allowed : Op → Prop} {s s' : State}

/-- The commit `e` stored the decision `d` of the revision `k`, and its snapshots are what the
transaction read. -/
structure Stored (k : RevisionKey) (d : ApprovalDecisionRow) (e : Entry) : Prop where
  commit : e.act = .commit
  truthful : ∃ b c a, e.session.begun = some b ∧ openCommand e.history = some (.decide c) ∧
    e.db.intent? k = some a ∧ Truthful (ghostAfter e.history) b.2 c a d

/-- Every stored decision comes from a commit of the trace. -/
def Attested (s : State) : Prop :=
  ∀ k, ∀ d ∈ s.db.decisionsOf k, ∃ e ∈ s.trace, Stored k d e

theorem Attested.of_eq (h : Attested s) (hdb : s'.db = s.db) (htrace : ∀ e ∈ s.trace, e ∈ s'.trace) :
    Attested s' := by
  intro k d hd
  rw [hdb] at hd
  obtain ⟨e, he, hstored⟩ := h k d hd
  exact ⟨e, htrace e he, hstored⟩

/-- The new decisions of a commit are the ones that it wrote. -/
theorem attested_commit {pid : Nat} {p : Proc Db Error Result Op}
    (hok : (contract rt P).EventOk (s.event pid p .commit))
    (hdb : s'.db = p.session.view s.db) (htrace : s'.trace = s.event pid p .commit :: s.trace)
    (h : Attested s) : Attested s' := by
  have hcommitted := committed_of_eventOk hok rfl
  have hold : ∀ k, ∀ d ∈ s.db.decisionsOf k, ∃ e ∈ s'.trace, Stored k d e := by
    intro k d hd
    obtain ⟨e, he, hstored⟩ := h k d hd
    exact ⟨e, htrace ▸ List.mem_cons_of_mem _ he, hstored⟩
  intro k d hd
  rw [hdb] at hd
  by_cases hsame : revision (p.session.view s.db) k = revision s.db k
  · have hdecisions : (p.session.view s.db).decisionsOf k = s.db.decisionsOf k :=
      congrArg Revision.decisions hsame
    rw [hdecisions] at hd
    exact hold k d hd
  · obtain ⟨b, hb, -, hcom⟩ := hcommitted.moved hsame
    have hdecisions : (p.session.view s.db).decisionsOf k = s.db.decisionsOf k ++ _ :=
      hcom.decisions
    rw [hdecisions] at hd
    rcases List.mem_append.1 hd with hd | hd
    · exact hold k d hd
    · obtain ⟨c, a, hc, ha, htruthful⟩ := hcom.decided d hd
      refine ⟨s.event pid p .commit, htrace ▸ List.mem_cons_self, rfl, b, c, a, hb, ?_, ha,
        htruthful⟩
      rw [openCommand_eq]
      exact hc

theorem attested_step (hstep : (contract rt P).Progress allowed s s') (h : Attested s) :
    Attested s' := by
  have hcons : ∀ {e}, s'.trace = e :: s.trace → ∀ e' ∈ s.trace, e' ∈ s'.trace :=
    fun htrace e' he' => htrace ▸ List.mem_cons_of_mem _ he'
  cases hstep with
  | spawn op p hop hp hprocs hnext hdb htrace => exact h.of_eq hdb fun e he => htrace ▸ he
  | quiet pid p p' o hp hp' hseen ho hc hprocs hnext hdb htrace =>
      exact h.of_eq hdb fun e he => htrace ▸ he
  | commit pid p p' hp hp' hok hprocs hnext hdb htrace => exact attested_commit hok hdb htrace h
  | call pid p p' c hp hp' hok hprocs hnext hdb htrace => exact h.of_eq hdb (hcons htrace)
  | crash pid hprocs hnext hdb htrace => exact h.of_eq hdb fun e he => htrace ▸ he
  | tick hprocs hnext hdb htrace => exact h.of_eq hdb fun e he => htrace ▸ he

theorem attested_of_run (hP : Covers rt P) (hallowed : ∀ op, allowed op → Admits P op)
    (h : Run rt allowed s) : Attested s :=
  invariant_of_run hP hallowed (J := Attested) (fun _ _ _ d hd => by cases hd)
    (fun _ _ _ _ hp hJ => attested_step hp hJ) h

/-! ## States that a commit leads to -/

/-- The state of the stored intent of a revision. -/
def stateOf (db : Store) (k : RevisionKey) : Option IntentState := (db.intent? k).map (·.state)

/-- The commit `e` takes the revision `k` into the state. -/
structure Reaches (e : Entry) (k : RevisionKey) (state : IntentState) : Prop where
  commit : e.act = .commit
  before : stateOf e.db k ≠ some state
  after : stateOf e.after k = some state

/-- A commit that takes a revision into a state has entered it last. -/
theorem entered_of_reaches {e : Entry} (he : Recorded rt P s e) {k : RevisionKey}
    {state : IntentState} (h : Reaches e k state) :
    ∃ b before t, e.session.begun = some b ∧
      Committing rt (ghostAfter e.history) b.2 k (revision e.db k) (revision e.after k) ∧
      (ghostAfter e.history).entered = before ++ [t] ∧ t.toState = state ∧ t.key = k := by
  obtain ⟨a', ha', hstate'⟩ := Option.map_eq_some_iff.1 h.after
  have hcommitted := he.committed h.commit
  have hne : revision e.after k ≠ revision e.db k := by
    intro heq
    have hintent : e.after.intent? k = e.db.intent? k := congrArg Revision.intent heq
    have hafter := h.after
    rw [stateOf, hintent] at hafter
    exact h.before hafter
  obtain ⟨b, hb, -, hcom⟩ := hcommitted.moved hne
  have hvalid' : WellFormed P k (revision e.after k) := by
    cases hcommitted with
    | untouched h same => exact absurd (same k) hne
    | touched k' b' hb' locked hc valid later same =>
        by_cases hk : k = k'
        · exact hk ▸ valid
        · exact absurd (same k hk) hne
  have hcur := (hvalid'.valid (show (revision e.after k).intent = some a' from ha')).core.chain
  rw [hcom.log] at hcur
  rcases List.eq_nil_or_concat (ghostAfter e.history).entered with hnil | ⟨before, t, hcat⟩
  · -- Without an entry the log of the store before the commit leads to the state.
    rw [hnil, List.append_nil] at hcur
    cases hintent : e.db.intent? k with
    | none =>
        have hempty := WellFormed.eq_empty (he.rows k)
          (show (revision e.db k).intent = none from hintent)
        rw [hempty] at hcur
        exact absurd rfl hcur.ne_nil
    | some a =>
        have hbase := ((he.rows k).valid (show (revision e.db k).intent = some a from
          hintent)).core.chain
        have hbefore : stateOf e.db k = some a.state := by rw [stateOf, hintent]; rfl
        rw [hbase.unique hcur, hstate'] at hbefore
        exact absurd hbefore h.before
  · rw [List.concat_eq_append] at hcat
    refine ⟨b, before, t, hb, hcom, hcat, ?_, ?_⟩
    · rw [hcat] at hcur
      exact hcur.last_of_append.trans hstate'
    · have hmem : t ∈ e.after.transitionsOf k := by
        rw [show e.after.transitionsOf k = _ from hcom.log, hcat]
        exact List.mem_append_right _ (List.mem_append_right _ (List.mem_singleton_self t))
      exact of_decide_eq_true (List.mem_filter.1 hmem).2

/-- A state other than that of the first store was reached by a commit of the run. -/
theorem reached_of_run (h : Run rt allowed s) {k : RevisionKey} {state : IntentState}
    (hs : stateOf s.db k = some state) : ∃ e ∈ s.trace, Reaches e k state := by
  obtain ⟨assignments, bundles, h⟩ := h
  revert hs
  refine h.invariant (J := fun s => stateOf s.db k = some state → ∃ e ∈ s.trace, Reaches e k state)
    (fun hs => by cases hs) fun s s' _ _ hmove ih hs => ?_
  have hold : s'.db = s.db → (∀ e ∈ s.trace, e ∈ s'.trace) → ∃ e ∈ s'.trace, Reaches e k state := by
    intro hdb htrace
    rw [hdb] at hs
    obtain ⟨e, he, hreach⟩ := ih hs
    exact ⟨e, htrace e he, hreach⟩
  cases hmove with
  | launch op hop => exact hold rfl fun _ he => he
  | draw v hp hw hprog => exact hold rfl fun _ he => he
  | send hp hw hprog => exact hold rfl fun _ he => List.mem_cons_of_mem _ he
  | answer a hp hw hprog => exact hold rfl fun _ he => he
  | kill hp => exact hold rfl fun _ he => he
  | tick d => exact hold rfl fun _ he => he
  | @accept pid p st c reply hp hw hprog he =>
      -- Only a commit changes the store.
      by_cases hst : st = .commit
      · subst hst
        by_cases hbefore : stateOf s.db k = some state
        · obtain ⟨e, hmem, hreach⟩ := ih hbefore
          exact ⟨e, List.mem_cons_of_mem _ hmem, hreach⟩
        · refine ⟨_, List.mem_cons_self, rfl, hbefore, ?_⟩
          simp only [Sys.reply?, Option.some.injEq] at he
          subst he
          exact hs
      · refine hold (Sys.reply_db he hst) fun e hmem => ?_
        cases st with
        | commit => exact absurd rfl hst
        | _ => exact hmem

/-! ## Permits -/

/-- The commit `e` moves the revision `k` from `REVALIDATING` to `EXECUTING`. -/
structure IssuesPermit (e : Entry) (k : RevisionKey) (a : ActionIntent) : Prop where
  commit : e.act = .commit
  revalidating : e.db.intent? k = some a ∧ a.state = .revalidating
  executing : ∃ a', e.after.intent? k = some a' ∧ a'.state = .executing

/-- A permit takes the revision into `EXECUTING`. -/
theorem reaches_of_issues {e : Entry} {k : RevisionKey} {a : ActionIntent}
    (h : IssuesPermit e k a) : Reaches e k .executing := by
  obtain ⟨a', ha', hstate'⟩ := h.executing
  refine ⟨h.commit, ?_, ?_⟩
  · rw [stateOf, h.revalidating.1, Option.map_some, h.revalidating.2]
    exact fun heq => by cases heq
  · rw [stateOf, ha', Option.map_some, hstate']

/-- A permit is authorized by the transaction that commits it. -/
theorem authorized_of_issues {e : Entry} (he : Recorded rt P s e) {k : RevisionKey}
    {a : ActionIntent} (h : IssuesPermit e k a) :
    ∃ b, e.session.begun = some b ∧
      Authorized rt (ghostAfter e.history) b.2 k (revision e.db k) := by
  obtain ⟨b, before, t, hb, hcom, hentered, htarget, -⟩ := entered_of_reaches he (reaches_of_issues h)
  refine ⟨b, hb, hcom.executing ⟨t, ?_, htarget⟩⟩
  rw [hentered]
  exact List.mem_append_right _ (List.mem_singleton_self t)

end Provenance

end HitlOps.Lifecycle
