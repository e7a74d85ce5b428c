import HitlOps.Lifecycle.Polling
import HitlOps.Scenario

/-!
# Reconciliation polls within its budget

A worker reads the execution row before it waits for the row lock, from a due list that is older
still, and it counts its attempt from that reading. Two overlapping workers therefore poll twice for
one attempt, the second time before the backoff is over. In runs in which every lookup is sent on
what is committed, and no process gives up between a lookup and its commit, the budget is kept.
-/

set_option autoImplicit false

namespace HitlOps.Properties

open HitlOps.Python HitlOps.Domain HitlOps.Infrastructure HitlOps.Application HitlOps.Adapters
open HitlOps.Transaction HitlOps.Lifecycle HitlOps.Worker

/-- The lookups for the execution `x` stay within the budget, wait for the backoff, and are all
counted; the operators are told once. -/
structure WellPolled (s : State) (x : Execution) : Prop where
  bounded : s.trace.countP (asks x.operationKey) ≤ maxReconcileAttempts
  due : ∀ e ∈ s.trace, asks x.operationKey e = true → ∀ y ∈ e.db.executions, y.key = x.key →
    y.nextReconcileAt.all (fun t => decide (t ≤ e.clock)) = true
  counted : x.reconcileAttempts = s.trace.countP (keeps x.operationKey)
  finished : (∀ pid, asking s pid ≠ some x.operationKey) →
    s.trace.countP (asks x.operationKey) = s.trace.countP (settles x.operationKey)
  handed : s.db.outbox.countP (handsOver x.key) ≤ 1

/-- Every execution of a careful run is well polled. -/
theorem lookups_are_counted {rt : Runtime} {s : State} (h : CarefulRun rt (fun _ => True) s) :
    ∀ x ∈ s.db.executions, WellPolled s x := by
  intro x hx
  -- The account of the revision holds all four parts, under the operation key of the row.
  have haccount := (accounts_of_run h).account x.key
  have hfiling : (filing rt fun _ _ => True).Followed (fun _ _ _ => True) s ∧ Keyed s.db :=
    filing_of_run (fun _ _ _ _ _ _ _ => trivial)
      (fun op _ => by cases op <;> first | exact trivial | exact fun _ => trivial) h.run
  have hkeyed : Keyed s.db := hfiling.2
  have hop : x.operationKey = operationKeyFor x.key := hkeyed x hx
  have hpair := mem_tallyOf hx rfl
  constructor
  · rw [hop]
    exact haccount.bounded
  · intro e he hasks y hy hkey
    rw [hop] at hasks
    exact haccount.due e he hasks y (mem_rowsOf.2 ⟨hy, hkey⟩)
  · rw [hop]
    rcases haccount.tally with ⟨hnil, -⟩ | ⟨id, hone⟩
    · rw [hnil] at hpair
      cases hpair
    · rw [hone, List.mem_singleton] at hpair
      exact congrArg Prod.snd hpair
  · intro hidle
    rw [hop] at hidle ⊢
    exact haccount.idle hidle
  · rw [haccount.handed]
    split
    · exact Nat.le_refl 1
    · exact Nat.zero_le 1

/-! ## A careful run -/

/-- The condition of a careful step, for a revision that is the only one looked up. -/
def careful (k : RevisionKey) (s : State) : Label Db Op → Bool
  | .run pid =>
      match s.procs pid with
      | none => true
      | some p =>
          match p.prog with
          | .stmt (.call (.lookupStatus _ operationKey _)) _ =>
              decide (operationKey = operationKeyFor k) &&
                (booksRead p.history).all (fun e => decide (rowsOf e.1 k = rowsOf s.db k)) &&
                p.history.any fun o =>
                  match o with
                  | .did .select r => decide (rowsOf r.1 k = rowsOf s.db k) &&
                      (rowsOf r.1 k).all fun x => isDue x r.2
                  | _ => false
          | .stmt .rollback _ => (askedFor p.history).isNone
          | _ => true
  | .crash pid => (asking s pid).isNone
  | _ => true

theorem upToDate_of_check {k : RevisionKey} {s : State} {p : Proc Db Error Result Op}
    (hread : (booksRead p.history).all (fun e => decide (rowsOf e.1 k = rowsOf s.db k)) = true)
    (hlisted : (p.history.any fun o =>
      match o with
      | .did .select r => decide (rowsOf r.1 k = rowsOf s.db k) &&
          (rowsOf r.1 k).all fun x => isDue x r.2
      | _ => false) = true) : UpToDate s p k := by
  constructor
  · intro e he
    exact of_decide_eq_true (List.all_eq_true.1 hread e he)
  · obtain ⟨o, ho, hcheck⟩ := List.any_eq_true.1 hlisted
    cases o with
    | sent c => cases hcheck
    | did st r =>
        cases st with
        | select =>
            rw [Bool.and_eq_true, decide_eq_true_eq, List.all_eq_true] at hcheck
            exact ⟨r.1, r.2, ho, hcheck.1, hcheck.2⟩
        | _ => cases hcheck

section Check

variable {code : Op → M Result} {s s' : State} {k : RevisionKey}

/-- A process that is left alone does not give up its lookup. -/
theorem keeps_lookup {pid : Nat} {p : Proc Db Error Result Op} (hp : s'.procs pid = some p)
    (hasked : askedFor p.history ≠ none) :
    ∃ p', s'.procs pid = some p' ∧ ∀ h, p'.history ≠ .did .rollback () :: h := by
  refine ⟨p, hp, fun h heq => hasked ?_⟩
  rw [heq]
  rfl

/-- A step of the process `q` that adds an observation other than a rollback. -/
theorem careful_of_update {q : Nat} {pq pq' : Proc Db Error Result Op} {o : Obs Db}
    (hprocs : s'.procs = Function.update s.procs q (some pq')) (hh : pq'.history = o :: pq.history)
    (hq : s.procs q = some pq) (ho : askedFor pq.history ≠ none → o ≠ .did .rollback ())
    (hlookup : ∀ pid p tool provider k, s.procs pid = some p →
      s'.trace = s.event pid p (.call (.lookupStatus tool (operationKeyFor k) provider)) :: s.trace →
      UpToDate s p k) : Careful s s' := by
  refine ⟨hlookup, fun pid p hp hasked => ?_⟩
  by_cases hpid : pid = q
  · subst hpid
    rw [hq, Option.some.injEq] at hp
    subst hp
    refine ⟨pq', by rw [hprocs, Function.update_self], fun h heq => ?_⟩
    rw [hh] at heq
    exact ho hasked (List.cons.inj heq).1
  · refine keeps_lookup ?_ hasked
    rw [hprocs, Function.update_of_ne hpid]
    exact hp

/-- A step that the check admits is careful. -/
theorem careful_of_check (hx : AllExact s) {l : Label Db Op} (hs : s.step code l = some s')
    (hcheck : careful k s l = true) : Careful s s' := by
  have hnever : s'.trace = s.trace → ∀ pid p tool provider k, s.procs pid = some p →
      s'.trace = s.event pid p (.call (.lookupStatus tool (operationKeyFor k) provider)) :: s.trace →
      UpToDate s p k := by
    intro hsame pid p tool provider k _ htrace
    rw [hsame] at htrace
    exact absurd htrace.symm (List.cons_ne_self _ _)
  cases l with
  | spawn op =>
      simp only [Sys.step, Option.some.injEq] at hs
      subst hs
      refine ⟨hnever rfl, fun pid p hp hasked => keeps_lookup ?_ hasked⟩
      have hne : pid ≠ s.next := by
        rintro rfl
        rw [hx.fresh _ (Nat.le_refl _)] at hp
        cases hp
      exact (Function.update_of_ne hne ..).trans hp
  | tick d =>
      simp only [Sys.step, Option.some.injEq] at hs
      subst hs
      exact ⟨hnever rfl, fun pid p hp hasked => keeps_lookup hp hasked⟩
  | crash q =>
      simp only [Sys.step] at hs
      cases hq : s.procs q with
      | none => simp only [hq, reduceCtorEq] at hs
      | some pq =>
          simp only [hq, Option.some.injEq] at hs
          subst hs
          refine ⟨hnever rfl, fun pid p hp hasked => keeps_lookup ?_ hasked⟩
          -- The check lets no process crash that has a lookup under way.
          have hne : pid ≠ q := by
            rintro rfl
            have hnone := Option.isNone_iff_eq_none.1 hcheck
            exact hasked ((asking_eq hp).symm.trans hnone)
          exact (Function.update_of_ne hne ..).trans hp
  | draw q v =>
      simp only [Sys.step] at hs
      cases hq : s.procs q with
      | none => simp only [hq, reduceCtorEq] at hs
      | some pq =>
          simp only [hq] at hs
          repeat' split at hs
          all_goals first
            | cases hs; done
            | (simp only [Option.some.injEq] at hs
               subst hs
               exact careful_of_update rfl rfl hq (fun _ => by rintro ⟨⟩) (hnever rfl))
  | answer q a =>
      simp only [Sys.step] at hs
      cases hq : s.procs q with
      | none => simp only [hq, reduceCtorEq] at hs
      | some pq =>
          simp only [hq] at hs
          repeat' split at hs
          all_goals first
            | cases hs; done
            | (simp only [Option.some.injEq] at hs
               subst hs
               exact careful_of_update rfl rfl hq (fun _ => by rintro ⟨⟩) (hnever rfl))
  | run q =>
      simp only [Sys.step] at hs
      cases hq : s.procs q with
      | none => simp only [hq, reduceCtorEq] at hs
      | some pq =>
          simp only [hq] at hs
          split at hs
          · cases hs
          · cases hprog : pq.prog with
            | ret a => simp only [hprog, reduceCtorEq] at hs
            | raise x => simp only [hprog, reduceCtorEq] at hs
            | stmt st f =>
                simp only [hprog] at hs
                simp only [careful, hq, hprog] at hcheck
                cases st with
                | call c =>
                    simp only [Sys.runStmt, Option.some.injEq] at hs
                    subst hs
                    refine careful_of_update rfl rfl hq (fun _ => by rintro ⟨⟩) ?_
                    intro pid p tool provider k' hp htrace
                    have hevent := (List.cons.inj htrace).1
                    have hpid : q = pid := congrArg Event.pid hevent
                    subst hpid
                    rw [hq, Option.some.injEq] at hp
                    subst hp
                    have hact : (Act.call c : Act Db) =
                        .call (.lookupStatus tool (operationKeyFor k') provider) :=
                      congrArg Event.act hevent
                    cases hact
                    simp only [Bool.and_eq_true] at hcheck
                    -- A lookup: the check has compared its key, the row that was read, and the snapshot of the tick.
                    obtain ⟨⟨hkey, hread⟩, hlisted⟩ := hcheck
                    rw [operationKeyFor_injective (of_decide_eq_true hkey)]
                    exact upToDate_of_check hread hlisted
                | rollback =>
                    simp only [Sys.runStmt, Option.map_eq_some_iff] at hs
                    obtain ⟨e, he, rfl⟩ := hs
                    -- Nor does it let one roll back its count.
                    refine careful_of_update rfl rfl hq (fun hasked => ?_) (hnever rfl)
                    exact absurd (Option.isNone_iff_eq_none.1 hcheck) hasked
                | commit =>
                    simp only [Sys.runStmt, Option.map_eq_some_iff] at hs
                    obtain ⟨e, he, rfl⟩ := hs
                    refine careful_of_update rfl rfl hq (fun _ => by rintro ⟨⟩) ?_
                    intro pid p tool provider k' hp htrace
                    have hact := congrArg Event.act (List.cons.inj htrace).1
                    cases hact
                | _ =>
                    simp only [Sys.runStmt, Option.map_eq_some_iff] at hs
                    obtain ⟨e, he, rfl⟩ := hs
                    exact careful_of_update rfl rfl hq (fun _ => by rintro ⟨⟩) (hnever rfl)

end Check

/-! ## Runs of the scenario -/

/-- The target does not answer in time, and later no lookup reaches it. -/
def silent : Environment Db where
  draw := Scenario.environment.draw
  answer
    | .execute _ _ => .timeout
    | c => Scenario.environment.answer c

/-- The deletion is sent to a target that does not answer. -/
def unanswered : List (Move Db Op) :=
  Scenario.complete 0 (.create (Scenario.creation .deleteResource))
    ++ Scenario.complete 1 (Scenario.recording .deleteResource)
    ++ Scenario.complete 2
      (.decide (Scenario.approval .deleteResource "alice" Scenario.alice_ne 1 4))
    ++ Scenario.complete 3 (.decide (Scenario.approval .deleteResource "bob" Scenario.bob_ne 2 6))
    ++ [.spawn .workerTick, .go 4 200 silent]

/-- One worker looks it up. -/
def lookedUp : List (Move Db Op) := unanswered ++ [.spawn .workerTick, .go 5 100 silent]

/-- Two workers look it up; the first has read the row when the second begins. -/
def lookedUpTwice : List (Move Db Op) :=
  unanswered ++ [.spawn .workerTick, .go 5 11 silent, .spawn .workerTick, .go 6 100 silent,
    .go 5 100 silent]

set_option maxRecDepth 100000 in
theorem carefulRun_lookedUp :
    CarefulRun Scenario.runtime (fun _ => True) (Scenario.after lookedUp) := by
  have hpass : Sys.playPasses (code Scenario.runtime) (careful Scenario.key) Scenario.start lookedUp =
      true := by
    decide +kernel
  exact .of Scenario.approvers [Scenario.seedBundle] (Sys.guided_play
    (fun s l s' hr hs hcheck => careful_of_check (exact_of_reachable hr) hs hcheck) .initial lookedUp
    (fun _ _ => trivial) hpass)

set_option maxRecDepth 100000 in
/-- One worker on its own polls well, and it has polled once. -/
theorem lookups_are_counted_once :
    (∀ x ∈ (Scenario.after lookedUp).db.executions, WellPolled (Scenario.after lookedUp) x) ∧
      ((Scenario.after lookedUp).db.executions.map (·.reconcileAttempts)) = [1] :=
  ⟨lookups_are_counted carefulRun_lookedUp, by decide +kernel⟩

/-- Only ticks of the workers reconcile. -/
def ByTicks (op : Op) : Prop := ∀ executionId workerId commandId,
  op ≠ .reconcile executionId workerId commandId

set_option maxRecDepth 100000 in
/-- Two workers that overlap poll twice, the second time before the backoff is over. -/
theorem lookups_are_counted_fails :
    ∃ s, Run Scenario.runtime ByTicks s ∧
      ∃ x ∈ s.db.executions, x.status = .unknown ∧ ¬ WellPolled s x := by
  have hrun : Run Scenario.runtime ByTicks (Scenario.after lookedUpTwice) := by
    refine Scenario.run_after _ _ fun op hop => ?_
    rw [Scenario.mem_started] at hop
    intro executionId workerId commandId heq
    subst heq
    simp [Scenario.started, lookedUpTwice, unanswered, Scenario.complete, Scenario.recording] at hop
  have hlost : (Scenario.after lookedUpTwice).db.executions.any (fun x =>
      decide (x.status = .unknown) && decide (x.reconcileAttempts ≠
        (Scenario.after lookedUpTwice).trace.countP (keeps x.operationKey))) = true := by
    decide +kernel
  obtain ⟨x, hx, hcheck⟩ := List.any_eq_true.1 hlost
  rw [Bool.and_eq_true, decide_eq_true_eq, decide_eq_true_eq] at hcheck
  exact ⟨_, hrun, x, hx, hcheck.1, fun hwell => hcheck.2 hwell.counted⟩

end HitlOps.Properties
