import HitlOps.Application.Reconciliation

/-!
# The worker

`run_worker_tick` of `worker.py` and its parts. Each part runs in sessions of its own: the
recovery of stale executions, the two snapshots, a claim and an execution for each eligible
revision, and a reconciliation for each due execution. The outbox publisher, which only touches
delivery columns, audit events and its own notification messages, is a call.
-/

set_option autoImplicit false

namespace HitlOps.Worker

open HitlOps.Python HitlOps.Domain HitlOps.Infrastructure HitlOps.Application HitlOps.Transaction

/-- `_TICK_LIMIT`. -/
def tickLimit : Nat := 5

/-- `RECOVERY_LEASE_SECONDS`. -/
def recoveryLeaseSeconds : Nat := 60

/-- The `worker_id` of every worker process. -/
def workerId : String := "execution-worker"

/-- The counters of a tick. -/
structure Stats where
  executed : Nat
  reconciled : Nat
  skipped : Nat
  recovered : Nat
deriving DecidableEq

/-! ## Recovery -/

/-- The lease of an execution has expired at `now`: `coalesce(claim_expires_at, started_at)` plus
the recovery lease is not later. -/
def leaseExpired (e : Execution) (now : Time) : Bool :=
  (e.claimExpiresAt.or e.startedAt).any fun t => decide (t + seconds recoveryLeaseSeconds ≤ now)

/-- The rows that recovery looks at. -/
def staleExecutions (now : Time) (s : Store) : List Execution :=
  s.executions.filter fun e => e.status = .executing ∧ leaseExpired e now = true

/-- The row that recovery writes for a stale execution. -/
def recoveredExecution (e : Execution) (dbNow : Time) : Execution :=
  { e with
    status := .unknown
    errorCode := some "executing_lease_expired"
    nextReconcileAt := some dbNow }

/-- The transition that recovery writes, with its own outbox topic. -/
def recordRecovery (intent : ActionIntent) (commandId : String) (dbNow : Time) :
    M ActionIntent :=
  appendTransition intent .executionUnknown
    ⟨"system", workerId, commandId, "executing_lease_expired"⟩ dbNow
    "execution.execution_unknown"
    (ExecutionService.transitionPayload intent .executionUnknown commandId)

/-- The transaction of one candidate; it returns whether the candidate was moved. -/
def recoverCandidate (candidate : Execution) (commandId : String) : M Bool :=
  Prog.transaction (D := Db) do
    match ← Prog.query (D := Db) (·.execution? candidate.id) with
    | none => return false
    | some execution =>
        -- The row has moved on since the candidates were read.
        if execution.status ≠ .executing then return false
        else do
          let (_, dbNow) ← Prog.select (D := Db)
          match ← lockIntentNowait candidate.key with
          -- The lock is taken, by the worker that executes or by another recovery.
          | none => return false
          | some (none, _) => return false
          | some (some row, _) =>
              if row.state ≠ .executing then return false
              else do
                let _ ← recordRecovery row commandId dbNow
                flush (.updateExecution execution (recoveredExecution execution dbNow))
                return true

/-- The errors that recovery passes over. -/
def recoveryIgnores : Error → Bool
  | .dbapi _ => true
  | e => e.isStateConflict

/-- The loop over the candidates. -/
def recoverAll : List Execution → Nat → M Nat
  | [], recovered => return recovered
  | candidate :: rest, recovered => do
      let commandId ← Prog.draw (D := Db) .uuid
      let done ← Prog.handle (recoverCandidate candidate commandId.hex) fun x =>
        if recoveryIgnores x = true then return false else .raise x
      recoverAll rest (if done then recovered + 1 else recovered)

/-- `_recover_stale_executing`. -/
def recoverStaleExecuting : M Nat := do
  let candidates ← Prog.session (D := Db) do
    let (s, now) ← Prog.select (D := Db)
    let rank ← Prog.draw (D := Db) .order
    return (arrange rank (staleExecutions now s)).take tickLimit
  recoverAll candidates 0

/-! ## Claim and execute -/

/-- `_claim`. -/
def claim (rt : Runtime) (key : RevisionKey) (commandId : String) :
    M (Option ExecutionPermit) :=
  Prog.handle
    (Prog.session (D := Db) do
      match ← getActive key.tenantId with
      | none => return none
      | some bundle => do
          -- The bundle of phase 3 is the one that is read here, in front of phase 1.
          match ← claimAndRevalidate rt
              ⟨key, workerId, commandId, bundle, defaultClaimLeaseSeconds⟩ with
          | .error _ => return none
          | .ok permit => return some permit)
    fun x => if x.isStateConflict = true then return none else .raise x

/-- `_execute`. -/
def execute (rt : Runtime) (permit : ExecutionPermit) (commandId : String) : M Bool :=
  Prog.handle
    (do
      let _ ← Prog.transaction (D := Db) (executePermit rt permit workerId commandId)
      return true)
    fun x => if x.isStateConflict = true then return false else .raise x

/-- The loop over the eligible revisions. -/
def executeEligible (rt : Runtime) : List RevisionKey → Stats → M Stats
  | [], stats => return stats
  | key :: rest, stats => do
      let commandId ← Prog.draw (D := Db) .uuid
      match ← claim rt key commandId.hex with
      | none => executeEligible rt rest { stats with skipped := stats.skipped + 1 }
      | some permit => do
          let executed ← execute rt permit commandId.hex
          executeEligible rt rest
            (if executed then { stats with executed := stats.executed + 1 }
              else { stats with skipped := stats.skipped + 1 })

/-! ## Reconcile -/

/-- An execution that is due for reconciliation at `now`. -/
def isDue (e : Execution) (now : Time) : Bool :=
  decide (e.status = .unknown) && decide (e.reconcileAttempts < maxReconcileAttempts)
    && e.nextReconcileAt.all fun t => decide (t ≤ now)

/-- `next_reconcile_at ASC NULLS FIRST`. -/
def dueBefore (a b : Execution) : Bool :=
  match a.nextReconcileAt, b.nextReconcileAt with
  | none, _ => true
  | some _, none => false
  | some t, some u => decide (t ≤ u)

/-- The snapshot of the executions that are due. -/
def dueExecutions (now : Time) (rank : Nat → Nat) (s : Store) : List UUID :=
  let due := arrange rank (s.executions.filter fun e => isDue e now)
  ((due.insertionSort fun a b => dueBefore a b = true).take tickLimit).map (·.id)

/-- One reconciliation of the loop; it returns whether it ended without an error. -/
def reconcileOne (rt : Runtime) (executionId : UUID) (commandId : String) : M Bool :=
  Prog.handle
    (do
      let _ ← Prog.transaction (D := Db) (reconcile rt executionId workerId commandId)
      return true)
    fun x => if x.isException = true then return false else .raise x

/-- The loop over the due executions. -/
def reconcileDue (rt : Runtime) : List UUID → Stats → M Stats
  | [], stats => return stats
  | executionId :: rest, stats => do
      let commandId ← Prog.draw (D := Db) .uuid
      let reconciled ← reconcileOne rt executionId commandId.hex
      reconcileDue rt rest
        (if reconciled then { stats with reconciled := stats.reconciled + 1 }
          else { stats with skipped := stats.skipped + 1 })

/-! ## The tick -/

/-- The revisions that are ready to be claimed. -/
def eligibleKeys (s : Store) : List RevisionKey :=
  (s.intents.filter fun i => i.state = .autoApproved ∨ i.state = .approved).map (·.key)

/-- `publisher.publish_pending()`. -/
def publishPending : M Unit := do
  match ← Prog.call (D := Db) .publishPending with
  | none => return ()
  | some e => .raise e

/-- `run_worker_tick`. -/
def runWorkerTick (rt : Runtime) : M Stats := do
  let recovered ← recoverStaleExecuting
  -- Due executions are read before the first loop: a tick does not reconcile what it timed out itself.
  let pendingUnknowns ← Prog.session (D := Db) do
    let (s, now) ← Prog.select (D := Db)
    let rank ← Prog.draw (D := Db) .order
    return dueExecutions now rank s
  let eligible ← Prog.session (D := Db) (scan eligibleKeys)
  -- This loop has no handler but that of a state conflict, the second one has.
  let stats ← executeEligible rt (eligible.take tickLimit) ⟨0, 0, 0, recovered⟩
  let stats ← reconcileDue rt pendingUnknowns stats
  publishPending
  return stats

end HitlOps.Worker
