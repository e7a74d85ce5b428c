import HitlOps.Infrastructure.AuditWriter

/-!
# The outbox publisher

`infrastructure/outbox.py`: a batch of due messages is claimed under row locks, each message is
delivered without a lock, and its row is finalized or scheduled for a retry. The row that the last
step decides on is read without a lock.
-/

set_option autoImplicit false

namespace HitlOps.Infrastructure

open HitlOps.Python HitlOps.Domain HitlOps.Transaction

/-- `_AUDIT_TOPICS`. -/
def auditTopics : List String :=
  ["intent.created", "intent.transitioned", "risk.evaluated", "policy.evaluated",
    "execution.succeeded", "execution.failed", "execution.executing",
    "execution.execution_unknown", "execution.reconciled",
    "execution.reconciliation_exhausted", "administration.role_changed",
    "administration.policy_changed", "notification.delivered"]

/-- `_NOTIFICATION_TOPICS`. -/
def notificationTopics : List String := ["intent.transitioned"]

/-- `_NOTIFICATION_STATES`. -/
def notificationStates : List String := ["PENDING_APPROVAL_1", "PENDING_APPROVAL_2"]

/-- The settings of an `OutboxPublisher`. -/
structure OutboxPublisher where
  batchLimit : Nat
  retryBackoffSeconds : Nat
  claimLeaseSeconds : Nat
deriving DecidableEq

/-- The defaults of the settings. -/
def OutboxPublisher.default : OutboxPublisher := ⟨100, 5, 60⟩

/-! ## The audit request of a message -/

/-- `text.replace(old, new)` for a text that begins with `old` at most once, at its start. -/
def replacePrefix (old new text : String) : String :=
  if old.toList <+: text.toList then
    new ++ String.ofList (text.toList.drop old.length)
  else text

/-- The event type of a topic. -/
def eventTypeOf (topic : String) : String :=
  if topic = "intent.created" then "intent_created"
  else if topic = "intent.transitioned" then "state_transitioned"
  else if topic = "risk.evaluated" then "risk_evaluated"
  else if topic = "policy.evaluated" then "policy_evaluated"
  else if topic = "notification.delivered" then "notification_delivered"
  else replacePrefix "administration." "administration_"
    (replacePrefix "execution." "execution_" topic)

/-- A value bound to a text column that takes no null. -/
def textValue : Json → Except Error String
  | .str s => .ok s
  | _ => .error (.dbapi false)

/-- A value bound to a nullable text column. -/
def nullableTextValue : Option Json → Except Error (Option String)
  | none => .ok none
  | some .null => .ok none
  | some (.str s) => .ok (some s)
  | some _ => .error (.dbapi false)

/-- `int(value)`. -/
def intValue (pr : PostRuntime) : Json → Except Error Int
  | .int n => .ok n
  | v =>
      match pr.intOf v with
      | some n => .ok n
      | none => .error (.value "invalid literal for int()")

/-- The aggregate identifier of a payload. -/
def aggregateIdOf (pr : PostRuntime) (payload : Dict) : Except Error UUID :=
  match payload.get? "intent_id" with
  | some (.str text) =>
      match pr.uuidOf text with
      | some id => .ok id
      | none => .error (.value "badly formed hexadecimal UUID string")
  | some _ => .error (.typeError "UUID expects a string")
  | none => .ok (pr.uuid5 ("administration:" ++
      (payload.getD "tenant_id" .null).toStr pr.isPrintable))

/-- The arguments with which `_deliver_audit` appends the event of a message. -/
def auditRequest (pr : PostRuntime) (row : OutboxRow) : Except Error AuditRequest := do
  let payload := row.payload
  let aggregateId ← aggregateIdOf pr payload
  let aggregateRevision ← intValue pr (payload.getD "revision" (.int 1))
  let tenantId ← textValue (payload.getD "tenant_id" (.str "tenant-1"))
  let correlationId ← nullableTextValue (payload.get? "correlation_id")
  let policyVersion ← nullableTextValue (payload.get? "policy_version")
  let riskVersion ← nullableTextValue (payload.get? "rule_version")
  return {
    tenantId
    aggregateId
    aggregateRevision
    eventType := eventTypeOf row.topic
    actorId := (payload.getD "actor_id" (payload.getD "command_id" (.str "system"))).toStr
      pr.isPrintable
    occurredAt := row.createdAt
    attributes := payload
    correlationId
    causationId := some row.id.text
    policyVersion
    riskVersion }

/-- A result of a pure part of a program. -/
def ofResult {α : Type} : Except Error α → PostM α
  | .ok a => return a
  | .error e => .raise e

/-- `_deliver_audit`. -/
def deliverAudit (pr : PostRuntime) (row : OutboxRow) : PostM Unit := do
  let request ← ofResult (auditRequest pr row)
  let _ ← append pr request
  return ()

/-! ## Claims -/

/-- The row is unpublished, and neither its backoff nor a lease is running. -/
def isClaimable (row : OutboxRow) (now : Time) : Bool :=
  row.publishedAt.isNone && row.nextAttemptAt.all (fun t => decide (t ≤ now))
    && row.claimExpiresAt.all fun t => decide (t ≤ now)

/-- The claimable rows of a store in the order of their sequence. -/
def claimableRows (now : Time) (s : Mailbox) : List OutboxRow :=
  (s.messages.filter fun r => isClaimable r now).insertionSort fun a b => a.sequence ≤ b.sequence

/-- `LIMIT … FOR UPDATE SKIP LOCKED`: a row that is locked elsewhere, or that is no longer claimable
when its lock is granted, is passed over. -/
def lockClaimable (now : Time) : Nat → List UUID → PostM (List OutboxRow)
  | 0, _ => return []
  | _ + 1, [] => return []
  | n + 1, id :: rest => do
      match ← Prog.lock (D := Post) (.message id) true with
      -- `SKIP LOCKED`: the row does not count towards the limit.
      | none => lockClaimable now (n + 1) rest
      | some (s, _) =>
          match s.message? id with
          | none => lockClaimable now (n + 1) rest
          | some row =>
              if isClaimable row now = true then do
                let rows ← lockClaimable now n rest
                return row :: rows
              else lockClaimable now (n + 1) rest

/-- A row under a new lease. -/
def leased (row : OutboxRow) (workerId : String) (expires : Time) : OutboxRow :=
  { row with
    attempts := row.attempts + 1
    claimedBy := some workerId
    claimExpiresAt := some expires }

/-- The updates of a claim. -/
def leaseRows (workerId : String) (expires : Time) : List OutboxRow → PostM Unit
  | [] => return ()
  | row :: rest => do
      flushPost (.updateMessage row (leased row workerId expires))
      leaseRows workerId expires rest

/-- `_claim`. -/
def claimBatch (publisher : OutboxPublisher) (workerId : String) : PostM (List UUID) := do
  let now ← Prog.draw (D := Post) .now
  Prog.transaction (D := Post) do
    let candidates ← Prog.query (D := Post) (claimableRows now)
    let rows ← lockClaimable now publisher.batchLimit (candidates.map (·.id))
    leaseRows workerId (now + seconds publisher.claimLeaseSeconds) rows
    return rows.map (·.id)

/-! ## Delivery -/

/-- What a delivery did. -/
structure Delivered where
  audited : Bool
  notified : Bool
deriving DecidableEq

/-- The audit part of `_deliver`. -/
def deliverEvent (pr : PostRuntime) (id : UUID) (topic : Option String) : PostM Bool :=
  if topic.any (fun t => decide (t ∈ auditTopics)) = true then
    Prog.transaction (D := Post) do
      match ← Prog.query (D := Post) (·.message? id) with
      | none => return false
      | some row =>
          -- The lease may have run out, and another publisher may have published the message.
          if row.publishedAt.isNone = true then do
            deliverAudit pr row
            return true
          else return false
  else return false

/-- The message about a notification that was sent. -/
def deliveredPayload (payload : Dict) (notificationId workerId : String) : Dict :=
  [("tenant_id", payload.getD "tenant_id" .null), ("intent_id", payload.getD "intent_id" .null),
    ("notification_id", .str notificationId), ("delivered_by", .str workerId)]

/-- A new message; it is stamped with the start of its transaction. -/
def insertMessage (topic : String) (payload : Dict) : PostM Unit := do
  let id ← Prog.draw (D := Post) .uuid
  let (_, dbNow) ← Prog.select (D := Post)
  insertPost (.message id) (.insertMessage id topic payload dbNow)

/-- The notification part of `_deliver`. -/
def deliverNotification (pr : PostRuntime) (workerId : String) (topic : Option String)
    (payload : Dict) : PostM Bool :=
  if topic.any (fun t => decide (t ∈ notificationTopics)) = true ∧
      ∃ state ∈ notificationStates, payload.get? "to_state" = some (.str state) then do
    let text := fun field => (payload.getD field .null).toStr pr.isPrintable
    let revision ← ofResult (intValue pr (payload.getD "revision" (.int 1)))
    match ← Prog.call (D := Post) (.approvalRequested (text "tenant_id") (text "intent_id") revision
        (text "to_state") (text "command_id")) with
    | .error => .raise (.value "notification failed")
    | .cancelled => .raise .cancelled
    -- The notification is out before the message about it is stored.
    | .sent notificationId => do
        Prog.transaction (D := Post) do
          checkOutage
          insertMessage "notification.delivered" (deliveredPayload payload notificationId workerId)
        return true
  else return false

/-- `_deliver`. -/
def deliver (pr : PostRuntime) (id : UUID) (workerId : String) : PostM Delivered := do
  let found ← Prog.session (D := Post) do
    checkOutage
    Prog.query (D := Post) (·.message? id)
  let topic := found.map (·.topic)
  let payload := (found.map (·.payload)).getD []
  let audited ← deliverEvent pr id topic
  let notified ← deliverNotification pr workerId topic payload
  return ⟨audited, notified⟩

/-! ## Finalization -/

/-- The transaction of `_finalize` and `_reschedule`: a row that is gone, published, or claimed under
another name is left alone. -/
def settleMessage (id : UUID) (workerId : String) (settled : OutboxRow → Time → OutboxRow) :
    PostM Unit :=
  Prog.transaction (D := Post) do
    match ← Prog.query (D := Post) (·.message? id) with
    | none => return ()
    | some row =>
        if row.publishedAt.isSome = true then return ()
        else if row.claimedBy ≠ some workerId then return ()
        else do
          let now ← Prog.draw (D := Post) .now
          updatePost row (settled row now)

/-- A row that was published. -/
def finalized (row : OutboxRow) (now : Time) : OutboxRow :=
  { row with publishedAt := some now, claimedBy := none, claimExpiresAt := none }

/-- A row that waits for its next attempt. -/
def rescheduled (publisher : OutboxPublisher) (row : OutboxRow) (now : Time) : OutboxRow :=
  { row with
    nextAttemptAt := some (now + seconds publisher.retryBackoffSeconds)
    claimedBy := none
    claimExpiresAt := none }

/-- `_finalize`. -/
def finalize (id : UUID) (workerId : String) : PostM Unit := settleMessage id workerId finalized

/-- `_reschedule`. -/
def reschedule (publisher : OutboxPublisher) (id : UUID) (workerId : String) : PostM Unit :=
  settleMessage id workerId (rescheduled publisher)

/-! ## Publication -/

/-- The counters of `publish_pending`. -/
structure PublishStats where
  audited : Nat
  notified : Nat
  failed : Nat
deriving DecidableEq

/-- The counters after a delivery. -/
def PublishStats.add (stats : PublishStats) (d : Delivered) : PublishStats :=
  { stats with
    audited := stats.audited + if d.audited then 1 else 0
    notified := stats.notified + if d.notified then 1 else 0 }

/-- The loop of `publish_pending`. -/
def publishAll (pr : PostRuntime) (publisher : OutboxPublisher) (workerId : String) :
    List UUID → PublishStats → PostM PublishStats
  | [], stats => return stats
  | id :: rest, stats => do
      let delivered ← Prog.handle (do
        let d ← deliver pr id workerId
        return some d) fun x => if x.isException = true then return none else .raise x
      match delivered with
      -- A message that fails waits for its backoff; the rest of the batch goes on.
      | none => do
          reschedule publisher id workerId
          publishAll pr publisher workerId rest { stats with failed := stats.failed + 1 }
      | some d => do
          finalize id workerId
          publishAll pr publisher workerId rest (stats.add d)

/-- `publish_pending`. -/
def publishPending (pr : PostRuntime) (publisher : OutboxPublisher) (workerId : String) :
    PostM PublishStats := do
  let ids ← claimBatch publisher workerId
  publishAll pr publisher workerId ids ⟨0, 0, 0⟩

/-- The `worker_id` of the publishers that `run_worker_tick` starts. -/
def defaultPublisherId : String := "outbox-publisher"

end HitlOps.Infrastructure
