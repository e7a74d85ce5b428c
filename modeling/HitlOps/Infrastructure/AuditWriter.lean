import HitlOps.Infrastructure.Mailbox

/-!
# Appending audit events

`AuditWriter.append` of `infrastructure/audit.py`: the advisory lock of the aggregate, the search
for an event with the same cause, the last event of the chain, and the new row. An `AuditRequest`
holds the arguments of a call.
-/

set_option autoImplicit false

namespace HitlOps.Infrastructure

open HitlOps.Python HitlOps.Domain HitlOps.Transaction

/-- The arguments of `AuditWriter.append`. -/
structure AuditRequest where
  tenantId : String
  aggregateId : UUID
  aggregateRevision : Int
  eventType : String
  actorId : String
  occurredAt : Time
  attributes : Dict
  correlationId : Option String
  causationId : Option String
  policyVersion : Option String
  riskVersion : Option String
deriving DecidableEq

/-- The aggregate of a request. -/
def AuditRequest.aggregate (r : AuditRequest) : Aggregate := ⟨r.tenantId, r.aggregateId⟩

/-- `pg_advisory_xact_lock(hashtext(tenant_id), hashtext(aggregate_id))`. -/
def advisoryKey (pr : PostRuntime) (a : Aggregate) : PostKey :=
  .advisory (pr.hashtext a.tenantId) (pr.hashtext a.aggregateId.text)

/-- The later of two events. -/
def laterEvent (a b : AuditEventRow) : AuditEventRow := if a.sequence < b.sequence then b else a

/-- `ORDER BY sequence DESC LIMIT 1`. -/
def lastEvent? : List AuditEventRow → Option AuditEventRow
  | [] => none
  | e :: rest => some (rest.foldl laterEvent e)

/-- The row of an event, with the hash that its other columns determine. -/
def sealedEvent (pr : PostRuntime) (row : AuditEventRow) : AuditEventRow :=
  { row with eventHash := computeEventHash pr.toRuntime row }

/-- The event of a request behind the events `rows` of its aggregate. -/
def nextEvent (pr : PostRuntime) (r : AuditRequest) (rows : List AuditEventRow) : AuditEventRow :=
  sealedEvent pr
    { tenantId := r.tenantId
      aggregateId := r.aggregateId
      aggregateRevision := r.aggregateRevision
      sequence := ((lastEvent? rows).map fun e => e.sequence + 1).getD 1
      eventType := r.eventType
      actorId := r.actorId
      occurredAt := r.occurredAt
      correlationId := r.correlationId
      causationId := r.causationId
      policyVersion := r.policyVersion
      riskVersion := r.riskVersion
      attributes := r.attributes
      previousHash := ((lastEvent? rows).map (·.eventHash)).getD zeroHash
      eventHash := "" }

/-- The events that the search for a duplicate returns. -/
def duplicates (s : Mailbox) (r : AuditRequest) : List AuditEventRow :=
  match r.causationId with
  | none => []
  | some c => (s.eventsOf r.aggregate).filter fun e => e.causationId = some c

/-- `AuditWriter.append`. -/
def append (pr : PostRuntime) (r : AuditRequest) : PostM AuditEventRow := do
  -- One writer at a time for an aggregate, or for two that share the hash.
  let _ ← Prog.lock (D := Post) (advisoryKey pr r.aggregate) false
  let existing ← Prog.query (D := Post) (duplicates · r)
  match existing with
  -- The message has been audited already: a redelivery appends nothing.
  | [e] => return e
  | _ :: _ :: _ => .raise .multipleResults
  | [] => do
      let rows ← Prog.query (D := Post) (·.eventsOf r.aggregate)
      checkOutage
      let row := nextEvent pr r rows
      insertPost (.eventHash row.eventHash) (.insertEvent row)
      return row

end HitlOps.Infrastructure
