import HitlOps.Domain.Errors
import HitlOps.Infrastructure.Audit
import HitlOps.Transaction.Program

/-!
# The tables of the publisher

The outbox with its delivery columns and the audit events, as one list per table in insertion order,
and `Post`: the schema of the programs that write audit events and deliver messages. `PostM` is the type
of these programs.

An event is inserted under the unique key of its hash. The two other unique keys of `audit_events`
start with the aggregate, whose appends exclude each other by an advisory lock.
-/

set_option autoImplicit false

namespace HitlOps.Infrastructure

open HitlOps.Python HitlOps.Domain HitlOps.Transaction

/-! ## Rows -/

/-- `OutboxMessageORM`. -/
structure OutboxRow where
  id : UUID
  sequence : Nat
  topic : String
  payload : Dict
  attempts : Nat
  nextAttemptAt : Option Time
  publishedAt : Option Time
  claimedBy : Option String
  claimExpiresAt : Option Time
  createdAt : Time
deriving DecidableEq

/-- The committed tables. -/
structure Mailbox where
  messages : List OutboxRow
  events : List AuditEventRow
deriving DecidableEq

/-- The aggregate that an event belongs to: the tenant and the aggregate identifier. -/
structure Aggregate where
  tenantId : String
  aggregateId : UUID
deriving DecidableEq

/-- The aggregate of an event. -/
def AuditEventRow.aggregate (row : AuditEventRow) : Aggregate := ⟨row.tenantId, row.aggregateId⟩

namespace Mailbox

/-- `session.get(OutboxMessageORM, id)`. -/
def message? (s : Mailbox) (id : UUID) : Option OutboxRow := s.messages.find? fun r => r.id = id

/-- The events of an aggregate. -/
def eventsOf (s : Mailbox) (a : Aggregate) : List AuditEventRow :=
  s.events.filter fun e => e.aggregate = a

end Mailbox

/-! ## Writes -/

/-- A flushed `INSERT` or `UPDATE`. -/
inductive PostWrite : Type
  | insertMessage (id : UUID) (topic : String) (payload : Dict) (createdAt : Time)
  /-- The object was loaded as `old` and holds `new`; only the columns that differ are sent. -/
  | updateMessage (old new : OutboxRow)
  | insertEvent (row : AuditEventRow)

/-- The effect on `current` of an update whose object was loaded as `old` and holds `new`. -/
def OutboxRow.merge (old new current : OutboxRow) : OutboxRow :=
  { current with
    attempts := changed old.attempts new.attempts current.attempts
    nextAttemptAt := changed old.nextAttemptAt new.nextAttemptAt current.nextAttemptAt
    publishedAt := changed old.publishedAt new.publishedAt current.publishedAt
    claimedBy := changed old.claimedBy new.claimedBy current.claimedBy
    claimExpiresAt := changed old.claimExpiresAt new.claimExpiresAt current.claimExpiresAt }

/-- The tables after a write that drew the sequence number `n`. -/
def Mailbox.apply (s : Mailbox) (n : Nat) : PostWrite → Mailbox
  | .insertMessage id topic payload createdAt =>
      { s with messages :=
          s.messages ++ [⟨id, n, topic, payload, 0, none, none, none, none, createdAt⟩] }
  | .updateMessage old new =>
      { s with messages :=
          s.messages.map fun r => if r.id = old.id then OutboxRow.merge old new r else r }
  | .insertEvent row => { s with events := s.events ++ [row] }

/-- An `INTEGER` column holds the number. -/
def fitsInteger (n : Int) : Bool := decide (-2147483648 ≤ n ∧ n ≤ 2147483647)

/-- A nullable `String(n)` column holds the value. -/
def fitsNullable (n : Nat) (s : Option String) : Bool := s.all (fits n)

/-- The column constraints of `audit_events`. -/
def AuditEventRow.admissible (row : AuditEventRow) : Bool :=
  fits 63 row.tenantId && fitsInteger row.aggregateRevision && fitsInteger row.sequence
    && fits 64 row.eventType && fits 255 row.actorId && fitsNullable 64 row.correlationId
    && fitsNullable 64 row.causationId && fitsNullable 32 row.policyVersion
    && fitsNullable 32 row.riskVersion && storableDict row.attributes && fits 64 row.previousHash
    && fits 64 row.eventHash

/-- The column constraints of a write. -/
def PostWrite.admissible : PostWrite → Bool
  | .insertMessage _ topic payload _ => fits 64 topic && storableDict payload
  | .updateMessage old new => sends (fits 64) old.claimedBy new.claimedBy
  | .insertEvent row => row.admissible

/-! ## The schema -/

/-- What a row lock, an advisory lock or a pending insert excludes others from. -/
inductive PostKey : Type
  | message (id : UUID)
  | advisory (tenantHash aggregateHash : Int)
  | eventHash (hash : String)
deriving DecidableEq

/-- The calls of the publisher: `NotificationSink.approval_requested`. -/
inductive PostCall : Type
  | approvalRequested (tenantId intentId : String) (revision : Int)
      (toState correlationId : String)
deriving DecidableEq

/-- How the notification sink answers: an identifier, an exception, or a cancellation. -/
inductive NotifyAnswer : Type
  | sent (notificationId : String)
  | error
  | cancelled
deriving DecidableEq

/-- The answers of a call. -/
@[reducible] def PostAnswer : PostCall → Type
  | .approvalRequested _ _ _ _ _ => NotifyAnswer

/-- The local readings of a publisher. -/
inductive PostSource : Type
  /-- `datetime.now(UTC)`. -/
  | now
  /-- `uuid.uuid4()`. -/
  | uuid
  /-- Whether the database refuses the statements at hand, as it does when a connection is lost. -/
  | outage
deriving DecidableEq

/-- The values of a reading. -/
@[reducible] def PostDraw : PostSource → Type
  | .now => Time
  | .uuid => UUID
  | .outage => Bool

/-- The row guarded by a lock key exists; an advisory lock can always be taken. -/
def Mailbox.present (s : Mailbox) : PostKey → Bool
  | .message id => (s.message? id).isSome
  | .advisory _ _ => true
  | .eventHash hash => s.events.any fun e => e.eventHash = hash

/-- The schema of the publisher. -/
@[reducible] def Post : Schema where
  Store := Mailbox
  Write := PostWrite
  Key := PostKey
  Call := PostCall
  Answer := PostAnswer
  Source := PostSource
  Draw := PostDraw
  Mark := Empty
  decKey := inferInstance
  apply := Mailbox.apply
  present := Mailbox.present

/-- A program of the publisher. -/
abbrev PostM := Prog Post Error

/-- A flushed row; a value that its column cannot hold makes the flush raise. -/
def flushPost (w : PostWrite) : PostM Unit := do
  Prog.raiseIf (w.admissible = false) (.dbapi false)
  Prog.write (D := Post) w

/-- A flushed `INSERT` under a unique key; a duplicate raises an integrity error. -/
def insertPost (k : PostKey) (w : PostWrite) : PostM Unit := do
  Prog.raiseIf (w.admissible = false) (.dbapi false)
  let inserted ← Prog.insert (D := Post) k w
  Prog.raiseIf (inserted = false) (.dbapi false)

/-- A flushed `UPDATE` of a message: it waits for the row lock. -/
def updatePost (old new : OutboxRow) : PostM Unit := do
  let _ ← Prog.lock (D := Post) (.message old.id) false
  flushPost (.updateMessage old new)

/-- The statements at hand fail when the database is out of reach. -/
def checkOutage : PostM Unit := do
  let out ← Prog.draw (D := Post) .outage
  Prog.raiseIf (out = true) (.dbapi false)

/-- Library functions that the publisher calls. -/
structure PostRuntime extends Runtime where
  /-- `hashtext` of PostgreSQL. -/
  hashtext : String → Int
  /-- `uuid.uuid5(uuid.NAMESPACE_URL, name)`. -/
  uuid5 : String → UUID
  /-- `uuid.UUID(text)`. -/
  uuidOf : String → Option UUID
  /-- `int(value)`. -/
  intOf : Json → Option Int

end HitlOps.Infrastructure
