import HitlOps.Infrastructure.Outbox
import HitlOps.Transaction.System

/-!
# The delivery system

The transactions that share the outbox and the audit events: those that queue messages, those that
append an event, and the publishers. A transaction of the application that queues messages appears
here with what it does to the outbox; the locks it holds elsewhere only rule out interleavings.
-/

set_option autoImplicit false

namespace HitlOps.Delivery

open HitlOps.Python HitlOps.Domain HitlOps.Infrastructure HitlOps.Transaction

/-- The operations of the delivery system. -/
inductive PostOp : Type
  /-- A transaction that queues messages: topics and payloads. -/
  | send (messages : List (String × Dict))
  /-- A transaction of its own around `AuditWriter.append`. -/
  | append (request : AuditRequest)
  /-- `publish_pending`. -/
  | publish (publisher : OutboxPublisher) (workerId : String)

/-- What an operation returns. -/
inductive PostResult : Type
  | queued
  | appended (row : AuditEventRow)
  | published (stats : PublishStats)

/-- Queue the messages in their order. -/
def queue : List (String × Dict) → PostM Unit
  | [] => return ()
  | m :: rest => do
      insertMessage m.1 m.2
      queue rest

/-- The program of an operation. -/
def code (pr : PostRuntime) : PostOp → PostM PostResult
  | .send messages => do
      Prog.transaction (D := Post) (queue messages)
      return .queued
  | .append request => do
      let row ← Prog.transaction (D := Post) (append pr request)
      return .appended row
  | .publish publisher workerId => do
      let stats ← publishPending pr publisher workerId
      return .published stats

/-- The states of the delivery system. -/
abbrev PostState := Sys Post Error PostResult PostOp

/-- The events of a trace. -/
abbrev PostEntry := Event Post PostOp

/-- The states of the runs that start allowed operations only, from empty tables. -/
abbrev PostRun (pr : PostRuntime) (allowed : PostOp → Prop) (s : PostState) : Prop :=
  Sys.Reachable (code pr) allowed (⟨[], []⟩ : Mailbox) s

end HitlOps.Delivery
