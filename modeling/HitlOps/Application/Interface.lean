import HitlOps.Transaction.Program
import HitlOps.Adapters.Base
import HitlOps.Infrastructure.Tables

/-!
# The interface of the application

The commands and permits that the services exchange, and `Db`: the schema that ties programs to
the tables, to the calls that leave the process and to its local readings. `M` is the type of the
application's programs.

Marks record which command runs, which claim is in progress and which permit is issued. They have
no effect; the contracts of the runs read them.
-/

set_option autoImplicit false

namespace HitlOps.Application

open HitlOps.Python HitlOps.Domain HitlOps.Infrastructure HitlOps.Adapters HitlOps.Transaction

/-! ## Commands and permits -/

/-- `ApprovalDecisionCommand`. -/
structure ApprovalDecisionCommand where
  tenantId : String
  intentId : UUID
  revision : Nat
  intentDigest : String
  level : Nat
  decision : ApprovalDecision
  reason : String
  expectedStateVersion : Nat
  actor : AuthenticatedActor
  commandId : String
  obligations : List (String × String)
deriving DecidableEq

/-- `CancelIntentCommand`. -/
structure CancelIntentCommand where
  tenantId : String
  intentId : UUID
  revision : Nat
  reason : String
  expectedStateVersion : Nat
  actor : AuthenticatedActor
  commandId : String
deriving DecidableEq

/-- The revision a decision is about. -/
def ApprovalDecisionCommand.key (c : ApprovalDecisionCommand) : RevisionKey :=
  ⟨c.tenantId, c.intentId, c.revision⟩

/-- The revision a cancellation is about. -/
def CancelIntentCommand.key (c : CancelIntentCommand) : RevisionKey :=
  ⟨c.tenantId, c.intentId, c.revision⟩

/-- `ExecutionPermit`. -/
structure ExecutionPermit where
  key : RevisionKey
  intentDigest : String
  tool : ToolName
  typedParameters : Dict
  operationKey : String
  preconditionToken : String
  resourceVersion : Option String
  executionId : UUID
  issuedAt : Time
deriving DecidableEq

/-- `RevalidationFailure`. -/
structure RevalidationFailure where
  state : IntentState
  reasonCode : String
  executionId : UUID
deriving DecidableEq

/-! ## The schema -/

/-- What a row lock or a pending insert excludes others from. -/
inductive LockKey : Type
  | intent (key : RevisionKey)
  | idempotency (key : IdempotencyKey)
  | execution (id : UUID)
deriving DecidableEq

/-- The calls that leave the process. -/
inductive Call : Type
  | fetch (tool : ToolName) (parameters : Dict)
  | execute (tool : ToolName) (command : AdapterCommand)
  | lookupStatus (tool : ToolName) (operationKey : String) (providerOperationId : Option String)
  | propose (request : String) (context : Dict)
  | publishPending
deriving DecidableEq

/-- How the proposal provider answers: a value, a plain `DomainError`, or another failure. -/
inductive ProposeAnswer : Type
  | value (v : Json)
  | domain (message code : String) (httpStatus : Nat) (retryable : Bool)
  | timeout
  | error
  | cancelled

/-- The answers of a call. -/
@[reducible] def Answer : Call → Type
  | .fetch _ _ => FetchAnswer
  | .execute _ _ => ExecuteAnswer
  | .lookupStatus _ _ _ => LookupAnswer
  | .propose _ _ => ProposeAnswer
  | .publishPending => Option Error

/-- The local readings of a process. -/
inductive Source : Type
  /-- `datetime.now(UTC)`. -/
  | now
  /-- `uuid.uuid4()`. -/
  | uuid
  /-- The order in which an unordered scan returns its rows. -/
  | order
deriving DecidableEq

/-- The values of a reading. -/
@[reducible] def Draw : Source → Type
  | .now => Time
  | .uuid => UUID
  | .order => Nat → Nat

/-- The trace points of the programs. -/
inductive Mark : Type
  | decide (command : ApprovalDecisionCommand)
  | cancel (command : CancelIntentCommand)
  | claim (key : RevisionKey) (bundle : PolicyBundle)
  | permit (permit : ExecutionPermit)
deriving DecidableEq

/-- The row guarded by a lock key exists. -/
def present (s : Store) : LockKey → Bool
  | .intent k => (s.intent? k).isSome
  | .idempotency k => (s.idempotency? k).isSome
  | .execution id => (s.execution? id).isSome

/-- The schema of the application. -/
@[reducible] def Db : Schema where
  Store := Store
  Write := Write
  Key := LockKey
  Call := Call
  Answer := Answer
  Source := Source
  Draw := Draw
  Mark := Mark
  decKey := inferInstance
  apply := Store.apply
  present := present

/-- A program of the application. -/
abbrev M := Prog Db Error

/-! ## Statements -/

/-- A flushed row; a value that its column cannot hold makes the flush raise. -/
def flush (w : Write) : M Unit := do
  Prog.raiseIf (w.admissible = false) (.dbapi false)
  Prog.write (D := Db) w

/-- A result of a pure part of a program. -/
def ofExcept {α : Type} : Except Error α → M α
  | .ok a => return a
  | .error e => .raise e

/-- Rows in the order of the ranks of their positions. -/
def arrange {α : Type} (rank : Nat → Nat) (rows : List α) : List α :=
  (rows.zipIdx.insertionSort fun a b => rank a.2 ≤ rank b.2).map Prod.fst

theorem arrange_perm {α : Type} (rank : Nat → Nat) (rows : List α) :
    (arrange rank rows).Perm rows := by
  have h := (List.perm_insertionSort (fun a b => rank a.2 ≤ rank b.2) rows.zipIdx).map Prod.fst
  rw [List.zipIdx_map_fst] at h
  exact h

@[simp] theorem mem_arrange {α : Type} {rank : Nat → Nat} {rows : List α} {a : α} :
    a ∈ arrange rank rows ↔ a ∈ rows := (arrange_perm rank rows).mem_iff

/-- A query without `ORDER BY`. -/
def scan {α : Type} (q : Store → List α) : M (List α) := do
  let rows ← Prog.query (D := Db) q
  let rank ← Prog.draw (D := Db) .order
  return arrange rank rows

/-- `scalar_one_or_none()`. -/
def scalarOneOrNone {α : Type} : List α → M (Option α)
  | [] => return none
  | [a] => return some a
  | _ => .raise .multipleResults

/-- `scalar_one()`. -/
def scalarOne {α : Type} : List α → M α
  | [] => .raise .noResult
  | [a] => return a
  | _ => .raise .multipleResults

end HitlOps.Application
