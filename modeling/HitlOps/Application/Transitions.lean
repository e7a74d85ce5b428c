import HitlOps.Application.Interface
import HitlOps.Domain.StateMachine

/-!
# Writing a transition

Five places of the program record a transition: the command handlers, the revalidation service, the
execution service, the reconciliation service and the worker's recovery. All of them check the
edge, take the next sequence, add the transition row and its outbox message, and move the intent.
`appendTransition` is that step; each place keeps its own `recordTransition` with its texts.
-/

set_option autoImplicit false

namespace HitlOps.Application

open HitlOps.Python HitlOps.Domain HitlOps.Infrastructure HitlOps.Transaction

/-- `require_transition`. -/
def requireTransition (current target : IntentState) : M Unit :=
  Prog.raiseIf (isLegal current target = false)
    (.illegalTransitionError
      ("transition " ++ current.value ++ " -> " ++ target.value ++ " is not legal"))

/-- Who records a transition, and why. -/
structure Cause where
  actorType : String
  actorId : String
  commandId : String
  reasonCode : String

/-- The transition row of a move to `target`. -/
def transitionRow (intent : ActionIntent) (target : IntentState) (cause : Cause)
    (sequence : Nat) (dbNow : Time) : StateTransition :=
  { key := intent.key
    fromState := some intent.state
    toState := target
    actorType := cause.actorType
    actorId := cause.actorId
    commandId := cause.commandId ++ ":" ++ target.lowered ++ ":" ++ toString sequence
    reasonCode := cause.reasonCode
    metadata := []
    sequence
    occurredAt := dbNow }

/-- The intent after a move to `target`. -/
def moved (intent : ActionIntent) (target : IntentState) : ActionIntent :=
  { intent with state := target, stateVersion := intent.stateVersion + 1 }

/-- The common step of the five `_record_transition` functions. -/
def appendTransition (intent : ActionIntent) (target : IntentState) (cause : Cause)
    (dbNow : Time) (topic : String) (payload : Dict) : M ActionIntent := do
  requireTransition intent.state target
  let last ← Prog.query (D := Db) (·.maxSequence intent.key)
  flush (.insertTransition (transitionRow intent target cause (last + 1) dbNow))
  flush (.insertOutbox topic payload)
  flush (.updateIntent intent.key ⟨target, intent.stateVersion + 1, none⟩)
  return moved intent target

/-- `SELECT … FOR UPDATE NOWAIT` of an intent with the transaction time. The outer `none` is a
refused lock. -/
def lockIntentNowait (key : RevisionKey) : M (Option (Option ActionIntent × Time)) := do
  match ← Prog.lock (D := Db) (.intent key) true with
  | none => return none
  | some (s, dbNow) => return some (s.intent? key, dbNow)

/-- `SELECT … FOR UPDATE` of an intent that must exist, `scalar_one()`. -/
def lockIntent (key : RevisionKey) : M ActionIntent := do
  match ← Prog.lock (D := Db) (.intent key) false with
  | none => .raise (.dbapi true)
  | some (s, _) => Prog.orRaise .noResult (s.intent? key)

end HitlOps.Application
