import Mathlib.Data.List.Sort
import Mathlib.Logic.Function.Basic
import HitlOps.Adapters.Base

/-!
# The demo provider

`DemoInfrastructureAdapter` of `adapters/demo.py`: an in-memory provider that is idempotent by operation
key and compares the version of a target before it changes it. A version `v3` is kept as its number.
-/

set_option autoImplicit false

namespace HitlOps.Adapters

open HitlOps.Python HitlOps.Domain

/-- `_PROVIDER_FAILURE_SERVICE`. -/
def providerFailureService : String := "boom-api"

/-- `_TIMEOUT_AFTER_SEND_SERVICE`. -/
def timeoutAfterSendService : String := "timeout-api"

/-- `_HOSTILE_PARAMETER_KEYS`. -/
def hostileParameterKeys : List String :=
  ["credentials", "credential", "token", "secret", "password", "api_key", "apikey",
    "shell_command", "command", "url", "endpoint", "host"]

/-- `_provider_operation_id`. -/
def providerOperationIdOf (rt : Runtime) (operationKey : String) : String :=
  "prov-" ++ String.ofList ((rt.sha256 operationKey).toList.take 12)

/-- A value of `_operations`. -/
structure ProviderRecord where
  tool : String
  outcome : ExecutionOutcome
  providerOperationId : String
  summary : Dict
  errorCode : Option String
deriving DecidableEq

/-- The state of the provider: `_operations` and `_target_versions`. -/
structure Provider where
  operations : String → Option ProviderRecord
  versions : String → Option Nat

namespace Provider

/-- A provider that has just started. -/
def fresh : Provider := ⟨fun _ => none, fun _ => none⟩

/-- The identity of a target: the fields that the parameters name. -/
def identity (parameters : Dict) : Dict :=
  ["service", "name", "resource_id"].filterMap fun field =>
    match parameters.get? field with
    | none => none
    | some .null => none
    | some v => some (field, v)

/-- `_target_key`: the tool and the sorted items of the identity. -/
def targetKey (rt : Runtime) (tool : ToolName) (parameters : Dict) : String :=
  let items := (identity parameters).insertionSort fun a b => a.1 ≤ b.1
  tool.value ++ ":[" ++ joined ", " (items.map fun e =>
    "(" ++ reprText rt.isPrintable e.1 ++ ", " ++ e.2.repr rt.isPrintable ++ ")") ++ "]"

/-- The text of a version. -/
def versionText (n : Nat) : String := "v" ++ toString n

/-- The current version of a target; it is `v1` before it is asked for. -/
def version (v : Provider) (key : String) : Nat := (v.versions key).getD 1

/-- `_target_versions.setdefault(key, "v1")`. -/
def settle (v : Provider) (key : String) : Provider :=
  { v with versions := Function.update v.versions key (some (v.version key)) }

/-- `rotate_target`. -/
def rotateTarget (rt : Runtime) (v : Provider) (tool : ToolName) (parameters : Dict) : Provider :=
  let key := targetKey rt tool parameters
  { v with versions := Function.update v.versions key (some ((v.versions key).getD 0 + 1)) }

/-- `fetch`. -/
def fetch (rt : Runtime) (tool : ToolName) (parameters : Dict) (v : Provider) :
    Provider × FetchAnswer :=
  let key := targetKey rt tool parameters
  (v.settle key,
    .snapshot ⟨true, identity parameters, "healthy", [], some (versionText (v.version key))⟩)

/-- The record of an operation. -/
def record (v : Provider) (operationKey : String) (r : ProviderRecord) : Provider :=
  { v with operations := Function.update v.operations operationKey (some r) }

/-- The answer to a command whose operation is recorded already. -/
def duplicate (r : ProviderRecord) : AdapterResult :=
  ⟨r.outcome.value, some r.providerOperationId, ("duplicate_delivery", .bool true) :: r.summary,
    r.errorCode⟩

/-- A command that passed the checks: its record, and the answer. -/
def apply (rt : Runtime) (tool : ToolName) (command : AdapterCommand) :
    ProviderRecord × AdapterResult :=
  let id := providerOperationIdOf rt command.operationKey
  let service := command.parameters.get? "service"
  if service = some (.str timeoutAfterSendService) then
    (⟨tool.value, .succeeded, id, [("applied", .bool true), ("tool", .str tool.value)], none⟩,
      ⟨ExecutionOutcome.unknown.value, some id,
        [("reason", .str "timeout_after_send"), ("tool", .str tool.value)], none⟩)
  else if service = some (.str providerFailureService) then
    (⟨tool.value, .failed, id, [("applied", .bool false), ("tool", .str tool.value)],
        some "DEMO_PROVIDER_FAILURE"⟩,
      ⟨ExecutionOutcome.failed.value, some id,
        [("applied", .bool false), ("tool", .str tool.value)], some "DEMO_PROVIDER_FAILURE"⟩)
  else
    (⟨tool.value, .succeeded, id,
        [("applied", .bool true), ("tool", .str tool.value),
          ("parameters", .dict command.parameters)], none⟩,
      ⟨ExecutionOutcome.succeeded.value, some id,
        [("applied", .bool true), ("tool", .str tool.value)], none⟩)

/-- `execute`. -/
def execute (rt : Runtime) (tool : ToolName) (command : AdapterCommand) (v : Provider) :
    Provider × ExecuteAnswer :=
  match v.operations command.operationKey with
  | some existing => (v, .result (duplicate existing))
  | none =>
      if hostileParameterKeys.any (fun key => (command.parameters.get? key).isSome) = true then
        (v, .preSend)
      else
        let key := targetKey rt tool command.parameters
        if command.resourceVersion.any (fun t => t ≠ versionText (v.version key)) = true then
          (v.settle key, .preSend)
        else
          let applied := apply rt tool command
          ((v.settle key).record command.operationKey applied.1, .result applied.2)

/-- `lookup_status`. -/
def lookupStatus (tool : ToolName) (operationKey : String) (providerOperationId : Option String)
    (v : Provider) : Provider × LookupAnswer :=
  match v.operations operationKey with
  | none => (v, .result ⟨ExecutionOutcome.unknown.value, providerOperationId,
      [("evidence", .str "none"), ("tool", .str tool.value)], none⟩)
  | some r => (v, .result ⟨r.outcome.value, some r.providerOperationId,
      [("evidence", .str "provider_record"), ("tool", .str tool.value)], none⟩)

/-! ## What a command does -/

section Laws

variable {rt : Runtime} {tool : ToolName} {command : AdapterCommand} {v : Provider} {key : String}

@[simp] theorem settle_operations (v : Provider) (key : String) :
    (v.settle key).operations = v.operations := rfl

/-- Asking for a version leaves all versions as they are. -/
@[simp] theorem version_settle (v : Provider) (key key' : String) :
    (v.settle key).version key' = v.version key' := by
  unfold settle version
  by_cases h : key' = key
  · subst h
    simp only [Function.update_self, Option.getD_some]
  · simp only [Function.update_of_ne h]

@[simp] theorem version_record (v : Provider) (operationKey : String) (r : ProviderRecord)
    (key : String) : (v.record operationKey r).version key = v.version key := rfl

/-- A command adds no record, or the one of an operation that it has just applied. -/
inductive Effect (rt : Runtime) (tool : ToolName) (command : AdapterCommand) (v v' : Provider) :
    ExecuteAnswer → Prop
  | known (r : ProviderRecord) (hr : v.operations command.operationKey = some r) (hv : v' = v) :
      Effect rt tool command v v' (.result (duplicate r))
  | refused (hv : v'.operations = v.operations) : Effect rt tool command v v' .preSend
  | applied (hnone : v.operations command.operationKey = none)
      (hversion : ∀ t, command.resourceVersion = some t →
        t = versionText (v.version (targetKey rt tool command.parameters)))
      (hv : v'.operations = Function.update v.operations command.operationKey
        (some (apply rt tool command).1)) :
      Effect rt tool command v v' (.result (apply rt tool command).2)

theorem effect_execute (rt : Runtime) (tool : ToolName) (command : AdapterCommand) (v : Provider) :
    Effect rt tool command v (execute rt tool command v).1 (execute rt tool command v).2 := by
  unfold execute
  split
  · next r hr => exact .known r hr rfl
  · next hnone =>
      split
      · exact .refused rfl
      · dsimp only
        split
        · exact .refused rfl
        · next hsame =>
            refine .applied hnone (fun t ht => ?_) rfl
            by_contra hne
            rw [ht] at hsame
            exact hsame (decide_eq_true hne)

/-- Nothing but an execution changes the records. -/
theorem fetch_operations (v : Provider) (parameters : Dict) :
    (fetch rt tool parameters v).1.operations = v.operations := rfl

theorem lookupStatus_fst (tool : ToolName) (operationKey : String) (id : Option String)
    (v : Provider) : (lookupStatus tool operationKey id v).1 = v := by
  unfold lookupStatus
  split <;> rfl

/-- What an applied command answers is what it records, or `UNKNOWN`. -/
theorem apply_outcome (rt : Runtime) (tool : ToolName) (command : AdapterCommand) :
    (apply rt tool command).2.outcome = (apply rt tool command).1.outcome.value ∨
      (apply rt tool command).2.outcome = ExecutionOutcome.unknown.value := by
  unfold apply
  dsimp only
  split
  · exact .inr rfl
  · split
    · exact .inl rfl
    · exact .inl rfl

end Laws

end Provider

end HitlOps.Adapters
