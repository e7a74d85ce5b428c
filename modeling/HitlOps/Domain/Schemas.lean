import HitlOps.Python.Json
import HitlOps.Domain.Enums

/-!
# Tool parameter schemas

The strict parameter models of `agent/schemas.py`. A bounded text carries the proof that it meets
the field's length and pattern, so a `ToolParameters` value is a validated proposal.
`modelValidate` is the validation of a raw proposal and `modelDump` is `model_dump(mode="json")`.
-/

set_option autoImplicit false

namespace HitlOps.Domain

open HitlOps.Python

/-! ## Bounded texts -/

/-- A character of `[a-z0-9]`. -/
def isLowerAlnum (c : Char) : Bool := ('a' ≤ c && c ≤ 'z') || ('0' ≤ c && c ≤ '9')

/-- `^[a-z0-9][a-z0-9-]*$` with 1 to 63 characters. -/
def isBoundedName (s : String) : Bool :=
  match s.toList with
  | [] => false
  | c :: cs => isLowerAlnum c && cs.all (fun c => isLowerAlnum c || c = '-') && cs.length < 63

/-- `^[a-z0-9_.]+$` with 1 to 50 characters. -/
def isBoundedField (s : String) : Bool :=
  s.toList.all (fun c => isLowerAlnum c || c = '_' || c = '.') &&
    0 < s.toList.length && s.toList.length ≤ 50

/-- `BoundedName`. -/
structure BoundedName where
  text : String
  bounded : isBoundedName text = true
deriving DecidableEq

/-- `BoundedField`. -/
structure BoundedField where
  text : String
  bounded : isBoundedField text = true
deriving DecidableEq

def BoundedName.parse? (s : String) : Option BoundedName :=
  if h : isBoundedName s = true then some ⟨s, h⟩ else none

def BoundedField.parse? (s : String) : Option BoundedField :=
  if h : isBoundedField s = true then some ⟨s, h⟩ else none

/-! ## Closed choices -/

inductive EnvironmentName : Type
  | staging
  | production
deriving DecidableEq

def EnvironmentName.value : EnvironmentName → String
  | .staging => "staging"
  | .production => "production"

theorem EnvironmentName.value_injective : Function.Injective EnvironmentName.value := by
  intro a b h
  cases a <;> cases b <;> first | rfl | (revert h; decide)

inductive RestartStrategy : Type
  | rolling
  | immediate
deriving DecidableEq

def RestartStrategy.value : RestartStrategy → String
  | .rolling => "rolling"
  | .immediate => "immediate"

theorem RestartStrategy.value_injective : Function.Injective RestartStrategy.value := by
  intro a b h
  cases a <;> cases b <;> first | rfl | (revert h; decide)

inductive ResourceType : Type
  | postgresInstance
  | redisCache
  | objectStore
deriving DecidableEq

def ResourceType.value : ResourceType → String
  | .postgresInstance => "postgres_instance"
  | .redisCache => "redis_cache"
  | .objectStore => "object_store"

theorem ResourceType.value_injective : Function.Injective ResourceType.value := by
  intro a b h
  cases a <;> cases b <;> first | rfl | (revert h; decide)

inductive RegionName : Type
  | usEast1
  | usWest2
  | euWest1
  | apSouth1
deriving DecidableEq

def RegionName.value : RegionName → String
  | .usEast1 => "us-east-1"
  | .usWest2 => "us-west-2"
  | .euWest1 => "eu-west-1"
  | .apSouth1 => "ap-south-1"

theorem RegionName.value_injective : Function.Injective RegionName.value := by
  intro a b h
  cases a <;> cases b <;> first | rfl | (revert h; decide)

inductive ResourceSize : Type
  | small
  | medium
  | large
deriving DecidableEq

def ResourceSize.value : ResourceSize → String
  | .small => "small"
  | .medium => "medium"
  | .large => "large"

theorem ResourceSize.value_injective : Function.Injective ResourceSize.value := by
  intro a b h
  cases a <;> cases b <;> first | rfl | (revert h; decide)

inductive CostClass : Type
  | low
  | medium
  | high
deriving DecidableEq

def CostClass.value : CostClass → String
  | .low => "low"
  | .medium => "medium"
  | .high => "high"

theorem CostClass.value_injective : Function.Injective CostClass.value := by
  intro a b h
  cases a <;> cases b <;> first | rfl | (revert h; decide)

inductive DeletionMode : Type
  | soft
  | hard
deriving DecidableEq

def DeletionMode.value : DeletionMode → String
  | .soft => "soft"
  | .hard => "hard"

theorem DeletionMode.value_injective : Function.Injective DeletionMode.value := by
  intro a b h
  cases a <;> cases b <;> first | rfl | (revert h; decide)

/-! ## The five models -/

/-- Validated parameters of a tool; the constructor fixes the tool. -/
inductive ToolParameters : Type
  | inspectService (environment : EnvironmentName) (service : BoundedName)
      (requestedFields : {fields : List BoundedField // fields.length ≤ 10})
  | restartService (environment : EnvironmentName) (service : BoundedName)
      (strategy : RestartStrategy)
  | scaleService (environment : EnvironmentName) (service : BoundedName) (replicas : Fin 1001)
  | provisionResource (environment : EnvironmentName) (resourceType : ResourceType)
      (name : BoundedName) (region : RegionName) (size : ResourceSize) (costClass : CostClass)
  | deleteResource (environment : EnvironmentName) (resourceType : ResourceType)
      (resourceId : BoundedName) (deletionMode : DeletionMode)

namespace ToolParameters

/-- The tool whose model validated the parameters. -/
def tool : ToolParameters → ToolName
  | inspectService .. => .inspectService
  | restartService .. => .restartService
  | scaleService .. => .scaleService
  | provisionResource .. => .provisionResource
  | deleteResource .. => .deleteResource

/-- `parameters.model_dump(mode="json")`. -/
def modelDump : ToolParameters → Dict
  | inspectService environment service requestedFields =>
      [("environment", .str environment.value), ("service", .str service.text),
        ("requested_fields", .list (requestedFields.val.map fun f => .str f.text))]
  | restartService environment service strategy =>
      [("environment", .str environment.value), ("service", .str service.text),
        ("strategy", .str strategy.value)]
  | scaleService environment service replicas =>
      [("environment", .str environment.value), ("service", .str service.text),
        ("replicas", .int replicas.val)]
  | provisionResource environment resourceType name region size costClass =>
      [("environment", .str environment.value), ("resource_type", .str resourceType.value),
        ("name", .str name.text), ("region", .str region.value), ("size", .str size.value),
        ("cost_class", .str costClass.value)]
  | deleteResource environment resourceType resourceId deletionMode =>
      [("environment", .str environment.value), ("resource_type", .str resourceType.value),
        ("resource_id", .str resourceId.text), ("deletion_mode", .str deletionMode.value)]

end ToolParameters

/-! ## Validation -/

/-- The first of `choices` whose stored text is the value. -/
def choice? {α : Type} (choices : List (String × α)) : Option Json → Option α
  | some (.str s) => choices.lookup s
  | _ => none

def environment? : Option Json → Option EnvironmentName :=
  choice? [("staging", .staging), ("production", .production)]

def name? : Option Json → Option BoundedName
  | some (.str s) => BoundedName.parse? s
  | _ => none

def field? : Json → Option BoundedField
  | .str s => BoundedField.parse? s
  | _ => none

/-- `requested_fields`: absent, or at most ten bounded fields. -/
def requestedFields? : Option Json → Option {fields : List BoundedField // fields.length ≤ 10}
  | none => some ⟨[], by decide⟩
  | some (.list items) => do
      let fields ← items.mapM field?
      if h : fields.length ≤ 10 then some ⟨fields, h⟩ else none
  | some _ => none

/-- `replicas`: an integer, as the validation library reads it, between 0 and 1000. -/
def replicas? (rt : Runtime) (value : Option Json) : Option (Fin 1001) := do
  let n ← rt.laxInt (← value)
  if h : 0 ≤ n ∧ n ≤ 1000 then some ⟨n.toNat, by omega⟩ else none

/-- `extra="forbid"`: every key is a field of the model. -/
def onlyFields (fields : List String) (parameters : Dict) : Bool :=
  parameters.all fun e => fields.contains e.1

/-- `model.model_validate(parameters)` of the model of `tool`. -/
def modelValidate (rt : Runtime) (tool : ToolName) (parameters : Dict) : Option ToolParameters :=
  match tool with
  | .inspectService =>
      if onlyFields ["environment", "service", "requested_fields"] parameters then do
        return .inspectService (← environment? (parameters.get? "environment"))
          (← name? (parameters.get? "service"))
          (← requestedFields? (parameters.get? "requested_fields"))
      else none
  | .restartService =>
      if onlyFields ["environment", "service", "strategy"] parameters then do
        return .restartService (← environment? (parameters.get? "environment"))
          (← name? (parameters.get? "service"))
          (← choice? [("rolling", .rolling), ("immediate", .immediate)]
            (parameters.get? "strategy"))
      else none
  | .scaleService =>
      if onlyFields ["environment", "service", "replicas"] parameters then do
        return .scaleService (← environment? (parameters.get? "environment"))
          (← name? (parameters.get? "service"))
          (← replicas? rt (parameters.get? "replicas"))
      else none
  | .provisionResource =>
      if onlyFields ["environment", "resource_type", "name", "region", "size", "cost_class"]
          parameters then do
        return .provisionResource (← environment? (parameters.get? "environment"))
          (← choice? [("postgres_instance", .postgresInstance), ("redis_cache", .redisCache),
            ("object_store", .objectStore)] (parameters.get? "resource_type"))
          (← name? (parameters.get? "name"))
          (← choice? [("us-east-1", .usEast1), ("us-west-2", .usWest2), ("eu-west-1", .euWest1),
            ("ap-south-1", .apSouth1)] (parameters.get? "region"))
          (← choice? [("small", .small), ("medium", .medium), ("large", .large)]
            (parameters.get? "size"))
          (← choice? [("low", .low), ("medium", .medium), ("high", .high)]
            (parameters.get? "cost_class"))
      else none
  | .deleteResource =>
      if onlyFields ["environment", "resource_type", "resource_id", "deletion_mode"]
          parameters then do
        return .deleteResource (← environment? (parameters.get? "environment"))
          (← choice? [("postgres_instance", .postgresInstance), ("redis_cache", .redisCache),
            ("object_store", .objectStore)] (parameters.get? "resource_type"))
          (← name? (parameters.get? "resource_id"))
          (← choice? [("soft", .soft), ("hard", .hard)] (parameters.get? "deletion_mode"))
      else none

end HitlOps.Domain
