import Mathlib.Data.List.Dedup
import Mathlib.Data.List.Sort
import HitlOps.Python.Json
import HitlOps.Domain.Models

/-!
# Actors and current authority

`evaluateCurrentRoles` and `evaluateCurrentScopes` of `infrastructure/identity.py`. Both filter the
assignments by one predicate, `RoleAssignment.isCurrent`; sets of texts are lists read through
membership.
-/

set_option autoImplicit false

namespace HitlOps.Infrastructure

open HitlOps.Python HitlOps.Domain

/-- `AuthenticatedActor`; an actor without an identifier or a tenant cannot be built. -/
structure AuthenticatedActor where
  actorId : String
  tenantId : String
  correlationId : String
  scopes : List String
  valid : actorId ≠ "" ∧ tenantId ≠ ""
deriving DecidableEq

/-- `RoleAssignment`. -/
structure RoleAssignment where
  role : String
  validFrom : Time
  validUntil : Option Time
  revokedAt : Option Time
  environments : List String
  scopes : List String
deriving DecidableEq

/-- `environment in environments`, for the environment value of an intent. -/
def inEnvironments (environments : List String) : Option Json → Bool
  | some (.str e) => environments.contains e
  | _ => false

/-- The assignment is unrevoked, inside its validity window, and covers the environment. -/
def RoleAssignment.isCurrent (a : RoleAssignment) (at_ : Time) (environment : Option Json) :
    Bool :=
  a.revokedAt.isNone && decide (a.validFrom ≤ at_) && a.validUntil.all (fun t => decide (at_ < t))
    && (a.environments.isEmpty || inEnvironments a.environments environment)

/-- `evaluate_current_roles`. -/
def evaluateCurrentRoles (assignments : List RoleAssignment) (at_ : Time)
    (environment : Option Json) : List String :=
  (assignments.filter (·.isCurrent at_ environment)).map (·.role)

/-- `evaluate_current_scopes`. -/
def evaluateCurrentScopes (assignments : List RoleAssignment) (at_ : Time)
    (environment : Option Json) : List String :=
  (assignments.filter (·.isCurrent at_ environment)).flatMap (·.scopes)

/-- A current role comes from a current assignment. -/
theorem mem_evaluateCurrentRoles {assignments : List RoleAssignment} {at_ : Time}
    {environment : Option Json} {role : String} :
    role ∈ evaluateCurrentRoles assignments at_ environment ↔
      ∃ a ∈ assignments, a.isCurrent at_ environment = true ∧ a.role = role := by
  simp only [evaluateCurrentRoles, List.mem_map, List.mem_filter]
  exact ⟨fun ⟨a, ⟨ha, hc⟩, hr⟩ => ⟨a, ha, hc, hr⟩, fun ⟨a, ha, hc, hr⟩ => ⟨a, ⟨ha, hc⟩, hr⟩⟩

/-- A current scope comes from a current assignment. -/
theorem mem_evaluateCurrentScopes {assignments : List RoleAssignment} {at_ : Time}
    {environment : Option Json} {scope : String} :
    scope ∈ evaluateCurrentScopes assignments at_ environment ↔
      ∃ a ∈ assignments, a.isCurrent at_ environment = true ∧ scope ∈ a.scopes := by
  simp only [evaluateCurrentScopes, List.mem_flatMap, List.mem_filter]
  exact ⟨fun ⟨a, ⟨ha, hc⟩, hr⟩ => ⟨a, ha, hc, hr⟩, fun ⟨a, ha, hc, hr⟩ => ⟨a, ⟨ha, hc⟩, hr⟩⟩

/-- `sorted(…)` of a list of texts. -/
def sorted (texts : List String) : List String := texts.insertionSort fun a b => a ≤ b

/-- `sorted(…)` of a set of texts. -/
def sortedTexts (texts : List String) : List String := sorted texts.dedup

@[simp] theorem mem_sortedTexts {texts : List String} {s : String} :
    s ∈ sortedTexts texts ↔ s ∈ texts := by
  unfold sortedTexts sorted
  rw [List.mem_insertionSort, List.mem_dedup]

end HitlOps.Infrastructure
