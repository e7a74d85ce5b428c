import HitlOps.Infrastructure.Repositories

/-!
# Administration

`AdministrationService` of `application/administration.py`: role grants and revocations, and the
registration and activation of policy bundles.
-/

set_option autoImplicit false

namespace HitlOps.Application

open HitlOps.Python HitlOps.Domain HitlOps.Infrastructure HitlOps.Transaction

/-- `GrantRoleCommand`. -/
structure GrantRoleCommand where
  tenantId : String
  principalId : String
  role : String
  environments : List String
  validUntil : Option Time
  actor : AuthenticatedActor
  commandId : String
  reason : String
  scopes : List String

/-- `RevokeRoleCommand`. -/
structure RevokeRoleCommand where
  tenantId : String
  assignmentId : UUID
  actor : AuthenticatedActor
  commandId : String
  reason : String

/-- `RegisterPolicyBundleCommand`. -/
structure RegisterPolicyBundleCommand where
  version : String
  rules : Dict
  actor : AuthenticatedActor
  commandId : String
  reason : String

/-- `ActivatePolicyBundleCommand`. -/
structure ActivatePolicyBundleCommand where
  version : String
  actor : AuthenticatedActor
  commandId : String
  reason : String

/-- `_environments_key`. -/
def environmentsKey (environments : List String) : String := joined "," environments

/-- The grant that `grant_role` finds: the same principal, role and environments, unrevoked. -/
def Store.activeGrants (s : Store) (tenantId principalId role key : String) :
    List RoleAssignmentRow :=
  s.assignments.filter fun r => r.tenantId = tenantId ∧ r.principalId = principalId ∧
    r.role = role ∧ r.environmentsKey = key ∧ r.revokedAt = none

/-- The audit payload of a grant. -/
def grantPayload (command : GrantRoleCommand) : Dict :=
  [("tenant_id", .str command.tenantId), ("principal_id", .str command.principalId),
    ("role", .str command.role), ("scopes", .list (command.scopes.map .str)),
    ("action", .str "granted"), ("actor_id", .str command.actor.actorId),
    ("command_id", .str command.commandId), ("reason", .str command.reason)]

/-- `AdministrationService.grant_role`. -/
def grantRole (command : GrantRoleCommand) : M RoleAssignmentRow := do
  requireAdministrator command.actor
  let environments := sortedTexts command.environments
  let (s, txNow) ← Prog.select (D := Db)
  match ← scalarOneOrNone (Store.activeGrants s command.tenantId command.principalId command.role
      (environmentsKey environments)) with
  | some existing => return existing
  | none => do
      let id ← Prog.draw (D := Db) .uuid
      let row : RoleAssignmentRow :=
        { id
          tenantId := command.tenantId
          principalId := command.principalId
          role := command.role
          environments
          scopes := command.scopes
          environmentsKey := environmentsKey environments
          validFrom := txNow
          validUntil := command.validUntil
          revokedAt := none
          grantedBy := command.actor.actorId }
      flush (.insertAssignment row)
      flush (.insertOutbox "administration.role_changed" (grantPayload command))
      return row

/-- The audit payload of a revocation. -/
def revokePayload (command : RevokeRoleCommand) (row : RoleAssignmentRow) : Dict :=
  [("tenant_id", .str command.tenantId), ("principal_id", .str row.principalId),
    ("role", .str row.role), ("action", .str "revoked"),
    ("actor_id", .str command.actor.actorId), ("command_id", .str command.commandId),
    ("reason", .str command.reason)]

/-- `AdministrationService.revoke_role`. -/
def revokeRole (command : RevokeRoleCommand) : M RoleAssignmentRow := do
  requireAdministrator command.actor
  let found ← Prog.query (D := Db) fun s =>
    s.assignments.find? fun r => r.id = command.assignmentId ∧ r.tenantId = command.tenantId
  let row ← Prog.orRaise (.notFoundError "role assignment not found") found
  Prog.raiseIf (row.revokedAt ≠ none) (.forbiddenError "assignment is already revoked")
  let now ← Prog.draw (D := Db) .now
  flush (.revokeAssignment row.id now)
  flush (.insertOutbox "administration.role_changed" (revokePayload command row))
  return { row with revokedAt := some now }

/-- The audit payload of a bundle change. -/
def policyChangePayload (tenantId version action : String) (actor : AuthenticatedActor)
    (commandId reason : String) : Dict :=
  [("tenant_id", .str tenantId), ("policy_version", .str version), ("action", .str action),
    ("actor_id", .str actor.actorId), ("command_id", .str commandId), ("reason", .str reason)]

/-- `AdministrationService.register_policy_bundle`. -/
def registerPolicyBundle (command : RegisterPolicyBundleCommand) : M String := do
  requireAdministrator command.actor
  let tenantId := command.actor.tenantId
  let found ← Prog.query (D := Db) (·.bundlesOf tenantId command.version)
  let existing ← scalarOneOrNone found
  Prog.raiseIf (existing.isSome = true)
    (.stateConflictError "policy bundle version already registered for this tenant")
  let id ← Prog.draw (D := Db) .uuid
  flush (.insertBundle ⟨id, tenantId, command.version, command.rules, false⟩)
  flush (.insertOutbox "administration.policy_changed"
    (policyChangePayload tenantId command.version "registered" command.actor command.commandId
      command.reason))
  return command.version

/-- `AdministrationService.activate_policy_bundle`. -/
def activatePolicyBundle (command : ActivatePolicyBundleCommand) : M String := do
  requireAdministrator command.actor
  let tenantId := command.actor.tenantId
  let found ← Prog.query (D := Db) (·.bundlesOf tenantId command.version)
  let existing ← scalarOneOrNone found
  let target ← Prog.orRaise (.notFoundError "policy bundle version not found") existing
  flush (.deactivateBundles tenantId)
  flush (.activateBundle target.id)
  flush (.insertOutbox "administration.policy_changed"
    (policyChangePayload tenantId command.version "activated" command.actor command.commandId
      command.reason))
  return command.version

end HitlOps.Application
