import HitlOps.Application.Administration
import HitlOps.Transaction.Alone
import HitlOps.Scenario

/-!
# The effect of a grant

`grant_role` inserts a row unless an unrevoked one has the same key; then it returns that row as it
is, whatever its window, its environments and its scopes.
-/

set_option autoImplicit false

namespace HitlOps.Properties

open HitlOps.Python HitlOps.Domain HitlOps.Infrastructure HitlOps.Application HitlOps.Transaction

/-- The command asks for the environment: it lists it, or it lists none. -/
def Requested (command : GrantRoleCommand) (environment : Option Json) : Prop :=
  command.environments = [] ∨ ∃ e ∈ command.environments, environment = some (.str e)

/-- The principal holds the role and every granted scope in each requested environment. -/
structure Holds (db : Store) (command : GrantRoleCommand) (t : Time) : Prop where
  role : ∀ environment, Requested command environment → command.role ∈ evaluateCurrentRoles
    (db.loadAssignments command.tenantId command.principalId) t environment
  scopes : ∀ environment, Requested command environment → ∀ scope ∈ command.scopes,
    scope ∈ evaluateCurrentScopes (db.loadAssignments command.tenantId command.principalId) t
      environment

/-- The environments of the row are exactly the requested ones. -/
def CoversExactly (row : RoleAssignmentRow) (command : GrantRoleCommand) : Prop :=
  ∀ e, e ∈ row.environments ↔ e ∈ command.environments

/-- A row with the key of the command that is not revoked. -/
abbrev ActiveGrant (db : Store) (command : GrantRoleCommand) (row : RoleAssignmentRow) : Prop :=
  row ∈ Store.activeGrants db command.tenantId command.principalId command.role
    (environmentsKey (sortedTexts command.environments))

/-- The row that `grant_role` inserts. -/
def grantedRow (command : GrantRoleCommand) (id : UUID) (validFrom : Time) : RoleAssignmentRow :=
  { id
    tenantId := command.tenantId
    principalId := command.principalId
    role := command.role
    environments := sortedTexts command.environments
    scopes := command.scopes
    environmentsKey := environmentsKey (sortedTexts command.environments)
    validFrom
    validUntil := command.validUntil
    revokedAt := none
    grantedBy := command.actor.actorId }

section Grant

variable {command : GrantRoleCommand} {d d' : Desk Db} {row : RoleAssignmentRow}

theorem alone_flush_ok {w : Write} {u : Unit} (h : (flush w).alone d = (.ok u, d')) :
    d' = d.wait.writing w := by
  obtain ⟨_, d₁, hraise, hwrite⟩ := Prog.alone_bind_ok.1 h
  obtain ⟨-, rfl⟩ := Prog.alone_raiseIf_ok.1 hraise
  cases hwrite
  rfl

theorem alone_requireAdministrator_ok {actor : AuthenticatedActor} {u : Unit}
    (h : (requireAdministrator actor).alone d = (.ok u, d')) : d' = d.wait.opening.wait := by
  obtain ⟨roles, d₁, hroles, hraise⟩ := Prog.alone_bind_ok.1 h
  obtain ⟨-, rfl⟩ := Prog.alone_raiseIf_ok.1 hraise
  cases hroles
  rfl

theorem scalarOneOrNone_ok {α : Type} {rows : List α} {o : Option α}
    (h : (scalarOneOrNone rows).alone d = (.ok o, d')) : rows = o.toList ∧ d' = d := by
  match rows with
  | [] =>
      cases h
      exact ⟨rfl, rfl⟩
  | [a] =>
      cases h
      exact ⟨rfl, rfl⟩
  | _ :: _ :: _ => cases h

/-- A grant that succeeds returns the active grant and changes nothing, or inserts a row. -/
theorem grantRole_cases (h : (grantRole command).alone d = (.ok row, d')) :
    (ActiveGrant d.view command row ∧ d'.view = d.view ∧
        ∀ r, ActiveGrant d.view command r → r = row) ∨
      ((∀ r, ¬ ActiveGrant d.view command r) ∧
        (∃ id, row = grantedRow command id d'.start.2) ∧
        d'.view.assignments = d.view.assignments ++ [row]) := by
  obtain ⟨_, d₁, hadmin, h⟩ := Prog.alone_bind_ok.1 h
  have hd₁ := alone_requireAdministrator_ok hadmin
  obtain ⟨⟨s, txNow⟩, d₂, hselect, h⟩ := Prog.alone_bind_ok.1 h
  obtain ⟨found, d₃, hfound, h⟩ := Prog.alone_bind_ok.1 h
  cases hselect
  obtain ⟨hrows, rfl⟩ := scalarOneOrNone_ok hfound
  have hview : d₁.wait.view = d.view := by rw [hd₁]; rfl
  rw [hview] at hrows
  cases found with
  | some existing =>
      cases h
      refine Or.inl ⟨?_, hview, fun r hr => ?_⟩
      · show row ∈ _
        rw [hrows]
        exact List.mem_singleton_self row
      · rw [ActiveGrant, hrows] at hr
        exact List.mem_singleton.1 hr
  | none =>
      obtain ⟨id, d₄, hid, h⟩ := Prog.alone_bind_ok.1 h
      have hd₄ : d₄ = d₁.wait.opening.wait := by cases hid; rfl
      replace h : (do
          flush (.insertAssignment (grantedRow command id d₁.wait.start.2))
          flush (.insertOutbox "administration.role_changed" (grantPayload command))
          return grantedRow command id d₁.wait.start.2).alone d₄ = (.ok row, d') := h
      obtain ⟨_, d₅, hrow, h⟩ := Prog.alone_bind_ok.1 h
      obtain ⟨_, d₆, hmessage, h⟩ := Prog.alone_bind_ok.1 h
      have hd₅ := alone_flush_ok hrow
      have hd₆ := alone_flush_ok hmessage
      cases h
      refine Or.inr ⟨fun r hr => ?_, ⟨id, ?_⟩, ?_⟩
      · rw [ActiveGrant, hrows] at hr
        exact List.not_mem_nil hr
      · rw [hd₆, hd₅, hd₄]
        rfl
      · rw [hd₆, hd₅, Desk.view_writing, Desk.view_wait, Desk.view_writing, Desk.view_wait, hd₄,
          Desk.view_wait, Desk.view_opening, hview]
        rfl

/-- The new row counts, from the start of its transaction to its end. -/
theorem isCurrent_grantedRow {t : Time} {id : UUID} {validFrom : Time} (hstart : validFrom ≤ t)
    (huntil : ∀ u, command.validUntil = some u → t < u) {environment : Option Json}
    (hrequested : Requested command environment) :
    (grantedRow command id validFrom).assignment.isCurrent t environment = true := by
  have hwindow : command.validUntil.all (fun u => decide (t < u)) = true := by
    cases hu : command.validUntil with
    | none => rfl
    | some u => exact decide_eq_true (huntil u hu)
  have henvironment : ((sortedTexts command.environments).isEmpty ||
      inEnvironments (sortedTexts command.environments) environment) = true := by
    rw [Bool.or_eq_true]
    rcases hrequested with hall | ⟨e, he, rfl⟩
    · rw [hall]
      exact Or.inl rfl
    · exact Or.inr (List.contains_iff_mem.2 (mem_sortedTexts.2 he))
  simp only [RoleAssignment.isCurrent, RoleAssignmentRow.assignment, grantedRow, Option.isNone_none,
    hstart, decide_true, hwindow, henvironment, Bool.and_self]

/-- A grant takes effect when no unrevoked row has its key, or when the row that has it covers the
requested environments and the authority is already there. -/
theorem grant_takes_effect (h : (grantRole command).alone d = (.ok row, d')) {t : Time}
    (hstart : d'.start.2 ≤ t) (huntil : ∀ u, command.validUntil = some u → t < u) :
    (Holds d'.view command t ∧ CoversExactly row command) ↔
      ∀ existing, ActiveGrant d.view command existing →
        CoversExactly existing command ∧ Holds d.view command t := by
  rcases grantRole_cases h with ⟨hactive, hview, honly⟩ | ⟨hnone, ⟨id, hrow⟩, hrows⟩
  · rw [hview]
    constructor
    · rintro ⟨hholds, hcovers⟩ existing hexisting
      rw [honly existing hexisting]
      exact ⟨hcovers, hholds⟩
    · intro hgood
      exact ⟨(hgood row hactive).2, (hgood row hactive).1⟩
  · refine ⟨fun _ existing hexisting => absurd hexisting (hnone existing), fun _ => ?_⟩
    -- The new row is among the assignments that are loaded, and it is current in what it grants.
    have hmem : row.assignment ∈ d'.view.loadAssignments command.tenantId command.principalId := by
      refine List.mem_map_of_mem (List.mem_filter.2 ⟨?_, ?_⟩)
      · rw [hrows]
        exact List.mem_append_right _ (List.mem_singleton_self row)
      · rw [hrow]
        exact decide_eq_true ⟨rfl, rfl⟩
    have hcurrent : ∀ environment, Requested command environment →
        row.assignment.isCurrent t environment = true := fun environment hrequested => by
      rw [hrow]
      exact isCurrent_grantedRow hstart huntil hrequested
    refine ⟨⟨fun environment hrequested => ?_, fun environment hrequested scope hscope => ?_⟩, ?_⟩
    · exact mem_evaluateCurrentRoles.2
        ⟨row.assignment, hmem, hcurrent environment hrequested, by rw [hrow]; rfl⟩
    · exact mem_evaluateCurrentScopes.2
        ⟨row.assignment, hmem, hcurrent environment hrequested, by rw [hrow]; exact hscope⟩
    · intro e
      rw [hrow]
      exact mem_sortedTexts

end Grant

/-! ## An expired grant -/

theorem root_valid : "root" ≠ "" ∧ "acme" ≠ "" := by decide

/-- The administrator of the tenant `acme`. -/
def root : AuthenticatedActor := ⟨"root", "acme", "", [], root_valid⟩

/-- The grant of the approver role to alice, in every environment and without an end. -/
def approverGrant : GrantRoleCommand :=
  ⟨"acme", "alice", "approver", [], none, root, "grant-1", "on call", ["ops:write"]⟩

/-- Moments at which no time passes and the clock shows `t`. -/
def quietMoments (t : Time) : Nat → Moment Db := fun _ =>
  { elapsed := 0
    draw
      | .now => t
      | .uuid => Scenario.freshId
      | .order => id
    answer := Scenario.environment.answer }

/-- The desk at time 20 over the administrator's row and the given rows. -/
def deskWith (rows : List RoleAssignmentRow) : Desk Db :=
  .opened (initialStore (Scenario.assignment "root" "administrator" :: rows) []) 0 20
    (quietMoments 20)

theorem grant_takes_effect_first : ∃ row d',
    (grantRole approverGrant).alone (deskWith []) = (.ok row, d') ∧
      Holds d'.view approverGrant 20 ∧ CoversExactly row approverGrant := by
  refine ⟨_, _, rfl, ?_⟩
  refine (@grant_takes_effect approverGrant (deskWith []) _ _ rfl 20 (by decide)
    (fun u h => by cases h)).2 fun existing hexisting => ?_
  revert hexisting
  exact fun h => absurd h List.not_mem_nil

/-- A grant of the same role that ended at time 10. -/
def endedGrant : RoleAssignmentRow :=
  { Scenario.assignment "alice" "approver" with validUntil := some 10 }

/-- The command succeeds at time 20, and alice is no approver. -/
theorem grant_over_ended_row :
    ¬ ∀ row d', (grantRole approverGrant).alone (deskWith [endedGrant]) = (.ok row, d') →
      Holds d'.view approverGrant 20 ∧ CoversExactly row approverGrant := by
  intro h
  have hrole := (h _ _ rfl).1.role none (Or.inl rfl)
  revert hrole
  decide

end HitlOps.Properties
