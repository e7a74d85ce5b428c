import HitlOps.Lifecycle.Administration
import HitlOps.Scenario

/-!
# The administration is closed

Assignments and bundles change only at the request of somebody who holds an unrestricted assignment as
`administrator` in the tenant that is changed. A tenant in which nobody holds one stays as it is: no
interleaving of requests, of other tenants' administrators and of workers gives anybody a role there.
-/

set_option autoImplicit false

namespace HitlOps.Properties

open HitlOps.Python HitlOps.Domain HitlOps.Infrastructure HitlOps.Application HitlOps.Adapters
open HitlOps.Transaction HitlOps.Lifecycle HitlOps.Api

/-- The actor has a stored assignment as `administrator` for all environments of its tenant. -/
def HoldsOffice (db : Store) (actor : AuthenticatedActor) : Prop :=
  ∃ r ∈ db.assignments, r.tenantId = actor.tenantId ∧ r.principalId = actor.actorId ∧
    r.role = "administrator" ∧ r.environments = []

/-- The routes of `api/admin.py`. -/
def OfAdministration : Route → Prop
  | .grantRole _ => True
  | .revokeRole _ _ => True
  | .registerPolicyBundle _ => True
  | .activatePolicyBundle _ _ => True
  | _ => False

/-- The write is a lawful change of the administration, asked for by the actor. -/
structure Lawful (e : Entry) (actor : AuthenticatedActor) (w : Write) : Prop where
  office : HoldsOffice e.db actor
  shown : Commissioned e.history actor
  within : Within e.history actor.tenantId w
  granted : ∀ row, w = .insertAssignment row → row.grantedBy = actor.actorId

section Administration

variable {rt : Runtime} {allowed : Op → Prop} {s : State}

/-- Whoever an event was shown as an administrator holds the office when it takes place. -/
theorem office_of_shown (h : Run rt allowed s) {e : Entry} (he : e ∈ s.trace)
    {actor : AuthenticatedActor} (hshown : Commissioned e.history actor) :
    HoldsOffice e.db actor := by
  -- The assignment that was shown is still stored.
  obtain ⟨σ, hσ, now, -, hrole⟩ := hshown
  obtain ⟨r, hr, htenant, hprincipal, hadmin, henvironments⟩ := leader_of_administrator hrole
  obtain ⟨assignments, bundles, hreach⟩ := h
  have hadded : Added (cores σ) (cores e.db) :=
    shown_of_event (fun _ hr => grown_cores hr) hreach e he σ hσ
  obtain ⟨r', hr', -, htenant', hprincipal', hrole', henvironments'⟩ := assignment_of_added hadded hr
  exact ⟨r', hr', htenant'.trans htenant, hprincipal'.trans hprincipal, hrole'.trans hadmin,
    henvironments'.trans henvironments⟩

/-- An administrative write within the powers of an operation is one of an administration route, and a
granted row names its actor. -/
theorem administers_of_powers {request : Request} {route : Route} {w : Write}
    (hpower : MayWrite (.route request route) w) (hadmin : administrative w = true) :
    OfAdministration route ∧
      ∀ row, w = .insertAssignment row → row.grantedBy = request.actor.actorId := by
  have hserves : ServiceWrites request.actor route w := by
    refine hpower.resolve_left fun hreserves => ?_
    cases w <;> first | exact hreserves | cases hadmin
  have hgranted : Administers request.actor w →
      ∀ row, w = .insertAssignment row → row.grantedBy = request.actor.actorId := by
    rintro hadministers row rfl
    exact hadministers.2
  cases route with
  | grantRole body => exact ⟨trivial, hgranted hserves⟩
  | revokeRole assignmentId body => exact ⟨trivial, hgranted hserves⟩
  | registerPolicyBundle body => exact ⟨trivial, hgranted hserves⟩
  | activatePolicyBundle version body => exact ⟨trivial, hgranted hserves⟩
  -- The other routes write none of these tables.
  | decideApproval intentId body => cases w <;> first | exact hserves.elim | cases hadmin
  | cancelIntent intentId body => cases w <;> first | exact hserves.elim | cases hadmin
  | createIntent body =>
      cases w <;> first | exact hserves.elim False.elim False.elim | cases hadmin
  | createAgentIntent body =>
      cases w <;> first | exact hserves.elim False.elim False.elim | cases hadmin

/-- Only an administrator's own request to an administration route changes assignments and bundles, and
only in its tenant. -/
theorem changes_are_commissioned (h : Run rt allowed s) :
    ∀ e ∈ s.trace, ∀ w ∈ History.writes e.history, administrative w = true →
      ∃ request route, e.op = .route request route ∧ OfAdministration route ∧
        Lawful e request.actor w := by
  intro e he w hw hadmin
  obtain ⟨request, route, hop, hshown, hwithin⟩ := commissioned_of_run h he hw hadmin
  have hpower := (powers_of_run h he).2 w hw
  rw [hop] at hpower
  obtain ⟨hroute, hgranted⟩ := administers_of_powers hpower hadmin
  exact ⟨request, route, hop, hroute, office_of_shown h he hshown, hshown, hwithin, hgranted⟩

/-- A tenant that starts without an unrestricted administrator keeps exactly the assignments and the
bundles that it starts with. -/
theorem no_escalation {assignments : List RoleAssignmentRow} {bundles : List PolicyBundleRow}
    {tenantId : String} (hT : Leaderless assignments tenantId)
    (h : Sys.Reachable (code rt) allowed (initialStore assignments bundles) s)
    (hids : DistinctIds s.db) :
    (s.db.assignments.filter fun r => r.tenantId = tenantId) =
        assignments.filter (fun r => r.tenantId = tenantId) ∧
      (s.db.bundles.filter fun r => r.tenantId = tenantId) =
        bundles.filter (fun r => r.tenantId = tenantId) := by
  have hrows := spared_of_reachable hT h hids
  exact ⟨congrArg Prod.fst hrows, congrArg Prod.snd hrows⟩

end Administration

/-! ## A grant in another tenant -/

/-- The administrator of the tenant `zenith`. -/
def zoe : AuthenticatedActor := ⟨"zoe", "zenith", "corr", [], by decide, by decide⟩

/-- The first assignments: an administrator of `zenith`, and an approver of `acme`. -/
def officers : List RoleAssignmentRow :=
  [⟨Scenario.intentId, "zenith", "zoe", "administrator", [], [], "", 0, none, none, "root"⟩,
    Scenario.assignment "alice" "critical_approver_l1"]

def grantedId : UUID := ⟨"33333333-3333-3333-3333-333333333333", by decide⟩

/-- The clock and the identifier of the grant. -/
def grantEnvironment : Environment Db where
  draw
    | .now => 0
    | .uuid => grantedId
    | .order => id
  answer := Scenario.environment.answer

/-- The administrator of `zenith` appoints an approver. -/
def appointment : Op :=
  .route ⟨zoe, "key-1", "corr"⟩
    (.grantRole ⟨"mallory", "critical_approver_l1", [], [], none, "new approver", by decide⟩)

/-- The state behind the appointment. -/
def appointed : State :=
  Sys.play (code Scenario.runtime) (Sys.initial (initialStore officers [Scenario.seedBundle]))
    [.spawn appointment, .go 0 50 grantEnvironment]

theorem appointed_reachable : Sys.Reachable (code Scenario.runtime) (fun _ => True)
    (initialStore officers [Scenario.seedBundle]) appointed :=
  Sys.reachable_play .initial _ fun _ _ => trivial

set_option maxRecDepth 100000 in
theorem appointed_facts : (appointed.trace.any fun e =>
      (History.writes e.history).any administrative) = true ∧
    appointed.db.assignments.map (·.id) = [Scenario.intentId, Scenario.freshId, grantedId] ∧
    appointed.db.bundles.map (·.id) = [Scenario.freshId] := by
  decide +kernel

/-- The appointment is lawful. -/
theorem changes_are_commissioned_appointed : ∃ e ∈ appointed.trace, ∃ w ∈ History.writes e.history,
    ∃ request route, e.op = .route request route ∧ OfAdministration route ∧
      Lawful e request.actor w := by
  obtain ⟨e, he, hchanges⟩ := List.any_eq_true.1 appointed_facts.1
  obtain ⟨w, hw, hadmin⟩ := List.any_eq_true.1 hchanges
  have hrun : Run Scenario.runtime (fun _ => True) appointed := .of _ _ appointed_reachable
  exact ⟨e, he, w, hw, changes_are_commissioned hrun e he w hw hadmin⟩

/-- The tenant `acme` has no administrator, and the appointment leaves it as it is. -/
theorem no_escalation_appointed :
    (appointed.db.assignments.filter fun r => r.tenantId = "acme") =
        officers.filter (fun r => r.tenantId = "acme") ∧
      (appointed.db.bundles.filter fun r => r.tenantId = "acme") =
        [Scenario.seedBundle].filter (fun r => r.tenantId = "acme") := by
  have hleaderless : Leaderless officers "acme" := by
    show ∀ r ∈ officers, r.tenantId = "acme" → r.role = "administrator" → r.environments ≠ []
    decide
  have hids : DistinctIds appointed.db := by
    constructor
    · rw [appointed_facts.2.1]
      decide
    · rw [appointed_facts.2.2]
      decide
  exact no_escalation hleaderless appointed_reachable hids

end HitlOps.Properties
