import HitlOps.Lifecycle.Powers
import HitlOps.Transaction.Commits

/-!
# Administration

Who changes the role assignments and the policy bundles. Only the four administration routes do, each
after it was shown its actor as a current administrator, and each within the tenant of its actor
(`commissioned_of_run`). So a tenant that starts without an administrator keeps its assignments and its
bundles as they are, whatever the others do (`spared_of_reachable`).
-/

set_option autoImplicit false

namespace HitlOps.Lifecycle

open HitlOps.Python HitlOps.Domain HitlOps.Infrastructure HitlOps.Application HitlOps.Adapters
open HitlOps.Transaction HitlOps.Api

/-! ## Obligations -/

/-- A change of the assignments or of the policy bundles. -/
def administrative : Write → Bool
  | .insertAssignment _ => true
  | .revokeAssignment _ _ => true
  | .insertBundle _ => true
  | .deactivateBundles _ => true
  | .activateBundle _ => true
  | _ => false

/-- The stores that a process was shown before it changed an assignment or a bundle. -/
abbrev rolesShown (h : List (Obs Db)) : List Store := History.shown administrative h

/-- The process was shown the actor as a current administrator of its tenant. -/
def Commissioned (h : List (Obs Db)) (actor : AuthenticatedActor) : Prop :=
  ∃ σ ∈ rolesShown h, ∃ now, (.did (.draw .now) now : Obs Db) ∈ h ∧ "administrator" ∈
    evaluateCurrentRoles (σ.loadAssignments actor.tenantId actor.actorId) now none

/-- The rows that a write adds or changes are rows of the tenant. -/
def Within (h : List (Obs Db)) (tenantId : String) : Write → Prop
  | .insertAssignment row => row.tenantId = tenantId
  | .revokeAssignment id _ =>
      ∃ σ ∈ rolesShown h, ∃ row ∈ σ.assignments, row.id = id ∧ row.tenantId = tenantId
  | .insertBundle row => row.tenantId = tenantId
  | .deactivateBundles tenant => tenant = tenantId
  | .activateBundle id =>
      ∃ σ ∈ rolesShown h, ∃ row ∈ σ.bundles, row.id = id ∧ row.tenantId = tenantId
  | _ => True

/-- The administrative write is one of a route whose actor is an administrator. -/
def Backing (op : Op) (h : List (Obs Db)) (w : Write) : Prop :=
  ∃ request route, op = .route request route ∧ Commissioned h request.actor ∧
    Within h request.actor.tenantId w

/-- What a statement owes. -/
def owesCommission (op : Op) (h : List (Obs Db)) : Stmt Db → Prop
  | .write w => administrative w = true → Backing op h w
  | .insert _ w => administrative w = true → Backing op h w
  | _ => True

/-- The watch of the administration. -/
@[reducible] def administering (op : Op) : Watch Db := .over (fun _ => True) (owesCommission op)

section Growth

variable {h h' : List (Obs Db)}

theorem Commissioned.suffix {actor : AuthenticatedActor} (hc : Commissioned h actor)
    (hs : h <:+ h') : Commissioned h' actor := by
  obtain ⟨σ, hσ, now, hnow, hrole⟩ := hc
  exact ⟨σ, mem_shown_of_suffix hs hσ, now, hs.subset hnow, hrole⟩

theorem Within.suffix {tenantId : String} {w : Write} (hw : Within h tenantId w) (hs : h <:+ h') :
    Within h' tenantId w := by
  cases w with
  | revokeAssignment id revokedAt =>
      obtain ⟨σ, hσ, hrow⟩ := hw
      exact ⟨σ, mem_shown_of_suffix hs hσ, hrow⟩
  | activateBundle id =>
      obtain ⟨σ, hσ, hrow⟩ := hw
      exact ⟨σ, mem_shown_of_suffix hs hσ, hrow⟩
  | _ => exact hw

theorem Backing.suffix {op : Op} {w : Write} (hb : Backing op h w) (hs : h <:+ h') :
    Backing op h' w := by
  obtain ⟨request, route, hop, hc, hw⟩ := hb
  exact ⟨request, route, hop, hc.suffix hs, hw.suffix hs⟩

end Growth

/-! ## Programs -/

/-- No change of an assignment or a bundle is pending. -/
def Unchanged (h : List (Obs Db)) : Prop := (History.writes h).any administrative = false

section Programs

variable {rt : Runtime} {op : Op} {α β : Type} {h : List (Obs Db)}
  {Q : Except Error α → List (Obs Db) → Prop}

/-- A program that changes no assignment and no bundle. -/
theorem administering_aside {W : Write → Prop} {C : Call → Prop} {p : M α} (hp : Doing W C p)
    (hW : ∀ w, W w → administrative w = false) (hu : Unchanged h)
    (hQ : ∀ r h', h <:+ h' → Unchanged h' → Q r h') : (administering op).wp p Q h := by
  refine Watch.wp_uses (fun h' => h <:+ h' ∧ Unchanged h') (fun st hst h' hh => ?_) hp
    ⟨List.suffix_refl h, hu⟩ fun r h' hh _ => hQ r h' hh.1 hh.2
  have hnone : ∀ {w : Write}, W w → administrative w = true → Backing op h' w := by
    intro w hw hadmin
    rw [hW w hw] at hadmin
    cases hadmin
  have happend : ∀ {w : Write}, W w →
      (History.writes h' ++ [w]).any administrative = false := by
    intro w hw
    rw [List.any_append, List.any_cons, List.any_nil, hW w hw, hh.2]
    rfl
  have hgrown : ∀ r, h <:+ extend h' st r := fun r => hh.1.trans (Watch.suffix_extend h' st r)
  cases st with
  | write w => exact ⟨hnone hst, fun r _ => ⟨hgrown r, happend hst⟩⟩
  | insert k w =>
      refine ⟨hnone hst, fun r _ => ⟨hgrown r, ?_⟩⟩
      cases r with
      | true => exact happend hst
      | false => exact hh.2
  | commit => exact ⟨trivial, fun r _ => ⟨hgrown r, rfl⟩⟩
  | rollback => exact ⟨trivial, fun r _ => ⟨hgrown r, rfl⟩⟩
  | _ => exact ⟨trivial, fun r _ => ⟨hgrown r, hh.2⟩⟩

/-- A program that changes no assignment and no bundle, whatever is pending. -/
theorem administering_free {W : Write → Prop} {C : Call → Prop} {p : M α} (hp : Doing W C p)
    (hW : ∀ w, W w → administrative w = false) :
    (administering op).wp p (fun _ _ => True) h := by
  refine Watch.wp_uses (fun _ => True) (fun st hst h' _ => ⟨?_, fun _ _ => trivial⟩) hp trivial
    fun _ _ _ _ => trivial
  have hnone : ∀ {w : Write}, W w → administrative w = true → Backing op h' w := by
    intro w hw hadmin
    rw [hW w hw] at hadmin
    cases hadmin
  cases st with
  | write w => exact hnone hst
  | insert k w => exact hnone hst
  | _ => exact trivial

/-- A store that is shown before the first change counts. -/
theorem shown_of_select (hu : Unchanged h) (σ : Store) (t : Instant) :
    σ ∈ rolesShown (.did .select (σ, t) :: h : List (Obs Db)) := by
  have hclean : ¬ (History.writes h).any administrative = true := by
    rw [hu]
    exact Bool.false_ne_true
  show σ ∈ (if _ then _ else _) ++ _
  rw [if_neg hclean]
  exact List.mem_append_left _ (List.mem_singleton_self _)

/-- `require_administrator`. -/
theorem administering_requireAdministrator {Q : Except Error Unit → List (Obs Db) → Prop}
    (actor : AuthenticatedActor) (hu : Unchanged h) (herr : ∀ x h', Q (.error x) h')
    (hok : ∀ h', Unchanged h' → Commissioned h' actor → Q (.ok ()) h') :
    (administering op).wp (requireAdministrator actor) Q h := by
  refine Watch.wp_bind (Watch.wp_bind ⟨trivial, fun read _ => ⟨trivial, fun now _ => ?_⟩⟩)
  obtain ⟨σ, t⟩ := read
  refine Watch.wp_raiseIf (fun _ => herr _ _) fun hrole => hok _ hu ?_
  have hshown := shown_of_select hu σ t
  refine ⟨σ, ?_, now, List.mem_cons_self, not_not.1 hrole⟩
  exact mem_shown_of_suffix (List.suffix_cons (.did (.draw .now) now : Obs Db) _) hshown

/-- A query, with the store that it saw. -/
theorem administering_query {q : Store → α} (hu : Unchanged h)
    (hQ : ∀ σ h', h <:+ h' → Unchanged h' → σ ∈ rolesShown h' → Q (.ok (q σ)) h') :
    (administering op).wp (Prog.query (D := Db) q) Q h := by
  refine ⟨trivial, fun read _ => ?_⟩
  obtain ⟨σ, t⟩ := read
  exact hQ σ _ (List.suffix_cons _ h) hu (shown_of_select hu σ t)

/-- An administrative row that is backed. -/
theorem administering_flush {w : Write} {f : Unit → M α} (hb : Backing op h w)
    (herr : ∀ x h', Q (.error x) h')
    (hf : ∀ h', h <:+ h' → (administering op).wp (f ()) Q h') :
    (administering op).wp (flush w >>= f) Q h := by
  refine Watch.wp_bind (Watch.wp_bind (Watch.wp_raiseIf (fun _ => herr _ _) fun _ => ?_))
  exact ⟨fun _ => hb, fun _ _ => hf _ (List.suffix_cons _ h)⟩

/-- A message at the end of a command. -/
theorem administering_message {topic : String} {payload : Dict} {a : α}
    (hQ : ∀ r h', Q r h') :
    (administering op).wp (flush (.insertOutbox topic payload) >>= fun _ => pure a) Q h := by
  refine Watch.wp_bind (Watch.wp_bind (Watch.wp_raiseIf (fun _ => hQ _ _) fun _ => ?_))
  exact ⟨fun hadmin => (by cases hadmin), fun _ _ => hQ _ _⟩

/-! ### Commands -/

section Commands

variable {request : Request} {route : Route} {actor : AuthenticatedActor}

theorem administering_grantRole (command : GrantRoleCommand)
    (hop : op = .route request route) (hactor : command.actor = request.actor)
    (htenant : command.tenantId = request.actor.tenantId) (hu : Unchanged h) :
    (administering op).wp (grantRole command) (fun _ _ => True) h := by
  refine Watch.wp_bind (administering_requireAdministrator command.actor hu (fun _ _ => trivial) ?_)
  intro h₁ hu₁ hc
  rw [hactor] at hc
  refine Watch.wp_bind ⟨trivial, fun read _ => ?_⟩
  show (administering op).wp _ _ _
  refine Watch.wp_bind (administering_aside (W := fun _ => False) (C := fun _ => True)
    (calmly_scalarOneOrNone _).doing (fun _ hw => hw.elim) hu₁ fun r h₂ hs₂ _ => ?_)
  have hc₂ := (hc.suffix (List.suffix_cons _ h₁)).suffix hs₂
  cases r with
  | error x => trivial
  | ok found =>
      cases found with
      | some existing => trivial
      | none =>
          refine Watch.wp_bind ⟨trivial, fun id _ => ?_⟩
          refine administering_flush ⟨request, route, hop, hc₂.suffix (List.suffix_cons _ h₂), htenant⟩
            (fun _ _ => trivial) fun h₃ _ => ?_
          exact administering_message fun _ _ => trivial

theorem administering_revokeRole (command : RevokeRoleCommand)
    (hop : op = .route request route) (hactor : command.actor = request.actor)
    (htenant : command.tenantId = request.actor.tenantId) (hu : Unchanged h) :
    (administering op).wp (revokeRole command) (fun _ _ => True) h := by
  refine Watch.wp_bind (administering_requireAdministrator command.actor hu (fun _ _ => trivial) ?_)
  intro h₁ hu₁ hc
  rw [hactor] at hc
  refine Watch.wp_bind (administering_query hu₁ fun σ h₂ hs₂ hu₂ hσ => ?_)
  refine Watch.wp_bind (Watch.wp_orRaise (fun _ => trivial) fun row hrow => ?_)
  refine Watch.wp_bind (Watch.wp_raiseIf (fun _ => trivial) fun _ => ?_)
  refine Watch.wp_bind ⟨trivial, fun now _ => ?_⟩
  have hs₃ : h₂ <:+ extend h₂ (.draw .now : Stmt Db) now := List.suffix_cons _ h₂
  have hkey := List.find?_some hrow
  simp only [decide_eq_true_eq] at hkey
  have hwithin : Within h₂ request.actor.tenantId (.revokeAssignment row.id now) :=
    ⟨σ, hσ, row, List.mem_of_find?_eq_some hrow, rfl, hkey.2.trans htenant⟩
  show (administering op).wp (flush (.revokeAssignment row.id now) >>= _) _ _
  refine administering_flush ⟨request, route, hop, hc.suffix (hs₂.trans hs₃), hwithin.suffix hs₃⟩
    (fun _ _ => trivial) fun h₃ _ => ?_
  exact administering_message fun _ _ => trivial

theorem administering_registerPolicyBundle (command : RegisterPolicyBundleCommand)
    (hop : op = .route request route) (hactor : command.actor = request.actor) (hu : Unchanged h) :
    (administering op).wp (registerPolicyBundle command) (fun _ _ => True) h := by
  refine Watch.wp_bind (administering_requireAdministrator command.actor hu (fun _ _ => trivial) ?_)
  intro h₁ hu₁ hc
  rw [hactor] at hc
  refine Watch.wp_bind (administering_query hu₁ fun σ h₂ hs₂ hu₂ _ => ?_)
  refine Watch.wp_bind (administering_aside (W := fun _ => False) (C := fun _ => True)
    (calmly_scalarOneOrNone _).doing (fun _ hw => hw.elim) hu₂ fun r h₃ hs₃ _ => ?_)
  cases r with
  | error x => trivial
  | ok existing =>
      refine Watch.wp_bind (Watch.wp_raiseIf (fun _ => trivial) fun _ => ?_)
      refine Watch.wp_bind ⟨trivial, fun id _ => ?_⟩
      have hs₄ : h₃ <:+ extend h₃ (.draw .uuid : Stmt Db) id := List.suffix_cons _ h₃
      have hc₃ := hc.suffix (hs₂.trans (hs₃.trans hs₄))
      have htenant : command.actor.tenantId = request.actor.tenantId := congrArg _ hactor
      show (administering op).wp (flush _ >>= _) _ _
      refine administering_flush ⟨request, route, hop, hc₃, htenant⟩ (fun _ _ => trivial) ?_
      exact fun h₄ _ => administering_message fun _ _ => trivial

theorem administering_activatePolicyBundle (command : ActivatePolicyBundleCommand)
    (hop : op = .route request route) (hactor : command.actor = request.actor) (hu : Unchanged h) :
    (administering op).wp (activatePolicyBundle command) (fun _ _ => True) h := by
  refine Watch.wp_bind (administering_requireAdministrator command.actor hu (fun _ _ => trivial) ?_)
  intro h₁ hu₁ hc
  rw [hactor] at hc
  have htenant : command.actor.tenantId = request.actor.tenantId := congrArg _ hactor
  refine Watch.wp_bind (administering_query hu₁ fun σ h₂ hs₂ hu₂ hσ => ?_)
  -- The row that is activated is the only one that was found.
  cases hfound : σ.bundlesOf command.actor.tenantId command.version with
  | nil => exact Watch.wp_bind (Watch.wp_bind trivial)
  | cons row rest =>
      cases rest with
      | cons row' rest => exact Watch.wp_bind trivial
      | nil =>
          have hrow : row ∈ σ.bundlesOf command.actor.tenantId command.version := by
            rw [hfound]
            exact List.mem_singleton_self row
          obtain ⟨hmem, hkey⟩ := List.mem_filter.1 hrow
          have hwithin : Within h₂ request.actor.tenantId (.activateBundle row.id) :=
            ⟨σ, hσ, row, hmem, rfl, (of_decide_eq_true hkey).1.trans htenant⟩
          have hc₂ := hc.suffix hs₂
          show (administering op).wp (flush (.deactivateBundles command.actor.tenantId) >>= _) _ h₂
          refine administering_flush ⟨request, route, hop, hc₂, htenant⟩ (fun _ _ => trivial) ?_
          intro h₃ hs₃
          refine administering_flush ⟨request, route, hop, hc₂.suffix hs₃, hwithin.suffix hs₃⟩
            (fun _ _ => trivial) fun h₄ _ => ?_
          exact administering_message fun _ _ => trivial

end Commands

/-! ### Operations -/

/-- A session ends with nothing more. -/
theorem administering_getSession {p : M α}
    (hp : (administering op).wp p (fun _ _ => True) h) :
    (administering op).wp (getSession p) (fun _ _ => True) h := by
  refine Watch.wp_handle (Watch.wp_bind (Watch.wp_mono (fun r h' _ => ?_) hp))
  cases r with
  | ok a => exact ⟨trivial, fun _ _ => trivial⟩
  | error x =>
      refine Watch.wp_ite (fun _ => ?_) fun _ => ?_
      · exact ⟨trivial, fun _ _ => trivial⟩
      · exact ⟨trivial, fun _ _ => trivial⟩

/-- The shape of an administration route. -/
theorem administering_idempotent {command : M Dict} (request : Request) (scope : String)
    (payload : Dict) (status : Nat)
    (hc : ∀ h, Unchanged h → (administering op).wp command (fun _ _ => True) h) :
    (administering op).wp (getSession (idempotent rt request scope payload status command))
      (fun _ _ => True) [] := by
  have hreserves : ∀ w, Reserves w → administrative w = false := by
    intro w hw
    cases w <;> first | rfl | exact hw.elim
  refine administering_getSession ?_
  refine Watch.wp_bind (administering_aside (C := fun _ => True) (doing_reserve (fun _ hw => hw) _ _)
    hreserves rfl fun r h₁ _ hu₁ => ?_)
  cases r with
  | error x => trivial
  | ok found =>
      cases found with
      | some body => trivial
      | none =>
          refine Watch.wp_bind (Watch.wp_mono (fun r h₂ _ => ?_) (hc h₁ hu₁))
          cases r with
          | error x => trivial
          | ok response =>
              have hcomplete : Doing Reserves (fun _ => True) (do
                  complete (recordKey rt request scope) status response
                  return (⟨status, response⟩ : Response)) :=
                (calmly_complete (fun _ hw => hw) _ _ _).doing.bind fun _ => trivial
              exact administering_free hcomplete hreserves

/-- A command behind the draw of its identifier. -/
theorem administering_command {f : UUID → M α} {g : α → M β}
    (hf : ∀ id h, Unchanged h → (administering op).wp (f id) (fun _ _ => True) h)
    (hg : ∀ a h, (administering op).wp (g a) (fun _ _ => True) h) (hu : Unchanged h) :
    (administering op).wp (do
      let id ← Prog.draw (D := Db) .uuid
      let a ← f id
      g a) (fun _ _ => True) h := by
  refine Watch.wp_bind ⟨trivial, fun id _ => ?_⟩
  refine Watch.wp_bind (Watch.wp_mono (fun r h' _ => ?_) (hf id _ hu))
  cases r with
  | ok a => exact hg a h'
  | error x => trivial

/-- Every route changes assignments and bundles for an administrator only. -/
theorem administering_route (request : Request) (route : Route) :
    (administering (.route request route)).wp (routeProgram rt request route)
      (fun _ _ => True) [] := by
  have haside : (∀ w, MayWrite (.route request route) w → administrative w = false) →
      (administering (.route request route)).wp (routeProgram rt request route)
        (fun _ _ => True) [] := fun hW => administering_free (doing_route request route) hW
  cases route with
  | grantRole body =>
      exact administering_idempotent _ _ _ _ fun h hu => administering_command
        (fun id h' hu' => administering_grantRole _ rfl rfl rfl hu') (fun _ _ => trivial) hu
  | revokeRole assignmentId body =>
      exact administering_idempotent _ _ _ _ fun h hu => administering_command
        (fun id h' hu' => administering_revokeRole _ rfl rfl rfl hu') (fun _ _ => trivial) hu
  | registerPolicyBundle body =>
      exact administering_idempotent _ _ _ _ fun h hu => administering_command
        (fun id h' hu' => administering_registerPolicyBundle _ rfl rfl hu') (fun _ _ => trivial) hu
  | activatePolicyBundle version body =>
      exact administering_idempotent _ _ _ _ fun h hu => administering_command
        (fun id h' hu' => administering_activatePolicyBundle _ rfl rfl hu') (fun _ _ => trivial) hu
  | _ =>
      -- The other routes write nothing administrative.
      refine haside fun w hw => ?_
      cases w <;> first | rfl | (rcases hw with hw | hw | hw <;> exact hw.elim)

/-- Every operation changes assignments and bundles for an administrator only. -/
theorem administering_code (rt : Runtime) (op : Op) :
    (administering op).wp (code rt op) (fun _ _ => True) [] := by
  have haside : (∀ w, MayWrite op w → administrative w = false) →
      (administering op).wp (code rt op) (fun _ _ => True) [] := fun hW =>
    administering_free (doing_code rt op) hW
  cases op with
  | route request route =>
      refine Watch.wp_bind (Watch.wp_mono (fun r h' _ => ?_) (administering_route request route))
      cases r with
      | ok a => trivial
      | error x => trivial
  | _ =>
      refine haside fun w hw => ?_
      cases w <;> first | rfl | exact hw.elim

end Programs

/-! ## The rows of a tenant -/

/-- What no write changes of an assignment. -/
def RoleAssignmentRow.core (r : RoleAssignmentRow) :
    UUID × String × String × String × List String :=
  (r.id, r.tenantId, r.principalId, r.role, r.environments)

/-- What no write changes of a bundle. -/
def PolicyBundleRow.core (r : PolicyBundleRow) : UUID × String := (r.id, r.tenantId)

/-- What no write changes of the two tables. -/
abbrev Cores : Type := List (UUID × String × String × String × List String) × List (UUID × String)

/-- What no write changes of the rows of a store. -/
def cores (db : Store) : Cores :=
  (db.assignments.map RoleAssignmentRow.core, db.bundles.map PolicyBundleRow.core)

/-- Rows are only added. -/
def Added (c c' : Cores) : Prop := c.1 <+: c'.1 ∧ c.2 <+: c'.2

/-- The assignments and the bundles of a tenant. -/
def rowsFor (tenantId : String) (db : Store) : List RoleAssignmentRow × List PolicyBundleRow :=
  (db.assignments.filter fun r => r.tenantId = tenantId,
    db.bundles.filter fun r => r.tenantId = tenantId)

/-- The primary keys of the two tables are distinct. -/
structure DistinctIds (db : Store) : Prop where
  assignments : (db.assignments.map (·.id)).Nodup
  bundles : (db.bundles.map (·.id)).Nodup

/-- A write that concerns no row of the tenant, where `db` knows the rows by their identifiers. -/
def Spares (tenantId : String) (db : Store) : Write → Prop
  | .insertAssignment row => row.tenantId ≠ tenantId
  | .revokeAssignment id _ => ∀ row ∈ db.assignments, row.id = id → row.tenantId ≠ tenantId
  | .insertBundle row => row.tenantId ≠ tenantId
  | .deactivateBundles tenant => tenant ≠ tenantId
  | .activateBundle id => ∀ row ∈ db.bundles, row.id = id → row.tenantId ≠ tenantId
  | _ => True

section Rows

variable {db db' : Store} {T : String}

theorem Added.refl (c : Cores) : Added c c := ⟨List.prefix_rfl, List.prefix_rfl⟩

theorem Added.trans {c c' c'' : Cores} (h : Added c c') (h' : Added c' c'') : Added c c'' :=
  ⟨h.1.trans h'.1, h.2.trans h'.2⟩

theorem untouching_cores : Untouching (D := Db) cores administrative := by
  intro db n w hw
  cases w <;> first | rfl | cases hw

theorem prefix_of_eq {α : Type} {l l' : List α} (h : l = l') : l <+: l' := h ▸ List.prefix_rfl

theorem added_apply (db : Store) (n : Nat) (w : Write) : Added (cores db) (cores (db.apply n w)) := by
  cases w with
  | insertAssignment row =>
      refine ⟨?_, List.prefix_rfl⟩
      show _ <+: (db.assignments ++ [row]).map _
      rw [List.map_append]
      exact List.prefix_append _ _
  | insertBundle row =>
      refine ⟨List.prefix_rfl, ?_⟩
      show _ <+: (db.bundles ++ [row]).map _
      rw [List.map_append]
      exact List.prefix_append _ _
  | revokeAssignment id revokedAt =>
      refine ⟨prefix_of_eq ?_, List.prefix_rfl⟩
      show _ = (db.assignments.map _).map _
      rw [List.map_map]
      refine List.map_congr_left fun r _ => ?_
      simp only [Function.comp_apply]
      split <;> rfl
  | deactivateBundles tenant =>
      refine ⟨List.prefix_rfl, prefix_of_eq ?_⟩
      show _ = (db.bundles.map _).map _
      rw [List.map_map]
      refine List.map_congr_left fun r _ => ?_
      simp only [Function.comp_apply]
      split <;> rfl
  | activateBundle id =>
      refine ⟨List.prefix_rfl, prefix_of_eq ?_⟩
      show _ = (db.bundles.map _).map _
      rw [List.map_map]
      refine List.map_congr_left fun r _ => ?_
      simp only [Function.comp_apply]
      split <;> rfl
  | _ => exact .refl _

theorem added_foldl (pending : List (Nat × Write)) (db : Store) :
    Added (cores db) (cores (pending.foldl (fun s e => Store.apply s e.1 e.2) db)) := by
  induction pending generalizing db with
  | nil => exact .refl _
  | cons e rest ih => exact (added_apply db e.1 e.2).trans (ih _)

/-- An assignment is still there. -/
theorem assignment_of_added (h : Added (cores db) (cores db')) {r : RoleAssignmentRow}
    (hr : r ∈ db.assignments) : ∃ r' ∈ db'.assignments, r'.id = r.id ∧ r'.tenantId = r.tenantId ∧
      r'.principalId = r.principalId ∧ r'.role = r.role ∧ r'.environments = r.environments := by
  obtain ⟨r', hr', heq⟩ := List.mem_map.1 (h.1.subset (List.mem_map_of_mem hr))
  simp only [RoleAssignmentRow.core, Prod.mk.injEq] at heq
  exact ⟨r', hr', heq⟩

/-- A bundle is still there. -/
theorem bundle_of_added (h : Added (cores db) (cores db')) {r : PolicyBundleRow}
    (hr : r ∈ db.bundles) : ∃ r' ∈ db'.bundles, r'.id = r.id ∧ r'.tenantId = r.tenantId := by
  obtain ⟨r', hr', heq⟩ := List.mem_map.1 (h.2.subset (List.mem_map_of_mem hr))
  simp only [PolicyBundleRow.core, Prod.mk.injEq] at heq
  exact ⟨r', hr', heq⟩

theorem DistinctIds.older (h : DistinctIds db') (hadded : Added (cores db) (cores db')) :
    DistinctIds db := by
  have hassignments : db.assignments.map (·.id) = (cores db).1.map Prod.fst := by
    rw [cores, List.map_map]
    rfl
  have hassignments' : db'.assignments.map (·.id) = (cores db').1.map Prod.fst := by
    rw [cores, List.map_map]
    rfl
  have hbundles : db.bundles.map (·.id) = (cores db).2.map Prod.fst := by
    rw [cores, List.map_map]
    rfl
  have hbundles' : db'.bundles.map (·.id) = (cores db').2.map Prod.fst := by
    rw [cores, List.map_map]
    rfl
  constructor
  · rw [hassignments]
    have hnodup := h.assignments
    rw [hassignments'] at hnodup
    exact hnodup.sublist (hadded.1.map _).sublist
  · rw [hbundles]
    have hnodup := h.bundles
    rw [hbundles'] at hnodup
    exact hnodup.sublist (hadded.2.map _).sublist

/-- A change that leaves the chosen rows alone. -/
theorem filter_map_spared {α : Type} (p : α → Bool) (f : α → α) (l : List α)
    (hp : ∀ a ∈ l, p (f a) = p a) (hf : ∀ a ∈ l, p a = true → f a = a) :
    (l.map f).filter p = l.filter p := by
  induction l with
  | nil => rfl
  | cons a l ih =>
      have hrest := ih (fun b hb => hp b (List.mem_cons_of_mem a hb))
        fun b hb => hf b (List.mem_cons_of_mem a hb)
      rw [List.map_cons, List.filter_cons, List.filter_cons, hp a List.mem_cons_self, hrest]
      split
      · next ha => rw [hf a List.mem_cons_self ha]
      · rfl

theorem rowsFor_apply (hadded : Added (cores db) (cores db')) {n : Nat} {w : Write}
    (hw : Spares T db' w) : rowsFor T (db.apply n w) = rowsFor T db := by
  have happend : ∀ {α : Type} (p : α → Bool) (l : List α) (a : α), p a = false →
      (l ++ [a]).filter p = l.filter p := by
    intro α p l a ha
    rw [List.filter_append, List.filter_cons, ha, List.filter_nil]
    exact List.append_nil _
  cases w with
  | insertAssignment row => exact Prod.ext (happend _ _ _ (decide_eq_false hw)) rfl
  | insertBundle row => exact Prod.ext rfl (happend _ _ _ (decide_eq_false hw))
  | revokeAssignment id revokedAt =>
      refine Prod.ext (filter_map_spared _ _ _ (fun r _ => ?_) fun r hr hT => ?_) rfl
      · split <;> rfl
      · obtain ⟨r', hr', hid, htenant, -⟩ := assignment_of_added hadded hr
        refine if_neg fun hrow => hw r' hr' (hid.trans hrow) ?_
        exact htenant.trans (of_decide_eq_true hT)
  | deactivateBundles tenant =>
      refine Prod.ext rfl (filter_map_spared _ _ _ (fun r _ => ?_) fun r _ hT => ?_)
      · split <;> rfl
      · refine if_neg fun hrow => hw ?_
        exact hrow.1.symm.trans (of_decide_eq_true hT)
  | activateBundle id =>
      refine Prod.ext rfl (filter_map_spared _ _ _ (fun r _ => ?_) fun r hr hT => ?_)
      · split <;> rfl
      · obtain ⟨r', hr', hid, htenant⟩ := bundle_of_added hadded hr
        refine if_neg fun hrow => hw r' hr' (hid.trans hrow) ?_
        exact htenant.trans (of_decide_eq_true hT)
  | _ => rfl

/-- Writes that spare the tenant leave its rows. -/
theorem rowsFor_foldl (pending : List (Nat × Write)) (db : Store)
    (hadded : Added (cores (pending.foldl (fun s e => Store.apply s e.1 e.2) db)) (cores db'))
    (hw : ∀ e ∈ pending, Spares T db' e.2) :
    rowsFor T (pending.foldl (fun s e => Store.apply s e.1 e.2) db) = rowsFor T db := by
  induction pending generalizing db with
  | nil => rfl
  | cons e rest ih =>
      have hfirst : Added (cores db) (cores db') :=
        (added_apply db e.1 e.2).trans ((added_foldl rest _).trans hadded)
      have hrest := ih (db.apply e.1 e.2) hadded fun e' he' => hw e' (List.mem_cons_of_mem e he')
      exact hrest.trans (rowsFor_apply hfirst (hw e List.mem_cons_self))

end Rows

/-! ## Runs -/

section Runs

variable {rt : Runtime} {allowed : Op → Prop} {s s' : State}

theorem added_of_moves (hs : Sys.Moves (code rt) allowed s s') : Added (cores s.db) (cores s'.db) := by
  rcases hs.db_cases with ⟨hdb, -⟩ | ⟨pid, p, -, hdb, -⟩
  · rw [hdb]
    exact .refl _
  · rw [hdb]
    exact added_foldl _ _

/-- The rows that a process was shown are still there. -/
theorem grown_cores {db : Store} (h : Sys.Reachable (code rt) allowed db s) :
    Grown (D := Db) cores administrative Added s :=
  h.invariant (fun _ _ hp => by cases hp) fun s s' hr _ hs hJ =>
    hJ.step Added.trans (exact_of_reachable hr) untouching_cores hs (added_of_moves hs)

/-- A committed change of an assignment or a bundle was made by a route whose actor was shown as a
current administrator, and it stays within the tenant of the actor. -/
theorem commissioned_of_run (h : Run rt allowed s) {e : Entry} (he : e ∈ s.trace) {w : Write}
    (hw : w ∈ History.writes e.history) (hadmin : administrative w = true) :
    Backing e.op e.history w := by
  obtain ⟨assignments, bundles, h⟩ := h
  have hfollowed := followedEach_of_reachable (fun op _ => administering_code rt op) h
  obtain ⟨l, r, hsplit⟩ := List.append_of_mem hw
  obtain ⟨h', -, -, hduring, hmust⟩ := (hfollowed.trace e he).1.split hsplit
  rcases hmust with hmust | ⟨k, hmust⟩
  · exact (hmust hadmin).suffix hduring.suffix
  · exact (hmust hadmin).suffix hduring.suffix

/-- No assignment of the tenant makes its principal an administrator everywhere. -/
def Leaderless (assignments : List RoleAssignmentRow) (tenantId : String) : Prop :=
  ∀ r ∈ assignments, r.tenantId = tenantId → r.role = "administrator" → r.environments ≠ []

/-- A current administrator has an assignment for all environments. -/
theorem leader_of_administrator {σ : Store} {actor : AuthenticatedActor} {now : Time}
    (h : "administrator" ∈
      evaluateCurrentRoles (σ.loadAssignments actor.tenantId actor.actorId) now none) :
    ∃ r ∈ σ.assignments, r.tenantId = actor.tenantId ∧ r.principalId = actor.actorId ∧
      r.role = "administrator" ∧ r.environments = [] := by
  obtain ⟨a, ha, hcurrent, hrole⟩ := mem_evaluateCurrentRoles.1 h
  obtain ⟨r, hr, rfl⟩ := List.mem_map.1 ha
  obtain ⟨hmem, hkey⟩ := List.mem_filter.1 hr
  obtain ⟨htenant, hprincipal⟩ := of_decide_eq_true hkey
  refine ⟨r, hmem, htenant, hprincipal, hrole, ?_⟩
  have henvironments : r.assignment.environments.isEmpty = true := by
    simp only [RoleAssignment.isCurrent, inEnvironments, Bool.or_false, Bool.and_eq_true] at hcurrent
    exact hcurrent.2
  exact List.isEmpty_iff.1 henvironments

/-- A commit spares a tenant without an administrator. -/
theorem spares_of_backing {T : String} {op : Op} {h : List (Obs Db)} {w : Write}
    {db db' : Store} (hb : Backing op h w)
    (hgrown : ∀ σ ∈ rolesShown h, Added (cores σ) (cores db)) (hadded : Added (cores db) (cores db'))
    (hT : Leaderless db.assignments T) (hids : DistinctIds db') : Spares T db' w := by
  obtain ⟨request, route, -, ⟨σ, hσ, now, -, hrole⟩, hwithin⟩ := hb
  -- The actor is an administrator of its own tenant, which is another one.
  have hother : request.actor.tenantId ≠ T := by
    intro heq
    obtain ⟨r, hr, htenant, -, hadmin, henvironments⟩ := leader_of_administrator hrole
    obtain ⟨r', hr', -, htenant', -, hrole', henvironments'⟩ := assignment_of_added (hgrown σ hσ) hr
    exact hT r' hr' (htenant'.trans (htenant.trans heq)) (hrole'.trans hadmin)
      (henvironments'.trans henvironments)
  cases w with
  | insertAssignment row => exact fun heq => hother (Eq.trans (Eq.symm hwithin) heq)
  | insertBundle row => exact fun heq => hother (Eq.trans (Eq.symm hwithin) heq)
  | deactivateBundles tenant => exact fun heq => hother (Eq.trans (Eq.symm hwithin) heq)
  | revokeAssignment id revokedAt =>
      obtain ⟨σ', hσ', row, hrow, hid, htenant⟩ := hwithin
      obtain ⟨row', hrow', hid', htenant', -⟩ :=
        assignment_of_added ((hgrown σ' hσ').trans hadded) hrow
      intro r hr hrid heq
      have hsame : r = row' := List.inj_on_of_nodup_map hids.assignments hr hrow'
        (hrid.trans (hid'.trans hid).symm)
      subst hsame
      exact hother (htenant.symm.trans (htenant'.symm.trans heq))
  | activateBundle id =>
      obtain ⟨σ', hσ', row, hrow, hid, htenant⟩ := hwithin
      obtain ⟨row', hrow', hid', htenant'⟩ := bundle_of_added ((hgrown σ' hσ').trans hadded) hrow
      intro r hr hrid heq
      have hsame : r = row' := List.inj_on_of_nodup_map hids.bundles hr hrow'
        (hrid.trans (hid'.trans hid).symm)
      subst hsame
      exact hother (htenant.symm.trans (htenant'.symm.trans heq))
  | _ => exact trivial

/-- A tenant that starts without an administrator keeps its assignments and its bundles. -/
theorem spared_of_reachable {assignments : List RoleAssignmentRow} {bundles : List PolicyBundleRow}
    {T : String} (hT : Leaderless assignments T)
    (h : Sys.Reachable (code rt) allowed (initialStore assignments bundles) s)
    (hids : DistinctIds s.db) : rowsFor T s.db = rowsFor T (initialStore assignments bundles) := by
  revert hids
  refine h.invariant (J := fun s => DistinctIds s.db → rowsFor T s.db =
    rowsFor T (initialStore assignments bundles)) (fun _ => rfl) fun s s' hr hr' hs hJ hids => ?_
  have hadded := added_of_moves hs
  have hbefore := hJ (hids.older hadded)
  rcases hs.db_cases with ⟨hdb, -⟩ | ⟨pid, p, hp, hdb, htrace⟩
  · rw [hdb]
    exact hbefore
  -- By the hypothesis of the induction the tenant is still without an administrator.
  · have hleaderless : Leaderless s.db.assignments T := by
      intro r hr htenant
      have hmem : r ∈ (rowsFor T s.db).1 := List.mem_filter.2 ⟨hr, decide_eq_true htenant⟩
      rw [hbefore] at hmem
      exact hT r (List.mem_filter.1 hmem).1 htenant
    have hspares : ∀ e ∈ p.session.pending, Spares T s'.db e.2 := by
      intro e he
      have hw : e.2 ∈ History.writes p.history := by
        rw [← ((exact_of_reachable hr).procs pid p hp).pending]
        exact List.mem_map_of_mem he
      cases hadmin : administrative e.2 with
      | false => cases hwrite : e.2 <;> first | exact trivial | (rw [hwrite] at hadmin; cases hadmin)
      | true =>
          have hevent : s.event pid p .commit ∈ s'.trace := by
            rw [htrace]
            exact List.mem_cons_self
          have hbacking := commissioned_of_run (.of assignments bundles hr') hevent hw hadmin
          exact spares_of_backing hbacking (grown_cores hr pid p hp) hadded hleaderless hids
    have hview : s'.db = p.session.pending.foldl (fun s e => Store.apply s e.1 e.2) s.db := hdb
    have hsame := rowsFor_foldl p.session.pending s.db (by rw [← hview]; exact .refl _) hspares
    rw [hview]
    exact hsame.trans hbefore

end Runs

end HitlOps.Lifecycle
