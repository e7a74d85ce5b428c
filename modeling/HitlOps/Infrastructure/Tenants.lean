import HitlOps.Application.Interface
import HitlOps.Infrastructure.Constraints

/-!
# The rows of a tenant

Every table has the tenant of its rows, the outbox in its payloads. `Store.keep` restricts a store to
the rows of some tenants, `Write.tenant?` is the tenant that a write is about, and a write about a
tenant leaves the rows of the others as they are.
-/

set_option autoImplicit false

namespace HitlOps.Infrastructure

open HitlOps.Python HitlOps.Domain HitlOps.Application HitlOps.Transaction

/-- The tenant that a payload names. -/
def payloadTenant (payload : Dict) : String :=
  match payload.get? "tenant_id" with
  | some (.str tenantId) => tenantId
  | _ => ""

namespace Store

/-- The rows of the tenants that `own` accepts. -/
def keep (own : String → Bool) (s : Store) : Store where
  intents := s.intents.filter fun r => own r.key.tenantId
  transitions := s.transitions.filter fun r => own r.key.tenantId
  risks := s.risks.filter fun r => own r.key.tenantId
  policies := s.policies.filter fun r => own r.key.tenantId
  decisions := s.decisions.filter fun r => own r.key.tenantId
  executions := s.executions.filter fun r => own r.key.tenantId
  outbox := s.outbox.filter fun m => own (payloadTenant m.payload)
  idempotency := s.idempotency.filter fun r => own r.key.tenantId
  assignments := s.assignments.filter fun r => own r.tenantId
  bundles := s.bundles.filter fun r => own r.tenantId

/-- The rows of one tenant. -/
def rowsOf (tenantId : String) (s : Store) : Store := s.keep fun t => t = tenantId

/-- The rows of the other tenants. -/
def rowsOfOthers (tenantId : String) (s : Store) : Store := s.keep fun t => t ≠ tenantId

/-! ## Queries -/

section Queries

variable {own : String → Bool} {s : Store} {k : RevisionKey}

/-- A query by a key of a tenant reads the rows of this tenant only. -/
theorem filter_filter_key {α : Type} {rows : List α} {p q : α → Bool}
    (h : ∀ a ∈ rows, p a = true → q a = true) : (rows.filter q).filter p = rows.filter p := by
  rw [List.filter_filter]
  refine List.filter_congr fun a ha => ?_
  cases hp : p a with
  | false => rfl
  | true => rw [h a ha hp]; rfl

theorem intent?_keep (h : own k.tenantId = true) : (s.keep own).intent? k = s.intent? k := by
  unfold intent? keep
  rw [← List.head?_filter, ← List.head?_filter, filter_filter_key]
  intro a _ ha
  rw [of_decide_eq_true ha]
  exact h

theorem transitionsOf_keep (h : own k.tenantId = true) :
    (s.keep own).transitionsOf k = s.transitionsOf k :=
  filter_filter_key fun a _ ha => by rw [of_decide_eq_true ha]; exact h

theorem maxSequence_keep (h : own k.tenantId = true) :
    (s.keep own).maxSequence k = s.maxSequence k := by
  unfold maxSequence
  rw [transitionsOf_keep h]

theorem policiesOf_keep (h : own k.tenantId = true) : (s.keep own).policiesOf k = s.policiesOf k :=
  filter_filter_key fun a _ ha => by rw [of_decide_eq_true ha]; exact h

theorem risksOf_keep (h : own k.tenantId = true) : (s.keep own).risksOf k = s.risksOf k :=
  filter_filter_key fun a _ ha => by rw [of_decide_eq_true ha]; exact h

theorem decisionsOf_keep (h : own k.tenantId = true) :
    (s.keep own).decisionsOf k = s.decisionsOf k :=
  filter_filter_key fun a _ ha => by rw [of_decide_eq_true ha]; exact h

theorem loadAssignments_keep {tenantId principalId : String} (h : own tenantId = true) :
    (s.keep own).loadAssignments tenantId principalId = s.loadAssignments tenantId principalId := by
  unfold loadAssignments
  refine congrArg _ (filter_filter_key fun a _ ha => ?_)
  rw [(of_decide_eq_true ha).1]
  exact h

end Queries

/-! ## Writes -/

end Store

/-- The tenant whose rows a write is about, when the write names it. -/
def Write.tenant? : Write → Option String
  | .insertIntent row => some row.key.tenantId
  | .updateIntent key _ => some key.tenantId
  | .insertTransition row => some row.key.tenantId
  | .insertRisk row => some row.key.tenantId
  | .insertPolicy row => some row.key.tenantId
  | .insertDecision row => some row.key.tenantId
  | .insertExecution row => some row.key.tenantId
  | .updateExecution old _ => some old.key.tenantId
  | .insertOutbox _ payload => some (payloadTenant payload)
  | .insertIdempotency row => some row.key.tenantId
  | .completeIdempotency key _ _ => some key.tenantId
  | .insertAssignment row => some row.tenantId
  | .revokeAssignment _ _ => none
  | .insertBundle row => some row.tenantId
  | .deactivateBundles tenantId => some tenantId
  | .activateBundle _ => none

namespace Store

section Lists

variable {α : Type} {rows : List α} {row : α} {p : α → Bool} {f : α → α}

theorem filter_concat (h : p row = true) : (rows ++ [row]).filter p = rows.filter p ++ [row] := by
  rw [List.filter_append, List.filter_cons_of_pos h, List.filter_nil]

theorem filter_concat_not (h : p row = false) : (rows ++ [row]).filter p = rows.filter p := by
  rw [List.filter_append, List.filter_cons_of_neg (by rw [h]; exact Bool.false_ne_true),
    List.filter_nil, List.append_nil]

/-- An update of the columns that `p` does not read. -/
theorem filter_map_same (h : ∀ a, p (f a) = p a) : (rows.map f).filter p = (rows.filter p).map f := by
  rw [List.filter_map]
  refine congrArg _ (List.filter_congr fun a _ => ?_)
  exact h a

/-- An update of rows that `p` does not accept. -/
theorem filter_map_not (h : ∀ a ∈ rows, p (f a) = p a) (hid : ∀ a ∈ rows, p a = true → f a = a) :
    (rows.map f).filter p = rows.filter p := by
  induction rows with
  | nil => rfl
  | cons a rest ih =>
      have hrest := ih (fun b hb => h b (List.mem_cons_of_mem a hb))
        fun b hb => hid b (List.mem_cons_of_mem a hb)
      rw [List.map_cons]
      cases hp : p a with
      | true =>
          rw [hid a List.mem_cons_self hp, List.filter_cons_of_pos hp, List.filter_cons_of_pos hp,
            hrest]
      | false =>
          have hpf : p (f a) = false := (h a List.mem_cons_self).trans hp
          rw [List.filter_cons_of_neg (by rw [hpf]; exact Bool.false_ne_true),
            List.filter_cons_of_neg (by rw [hp]; exact Bool.false_ne_true), hrest]

end Lists

section Apply

variable {own : String → Bool} {tenantId : String} {w : Write}

/-- The rows that an update of an execution reaches are rows of its tenant. -/
def ReachesOwn (s : Store) (w : Write) : Prop :=
  ∀ old new, w = .updateExecution old new →
    ∀ e ∈ s.executions, e.id = old.id → e.key.tenantId = old.key.tenantId

/-- A write about an accepted tenant changes the accepted rows as it would without the others. -/
theorem apply_keep (s : Store) (n : Nat) (h : w.tenant? = some tenantId)
    (hown : own tenantId = true) : (s.apply n w).keep own = (s.keep own).apply n w := by
  cases w with
  | insertIntent row =>
      cases h
      refine congrArg (fun rows => { s.keep own with intents := rows }) (filter_concat ?_)
      exact hown
  | insertTransition row =>
      cases h
      refine congrArg (fun rows => { s.keep own with transitions := rows }) (filter_concat ?_)
      exact hown
  | insertRisk row =>
      cases h
      refine congrArg (fun rows => { s.keep own with risks := rows }) (filter_concat ?_)
      exact hown
  | insertPolicy row =>
      cases h
      refine congrArg (fun rows => { s.keep own with policies := rows }) (filter_concat ?_)
      exact hown
  | insertDecision row =>
      cases h
      refine congrArg (fun rows => { s.keep own with decisions := rows }) (filter_concat ?_)
      exact hown
  | insertExecution row =>
      cases h
      refine congrArg (fun rows => { s.keep own with executions := rows }) (filter_concat ?_)
      exact hown
  | insertOutbox topic payload =>
      cases h
      refine congrArg (fun rows => { s.keep own with outbox := rows }) (filter_concat ?_)
      exact hown
  | insertIdempotency row =>
      cases h
      refine congrArg (fun rows => { s.keep own with idempotency := rows }) (filter_concat ?_)
      exact hown
  | insertAssignment row =>
      cases h
      refine congrArg (fun rows => { s.keep own with assignments := rows }) (filter_concat ?_)
      exact hown
  | insertBundle row =>
      cases h
      refine congrArg (fun rows => { s.keep own with bundles := rows }) (filter_concat ?_)
      exact hown
  | updateIntent key patch =>
      refine congrArg (fun rows => { s.keep own with intents := rows })
        (filter_map_same fun a => ?_)
      split <;> rfl
  | updateExecution old new =>
      refine congrArg (fun rows => { s.keep own with executions := rows })
        (filter_map_same fun a => ?_)
      split <;> rfl
  | completeIdempotency key status body =>
      refine congrArg (fun rows => { s.keep own with idempotency := rows })
        (filter_map_same fun a => ?_)
      split <;> rfl
  | deactivateBundles t =>
      refine congrArg (fun rows => { s.keep own with bundles := rows })
        (filter_map_same fun a => ?_)
      split <;> rfl
  | revokeAssignment id at_ => cases h
  | activateBundle id => cases h

/-- It leaves the rows of the other tenants as they are. -/
theorem apply_keep_other {s : Store} (n : Nat) (h : w.tenant? = some tenantId)
    (hown : own tenantId = false) (hreaches : s.ReachesOwn w) :
    (s.apply n w).keep own = s.keep own := by
  cases w with
  | insertIntent row =>
      cases h
      refine congrArg (fun rows => { s.keep own with intents := rows }) (filter_concat_not ?_)
      exact hown
  | insertTransition row =>
      cases h
      refine congrArg (fun rows => { s.keep own with transitions := rows }) (filter_concat_not ?_)
      exact hown
  | insertRisk row =>
      cases h
      refine congrArg (fun rows => { s.keep own with risks := rows }) (filter_concat_not ?_)
      exact hown
  | insertPolicy row =>
      cases h
      refine congrArg (fun rows => { s.keep own with policies := rows }) (filter_concat_not ?_)
      exact hown
  | insertDecision row =>
      cases h
      refine congrArg (fun rows => { s.keep own with decisions := rows }) (filter_concat_not ?_)
      exact hown
  | insertExecution row =>
      cases h
      refine congrArg (fun rows => { s.keep own with executions := rows }) (filter_concat_not ?_)
      exact hown
  | insertOutbox topic payload =>
      cases h
      refine congrArg (fun rows => { s.keep own with outbox := rows }) (filter_concat_not ?_)
      exact hown
  | insertIdempotency row =>
      cases h
      refine congrArg (fun rows => { s.keep own with idempotency := rows }) (filter_concat_not ?_)
      exact hown
  | insertAssignment row =>
      cases h
      refine congrArg (fun rows => { s.keep own with assignments := rows }) (filter_concat_not ?_)
      exact hown
  | insertBundle row =>
      cases h
      refine congrArg (fun rows => { s.keep own with bundles := rows }) (filter_concat_not ?_)
      exact hown
  | updateIntent key patch =>
      cases h
      refine congrArg (fun rows => { s.keep own with intents := rows })
        (filter_map_not (fun a _ => ?_) fun a _ ha => ?_)
      · split <;> rfl
      · rw [if_neg]
        rintro rfl
        rw [hown] at ha
        cases ha
  | updateExecution old new =>
      cases h
      refine congrArg (fun rows => { s.keep own with executions := rows })
        (filter_map_not (fun a _ => ?_) fun a hmem ha => ?_)
      · split <;> rfl
      · rw [if_neg]
        intro hid
        rw [hreaches old new rfl a hmem hid, hown] at ha
        cases ha
  | completeIdempotency key status body =>
      cases h
      refine congrArg (fun rows => { s.keep own with idempotency := rows })
        (filter_map_not (fun a _ => ?_) fun a _ ha => ?_)
      · split <;> rfl
      · rw [if_neg]
        rintro rfl
        rw [hown] at ha
        cases ha
  | deactivateBundles t =>
      cases h
      refine congrArg (fun rows => { s.keep own with bundles := rows })
        (filter_map_not (fun a _ => ?_) fun a _ ha => ?_)
      · split <;> rfl
      · rw [if_neg]
        rintro ⟨rfl, -⟩
        rw [hown] at ha
        cases ha
  | revokeAssignment id at_ => cases h
  | activateBundle id => cases h

end Apply

end Store

end HitlOps.Infrastructure
