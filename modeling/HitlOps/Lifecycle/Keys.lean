import HitlOps.Transaction.Commits
import HitlOps.Lifecycle.InStep

/-!
# Primary keys and growing tables

Intents and idempotency records are inserted under their own keys, so a store never holds two of one
key. Intents and transitions are never deleted: a later store has them all, in the same order.
-/

set_option autoImplicit false

namespace HitlOps.Lifecycle

open HitlOps.Python HitlOps.Domain HitlOps.Infrastructure HitlOps.Application HitlOps.Transaction

/-- Rows that an update in place leaves under their keys. -/
theorem map_update_key {α κ : Type} [DecidableEq κ] (key : α → κ) (i : κ) (f : α → α)
    (hf : ∀ r, key (f r) = key r) (rows : List α) :
    (rows.map fun r => if key r = i then f r else r).map key = rows.map key := by
  rw [List.map_map]
  apply List.map_congr_left
  intro r _
  rw [Function.comp_apply]
  split
  · exact hf r
  · rfl

/-- A row of a key is found exactly when the key occurs. -/
theorem isSome_find?_key {α κ : Type} [DecidableEq κ] (key : α → κ) (rows : List α) (i : κ) :
    (rows.find? fun r => key r = i).isSome = true ↔ i ∈ rows.map key := by
  rw [List.find?_isSome, List.mem_map]
  simp only [decide_eq_true_eq]

/-- The primary key of the intents. -/
def intentKeys : PrimaryKey Db RevisionKey where
  ids := fun db => db.intents.map (·.key)
  new? := fun w =>
    match w with
    | .insertIntent row => some row.key
    | _ => none
  key := .intent
  key_injective := fun _ _ h => LockKey.intent.inj h
  ids_apply := by
    intro db n w
    cases w with
    | insertIntent row => exact List.map_append
    | updateIntent key patch =>
        refine Eq.trans ?_ (List.append_nil _).symm
        exact map_update_key ActionIntent.key key (fun r => r.patch patch) (fun _ => rfl) db.intents
    | _ => exact (List.append_nil _).symm
  present_iff := fun db i => isSome_find?_key ActionIntent.key db.intents i

/-- The unique key of the idempotency records. -/
def idempotencyKeys : PrimaryKey Db IdempotencyKey where
  ids := fun db => db.idempotency.map (·.key)
  new? := fun w =>
    match w with
    | .insertIdempotency row => some row.key
    | _ => none
  key := .idempotency
  key_injective := fun _ _ h => LockKey.idempotency.inj h
  ids_apply := by
    intro db n w
    cases w with
    | insertIdempotency row => exact List.map_append
    | completeIdempotency key status body =>
        refine Eq.trans ?_ (List.append_nil _).symm
        exact map_update_key IdempotencyRecord.key key (fun r => r.complete status body) (fun _ => rfl)
          db.idempotency
    | _ => exact (List.append_nil _).symm
  present_iff := fun db i => isSome_find?_key IdempotencyRecord.key db.idempotency i

section Runs

variable {rt : Runtime} {allowed : Op → Prop} {s : State}

/-- A store never holds two intents of one key. -/
theorem intentKeys_nodup (h : Run rt allowed s) : (s.db.intents.map (·.key)).Nodup := by
  obtain ⟨assignments, bundles, h⟩ := h
  suffices hdistinct : intentKeys.Distinct s from hdistinct.store
  refine PrimaryKey.distinct_of_reachable (fun h st hmust => ?_)
    (fun s hr => filed_of_run (.of assignments bundles hr)) List.nodup_nil h
  cases st with
  | write w =>
      cases w with
      | insertIntent row => cases hmust
      | _ => rfl
  | insert k w =>
      intro i hi
      cases w with
      | insertIntent row =>
          cases hi
          exact hmust
      | _ => cases hi
  | _ => exact trivial

/-- Every process sees each idempotency record once. -/
theorem idempotencyKeys_distinct (h : Run rt allowed s) : idempotencyKeys.Distinct s := by
  obtain ⟨assignments, bundles, h⟩ := h
  refine PrimaryKey.distinct_of_reachable (fun h st hmust => ?_)
    (fun s hr => filed_of_run (.of assignments bundles hr)) List.nodup_nil h
  cases st with
  | write w =>
      cases w with
      | insertIdempotency row => cases hmust
      | _ => rfl
  | insert k w =>
      intro i hi
      cases w with
      | insertIdempotency row =>
          cases hi
          exact hmust
      | _ => cases hi
  | _ => exact trivial

/-- A store never holds two idempotency records of one key. -/
theorem idempotencyKeys_nodup (h : Run rt allowed s) : (s.db.idempotency.map (·.key)).Nodup :=
  (idempotencyKeys_distinct h).store

end Runs

/-! ## Growth -/

/-- The second store has the intents and the transitions of the first one, and maybe more. -/
structure Extends (db db' : Store) : Prop where
  intents : db.intents.map (·.key) <+: db'.intents.map (·.key)
  transitions : db.transitions <+: db'.transitions

theorem Extends.refl (db : Store) : Extends db db := ⟨List.prefix_refl _, List.prefix_refl _⟩

theorem Extends.trans {a b c : Store} (h : Extends a b) (h' : Extends b c) : Extends a c :=
  ⟨h.intents.trans h'.intents, h.transitions.trans h'.transitions⟩

/-- No write takes an intent or a transition away. -/
theorem extends_apply (db : Store) (n : Nat) (w : Write) : Extends db (db.apply n w) := by
  have hintents : db.intents.map (·.key) <+: (db.apply n w).intents.map (·.key) := by
    have hids := intentKeys.ids_apply db n w
    rw [show (db.apply n w).intents.map (·.key) = _ from hids]
    exact List.prefix_append _ _
  refine ⟨hintents, ?_⟩
  cases w with
  | insertTransition row => exact List.prefix_append _ _
  | _ => exact List.prefix_refl _

/-- The states that a run reaches from `s`. -/
abbrev Leads (rt : Runtime) (allowed : Op → Prop) (s s' : State) : Prop :=
  Relation.ReflTransGen (Sys.Step (code rt) allowed) s s'

section Leads

variable {rt : Runtime} {allowed : Op → Prop} {s s' : State}

theorem Leads.extends (h : Leads rt allowed s s') : Extends s.db s'.db := by
  induction h with
  | refl => exact .refl _
  | tail _ hstep ih =>
      exact ih.trans ((Sys.Moves.of_step hstep).le .refl .trans extends_apply)

theorem Leads.run (h : Leads rt allowed s s') (hs : Run rt allowed s) : Run rt allowed s' := by
  obtain ⟨assignments, bundles, hs⟩ := hs
  induction h with
  | refl => exact .of assignments bundles hs
  | tail _ hstep ih =>
      obtain ⟨assignments', bundles', hr⟩ := ih
      exact .of assignments' bundles' (hr.step hstep)

end Leads

end HitlOps.Lifecycle
