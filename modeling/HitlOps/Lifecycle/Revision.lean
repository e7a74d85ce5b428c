import HitlOps.Transaction.Contract
import HitlOps.Application.Interface

/-!
# Revisions as rows

The tables seen revision by revision: the intent row with its transition log, its policy
evaluations, its decisions and its lifecycle messages. The intent row lock protects all of them,
and `revisions` is the slicing that says so. A message belongs to the revision that its payload
names.
-/

set_option autoImplicit false

namespace HitlOps.Lifecycle

open HitlOps.Python HitlOps.Domain HitlOps.Infrastructure HitlOps.Application HitlOps.Transaction

/-- The topics that announce a transition. -/
def lifecycleTopics : List String :=
  ["intent.created", "intent.transitioned", "execution.succeeded", "execution.failed",
    "execution.execution_unknown", "execution.reconciled"]

/-- The text of a field, or the empty text. -/
def textField (payload : Dict) (field : String) : String :=
  match payload.get? field with
  | some (.str text) => text
  | _ => ""

/-- The number of a field, or zero. -/
def numberField (payload : Dict) (field : String) : Nat :=
  match payload.get? field with
  | some (.int n) => n.toNat
  | _ => 0

/-- The revision that a payload names. A payload without one counts to a default key, so that every
message belongs to some revision. -/
def payloadKey (payload : Dict) : RevisionKey :=
  ⟨textField payload "tenant_id", (UUID.parse? (textField payload "intent_id")).getD UUID.nil,
    numberField payload "revision"⟩

/-- The revision whose transition a message announces. -/
def announced? (topic : String) (payload : Dict) : Option RevisionKey :=
  if topic ∈ lifecycleTopics then some (payloadKey payload) else none

/-- A payload names the revision `k` in its three identity fields. -/
structure Names (k : RevisionKey) (payload : Dict) : Prop where
  tenant : payload.get? "tenant_id" = some (.str k.tenantId)
  intent : payload.get? "intent_id" = some (.str k.intentId.text)
  revision : payload.get? "revision" = some (.int k.revision)

theorem Names.payloadKey {k : RevisionKey} {payload : Dict} (h : Names k payload) :
    payloadKey payload = k := by
  simp only [Lifecycle.payloadKey, textField, numberField, h.tenant, h.intent, h.revision,
    UUID.parse?_text, Option.getD_some, Int.toNat_natCast]

theorem Names.announced {k : RevisionKey} {payload : Dict} (h : Names k payload) {topic : String}
    (ht : topic ∈ lifecycleTopics) : announced? topic payload = some k := by
  rw [announced?, if_pos ht, h.payloadKey]

/-- Everything the store keeps about one revision under its intent row lock. -/
structure Revision where
  intent : Option ActionIntent
  log : List StateTransition
  policies : List PolicyEvaluationRow
  decisions : List ApprovalDecisionRow
  messages : List OutboxMessage

namespace Revision

/-- A revision that was never created. -/
def empty : Revision := ⟨none, [], [], [], []⟩

/-- The effect of a write that targets the revision. -/
def put (r : Revision) (n : Nat) : Write → Revision
  | .insertIntent row => { r with intent := r.intent.or (some row) }
  | .updateIntent _ patch => { r with intent := r.intent.map (·.patch patch) }
  | .insertTransition row => { r with log := r.log ++ [row] }
  | .insertPolicy row => { r with policies := r.policies ++ [row] }
  | .insertDecision row => { r with decisions := r.decisions ++ [row] }
  | .insertOutbox topic payload => { r with messages := r.messages ++ [⟨n, topic, payload⟩] }
  | _ => r

end Revision

/-- The revision that a write belongs to. -/
def target? : Write → Option RevisionKey
  | .insertIntent row => some row.key
  | .updateIntent key _ => some key
  | .insertTransition row => some row.key
  | .insertPolicy row => some row.key
  | .insertDecision row => some row.key
  | .insertOutbox topic payload => announced? topic payload
  | _ => none

/-- The revision `k` of a store. -/
def revision (s : Store) (k : RevisionKey) : Revision :=
  { intent := s.intent? k
    log := s.transitionsOf k
    policies := s.policiesOf k
    decisions := s.decisionsOf k
    messages := s.outbox.filter fun m => announced? m.topic m.payload = some k }

/-- The revision that a lock key protects. -/
def lockedRevision? : LockKey → Option RevisionKey
  | .intent k => some k
  | .idempotency _ => none
  | .execution _ => none

/-! ## A write changes its own revision only -/

theorem filter_append_one {α : Type} (p : α → Bool) (l : List α) (a : α) :
    (l ++ [a]).filter p = if p a = true then l.filter p ++ [a] else l.filter p := by
  by_cases h : p a = true
  · simp only [List.filter_append, List.filter_cons, List.filter_nil, h, if_true]
  · simp only [List.filter_append, List.filter_cons, List.filter_nil, h, if_false,
      List.append_nil, Bool.false_eq_true]

theorem find?_append_one {α : Type} (p : α → Bool) (l : List α) (a : α) :
    (l ++ [a]).find? p = (l.find? p).or (if p a = true then some a else none) := by
  rw [List.find?_append, List.find?_cons]
  cases p a <;> rfl

theorem intent?_update (s : Store) (key k : RevisionKey) (patch : IntentPatch) :
    (s.intents.map fun i => if i.key = key then i.patch patch else i).find?
        (fun r => r.key = k) =
      if key = k then (s.intent? k).map (·.patch patch) else s.intent? k := by
  unfold Store.intent?
  induction s.intents with
  | nil => split <;> rfl
  | cons i rest ih =>
      rw [List.map_cons, List.find?_cons, List.find?_cons, ih]
      by_cases hi : i.key = key
      · rw [if_pos hi]
        have hkey : (i.patch patch).key = i.key := rfl
        rw [hkey, hi]
        by_cases hk : key = k
        · simp only [hk, decide_true, if_true, Option.map_some]
        · simp only [hk, decide_false, if_false]
      · rw [if_neg hi]
        by_cases hk : key = k
        · subst hk
          simp only [hi, decide_false, if_true]
        · simp only [hk, if_false]

theorem revision_apply (s : Store) (n : Nat) (w : Write) (k : RevisionKey) :
    revision (s.apply n w) k =
      if target? w = some k then (revision s k).put n w else revision s k := by
  cases w with
  | insertIntent row =>
      simp only [revision, Store.apply, target?, Revision.put, Store.intent?, find?_append_one,
        decide_eq_true_eq, Option.some.injEq]
      split
      · rfl
      · rw [Option.or_none]
        rfl
  | updateIntent key patch =>
      have h := intent?_update s key k patch
      simp only [revision, Store.apply, target?, Revision.put, Option.some.injEq]
      rw [Store.intent?, h]
      split <;> rfl
  | insertTransition row =>
      simp only [revision, Store.apply, target?, Revision.put, Store.transitionsOf,
        filter_append_one, decide_eq_true_eq, Option.some.injEq]
      split <;> rfl
  | insertPolicy row =>
      simp only [revision, Store.apply, target?, Revision.put, Store.policiesOf,
        filter_append_one, decide_eq_true_eq, Option.some.injEq]
      split <;> rfl
  | insertDecision row =>
      simp only [revision, Store.apply, target?, Revision.put, Store.decisionsOf,
        filter_append_one, decide_eq_true_eq, Option.some.injEq]
      split <;> rfl
  | insertOutbox topic payload =>
      simp only [revision, Store.apply, target?, Revision.put, filter_append_one,
        decide_eq_true_eq]
      by_cases h : announced? topic payload = some k
      · simp only [h, if_true]
        rfl
      · simp only [h, if_false]
        rfl
  | _ =>
      simp only [target?, reduceCtorEq, if_false]
      rfl

/-- Revisions, under their intent row locks. -/
@[reducible] def revisions : Slicing Db where
  Idx := RevisionKey
  Row := Revision
  decIdx := inferInstance
  key := .intent
  idx? := lockedRevision?
  row := revision
  target := target?
  put := Revision.put
  below := fun r n => ∀ m ∈ r.messages, m.sequence < n
  idx?_eq := by
    intro key k
    cases key with
    | intent k' =>
        simp only [lockedRevision?, Option.some.injEq, LockKey.intent.injEq]
        exact eq_comm
    | idempotency key => simp only [lockedRevision?, reduceCtorEq]
    | execution id => simp only [lockedRevision?, reduceCtorEq]
  row_apply := revision_apply
  below_mono := fun r n m h hnm msg hmsg => Nat.lt_of_lt_of_le (h msg hmsg) hnm
  below_put := by
    intro r n w h msg hmsg
    have hold : msg ∈ r.messages → msg.sequence < n + 1 := fun hm => Nat.lt_succ_of_lt (h msg hm)
    cases w with
    | insertOutbox topic payload =>
        simp only [Revision.put, List.mem_append, List.mem_singleton] at hmsg
        rcases hmsg with hmsg | rfl
        · exact hold hmsg
        · exact Nat.lt_succ_self n
    | _ => exact hold hmsg

end HitlOps.Lifecycle
