import Mathlib.Data.List.Induction
import HitlOps.Python.JsonText
import HitlOps.Infrastructure.Audit
import HitlOps.Scenario

/-!
# Audit chains

Two accepted chains with one final hash are the same chain.
-/

set_option autoImplicit false

namespace HitlOps.Properties

open HitlOps.Python HitlOps.Domain HitlOps.Infrastructure

/-! ## Bodies -/

/-- The rows agree on every field of the canonical event body; attributes are equal up to key
order. -/
structure SameBody (rt : Runtime) (a b : AuditEventRow) : Prop where
  tenantId : a.tenantId = b.tenantId
  aggregateId : a.aggregateId = b.aggregateId
  aggregateRevision : a.aggregateRevision = b.aggregateRevision
  sequence : a.sequence = b.sequence
  eventType : a.eventType = b.eventType
  actorId : a.actorId = b.actorId
  occurredAt : rt.isoformat a.occurredAt = rt.isoformat b.occurredAt
  correlationId : a.correlationId = b.correlationId
  causationId : a.causationId = b.causationId
  policyVersion : a.policyVersion = b.policyVersion
  riskVersion : a.riskVersion = b.riskVersion
  attributes : (Json.dict a.attributes).canonical = (Json.dict b.attributes).canonical
  previousHash : a.previousHash = b.previousHash

/-- The body with its keys in order. -/
def sortedBody (rt : Runtime) (row : AuditEventRow) : List (String × Json) :=
  [("actor_id", .str row.actorId), ("aggregate_id", .str row.aggregateId.text),
    ("aggregate_revision", .int row.aggregateRevision),
    ("attributes", (Json.dict row.attributes).canonical),
    ("causation_id", (nullable row.causationId).canonical),
    ("correlation_id", (nullable row.correlationId).canonical), ("event_type", .str row.eventType),
    ("occurred_at", .str (rt.isoformat row.occurredAt)),
    ("policy_version", (nullable row.policyVersion).canonical),
    ("previous_hash", .str row.previousHash), ("revision", .int row.sequence),
    ("risk_version", (nullable row.riskVersion).canonical), ("sequence", .int row.sequence),
    ("tenant_id", .str row.tenantId)]

theorem canonical_eventBody (rt : Runtime) (row : AuditEventRow) :
    (eventBody rt row).canonical = .dict (sortedBody rt row) := by
  simp only [eventBody, sortedBody, Json.canonical, Json.canonicalFields, Json.insertMember,
    String.reduceLT, if_true, if_false]

theorem canonical_nullable (text : Option String) :
    (nullable text).canonical = nullable text := by
  cases text <;> rfl

theorem nullable_injective {a b : Option String} (h : nullable a = nullable b) : a = b := by
  cases a <;> cases b <;> cases h <;> rfl

theorem isValue_eventBody {rt : Runtime} {row : AuditEventRow}
    (h : (Json.dict row.attributes).isValue = true) : (eventBody rt row).isValue = true := by
  have hnullable : ∀ text, (nullable text).isValue = true := by
    intro text
    cases text <;> rfl
  have hattributes : Json.isValueFields row.attributes = true := h
  simp only [eventBody, Json.isValue, Json.isValueFields, hnullable, hattributes, Bool.and_self]

/-- One hash means one body. -/
theorem sameBody_of_hash {rt : Runtime} (hhash : Function.Injective rt.sha256)
    {a b : AuditEventRow} (ha : (Json.dict a.attributes).isValue = true)
    (hb : (Json.dict b.attributes).isValue = true)
    (h : computeEventHash rt a = computeEventHash rt b) : SameBody rt a b := by
  have hbody := Json.dumps_injective (isValue_eventBody ha) (isValue_eventBody hb) (hhash h)
  rw [canonical_eventBody, canonical_eventBody, Json.dict.injEq] at hbody
  simp only [sortedBody, canonical_nullable, List.cons.injEq, Prod.mk.injEq, true_and,
    Json.str.injEq, Json.int.injEq, and_true] at hbody
  obtain ⟨hactor, hid, hrevision, hattributes, hcause, hcorrelation, htype, htime, hpolicy,
    hprevious, hsequence, hrisk, -, htenant⟩ := hbody
  exact ⟨htenant, UUID.ext_text hid, hrevision, hsequence, htype, hactor, htime,
    nullable_injective hcorrelation, nullable_injective hcause, nullable_injective hpolicy,
    nullable_injective hrisk, hattributes, hprevious⟩

/-! ## Chains -/

/-- The attributes of the rows are JSON values. -/
def JsonAttributes (rows : List AuditEventRow) : Prop :=
  ∀ row ∈ rows, (Json.dict row.attributes).isValue = true

theorem jsonAttributes_append {rows : List AuditEventRow} {row : AuditEventRow} :
    JsonAttributes (rows ++ [row]) ↔
      JsonAttributes rows ∧ (Json.dict row.attributes).isValue = true := by
  unfold JsonAttributes
  simp only [List.mem_append, List.mem_singleton]
  exact ⟨fun h => ⟨fun r hr => h r (Or.inl hr), h row (Or.inr rfl)⟩,
    fun h r hr => hr.elim (h.1 r) fun heq => heq ▸ h.2⟩

theorem lastHash_append (previousHash : String) (rows : List AuditEventRow) (row : AuditEventRow) :
    Linked.lastHash previousHash (rows ++ [row]) = row.eventHash := by
  rw [Linked.lastHash, List.getLast?_concat]
  rfl

/-- Linked rows of one length with one last hash agree, from the last row back to the first. -/
theorem agree_of_lastHash {rt : Runtime} (hhash : Function.Injective rt.sha256)
    {previousHash : String} {sequence : Int} {rows : List AuditEventRow} :
    ∀ {rows' : List AuditEventRow}, rows.length = rows'.length → JsonAttributes rows →
      JsonAttributes rows' → Linked rt previousHash sequence rows →
      Linked rt previousHash sequence rows' →
      Linked.lastHash previousHash rows = Linked.lastHash previousHash rows' →
        List.Forall₂ (SameBody rt) rows rows' := by
  induction rows using List.reverseRecOn with
  | nil =>
      intro rows' hlen _ _ _ _ _
      rw [List.length_nil, eq_comm, List.length_eq_zero_iff] at hlen
      subst hlen
      exact .nil
  | append_singleton rows row ih =>
      intro rows' hlen hjson hjson' h h' hlast
      rcases List.eq_nil_or_concat rows' with rfl | ⟨rows', row', rfl⟩
      · rw [List.length_append, List.length_singleton, List.length_nil] at hlen
        omega
      · rw [List.concat_eq_append] at hlen hjson' h' hlast ⊢
        rw [jsonAttributes_append] at hjson hjson'
        rw [Linked.append_iff] at h h'
        obtain ⟨hl, hprev, -, heq⟩ := h
        obtain ⟨hl', hprev', -, heq'⟩ := h'
        rw [lastHash_append, lastHash_append, heq, heq'] at hlast
        have hsame := sameBody_of_hash hhash hjson.2 hjson'.2 hlast
        -- The previous hashes agree, so the chains before these rows end alike.
        have hbefore : Linked.lastHash previousHash rows = Linked.lastHash previousHash rows' := by
          rw [← hprev, ← hprev', hsame.previousHash]
        have hlen' : rows.length = rows'.length := by
          rw [List.length_append, List.length_append] at hlen
          exact Nat.add_right_cancel hlen
        exact List.rel_append (ih hlen' hjson.1 hjson'.1 hl hl' hbefore) (.cons hsame .nil)

/-- The event hash at the end of a chain. -/
def finalHash (rows : List AuditEventRow) : Option String := rows.getLast?.map (·.eventHash)

/-- The last row of an accepted chain numbers its rows. -/
theorem exists_last_of_accepted {rt : Runtime} {rows : List AuditEventRow}
    (h : (verifyAggregateChain rt rows).1 = true) :
    ∃ before row, rows = before ++ [row] ∧ row.sequence = (rows.length : Int) ∧
      row.eventHash = computeEventHash rt row := by
  obtain ⟨hne, hlinked⟩ := verifyAggregateChain_iff.1 h
  rcases List.eq_nil_or_concat rows with rfl | ⟨before, row, rfl⟩
  · exact absurd rfl hne
  · rw [List.concat_eq_append] at hlinked ⊢
    obtain ⟨-, -, hseq, heq⟩ := Linked.append_iff.1 hlinked
    refine ⟨before, row, rfl, ?_, heq⟩
    rw [hseq, List.length_append, List.length_singleton]
    omega

/-- Accepted chains with one final hash agree row by row, so a changed chain is rejected or ends in
another hash. -/
theorem chain_is_tamper_evident {rt : Runtime} (hhash : Function.Injective rt.sha256)
    {rows : List AuditEventRow} (hjson : JsonAttributes rows)
    (hrows : (verifyAggregateChain rt rows).1 = true) :
    ∀ rows', JsonAttributes rows' →
      ((verifyAggregateChain rt rows').1 = true → finalHash rows' = finalHash rows →
        rows.length = rows'.length ∧ List.Forall₂ (SameBody rt) rows rows') ∧
      (¬ List.Forall₂ (SameBody rt) rows rows' →
        (verifyAggregateChain rt rows').1 = false ∨ finalHash rows' ≠ finalHash rows) := by
  intro rows' hjson'
  have hagree : (verifyAggregateChain rt rows').1 = true → finalHash rows' = finalHash rows →
      rows.length = rows'.length ∧ List.Forall₂ (SameBody rt) rows rows' := by
    intro hrows' hfinal
    obtain ⟨-, hlinked⟩ := verifyAggregateChain_iff.1 hrows
    obtain ⟨-, hlinked'⟩ := verifyAggregateChain_iff.1 hrows'
    obtain ⟨before, row, hb, hseq, heq⟩ := exists_last_of_accepted hrows
    obtain ⟨before', row', hb', hseq', heq'⟩ := exists_last_of_accepted hrows'
    have hlast : row.eventHash = row'.eventHash := by
      rw [hb, hb', finalHash, finalHash, List.getLast?_concat, List.getLast?_concat] at hfinal
      exact (Option.some.inj hfinal).symm
    have hrow : (Json.dict row.attributes).isValue = true :=
      hjson row (hb ▸ List.mem_append_right _ (List.mem_singleton_self row))
    have hrow' : (Json.dict row'.attributes).isValue = true :=
      hjson' row' (hb' ▸ List.mem_append_right _ (List.mem_singleton_self row'))
    have hsame := sameBody_of_hash hhash hrow hrow' (by rw [← heq, ← heq', hlast])
    -- The last sequence is hashed too, and it is the length of the chain.
    have hlen : rows.length = rows'.length := by
      have h := hsame.sequence
      rw [hseq, hseq'] at h
      exact Int.ofNat.inj h
    have hlastHash : Linked.lastHash zeroHash rows = Linked.lastHash zeroHash rows' := by
      rw [hb, hb', lastHash_append, lastHash_append, hlast]
    exact ⟨hlen, agree_of_lastHash hhash hlen hjson hjson' hlinked hlinked' hlastHash⟩
  refine ⟨hagree, fun hne => ?_⟩
  by_cases haccepted : (verifyAggregateChain rt rows').1 = true
  · exact Or.inr fun hfinal => hne (hagree haccepted hfinal).2
  · exact Or.inl (Bool.eq_false_iff.2 haccepted)

/-- The row with the hash that its other columns determine. -/
def hashed (row : AuditEventRow) : AuditEventRow :=
  { row with eventHash := computeEventHash Scenario.runtime row }

/-- The events of the scenario's intent with these types and actors, numbered and linked. -/
def eventsFrom (previousHash : String) (sequence : Int) : List (String × String) → List AuditEventRow
  | [] => []
  | (eventType, actorId) :: rest =>
      let row := hashed ⟨"acme", Scenario.intentId, 1, sequence, eventType, actorId, 0, some "corr",
        none, none, none, [("revision", .int 1)], previousHash, ""⟩
      row :: eventsFrom row.eventHash (sequence + 1) rest

/-- Such events are accepted, and their attributes are JSON values. -/
theorem linked_eventsFrom (previousHash : String) (sequence : Int)
    (events : List (String × String)) :
    Linked Scenario.runtime previousHash sequence (eventsFrom previousHash sequence events) ∧
      JsonAttributes (eventsFrom previousHash sequence events) := by
  induction events generalizing previousHash sequence with
  | nil => exact ⟨.nil, fun row hrow => absurd hrow List.not_mem_nil⟩
  | cons event rest ih =>
      obtain ⟨eventType, actorId⟩ := event
      let row := hashed ⟨"acme", Scenario.intentId, 1, sequence, eventType, actorId, 0, some "corr",
        none, none, none, [("revision", .int 1)], previousHash, ""⟩
      obtain ⟨hlinked, hjson⟩ := ih row.eventHash (sequence + 1)
      have hhash : row.eventHash = computeEventHash Scenario.runtime row := rfl
      refine ⟨@Linked.cons _ sequence row _ rfl hhash hlinked, fun r hr => ?_⟩
      rcases List.mem_cons.1 hr with rfl | hr
      · rfl
      · exact hjson r hr

/-- The chain without its decision is accepted by itself, numbered and linked anew, and ends in another
hash. -/
theorem chain_is_tamper_evident_shortened :
    let whole := eventsFrom zeroHash 1 [("intent_created", "rachel"), ("decision_recorded", "alice"),
      ("execution_succeeded", "execution-worker")]
    let shortened := eventsFrom zeroHash 1 [("intent_created", "rachel"),
      ("execution_succeeded", "execution-worker")]
    (verifyAggregateChain Scenario.runtime shortened).1 = true ∧
      finalHash shortened ≠ finalHash whole := by
  intro whole shortened
  have hwhole := linked_eventsFrom zeroHash 1 [("intent_created", "rachel"),
    ("decision_recorded", "alice"), ("execution_succeeded", "execution-worker")]
  have hshortened := linked_eventsFrom zeroHash 1 [("intent_created", "rachel"),
    ("execution_succeeded", "execution-worker")]
  have haccepted : (verifyAggregateChain Scenario.runtime shortened).1 = true :=
    verifyAggregateChain_iff.2 ⟨List.cons_ne_nil _ _, hshortened.1⟩
  -- The chains differ in length already.
  have hne : ¬ List.Forall₂ (SameBody Scenario.runtime) whole shortened := by
    intro h
    have hlength : (3 : Nat) = 2 := h.length_eq
    cases hlength
  refine ⟨haccepted, ?_⟩
  rcases (@chain_is_tamper_evident Scenario.runtime Function.injective_id _ hwhole.2
    (verifyAggregateChain_iff.2 ⟨List.cons_ne_nil _ _, hwhole.1⟩) shortened hshortened.2).2 hne with
    hrejected | hfinal
  · rw [haccepted] at hrejected
    cases hrejected
  · exact hfinal

end HitlOps.Properties
