import HitlOps.Infrastructure.Tables

/-!
# Audit events

The hash chain of `infrastructure/audit.py`: the canonical event body, its hash, and the
verification of the rows of one aggregate.
-/

set_option autoImplicit false

namespace HitlOps.Infrastructure

open HitlOps.Python HitlOps.Domain

/-- `AuditEventORM`. -/
structure AuditEventRow where
  tenantId : String
  aggregateId : UUID
  aggregateRevision : Int
  sequence : Int
  eventType : String
  actorId : String
  occurredAt : Time
  correlationId : Option String
  causationId : Option String
  policyVersion : Option String
  riskVersion : Option String
  attributes : Dict
  previousHash : String
  eventHash : String
deriving DecidableEq

/-- A nullable text. -/
def nullable (text : Option String) : Json := (text.map Json.str).getD .null

/-- The body of `canonical_event_body`. -/
def eventBody (rt : Runtime) (row : AuditEventRow) : Json :=
  .dict [("aggregate_id", .str row.aggregateId.text),
    ("aggregate_revision", .int row.aggregateRevision), ("actor_id", .str row.actorId),
    ("attributes", .dict row.attributes), ("causation_id", nullable row.causationId),
    ("correlation_id", nullable row.correlationId), ("event_type", .str row.eventType),
    ("occurred_at", .str (rt.isoformat row.occurredAt)),
    ("policy_version", nullable row.policyVersion), ("previous_hash", .str row.previousHash),
    ("revision", .int row.sequence), ("risk_version", nullable row.riskVersion),
    ("sequence", .int row.sequence), ("tenant_id", .str row.tenantId)]

/-- `canonical_event_body`. -/
def canonicalEventBody (rt : Runtime) (row : AuditEventRow) : String :=
  (eventBody rt row).dumps ⟨true, false⟩

/-- `compute_event_hash`. -/
def computeEventHash (rt : Runtime) (row : AuditEventRow) : String :=
  rt.sha256 (canonicalEventBody rt row)

/-- `"0" * 64`. -/
def zeroHash : String := String.ofList (List.replicate 64 '0')

/-- The loop of `verify_aggregate_chain` over the rows in sequence order. -/
def firstProblem (rt : Runtime) : String → Int → List AuditEventRow → Option String
  | _, _, [] => none
  | previousHash, expectedSequence, row :: rest =>
      if row.sequence ≠ expectedSequence then
        some ("sequence gap at " ++ toString row.sequence)
      else if row.previousHash ≠ previousHash then
        some ("broken link at sequence " ++ toString row.sequence)
      else if row.eventHash ≠ computeEventHash rt row then
        some ("hash mismatch at sequence " ++ toString row.sequence)
      else firstProblem rt row.eventHash (expectedSequence + 1) rest

/-- `verify_aggregate_chain`. -/
def verifyAggregateChain (rt : Runtime) (rows : List AuditEventRow) : Bool × Option String :=
  if rows = [] then (false, some "empty audit chain")
  else match firstProblem rt zeroHash 1 rows with
    | some problem => (false, some problem)
    | none => (true, none)

/-! ## Linked rows -/

/-- The rows continue a chain whose last hash is `previousHash`, from a sequence on. -/
inductive Linked (rt : Runtime) : String → Int → List AuditEventRow → Prop
  | nil {previousHash : String} {sequence : Int} : Linked rt previousHash sequence []
  | cons {sequence : Int} {row : AuditEventRow} {rest : List AuditEventRow}
      (hseq : row.sequence = sequence) (hhash : row.eventHash = computeEventHash rt row)
      (h : Linked rt row.eventHash (sequence + 1) rest) :
      Linked rt row.previousHash sequence (row :: rest)

theorem firstProblem_eq_none_iff {rt : Runtime} {rows : List AuditEventRow} :
    ∀ {previousHash : String} {sequence : Int},
      firstProblem rt previousHash sequence rows = none ↔ Linked rt previousHash sequence rows := by
  induction rows with
  | nil => exact fun {_ _} => ⟨fun _ => .nil, fun _ => rfl⟩
  | cons row rest ih =>
      intro previousHash sequence
      unfold firstProblem
      constructor
      · intro h
        split at h
        · cases h
        · next hseq =>
            split at h
            · cases h
            · next hprev =>
                split at h
                · cases h
                · next hhash =>
                    rw [ne_eq, Decidable.not_not] at hseq hprev hhash
                    subst hprev
                    exact .cons hseq hhash (ih.1 h)
      · intro h
        cases h with
        | cons hseq hhash hrest =>
            rw [if_neg (fun hne => hne hseq), if_neg (fun hne => hne rfl),
              if_neg (fun hne => hne hhash)]
            exact ih.2 hrest

/-- The verification accepts exactly the linked rows of a nonempty aggregate. -/
theorem verifyAggregateChain_iff {rt : Runtime} {rows : List AuditEventRow} :
    (verifyAggregateChain rt rows).1 = true ↔ rows ≠ [] ∧ Linked rt zeroHash 1 rows := by
  unfold verifyAggregateChain
  by_cases hnil : rows = []
  · rw [if_pos hnil]
    exact ⟨fun h => (by cases h), fun h => absurd hnil h.1⟩
  · rw [if_neg hnil, ← firstProblem_eq_none_iff]
    cases firstProblem rt zeroHash 1 rows with
    | some problem => exact ⟨fun h => (by cases h), fun h => (by cases h.2)⟩
    | none => exact ⟨fun _ => ⟨hnil, rfl⟩, fun _ => rfl⟩

namespace Linked

variable {rt : Runtime} {previousHash : String} {sequence : Int} {rows : List AuditEventRow}

/-- The hash that the next row has to name. -/
def lastHash (previousHash : String) (rows : List AuditEventRow) : String :=
  (rows.getLast?.map (·.eventHash)).getD previousHash

theorem lastHash_cons (row : AuditEventRow) (rest : List AuditEventRow) :
    lastHash previousHash (row :: rest) = lastHash row.eventHash rest := by
  unfold lastHash
  rw [List.getLast?_cons]
  cases rest.getLast? <;> rfl

/-- Linked rows go on with a row that names the last hash and the next sequence. -/
theorem append_iff {row : AuditEventRow} :
    Linked rt previousHash sequence (rows ++ [row]) ↔
      Linked rt previousHash sequence rows ∧ row.previousHash = lastHash previousHash rows ∧
        row.sequence = sequence + rows.length ∧ row.eventHash = computeEventHash rt row := by
  induction rows generalizing previousHash sequence with
  | nil =>
      constructor
      · intro h
        cases h with
        | cons hseq hhash hrest =>
            refine ⟨.nil, rfl, ?_, hhash⟩
            rw [hseq, List.length_nil]
            omega
      · rintro ⟨-, hprev, hseq, hhash⟩
        have hprev' : row.previousHash = previousHash := hprev
        subst hprev'
        rw [List.length_nil] at hseq
        exact .cons (by omega) hhash .nil
  | cons first rest ih =>
      constructor
      · intro h
        cases h with
        | cons hseq hhash hrest =>
            obtain ⟨hl, hprev, hseq', hhash'⟩ := ih.1 hrest
            refine ⟨.cons hseq hhash hl, ?_, ?_, hhash'⟩
            · rw [hprev, lastHash_cons]
            · rw [hseq', List.length_cons]
              omega
      · rintro ⟨hl, hprev, hseq', hhash'⟩
        cases hl with
        | cons hseq hhash hrest =>
            rw [lastHash_cons] at hprev
            rw [List.length_cons] at hseq'
            exact .cons hseq hhash (ih.2 ⟨hrest, hprev, by omega, hhash'⟩)

end Linked

end HitlOps.Infrastructure
