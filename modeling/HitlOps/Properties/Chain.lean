import HitlOps.Delivery.Chain
import HitlOps.Transaction.Replay
import HitlOps.Scenario

/-!
# Every aggregate has a chain that verifies

Writers, publishers and senders run at once, and any of them may die at any point. In every state
that they reach, `verify_aggregate_chain` accepts the events of each aggregate that has one.
-/

set_option autoImplicit false

namespace HitlOps.Properties

open HitlOps.Python HitlOps.Domain HitlOps.Infrastructure HitlOps.Transaction HitlOps.Delivery

/-! ## Chains -/

/-- The rows that `verify_aggregate_chain` reads, in the order of their sequence. -/
def chainRows (m : Mailbox) (a : Aggregate) : List AuditEventRow :=
  (m.eventsOf a).insertionSort fun e e' => e.sequence ≤ e'.sequence

/-- The sequences are `1..n`, each row names the hash of the row before it, the first one names the
zero hash, and each stored hash is the hash of its row. -/
structure IntactChain (rt : Runtime) (rows : List AuditEventRow) : Prop where
  sequences : rows.map (·.sequence) = (List.range rows.length).map fun i : Nat => (i : Int) + 1
  previous : rows.map (·.previousHash) = (zeroHash :: rows.map (·.eventHash)).dropLast
  hashes : ∀ row ∈ rows, row.eventHash = computeEventHash rt row

section Linked

variable {rt : Runtime} {previousHash : String} {sequence : Int} {rows : List AuditEventRow}

theorem sequences_of_linked (h : Linked rt previousHash sequence rows) :
    rows.map (·.sequence) = (List.range rows.length).map fun i : Nat => (i : Int) + sequence := by
  induction h with
  | nil => rfl
  | @cons sequence row rest hseq hhash h ih =>
      rw [List.length_cons, List.range_succ_eq_map, List.map_cons, List.map_cons, ih, List.map_map]
      congr 1
      · rw [hseq]
        simp
      · refine List.map_congr_left fun i _ => ?_
        simp only [Function.comp_apply]
        push_cast
        omega

theorem previous_of_linked (h : Linked rt previousHash sequence rows) :
    rows.map (·.previousHash) = (previousHash :: rows.map (·.eventHash)).dropLast := by
  induction h with
  | nil => rfl
  | @cons sequence row rest hseq hhash h ih =>
      rw [List.map_cons, List.map_cons, ih, List.dropLast_cons_of_ne_nil (List.cons_ne_nil _ _)]

theorem hashes_of_linked (h : Linked rt previousHash sequence rows) :
    ∀ row ∈ rows, row.eventHash = computeEventHash rt row := by
  induction h with
  | nil => exact fun row hrow => absurd hrow List.not_mem_nil
  | cons hseq hhash h ih =>
      intro row hrow
      rcases List.mem_cons.1 hrow with rfl | hrow
      · exact hhash
      · exact ih row hrow

/-- The rows of a chain are in the order of their sequence. -/
theorem sorted_of_linked (h : Linked rt previousHash sequence rows) :
    rows.Pairwise fun e e' => e.sequence ≤ e'.sequence := by
  have hsorted : (rows.map (·.sequence)).Pairwise (· ≤ ·) := by
    rw [sequences_of_linked h, List.pairwise_map]
    exact List.pairwise_lt_range.imp fun hlt => by omega
  exact List.pairwise_map.1 hsorted

end Linked

/-- Whatever writers and publishers do, the chain of every aggregate that has an event verifies. -/
theorem aggregates_verify (pr : PostRuntime) {s : PostState} (h : PostRun pr (fun _ => True) s)
    (a : Aggregate) (hne : s.db.eventsOf a ≠ []) :
    verifyAggregateChain pr.toRuntime (chainRows s.db a) = (true, none) ∧
      IntactChain pr.toRuntime (chainRows s.db a) := by
  have hlinked := (chained_of_reachable h).linked a
  have hrows : chainRows s.db a = s.db.eventsOf a := (sorted_of_linked hlinked).insertionSort_eq
  rw [hrows]
  refine ⟨?_, sequences_of_linked hlinked, previous_of_linked hlinked, hashes_of_linked hlinked⟩
  unfold verifyAggregateChain
  rw [if_neg hne, firstProblem_eq_none_iff.2 hlinked]

/-! ## A small post office -/

/-- Library functions for the scripts, with the digest `sha256`. -/
def officeWith (sha256 : String → String) : PostRuntime where
  toRuntime := { Scenario.runtime with sha256 }
  hashtext := fun _ => 0
  uuid5 := fun _ => Scenario.freshId
  uuidOf := UUID.parse?
  intOf := fun _ => none

/-- One digest for all texts; it serves the scripts that write a single event. -/
def office : PostRuntime := officeWith fun _ => "digest"

/-- The clock `now`, the fresh identifier `id`, and a database that is in reach unless `out`. -/
def clerk (now : Time) (id : UUID) (out : Bool) : Environment Post where
  draw
    | .now => now
    | .uuid => id
    | .outage => out
  answer
    | .approvalRequested _ _ _ _ _ => .sent "note"

/-- A request to record an event about the intent of the scenario. -/
def letter (cause : String) : AuditRequest where
  tenantId := "acme"
  aggregateId := Scenario.intentId
  aggregateRevision := 1
  eventType := "intent_created"
  actorId := "rachel"
  occurredAt := 0
  attributes := []
  correlationId := none
  causationId := some cause
  policyVersion := none
  riskVersion := none

/-- The state behind a script of the office `pr`. -/
def postedIn (pr : PostRuntime) (script : List (Move Post PostOp)) : PostState :=
  Sys.play (Delivery.code pr) (Sys.initial ⟨[], []⟩) script

/-- The state behind a script. -/
def posted (script : List (Move Post PostOp)) : PostState := postedIn office script

/-- A rolling hash of 61 bits over the bytes of a text. -/
def rollingDigest (text : String) : String :=
  toString (text.toUTF8.data.toList.foldl (fun hash byte => (hash * 257 + byte.toNat) % 2 ^ 61) 0)

/-- An office whose digests tell its events apart. -/
def hashingOffice : PostRuntime := officeWith rollingDigest

/-- Two writers at once: the second one waits for the lock of the aggregate. -/
def twoWriters : List (Move Post PostOp) :=
  [.spawn (.append (letter "first")), .spawn (.append (letter "second")),
    .go 0 2 (clerk 0 Scenario.freshId false), .go 1 20 (clerk 0 Scenario.freshId false),
    .go 0 20 (clerk 0 Scenario.freshId false), .go 1 20 (clerk 0 Scenario.freshId false)]

/-- The events behind the writers. -/
def writtenEvents : List AuditEventRow :=
  (postedIn hashingOffice twoWriters).db.eventsOf ⟨"acme", Scenario.intentId⟩

set_option maxRecDepth 100000 in
/-- The writers leave two events with different hashes, and their chain verifies. -/
theorem aggregates_verify_two :
    writtenEvents.length = 2 ∧ (writtenEvents.map (·.eventHash)).Nodup ∧
      verifyAggregateChain hashingOffice.toRuntime (chainRows
        (postedIn hashingOffice twoWriters).db ⟨"acme", Scenario.intentId⟩) = (true, none) ∧
      IntactChain hashingOffice.toRuntime (chainRows
        (postedIn hashingOffice twoWriters).db ⟨"acme", Scenario.intentId⟩) := by
  have hevents : writtenEvents.length = 2 ∧ (writtenEvents.map (·.eventHash)).Nodup := by
    decide +kernel
  have hrun : PostRun hashingOffice (fun _ => True) (postedIn hashingOffice twoWriters) :=
    Sys.reachable_play .initial _ fun _ _ => trivial
  refine ⟨hevents.1, hevents.2, aggregates_verify hashingOffice hrun _ fun hempty => ?_⟩
  have hnone : writtenEvents.length = 0 := congrArg List.length hempty
  rw [hevents.1] at hnone
  cases hnone

end HitlOps.Properties
