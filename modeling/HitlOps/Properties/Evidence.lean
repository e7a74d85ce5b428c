import HitlOps.Delivery.Evidence
import HitlOps.Properties.Chain

/-!
# Published messages have exactly one audit event

Senders and any number of publishers run at once, under any names and settings; leases expire, the
database and the notification sink fail, and processes die between any two statements.
-/

set_option autoImplicit false

namespace HitlOps.Properties

open HitlOps.Python HitlOps.Domain HitlOps.Infrastructure HitlOps.Transaction HitlOps.Delivery

/-- A published message with an audit topic has exactly one event with its identifier as the cause,
and no message has two. -/
theorem published_once (pr : PostRuntime) {s : PostState} (h : PostRun pr Publishing s)
    {m : OutboxRow} (hm : m ∈ s.db.messages) :
    (m.topic ∈ auditTopics → m.publishedAt.isSome = true → (evidence s.db m).length = 1) ∧
      (evidence s.db m).length ≤ 1 := by
  have hone := evidence_le_one h hm
  refine ⟨fun ht hp => ?_, hone⟩
  obtain ⟨e, he, hcause⟩ := (evident_of_reachable h).attested m hm ht hp
  have hmem : e ∈ evidence s.db m := List.mem_filter.2 ⟨he, decide_eq_true hcause⟩
  have hpos : 0 < (evidence s.db m).length := List.length_pos_of_mem hmem
  omega

/-- A payload about the intent of the scenario. -/
def notice : Dict :=
  [("tenant_id", .str "acme"), ("intent_id", .str Scenario.intentId.text), ("revision", .int 1),
    ("command_id", .str "create")]

/-- A message is queued and published; a second publisher starts while the first one delivers. -/
def oneMessage : List (Move Post PostOp) :=
  [.spawn (.send [("intent.created", notice)]), .go 0 20 (clerk 0 Scenario.freshId false),
    .spawn (.publish .default "first"), .go 1 8 (clerk 0 Scenario.freshId false),
    .spawn (.publish .default "second"), .go 2 60 (clerk 60000000 Scenario.freshId false),
    .go 1 60 (clerk 0 Scenario.freshId false)]

set_option maxRecDepth 100000 in
/-- The message of the script is published and has its event. -/
theorem published_once_two : ∃ m ∈ (posted oneMessage).db.messages,
    (evidence (posted oneMessage).db m).length = 1 ∧
      (evidence (posted oneMessage).db m).length ≤ 1 := by
  have hrun : PostRun office Publishing (posted oneMessage) := by
    refine Sys.reachable_play .initial _ fun op hop request heq => ?_
    simp only [oneMessage, List.mem_cons, Move.spawn.injEq, reduceCtorEq, List.not_mem_nil,
      or_false, false_or] at hop
    rcases hop with rfl | rfl | rfl <;> cases heq
  have hsome : (posted oneMessage).db.messages.any
      (fun m => decide (m.topic ∈ auditTopics) && m.publishedAt.isSome) = true := by
    decide +kernel
  obtain ⟨m, hm, hpublished⟩ := List.any_eq_true.1 hsome
  rw [Bool.and_eq_true, decide_eq_true_eq] at hpublished
  obtain ⟨hexact, hone⟩ := published_once office hrun hm
  exact ⟨m, hm, hexact hpublished.1 hpublished.2, hone⟩

end HitlOps.Properties
