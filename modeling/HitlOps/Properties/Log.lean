import HitlOps.Infrastructure.Outbox
import HitlOps.Lifecycle.Versions
import HitlOps.Scenario

/-!
# Transition logs

In every reachable store the transition log of a revision is a numbered path of legal edges to its
current state, the state version counts the rows, and the lifecycle messages of the outbox tell the
same story row by row. A command takes effect on the version it names or not at all.
-/

set_option autoImplicit false

namespace HitlOps.Properties

open HitlOps.Python HitlOps.Domain HitlOps.Infrastructure HitlOps.Application
open HitlOps.Transaction HitlOps.Lifecycle

/-! ## The log and the intent row -/

/-- The log of the revision `k` leads to the stored intent `a`. -/
structure LogLeadsTo (db : Store) (k : RevisionKey) (a : ActionIntent) : Prop where
  sequences : (db.transitionsOf k).map (·.sequence) = List.range' 1 (db.transitionsOf k).length
  first : ∃ t rest, db.transitionsOf k = t :: rest ∧ t.fromState = none ∧
    t.toState = .requested
  edges : (db.transitionsOf k).IsChain fun t u =>
    u.fromState = some t.toState ∧ isLegal t.toState u.toState = true
  last : ∃ t, (db.transitionsOf k).getLast? = some t ∧ t.toState = a.state
  version : a.stateVersion = (db.transitionsOf k).length

theorem logLeadsTo {rt : Runtime} {P : PolicyEvaluation → Prop} {s : State}
    (hs : (contract rt P).Sound s) {k : RevisionKey} {a : ActionIntent}
    (ha : s.db.intent? k = some a) : LogLeadsTo s.db k a := by
  have hcore := (valid_of_sound hs ha).core
  exact ⟨hcore.chain.sequences, hcore.chain.head, hcore.chain.edges, hcore.chain.getLast?,
    hcore.version⟩

/-- A revision without an intent row has no log. -/
theorem log_eq_nil {rt : Runtime} {P : PolicyEvaluation → Prop} {s : State}
    (hs : (contract rt P).Sound s) {k : RevisionKey} (ha : s.db.intent? k = none) :
    s.db.transitionsOf k = [] := by
  have h := WellFormed.eq_empty (hs.rows k) (show (revision s.db k).intent = none from ha)
  exact congrArg Revision.log h

/-- The logs of a reachable store are complete, and commands act on the versions they name. -/
theorem log_and_versions {rt : Runtime} {s : State} (h : Run rt (fun _ => True) s) :
    (∀ k a, s.db.intent? k = some a → LogLeadsTo s.db k a) ∧
      (∀ k, s.db.intent? k = none → s.db.transitionsOf k = []) ∧
      (∀ e ∈ s.trace, ∀ c, committedCommand e = some c → TakesEffect e c) ∧
      DistinctVersions s.trace := by
  have hadmits : ∀ op, True → Admits AnyPolicy op := fun op _ => admits_any op
  have hs := sound_of_run covers_any hadmits h
  have hrec := recorded_of_run covers_any hadmits h
  exact ⟨fun k a ha => logLeadsTo hs ha, fun k ha => log_eq_nil hs ha,
    fun e he c hc => takesEffect (hrec e he) hc, distinctVersions_of_run covers_any hadmits h⟩

/-- The deletion of the scenario has a complete log and two commands in its trace. -/
theorem log_and_versions_deletion :
    (∃ a, (Scenario.after Scenario.deletion).db.intent? Scenario.key = some a ∧
      a.state = .succeeded ∧ LogLeadsTo (Scenario.after Scenario.deletion).db Scenario.key a) ∧
      DistinctVersions (Scenario.after Scenario.deletion).trace := by
  have h := log_and_versions
    (Scenario.run_after (fun _ => True) Scenario.deletion fun _ _ => trivial)
  obtain ⟨a, ha, hstate⟩ := Scenario.deletion_succeeds
  exact ⟨⟨a, ha, hstate, h.1 _ a ha⟩, h.2.2.2⟩

/-! ## The log and the outbox -/

/-- The lifecycle messages of the revision `k`, in outbox order. -/
def lifecycleMessages (db : Store) (k : RevisionKey) : List OutboxMessage :=
  db.outbox.filter fun m => announced? m.topic m.payload = some k

/-- The message `m` of the revision `k` tells of the transition `t`. -/
structure TellsOf (k : RevisionKey) (t : StateTransition) (m : OutboxMessage) : Prop where
  names : Names k m.payload
  topic : m.topic ∈ lifecycleTopics
  created : m.topic = "intent.created" ↔ t.toState = .requested
  target : m.topic ≠ "intent.created" →
    m.payload.get? "to_state" = some (.str t.toState.value)

/-- The row without a source is the one that enters `REQUESTED`. -/
theorem fromState_eq_none_iff {log : List StateTransition} {s : IntentState}
    (h : Chain log s) : ∀ t ∈ log, t.fromState = none ↔ t.toState = .requested := by
  induction h with
  | born hfrom hto hseq =>
      intro t ht
      rw [List.mem_singleton] at ht
      subst ht
      exact ⟨fun _ => hto, fun _ => hfrom⟩
  | next h hfrom hto hlegal hseq ih =>
      intro t ht
      rcases List.mem_append.1 ht with ht | ht
      · exact ih t ht
      · rw [List.mem_singleton] at ht
        subst ht
        have hrank := rank_lt_of_isLegal hlegal
        rw [hfrom, hto]
        constructor
        · intro hnone
          cases hnone
        · rintro rfl
          exact absurd hrank (Nat.not_lt_zero _)

theorem tellsOf {k : RevisionKey} {log : List StateTransition} {messages : List OutboxMessage}
    (h : List.Forall₂ (Announces k) log messages)
    (hlog : ∀ t ∈ log, t.fromState = none ↔ t.toState = .requested) :
    List.Forall₂ (TellsOf k) log messages := by
  induction h with
  | nil => exact .nil
  | cons hm _ ih =>
      have hiff := hlog _ List.mem_cons_self
      refine .cons ?_ (ih fun t ht => hlog t (List.mem_cons_of_mem _ ht))
      exact ⟨hm.names, hm.topic, hm.created.trans hiff,
        fun hne => hm.target fun hnone => hne (hm.created.2 hnone)⟩

theorem lifecycleTopics_audited : ∀ topic ∈ lifecycleTopics, topic ∈ auditTopics := by decide

/-- The outbox and the logs of a store correspond. -/
structure OutboxFollowsLog (db : Store) : Prop where
  ordered : ∀ k, (lifecycleMessages db k).Pairwise fun m m' => m.sequence < m'.sequence
  matched : ∀ k, List.Forall₂ (TellsOf k) (db.transitionsOf k) (lifecycleMessages db k)
  audited : ∀ topic ∈ lifecycleTopics, topic ∈ auditTopics
  placed : ∀ m ∈ db.outbox, m.topic ∈ lifecycleTopics →
    ∃ k, m ∈ lifecycleMessages db k ∧ Names k m.payload

/-- A partner in the second list of related lists. -/
theorem exists_of_forall₂ {α β : Type} {R : α → β → Prop} {l : List α} {l' : List β}
    (h : List.Forall₂ R l l') {b : β} (hb : b ∈ l') : ∃ a ∈ l, R a b := by
  induction h with
  | nil => cases hb
  | cons hr _ ih =>
      rcases List.mem_cons.1 hb with rfl | hb
      · exact ⟨_, List.mem_cons_self, hr⟩
      · obtain ⟨a, ha, hab⟩ := ih hb
        exact ⟨a, List.mem_cons_of_mem _ ha, hab⟩

/-- Lifecycle messages and transition rows correspond one to one, in order. -/
theorem outbox_follows_log {rt : Runtime} {s : State} (h : Run rt (fun _ => True) s) :
    OutboxFollowsLog s.db := by
  have hs := sound_of_run (P := AnyPolicy) covers_any (fun op _ => admits_any op) h
  have hrow : ∀ k, (lifecycleMessages s.db k).Pairwise (fun m m' => m.sequence < m'.sequence) ∧
      List.Forall₂ (TellsOf k) (s.db.transitionsOf k) (lifecycleMessages s.db k) := by
    intro k
    cases ha : s.db.intent? k with
    | none =>
        have hempty := WellFormed.eq_empty (hs.rows k) (show (revision s.db k).intent = none from ha)
        have hmessages : lifecycleMessages s.db k = [] := congrArg Revision.messages hempty
        have hlog : s.db.transitionsOf k = [] := congrArg Revision.log hempty
        rw [hmessages, hlog]
        exact ⟨List.Pairwise.nil, .nil⟩
    | some a =>
        have hcore := (valid_of_sound hs ha).core
        exact ⟨hcore.ordered, tellsOf hcore.announced (fromState_eq_none_iff hcore.chain)⟩
  refine ⟨fun k => (hrow k).1, fun k => (hrow k).2, lifecycleTopics_audited, ?_⟩
  intro m hm htopic
  have hmem : m ∈ lifecycleMessages s.db (payloadKey m.payload) := by
    refine List.mem_filter.2 ⟨hm, ?_⟩
    rw [announced?, if_pos htopic, decide_eq_true rfl]
  obtain ⟨t, -, ht⟩ := exists_of_forall₂ (hrow _).2 hmem
  exact ⟨_, hmem, ht.names⟩

set_option maxRecDepth 100000 in
/-- The deletion of the scenario writes ten transitions and announces each of them. -/
theorem outbox_follows_log_deletion :
    (lifecycleMessages (Scenario.after Scenario.deletion).db Scenario.key).length = 10 ∧
      OutboxFollowsLog (Scenario.after Scenario.deletion).db := by
  have h := outbox_follows_log
    (Scenario.run_after (fun _ => True) Scenario.deletion fun _ _ => trivial)
  have hlog : ((Scenario.after Scenario.deletion).db.transitionsOf Scenario.key).length = 10 := by
    decide +kernel
  exact ⟨(h.matched Scenario.key).length_eq.symm.trans hlog, h⟩

end HitlOps.Properties
