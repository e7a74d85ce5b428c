import HitlOps.Lifecycle.VerdictRuns
import HitlOps.Properties.Administration
import HitlOps.Properties.Log

/-!
# Deadlines, verdicts and the people behind them

The approval window of an intent is opened once and never moves; decisions and permits lie inside it,
an expiry behind it. The decisions of a revision are the verdicts of its log, one for one, and a
rejection ends it. A verdict and a cancellation are committed by an operation of the very person that
the row names, and a cancellation by nobody but the requester or an administrator, whom its transaction
was shown as a current one.
-/

set_option autoImplicit false

namespace HitlOps.Properties

open HitlOps.Python HitlOps.Domain HitlOps.Infrastructure HitlOps.Application HitlOps.Adapters
open HitlOps.Transaction HitlOps.Lifecycle HitlOps.Api

/-! ## Statements -/

/-- The deadline of the intent `a` of the revision `k` has been kept. -/
structure InTime (s : State) (k : RevisionKey) (a : ActionIntent) : Prop where
  unmoved : ∀ e ∈ s.trace, ∀ a₀, e.db.intent? k = some a₀ → a₀.state ≠ .requested →
    a₀.approvalExpiresAt = a.approvalExpiresAt
  decided : ∀ d ∈ s.db.decisionsOf k, d.expiresAt = a.approvalExpiresAt ∧ OpenAt a d.decidedAt
  pronounced : ∀ t ∈ verdicts (s.db.transitionsOf k), OpenAt a t.occurredAt
  permitted : ∀ t ∈ s.db.transitionsOf k, t.toState = .executing → OpenAt a t.occurredAt
  expired : ∀ t ∈ s.db.transitionsOf k, t.toState = .expired → ElapsedAt a t.occurredAt

/-- The event commits the row as an act of the person that the row names. -/
structure OwnAct (e : Entry) (t : StateTransition) (actor : AuthenticatedActor) : Prop where
  commit : e.act = .commit
  wrote : Write.insertTransition t ∈ History.writes e.history
  person : personOf? e.op = some actor
  tenant : actor.tenantId = t.key.tenantId
  name : actor.actorId = t.actorId

/-! ## Logs -/

/-- A row that leads to a state without an exit is the last one. -/
theorem state_of_final {log : List StateTransition} {state : IntentState} (h : Chain log state)
    {t : StateTransition} (ht : t ∈ log) (hfinal : ∀ next, isLegal t.toState next = false) :
    t.toState = state := by
  induction h with
  | born hfrom hto hseq =>
      rw [List.mem_singleton] at ht
      exact ht ▸ hto
  | @next log s₁ s₂ u h hfrom hto hlegal hseq ih =>
      rcases List.mem_append.1 ht with hold | hnew
      · rw [← ih hold, hfinal] at hlegal
        cases hlegal
      · rw [List.mem_singleton] at hnew
        exact hnew ▸ hto

theorem key_of_transition {db : Store} {k : RevisionKey} {t : StateTransition}
    (ht : t ∈ db.transitionsOf k) : t.key = k := of_decide_eq_true (List.mem_filter.1 ht).2

/-- The decision of a verdict. -/
theorem decision_of_verdict {ts : List StateTransition} {ds : List ApprovalDecisionRow}
    (h : List.Forall₂ Pronounces ts ds) {t : StateTransition} (ht : t ∈ ts) :
    ∃ d ∈ ds, Pronounces t d := by
  have hflip : List.Forall₂ (flip Pronounces) ds ts := h.flip
  exact exists_of_forall₂ hflip ht

section Verdicts

variable {rt : Runtime} {allowed : Op → Prop} {s : State} {k : RevisionKey}

/-- Every decision, permit and expiry respects the deadline, and the deadline never moves. -/
theorem deadlines_kept (h : Run rt allowed s) {a : ActionIntent} (ha : s.db.intent? k = some a) :
    InTime s k a := by
  have hopen : ∀ {a₀ : ActionIntent} {t : Time}, a.approvalExpiresAt = a₀.approvalExpiresAt →
      OpenAt a₀ t → OpenAt a t := by
    intro a₀ t heq hopen x hx
    exact hopen x (heq ▸ hx)
  have hkeyed : ∀ d ∈ s.db.decisionsOf k, d.key = k := fun d hd =>
    of_decide_eq_true (List.mem_filter.1 hd).2
  have hrests : ∀ t ∈ s.db.transitionsOf k, ∃ e ∈ s.trace, ∃ h', During h' e.history ∧
      Warranted e.op h' t := by
    intro t ht
    obtain ⟨e, he, -, hnew⟩ := (rows_of_run h k).1 t ht
    obtain ⟨h', hduring, hwarranted⟩ :=
      restsOn_of_event h he ((writes_of_rows e.history).1 t hnew)
    exact ⟨e, he, h', hduring, hwarranted⟩
  have hdecided : ∀ d ∈ s.db.decisionsOf k,
      d.expiresAt = a.approvalExpiresAt ∧ OpenAt a d.decidedAt := by
    intro d hd
    obtain ⟨e, he, -, hnew⟩ := (rows_of_run h k).2 d hd
    obtain ⟨h', hduring, a₀, actor, hl, hs, -, -, -, hexpires, htime⟩ :=
      restsOn_of_event h he ((writes_of_rows e.history).2 d hnew)
    rw [hkeyed d hd] at hl
    have hsame := deadline_of_locked h he (hl.during hduring) hs ha
    exact ⟨hexpires.trans hsame.symm, hopen hsame htime⟩
  refine ⟨fun e he a₀ ha₀ hs => ?_, hdecided, fun t ht => ?_, fun t ht hto => ?_, fun t ht hto => ?_⟩
  · obtain ⟨a', ha', -, heq⟩ := fixed_of_event h he k a₀ ha₀ hs
    rw [ha, Option.some.injEq] at ha'
    rw [ha', heq]
  · -- A verdict is as old as its decision.
    obtain ⟨d, hd, hpronounces⟩ := decision_of_verdict (matched_of_run h k) ht
    rw [hpronounces.time]
    exact (hdecided d hd).2
  · obtain ⟨e, he, h', hduring, hwarranted⟩ := hrests t ht
    obtain ⟨a₀, hl, hs, htime⟩ := hwarranted.executing hto
    rw [key_of_transition ht] at hl
    exact hopen (deadline_of_locked h he (hl.during hduring) hs ha) htime
  · obtain ⟨e, he, h', hduring, hwarranted⟩ := hrests t ht
    obtain ⟨a₀, hl, hs, x, hx, hle⟩ := hwarranted.expired hto
    rw [key_of_transition ht] at hl
    exact ⟨x, (deadline_of_locked h he (hl.during hduring) hs ha).trans hx, hle⟩

/-- The decisions of a revision are the verdicts of its log, and a revision is rejected exactly when
one of its decisions is a rejection. -/
theorem decisions_match_log (h : Run rt allowed s) (k : RevisionKey) :
    List.Forall₂ Pronounces (verdicts (s.db.transitionsOf k)) (s.db.decisionsOf k) ∧
      ∀ a, s.db.intent? k = some a →
        (a.state = .rejected ↔ ∃ d ∈ s.db.decisionsOf k, d.decision = .reject) := by
  have hmatched := matched_of_run h k
  have hsound := sound_of_run (P := AnyPolicy) covers_any (fun op _ => admits_any op) h
  refine ⟨hmatched, fun a ha => ?_⟩
  have hchain : Chain (s.db.transitionsOf k) a.state := (valid_of_sound hsound ha).core.chain
  refine ⟨fun hstate => ?_, fun ⟨d, hd, hreject⟩ => ?_⟩
  · -- The last row of the log is a verdict.
    obtain ⟨t, hlast, hto⟩ := hchain.getLast?
    have ht : t ∈ verdicts (s.db.transitionsOf k) := by
      refine List.mem_filter.2 ⟨List.mem_of_getLast? hlast, ?_⟩
      rw [hto, hstate]
      rfl
    obtain ⟨d, hd, hpronounces⟩ := decision_of_verdict hmatched ht
    exact ⟨d, hd, hpronounces.verdict.1 (hto.trans hstate)⟩
  · -- The row of a rejection has no successor.
    obtain ⟨t, ht, hpronounces⟩ := exists_of_forall₂ hmatched hd
    have hto : t.toState = .rejected := hpronounces.verdict.2 hreject
    have hfinal : ∀ next, isLegal t.toState next = false := by
      rw [hto]
      intro next
      cases next <;> rfl
    exact (state_of_final hchain (List.mem_filter.1 ht).1 hfinal).symm.trans hto

/-- A verdict or a cancellation is committed by an operation of the person that it names; only the
requester cancels, or a holder of the administrator's office whom the operation was shown as a current
administrator. -/
theorem acts_are_personal (h : Run rt allowed s) {a : ActionIntent}
    (ha : s.db.intent? k = some a) :
    ∀ t ∈ s.db.transitionsOf k, t.toState = .cancelled ∨ t.toState ∈ verdictStates →
      t.actorType = "human" ∧ ∃ e ∈ s.trace, ∃ actor, OwnAct e t actor ∧
        (t.toState = .cancelled → actor.actorId = a.requesterId ∨
          (HoldsOffice e.db actor ∧ Commissioned e.history actor)) := by
  rintro t ht hact
  obtain rfl := key_of_transition ht
  obtain ⟨e, he, hcommit, hnew⟩ := (rows_of_run h t.key).1 t ht
  have hw := (writes_of_rows e.history).1 t hnew
  obtain ⟨h', hduring, hrests⟩ := restsOn_of_event h he hw
  rcases hact with hcancelled | hverdict
  · obtain ⟨hhuman, a₀, actor, hl, hperson, htenant, hname, hmay⟩ := hrests.cancelled hcancelled
    refine ⟨hhuman, e, he, actor, ⟨hcommit, hw, hperson, htenant, hname⟩, fun _ => ?_⟩
    rcases hmay with hown | hshown
    · -- The requester of an intent does not change.
      have hfound := intent?_of_locked h he (hl.during hduring)
      have hrecorded := recorded_of_run (P := AnyPolicy) covers_any (fun op _ => admits_any op) h e he
      obtain ⟨a', ha', hidentity⟩ := (hrecorded.later t.key).identity a₀ hfound
      have hsame : a = a' := Option.some.inj (ha.symm.trans ha')
      exact Or.inl (hown.trans (hsame ▸ hidentity.requester.symm))
    · have hcommissioned := hshown.suffix hduring.suffix
      exact Or.inr ⟨office_of_shown h he hcommissioned, hcommissioned⟩
  · -- The decision of the same transaction names the person.
    have hentered : t ∈ verdicts (entered e.history) :=
      List.mem_filter.2 ⟨hnew, decide_eq_true hverdict⟩
    obtain ⟨d, hd, hpronounces⟩ := decision_of_verdict (matched_of_event h he hcommit) hentered
    obtain ⟨h₁, -, a₀, actor, -, -, hperson, htenant, hname, -⟩ :=
      restsOn_of_event h he ((writes_of_rows e.history).2 d hd)
    refine ⟨hpronounces.actor.1, e, he, actor, ⟨hcommit, hw, hperson, ?_, ?_⟩, fun heq => ?_⟩
    · rw [hpronounces.key]
      exact htenant
    · exact hname.trans hpronounces.actor.2.symm
    · rw [heq] at hverdict
      exact absurd hverdict (by decide)

end Verdicts

/-! ## A deletion and a cancellation -/

set_option maxRecDepth 100000 in
theorem deletion_dated : ((Scenario.after Scenario.deletion).db.intent? Scenario.key).any
    (fun a => a.approvalExpiresAt.isSome) = true := by
  decide +kernel

/-- The deletion has a deadline and keeps it. -/
theorem deadlines_kept_deletion : ∃ a, a.approvalExpiresAt.isSome = true ∧
    InTime (Scenario.after Scenario.deletion) Scenario.key a := by
  obtain ⟨a, ha, hdated⟩ := (Option.any_eq_true _ _).1 deletion_dated
  exact ⟨a, hdated, deadlines_kept (Scenario.run_after (fun _ => True) _ fun _ _ => trivial) ha⟩

/-- The decisions of the deletion are the verdicts of its log. -/
theorem decisions_match_log_deletion :
    List.Forall₂ Pronounces (verdicts ((Scenario.after Scenario.deletion).db.transitionsOf Scenario.key))
      ((Scenario.after Scenario.deletion).db.decisionsOf Scenario.key) :=
  (decisions_match_log (Scenario.run_after (fun _ => True) _ fun _ _ => trivial) Scenario.key).1

theorem rachel_ne : "rachel" ≠ "" := by decide

/-- Rachel takes her request back. -/
def withdrawal : CancelIntentCommand where
  tenantId := "acme"
  intentId := Scenario.intentId
  revision := 1
  expectedStateVersion := 1
  reason := "not needed"
  actor := Scenario.actor "rachel" rachel_ne
  commandId := "cancel"

def withdrawn : List (Move Db Op) :=
  Scenario.complete 0 (.create (Scenario.creation .deleteResource))
    ++ Scenario.complete 1 (.cancel withdrawal)

set_option maxRecDepth 100000 in
theorem withdrawn_facts : ((Scenario.after withdrawn).db.intent? Scenario.key).isSome = true ∧
    ((Scenario.after withdrawn).db.transitionsOf Scenario.key).any
      (fun t => t.toState = .cancelled) = true := by
  decide +kernel

/-- The cancellation is Rachel's own act. -/
theorem acts_are_personal_withdrawn : ∃ t ∈ (Scenario.after withdrawn).db.transitionsOf Scenario.key,
    t.toState = .cancelled ∧ ∃ e ∈ (Scenario.after withdrawn).trace, ∃ actor, OwnAct e t actor := by
  obtain ⟨a, ha⟩ := Option.isSome_iff_exists.1 withdrawn_facts.1
  obtain ⟨t, ht, hstate⟩ := List.any_eq_true.1 withdrawn_facts.2
  have hcancelled : t.toState = .cancelled := of_decide_eq_true hstate
  have hrun := Scenario.run_after (fun _ => True) withdrawn fun _ _ => trivial
  obtain ⟨-, e, he, actor, hact, -⟩ := acts_are_personal hrun ha t ht (Or.inl hcancelled)
  exact ⟨t, ht, hcancelled, e, he, actor, hact⟩

end HitlOps.Properties
