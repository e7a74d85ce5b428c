import Mathlib.Data.List.Chain
import HitlOps.Lifecycle.Revision
import HitlOps.Application.Commands

/-!
# The invariant of a revision

`Chain` says that a transition log leads step by step to the current state, `Core` adds the version
and the messages, and `Evidence` says what the stored policy and the stored decisions are worth in
each state. `WellFormed` puts them together for a row that exists. `Later` is the order along which
committed rows move: the identity of an intent is frozen and its log only grows.

The invariant takes the stored policies from a set `P`, so that the results that need the policy
evaluator can ask for its evaluations and the others hold for every recorded policy.
-/

set_option autoImplicit false

namespace HitlOps.Lifecycle

open HitlOps.Python HitlOps.Domain HitlOps.Infrastructure HitlOps.Application HitlOps.Transaction

/-! ## Transition logs -/

/-- The log leads from nothing to a state: sequences count from one, and each row continues the row
before it along a legal edge. -/
inductive Chain : List StateTransition → IntentState → Prop
  | born {t : StateTransition} (hfrom : t.fromState = none) (hto : t.toState = .requested)
      (hseq : t.sequence = 1) : Chain [t] .requested
  | next {log : List StateTransition} {s s' : IntentState} {t : StateTransition}
      (h : Chain log s) (hfrom : t.fromState = some s) (hto : t.toState = s')
      (hlegal : isLegal s s' = true) (hseq : t.sequence = log.length + 1) : Chain (log ++ [t]) s'

namespace Chain

variable {log : List StateTransition} {s s' : IntentState}

theorem ne_nil (h : Chain log s) : log ≠ [] := by
  cases h with
  | born => exact List.cons_ne_nil _ _
  | next => exact List.append_ne_nil_of_right_ne_nil _ (List.cons_ne_nil _ _)

theorem getLast? (h : Chain log s) : ∃ t, log.getLast? = some t ∧ t.toState = s := by
  cases h with
  | born hfrom hto => exact ⟨_, rfl, hto⟩
  | next h hfrom hto => exact ⟨_, List.getLast?_concat, hto⟩

theorem unique (h : Chain log s) (h' : Chain log s') : s = s' := by
  obtain ⟨t, ht, hs⟩ := h.getLast?
  obtain ⟨t', ht', hs'⟩ := h'.getLast?
  rw [ht] at ht'
  cases ht'
  exact hs.symm.trans hs'

/-- No row of the log is deeper than the current state. -/
theorem rank_le (h : Chain log s) : ∀ t ∈ log, rank t.toState ≤ rank s := by
  induction h with
  | born hfrom hto =>
      intro t ht
      rw [List.mem_singleton] at ht
      subst ht
      exact Nat.le_of_eq (congrArg rank hto)
  | next h hfrom hto hlegal hseq ih =>
      intro t ht
      have hlt := rank_lt_of_isLegal hlegal
      rcases List.mem_append.1 ht with ht | ht
      · exact Nat.le_of_lt (Nat.lt_of_le_of_lt (ih t ht) hlt)
      · rw [List.mem_singleton] at ht
        subst ht
        exact Nat.le_of_eq (congrArg rank hto)

/-- Every row behind a log that has reached `s` is deeper than `s`. -/
theorem rank_lt_of_append {all : List StateTransition} (h' : Chain all s') (h : Chain log s) :
    ∀ ts, all = log ++ ts → ∀ t ∈ ts, rank s < rank t.toState := by
  induction h' with
  | born hfrom hto hseq =>
      intro ts hall t ht
      -- A nonempty log leaves nothing of a single row.
      obtain ⟨u, us, rfl⟩ := List.exists_cons_of_ne_nil h.ne_nil
      rw [List.cons_append, List.cons.injEq] at hall
      obtain ⟨rfl, rfl⟩ := List.append_eq_nil_iff.1 hall.2.symm
      cases ht
  | @next l s₁ s₂ u hl hfrom hto hlegal hseq ih =>
      intro ts hall t ht
      rcases List.eq_nil_or_concat ts with rfl | ⟨ts', v, rfl⟩
      · cases ht
      · rw [List.concat_eq_append] at hall ht
        rw [← List.append_assoc] at hall
        obtain ⟨rfl, huv⟩ := List.append_inj' hall rfl
        have hlast : rank s < rank s₂ := by
          refine Nat.lt_of_le_of_lt ?_ (rank_lt_of_isLegal hlegal)
          cases ts' with
          | nil =>
              rw [List.append_nil] at hl
              exact Nat.le_of_eq (congrArg rank (h.unique hl))
          | cons w ws =>
              have hw := ih (w :: ws) rfl w List.mem_cons_self
              have hle := hl.rank_le w (List.mem_append_right _ List.mem_cons_self)
              exact Nat.le_of_lt (Nat.lt_of_lt_of_le hw hle)
        rcases List.mem_append.1 ht with ht | ht
        · exact ih ts' rfl t ht
        · rw [List.cons.injEq] at huv
          rw [List.mem_singleton] at ht
          subst ht
          rw [← huv.1, hto]
          exact hlast

/-- The last row of a longer log has reached its state. -/
theorem last_of_append {ts : List StateTransition} {t : StateTransition}
    (h : Chain (log ++ (ts ++ [t])) s) : t.toState = s := by
  obtain ⟨u, hu, hs⟩ := h.getLast?
  rw [← List.append_assoc, List.getLast?_concat, Option.some.injEq] at hu
  rw [hu]
  exact hs

/-- The sequences of a log are exactly `1, …, n`. -/
theorem sequences (h : Chain log s) : log.map (·.sequence) = List.range' 1 log.length := by
  induction h with
  | born hfrom hto hseq => rw [List.map_singleton, hseq]; rfl
  | next h hfrom hto hlegal hseq ih =>
      rw [List.map_append, List.map_singleton, ih, hseq, List.length_append, List.length_singleton,
        List.range'_1_concat, Nat.add_comm 1]

/-- `select(func.max(sequence))` is the length of the log. -/
theorem maxSequence (h : Chain log s) :
    log.foldl (fun n t => max n t.sequence) 0 = log.length := by
  induction h with
  | born hfrom hto hseq => simp only [List.foldl_cons, List.foldl_nil, hseq, List.length_singleton]; rfl
  | next h hfrom hto hlegal hseq ih =>
      rw [List.foldl_append, ih, List.foldl_cons, List.foldl_nil, hseq, List.length_append,
        List.length_singleton]
      exact Nat.max_eq_right (Nat.le_succ _)

/-- Neighbouring rows continue each other along legal edges. -/
theorem edges (h : Chain log s) : log.IsChain fun t u =>
    u.fromState = some t.toState ∧ isLegal t.toState u.toState = true := by
  induction h with
  | born => exact List.isChain_singleton _
  | next h hfrom hto hlegal hseq ih =>
      obtain ⟨t, ht, hs⟩ := h.getLast?
      refine List.isChain_append.2 ⟨ih, List.isChain_singleton _, ?_⟩
      intro t' ht' u hu
      rw [ht] at ht'
      cases ht'
      cases hu
      rw [hs, hto]
      exact ⟨hfrom, hlegal⟩

/-- The first row enters `REQUESTED` from no state. -/
theorem head (h : Chain log s) :
    ∃ t rest, log = t :: rest ∧ t.fromState = none ∧ t.toState = .requested := by
  induction h with
  | born hfrom hto => exact ⟨_, [], rfl, hfrom, hto⟩
  | next h hfrom hto hlegal hseq ih =>
      obtain ⟨t, rest, rfl, hnone, hreq⟩ := ih
      exact ⟨t, rest ++ [_], rfl, hnone, hreq⟩

/-- A log that is still in `REQUESTED` has one row. -/
theorem of_requested (h : Chain log .requested) : log.length = 1 := by
  cases h with
  | born => rfl
  | @next l s₁ _ t h hfrom hto hlegal hseq =>
      have := rank_lt_of_isLegal hlegal
      exact absurd this (Nat.not_lt_zero _)

/-- Before its last approval a log has no `APPROVED` row. -/
theorem not_approved (h : Chain log s) (hs : rank s < rank .approved) :
    ∀ t ∈ log, t.toState ≠ .approved := by
  intro t ht happ
  have hle := h.rank_le t ht
  rw [happ] at hle
  exact absurd hle (Nat.not_le_of_lt hs)

end Chain

/-! ## Messages -/

/-- The message announces the transition of the revision `k`. -/
structure Announces (k : RevisionKey) (t : StateTransition) (m : OutboxMessage) : Prop where
  names : Names k m.payload
  topic : m.topic ∈ lifecycleTopics
  created : m.topic = "intent.created" ↔ t.fromState = none
  target : t.fromState ≠ none → m.payload.get? "to_state" = some (.str t.toState.value)

/-- The state, the version and the messages of a revision agree with its log. -/
structure Core (k : RevisionKey) (a : ActionIntent) (r : Revision) : Prop where
  intent : r.intent = some a
  key : a.key = k
  chain : Chain r.log a.state
  version : a.stateVersion = r.log.length
  announced : List.Forall₂ (Announces k) r.log r.messages
  ordered : r.messages.Pairwise fun m m' => m.sequence < m'.sequence

/-- The revision after the move of the intent `a` to `target`. -/
def Revision.move (r : Revision) (a : ActionIntent) (target : IntentState) (t : StateTransition)
    (m : OutboxMessage) : Revision :=
  { r with
    intent := some (moved a target)
    log := r.log ++ [t]
    messages := r.messages ++ [m] }

namespace Core

variable {k : RevisionKey} {a : ActionIntent} {r : Revision}

theorem ordered_append {messages : List OutboxMessage} {m : OutboxMessage}
    (h : messages.Pairwise fun m m' => m.sequence < m'.sequence)
    (hm : ∀ m' ∈ messages, m'.sequence < m.sequence) :
    (messages ++ [m]).Pairwise fun m m' => m.sequence < m'.sequence :=
  List.pairwise_append.2 ⟨h, List.pairwise_singleton _ _, fun m' hm' m'' hm'' => by
    rw [List.mem_singleton] at hm''
    rw [hm'']
    exact hm m' hm'⟩

theorem announced_append {log : List StateTransition} {messages : List OutboxMessage}
    {t : StateTransition} {m : OutboxMessage} (h : List.Forall₂ (Announces k) log messages)
    (hm : Announces k t m) : List.Forall₂ (Announces k) (log ++ [t]) (messages ++ [m]) :=
  List.rel_append h (.cons hm .nil)

/-- One more row and its message. -/
theorem move (h : Core k a r) {target : IntentState} {t : StateTransition} {m : OutboxMessage}
    (hlegal : isLegal a.state target = true) (hfrom : t.fromState = some a.state)
    (hto : t.toState = target) (hseq : t.sequence = r.log.length + 1) (hm : Announces k t m)
    (hn : ∀ m' ∈ r.messages, m'.sequence < m.sequence) :
    Core k (moved a target) (r.move a target t m) where
  intent := rfl
  key := h.key
  chain := .next h.chain hfrom hto hlegal hseq
  version := by
    show a.stateVersion + 1 = (r.log ++ [t]).length
    rw [h.version, List.length_append, List.length_singleton]
  announced := announced_append h.announced hm
  ordered := ordered_append h.ordered hn

/-- The log, the messages and three columns of the intent are all that `Core` looks at. -/
theorem of_eq (h : Core k a r) {a' : ActionIntent} {r' : Revision} (hi : r'.intent = some a')
    (hkey : a'.key = a.key) (hstate : a'.state = a.state)
    (hversion : a'.stateVersion = a.stateVersion) (hlog : r'.log = r.log)
    (hmessages : r'.messages = r.messages) : Core k a' r' where
  intent := hi
  key := hkey.trans h.key
  chain := by rw [hlog, hstate]; exact h.chain
  version := by rw [hlog, hversion]; exact h.version
  announced := by rw [hlog, hmessages]; exact h.announced
  ordered := by rw [hmessages]; exact h.ordered

end Core

/-! ## Evidence -/

/-- The stored decision `d` is an approval at `level` that the policy asks for. -/
structure Granted (expires : Option Time) (p : PolicyEvaluation) (level : Nat)
    (d : ApprovalDecisionRow) : Prop where
  approve : d.decision = .approve
  level_eq : d.level = level
  role : p.requiredRoles ≠ [] → ∃ role, requiredRoleForLevel p.route level p.requiredRoles =
    some role ∧ role ∈ d.actorRolesSnapshot
  scopes : ∀ scope ∈ p.requiredScopes,
    scope ∈ d.scopeSnapshot.scopes ∧ scope ∈ d.scopeSnapshot.tokenScopes
  obligations : ∀ name ∈ p.obligations, acknowledged d.scopeSnapshot.obligations name = true
  inTime : ∀ t, expires = some t → d.decidedAt < t

/-- The decisions that complete the approval of an intent under the policy `p`. -/
def Approved (expires : Option Time) (p : PolicyEvaluation)
    (decisions : List ApprovalDecisionRow) : Prop :=
  if p.route = .criticalTwoStep then
    ∃ d₁ d₂, decisions = [d₁, d₂] ∧ Granted expires p 1 d₁ ∧ Granted expires p 2 d₂ ∧
      d₁.actorId ≠ d₂.actorId
  else ∃ d, decisions = [d] ∧ Granted expires p 1 d

/-- The first of two approvals is given. -/
def HalfApproved (expires : Option Time) (p : PolicyEvaluation)
    (decisions : List ApprovalDecisionRow) : Prop :=
  p.route = .criticalTwoStep ∧ ∃ d, decisions = [d] ∧ Granted expires p 1 d

/-- A log behind the policy evaluation has one stored policy, and went where it routes to. -/
def Routed (r : Revision) : Prop :=
  (∃ t ∈ r.log, t.toState = .policyEvaluated) → ∃ row, r.policies = [row] ∧
    ∃ t ∈ r.log, t.fromState = some .policyEvaluated ∧
      t.toState = routeStateByDisposition row.evaluation.disposition

theorem Routed.append {r r' : Revision} (h : Routed r) {ts : List StateTransition}
    (hlog : r'.log = r.log ++ ts) (hpolicies : r'.policies = r.policies)
    (hts : ∀ t ∈ ts, t.toState ≠ .policyEvaluated) : Routed r' := by
  rintro ⟨t, ht, hstate⟩
  rw [hlog] at ht
  rcases List.mem_append.1 ht with ht | ht
  · obtain ⟨row, hrow, u, hu, hroute⟩ := h ⟨t, ht, hstate⟩
    refine ⟨row, hpolicies.trans hrow, u, ?_, hroute⟩
    rw [hlog]
    exact List.mem_append_left _ hu
  · exact absurd hstate (hts t ht)

/-- What the stored policy and the stored decisions are worth in the state of the intent. -/
structure Evidence (P : PolicyEvaluation → Prop) (a : ActionIntent) (r : Revision) : Prop where
  digests : ∀ d ∈ r.decisions, d.intentDigest = a.intentDigest
  distinct : ∀ d ∈ r.decisions, d.decision = .approve → d.actorId ≠ a.requesterId
  policies : ∀ row ∈ r.policies, P row.evaluation
  window : ∀ row ∈ r.policies, row.evaluation.approvalTtlSeconds.isSome →
    a.approvalExpiresAt.isSome
  fresh : a.state = .requested → r.policies = [] ∧ r.decisions = []
  evaluated : a.state ≠ .requested → a.state ≠ .cancelled → ∃ row, r.policies = [row]
  asked : (a.state = .pendingApproval1 ∨ a.state = .pendingApproval2 ∨
    ∃ t ∈ r.log, t.toState = .approved) →
      ∀ row ∈ r.policies, row.evaluation.disposition = .requireApproval
  waiting : a.state = .pendingApproval1 → r.decisions = []
  halfway : a.state = .pendingApproval2 →
    ∃ row, r.policies = [row] ∧ HalfApproved a.approvalExpiresAt row.evaluation r.decisions
  approved : (∃ t ∈ r.log, t.toState = .approved) →
    ∃ row, r.policies = [row] ∧ Approved a.approvalExpiresAt row.evaluation r.decisions
  routed : Routed r

/-- The targets of the moves that add no decision and no policy. -/
def plainTargets : List IntentState :=
  [.cancelled, .expired, .revalidating, .executing, .stale, .succeeded, .failed,
    .executionUnknown]

theorem plain_not_waiting {target : IntentState} (h : target ∈ plainTargets) :
    target ≠ .requested ∧ target ≠ .pendingApproval1 ∧ target ≠ .pendingApproval2 ∧
      target ≠ .approved := by
  revert h
  cases target <;> decide

theorem plain_from {s target : IntentState} (h : target ∈ plainTargets)
    (hlegal : isLegal s target = true) (hc : target ≠ .cancelled) :
    s ≠ .requested ∧ s ≠ .cancelled := by
  revert h hlegal hc
  cases s <;> cases target <;> decide

namespace Evidence

variable {P : PolicyEvaluation → Prop} {a : ActionIntent} {r : Revision}

/-- A move that adds no decision keeps the evidence. -/
theorem move (h : Evidence P a r) {target : IntentState} {t : StateTransition}
    {m : OutboxMessage} (hplain : target ∈ plainTargets)
    (hlegal : isLegal a.state target = true) (hto : t.toState = target) :
    Evidence P (moved a target) (r.move a target t m) := by
  obtain ⟨hreq, hwait, hhalf, happ⟩ := plain_not_waiting hplain
  -- The new row does not enter APPROVED.
  have hlog : (∃ u ∈ r.log ++ [t], u.toState = .approved) → ∃ u ∈ r.log, u.toState = .approved := by
    rintro ⟨u, hu, hua⟩
    rcases List.mem_append.1 hu with hu | hu
    · exact ⟨u, hu, hua⟩
    · rw [List.mem_singleton] at hu
      subst hu
      exact absurd (hto.symm.trans hua) happ
  refine
    { digests := h.digests
      distinct := h.distinct
      policies := h.policies
      window := h.window
      fresh := fun hs => absurd hs hreq
      evaluated := fun _ hc => ?_
      asked := ?_
      waiting := fun hs => absurd hs hwait
      halfway := fun hs => absurd hs hhalf
      approved := fun hu => h.approved (hlog hu)
      routed := h.routed.append rfl rfl fun u hu => ?_ }
  · obtain ⟨hr, hcan⟩ := plain_from hplain hlegal hc
    exact h.evaluated hr hcan
  · rintro (hs | hs | hu)
    · exact absurd hs hwait
    · exact absurd hs hhalf
    · exact h.asked (Or.inr (Or.inr (hlog hu)))
  · rw [List.mem_singleton] at hu
    subst hu
    rw [hto]
    rintro rfl
    exact absurd hplain (by decide)

end Evidence

/-! ## The invariant -/

/-- A revision that exists. -/
structure Valid (P : PolicyEvaluation → Prop) (k : RevisionKey) (a : ActionIntent)
    (r : Revision) : Prop where
  core : Core k a r
  evidence : Evidence P a r

/-- The invariant of the row of the revision `k`. -/
def WellFormed (P : PolicyEvaluation → Prop) (k : RevisionKey) (r : Revision) : Prop :=
  match r.intent with
  | none => r = .empty
  | some a => Valid P k a r

theorem wellFormed_empty (P : PolicyEvaluation → Prop) (k : RevisionKey) :
    WellFormed P k .empty := rfl

theorem WellFormed.valid {P : PolicyEvaluation → Prop} {k : RevisionKey} {r : Revision}
    (h : WellFormed P k r) {a : ActionIntent} (ha : r.intent = some a) : Valid P k a r := by
  simp only [WellFormed, ha] at h
  exact h

theorem WellFormed.eq_empty {P : PolicyEvaluation → Prop} {k : RevisionKey} {r : Revision}
    (h : WellFormed P k r) (ha : r.intent = none) : r = .empty := by
  simp only [WellFormed, ha] at h
  exact h

theorem Valid.wellFormed {P : PolicyEvaluation → Prop} {k : RevisionKey} {a : ActionIntent}
    {r : Revision} (h : Valid P k a r) : WellFormed P k r := by
  simp only [WellFormed, h.core.intent]
  exact h

/-- The columns of an intent that no operation changes. -/
structure SameIdentity (a a' : ActionIntent) : Prop where
  key : a'.key = a.key
  tool : a'.tool = a.tool
  parameters : a'.canonicalParameters = a.canonicalParameters
  digest : a'.intentDigest = a.intentDigest
  requester : a'.requesterId = a.requesterId

theorem SameIdentity.refl (a : ActionIntent) : SameIdentity a a := ⟨rfl, rfl, rfl, rfl, rfl⟩

theorem SameIdentity.trans {a a' a'' : ActionIntent} (h : SameIdentity a a')
    (h' : SameIdentity a' a'') : SameIdentity a a'' :=
  ⟨h'.key.trans h.key, h'.tool.trans h.tool, h'.parameters.trans h.parameters,
    h'.digest.trans h.digest, h'.requester.trans h.requester⟩

theorem sameIdentity_patch (a : ActionIntent) (p : IntentPatch) : SameIdentity a (a.patch p) :=
  ⟨rfl, rfl, rfl, rfl, rfl⟩

theorem sameIdentity_moved (a : ActionIntent) (target : IntentState) :
    SameIdentity a (moved a target) := ⟨rfl, rfl, rfl, rfl, rfl⟩

/-- The order along which a committed revision moves. -/
structure Later (r r' : Revision) : Prop where
  identity : ∀ a, r.intent = some a → ∃ a', r'.intent = some a' ∧ SameIdentity a a'
  log : r.log <+: r'.log

theorem Later.refl (r : Revision) : Later r r :=
  ⟨fun a ha => ⟨a, ha, .refl a⟩, List.prefix_rfl⟩

theorem Later.trans {r r' r'' : Revision} (h : Later r r') (h' : Later r' r'') : Later r r'' := by
  refine ⟨fun a ha => ?_, h.log.trans h'.log⟩
  obtain ⟨a', ha', hs⟩ := h.identity a ha
  obtain ⟨a'', ha'', hs'⟩ := h'.identity a' ha'
  exact ⟨a'', ha'', hs.trans hs'⟩

/-- What the environment of a process keeps. -/
def rely (P : PolicyEvaluation → Prop) : Rely revisions where
  Inv := WellFormed P
  Le := Later
  le_refl := Later.refl
  le_trans := Later.trans

end HitlOps.Lifecycle
