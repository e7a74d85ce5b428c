import Mathlib.Data.List.Basic
import Mathlib.Data.List.Chain
import HitlOps.Python.JsonText
import HitlOps.Application.Revalidation

/-!
# What the revalidation compares

The comparison of policies is a preorder on the results of the evaluator: the TTL, which is skipped
where one side has none, is present exactly when approval is required. The operation key separates
the revisions, whatever text the tenant is.
-/

set_option autoImplicit false

namespace HitlOps.Properties

open HitlOps.Python HitlOps.Domain HitlOps.Infrastructure HitlOps.Adapters HitlOps.Application

/-! ## Policies -/

/-- A stored policy row with a result of the evaluator, for some inputs. -/
structure ResultRow (rt : Runtime) where
  row : PolicyEvaluationRow
  result : ∃ tool risk parameters bundle,
    evaluatePolicy rt tool risk parameters bundle = .ok row.evaluation

/-- The result in `current` is not stricter than the one that is read back from `original`. -/
def NotStricter {rt : Runtime} (original current : ResultRow rt) : Prop :=
  policyStricter current.row.evaluation original.row.evaluation = false

/-- The comparison of TTLs passes through a TTL that is present. -/
theorem ttlShorter_trans {a b c : Option Nat} (hb : a.isSome → c.isSome → b.isSome)
    (hab : ttlShorter b a = false) (hbc : ttlShorter c b = false) : ttlShorter c a = false := by
  cases a with
  | none => cases c <;> rfl
  | some original =>
      cases c with
      | none => rfl
      | some current =>
          obtain ⟨between, rfl⟩ := Option.isSome_iff_exists.1 (hb rfl rfl)
          have hle : original ≤ between := Nat.le_of_not_lt (of_decide_eq_false hab)
          have hge : between ≤ current := Nat.le_of_not_lt (of_decide_eq_false hbc)
          exact decide_eq_false (by omega)

/-- The evaluator gives a TTL exactly where it asks for approval. -/
theorem ttl_isSome_iff {rt : Runtime} {tool : ToolName} {risk : RiskEvaluation} {parameters : Dict}
    {bundle : PolicyBundle} {p : PolicyEvaluation}
    (h : evaluatePolicy rt tool risk parameters bundle = .ok p) :
    p.approvalTtlSeconds.isSome ↔ p.disposition = .requireApproval := by
  have ht := treatment_of_evaluate h
  constructor
  · intro hsome
    cases hd : p.disposition with
    | requireApproval => rfl
    | allow =>
        rw [(ht.allow hd).2.1] at hsome
        cases hsome
    | block =>
        rw [(ht.block hd).2] at hsome
        cases hsome
  · exact (soundPolicy_of_evaluate h).ttl

/-- A disposition between two approvals asks for approval. -/
theorem approval_between {a b c : PolicyDisposition} (ha : a = .requireApproval)
    (hc : c = .requireApproval) (hab : strictness b ≤ strictness a)
    (hbc : strictness c ≤ strictness b) : b = .requireApproval := by
  subst ha hc
  revert hab hbc
  cases b with
  | requireApproval => exact fun _ _ => rfl
  | allow => exact fun _ h => absurd h (by decide)
  | block => exact fun h _ => absurd h (by decide)

theorem NotStricter.refl {rt : Runtime} (p : ResultRow rt) : NotStricter p p :=
  policyStricter_self _

theorem NotStricter.trans {rt : Runtime} {p q r : ResultRow rt} (hpq : NotStricter p q)
    (hqr : NotStricter q r) : NotStricter p r := by
  obtain ⟨_, _, _, _, hp⟩ := p.result
  obtain ⟨_, _, _, _, hq⟩ := q.result
  obtain ⟨_, _, _, _, hr⟩ := r.result
  obtain ⟨hd, hroute, hroles, hscopes, hobl, httl⟩ := policyStricter_eq_false.1 hpq
  obtain ⟨hd', hroute', hroles', hscopes', hobl', httl'⟩ := policyStricter_eq_false.1 hqr
  -- With a TTL on both ends, both ask for approval, and so does the policy between them.
  have hbetween : p.row.evaluation.approvalTtlSeconds.isSome →
      r.row.evaluation.approvalTtlSeconds.isSome →
      q.row.evaluation.approvalTtlSeconds.isSome := by
    intro hsp hsr
    exact (ttl_isSome_iff hq).2
      (approval_between ((ttl_isSome_iff hp).1 hsp) ((ttl_isSome_iff hr).1 hsr) hd hd')
  exact policyStricter_eq_false.2 ⟨Nat.le_trans hd' hd, Nat.le_trans hroute' hroute,
    List.Subset.trans hroles' hroles, List.Subset.trans hscopes' hscopes,
    List.Subset.trans hobl' hobl, ttlShorter_trans hbetween httl httl'⟩

/-- Along a chain of versions, the last is not stricter than the first. -/
theorem NotStricter.chain {rt : Runtime} {versions : List (ResultRow rt)} :
    ∀ {p : ResultRow rt}, (p :: versions).IsChain NotStricter → ∀ q ∈ p :: versions,
      NotStricter p q := by
  induction versions with
  | nil =>
      intro p _ q hq
      rw [List.mem_singleton.1 hq]
      exact NotStricter.refl p
  | cons next rest ih =>
      intro p hchain q hq
      obtain ⟨hnext, hrest⟩ := List.isChain_cons_cons.1 hchain
      rcases List.mem_cons.1 hq with rfl | hq
      · exact NotStricter.refl q
      · exact hnext.trans (ih hrest q hq)

/-- Under the bundle of the stored evaluation, an approval is staled by the live target only. -/
theorem target_of_stale {rt : Runtime} {intent : ActionIntent} {stored : PolicyEvaluation}
    {bundle : PolicyBundle} {snapshot : TargetSnapshot} {execution : Execution}
    {state : IntentState} {reason : String}
    (hstored : evaluatePolicy rt intent.tool
      (evaluateRisk intent.tool intent.canonicalParameters {}) intent.canonicalParameters bundle =
        .ok stored)
    (hopen : stored.disposition ≠ .block)
    (hfailed : policyAndTarget rt intent stored bundle snapshot execution =
      .ok (.failed state reason)) :
    checkPreconditions intent.canonicalParameters snapshot = some reason := by
  have hsame : ¬ (policyStricter stored stored = true ∧ stored.disposition ≠ .allow) := by
    rw [policyStricter_self]
    rintro ⟨h, -⟩
    cases h
  simp only [policyAndTarget, hstored, bind, Except.bind, if_neg hopen, if_neg hsame] at hfailed
  cases hcheck : checkPreconditions intent.canonicalParameters snapshot with
  | none =>
      rw [hcheck] at hfailed
      cases hfailed
  | some found =>
      rw [hcheck] at hfailed
      cases hfailed
      rfl

/-- On the results of the evaluator, `policy_stricter` is the complement of a preorder, and the
bundle of the stored evaluation stales no approval. -/
theorem comparison_is_preorder (rt : Runtime) :
    (∀ p : ResultRow rt, NotStricter p p) ∧
      (∀ p q r : ResultRow rt, NotStricter p q → NotStricter q r → NotStricter p r) ∧
      (∀ (first : ResultRow rt) (versions : List (ResultRow rt)),
        (first :: versions).IsChain NotStricter →
          NotStricter first ((first :: versions).getLast (List.cons_ne_nil _ _))) ∧
      ∀ (intent : ActionIntent) (stored : PolicyEvaluation) (bundle : PolicyBundle),
        evaluatePolicy rt intent.tool (evaluateRisk intent.tool intent.canonicalParameters {})
            intent.canonicalParameters bundle = .ok stored →
          stored.disposition ≠ .block →
          ∀ (snapshot : TargetSnapshot) (execution : Execution) (state : IntentState)
            (reason : String),
            policyAndTarget rt intent stored bundle snapshot execution =
                .ok (.failed state reason) →
              checkPreconditions intent.canonicalParameters snapshot = some reason := by
  refine ⟨NotStricter.refl, fun _ _ _ => NotStricter.trans, ?_, ?_⟩
  · intro first versions hchain
    exact NotStricter.chain hchain _ (List.getLast_mem _)
  · intro intent stored bundle hstored hopen snapshot execution state reason hfailed
    exact target_of_stale hstored hopen hfailed

/-! ## Operation keys -/

/-- The digits of a revision hold no separator. -/
theorem colon_not_mem_natText (n : Nat) : ':' ∉ (Nat.repr n).toList := by
  intro hmem
  exact absurd (isDigit_of_mem_natText hmem) (by decide)

/-- The text of a UUID has 36 characters. -/
theorem length_uuidText (id : UUID) : id.text.toList.length = 36 := by
  have h := id.canonical
  unfold isUuidText at h
  rw [Bool.and_eq_true] at h
  exact of_decide_eq_true h.1

/-- A text is split at its last separator in one way. -/
theorem split_at_last {α : Type} {sep : α} {x x' z z' : List α} (hz : sep ∉ z) (hz' : sep ∉ z')
    (h : x ++ sep :: z = x' ++ sep :: z') : x = x' ∧ z = z' := by
  rcases List.append_eq_append_iff.1 h with ⟨middle, hx, hrest⟩ | ⟨middle, hx, hrest⟩
  · cases middle with
    | nil =>
        rw [List.nil_append] at hrest
        cases hrest
        exact ⟨by simpa using hx.symm, rfl⟩
    | cons c middle =>
        -- The second separator would lie inside the first suffix.
        rw [List.cons_append] at hrest
        cases hrest
        exact absurd (List.mem_append_right _ List.mem_cons_self) hz
  · cases middle with
    | nil =>
        rw [List.nil_append] at hrest
        cases hrest
        exact ⟨by simpa using hx, rfl⟩
    | cons c middle =>
        rw [List.cons_append] at hrest
        cases hrest
        exact absurd (List.mem_append_right _ List.mem_cons_self) hz'

/-- The characters of an operation key. -/
theorem operationKeyFor_toList (key : RevisionKey) : (operationKeyFor key).toList =
    (key.tenantId.toList ++ ':' :: key.intentId.text.toList) ++
      ':' :: (Nat.repr key.revision).toList := by
  simp [operationKeyFor]

theorem operation_keys_differ {key key' : RevisionKey} :
    operationKeyFor key = operationKeyFor key' ↔ key = key' := by
  constructor
  · intro h
    have htext := congrArg String.toList h
    rw [operationKeyFor_toList, operationKeyFor_toList] at htext
    -- The digits end at the last colon, and the UUID before them has a fixed length.
    obtain ⟨hfront, hdigits⟩ :=
      split_at_last (colon_not_mem_natText _) (colon_not_mem_natText _) htext
    have hlength : (':' :: key.intentId.text.toList).length =
        (':' :: key'.intentId.text.toList).length := by
      rw [List.length_cons, List.length_cons, length_uuidText, length_uuidText]
    obtain ⟨htenant, hid⟩ := List.append_inj' hfront hlength
    have hrevision := natText_injective (String.toList_injective hdigits)
    have hintent := UUID.ext_text (String.toList_injective (List.tail_eq_of_cons_eq hid))
    cases key
    cases key'
    cases String.toList_injective htenant
    cases hintent
    cases hrevision
    rfl
  · rintro rfl
    rfl

end HitlOps.Properties
