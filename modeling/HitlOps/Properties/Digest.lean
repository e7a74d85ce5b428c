import HitlOps.Python.JsonText
import HitlOps.Api.Routes
import HitlOps.Application.Revalidation
import HitlOps.Scenario

/-!
# The digest of a stored intent

Creation hashes the normalized envelope and stores the texts as they came; revalidation hashes the
stored texts. The two digests agree exactly when the tenant and the requester are in the normal
form.
-/

set_option autoImplicit false

namespace HitlOps.Properties

open HitlOps.Python HitlOps.Domain HitlOps.Infrastructure HitlOps.Application

/-! ## Texts that normalization keeps -/

/-- Only ASCII characters. -/
def IsAscii (s : String) : Prop := ∀ c ∈ s.toList, c.toNat < 128

instance (s : String) : Decidable (IsAscii s) :=
  decidable_of_iff (s.toList.all (·.toNat < 128) = true) (by
    rw [List.all_eq_true]
    exact forall₂_congr fun c _ => decide_eq_true_iff)

theorem isLowerAlnum_lt {c : Char} (h : isLowerAlnum c = true) : c.toNat < 128 := by
  unfold isLowerAlnum at h
  rw [Bool.or_eq_true, Bool.and_eq_true, Bool.and_eq_true, decide_eq_true_eq, decide_eq_true_eq,
    decide_eq_true_eq, decide_eq_true_eq] at h
  have hle : ∀ d : Char, c ≤ d → c.toNat ≤ d.toNat := fun d hd => hd
  rcases h with ⟨-, hz⟩ | ⟨-, h9⟩
  · exact Nat.lt_of_le_of_lt (hle 'z' hz) (by decide)
  · exact Nat.lt_of_le_of_lt (hle '9' h9) (by decide)

theorem isAscii_name (name : BoundedName) : IsAscii name.text := by
  obtain ⟨text, h⟩ := name
  intro c hc
  show c.toNat < 128
  unfold isBoundedName at h
  have hmem : c ∈ text.toList := hc
  split at h
  · next heq =>
      rw [heq] at hmem
      cases hmem
  · next d ds heq =>
      rw [heq] at hmem
      rw [Bool.and_eq_true, Bool.and_eq_true, List.all_eq_true] at h
      obtain ⟨⟨hd, hds⟩, -⟩ := h
      rcases List.mem_cons.1 hmem with rfl | hmem
      · exact isLowerAlnum_lt hd
      · have hc' := hds c hmem
        rw [Bool.or_eq_true, decide_eq_true_eq] at hc'
        rcases hc' with hc' | rfl
        · exact isLowerAlnum_lt hc'
        · decide

theorem isAscii_field (field : BoundedField) : IsAscii field.text := by
  obtain ⟨text, h⟩ := field
  intro c hc
  show c.toNat < 128
  unfold isBoundedField at h
  rw [Bool.and_eq_true, Bool.and_eq_true, List.all_eq_true] at h
  have hc' := h.1.1 c hc
  rw [Bool.or_eq_true, Bool.or_eq_true, decide_eq_true_eq, decide_eq_true_eq] at hc'
  rcases hc' with (hc' | rfl) | rfl
  · exact isLowerAlnum_lt hc'
  · decide
  · decide

section Normal

variable {rt : Runtime} (hascii : ∀ s, IsAscii s → rt.nfc s = s)

include hascii in
theorem normalize_str {s : String} (h : IsAscii s) : Domain.normalize rt (.str s) = .str s := by
  rw [Domain.normalize, hascii s h]

include hascii in
/-- Validated parameters hold ASCII texts only. -/
theorem normalize_modelDump (parameters : ToolParameters) :
    normalizeFields rt parameters.modelDump = parameters.modelDump := by
  have henv : ∀ e : EnvironmentName, IsAscii e.value := by rintro (_ | _) <;> decide
  have hstrategy : ∀ e : RestartStrategy, IsAscii e.value := by rintro (_ | _) <;> decide
  have htype : ∀ e : ResourceType, IsAscii e.value := by rintro (_ | _ | _) <;> decide
  have hregion : ∀ e : RegionName, IsAscii e.value := by rintro (_ | _ | _ | _) <;> decide
  have hsize : ∀ e : ResourceSize, IsAscii e.value := by rintro (_ | _ | _) <;> decide
  have hcost : ∀ e : CostClass, IsAscii e.value := by rintro (_ | _ | _) <;> decide
  have hmode : ∀ e : DeletionMode, IsAscii e.value := by rintro (_ | _) <;> decide
  have hitems : ∀ fields : List BoundedField,
      normalizeItems rt (fields.map fun f => .str f.text) = fields.map fun f => .str f.text := by
    intro fields
    induction fields with
    | nil => rfl
    | cons f rest ih =>
        rw [List.map_cons, normalizeItems, ih, normalize_str hascii (isAscii_field f)]
  cases parameters with
  | inspectService environment service requestedFields =>
      simp only [ToolParameters.modelDump, normalizeFields, Domain.normalize, hascii _ (henv _),
        hascii _ (isAscii_name _), hitems]
  | restartService environment service strategy =>
      simp only [ToolParameters.modelDump, normalizeFields, Domain.normalize, hascii _ (henv _),
        hascii _ (isAscii_name _), hascii _ (hstrategy _)]
  | scaleService environment service replicas =>
      simp only [ToolParameters.modelDump, normalizeFields, Domain.normalize, hascii _ (henv _),
        hascii _ (isAscii_name _)]
  | provisionResource environment resourceType name region size costClass =>
      simp only [ToolParameters.modelDump, normalizeFields, Domain.normalize, hascii _ (henv _),
        hascii _ (isAscii_name _), hascii _ (htype _),
        hascii _ (hregion _), hascii _ (hsize _),
        hascii _ (hcost _)]
  | deleteResource environment resourceType resourceId deletionMode =>
      simp only [ToolParameters.modelDump, normalizeFields, Domain.normalize, hascii _ (henv _),
        hascii _ (isAscii_name _), hascii _ (htype _),
        hascii _ (hmode _)]

include hascii in
/-- Normalization changes the tenant and the requester only. -/
theorem normalize_envelope (tenantId requesterId : String) (revision : Nat)
    (parameters : ToolParameters) :
    Domain.normalize rt (digestEnvelope parameters.tool tenantId requesterId revision
        parameters.modelDump) =
      digestEnvelope parameters.tool (rt.nfc tenantId) (rt.nfc requesterId) revision
        parameters.modelDump := by
  have htool : ∀ t : ToolName, IsAscii t.value := by
    rintro (_ | _ | _ | _ | _) <;> decide
  have hversion : IsAscii digestVersion := by decide
  simp only [digestEnvelope, Domain.normalize, normalizeFields, hascii _ hversion, hascii _ (htool _),
    normalize_modelDump hascii]

end Normal

/-! ## Envelopes -/

theorem isValue_modelDump (parameters : ToolParameters) :
    Json.isValueFields parameters.modelDump = true := by
  cases parameters with
  | inspectService environment service requestedFields =>
      have hitems : ∀ fields : List BoundedField,
          Json.isValueItems (fields.map fun f => .str f.text) = true := by
        intro fields
        induction fields with
        | nil => rfl
        | cons f rest ih => exact ih
      simp only [ToolParameters.modelDump, Json.isValueFields, Json.isValue, hitems, Bool.and_self]
  | _ => rfl

theorem isValue_envelope (tenantId requesterId : String) (revision : Nat)
    (parameters : ToolParameters) :
    (digestEnvelope parameters.tool tenantId requesterId revision
      parameters.modelDump).isValue = true := by
  simp only [digestEnvelope, Json.isValue, Json.isValueFields, isValue_modelDump, Bool.and_self]

/-- The text of an envelope determines the tenant and the requester. -/
theorem envelope_injective {t r t' r' : String} {revision : Nat} {parameters : ToolParameters}
    (h : (digestEnvelope parameters.tool t r revision parameters.modelDump).dumps
        canonicalOptions =
      (digestEnvelope parameters.tool t' r' revision parameters.modelDump).dumps
        canonicalOptions) : t = t' ∧ r = r' := by
  have hcanonical := Json.dumps_injective (isValue_envelope _ _ _ _) (isValue_envelope _ _ _ _) h
  simp only [digestEnvelope, Json.canonical, Json.dict.injEq] at hcanonical
  constructor
  · obtain ⟨w, hw, heq⟩ := Json.exists_member hcanonical (k := "tenant_id") (v := .str t)
      (by simp only [List.mem_cons, true_or, or_true])
    simp only [List.mem_cons, Prod.mk.injEq, String.reduceEq, false_and, true_and, false_or,
      or_false, List.not_mem_nil] at hw
    subst hw
    exact Json.str.inj heq
  · obtain ⟨w, hw, heq⟩ := Json.exists_member hcanonical (k := "requester_id") (v := .str r)
      (by simp only [List.mem_cons, true_or, or_true])
    simp only [List.mem_cons, Prod.mk.injEq, String.reduceEq, false_and, true_and, false_or,
      or_false, List.not_mem_nil] at hw
    subst hw
    exact Json.str.inj heq

/-! ## The digest gate -/

/-- The row that creation stores for a canonical intent. -/
def storedRow (rt : Runtime) (canonical : CanonicalIntent) (intentId commandId : UUID)
    (tool : String) (parameters : Dict) (rationale : String) (source : IntentSource)
    (correlationId : String) : ActionIntent :=
  createdIntent rt { Api.createCommand canonical intentId commandId tool parameters rationale source
    correlationId with revision := canonical.revision }

/-- The digest of the stored row is the canonical one exactly for a normalized identity. -/
theorem digest_of_stored_row {rt : Runtime} (hascii : ∀ s, IsAscii s → rt.nfc s = s)
    (hhash : Function.Injective rt.sha256) (parameters : ToolParameters)
    (tenantId requesterId : String) (revision : Nat) (hrevision : 1 ≤ revision)
    (intentId commandId : UUID) (tool : String) (raw : Dict) (rationale : String)
    (source : IntentSource) (correlationId : String) :
    ∃ canonical, canonicalize rt parameters.tool tenantId requesterId revision parameters =
        .ok canonical ∧
      (recomputeDigest rt (storedRow rt canonical intentId commandId tool raw rationale source
          correlationId) = canonical.digest ↔
        rt.nfc tenantId = tenantId ∧ rt.nfc requesterId = requesterId) := by
  have hrev : ¬ revision < 1 := Nat.not_lt_of_le hrevision
  refine ⟨_, by rw [canonicalize, if_neg (fun h => h rfl), if_neg hrev], ?_⟩
  show rt.sha256 ((digestEnvelope parameters.tool tenantId requesterId revision
      parameters.modelDump).dumps canonicalOptions) =
    rt.sha256 (canonicalEnvelope rt parameters.tool tenantId requesterId revision
      parameters.modelDump) ↔ _
  rw [canonicalEnvelope, normalize_envelope hascii, hhash.eq_iff]
  constructor
  · intro h
    obtain ⟨ht, hr⟩ := envelope_injective h
    exact ⟨ht.symm, hr.symm⟩
  · rintro ⟨ht, hr⟩
    rw [ht, hr]

/-! ## One composed letter -/

/-- The composition of an `e` with the acute accent that follows it. -/
def composeAcute : List Char → List Char
  | 'e' :: c :: rest =>
      if c.toNat = 769 then Char.ofNat 233 :: composeAcute rest else 'e' :: composeAcute (c :: rest)
  | c :: rest => c :: composeAcute rest
  | [] => []

theorem composeAcute_ascii : ∀ l : List Char, (∀ c ∈ l, c.toNat < 128) → composeAcute l = l := by
  intro l
  induction l using composeAcute.induct with
  | case1 c rest hc ih =>
      intro h
      have := h c (List.mem_cons_of_mem _ List.mem_cons_self)
      omega
  | case2 c rest hc ih =>
      intro h
      rw [composeAcute, if_neg hc, ih fun d hd => h d (List.mem_cons_of_mem _ hd)]
  | case3 c rest hne ih =>
      intro h
      rw [composeAcute, ih fun d hd => h d (List.mem_cons_of_mem _ hd)]
      exact hne
  | case4 =>
      intro _
      rfl

/-- A runtime whose normalization composes that letter. -/
def composing : Runtime :=
  { Scenario.runtime with nfc := fun s => String.ofList (composeAcute s.toList) }

theorem composing_ascii (s : String) (h : IsAscii s) : composing.nfc s = s := by
  show String.ofList (composeAcute s.toList) = s
  rw [composeAcute_ascii _ h, String.ofList_toList]

/-- A restart in staging. -/
def restart : ToolParameters := .restartService .staging ⟨"api", by decide⟩ .rolling

/-- The row of a requester in the tenant `acme`. -/
def restartRow (canonical : CanonicalIntent) : ActionIntent :=
  storedRow composing canonical Scenario.intentId Scenario.freshId "restart_service"
    restart.modelDump "" .direct ""

theorem digest_of_stored_row_ascii :
    ∃ canonical, canonicalize composing restart.tool "acme" "rene" 1 restart = .ok canonical ∧
      recomputeDigest composing (restartRow canonical) = canonical.digest := by
  obtain ⟨canonical, hok, hiff⟩ := digest_of_stored_row composing_ascii Function.injective_id restart
    "acme" "rene" 1 (by decide) Scenario.intentId Scenario.freshId "restart_service"
    restart.modelDump "" .direct ""
  exact ⟨canonical, hok, hiff.2 ⟨composing_ascii _ (by decide), composing_ascii _ (by decide)⟩⟩

/-- A requester with a decomposed letter: the untouched row fails the digest gate. -/
theorem digest_of_decomposed_requester :
    ¬ ∀ canonical, canonicalize composing restart.tool "acme"
        (String.ofList ['r', 'e', 'n', 'e', Char.ofNat 769]) 1 restart = .ok canonical →
      recomputeDigest composing (restartRow canonical) = canonical.digest := by
  intro h
  have hdigest := h _ rfl
  revert hdigest
  decide +kernel

end HitlOps.Properties
