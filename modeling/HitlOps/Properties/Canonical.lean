import HitlOps.Properties.Digest

/-!
# What the canonical text binds

The canonical text of an intent determines its tool, its revision and every parameter, and the
tenant and the requester up to normalization.
-/

set_option autoImplicit false

namespace HitlOps.Properties

open HitlOps.Python HitlOps.Domain

/-- Two objects with one canonical form agree on a key that the second one has once. -/
theorem member_eq {f g : List (String × Json)} (h : Json.canonicalFields f = Json.canonicalFields g)
    {k : String} {v w : Json} (hv : (k, v) ∈ f) (hw : ∀ w', (k, w') ∈ g → w' = w) :
    v.canonical = w.canonical := by
  obtain ⟨w', hmem, heq⟩ := Json.exists_member h hv
  rw [heq, hw w' hmem]

/-- So do the texts under a key. -/
theorem text_eq {f g : List (String × Json)} (h : Json.canonicalFields f = Json.canonicalFields g)
    (k : String) {a b : String} (ha : (k, .str a) ∈ f) (hb : ∀ w, (k, w) ∈ g → w = .str b) :
    a = b := Json.str.inj (member_eq h ha hb)

/-! ## Parameters -/

theorem requestedFields_injective {fields fields' : List BoundedField}
    (h : (Json.list (fields.map fun f => .str f.text)).canonical =
      (Json.list (fields'.map fun f => .str f.text)).canonical) : fields = fields' := by
  simp only [Json.canonical, Json.list.injEq, Json.canonicalItems_eq, List.map_map] at h
  refine List.map_injective_iff.2 (fun a b hab => ?_) h
  obtain ⟨text, _⟩ := a
  obtain ⟨text', _⟩ := b
  have htext : text = text' := Json.str.inj hab
  subst htext
  rfl

theorem BoundedName.text_injective {a b : BoundedName} (h : a.text = b.text) : a = b := by
  obtain ⟨text, _⟩ := a
  obtain ⟨text', _⟩ := b
  have htext : text = text' := h
  subst htext
  rfl

section Parameters

variable {parameters parameters' : ToolParameters}

/-- The dump of the parameters of a tool determines them. -/
theorem modelDump_injective (htool : parameters.tool = parameters'.tool)
    (h : Json.canonicalFields parameters.modelDump = Json.canonicalFields parameters'.modelDump) :
    parameters = parameters' := by
  -- The members of the two dumps under one name agree, and each value determines its argument.
  cases parameters with
  | inspectService e s r =>
      cases parameters' with
      | inspectService e' s' r' =>
          have henv := text_eq h "environment" (a := e.value) (b := e'.value)
            (by simp [ToolParameters.modelDump]) (by simp [ToolParameters.modelDump])
          have hservice := text_eq h "service" (a := s.text) (b := s'.text)
            (by simp [ToolParameters.modelDump]) (by simp [ToolParameters.modelDump])
          have hfields := member_eq h (k := "requested_fields")
            (v := .list (r.val.map fun f => .str f.text))
            (w := .list (r'.val.map fun f => .str f.text))
            (by simp [ToolParameters.modelDump]) (by simp [ToolParameters.modelDump])
          rw [EnvironmentName.value_injective henv, BoundedName.text_injective hservice,
            Subtype.ext (requestedFields_injective hfields)]
      | _ => cases htool
  | restartService e s r =>
      cases parameters' with
      | restartService e' s' r' =>
          have henv := text_eq h "environment" (a := e.value) (b := e'.value)
            (by simp [ToolParameters.modelDump]) (by simp [ToolParameters.modelDump])
          have hservice := text_eq h "service" (a := s.text) (b := s'.text)
            (by simp [ToolParameters.modelDump]) (by simp [ToolParameters.modelDump])
          have hstrategy := text_eq h "strategy" (a := r.value) (b := r'.value)
            (by simp [ToolParameters.modelDump]) (by simp [ToolParameters.modelDump])
          rw [EnvironmentName.value_injective henv, BoundedName.text_injective hservice,
            RestartStrategy.value_injective hstrategy]
      | _ => cases htool
  | scaleService e s n =>
      cases parameters' with
      | scaleService e' s' n' =>
          have henv := text_eq h "environment" (a := e.value) (b := e'.value)
            (by simp [ToolParameters.modelDump]) (by simp [ToolParameters.modelDump])
          have hservice := text_eq h "service" (a := s.text) (b := s'.text)
            (by simp [ToolParameters.modelDump]) (by simp [ToolParameters.modelDump])
          have hreplicas := Json.int.inj (member_eq h (k := "replicas") (v := .int n.val)
            (w := .int n'.val) (by simp [ToolParameters.modelDump])
            (by simp [ToolParameters.modelDump]))
          rw [EnvironmentName.value_injective henv, BoundedName.text_injective hservice,
            Fin.ext (Int.ofNat.inj hreplicas)]
      | _ => cases htool
  | provisionResource e t n r z c =>
      cases parameters' with
      | provisionResource e' t' n' r' z' c' =>
          have henv := text_eq h "environment" (a := e.value) (b := e'.value)
            (by simp [ToolParameters.modelDump]) (by simp [ToolParameters.modelDump])
          have htype := text_eq h "resource_type" (a := t.value) (b := t'.value)
            (by simp [ToolParameters.modelDump]) (by simp [ToolParameters.modelDump])
          have hname := text_eq h "name" (a := n.text) (b := n'.text)
            (by simp [ToolParameters.modelDump]) (by simp [ToolParameters.modelDump])
          have hregion := text_eq h "region" (a := r.value) (b := r'.value)
            (by simp [ToolParameters.modelDump]) (by simp [ToolParameters.modelDump])
          have hsize := text_eq h "size" (a := z.value) (b := z'.value)
            (by simp [ToolParameters.modelDump]) (by simp [ToolParameters.modelDump])
          have hcost := text_eq h "cost_class" (a := c.value) (b := c'.value)
            (by simp [ToolParameters.modelDump]) (by simp [ToolParameters.modelDump])
          rw [EnvironmentName.value_injective henv, ResourceType.value_injective htype,
            BoundedName.text_injective hname, RegionName.value_injective hregion,
            ResourceSize.value_injective hsize, CostClass.value_injective hcost]
      | _ => cases htool
  | deleteResource e t n m =>
      cases parameters' with
      | deleteResource e' t' n' m' =>
          have henv := text_eq h "environment" (a := e.value) (b := e'.value)
            (by simp [ToolParameters.modelDump]) (by simp [ToolParameters.modelDump])
          have htype := text_eq h "resource_type" (a := t.value) (b := t'.value)
            (by simp [ToolParameters.modelDump]) (by simp [ToolParameters.modelDump])
          have hid := text_eq h "resource_id" (a := n.text) (b := n'.text)
            (by simp [ToolParameters.modelDump]) (by simp [ToolParameters.modelDump])
          have hmode := text_eq h "deletion_mode" (a := m.value) (b := m'.value)
            (by simp [ToolParameters.modelDump]) (by simp [ToolParameters.modelDump])
          rw [EnvironmentName.value_injective henv, ResourceType.value_injective htype,
            BoundedName.text_injective hid, DeletionMode.value_injective hmode]
      | _ => cases htool

end Parameters

/-! ## Envelopes -/

/-- What an intent is bound to. -/
structure SameIntent (rt : Runtime) (c c' : CanonicalIntent) (parameters parameters' : ToolParameters) :
    Prop where
  tool : c.tool = c'.tool
  revision : c.revision = c'.revision
  parameters : parameters = parameters'
  tenantId : rt.nfc c.tenantId = rt.nfc c'.tenantId
  requesterId : rt.nfc c.requesterId = rt.nfc c'.requesterId

/-- The canonical text of an intent is that of its normalized envelope. -/
theorem canonicalJson_of_canonicalize {rt : Runtime} (hascii : ∀ s, IsAscii s → rt.nfc s = s)
    {tool : ToolName} {tenantId requesterId : String} {revision : Nat} {parameters : ToolParameters}
    {c : CanonicalIntent}
    (h : canonicalize rt tool tenantId requesterId revision parameters = .ok c) :
    parameters.tool = c.tool ∧ c.canonicalJson =
      (digestEnvelope parameters.tool (rt.nfc c.tenantId) (rt.nfc c.requesterId) c.revision
        parameters.modelDump).dumps canonicalOptions := by
  unfold canonicalize at h
  split at h
  · cases h
  · next htool =>
      rw [ne_eq, Decidable.not_not] at htool
      subst htool
      split at h
      · cases h
      · cases h
        refine ⟨rfl, ?_⟩
        show canonicalEnvelope rt _ _ _ _ _ = _
        rw [canonicalEnvelope, normalize_envelope hascii]

/-- Two validated intents with one canonical text are the same intent. -/
theorem canonical_text_binds {rt : Runtime} (hascii : ∀ s, IsAscii s → rt.nfc s = s)
    {tool tool' : ToolName} {tenantId tenantId' requesterId requesterId' : String}
    {revision revision' : Nat} {parameters parameters' : ToolParameters} {c c' : CanonicalIntent}
    (h : canonicalize rt tool tenantId requesterId revision parameters = .ok c)
    (h' : canonicalize rt tool' tenantId' requesterId' revision' parameters' = .ok c')
    (htext : c.canonicalJson = c'.canonicalJson) : SameIntent rt c c' parameters parameters' := by
  obtain ⟨htool, hjson⟩ := canonicalJson_of_canonicalize hascii h
  obtain ⟨htool', hjson'⟩ := canonicalJson_of_canonicalize hascii h'
  rw [hjson, hjson'] at htext
  have hcanonical := Json.dumps_injective (isValue_envelope _ _ _ _) (isValue_envelope _ _ _ _) htext
  simp only [digestEnvelope, Json.canonical, Json.dict.injEq] at hcanonical
  have htools := ToolName.value_injective (text_eq hcanonical "tool" (a := parameters.tool.value)
    (b := parameters'.tool.value) (by simp) (by simp))
  have htenants := text_eq hcanonical "tenant_id" (a := rt.nfc c.tenantId)
    (b := rt.nfc c'.tenantId) (by simp) (by simp)
  have hrequesters := text_eq hcanonical "requester_id" (a := rt.nfc c.requesterId)
    (b := rt.nfc c'.requesterId) (by simp) (by simp)
  have hrevisions := Json.int.inj (member_eq hcanonical (k := "revision") (v := .int c.revision)
    (w := .int c'.revision) (by simp) (by simp))
  have hparameters := member_eq hcanonical (k := "parameters") (v := .dict parameters.modelDump)
    (w := .dict parameters'.modelDump) (by simp) (by simp)
  simp only [Json.canonical, Json.dict.injEq] at hparameters
  exact ⟨by rw [← htool, ← htool', htools], Int.ofNat.inj hrevisions,
    modelDump_injective htools hparameters, htenants, hrequesters⟩

/-- A requester in two spellings: the same intent, although the texts differ. -/
theorem canonical_text_binds_spellings : ∃ c c',
    canonicalize composing .restartService "acme"
        (String.ofList ['r', 'e', 'n', 'e', Char.ofNat 769]) 1 restart = .ok c ∧
      canonicalize composing .restartService "acme"
        (String.ofList ['r', 'e', 'n', Char.ofNat 233]) 1 restart = .ok c' ∧
      SameIntent composing c c' restart restart :=
  ⟨_, _, rfl, rfl, @canonical_text_binds composing composing_ascii .restartService .restartService
    "acme" "acme" (String.ofList ['r', 'e', 'n', 'e', Char.ofNat 769])
    (String.ofList ['r', 'e', 'n', Char.ofNat 233]) 1 1 restart restart _ _ rfl rfl
    (by decide +kernel)⟩

end HitlOps.Properties
