import HitlOps.Domain.Intent
import HitlOps.Python.JsonText
import HitlOps.Scenario
import Mathlib.Algebra.Ring.Nat

/-!
# Proposal evidence

What is stored of a proposal does not depend on the values under secret keys, in content or in size.
The size that counts is that of the redaction, which can be larger than the payload: short secrets are
replaced by a longer mark. The stored object is within the size limit, except for a value that is
wrapped after it was measured.
-/

set_option autoImplicit false

namespace HitlOps.Properties

open HitlOps.Python HitlOps.Domain

/-! ## Secrets -/

mutual

/-- Values that are identical but for what stands under secret keys. -/
inductive SameButSecrets (rt : Runtime) : Json → Json → Prop
  | same (v : Json) : SameButSecrets rt v v
  | list {items items' : List Json} : SameItems rt items items' →
      SameButSecrets rt (.list items) (.list items')
  | dict {fields fields' : List (String × Json)} : SameFields rt fields fields' →
      SameButSecrets rt (.dict fields) (.dict fields')

inductive SameItems (rt : Runtime) : List Json → List Json → Prop
  | nil : SameItems rt [] []
  | cons {v v' : Json} {items items' : List Json} : SameButSecrets rt v v' →
      SameItems rt items items' → SameItems rt (v :: items) (v' :: items')

inductive SameFields (rt : Runtime) : List (String × Json) → List (String × Json) → Prop
  | nil : SameFields rt [] []
  | secret {key : String} (v v' : Json) {fields fields' : List (String × Json)} :
      isSecretKey rt key = true → SameFields rt fields fields' →
        SameFields rt ((key, v) :: fields) ((key, v') :: fields')
  | kept (key : String) {v v' : Json} {fields fields' : List (String × Json)} :
      SameButSecrets rt v v' → SameFields rt fields fields' →
        SameFields rt ((key, v) :: fields) ((key, v') :: fields')

end

mutual

/-- Redaction makes values equal that differ in secrets only. -/
theorem redact_eq {rt : Runtime} {v v' : Json} : SameButSecrets rt v v' → redact rt v = redact rt v'
  | .same _ => rfl
  | .list h => by rw [redact, redact, redactItems_eq h]
  | .dict h => by rw [redact, redact, redactFields_eq h]

theorem redactItems_eq {rt : Runtime} {items items' : List Json} :
    SameItems rt items items' → redactItems rt items = redactItems rt items'
  | .nil => rfl
  | .cons hv hrest => by rw [redactItems, redactItems, redact_eq hv, redactItems_eq hrest]

theorem redactFields_eq {rt : Runtime} {fields fields' : List (String × Json)} :
    SameFields rt fields fields' → redactFields rt fields = redactFields rt fields'
  | .nil => rfl
  | .secret _ _ hsecret hrest => by
      rw [redactFields, redactFields, if_pos hsecret, if_pos hsecret, redactFields_eq hrest]
  | .kept _ hv hrest => by
      rw [redactFields, redactFields, redact_eq hv, redactFields_eq hrest]

end

mutual

/-- A value and its redaction differ in secrets only. -/
theorem same_redact (rt : Runtime) : ∀ v : Json, SameButSecrets rt v (redact rt v)
  | .list items => by
      rw [redact]
      exact .list (same_redactItems rt items)
  | .dict fields => by
      rw [redact]
      exact .dict (same_redactFields rt fields)
  | .null | .bool _ | .int _ | .float _ | .str _ | .other _ => by
      rw [redact]
      · exact .same _
      all_goals simp

theorem same_redactItems (rt : Runtime) : ∀ items : List Json,
    SameItems rt items (redactItems rt items)
  | [] => .nil
  | v :: rest => .cons (same_redact rt v) (same_redactItems rt rest)

theorem same_redactFields (rt : Runtime) : ∀ fields : List (String × Json),
    SameFields rt fields (redactFields rt fields)
  | [] => .nil
  | (key, v) :: rest => by
      rw [redactFields]
      by_cases hsecret : isSecretKey rt key = true
      · rw [if_pos hsecret]
        exact .secret _ _ hsecret (same_redactFields rt rest)
      · rw [if_neg hsecret]
        exact .kept key (same_redact rt v) (same_redactFields rt rest)

end

/-- The size that `sanitize_raw_proposal` compares with its limit. -/
def redactedSize (rt : Runtime) (payload : Json) : Nat :=
  ((redact rt payload).dumps ⟨false, false⟩).utf8ByteSize

/-- A value as the object that is stored. -/
def asObject : Json → Dict
  | .dict fields => fields
  | v => [("payload", v)]

/-- Within the limit, the stored object is the redaction. -/
theorem sanitize_of_le {rt : Runtime} {payload : Json}
    (h : redactedSize rt payload ≤ maxRawProposalBytes) :
    sanitizeRawProposal rt payload = asObject (redact rt payload) :=
  if_pos h

/-- Beyond the limit, the stored object is a preview with the size. -/
theorem sanitize_of_lt {rt : Runtime} {payload : Json}
    (h : maxRawProposalBytes < redactedSize rt payload) :
    sanitizeRawProposal rt payload =
      [("_truncated", .bool true), ("_original_bytes", .int (redactedSize rt payload)),
        ("_preview", .str (String.ofList
          (((redact rt payload).dumps ⟨false, false⟩).toList.take overflowPreviewBytes)))] :=
  if_neg (Nat.not_le_of_lt h)

/-- Payloads that differ in secrets only are stored alike; and a payload whose redaction is within the
limit keeps everything else. -/
theorem secrets_do_not_matter (rt : Runtime) (payload : Json) :
    (∀ payload', SameButSecrets rt payload payload' →
      sanitizeRawProposal rt payload = sanitizeRawProposal rt payload') ∧
    (redactedSize rt payload ≤ maxRawProposalBytes →
      ∃ kept, SameButSecrets rt payload kept ∧ sanitizeRawProposal rt payload = asObject kept) := by
  constructor
  · intro payload' hsame
    unfold sanitizeRawProposal
    rw [redact_eq hsame]
  · intro hsize
    exact ⟨redact rt payload, same_redact rt payload, sanitize_of_le hsize⟩

/-! ## Sizes -/

/-- The bytes of characters. -/
def bytesOf (l : List Char) : Nat := (l.map Char.utf8Size).sum

theorem bytesOf_append (l m : List Char) : bytesOf (l ++ m) = bytesOf l + bytesOf m := by
  unfold bytesOf
  rw [List.map_append, List.sum_append]

theorem byteSize_ofList (l : List Char) : (String.ofList l).utf8ByteSize = bytesOf l := by
  induction l with
  | nil => rfl
  | cons c rest ih =>
      rw [String.ofList_cons, String.utf8ByteSize_append, String.utf8ByteSize_singleton, ih]
      rfl

/-- A text of ASCII characters has as many bytes as characters. -/
theorem bytesOf_ascii {l : List Char} (h : ∀ c ∈ l, c.utf8Size = 1) : bytesOf l = l.length := by
  induction l with
  | nil => rfl
  | cons c rest ih =>
      have hrest := ih fun c' hmem => h c' (List.mem_cons_of_mem c hmem)
      show c.utf8Size + bytesOf rest = rest.length + 1
      rw [h c List.mem_cons_self, hrest]
      omega

theorem utf8Size_hexDigit (n : Nat) : (hexDigit (n % 16)).utf8Size = 1 := by
  have hall : ∀ i : Fin 16, (hexDigit i).utf8Size = 1 := by decide
  exact hall ⟨n % 16, Nat.mod_lt n (by decide)⟩

theorem bytesOf_hexText (width n : Nat) : bytesOf (hexText width n) = width := by
  induction width generalizing n with
  | zero => rfl
  | succ width ih =>
      rw [hexText, bytesOf_append, ih]
      show width + ((hexDigit (n % 16)).utf8Size + 0) = width + 1
      rw [utf8Size_hexDigit]

/-- An escaped character takes at most six bytes. -/
theorem bytesOf_escapeChar_le (c : Char) : bytesOf (escapeChar false c) ≤ 6 := by
  have hsize := c.utf8Size_le_four
  have hshort : ∀ d : Char, bytesOf ['\\', d] ≤ 6 := by
    intro d
    have hd := d.utf8Size_le_four
    show 1 + (d.utf8Size + 0) ≤ 6
    omega
  have hunicode : ∀ n : Nat, bytesOf (['\\', 'u'] ++ hexText 4 n) ≤ 6 := by
    intro n
    rw [bytesOf_append, bytesOf_hexText]
    decide
  have hplain : bytesOf [c] ≤ 6 := by
    show c.utf8Size + 0 ≤ 6
    omega
  unfold escapeChar
  rw [Bool.false_and, if_neg Bool.false_ne_true]
  split
  · exact hshort c
  split
  · exact hshort 'n'
  split
  · exact hshort 'r'
  split
  · exact hshort 't'
  split
  · exact hshort 'b'
  split
  · exact hshort 'f'
  split
  · exact hunicode c.toNat
  · exact hplain

theorem bytesOf_flatMap_escape_le (l : List Char) :
    bytesOf (l.flatMap (escapeChar false)) ≤ 6 * l.length := by
  induction l with
  | nil => exact Nat.le_refl 0
  | cons c rest ih =>
      have hc := bytesOf_escapeChar_le c
      rw [List.flatMap_cons, bytesOf_append, List.length_cons]
      omega

/-- A quoted text takes two quotes and at most six bytes for each character. -/
theorem byteSize_quoted_le (s : String) :
    (quoted false s).utf8ByteSize ≤ 6 * s.toList.length + 2 := by
  have hbody := bytesOf_flatMap_escape_le s.toList
  rw [quoted, byteSize_ofList, bytesOf_append, bytesOf_append]
  show 1 + bytesOf (s.toList.flatMap (escapeChar false)) + 1 ≤ _
  omega

/-- A number below `10 ^ k` takes at most `k` bytes. -/
theorem byteSize_natText_le {n k : Nat} (hk : 0 < k) (h : n < 10 ^ k) :
    (Nat.repr n).utf8ByteSize ≤ k := by
  have hlength := (Nat.length_repr_le_iff hk).2 h
  have hascii : ∀ c ∈ (Nat.repr n).toList, c.utf8Size = 1 := by
    intro c hmem
    have hdigit := isDigit_of_mem_natText hmem
    rw [Char.isDigit, Bool.and_eq_true, decide_eq_true_iff, decide_eq_true_iff] at hdigit
    exact Char.utf8Size_eq_one_iff.2 (UInt32.le_trans hdigit.2 (by decide))
  have hbytes := byteSize_ofList (Nat.repr n).toList
  rw [String.ofList_toList, bytesOf_ascii hascii, String.length_toList] at hbytes
  rw [hbytes]
  exact hlength

/-- A list of `n + 1` copies of a text, with its commas. -/
theorem byteSize_joined_replicate (n : Nat) (text : String) :
    (joined "," (List.replicate (n + 1) text)).utf8ByteSize = (n + 1) * text.utf8ByteSize + n := by
  induction n with
  | zero =>
      show text.utf8ByteSize = 1 * text.utf8ByteSize + 0
      omega
  | succ n ih =>
      have hcomma : ",".utf8ByteSize = 1 := by decide
      show (text ++ "," ++ joined "," (List.replicate (n + 1) text)).utf8ByteSize = _
      rw [String.utf8ByteSize_append, String.utf8ByteSize_append, ih, hcomma, Nat.add_mul (n + 1) 1]
      omega

/-! ## A redaction that is larger than its payload -/

/-- The size of a payload as it came in. -/
def payloadSize (payload : Json) : Nat := (payload.dumps ⟨false, false⟩).utf8ByteSize

/-- A note beside `n` copies of a record. -/
def noteBeside (n : Nat) (record : Json) : Json :=
  .dict [("note", .str "kept"), ("calls", .list (List.replicate n record))]

theorem dumpItems_replicate (o : DumpOptions) (n : Nat) (v : Json) :
    Json.dumpItems o (List.replicate n v) = List.replicate n (v.dumps o) := by
  induction n with
  | zero => rfl
  | succ n ih => rw [List.replicate_succ, List.replicate_succ, Json.dumpItems, ih]

theorem redactItems_replicate (rt : Runtime) (n : Nat) (v : Json) :
    redactItems rt (List.replicate n v) = List.replicate n (redact rt v) := by
  induction n with
  | zero => rfl
  | succ n ih => rw [List.replicate_succ, List.replicate_succ, redactItems, ih]

theorem payloadSize_noteBeside (n : Nat) (record : Json) :
    payloadSize (noteBeside (n + 1) record) = (n + 1) * payloadSize record + n + 26 := by
  have htext : (noteBeside (n + 1) record).dumps ⟨false, false⟩ =
      "\x7b" ++ ((quoted false "note" ++ ":" ++ quoted false "kept") ++ "," ++
        (quoted false "calls" ++ ":" ++ ("[" ++
          joined "," (Json.dumpItems ⟨false, false⟩ (List.replicate (n + 1) record)) ++ "]"))) ++
        "\x7d" := rfl
  have hnote : (quoted false "note" ++ ":" ++ quoted false "kept").utf8ByteSize = 13 := by decide
  have hcalls : (quoted false "calls" ++ ":").utf8ByteSize = 8 := by decide
  have hopen : "\x7b".utf8ByteSize = 1 ∧ "[".utf8ByteSize = 1 ∧ ",".utf8ByteSize = 1 := by decide
  have hclose : "\x7d".utf8ByteSize = 1 ∧ "]".utf8ByteSize = 1 := by decide
  rw [payloadSize, htext, dumpItems_replicate]
  simp only [String.utf8ByteSize_append] at hnote hcalls ⊢
  rw [byteSize_joined_replicate]
  unfold payloadSize
  omega

/-- A call with an empty token. -/
def tokenCall : Json := .dict [("token", .str "")]

/-- The call as it is stored. -/
def redactedCall : Json := .dict [("token", .str "[REDACTED]")]

/-- Redaction writes its mark into every call. -/
theorem redact_noteBeside (n : Nat) :
    redact Scenario.runtime (noteBeside n tokenCall) = noteBeside n redactedCall := by
  have hnote : isSecretKey Scenario.runtime "note" = false := by decide
  have hcalls : isSecretKey Scenario.runtime "calls" = false := by decide
  have hcall : redact Scenario.runtime tokenCall = redactedCall := by
    have htoken : isSecretKey Scenario.runtime "token" = true := by decide
    simp only [tokenCall, redact, redactFields, htoken, if_true, redactedCall]
  unfold noteBeside
  simp only [redact, redactFields, hnote, hcalls, Bool.false_eq_true, if_false,
    redactItems_replicate, hcall]

/-- A value that differs from an object in secrets only is an object with the same keys. -/
theorem keys_of_same {rt : Runtime} {fields : Dict} {v : Json}
    (h : SameButSecrets rt (.dict fields) v) :
    ∃ kept : Dict, v = .dict kept ∧ kept.map (·.1) = fields.map (·.1) := by
  have hkeys : ∀ {fields kept : Dict}, SameFields rt fields kept →
      kept.map (·.1) = fields.map (·.1) := by
    intro fields
    induction fields with
    | nil =>
        intro kept h
        cases h
        rfl
    | cons field rest ih =>
        intro kept h
        cases h with
        | secret v v' _ hrest => exact congrArg (List.cons _) (ih hrest)
        | kept key _ hrest => exact congrArg (List.cons _) (ih hrest)
  cases h with
  | same => exact ⟨fields, rfl, rfl⟩
  | dict hfields => exact ⟨_, rfl, hkeys hfields⟩

/-- A thousand calls with empty tokens and a note take 13025 bytes, within the limit. Their redaction
takes 23025, so that a preview is stored and the note is lost. -/
theorem redaction_exceeds_limit :
    ¬ ∀ payload, payloadSize payload ≤ maxRawProposalBytes →
      ∃ kept, SameButSecrets Scenario.runtime payload kept ∧
        sanitizeRawProposal Scenario.runtime payload = asObject kept := by
  intro h
  have hcall : payloadSize tokenCall = 12 ∧ payloadSize redactedCall = 22 := by decide
  have hpayload : payloadSize (noteBeside 1000 tokenCall) ≤ maxRawProposalBytes := by
    rw [payloadSize_noteBeside 999, hcall.1]
    decide
  have hredacted : maxRawProposalBytes <
      redactedSize Scenario.runtime (noteBeside 1000 tokenCall) := by
    show _ < payloadSize (redact Scenario.runtime (noteBeside 1000 tokenCall))
    rw [redact_noteBeside, payloadSize_noteBeside 999, hcall.2]
    decide
  obtain ⟨kept, hsame, hstored⟩ := h _ hpayload
  obtain ⟨fields, rfl, hkeys⟩ := keys_of_same hsame
  -- What is stored has the three keys of a preview.
  rw [sanitize_of_lt hredacted] at hstored
  have hlost : ["_truncated", "_original_bytes", "_preview"] = ["note", "calls"] :=
    (congrArg (List.map Prod.fst) hstored).trans hkeys
  revert hlost
  decide

/-! ## The stored object -/

/-- The compact serialization of what is stored, in bytes. -/
def storedSize (rt : Runtime) (payload : Json) : Nat :=
  ((Json.dict (sanitizeRawProposal rt payload)).dumps ⟨false, false⟩).utf8ByteSize

/-- Wrapping a value adds twelve bytes. -/
theorem byteSize_wrapped (v : Json) :
    ((Json.dict [("payload", v)]).dumps ⟨false, false⟩).utf8ByteSize =
      (v.dumps ⟨false, false⟩).utf8ByteSize + 12 := by
  have htext : (Json.dict [("payload", v)]).dumps ⟨false, false⟩ =
      "\x7b" ++ (quoted false "payload" ++ ":" ++ v.dumps ⟨false, false⟩) ++ "\x7d" := rfl
  have hkey : (quoted false "payload").utf8ByteSize = 9 := by decide
  have hopen : "\x7b".utf8ByteSize = 1 := by decide
  have hcolon : ":".utf8ByteSize = 1 := by decide
  have hclose : "\x7d".utf8ByteSize = 1 := by decide
  simp only [htext, String.utf8ByteSize_append, hkey, hopen, hcolon, hclose]
  omega

/-- The marker object with its preview stays far below the limit. -/
theorem byteSize_truncated {size : Nat} (hsize : size < 2 ^ 63) (preview : List Char)
    (hpreview : preview.length ≤ 2048) :
    ((Json.dict [("_truncated", .bool true), ("_original_bytes", .int size),
      ("_preview", .str (String.ofList preview))]).dumps ⟨false, false⟩).utf8ByteSize ≤ 16384 := by
  have htext : (Json.dict [("_truncated", .bool true), ("_original_bytes", .int size),
      ("_preview", .str (String.ofList preview))]).dumps ⟨false, false⟩ =
        "\x7b" ++ ((quoted false "_truncated" ++ ":" ++ "true") ++ "," ++
          ((quoted false "_original_bytes" ++ ":" ++ Nat.repr size) ++ "," ++
            (quoted false "_preview" ++ ":" ++ quoted false (String.ofList preview)))) ++ "\x7d" :=
    rfl
  have hmarker : (quoted false "_truncated" ++ ":" ++ "true").utf8ByteSize = 17 := by decide
  have hcount : (quoted false "_original_bytes" ++ ":").utf8ByteSize = 18 := by decide
  have htitle : (quoted false "_preview" ++ ":").utf8ByteSize = 11 := by decide
  have hdigits : (Nat.repr size).utf8ByteSize ≤ 19 :=
    byteSize_natText_le (by decide) (Nat.lt_trans hsize (by decide))
  -- At most six bytes for each character of the preview, whatever it holds.
  have hquoted := byteSize_quoted_le (String.ofList preview)
  rw [String.toList_ofList] at hquoted
  have hcomma : ",".utf8ByteSize = 1 := by decide
  have hopen : "\x7b".utf8ByteSize = 1 := by decide
  have hclose : "\x7d".utf8ByteSize = 1 := by decide
  rw [htext]
  simp only [String.utf8ByteSize_append] at hmarker hcount htitle ⊢
  omega

/-- Redaction keeps the shape of a value. -/
theorem redact_dict_iff {rt : Runtime} {payload : Json} :
    (∃ fields, redact rt payload = .dict fields) ↔ ∃ fields, payload = .dict fields := by
  constructor
  · rintro ⟨fields, h⟩
    cases payload with
    | dict original => exact ⟨original, rfl⟩
    | _ => simp [redact] at h
  · rintro ⟨fields, rfl⟩
    exact ⟨_, by rw [redact]⟩

theorem stored_within_limit {rt : Runtime} {payload : Json}
    (hlength : redactedSize rt payload < 2 ^ 63) :
    storedSize rt payload ≤ maxRawProposalBytes ↔
      (∃ fields, payload = .dict fields) ∨ redactedSize rt payload + 12 ≤ maxRawProposalBytes ∨
        maxRawProposalBytes < redactedSize rt payload := by
  -- Over the limit the payload is replaced by a preview; below it, only a wrapping adds to its size.
  rcases Nat.lt_or_ge maxRawProposalBytes (redactedSize rt payload) with hover | hle
  · have htake : (((redact rt payload).dumps ⟨false, false⟩).toList.take
        overflowPreviewBytes).length ≤ 2048 := by
      rw [List.length_take]
      exact Nat.min_le_left _ _
    have hbound := byteSize_truncated hlength _ htake
    rw [← sanitize_of_lt hover] at hbound
    exact ⟨fun _ => Or.inr (Or.inr hover), fun _ => hbound⟩
  · rw [storedSize, sanitize_of_le hle]
    by_cases hdict : ∃ fields, redact rt payload = .dict fields
    · have hobject := redact_dict_iff.1 hdict
      obtain ⟨fields, hfields⟩ := hdict
      have hsame : Json.dict (asObject (redact rt payload)) = redact rt payload := by
        rw [hfields]
        rfl
      rw [hsame]
      exact ⟨fun _ => Or.inl hobject, fun _ => hle⟩
    · have hwrapped : asObject (redact rt payload) = [("payload", redact rt payload)] := by
        unfold asObject
        split
        · next fields hfields => exact absurd ⟨fields, hfields⟩ hdict
        · rfl
      rw [hwrapped, byteSize_wrapped]
      constructor
      · intro hsize
        exact Or.inr (Or.inl hsize)
      · rintro (hobject | hsize | hover)
        · exact absurd (redact_dict_iff.2 hobject) hdict
        · exact hsize
        · exact absurd hle (Nat.not_le_of_lt hover)

/-- A text of plain letters is quoted as it is. -/
theorem byteSize_quoted_letters (n : Nat) :
    (quoted false (String.ofList (List.replicate n 'a'))).utf8ByteSize = n + 2 := by
  have hbody : ∀ m : Nat, bytesOf ((List.replicate m 'a').flatMap (escapeChar false)) = m := by
    intro m
    induction m with
    | zero => rfl
    | succ m ih =>
        rw [List.replicate_succ, List.flatMap_cons, bytesOf_append, ih, Nat.add_comm m 1]
        rfl
  rw [quoted, byteSize_ofList, bytesOf_append, bytesOf_append, String.toList_ofList, hbody]
  show 1 + n + 1 = n + 2
  omega

/-- A text of letters that is within the limit is stored in twelve bytes more. -/
theorem storedSize_letters (rt : Runtime) {n : Nat} (h : n + 2 ≤ maxRawProposalBytes) :
    storedSize rt (.str (String.ofList (List.replicate n 'a'))) = n + 14 := by
  have hquoted := byteSize_quoted_letters n
  have hle : redactedSize rt (.str (String.ofList (List.replicate n 'a'))) ≤ maxRawProposalBytes :=
    hquoted.trans_le h
  rw [storedSize, sanitize_of_le hle]
  have hwrapped := byteSize_wrapped (.str (String.ofList (List.replicate n 'a')))
  exact hwrapped.trans (congrArg (· + 12) hquoted)

/-- The longest text of letters that is stored within the limit has 16370 letters. -/
theorem stored_within_limit_letters :
    storedSize Scenario.runtime (.str (String.ofList (List.replicate 16370 'a'))) ≤
        maxRawProposalBytes ∧
      ¬ storedSize Scenario.runtime (.str (String.ofList (List.replicate 16371 'a'))) ≤
        maxRawProposalBytes := by
  have hsize : ∀ n, redactedSize Scenario.runtime (.str (String.ofList (List.replicate n 'a'))) =
      n + 2 := byteSize_quoted_letters
  constructor
  · refine (@stored_within_limit Scenario.runtime _ ?_).2 (Or.inr (Or.inl ?_))
    · rw [hsize]
      decide
    · rw [hsize]
      decide
  · refine fun hstored => absurd ((@stored_within_limit Scenario.runtime _ ?_).1 hstored) ?_
    · rw [hsize]
      decide
    · rw [hsize]
      rintro (⟨fields, hfields⟩ | hbelow | hover)
      · cases hfields
      · revert hbelow
        decide
      · revert hover
        decide

/-- A text of 16380 letters is measured at 16382 bytes and stored in 16394. -/
theorem wrapped_text_exceeds_limit :
    ¬ storedSize Scenario.runtime (.str (String.ofList (List.replicate 16380 'a'))) ≤
      maxRawProposalBytes := by
  rw [storedSize_letters Scenario.runtime (by decide)]
  decide

end HitlOps.Properties
