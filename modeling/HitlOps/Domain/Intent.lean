import HitlOps.Domain.Schemas
import HitlOps.Domain.Models
import HitlOps.Domain.Errors

/-!
# Canonical intents and proposal evidence

`canonicalize` binds a validated proposal to its digest, and `sanitizeRawProposal` bounds and
redacts untrusted evidence, as in `domain/intent.py`. `recomputeDigest` in the revalidation module
hashes the same envelope without the normalization.
-/

set_option autoImplicit false

namespace HitlOps.Domain

open HitlOps.Python

/-- `DIGEST_VERSION`. -/
def digestVersion : String := "1"

/-- `MAX_RAW_PROPOSAL_BYTES`. -/
def maxRawProposalBytes : Nat := 16384

/-- `_OVERFLOW_PREVIEW_BYTES`. -/
def overflowPreviewBytes : Nat := 2048

/-- `_SECRET_KEY_MARKERS`. -/
def secretKeyMarkers : List String :=
  ["password", "secret", "token", "api_key", "apikey", "authorization", "credential",
    "private_key"]

/-- The options of the digest serialization. -/
def canonicalOptions : DumpOptions := ⟨true, false⟩

/-- `CanonicalIntent`. -/
structure CanonicalIntent where
  tool : ToolName
  tenantId : String
  requesterId : String
  revision : Nat
  parameters : Dict
  canonicalJson : String
  digest : String

mutual

/-- `_normalize`: NFC on every text; keys are kept. -/
def normalize (rt : Runtime) : Json → Json
  | .str s => .str (rt.nfc s)
  | .dict fields => .dict (normalizeFields rt fields)
  | .list items => .list (normalizeItems rt items)
  | v => v

def normalizeItems (rt : Runtime) : List Json → List Json
  | [] => []
  | v :: rest => normalize rt v :: normalizeItems rt rest

def normalizeFields (rt : Runtime) : List (String × Json) → List (String × Json)
  | [] => []
  | (k, v) :: rest => (k, normalize rt v) :: normalizeFields rt rest

end

/-- The digest envelope of an identity and its parameters. -/
def digestEnvelope (tool : ToolName) (tenantId requesterId : String) (revision : Nat)
    (parameters : Dict) : Json :=
  .dict [("digest_version", .str digestVersion), ("tenant_id", .str tenantId),
    ("requester_id", .str requesterId), ("tool", .str tool.value), ("revision", .int revision),
    ("parameters", .dict parameters)]

/-- `_canonical_envelope`. -/
def canonicalEnvelope (rt : Runtime) (tool : ToolName) (tenantId requesterId : String)
    (revision : Nat) (parameters : Dict) : String :=
  (normalize rt (digestEnvelope tool tenantId requesterId revision parameters)).dumps
    canonicalOptions

/-- `canonicalize`. -/
def canonicalize (rt : Runtime) (tool : ToolName) (tenantId requesterId : String) (revision : Nat)
    (parameters : ToolParameters) : Except Error CanonicalIntent :=
  if parameters.tool ≠ tool then .error (.unknownTool "parameters model does not match the tool")
  else if revision < 1 then .error (.value "revision must be >= 1")
  else
    let canonicalJson :=
      canonicalEnvelope rt tool tenantId requesterId revision parameters.modelDump
    .ok ⟨tool, tenantId, requesterId, revision, parameters.modelDump, canonicalJson,
      rt.sha256 canonicalJson⟩

/-! ## Proposal evidence -/

/-- `marker in text` of Python. -/
def isInfix (marker text : List Char) : Bool :=
  text.tails.any fun suffix => marker.isPrefixOf suffix

/-- A key whose values are redacted. -/
def isSecretKey (rt : Runtime) (key : String) : Bool :=
  secretKeyMarkers.any fun marker => isInfix marker.toList (rt.lower key).toList

mutual

/-- `_redact`. -/
def redact (rt : Runtime) : Json → Json
  | .dict fields => .dict (redactFields rt fields)
  | .list items => .list (redactItems rt items)
  | v => v

def redactItems (rt : Runtime) : List Json → List Json
  | [] => []
  | v :: rest => redact rt v :: redactItems rt rest

def redactFields (rt : Runtime) : List (String × Json) → List (String × Json)
  | [] => []
  | (k, v) :: rest =>
      (k, if isSecretKey rt k then .str "[REDACTED]" else redact rt v) :: redactFields rt rest

end

/-- `sanitize_raw_proposal`. -/
def sanitizeRawProposal (rt : Runtime) (payload : Json) : Dict :=
  let sanitized := redact rt payload
  let serialized := sanitized.dumps ⟨false, false⟩
  if serialized.utf8ByteSize ≤ maxRawProposalBytes then
    match sanitized with
    | .dict fields => fields
    | v => [("payload", v)]
  else
    [("_truncated", .bool true), ("_original_bytes", .int serialized.utf8ByteSize),
      ("_preview", .str (String.ofList (serialized.toList.take overflowPreviewBytes)))]

end HitlOps.Domain
