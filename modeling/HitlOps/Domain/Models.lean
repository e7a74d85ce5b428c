import HitlOps.Python.Json
import HitlOps.Domain.Enums

/-!
# Identifiers and domain models

`UUID` is a `uuid.UUID` through its canonical text, and `RevisionKey` is the primary key of an
intent revision. The commands and snapshots are those of `domain/models.py`.
-/

set_option autoImplicit false

namespace HitlOps.Domain

open HitlOps.Python

/-- Time stamps, in microseconds. -/
abbrev Time := Nat

/-- `timedelta(seconds=n)`. -/
def seconds (n : Nat) : Time := n * 1000000

/-- A lower-case hexadecimal digit. -/
def isHexDigit (c : Char) : Bool := ('0' ≤ c && c ≤ '9') || ('a' ≤ c && c ≤ 'f')

/-- The text of a UUID: 36 characters, dashes at 8, 13, 18 and 23, hexadecimal elsewhere. -/
def isUuidText (s : String) : Bool :=
  s.toList.length = 36 && s.toList.zipIdx.all fun (c, i) =>
    if i = 8 ∨ i = 13 ∨ i = 18 ∨ i = 23 then c = '-' else isHexDigit c

/-- `uuid.UUID`, with `str(value)` as its `text`. -/
structure UUID where
  text : String
  canonical : isUuidText text = true
deriving DecidableEq

namespace UUID

/-- A UUID is determined by its text. -/
theorem ext_text {a b : UUID} (h : a.text = b.text) : a = b := by
  cases a
  cases b
  cases h
  rfl

/-- The UUID of a canonical text. -/
def parse? (s : String) : Option UUID :=
  if h : isUuidText s = true then some ⟨s, h⟩ else none

@[simp] theorem parse?_text (u : UUID) : parse? u.text = some u := dif_pos u.canonical

/-- The UUID of zeros. -/
def nil : UUID := ⟨"00000000-0000-0000-0000-000000000000", by decide⟩

/-- `value.hex`. -/
def hex (u : UUID) : String := String.ofList (u.text.toList.filter fun c => c ≠ '-')

end UUID

/-- The primary key of an intent revision. -/
structure RevisionKey where
  tenantId : String
  intentId : UUID
  revision : Nat
deriving DecidableEq

/-- `CreateIntentCommand`. -/
structure CreateIntentCommand where
  tenantId : String
  intentId : UUID
  revision : Nat
  tool : ToolName
  canonicalParameters : Dict
  intentDigest : String
  requesterId : String
  requesterRationale : String
  source : IntentSource
  rawProposal : Option Json
  commandId : String
  correlationId : String
  actorId : String

/-- The revision that a command creates. -/
def CreateIntentCommand.key (c : CreateIntentCommand) : RevisionKey :=
  ⟨c.tenantId, c.intentId, c.revision⟩

/-- `IntentSnapshot`, without its creation time, which nothing reads. -/
structure IntentSnapshot where
  tenantId : String
  intentId : UUID
  revision : Nat
  tool : ToolName
  intentDigest : String
  state : IntentState
  stateVersion : Nat
deriving DecidableEq

end HitlOps.Domain
