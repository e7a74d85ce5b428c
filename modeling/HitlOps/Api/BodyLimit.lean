import HitlOps.Python.JsonText
import HitlOps.Domain.Models

/-!
# Body limit

`BodySizeLimitMiddleware` of `api/body_limit.py`: a declared length above the limit is answered with
a 413, and otherwise the body is read under the limit and replayed to the application.
-/

set_option autoImplicit false

namespace HitlOps.Api.BodyLimit

open HitlOps.Python HitlOps.Domain

/-- `bytes`. -/
abbrev Bytes := List UInt8

/-! ## Texts -/

/-- `value.decode("latin-1")`. -/
def decodeLatin1 (value : Bytes) : String := String.ofList (value.map fun b => Char.ofNat b.toNat)

/-- `text.encode("latin-1")`; `none` is a `UnicodeEncodeError`. -/
def encodeLatin1 (text : String) : Option Bytes :=
  text.toList.mapM fun c => if c.toNat < 256 then some (UInt8.ofNat c.toNat) else none

/-- A digit of `str.isdigit` below U+0100: also the superscripts two, three and one. -/
def isDigitChar (c : Char) : Bool := c.isDigit || c.toNat = 178 || c.toNat = 179 || c.toNat = 185

/-- `text.isdigit()`, on characters below U+0100. -/
def isdigit (text : String) : Bool := text.toList ≠ [] && text.toList.all isDigitChar

/-- `sys.get_int_max_str_digits()`, by default. -/
def intMaxStrDigits : Nat := 4300

/-- `int(text)` of a text with `isdigit`; `none` is a `ValueError`. A superscript is no decimal
digit, and longer texts are refused. -/
def int? (text : String) : Option Nat :=
  if text.toList.all Char.isDigit ∧ text.toList.length ≤ intMaxStrDigits then
    some (text.toList.foldl (fun n c => 10 * n + (c.toNat - 48)) 0)
  else none

/-! ## The ASGI interface -/

/-- The part of an ASGI scope that the middleware reads and writes: header names are in lower case,
and `correlationId` is the entry of `state`. -/
structure Scope where
  type : String
  headers : List (Bytes × Bytes)
  correlationId : Option String
deriving DecidableEq

/-- A message of `receive`; absent keys are `none`. -/
inductive Message : Type
  | request (body : Option Bytes) (moreBody : Option Bool)
  | disconnect
deriving DecidableEq

/-- `message.get("body", b"")`; a disconnect carries none. -/
def Message.body : Message → Bytes
  | .request body _ => body.getD []
  | .disconnect => []

/-- `message.get("more_body", False)`. -/
def Message.more : Message → Bool
  | .request _ moreBody => moreBody.getD false
  | .disconnect => false

/-- A message of `send`. -/
inductive Response : Type
  | start (status : Nat) (headers : List (Bytes × Bytes))
  | body (payload : Bytes)
deriving DecidableEq

/-- The `receive` that the application is given: the buffered body, until it is replayed, in front
of the original channel. -/
structure Receiver where
  buffered : Option Bytes
  channel : List Message
deriving DecidableEq

/-- One `receive()` of the application; `none` waits on an empty channel. -/
def Receiver.receive (r : Receiver) : Option (Message × Receiver) :=
  match r.buffered, r.channel with
  | some body, channel => some (.request (some body) (some false), ⟨none, channel⟩)
  | none, message :: rest => some (message, ⟨none, rest⟩)
  | none, [] => none

/-- What a call of the middleware does, in order. -/
inductive Effect : Type
  | send (response : Response)
  | callApp (scope : Scope) (receive : Receiver)
deriving DecidableEq

/-- How the middleware's own code ends. -/
inductive Ending : Type
  | returned
  | raisedValueError
  | raisedUnicodeEncodeError
  | waiting
deriving DecidableEq

/-- A call of the middleware. -/
structure Call where
  effects : List Effect
  ending : Ending
deriving DecidableEq

/-- `Headers.get(name)`: the first value, decoded. -/
def header (scope : Scope) (name : String) : Option String :=
  ((scope.headers.find? fun e => some e.1 = encodeLatin1 name).map (·.2)).map decodeLatin1

/-! ## Rejections -/

/-- The payload of `_reject`. -/
def rejectPayload (correlationId : String) : String :=
  (Json.dict [("error", .dict [("code", .str "PAYLOAD_TOO_LARGE"),
    ("message", .str "request body exceeds the configured limit"), ("retryable", .bool false),
    ("correlation_id", .str correlationId), ("details", .dict [])])]).dumps ⟨false, true⟩

/-- A header of texts, as bytes. -/
def encodeHeader (e : String × String) : Option (Bytes × Bytes) := do
  let key ← encodeLatin1 e.1
  let value ← encodeLatin1 e.2
  return (key, value)

/-- `_response_headers`, for a payload of `length` bytes. -/
def responseHeaders (length : Nat) (correlationId : String) : Option (List (Bytes × Bytes)) :=
  [("content-type", "application/json"), ("content-length", toString length),
    ("cache-control", "no-store"), ("x-content-type-options", "nosniff"),
    ("x-frame-options", "DENY"), ("x-correlation-id", correlationId)].mapM encodeHeader

/-- `_reject`. -/
def reject (correlationId : String) : Call :=
  let payload := (rejectPayload correlationId).toUTF8.toList
  match responseHeaders payload.length correlationId with
  | none => ⟨[], .raisedUnicodeEncodeError⟩
  | some headers =>
      ⟨[.send (.start 413 headers), .send (.body payload)], .returned⟩

/-! ## The middleware -/

/-- The result of `_read_within_limit`, with the messages that it has not received. -/
inductive Buffered : Type
  | body (bytes : Bytes) (rest : List Message)
  | tooLarge
  | disconnected
  | waiting

/-- The loop of `_read_within_limit`, with the bytes received so far. -/
def readWithinLimit (maxBytes : Nat) (body : Bytes) : List Message → Buffered
  | [] => .waiting
  | message :: rest =>
      if message = .disconnect then .disconnected
      -- The bound is checked for each chunk, before the next one is received.
      else if maxBytes < (body ++ message.body).length then .tooLarge
      else if message.more then readWithinLimit maxBytes (body ++ message.body) rest
      else .body (body ++ message.body) rest

/-- The correlation identifier: the header, when it is not empty, or `uuid.uuid4().hex`. -/
def correlationIdOf (scope : Scope) (uuid : UUID) : String :=
  match header scope "x-correlation-id" with
  | some text => if text = "" then uuid.hex else text
  | none => uuid.hex

/-- The scope with `setdefault("correlation_id", …)`. -/
def Scope.withCorrelationId (scope : Scope) (correlationId : String) : Scope :=
  { scope with correlationId := some (scope.correlationId.getD correlationId) }

/-- `BodySizeLimitMiddleware.__call__`, on the channel of the server. -/
def call (maxBytes : Nat) (scope : Scope) (uuid : UUID) (channel : List Message) : Call :=
  if scope.type ≠ "http" then ⟨[.callApp scope ⟨none, channel⟩], .returned⟩
  else
    let correlationId := correlationIdOf scope uuid
    let read : Call :=
      match readWithinLimit maxBytes [] channel with
      | .disconnected => ⟨[], .returned⟩
      | .tooLarge => reject correlationId
      | .body bytes rest =>
          ⟨[.callApp (scope.withCorrelationId correlationId) ⟨some bytes, rest⟩], .returned⟩
      | .waiting => ⟨[], .waiting⟩
    match header scope "content-length" with
    -- Chunked: the body itself is counted, as it is behind a header that is no number.
    | none => read
    | some declared =>
        if isdigit declared then
          match int? declared with
          -- `isdigit` has let a text through that `int` does not read.
          | none => ⟨[], .raisedValueError⟩
          | some length => if maxBytes < length then reject correlationId else read
        else read

/-! ## Texts that come from bytes -/

/-- A map that succeeds on every element succeeds on the list. -/
theorem exists_mapM {α β : Type} {f : α → Option β} {l : List α}
    (h : ∀ a ∈ l, ∃ b, f a = some b) : ∃ bs, l.mapM f = some bs := by
  induction l with
  | nil => exact ⟨[], rfl⟩
  | cons a rest ih =>
      obtain ⟨b, hb⟩ := h a List.mem_cons_self
      obtain ⟨bs, hbs⟩ := ih fun a' hmem => h a' (List.mem_cons_of_mem a hmem)
      refine ⟨b :: bs, ?_⟩
      rw [List.mapM_cons, hb, hbs]
      rfl

/-- A text of characters below U+0100 is encoded. -/
theorem exists_encode {text : String} (h : ∀ c ∈ text.toList, c.toNat < 256) :
    ∃ value, encodeLatin1 text = some value := by
  apply exists_mapM
  intro c hmem
  exact ⟨_, if_pos (h c hmem)⟩

theorem toNat_ofByte (b : UInt8) : (Char.ofNat b.toNat).toNat = b.toNat := by
  have hlt : b.toNat < 256 := b.toNat_lt
  have hvalid : b.toNat.isValidChar := Or.inl (by omega)
  rw [Char.ofNat, dif_pos hvalid]
  rfl

/-- The characters of a decoded header value are encoded again. -/
theorem encode_decodeLatin1 (value : Bytes) :
    ∃ encoded, encodeLatin1 (decodeLatin1 value) = some encoded := by
  apply exists_encode
  intro c hmem
  rw [decodeLatin1, String.toList_ofList, List.mem_map] at hmem
  obtain ⟨b, -, rfl⟩ := hmem
  rw [toNat_ofByte]
  exact b.toNat_lt

theorem toNat_lt_of_le {c d : Char} (h : c ≤ d) (hd : d.toNat < 256) : c.toNat < 256 :=
  Nat.lt_of_le_of_lt h hd

/-- The characters of a UUID are ASCII. -/
theorem toNat_lt_of_mem_text {uuid : UUID} {c : Char} (h : c ∈ uuid.text.toList) :
    c.toNat < 256 := by
  have hcanonical := uuid.canonical
  rw [isUuidText, Bool.and_eq_true, List.all_eq_true] at hcanonical
  obtain ⟨i, hi, rfl⟩ := List.getElem_of_mem h
  have hshape := hcanonical.2 (uuid.text.toList[i], i)
    (List.mk_mem_zipIdx_iff_getElem?.2 (List.getElem?_eq_getElem hi))
  dsimp only at hshape
  split at hshape
  · rw [of_decide_eq_true hshape]
    decide
  · rw [isHexDigit, Bool.or_eq_true, Bool.and_eq_true, Bool.and_eq_true] at hshape
    rcases hshape with ⟨-, hle⟩ | ⟨-, hle⟩
    · exact toNat_lt_of_le (of_decide_eq_true hle) (by decide)
    · exact toNat_lt_of_le (of_decide_eq_true hle) (by decide)

theorem encode_hex (uuid : UUID) : ∃ encoded, encodeLatin1 uuid.hex = some encoded :=
  exists_encode fun c h => by
    rw [UUID.hex, String.toList_ofList] at h
    exact toNat_lt_of_mem_text (List.mem_of_mem_filter h)

/-- The correlation identifier goes back into a header. -/
theorem encode_correlationIdOf (scope : Scope) (uuid : UUID) :
    ∃ encoded, encodeLatin1 (correlationIdOf scope uuid) = some encoded := by
  unfold correlationIdOf
  split
  · next text hheader =>
      split
      · exact encode_hex uuid
      · rw [header, Option.map_eq_some_iff] at hheader
        obtain ⟨value, -, rfl⟩ := hheader
        exact encode_decodeLatin1 value
  · exact encode_hex uuid

/-- A decimal number is ASCII. -/
theorem encode_toString (n : Nat) : ∃ encoded, encodeLatin1 (toString n) = some encoded := by
  apply exists_encode
  intro c hmem
  have hdigit := isDigit_of_mem_natText hmem
  rw [Char.isDigit, Bool.and_eq_true] at hdigit
  exact Nat.lt_of_le_of_lt (of_decide_eq_true hdigit.2) (by decide)

theorem exists_encodeHeader {key value : String} (hkey : ∃ bytes, encodeLatin1 key = some bytes)
    (hvalue : ∃ bytes, encodeLatin1 value = some bytes) :
    ∃ e, encodeHeader (key, value) = some e := by
  obtain ⟨k, hk⟩ := hkey
  obtain ⟨v, hv⟩ := hvalue
  refine ⟨(k, v), ?_⟩
  rw [encodeHeader, hk, hv]
  rfl

/-- A rejection is a 413 with its payload. -/
theorem reject_eq (scope : Scope) (uuid : UUID) :
    ∃ headers payload, reject (correlationIdOf scope uuid) =
      ⟨[.send (.start 413 headers), .send (.body payload)], .returned⟩ := by
  have hheaders : ∀ n, ∃ headers,
      responseHeaders n (correlationIdOf scope uuid) = some headers := by
    intro n
    apply exists_mapM
    intro e hmem
    simp only [List.mem_cons, List.not_mem_nil, or_false] at hmem
    rcases hmem with rfl | rfl | rfl | rfl | rfl | rfl
    · exact ⟨_, rfl⟩
    · exact exists_encodeHeader ⟨_, rfl⟩ (encode_toString n)
    · exact ⟨_, rfl⟩
    · exact ⟨_, rfl⟩
    · exact ⟨_, rfl⟩
    · exact exists_encodeHeader ⟨_, rfl⟩ (encode_correlationIdOf scope uuid)
  obtain ⟨headers, hsome⟩ :=
    hheaders (rejectPayload (correlationIdOf scope uuid)).toUTF8.toList.length
  refine ⟨headers, (rejectPayload (correlationIdOf scope uuid)).toUTF8.toList, ?_⟩
  unfold reject
  dsimp only
  rw [hsome]

end HitlOps.Api.BodyLimit
