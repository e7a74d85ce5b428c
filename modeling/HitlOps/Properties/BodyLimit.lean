import HitlOps.Api.BodyLimit

/-!
# The body limit

A request is rejected, dropped or passed on with its whole body, and which of the three depends on
the declared length, on the bytes received and on how the stream ends. The exception is a declared
length that `isdigit` accepts and `int` does not.
-/

set_option autoImplicit false

namespace HitlOps.Properties

open HitlOps.Domain HitlOps.Api.BodyLimit

/-- A stream of body messages: chunks that announce more, and then a last chunk or a disconnect. -/
structure BodyStream where
  chunks : List Message
  last : Message
  more : ∀ m ∈ chunks, m.more = true
  ends : last.more = false

namespace BodyStream

/-- The channel of a stream, with what the server still delivers behind it. -/
def channel (s : BodyStream) (rest : List Message) : List Message := s.chunks ++ s.last :: rest

/-- The concatenation of all chunks. -/
def bytes (s : BodyStream) : Bytes := (s.chunks ++ [s.last]).flatMap (·.body)

/-- The client disconnects before the last chunk. -/
def disconnects (s : BodyStream) : Bool := s.last = .disconnect

end BodyStream

/-- What becomes of a request. -/
inductive Verdict : Type
  | rejected
  | dropped
  | called (body : Bytes)
deriving DecidableEq

/-- The three things that a call may do: one 413 with its payload, nothing, or one call of the
application whose first `receive()` is a complete body. -/
def verdict (c : Call) : Option Verdict :=
  match c.ending, c.effects with
  | .returned, [.send (.start 413 _), .send (.body _)] => some .rejected
  | .returned, [] => some .dropped
  | .returned, [.callApp _ receiver] =>
      match receiver.receive with
      | some (.request (some body) (some false), _) => some (.called body)
      | _ => none
  | _, _ => none

/-- The declared length, when it is a number, exceeds the limit. -/
def declaredTooLarge (maxBytes : Nat) (scope : Scope) : Bool :=
  match header scope "content-length" with
  | some declared =>
      isdigit declared && (int? declared).any fun length => Decidable.decide (maxBytes < length)
  | none => false

/-- The verdict of a declared length, the bytes of the body and the way in which the stream ends. -/
def expected (maxBytes : Nat) (tooLarge : Bool) (body : Bytes) (disconnects : Bool) : Verdict :=
  if tooLarge ∨ maxBytes < body.length then .rejected
  else if disconnects then .dropped
  else .called body

/-- A declared length with `isdigit` has decimal digits only, and no more than `int` takes. -/
def ReadableLength (scope : Scope) : Prop :=
  ∀ declared, header scope "content-length" = some declared → isdigit declared = true →
    declared.toList.all Char.isDigit = true ∧ declared.toList.length ≤ intMaxStrDigits

/-- What the loop buffers, from the bytes that it has. -/
def bufferedOf (maxBytes : Nat) (body : Bytes) (last : Message) (rest : List Message) : Buffered :=
  if maxBytes < body.length then .tooLarge
  else if last = .disconnect then .disconnected
  else .body body rest

/-- The loop sees the concatenation of the chunks, however they are cut. -/
theorem readWithinLimit_eq {maxBytes : Nat} {last : Message} (hlast : last.more = false)
    (rest : List Message) (chunks : List Message) :
    ∀ body : Bytes, (∀ m ∈ chunks, m.more = true) → body.length ≤ maxBytes →
      readWithinLimit maxBytes body (chunks ++ last :: rest) =
        bufferedOf maxBytes (body ++ (chunks ++ [last]).flatMap (·.body)) last rest := by
  induction chunks with
  | nil =>
      intro body _ hbody
      unfold bufferedOf
      rw [List.nil_append, List.nil_append, List.flatMap_singleton, readWithinLimit]
      by_cases hdisconnect : last = .disconnect
      · -- A disconnect brings no bytes, so the limit is not exceeded by it.
        have hnone : ¬ maxBytes < (body ++ last.body).length := by
          rw [hdisconnect]
          show ¬ maxBytes < (body ++ []).length
          rw [List.append_nil]
          omega
        rw [if_pos hdisconnect, if_neg hnone, if_pos hdisconnect]
      · rw [if_neg hdisconnect, hlast, if_neg hdisconnect]
        rfl
  | cons m chunks ih =>
      intro body hmore hbody
      have hm := hmore m List.mem_cons_self
      have hrequest : m ≠ .disconnect := by
        rintro rfl
        cases hm
      rw [List.cons_append, List.cons_append, List.flatMap_cons, ← List.append_assoc,
        readWithinLimit, if_neg hrequest]
      by_cases hover : maxBytes < (body ++ m.body).length
      · -- Later chunks only add to the bytes.
        have hstays : maxBytes <
            (body ++ m.body ++ (chunks ++ [last]).flatMap (·.body)).length := by
          rw [List.length_append]
          omega
        rw [if_pos hover, bufferedOf, if_pos hstays]
      · rw [if_neg hover, if_pos hm]
        exact ih _ (fun m' hmem => hmore m' (List.mem_cons_of_mem m hmem)) (Nat.le_of_not_lt hover)

/-- Reading the body, without a declared length that decides. -/
def readCall (maxBytes : Nat) (scope : Scope) (uuid : UUID) (channel : List Message) : Call :=
  match readWithinLimit maxBytes [] channel with
  | .disconnected => ⟨[], .returned⟩
  | .tooLarge => reject (correlationIdOf scope uuid)
  | .body bytes rest =>
      ⟨[.callApp (scope.withCorrelationId (correlationIdOf scope uuid)) ⟨some bytes, rest⟩],
        .returned⟩
  | .waiting => ⟨[], .waiting⟩

theorem verdict_reject (scope : Scope) (uuid : UUID) :
    verdict (reject (correlationIdOf scope uuid)) = some .rejected := by
  obtain ⟨headers, payload, heq⟩ := reject_eq scope uuid
  rw [heq]
  rfl

theorem verdict_readCall (maxBytes : Nat) (scope : Scope) (uuid : UUID) (s : BodyStream)
    (rest : List Message) :
    verdict (readCall maxBytes scope uuid (s.channel rest)) =
      some (expected maxBytes false s.bytes s.disconnects) := by
  have hread := readWithinLimit_eq s.ends rest s.chunks [] s.more (Nat.zero_le maxBytes)
  rw [List.nil_append] at hread
  have hbuffered : readWithinLimit maxBytes [] (s.channel rest) =
      bufferedOf maxBytes s.bytes s.last rest := hread
  unfold readCall expected
  rw [hbuffered, bufferedOf]
  by_cases hover : maxBytes < s.bytes.length
  · rw [if_pos hover, if_pos (Or.inr hover)]
    exact verdict_reject scope uuid
  · have hwithin : ¬ (false = true ∨ maxBytes < s.bytes.length) := by
      rintro (h | h)
      · cases h
      · exact hover h
    rw [if_neg hover, if_neg hwithin]
    by_cases hlast : s.last = .disconnect
    · have hends : s.disconnects = true := decide_eq_true hlast
      rw [if_pos hlast, if_pos hends]
      rfl
    · have hends : ¬ s.disconnects = true := by simpa [BodyStream.disconnects] using hlast
      rw [if_neg hlast, if_neg hends]
      rfl

theorem body_limit_verdict {scope : Scope} (hhttp : scope.type = "http") (maxBytes : Nat)
    (uuid : UUID) (s : BodyStream) (rest : List Message) :
    verdict (call maxBytes scope uuid (s.channel rest)) =
        some (expected maxBytes (declaredTooLarge maxBytes scope) s.bytes s.disconnects) ↔
      ReadableLength scope := by
  have hread := verdict_readCall maxBytes scope uuid s rest
  unfold call
  rw [if_neg (not_not_intro hhttp)]
  unfold declaredTooLarge ReadableLength
  cases hheader : header scope "content-length" with
  | none => exact ⟨fun _ _ h => (by cases h), fun _ => hread⟩
  | some declared =>
      dsimp only
      -- A text that is no number is passed over; one that is must be readable by `int`.
      by_cases hdigit : isdigit declared = true
      · rw [if_pos hdigit, hdigit]
        by_cases hdecimal : declared.toList.all Char.isDigit = true ∧
            declared.toList.length ≤ intMaxStrDigits
        · have hint : int? declared = some _ := if_pos hdecimal
          rw [hint]
          refine ⟨fun _ _ h _ => (by cases h; exact hdecimal), fun _ => ?_⟩
          simp only [Bool.true_and, Option.any_some]
          split
          · next hlarge =>
              rw [decide_eq_true hlarge, expected, if_pos (Or.inl rfl)]
              exact verdict_reject scope uuid
          · next hsmall =>
              rw [decide_eq_false hsmall]
              exact hread
        · have hint : int? declared = none := if_neg hdecimal
          rw [hint]
          exact ⟨fun h => (by cases h), fun h => absurd (h declared rfl hdigit) hdecimal⟩
      · rw [if_neg hdigit]
        have hplain : isdigit declared = false := by simpa using hdigit
        rw [hplain]
        refine ⟨fun _ other h hother => ?_, fun _ => hread⟩
        cases h
        exact absurd hother hdigit

/-- A request with the given `content-length`. -/
def declaring (value : Bytes) : Scope :=
  ⟨"http", [([99, 111, 110, 116, 101, 110, 116, 45, 108, 101, 110, 103, 116, 104], value)], none⟩

/-- The body `ab`, in two chunks. -/
def twoChunks : BodyStream where
  chunks := [.request (some [97]) (some true)]
  last := .request (some [98]) none
  more := by decide
  ends := by decide

/-- A declared length of `2`: the application receives the two chunks as one body. -/
theorem body_limit_verdict_two :
    verdict (call 4 (declaring [50]) UUID.nil (twoChunks.channel [.disconnect])) =
      some (.called [97, 98]) := by
  have hreadable : ReadableLength (declaring [50]) := by
    intro declared hheader _
    have hvalue : header (declaring [50]) "content-length" = some "2" := by decide
    rw [hvalue] at hheader
    cases hheader
    decide
  exact (@body_limit_verdict (declaring [50]) rfl 4 UUID.nil twoChunks [.disconnect]).2 hreadable

/-- A declared length of `²` is a digit for `isdigit` and an error for `int`. -/
theorem superscript_length_raises :
    (call 4 (declaring [178]) UUID.nil (twoChunks.channel [.disconnect])).ending =
        .raisedValueError ∧
      verdict (call 4 (declaring [178]) UUID.nil (twoChunks.channel [.disconnect])) ≠
        some (expected 4 (declaredTooLarge 4 (declaring [178])) twoChunks.bytes
          twoChunks.disconnects) := by
  decide

end HitlOps.Properties
