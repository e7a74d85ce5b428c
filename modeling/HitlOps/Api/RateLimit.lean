import Mathlib.Algebra.Order.Ring.Rat
import Mathlib.Data.List.Induction
import Mathlib.Logic.Function.Basic
import HitlOps.Window

/-!
# Rate limiter

`SlidingWindowRateLimiter` of `api/rate_limit.py`. A clock reading is the rational number that the
float stands for; `current - 60.0` is exact on readings of `time.monotonic()` from 30 seconds on, and
before that no hit is old enough to be dropped.
-/

set_option autoImplicit false

namespace HitlOps.Api

/-- `SlidingWindowRateLimiter`; the `defaultdict` of queues is a function, empty by default. -/
structure SlidingWindowRateLimiter where
  limitPerMinute : Int
  hits : String → List ℚ

namespace SlidingWindowRateLimiter

/-- `SlidingWindowRateLimiter(limit)`. -/
def fresh (limit : Int) : SlidingWindowRateLimiter := ⟨limit, fun _ => []⟩

/-- `allow`, with the limiter after it; a refused call leaves the trimmed queue. -/
def allow (r : SlidingWindowRateLimiter) (identity : String) (current : ℚ) :
    Bool × SlidingWindowRateLimiter :=
  let windowStart := current - 60
  let hits := (r.hits identity).dropWhile fun hit => hit ≤ windowStart
  if r.limitPerMinute ≤ hits.length then
    (false, { r with hits := Function.update r.hits identity hits })
  else (true, { r with hits := Function.update r.hits identity (hits ++ [current]) })

/-- `allow` admits the time to the queue of the identity. -/
theorem allow_eq (r : SlidingWindowRateLimiter) (identity : String) (current : ℚ) :
    r.allow identity current =
      ((Window.offer r.limitPerMinute (current - 60) current (r.hits identity)).1,
        { r with
          hits := Function.update r.hits identity
            (Window.offer r.limitPerMinute (current - 60) current (r.hits identity)).2 }) := by
  unfold allow Window.offer Window.trim
  dsimp only
  split <;> rfl

@[simp] theorem allow_limit (r : SlidingWindowRateLimiter) (identity : String) (current : ℚ) :
    (r.allow identity current).2.limitPerMinute = r.limitPerMinute := by
  rw [allow_eq]

theorem allow_answer (r : SlidingWindowRateLimiter) (identity : String) (current : ℚ) :
    (r.allow identity current).1 =
      (Window.offer r.limitPerMinute (current - 60) current (r.hits identity)).1 := by
  rw [allow_eq]

theorem allow_hits_self (r : SlidingWindowRateLimiter) (identity : String) (current : ℚ) :
    (r.allow identity current).2.hits identity =
      (Window.offer r.limitPerMinute (current - 60) current (r.hits identity)).2 := by
  rw [allow_eq]
  exact Function.update_self _ _ _

theorem allow_hits_of_ne (r : SlidingWindowRateLimiter) {identity other : String} (current : ℚ)
    (h : other ≠ identity) : (r.allow identity current).2.hits other = r.hits other := by
  rw [allow_eq]
  exact Function.update_of_ne h _ _

/-- Limiters that agree on the limit and on the queue of an identity. -/
structure Agree (identity : String) (r r' : SlidingWindowRateLimiter) : Prop where
  limit : r.limitPerMinute = r'.limitPerMinute
  hits : r.hits identity = r'.hits identity

theorem Agree.refl (identity : String) (r : SlidingWindowRateLimiter) : Agree identity r r :=
  ⟨rfl, rfl⟩

theorem Agree.symm {identity : String} {r r' : SlidingWindowRateLimiter}
    (h : Agree identity r r') : Agree identity r' r :=
  ⟨h.limit.symm, h.hits.symm⟩

/-- Both answer a call of the identity alike. -/
theorem Agree.answer {identity : String} {r r' : SlidingWindowRateLimiter}
    (h : Agree identity r r') (current : ℚ) :
    (r.allow identity current).1 = (r'.allow identity current).1 := by
  rw [allow_answer, allow_answer, h.limit, h.hits]

/-- A call of the identity on both sides keeps the agreement. -/
theorem Agree.both {identity : String} {r r' : SlidingWindowRateLimiter}
    (h : Agree identity r r') (current : ℚ) :
    Agree identity (r.allow identity current).2 (r'.allow identity current).2 := by
  constructor
  · rw [allow_limit, allow_limit, h.limit]
  · rw [allow_hits_self, allow_hits_self, h.limit, h.hits]

/-- A call of another identity on one side keeps the agreement. -/
theorem Agree.other {identity caller : String} {r r' : SlidingWindowRateLimiter}
    (h : Agree identity r r') (current : ℚ) (hne : identity ≠ caller) :
    Agree identity (r.allow caller current).2 r' := by
  constructor
  · rw [allow_limit, h.limit]
  · rw [allow_hits_of_ne r current hne, h.hits]

/-! ## Runs -/

/-- A call of `allow`. -/
structure Call where
  identity : String
  current : ℚ

/-- The limiter after calls. -/
def after (r : SlidingWindowRateLimiter) (calls : List Call) : SlidingWindowRateLimiter :=
  calls.foldl (fun r c => (r.allow c.identity c.current).2) r

/-- The answer to a call behind others. -/
def answer (r : SlidingWindowRateLimiter) (calls : List Call) (c : Call) : Bool :=
  ((r.after calls).allow c.identity c.current).1

/-- The times of an identity that are allowed in a run. -/
def allowedTimes (r : SlidingWindowRateLimiter) (identity : String) : List Call → List ℚ
  | [] => []
  | c :: rest =>
      (if (r.allow c.identity c.current).1 = true ∧ c.identity = identity then [c.current] else [])
        ++ (r.allow c.identity c.current).2.allowedTimes identity rest

theorem after_concat (r : SlidingWindowRateLimiter) (calls : List Call) (c : Call) :
    r.after (calls ++ [c]) = ((r.after calls).allow c.identity c.current).2 := by
  simp [after]

@[simp] theorem after_limit (r : SlidingWindowRateLimiter) (calls : List Call) :
    (r.after calls).limitPerMinute = r.limitPerMinute := by
  induction calls using List.reverseRecOn with
  | nil => rfl
  | append_singleton calls c ih => rw [after_concat, allow_limit, ih]

/-- The last call adds its time when it is allowed. -/
theorem allowedTimes_concat (identity : String) (calls : List Call) (c : Call) :
    ∀ r : SlidingWindowRateLimiter, r.allowedTimes identity (calls ++ [c]) =
      r.allowedTimes identity calls ++
        if r.answer calls c = true ∧ c.identity = identity then [c.current] else [] := by
  induction calls with
  | nil =>
      intro r
      rw [List.nil_append, allowedTimes, allowedTimes, allowedTimes, List.append_nil, List.nil_append]
      rfl
  | cons first rest ih =>
      intro r
      rw [List.cons_append, allowedTimes, allowedTimes, ih, List.append_assoc]
      rfl

/-- The queue of an identity depends on its own calls only. -/
theorem agree_after_filter (r : SlidingWindowRateLimiter) (identity : String) (calls : List Call) :
    Agree identity (r.after calls) (r.after (calls.filter fun c => c.identity = identity)) := by
  induction calls using List.reverseRecOn with
  | nil => exact Agree.refl identity r
  | append_singleton calls c ih =>
      by_cases hid : c.identity = identity
      · have hkept : [c].filter (fun c => c.identity = identity) = [c] := by simp [hid]
        rw [List.filter_append, hkept, after_concat, after_concat, hid]
        exact ih.both c.current
      · have hdropped : [c].filter (fun c => c.identity = identity) = [] := by simp [hid]
        rw [List.filter_append, hdropped, List.append_nil, after_concat]
        exact ih.other c.current (Ne.symm hid)

end SlidingWindowRateLimiter

end HitlOps.Api
