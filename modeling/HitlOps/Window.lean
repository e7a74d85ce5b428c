import Mathlib.Data.List.TakeWhile
import Mathlib.Order.Lattice
import Mathlib.Order.Monotone.Basic

/-!
# Sliding windows

A queue of stamps over a linear order. At each time the stamps up to the start of its window leave
the front of the queue, and the time is admitted when fewer stamps than the limit remain. `Holds` is
the invariant: the queue is sorted and holds every admitted stamp that a later window can reach.
-/

set_option autoImplicit false

namespace HitlOps.Window

universe u

variable {τ : Type u} [LinearOrder τ]

/-- The stamps behind the start of a window, when the queue is sorted. -/
def trim (start : τ) (queue : List τ) : List τ := queue.dropWhile fun stamp => stamp ≤ start

/-- Whether a time is admitted, and the queue after it. -/
def offer (limit : Int) (start now : τ) (queue : List τ) : Bool × List τ :=
  if limit ≤ (trim start queue).length then (false, trim start queue)
  else (true, trim start queue ++ [now])

/-- The stamps that an answer adds. -/
def stamps (admitted : Bool) (now : τ) : List τ := if admitted then [now] else []

/-- The number of stamps in the half-open window from `start` to `stop`. -/
def count (start stop : τ) (admitted : List τ) : Nat :=
  admitted.countP fun stamp => start < stamp && stamp ≤ stop

/-- Trimming a sorted queue keeps the stamps behind the start. -/
theorem trim_eq_filter {start : τ} {queue : List τ} (hsorted : queue.Pairwise (· ≤ ·)) :
    trim start queue = queue.filter fun stamp => start < stamp := by
  unfold trim
  induction queue with
  | nil => rfl
  | cons stamp rest ih =>
      obtain ⟨hhead, hrest⟩ := List.pairwise_cons.1 hsorted
      by_cases hold : stamp ≤ start
      · rw [List.dropWhile_cons_of_pos (by simpa using hold), ih hrest,
          List.filter_cons_of_neg (by simpa using hold)]
      · rw [List.dropWhile_cons_of_neg (by simpa using hold)]
        have hnew : ∀ other ∈ stamp :: rest, start < other := by
          intro other hmem
          rcases List.mem_cons.1 hmem with rfl | hmem
          · exact lt_of_not_ge hold
          · exact lt_of_lt_of_le (lt_of_not_ge hold) (hhead other hmem)
        exact (List.filter_eq_self.2 fun other hmem => decide_eq_true (hnew other hmem)).symm

theorem count_append (start stop : τ) (l m : List τ) :
    count start stop (l ++ m) = count start stop l + count start stop m :=
  List.countP_append

/-- A window counts no more than another that its stamps fall into. -/
theorem count_le {start stop start' stop' : τ} {admitted : List τ}
    (h : ∀ stamp ∈ admitted, start < stamp → stamp ≤ stop → start' < stamp ∧ stamp ≤ stop') :
    count start stop admitted ≤ count start' stop' admitted := by
  apply List.countP_mono_left
  intro stamp hmem hin
  rw [Bool.and_eq_true, decide_eq_true_iff, decide_eq_true_iff] at hin ⊢
  exact h stamp hmem hin.1 hin.2

/-- One stamp counts at most once. -/
theorem count_stamps_le (start stop now : τ) (admitted : Bool) :
    count start stop (stamps admitted now) ≤ 1 := by
  refine Nat.le_trans List.countP_le_length ?_
  cases admitted with
  | true => exact Nat.le_refl 1
  | false => exact Nat.zero_le 1

/-- A stamp behind the end of a window does not count. -/
theorem count_stamps_of_lt {start stop now : τ} (h : stop < now) (admitted : Bool) :
    count start stop (stamps admitted now) = 0 := by
  cases admitted with
  | false => rfl
  | true =>
      apply List.countP_eq_zero.2
      intro stamp hmem hin
      rw [List.mem_singleton.1 hmem, Bool.and_eq_true, decide_eq_true_iff, decide_eq_true_iff] at hin
      exact absurd hin.2 (not_le_of_gt h)

section

variable {limit : Int} {start : τ → τ}

/-- What a queue knows at the time `now` of the stamps admitted so far. -/
structure Holds (limit : Int) (start : τ → τ) (now : τ) (admitted queue : List τ) : Prop where
  sorted : admitted.Pairwise (· ≤ ·)
  past : ∀ stamp ∈ admitted, stamp ≤ now
  recent : ∃ old, admitted = old ++ queue ∧ ∀ stamp ∈ old, stamp ≤ start now
  law : ∀ t, (count (start t) t admitted : Int) ≤ limit

/-- Before the first call. -/
theorem Holds.empty (hlimit : 0 ≤ limit) (now : τ) : Holds limit start now [] [] where
  sorted := List.Pairwise.nil
  past := fun _ hmem => by cases hmem
  recent := ⟨[], rfl, fun _ hmem => by cases hmem⟩
  law := fun _ => hlimit

/-- Time passes. -/
theorem Holds.later (hstart : Monotone start) {now now' : τ} {admitted queue : List τ}
    (h : Holds limit start now admitted queue) (hle : now ≤ now') :
    Holds limit start now' admitted queue where
  sorted := h.sorted
  past := fun stamp hmem => le_trans (h.past stamp hmem) hle
  recent := by
    obtain ⟨old, heq, hold⟩ := h.recent
    exact ⟨old, heq, fun stamp hmem => le_trans (hold stamp hmem) (hstart hle)⟩
  law := h.law

/-- The trimmed queue is the current window. -/
theorem Holds.length_trim {now : τ} {admitted queue : List τ}
    (h : Holds limit start now admitted queue) :
    (trim (start now) queue).length = count (start now) now admitted := by
  obtain ⟨old, heq, hold⟩ := h.recent
  have hsorted : queue.Pairwise (· ≤ ·) := (List.pairwise_append.1 (heq ▸ h.sorted)).2.1
  have hnone : count (start now) now old = 0 := by
    apply List.countP_eq_zero.2
    intro stamp hmem hin
    rw [Bool.and_eq_true, decide_eq_true_iff] at hin
    exact absurd (hold stamp hmem) (not_le_of_gt hin.1)
  rw [trim_eq_filter hsorted, heq, count_append, hnone, Nat.zero_add, ← List.countP_eq_length_filter]
  apply List.countP_congr
  intro stamp hmem
  have hpast : stamp ≤ now := h.past stamp (heq ▸ List.mem_append_right _ hmem)
  simp [hpast]

/-- A time is refused exactly when its window is full. -/
theorem Holds.refused_iff {now : τ} {admitted queue : List τ}
    (h : Holds limit start now admitted queue) :
    (offer limit (start now) now queue).1 = false ↔
      (count (start now) now admitted : Int) = limit := by
  have hlaw := h.law now
  unfold offer
  rw [h.length_trim]
  split
  · next hfull => exact ⟨fun _ => le_antisymm hlaw hfull, fun _ => rfl⟩
  · next hfree => exact ⟨fun hfalse => (by cases hfalse), fun heq => absurd (le_of_eq heq.symm) hfree⟩

/-- One call keeps the invariant. -/
theorem Holds.offer (hstart : Monotone start) {now : τ} {admitted queue : List τ}
    (h : Holds limit start now admitted queue) :
    Holds limit start now (admitted ++ stamps (offer limit (start now) now queue).1 now)
      (offer limit (start now) now queue).2 := by
  have hlength := h.length_trim
  obtain ⟨old, heq, hold⟩ := h.recent
  -- What the trim drops lies before the window of `now`.
  have hrecent : ∃ old', admitted = old' ++ trim (start now) queue ∧
      ∀ stamp ∈ old', stamp ≤ start now := by
    refine ⟨old ++ queue.takeWhile (fun stamp => stamp ≤ start now), ?_, ?_⟩
    · rw [List.append_assoc, trim, List.takeWhile_append_dropWhile, heq]
    · intro stamp hmem
      rcases List.mem_append.1 hmem with hmem | hmem
      · exact hold stamp hmem
      · have hdropped := List.mem_takeWhile_imp hmem
        simpa using hdropped
  by_cases hfull : limit ≤ (trim (start now) queue).length
  · have hanswer : Window.offer limit (start now) now queue = (false, trim (start now) queue) :=
      if_pos hfull
    rw [hanswer]
    simpa [stamps] using ({ h with recent := hrecent } : Holds limit start now admitted _)
  · have hanswer :
        Window.offer limit (start now) now queue = (true, trim (start now) queue ++ [now]) :=
      if_neg hfull
    rw [hanswer]
    refine ⟨?_, ?_, ?_, ?_⟩
    · refine List.pairwise_append.2 ⟨h.sorted, List.pairwise_singleton _ _, ?_⟩
      intro stamp hmem other hother
      rw [List.mem_singleton.1 hother]
      exact h.past stamp hmem
    · intro stamp hmem
      rcases List.mem_append.1 hmem with hmem | hmem
      · exact h.past stamp hmem
      · exact le_of_eq (List.mem_singleton.1 hmem)
    · obtain ⟨old', heq', hold'⟩ := hrecent
      exact ⟨old', by rw [heq', List.append_assoc]; rfl, hold'⟩
    · intro t
      rw [count_append, Int.natCast_add]
      by_cases hlt : t < now
      · rw [count_stamps_of_lt hlt]
        simpa using h.law t
      · -- A window that reaches `now` starts no earlier than the window of `now`.
        have hle : count (start t) t admitted ≤ count (start now) now admitted := by
          apply count_le
          intro stamp hmem hin _
          exact ⟨lt_of_le_of_lt (hstart (le_of_not_gt hlt)) hin, h.past stamp hmem⟩
        have hone : count (start t) t (stamps true now) ≤ 1 := count_stamps_le _ _ _ _
        rw [← hlength] at hle
        show (count (start t) t admitted : Int) + (count (start t) t (stamps true now) : Int) ≤ limit
        omega

end

end HitlOps.Window
