import Mathlib.Data.Finset.Order
import Mathlib.Data.Finset.Dedup
import HitlOps.Api.Dependencies
import HitlOps.Scenario

/-!
# The law of the rate limiter

Every window of a minute holds at most the limit of an identity's calls, a call is refused only when
its window is full, and no identity sees the calls of another. Principals do, when the text of their
buckets is the same: the separator may stand inside a tenant and inside an actor.
-/

set_option autoImplicit false

namespace HitlOps.Properties

open HitlOps.Python HitlOps.Domain HitlOps.Infrastructure HitlOps.Api
  HitlOps.Api.SlidingWindowRateLimiter

/-- The start of the window of a reading. -/
def windowStart (t : ℚ) : ℚ := t - 60

theorem monotone_windowStart : Monotone windowStart := fun _ _ h => sub_le_sub_right h 60

/-- The number of calls of an identity that a run allows in the minute up to `t`. -/
def allowedIn (limit : Int) (identity : String) (t : ℚ) (calls : List Call) : Nat :=
  ((fresh limit).allowedTimes identity calls).countP fun x => t - 60 < x && x ≤ t

theorem allowedIn_eq (limit : Int) (identity : String) (t : ℚ) (calls : List Call) :
    allowedIn limit identity t calls =
      Window.count (windowStart t) t ((fresh limit).allowedTimes identity calls) := rfl

/-- After a run, the queue of every identity satisfies the invariant of the window. -/
theorem holds_after {limit : Int} (hlimit : 0 ≤ limit) (identity : String) (calls : List Call) :
    (calls.map (·.current)).Pairwise (· ≤ ·) → ∀ now, (∀ c ∈ calls, c.current ≤ now) →
      Window.Holds limit windowStart now ((fresh limit).allowedTimes identity calls)
        (((fresh limit).after calls).hits identity) := by
  induction calls using List.reverseRecOn with
  | nil => exact fun _ now _ => Window.Holds.empty hlimit now
  | append_singleton calls c ih =>
      intro hsorted now hnow
      rw [List.map_append, List.pairwise_append] at hsorted
      have hearlier : ∀ c' ∈ calls, c'.current ≤ c.current := by
        intro c' hmem
        exact hsorted.2.2 _ (List.mem_map_of_mem hmem) _ (List.mem_singleton_self _)
      have hlater : c.current ≤ now := hnow c (List.mem_append_right _ (List.mem_singleton_self c))
      have hbefore := ih hsorted.1 c.current hearlier
      rw [allowedTimes_concat, after_concat]
      refine Window.Holds.later monotone_windowStart ?_ hlater
      by_cases hid : c.identity = identity
      · subst hid
        have hoffer := hbefore.offer monotone_windowStart
        rw [allow_hits_self, after_limit]
        have hanswer : (fresh limit).answer calls c =
            (Window.offer limit (windowStart c.current) c.current
              (((fresh limit).after calls).hits c.identity)).1 := by
          unfold answer
          rw [allow_answer, after_limit]
          rfl
        rw [hanswer, if_congr (and_iff_left rfl) rfl rfl]
        exact hoffer
      · -- The queue of `identity` is not touched.
        rw [allow_hits_of_ne _ _ (Ne.symm hid), if_neg fun h => hid h.2, List.append_nil]
        exact hbefore

theorem window_law {limit : Int} (hlimit : 1 ≤ limit) (calls : List Call)
    (htimes : (calls.map (·.current)).Pairwise (· ≤ ·)) (identity : String) :
    (∀ t : ℚ, (allowedIn limit identity t calls : Int) ≤ limit) ∧
      (∀ before t rest, calls = before ++ ⟨identity, t⟩ :: rest →
        ((fresh limit).answer before ⟨identity, t⟩ = false ↔
          (allowedIn limit identity t before : Int) = limit)) ∧
      ∀ before t rest, calls = before ++ ⟨identity, t⟩ :: rest →
        (fresh limit).answer before ⟨identity, t⟩ =
          (fresh limit).answer (before.filter fun c => c.identity = identity) ⟨identity, t⟩ := by
  have hnonneg : (0 : Int) ≤ limit := by omega
  refine ⟨?_, ?_, ?_⟩
  · -- The law is the invariant after the whole run, at a time behind all of its calls.
    intro t
    obtain ⟨now, hbound⟩ := (calls.map (·.current)).toFinset.exists_le
    have hnow : ∀ c ∈ calls, c.current ≤ now := by
      intro c hmem
      exact hbound _ (List.mem_toFinset.2 (List.mem_map_of_mem hmem))
    exact (holds_after hnonneg identity calls htimes now hnow).law t
  · rintro before t rest rfl
    rw [List.map_append, List.pairwise_append] at htimes
    have hpast : ∀ c ∈ before, c.current ≤ t := by
      intro c hmem
      exact htimes.2.2 _ (List.mem_map_of_mem hmem) _ List.mem_cons_self
    have hholds := holds_after hnonneg identity before htimes.1 t hpast
    unfold answer
    rw [allow_answer, after_limit]
    exact hholds.refused_iff
  · rintro before t rest -
    exact (agree_after_filter (fresh limit) identity before).answer t

/-- Two callers under a limit of one: each has its own minute, and a hit exactly 60 seconds old has
left the window. -/
theorem window_law_pair :
    let calls : List Call := [⟨"a", 0⟩, ⟨"b", 10⟩, ⟨"a", 60⟩]
    (∀ t : ℚ, (allowedIn 1 "a" t calls : Int) ≤ 1) ∧
      (fresh 1).answer [⟨"a", 0⟩, ⟨"b", 10⟩] ⟨"a", 60⟩ = true := by
  intro calls
  have hlaw := @window_law 1 (by decide) calls (by decide) "a"
  refine ⟨hlaw.1, ?_⟩
  rw [hlaw.2.2 [⟨"a", 0⟩, ⟨"b", 10⟩] 60 [] rfl]
  decide +kernel

/-! ## Principals -/

/-- Two principals whose tenants differ by a part that the actors make up for. -/
def Overlaps (p q : Principal) : Prop :=
  ∃ part : String, q.tenantId = p.tenantId ++ ":" ++ part ∧ p.actorId = part ++ ":" ++ q.actorId

theorem bucketKey_toList (p : Principal) :
    (bucketKey p).toList = "actor:".toList ++ (p.tenantId.toList ++ ':' :: p.actorId.toList) := by
  simp [bucketKey]

/-- A longer tenant takes a part of the actor. -/
theorem overlaps_of_append {p q : Principal} {middle : List Char}
    (htenant : q.tenantId.toList = p.tenantId.toList ++ middle)
    (hactor : ':' :: p.actorId.toList = middle ++ ':' :: q.actorId.toList) :
    p = q ∨ Overlaps p q := by
  -- Without a part in between the colons stand at one place, and the two are the same.
  cases middle with
  | nil =>
      rw [List.append_nil] at htenant
      rw [List.nil_append] at hactor
      left
      cases p
      cases q
      cases String.toList_injective htenant
      cases String.toList_injective (List.tail_eq_of_cons_eq hactor)
      rfl
  | cons c part =>
      rw [List.cons_append] at hactor
      obtain ⟨rfl, hrest⟩ := List.cons_eq_cons.1 hactor
      right
      refine ⟨String.ofList part, ?_, ?_⟩
      · apply String.toList_injective
        rw [htenant]
        simp
      · apply String.toList_injective
        rw [hrest]
        simp

theorem Overlaps.bucketKey_eq {p q : Principal} (h : Overlaps p q) : bucketKey p = bucketKey q := by
  obtain ⟨part, htenant, hactor⟩ := h
  simp only [bucketKey, htenant, hactor, String.append_assoc]

/-- The bucket of one principal is the bucket of another exactly when they overlap. -/
theorem bucketKey_eq_iff {p q : Principal} :
    bucketKey p = bucketKey q ↔ p = q ∨ Overlaps p q ∨ Overlaps q p := by
  constructor
  · intro h
    have htext := congrArg String.toList h
    rw [bucketKey_toList, bucketKey_toList, List.append_cancel_left_eq] at htext
    rcases List.append_eq_append_iff.1 htext with ⟨middle, htenant, hactor⟩ |
      ⟨middle, htenant, hactor⟩
    · rcases overlaps_of_append htenant hactor with heq | hover
      · exact Or.inl heq
      · exact Or.inr (Or.inl hover)
    · rcases overlaps_of_append htenant hactor with heq | hover
      · exact Or.inl heq.symm
      · exact Or.inr (Or.inr hover)
  · rintro (rfl | hover | hover)
    · rfl
    · exact hover.bucketKey_eq
    · exact hover.bucketKey_eq.symm

/-- Every request of a run is from `p`, from one of the others, or from nobody. -/
def RunOf (s : IdentityService) (p : Principal) (others : Set Principal)
    (run : List ActorRequest) : Prop :=
  ∀ request ∈ run, ∀ o, s.principal request = some o → o = p ∨ o ∈ others

/-- The requests of a principal in a run. -/
def requestsOf (s : IdentityService) (p : Principal) (run : List ActorRequest) :
    List ActorRequest :=
  run.filter fun request => s.principal request = some p

/-- The answers to `p` are the same in runs that differ in requests of others only. -/
def Isolated (s : IdentityService) (limit : Int) (p : Principal) (others : Set Principal) : Prop :=
  ∀ run run', RunOf s p others run → RunOf s p others run' →
    requestsOf s p run = requestsOf s p run' →
      s.answersTo p (fresh limit) run = s.answersTo p (fresh limit) run'

theorem isolated_of_disjoint {s : IdentityService} {limit : Int} {p : Principal}
    {others : Set Principal}
    (h : ∀ o ∈ others, o ≠ p → ¬ Overlaps p o ∧ ¬ Overlaps o p) : Isolated s limit p others := by
  intro run run' hrun hrun' hsame
  have hkeys : ∀ (run : List ActorRequest), RunOf s p others run →
      ∀ request ∈ run, ∀ o, s.principal request = some o → o ≠ p → bucketKey o ≠ bucketKey p := by
    intro run hrun request hmem o ho hne hkey
    obtain ⟨hpo, hop⟩ := h o ((hrun request hmem o ho).resolve_left hne) hne
    rcases bucketKey_eq_iff.1 hkey with heq | hover | hover
    · exact hne heq
    · exact hop hover
    · exact hpo hover
  have hagree := Agree.refl (bucketKey p) (fresh limit)
  rw [IdentityService.answersTo_filter run hagree (hkeys run hrun),
    IdentityService.answersTo_filter run' hagree (hkeys run' hrun')]
  exact congrArg _ hsame

/-- Hits of the same reading are all in its window. -/
theorem trim_replicate (n : Nat) :
    Window.trim ((0 : ℚ) - 60) (List.replicate n 0) = List.replicate n 0 := by
  cases n with
  | zero => rfl
  | succ n =>
      have hrecent : ¬ ((0 : ℚ) ≤ 0 - 60) := by decide +kernel
      rw [Window.trim, List.replicate_succ, List.dropWhile_cons_of_neg]
      rwa [decide_eq_true_iff]

/-- A queue of `n` hits of one reading admits another one below the limit. -/
theorem offer_replicate {limit : Int} {n : Nat} :
    Window.offer limit ((0 : ℚ) - 60) 0 (List.replicate n 0) =
      if limit ≤ n then (false, List.replicate n 0) else (true, List.replicate (n + 1) 0) := by
  rw [Window.offer, trim_replicate, List.length_replicate, List.replicate_succ']

/-- Calls at one reading fill the queue up to the limit. -/
theorem hits_after_replicate {limit : Int} (identity : String) (n : Nat) (hn : (n : Int) ≤ limit) :
    ((fresh limit).after (List.replicate n ⟨identity, 0⟩)).hits identity = List.replicate n 0 := by
  induction n with
  | zero => rfl
  | succ n ih =>
      have hfree : ¬ limit ≤ (n : Int) := by omega
      rw [List.replicate_succ', after_concat, allow_hits_self, after_limit, ih (by omega)]
      exact congrArg Prod.snd (offer_replicate.trans (if_neg hfree))

/-- Requests of another principal only move the limiter. -/
theorem answersTo_replicate {s : IdentityService} {p o : Principal} {request : ActorRequest}
    (ho : s.principal request = some o) (hne : o ≠ p) (rest : List ActorRequest) (n : Nat) :
    ∀ r : SlidingWindowRateLimiter, s.answersTo p r (List.replicate n request ++ rest) =
      s.answersTo p (r.after (List.replicate n ⟨bucketKey o, request.current⟩)) rest := by
  have hother : s.principal request ≠ some p := by
    rw [ho]
    rintro ⟨⟩
    exact hne rfl
  induction n with
  | zero => exact fun _ => rfl
  | succ n ih =>
      intro r
      obtain ⟨actor, hactor⟩ := IdentityService.getActor_of_principal ho
      rw [List.replicate_succ, List.cons_append, IdentityService.answersTo, if_neg hother, hactor r,
        ih, List.replicate_succ]
      rfl

/-- A principal whose bucket is another's is refused after that one has spent it. -/
theorem not_isolated {s : IdentityService} {limit : Int} (hlimit : 1 ≤ limit) {p o : Principal}
    {others : Set Principal} {mine theirs : ActorRequest} (ho : o ∈ others) (hne : o ≠ p)
    (hmine : s.principal mine = some p) (htheirs : s.principal theirs = some o)
    (hzero : mine.current = 0) (hzero' : theirs.current = 0)
    (hkey : bucketKey o = bucketKey p) : ¬ Isolated s limit p others := by
  intro hisolated
  obtain ⟨n, rfl⟩ := Int.eq_ofNat_of_zero_le (Int.le_trans Int.one_nonneg hlimit)
  obtain ⟨actor, hactor⟩ := IdentityService.getActor_of_principal hmine
  have hother : s.principal theirs ≠ some p := by
    rw [htheirs]
    rintro ⟨⟩
    exact hne rfl
  have hrun : RunOf s p others (List.replicate n theirs ++ [mine]) := by
    intro request hmem q hq
    rcases List.mem_append.1 hmem with hmem | hmem
    · rw [(List.mem_replicate.1 hmem).2, htheirs] at hq
      cases hq
      exact Or.inr ho
    · rw [List.mem_singleton.1 hmem, hmine] at hq
      cases hq
      exact Or.inl rfl
  have hrun' : RunOf s p others [mine] := by
    intro request hmem q hq
    rw [List.mem_singleton.1 hmem, hmine] at hq
    cases hq
    exact Or.inl rfl
  have hsame : requestsOf s p (List.replicate n theirs ++ [mine]) = requestsOf s p [mine] := by
    unfold requestsOf
    rw [List.filter_append, List.filter_eq_nil_iff.2, List.nil_append]
    intro request hmem
    rw [(List.mem_replicate.1 hmem).2]
    simpa using hother
  have hanswers := hisolated _ _ hrun hrun' hsame
  rw [answersTo_replicate htheirs hne] at hanswers
  -- The run with the other principal ends in a refusal, the run without in an acceptance.
  have hfull : (((fresh n).after (List.replicate n ⟨bucketKey o, theirs.current⟩)).allow
      (bucketKey p) mine.current).1 = false := by
    rw [allow_answer, after_limit, hzero, hzero', hkey, hits_after_replicate _ n (Int.le_refl _)]
    exact congrArg Prod.fst (offer_replicate.trans (if_pos (Int.le_refl _)))
  have hfree : ((fresh n).allow (bucketKey p) mine.current).1 = true := by
    rw [allow_answer, hzero]
    have hone : ¬ (n : Int) ≤ (0 : Nat) := by omega
    exact congrArg Prod.fst ((@offer_replicate n 0).trans (if_neg hone))
  simp only [IdentityService.answersTo, if_pos hmine, hactor, hfull, hfree, if_true,
    Bool.false_eq_true, if_false] at hanswers
  cases hanswers

theorem budgets_are_separate {s : IdentityService} {limit : Int} (hlimit : 1 ≤ limit)
    {p : Principal} {others : Set Principal}
    (htokens : ∀ o, o = p ∨ o ∈ others →
      ∃ authorization now, s.principal ⟨authorization, now, 0⟩ = some o) :
    Isolated s limit p others ↔ ∀ o ∈ others, o ≠ p → ¬ Overlaps p o ∧ ¬ Overlaps o p := by
  constructor
  · intro hisolated o ho hne
    obtain ⟨authorization, now, hmine⟩ := htokens p (Or.inl rfl)
    obtain ⟨authorization', now', htheirs⟩ := htokens o (Or.inr ho)
    have hdistinct : bucketKey o ≠ bucketKey p := fun hkey =>
      not_isolated hlimit ho hne hmine htheirs rfl rfl hkey hisolated
    exact ⟨fun hover => hdistinct hover.bucketKey_eq.symm, fun hover => hdistinct hover.bucketKey_eq⟩
  · exact isolated_of_disjoint

/-- A service that knows two tokens. -/
def twoTokens (one two : Principal) : IdentityService where
  rt := Scenario.runtime
  decode := fun _ _ _ token _ =>
    if token = "one" then some [("sub", .str one.actorId), ("tenant", .str one.tenantId)]
    else if token = "two" then some [("sub", .str two.actorId), ("tenant", .str two.tenantId)]
    else none
  identitySharedSecret := some "secret"
  identityIssuer := "issuer"
  identityAudience := "audience"

/-- Two tenants with an actor of the same name. -/
theorem budgets_are_separate_tenants :
    Isolated (twoTokens ⟨"tenant-1", "user"⟩ ⟨"tenant-2", "user"⟩) 1 ⟨"tenant-1", "user"⟩
      {⟨"tenant-2", "user"⟩} := by
  refine (@budgets_are_separate (twoTokens ⟨"tenant-1", "user"⟩ ⟨"tenant-2", "user"⟩) 1 (by decide)
    ⟨"tenant-1", "user"⟩ {⟨"tenant-2", "user"⟩} ?_).2 ?_
  · rintro o (rfl | rfl)
    · exact ⟨some "bearer one", 0, by decide⟩
    · exact ⟨some "bearer two", 0, by decide⟩
  · rintro o rfl -
    have hkey : bucketKey ⟨"tenant-1", "user"⟩ ≠ bucketKey ⟨"tenant-2", "user"⟩ := by decide
    exact ⟨fun hover => hkey hover.bucketKey_eq, fun hover => hkey hover.bucketKey_eq.symm⟩

/-- The actor `b:c` of the tenant `a` has the bucket of the actor `c` of the tenant `a:b`. -/
theorem colon_shares_budget :
    ¬ Isolated (twoTokens ⟨"a", "b:c"⟩ ⟨"a:b", "c"⟩) 1 ⟨"a", "b:c"⟩ {⟨"a:b", "c"⟩} :=
  @not_isolated (twoTokens ⟨"a", "b:c"⟩ ⟨"a:b", "c"⟩) 1 (by decide) ⟨"a", "b:c"⟩ ⟨"a:b", "c"⟩
    {⟨"a:b", "c"⟩} ⟨some "bearer one", 0, 0⟩ ⟨some "bearer two", 0, 0⟩ rfl (by decide) (by decide)
    (by decide) rfl rfl (by decide)

end HitlOps.Properties
