import HitlOps.Api.RateLimit
import HitlOps.Domain.Errors
import HitlOps.Infrastructure.Tokens

/-!
# Authenticated actors

`get_actor` of `api/dependencies.py`: the bearer token is validated, and the principal that it names
is charged to its own bucket of the rate limiter.
-/

set_option autoImplicit false

namespace HitlOps.Api

open HitlOps.Python HitlOps.Domain HitlOps.Infrastructure

/-- The identity settings of an application, with the library functions that it runs on. -/
structure IdentityService where
  rt : Runtime
  decode : TokenDecoder
  identitySharedSecret : Option String
  identityIssuer : String
  identityAudience : String

/-- What `get_actor` reads of a request, with the two clocks when it runs. -/
structure ActorRequest where
  authorization : Option String
  now : Time
  current : ℚ

/-- A tenant and an actor. -/
structure Principal where
  tenantId : String
  actorId : String
deriving DecidableEq

/-- The text behind the first blank; `none` is an `IndexError` of `split(" ", 1)[1]`. -/
def afterBlank (text : String) : Option String :=
  match text.toList.dropWhile (· ≠ ' ') with
  | [] => none
  | _ :: rest => some (String.ofList rest)

/-- `authorization.lower().startswith("bearer ")`. -/
def isBearer (rt : Runtime) (authorization : String) : Bool :=
  "bearer ".toList.isPrefixOf (rt.lower authorization).toList

/-- `RateLimitedError(message)`. -/
def rateLimitedError (message : String) : Error :=
  Error.domainError message "RATE_LIMITED" 429 true

namespace IdentityService

/-- The part of `get_actor` before the rate limiter. -/
def authenticate (s : IdentityService) (request : ActorRequest) :
    Except Error AuthenticatedActor :=
  match s.identitySharedSecret with
  | none => .error (.forbiddenError "identity verification is not configured")
  | some secret =>
      match request.authorization with
      | none => .error (.forbiddenError "authenticated context required")
      | some authorization =>
          if authorization = "" ∨ isBearer s.rt authorization = false then
            .error (.forbiddenError "authenticated context required")
          else
            match afterBlank authorization with
            | none => .error (.lookup "list index out of range")
            | some token =>
                match validateToken s.rt s.decode secret s.identityIssuer s.identityAudience
                    (strip token) request.now with
                | none => .error (.forbiddenError "authenticated context required")
                | some actor => .ok actor

end IdentityService

/-- The key of the bucket of a principal. -/
def bucketKey (p : Principal) : String := "actor:" ++ p.tenantId ++ ":" ++ p.actorId

/-- The principal of an actor. -/
def principalOf (actor : AuthenticatedActor) : Principal := ⟨actor.tenantId, actor.actorId⟩

namespace IdentityService

/-- `get_actor`, with the limiter after it. -/
def getActor (s : IdentityService) (r : SlidingWindowRateLimiter) (request : ActorRequest) :
    Except Error AuthenticatedActor × SlidingWindowRateLimiter :=
  match s.authenticate request with
  | .error e => (.error e, r)
  | .ok actor =>
      let (allowed, r') := r.allow (bucketKey (principalOf actor)) request.current
      if allowed then (.ok actor, r')
      else (.error (rateLimitedError "request rate exceeded; retry later"), r')

/-- The principal of a request whose token is accepted. -/
def principal (s : IdentityService) (request : ActorRequest) : Option Principal :=
  match s.authenticate request with
  | .error _ => none
  | .ok actor => some (principalOf actor)

/-- The answers to the requests of a principal, in a run. -/
def answersTo (s : IdentityService) (p : Principal) (r : SlidingWindowRateLimiter) :
    List ActorRequest → List (Except Error AuthenticatedActor)
  | [] => []
  | request :: rest =>
      if s.principal request = some p then
        (s.getActor r request).1 :: s.answersTo p (s.getActor r request).2 rest
      else s.answersTo p (s.getActor r request).2 rest

/-- An accepted token is charged to the bucket of its principal. -/
theorem getActor_of_principal {s : IdentityService} {request : ActorRequest} {p : Principal}
    (h : s.principal request = some p) :
    ∃ actor, ∀ r : SlidingWindowRateLimiter, s.getActor r request =
      (if (r.allow (bucketKey p) request.current).1 then .ok actor
        else .error (rateLimitedError "request rate exceeded; retry later"),
      (r.allow (bucketKey p) request.current).2) := by
  unfold principal at h
  unfold getActor
  cases hauth : s.authenticate request with
  | error e =>
      rw [hauth] at h
      cases h
  | ok actor =>
      rw [hauth] at h
      cases h
      refine ⟨actor, fun r => ?_⟩
      dsimp only
      split <;> rfl

/-- A request that is refused before the limiter does not touch it. -/
theorem getActor_of_none {s : IdentityService} {request : ActorRequest}
    (h : s.principal request = none) (r : SlidingWindowRateLimiter) :
    (s.getActor r request).2 = r := by
  unfold principal at h
  unfold getActor
  cases hauth : s.authenticate request with
  | error e => rfl
  | ok actor =>
      rw [hauth] at h
      cases h

/-- A request of another bucket keeps the agreement. -/
theorem agree_getActor {s : IdentityService} {p : Principal} {r r' : SlidingWindowRateLimiter}
    (h : SlidingWindowRateLimiter.Agree (bucketKey p) r r') {request : ActorRequest}
    (hother : ∀ o, s.principal request = some o → bucketKey o ≠ bucketKey p) :
    SlidingWindowRateLimiter.Agree (bucketKey p) (s.getActor r request).2 r' := by
  cases hp : s.principal request with
  | none =>
      rw [getActor_of_none hp r]
      exact h
  | some o =>
      obtain ⟨actor, heq⟩ := getActor_of_principal hp
      rw [heq r]
      exact h.other request.current (Ne.symm (hother o hp))

/-- The answers to a principal depend on its own requests, when no other one has its bucket. -/
theorem answersTo_filter {s : IdentityService} {p : Principal} (run : List ActorRequest) :
    ∀ {r r' : SlidingWindowRateLimiter}, SlidingWindowRateLimiter.Agree (bucketKey p) r r' →
      (∀ request ∈ run, ∀ o, s.principal request = some o → o ≠ p → bucketKey o ≠ bucketKey p) →
        s.answersTo p r run =
          s.answersTo p r' (run.filter fun request => s.principal request = some p) := by
  induction run with
  | nil => exact fun _ _ => rfl
  | cons request rest ih =>
      intro r r' hagree hothers
      have hrest := fun other hmem => hothers other (List.mem_cons_of_mem request hmem)
      rw [answersTo]
      by_cases hp : s.principal request = some p
      · have hkept : (request :: rest).filter (fun request => s.principal request = some p) =
            request :: rest.filter fun request => s.principal request = some p := by
          simp [hp]
        obtain ⟨actor, heq⟩ := getActor_of_principal hp
        rw [hkept, answersTo, if_pos hp, if_pos hp, heq r, heq r', hagree.answer request.current]
        exact congrArg _ (ih (hagree.both request.current) hrest)
      · have hdropped : (request :: rest).filter (fun request => s.principal request = some p) =
            rest.filter fun request => s.principal request = some p := by
          simp [hp]
        rw [hdropped, if_neg hp]
        apply ih _ hrest
        apply agree_getActor hagree
        intro o ho
        apply hothers request List.mem_cons_self o ho
        rintro rfl
        exact hp ho

end IdentityService

end HitlOps.Api
