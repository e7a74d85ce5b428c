import HitlOps.Lifecycle.Idempotency
import HitlOps.Scenario

/-!
# Requests with one idempotency key

Of the requests to a route with one key, at most one commits effects. Every later one is answered
from its record: with the recorded outcome, or with a conflict when it is another request.
-/

set_option autoImplicit false

namespace HitlOps.Properties

open HitlOps.Python HitlOps.Domain HitlOps.Infrastructure HitlOps.Application
open HitlOps.Transaction HitlOps.Lifecycle
open HitlOps.Api (Request Response)

/-- Two requests to one route by one actor of one tenant, with one idempotency key. -/
structure SameKey (request : Request) (route : Route) (request' : Request) (route' : Route) :
    Prop where
  tenant : request.actor.tenantId = request'.actor.tenantId
  actor : request.actor.actorId = request'.actor.actorId
  key : request.idempotencyKey = request'.idempotencyKey
  route : scopeOf route = scopeOf route'

theorem keyOf_eq_of_sameKey (rt : Runtime) {request request' : Request} {route route' : Route}
    (h : SameKey request route request' route') : keyOf rt request route = keyOf rt request' route' := by
  unfold keyOf Api.recordKey
  rw [h.tenant, h.actor, h.key, h.route]

/-- A request is told the outcome that is recorded as `status` and `body`. -/
def Hears (status : Nat) (body : Dict) (r : Except Error Result) : Prop :=
  ∃ answer : Except Error Response, r = answer.map .response ∧ Conveys status body answer

/-! ## Records that are found -/

section Records

variable {rt : Runtime} {allowed : Op → Prop} {s s' : State} {key : IdempotencyKey}
  {requestHash : String} {record : IdempotencyRecord}

theorem found_of_prefix {db db' : Store} (h : db.idempotency <+: db'.idempotency)
    (hfound : db.idempotency? key = some record) : db'.idempotency? key = some record := by
  obtain ⟨rest, hrest⟩ := h
  unfold Store.idempotency? at hfound ⊢
  rw [← hrest, List.find?_append, hfound]
  rfl

/-- A stored record is the one that its key finds. -/
theorem found_of_mem (h : Run rt allowed s) (hmem : record ∈ s.db.idempotency) :
    s.db.idempotency? record.key = some record := by
  cases hfound : s.db.idempotency? record.key with
  | none => exact absurd (decide_eq_true rfl) (List.find?_eq_none.1 hfound record hmem)
  | some other =>
      have hkey := List.find?_some (p := fun r : IdempotencyRecord => r.key = record.key) hfound
      rw [List.inj_on_of_nodup_map (idempotencyKeys_nodup h) (List.mem_of_find?_eq_some hfound) hmem
        (of_decide_eq_true hkey)]

/-- A process that starts later is shown the record first. -/
theorem shown_first (h : Run rt allowed s) (hl : Leads rt allowed s s')
    (hfound : s.db.idempotency? key = some record) {pid : Nat} {p : Proc Db Error Result Op}
    (hpid : s.next ≤ pid) (hp : s'.procs pid = some p) {σ : Store}
    (hσ : History.opening p.history = some σ) : σ.idempotency? key = some record := by
  obtain ⟨assignments, bundles, h⟩ := h
  have hopened := opened_of_steps (P := fun σ : Store => σ.idempotency? key = some record)
    (fun s₁ s₂ hr hstep hfound₁ => found_of_prefix
      (records_prefix_of_step (.of assignments bundles hr) hstep) hfound₁) h hfound hl
  exact hopened.procs pid p hpid hp σ hσ

/-- A route that was shown a record of its key first has written nothing. -/
theorem silent_of_kept {h : List (Obs Db)} (hkept : (serving key requestHash).Kept h)
    (hfound : ∀ σ, History.opening h = some σ → σ.idempotency? key = some record) :
    History.writes h = [] := by
  induction h with
  | nil => rfl
  | cons o h ih =>
      have hrest : (serving key requestHash).Kept h → History.writes h = [] := by
        intro hk
        refine ih hk fun σ hσ => hfound σ ?_
        rw [History.opening_cons_of_ne (ne_nil_of_opening hσ), hσ]
      -- The statement was the first one, or it ended the session.
      have hcase : ∀ st, Serves key requestHash h st → st = .select ∨ st = .commit ∨ st = .rollback := by
        intro st hserves
        rcases hserves.opens with ⟨-, hselect⟩ | ⟨σ, hσ⟩
        · exact .inl hselect
        · refine .inr (hserves.replays σ record hσ (hfound σ ?_))
          rw [History.opening_cons_of_ne (ne_nil_of_opening hσ), hσ]
      cases o with
      | sent c => exact hrest hkept.2
      | did st r =>
          cases st with
          | select => exact hrest hkept.2
          | commit => rfl
          | rollback => rfl
          | call c => exact hrest hkept
          | _ => rcases hcase _ hkept.1 with hst | hst | hst <;> cases hst

end Records

/-! ## Later requests -/

/-- How a later request with the key is served: it never waits and never writes, and it is told the
recorded outcome, or a conflict when it is another request. -/
structure ServedFrom (rt : Runtime) (requestHash : String) (status : Nat) (body : Dict) (s : State)
    (pid : Nat) (p : Proc Db Error Result Op) (route : Route) : Prop where
  runs : p.outcome? = none → (s.step (code rt) (.run pid)).isSome = true
  silent : History.writes p.history = []
  same : hashOf rt route = requestHash → ∀ r, p.outcome? = some r → Hears status body r
  other : hashOf rt route ≠ requestHash → ∀ r, p.outcome? = some r → r = .error conflict

section Later

variable {rt : Runtime} {allowed : Op → Prop} {s : State} {pid : Nat}
  {p : Proc Db Error Result Op} {request : Request} {route : Route}

/-- A statement that never waits. -/
theorem isSome_step (hp : s.procs pid = some p) (hw : p.waiting = false) {st : Stmt Db}
    {k : st.Resp → M Result} (hprog : p.prog = .stmt st k)
    (hst : st = .select ∨ st = .commit ∨ st = .rollback) :
    (s.step (code rt) (.run pid)).isSome = true := by
  simp only [Sys.step, hp, hw, hprog, Bool.false_eq_true, if_false]
  rcases hst with rfl | rfl | rfl <;> rfl

theorem servedFrom_record (h : Run rt allowed s) (hp : s.procs pid = some p)
    (hop : p.op = .route request route) {requestHash : String} {status : Nat} {body : Dict}
    (hfound : ∀ σ, History.opening p.history = some σ → σ.idempotency? (keyOf rt request route) =
      some (completeRecord (keyOf rt request route) requestHash status body)) :
    ServedFrom rt requestHash status body s pid p route := by
  obtain ⟨hkept, hcontinues⟩ := (obliged_of_run h).1.procs pid p hp
  rw [hop] at hkept hcontinues
  have hserves : ∀ {h st}, Serves (keyOf rt request route) (hashOf rt route) h st →
      (∀ σ, History.opening h = some σ → History.opening p.history = some σ) →
        st = .select ∨ st = .commit ∨ st = .rollback := by
    intro h st hserves hsame
    rcases hserves.opens with ⟨-, hselect⟩ | ⟨σ, hσ⟩
    · exact .inl hselect
    · exact .inr (hserves.replays σ _ hσ (hfound σ (hsame σ hσ)))
  have hreplays : ∀ r, p.outcome? = some r → ∃ answer : Except Error Response,
      r = answer.map .response ∧ Replays (hashOf rt route)
        (completeRecord (keyOf rt request route) requestHash status body) answer := by
    intro r hr
    have htold := hcontinues.post hr
    rw [hop] at htold
    obtain ⟨answer, hanswer, hserved⟩ := htold
    obtain ⟨σ, hσ⟩ := hserved.begun
    exact ⟨answer, hanswer, hserved.replay σ _ hσ (hfound σ hσ)⟩
  refine ⟨fun hnone => ?_, silent_of_kept hkept hfound, fun hhash r hr => ?_, fun hhash r hr => ?_⟩
  · cases hw : p.waiting with
    | true =>
        -- A replay sends no call that it could wait for.
        simp only [Watch.Continues, hw, if_true] at hcontinues
        obtain ⟨c, k, g, -, hhistory, -⟩ := hcontinues
        rw [hhistory] at hkept
        rcases hserves hkept.1 fun σ hσ => by
          rw [hhistory, History.opening_cons_of_ne (ne_nil_of_opening hσ), hσ] with hst | hst | hst <;>
          cases hst
    | false =>
        have hwp := hcontinues.wp hw
        cases hprog : p.prog with
        | ret a => simp only [Proc.outcome?, hprog, reduceCtorEq] at hnone
        | raise x => simp only [Proc.outcome?, hprog, reduceCtorEq] at hnone
        | stmt st k =>
            rw [hprog] at hwp
            exact isSome_step hp hw hprog (hserves hwp.1 fun _ hσ => hσ)
  · obtain ⟨answer, hanswer, hreplay⟩ := hreplays r hr
    unfold Replays at hreplay
    rw [if_pos hhash.symm] at hreplay
    obtain ⟨status', body', hs, hb, hconveys⟩ := hreplay
    obtain rfl := Option.some.inj hs
    obtain rfl := Option.some.inj hb
    exact ⟨answer, hanswer, hconveys⟩
  · obtain ⟨answer, hanswer, hreplay⟩ := hreplays r hr
    unfold Replays at hreplay
    rw [if_neg fun heq => hhash heq.symm] at hreplay
    rw [hanswer, hreplay]
    rfl

end Later

/-! ## Committed effects -/

section Effects

variable {rt : Runtime} {allowed : Op → Prop} {s : State}

theorem continued_of_run (h : Run rt allowed s) : Continued s := by
  obtain ⟨assignments, bundles, h⟩ := h
  exact continued_of_reachable h

/-- Two events with effects under one key are one event. -/
theorem once_of_run (h : Run rt allowed s) {e e' : Entry} (he : e ∈ s.trace) (he' : e' ∈ s.trace)
    (hne : e ≠ e') (heffective : Effective e) (heffective' : Effective e')
    {request request' : Request} {route route' : Route} (hop : e.op = .route request route)
    (hop' : e'.op = .route request' route') :
    keyOf rt request route ≠ keyOf rt request' route' := by
  have : Std.Symm fun e e' : Entry => Effective e → Effective e' →
      ∀ request route request' route', e.op = .route request route →
        e'.op = .route request' route' → keyOf rt request route ≠ keyOf rt request' route' :=
    ⟨fun _ _ hR h₁ h₂ _ _ _ _ hop₁ hop₂ => (hR h₂ h₁ _ _ _ _ hop₂ hop₁).symm⟩
  exact (oncePerKey_of_run h).once.forall he he' hne heffective heffective' _ _ _ _ hop hop'

end Effects

/-! ## The property -/

/-- What a committed effect of a route means for the requests with its key. -/
structure Decides (rt : Runtime) (allowed : Op → Prop) (s : State) (e : Entry) (request : Request)
    (route : Route) (status : Nat) (body : Dict) : Prop where
  records : .completeIdempotency (keyOf rt request route) status body ∈ History.writes e.history
  original : ∀ p r, s.procs e.pid = some p → p.outcome? = some r → Hears status body r
  unchanged : ∀ s', Leads rt allowed s s' → ∀ e' ∈ s'.trace, s.next ≤ e'.pid →
    ∀ request' route', e'.op = .route request' route' → SameKey request route request' route' →
      ¬ Effective e'
  later : ∀ s', Leads rt allowed s s' → ∀ pid p, s.next ≤ pid → s'.procs pid = some p →
    ∀ request' route', p.op = .route request' route' → SameKey request route request' route' →
      ServedFrom rt (hashOf rt route) status body s' pid p route'

/-- Of the requests with one key at most one commits effects, and the later ones are answered from
its record; no record that is committed is pending. -/
theorem one_outcome_per_key {rt : Runtime} {allowed : Op → Prop} {s : State}
    (h : Run rt allowed s) :
    (s.trace.Pairwise fun e e' => Effective e → Effective e' →
      ∀ request route request' route', e.op = .route request route →
        e'.op = .route request' route' → ¬ SameKey request route request' route') ∧
    (∀ e ∈ s.trace, Effective e → ∀ request route, e.op = .route request route →
      ∃ status body, Decides rt allowed s e request route status body) ∧
    ∀ record ∈ s.db.idempotency, record.status = .completed := by
  have honce := oncePerKey_of_run h
  -- The first effective request writes the record; all parts below are about that write.
  refine ⟨?_, ?_, fun record hrecord => ((obliged_of_run h).2 record hrecord).1⟩
  · refine honce.once.imp fun hdiffers he he' request route request' route' hop hop' hsame => ?_
    exact hdiffers he he' request route request' route' hop hop' (keyOf_eq_of_sameKey rt hsame)
  · intro e he heffective request route hop
    obtain ⟨status, body, hrecords, hmem⟩ := honce.recorded e he heffective request route hop
    obtain ⟨hearlier, hcontinued⟩ := continued_of_run h e he heffective.1
    refine ⟨status, body, ?_, ?_, ?_, ?_⟩
    · obtain ⟨mid, -, heq⟩ := hrecords
      rw [heq]
      exact List.mem_cons_of_mem _ (List.mem_append_right _ List.mem_cons_self)
    -- The first request itself: it answers with what it has recorded.
    · intro p r hp hr
      obtain ⟨hop', hsuffix⟩ := hcontinued p hp
      have htold := ((obliged_of_run h).1.procs e.pid p hp).2.post hr
      rw [hop', hop] at htold
      obtain ⟨answer, hanswer, hserved⟩ := htold
      rcases hserved.original e.history hsuffix with hnone | ⟨status', body', hrecords', hconveys⟩
      · exact absurd hnone heffective.2
      · obtain ⟨rfl, rfl⟩ := hrecords.inj hrecords'
        exact ⟨answer, hanswer, hconveys⟩
    -- A later request that commits effects would be a second one of the key.
    · intro s' hl e' he' hlater request' route' hop' hsame heffective'
      have hmem := (trace_suffix_of_steps hl).subset he
      have hne : e ≠ e' := by
        rintro rfl
        exact absurd hlater (Nat.not_le_of_lt hearlier)
      exact once_of_run (hl.run h) hmem he' hne heffective heffective' hop hop'
        (keyOf_eq_of_sameKey rt hsame)
    -- A request that starts later sees the record in every snapshot.
    · intro s' hl pid p hpid hp request' route' hop' hsame
      have hkey := keyOf_eq_of_sameKey rt hsame
      refine servedFrom_record (hl.run h) hp hop' fun σ hσ => ?_
      rw [← hkey]
      exact shown_first h hl (found_of_mem h hmem) hpid hp hσ

/-! ## A cancellation that is sent twice -/

/-- Rachel's request, under one key. -/
def cancellationRequest : Request := ⟨Scenario.actor "rachel" (by decide), "key-1", "corr"⟩

/-- Rachel cancels her request. -/
def cancellation : Op :=
  .route cancellationRequest (.cancelIntent Scenario.intentId ⟨1, "not needed", 1, by decide⟩)

def cancelledOnce : List (Move Db Op) :=
  Scenario.complete 0 (.create (Scenario.creation .deleteResource))
    ++ Scenario.complete 1 cancellation

def cancelledTwice : List (Move Db Op) := cancelledOnce ++ Scenario.complete 2 cancellation

/-- The tenant, the actor, the key and the route of a request. -/
def client? : Op → Option (String × String × String × String)
  | .route request route =>
      some (request.actor.tenantId, request.actor.actorId, request.idempotencyKey, scopeOf route)
  | _ => none

theorem route_of_client {op : Op} {tenant actor key scope : String}
    (h : client? op = some (tenant, actor, key, scope)) :
    ∃ request route, op = .route request route ∧ request.actor.tenantId = tenant ∧
      request.actor.actorId = actor ∧ request.idempotencyKey = key ∧ scopeOf route = scope := by
  cases op with
  | route request route =>
      cases h
      exact ⟨request, route, rfl, rfl, rfl, rfl, rfl⟩
  | _ => cases h

/-- The event is a commit with writes. -/
def effective? (e : Entry) : Bool :=
  match e.act with
  | .commit => !(History.writes e.history).isEmpty
  | .call _ => false

theorem effective_of_bool {e : Entry} (h : effective? e = true) : Effective e := by
  unfold effective? at h
  split at h
  · next hact =>
      refine ⟨hact, fun hnil => ?_⟩
      rw [hnil] at h
      cases h
  · cases h

set_option maxRecDepth 100000 in
/-- The second cancellation is served from the record of the first one. -/
theorem one_outcome_per_key_replayed : ∃ e request route status body p request' route',
    Decides Scenario.runtime (fun _ => True) (Scenario.after cancelledOnce) e request route status
      body ∧
    (Scenario.after cancelledTwice).procs 2 = some p ∧ p.op = .route request' route' ∧
    ServedFrom Scenario.runtime (hashOf Scenario.runtime route) status body
      (Scenario.after cancelledTwice) 2 p route' := by
  have hrun := Scenario.run_after (fun _ => True) cancelledOnce fun _ _ => trivial
  have hleads : Leads Scenario.runtime (fun _ => True) (Scenario.after cancelledOnce)
      (Scenario.after cancelledTwice) := by
    unfold Scenario.after cancelledTwice Sys.play
    rw [List.foldl_append]
    exact Sys.steps_play _ (Scenario.complete 2 cancellation) fun _ _ => trivial
  have hfacts : (Scenario.after cancelledOnce).next ≤ 2 ∧
      (Scenario.after cancelledOnce).trace.any (fun e => effective? e &&
        client? e.op = some ("acme", "rachel", "key-1", "cancellations")) = true ∧
      ((Scenario.after cancelledTwice).procs 2).map (fun p => client? p.op) =
        some (some ("acme", "rachel", "key-1", "cancellations")) := by
    decide +kernel
  obtain ⟨hnext, hany, hsecond⟩ := hfacts
  obtain ⟨e, he, hboth⟩ := List.any_eq_true.1 hany
  rw [Bool.and_eq_true, decide_eq_true_eq] at hboth
  obtain ⟨request, route, hop, ht, ha, hk, hr⟩ := route_of_client hboth.2
  obtain ⟨p, hp, hclient⟩ := Option.map_eq_some_iff.1 hsecond
  obtain ⟨request', route', hop', ht', ha', hk', hr'⟩ := route_of_client hclient
  have hsame : SameKey request route request' route' :=
    ⟨ht.trans ht'.symm, ha.trans ha'.symm, hk.trans hk'.symm, hr.trans hr'.symm⟩
  obtain ⟨status, body, hdecides⟩ :=
    (one_outcome_per_key hrun).2.1 e he (effective_of_bool hboth.1) request route hop
  exact ⟨e, request, route, status, body, p, request', route', hdecides, hp, hop',
    hdecides.later _ hleads 2 p hnext hp request' route' hop' hsame⟩

end HitlOps.Properties
