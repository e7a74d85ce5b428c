import HitlOps.Lifecycle.Keys
import HitlOps.Lifecycle.Reservations

/-!
# Mutation routes under their keys

Every mutation route meets the obligations of its reservation, and it answers with the record of its
key: with one that it found, or with the one that it has written. The other operations leave the
records alone. So the records of a store are complete, and a transaction adds its own one at most.
-/

set_option autoImplicit false

namespace HitlOps.Lifecycle

open HitlOps.Python HitlOps.Domain HitlOps.Infrastructure HitlOps.Application HitlOps.Transaction
open HitlOps.Api

section Rules

variable {rt : Runtime} {key : IdempotencyKey} {requestHash : String} {h : List (Obs Db)}

/-- The session has run its command and written the outcome to its record. -/
structure Completed (key : IdempotencyKey) (requestHash : String) (status : Nat) (body : Dict)
    (h : List (Obs Db)) : Prop extends Fresh key h where
  records : Records key requestHash status body (History.writes h)

theorem wp_complete (hr : Running key requestHash h) (status : Nat) (body : Dict)
    {Q : Except Error Unit → List (Obs Db) → Prop}
    (hx : ∀ x h', Benign x → Fresh key h' → Q (.error x) h')
    (hok : ∀ h', Completed key requestHash status body h' → Q (.ok ()) h') :
    (serving key requestHash).wp (complete key status body) Q h := by
  unfold complete
  have hselect : Inner .select := trivial
  refine Watch.wp_bind (wp_lookupRecord (hr.step hselect).1 fun seen _ => ?_)
  have hr' : Running key requestHash (.did .select seen :: h) := (hr.step hselect).2 seen
  generalize seen.1.idempotency? key = found
  cases found with
  | none => exact hx _ _ rfl hr'.toFresh
  | some record =>
      refine Watch.wp_bind (Watch.wp_raiseIf (fun _ => hx _ _ rfl hr'.toFresh) fun _ => ?_)
      have hwrite : Stays (.write (.completeIdempotency key status body)) := fun _ => rfl
      refine ⟨hr'.serves fun hcommit => (by cases hcommit), fun _ _ => hok _ ⟨hr'.longer hwrite (), ?_⟩⟩
      obtain ⟨mid, hmid, heq⟩ := hr'.reserved
      exact ⟨mid, hmid, congrArg (fun ws => ws ++ [Write.completeIdempotency key status body]) heq⟩

/-- What a request with the hash is told when its key has the record. -/
def Replays (requestHash : String) (record : IdempotencyRecord) (r : Except Error Response) :
    Prop :=
  if record.requestHash = requestHash then
    ∃ status body, record.responseStatus = some status ∧ record.responseBody = some body ∧
      Conveys status body r
  else r = .error conflict

theorem replays_of_ne {record : IdempotencyRecord} (h : record.requestHash ≠ requestHash) :
    Replays requestHash record (.error conflict) := by
  unfold Replays
  rw [if_neg h]

theorem replays_of_eq {record : IdempotencyRecord} (h : record.requestHash = requestHash)
    {status : Nat} {body : Dict} (hs : record.responseStatus = some status)
    (hb : record.responseBody = some body) {r : Except Error Response} (hr : Conveys status body r) :
    Replays requestHash record r := by
  unfold Replays
  rw [if_pos h]
  exact ⟨status, body, hs, hb, hr⟩

/-- How the body of a route ends. -/
inductive Ends (key : IdempotencyKey) (requestHash : String) (r : Except Error Response)
    (h : List (Obs Db)) : Prop
  | replayed (record : IdempotencyRecord) (hp : Prior key record h)
      (hr : Replays requestHash record r) (hx : ∀ x, r = .error x → Benign x)
  | recorded (status : Nat) (body : Dict) (hc : Completed key requestHash status body h)
      (hrec : Recordable key.scope status body) (hr : Conveys status body r)
      (hx : ∀ x, r = .error x → x.isException = true ∧ x.persistState = true)
  | failed (x : Error) (hr : r = .error x) (hx : Benign x) (hf : Fresh key h)

/-- What a request is told, and what its transaction has recorded. -/
structure Served (key : IdempotencyKey) (requestHash : String) (r : Except Error Response)
    (h : List (Obs Db)) : Prop where
  begun : ∃ σ, History.opening h = some σ
  replay : ∀ σ record, History.opening h = some σ → σ.idempotency? key = some record →
    Replays requestHash record r
  original : ∀ h', .did .commit () :: h' <:+ h → History.writes h' = [] ∨
    ∃ status body, Records key requestHash status body (History.writes h') ∧ Conveys status body r

theorem ne_nil_of_opening {σ : Store} (hσ : History.opening h = some σ) : h ≠ [] := by
  rintro rfl
  cases hσ

/-- The commit of an open session that has ended now. -/
theorem eq_of_commit_suffix (hgoing : ended h = false) {o : Obs Db} {h' : List (Obs Db)}
    (hs : .did .commit () :: h' <:+ o :: h) : o = .did .commit () ∧ h' = h := by
  rcases List.suffix_cons_iff.1 hs with heq | hs
  · exact ⟨(List.cons.inj heq).1.symm, (List.cons.inj heq).2⟩
  · have hended : ended h = true := List.any_eq_true.2 ⟨_, hs.subset List.mem_cons_self, rfl⟩
    rw [hgoing] at hended
    cases hended

theorem served_of_prior {record : IdempotencyRecord} (hp : Prior key record h) {o : Obs Db}
    {r : Except Error Response} (hr : Replays requestHash record r) :
    Served key requestHash r (o :: h) := by
  obtain ⟨σ, hσ⟩ := hp.begun
  have hopening := History.opening_cons_of_ne (o := o) (ne_nil_of_opening hσ)
  refine ⟨⟨σ, hopening.trans hσ⟩, fun σ' found hσ' hfound => ?_, fun h' hs => ?_⟩
  · rw [hp.first σ' found (hopening.symm.trans hσ') hfound]
    exact hr
  · exact .inl ((eq_of_commit_suffix hp.going hs).2 ▸ hp.silent)

theorem served_of_fresh (hf : Fresh key h) {o : Obs Db} {r : Except Error Response}
    (horiginal : o = .did .commit () → ∃ status body,
      Records key requestHash status body (History.writes h) ∧ Conveys status body r) :
    Served key requestHash r (o :: h) := by
  obtain ⟨σ, hσ, hnone⟩ := hf.first
  have hopening := (History.opening_cons_of_ne (o := o) hf.ne_nil).trans hσ
  refine ⟨⟨σ, hopening⟩, fun σ' found hσ' hfound => ?_, fun h' hs => ?_⟩
  · rw [hopening, Option.some.injEq] at hσ'
    rw [← hσ', hnone] at hfound
    cases hfound
  · obtain ⟨ho, rfl⟩ := eq_of_commit_suffix hf.going hs
    exact .inr (horiginal ho)

/-- The session of a route commits its record or nothing. -/
theorem wp_route_session {body : M Response}
    (hbody : (serving key requestHash).wp body (Ends key requestHash) []) :
    (serving key requestHash).wp (getSession body) (Served key requestHash) [] := by
  unfold getSession
  refine Watch.wp_handle (Watch.wp_bind (Watch.wp_mono (fun r h hends => ?_) hbody))
  cases hends with
  | replayed record hp hr hx =>
      cases r with
      | ok response => exact ⟨hp.serves (.inl rfl), fun _ _ => served_of_prior hp hr⟩
      | error x =>
          refine Watch.wp_ite (fun hpersist => ?_) fun _ => ?_
          · exact absurd hpersist.2 (Bool.eq_false_iff.1 (hx x rfl))
          · exact ⟨hp.serves (.inr rfl), fun _ _ => served_of_prior hp hr⟩
  | recorded status body hc hrec hr hx =>
      have hcommit : Serves key requestHash h .commit :=
        hc.serves fun _ => .inr ⟨status, body, hc.records, hrec⟩
      cases r with
      | ok response =>
          exact ⟨hcommit, fun _ _ => served_of_fresh hc.toFresh fun _ => ⟨_, _, hc.records, hr⟩⟩
      | error x =>
          refine Watch.wp_ite (fun _ => ?_) fun hother => absurd (hx x rfl) hother
          exact ⟨hcommit, fun _ _ => served_of_fresh hc.toFresh fun _ => ⟨_, _, hc.records, hr⟩⟩
  | failed x hr hx hf =>
      subst hr
      refine Watch.wp_ite (fun hpersist => ?_) fun _ => ?_
      · exact absurd hpersist.2 (Bool.eq_false_iff.1 hx)
      · exact ⟨hf.serves fun hcommit => (by cases hcommit),
          fun _ _ => served_of_fresh hf fun ho => (by cases ho)⟩

/-! ## Bodies -/

/-- A route that records successes only. -/
theorem wp_idempotent {request : Request} {scope : String} {payload : Dict} {status : Nat}
    {command : M Dict} (hscope : scope ≠ "approvals") (hstatus : status = statusOf scope)
    (hcommand : command.Uses Inner Benign) :
    (serving (recordKey rt request scope) (canonicalRequestHash rt payload)).wp
      (idempotent rt request scope payload status command)
      (Ends (recordKey rt request scope) (canonicalRequestHash rt payload)) [] := by
  have hlt : status < 400 := hstatus ▸ statusOf_lt scope
  refine Watch.wp_bind (Watch.wp_bind (wp_begin ?_ ?_ ?_))
  · intro record h hp hne
    refine .replayed record hp (replays_of_ne hne) fun x hx => ?_
    cases hx
    rfl
  · intro record h status' body hp hhash hs hb hrec
    have heq : status' = status := by
      rcases hrec with hrec | ⟨happrovals, -⟩
      · exact hrec.trans hstatus.symm
      · exact absurd happrovals hscope
    subst heq
    exact .replayed record hp (replays_of_eq hhash hs hb ⟨rfl, hlt⟩) fun x hx => by cases hx
  · intro h hr
    have hfail : ∀ x h', Benign x → Fresh (recordKey rt request scope) h' →
        Ends (recordKey rt request scope) (canonicalRequestHash rt payload) (.error x) h' :=
      fun x h' hx hf => .failed x rfl hx hf
    refine Watch.wp_bind (wp_command hcommand hr (fun x h' hr' hx => hfail x h' hx hr'.toFresh)
      fun response h' hr' => ?_)
    refine Watch.wp_bind (wp_complete hr' status response hfail fun h'' hc => ?_)
    exact .recorded status response hc (.inl hstatus) ⟨rfl, hlt⟩ fun x hx => by cases hx

/-- A decision records successes and elapsed windows. -/
theorem wp_decideApprovalBody {request : Request} {intentId : UUID} {body : ApprovalBody} :
    (serving (recordKey rt request "approvals")
      (canonicalRequestHash rt (("intent_id", .str intentId.text) :: body.modelDump))).wp
        (decideApprovalBody rt request intentId body)
        (Ends (recordKey rt request "approvals")
          (canonicalRequestHash rt (("intent_id", .str intentId.text) :: body.modelDump))) [] := by
  unfold decideApprovalBody
  generalize canonicalRequestHash rt (("intent_id", .str intentId.text) :: body.modelDump) = hash
  refine Watch.wp_bind (wp_begin ?_ ?_ ?_)
  · intro record h hp hne
    refine .replayed record hp (replays_of_ne hne) fun x hx => ?_
    cases hx
    rfl
  · intro record h status stored hp hhash hs hb hrec
    refine Watch.wp_ite (fun herror => ?_) fun hsuccess => ?_
    · -- The recorded error is raised again.
      refine .replayed record hp (replays_of_eq hhash hs hb ?_) fun x hx => ?_
      · rcases hrec with hrec | ⟨-, hge, code, message, rfl⟩
        · exact absurd herror (Nat.not_le_of_lt (hrec ▸ statusOf_lt _))
        · exact ⟨rfl, hge, rfl⟩
      · cases hx
        rfl
    · refine .replayed record hp (replays_of_eq hhash hs hb ?_) fun x hx => by cases hx
      rcases hrec with hrec | ⟨-, hge, -⟩
      · exact ⟨by rw [hrec]; rfl, hrec ▸ statusOf_lt _⟩
      · exact absurd hge hsuccess
  · intro h hr
    have hfail : ∀ x h', Benign x → Fresh (recordKey rt request "approvals") h' →
        Ends (recordKey rt request "approvals") hash (.error x) h' :=
      fun x h' hx hf => .failed x rfl hx hf
    have hdraw : Inner (.draw .uuid) := trivial
    refine Watch.wp_bind ⟨(hr.step hdraw).1, fun commandId _ => ?_⟩
    have hr₁ := (hr.step hdraw).2 commandId
    refine Watch.wp_bind (Watch.wp_handle (wp_command (inner_decide _) hr₁ ?_ ?_))
    · intro x h₂ hr₂ hx
      refine Watch.wp_ite (fun _ => ?_) fun hother => ?_
      · refine Watch.wp_bind (wp_complete hr₂ _ _ hfail fun h₃ hc => ?_)
        rcases hx with hx | ⟨message, rfl⟩
        · exact hfail x h₃ hx hc.toFresh
        · refine .recorded _ _ hc (.inr ⟨rfl, ?_, _, _, rfl⟩) ⟨rfl, ?_, rfl⟩ fun x hx => ?_
          · exact (by decide : 400 ≤ 409)
          · exact (by decide : 400 ≤ 409)
          · cases hx
            exact ⟨rfl, rfl⟩
      · rcases hx with hx | ⟨message, rfl⟩
        · exact hfail x h₂ hx hr₂.toFresh
        · exact absurd rfl hother
    · intro snapshot h₂ hr₂
      refine Watch.wp_bind (wp_complete hr₂ 200 _ hfail fun h₃ hc => ?_)
      exact .recorded 200 _ hc (.inl rfl) ⟨rfl, by decide⟩ fun x hx => by cases hx

end Rules

/-! ## Operations -/

/-- The scope under which a route reserves. -/
def scopeOf : Route → String
  | .createIntent _ => "intents"
  | .createAgentIntent _ => "agent_intents"
  | .decideApproval _ _ => "approvals"
  | .cancelIntent _ _ => "cancellations"
  | .grantRole _ => "admin_role_assignments"
  | .revokeRole _ _ => "admin_role_revocations"
  | .registerPolicyBundle _ => "admin_policy_bundles"
  | .activatePolicyBundle _ _ => "admin_policy_activations"

/-- The payload whose hash identifies a request. -/
def payloadOf (rt : Runtime) : Route → Dict
  | .createIntent body => [("tool", .str body.tool), ("parameters", .dict body.parameters),
      ("rationale", .str body.rationale)]
  | .createAgentIntent body =>
      [("request", .str body.request), ("context_refs", .dict body.contextRefs)]
  | .decideApproval intentId body => ("intent_id", .str intentId.text) :: body.modelDump
  | .cancelIntent intentId body => ("intent_id", .str intentId.text) :: body.modelDump
  | .grantRole body => body.modelDump rt
  | .revokeRole assignmentId body =>
      [("assignment_id", .str assignmentId.text), ("reason", .str body.reason)]
  | .registerPolicyBundle body => [("version", .str body.version), ("rules", .dict body.rules),
      ("reason", .str body.reason)]
  | .activatePolicyBundle version body =>
      [("version", .str version), ("reason", .str body.reason)]

/-- The unique key of the record of a request. -/
def keyOf (rt : Runtime) (request : Request) (route : Route) : IdempotencyKey :=
  recordKey rt request (scopeOf route)

/-- The canonical hash of a request. -/
def hashOf (rt : Runtime) (route : Route) : String := canonicalRequestHash rt (payloadOf rt route)

section Operations

variable {rt : Runtime}

theorem wp_routeProgram (request : Request) (route : Route) :
    (serving (keyOf rt request route) (hashOf rt route)).wp (routeProgram rt request route)
      (Served (keyOf rt request route) (hashOf rt route)) [] := by
  cases route with
  | createIntent body =>
      exact wp_route_session (wp_idempotent (show "intents" ≠ "approvals" by decide) rfl
        (inner_createIntentFromProposal _ _ _ _ _ _))
  | createAgentIntent body =>
      exact wp_route_session (wp_idempotent (show "agent_intents" ≠ "approvals" by decide) rfl (inner_agentCommand _ _))
  | decideApproval intentId body => exact wp_route_session wp_decideApprovalBody
  | cancelIntent intentId body =>
      refine wp_route_session (wp_idempotent (show "cancellations" ≠ "approvals" by decide) rfl ?_)
      exact (inner_draw .uuid).bind fun id => (inner_cancel _).bind fun snapshot => trivial
  | grantRole body =>
      refine wp_route_session (wp_idempotent (show "admin_role_assignments" ≠ "approvals" by decide) rfl ?_)
      exact (inner_draw .uuid).bind fun id => (inner_grantRole _).bind fun row => trivial
  | revokeRole assignmentId body =>
      refine wp_route_session (wp_idempotent (show "admin_role_revocations" ≠ "approvals" by decide) rfl ?_)
      exact (inner_draw .uuid).bind fun id => (inner_revokeRole _).bind fun row => trivial
  | registerPolicyBundle body =>
      refine wp_route_session (wp_idempotent (show "admin_policy_bundles" ≠ "approvals" by decide) rfl ?_)
      exact (inner_draw .uuid).bind fun id => (inner_registerPolicyBundle _).bind fun _ => trivial
  | activatePolicyBundle version body =>
      refine wp_route_session (wp_idempotent (show "admin_policy_activations" ≠ "approvals" by decide) rfl ?_)
      exact (inner_draw .uuid).bind fun id => (inner_activatePolicyBundle _).bind fun _ => trivial

/-- The obligations of an operation: a route serves its key, the others write no records. -/
def Obliges (rt : Runtime) : Op → List (Obs Db) → Stmt Db → Prop
  | .route request route => Serves (keyOf rt request route) (hashOf rt route)
  | _ => fun h st => st = .commit → ∀ w ∈ History.writes h, reservationKey? w = none

/-- What a route is told; other operations may end as they do. -/
def Told (rt : Runtime) : Op → Except Error Result → List (Obs Db) → Prop
  | .route request route => fun r h => ∃ r' : Except Error Response, r = r'.map .response ∧
      Served (keyOf rt request route) (hashOf rt route) r' h
  | _ => fun _ _ => True

theorem wp_outside {p : M Result} (hp : Outside p)
    {Q : Except Error Result → List (Obs Db) → Prop} (hQ : ∀ r h, Q r h) :
    (Watch.reading AllAnswered fun h st =>
      st = .commit → ∀ w ∈ History.writes h, reservationKey? w = none).wp p Q [] := by
  refine Watch.wp_uses (fun h => ∀ w ∈ History.writes h, reservationKey? w = none) ?_ hp
    (fun w hw => absurd hw List.not_mem_nil) fun r h _ _ => hQ r h
  intro st hst h hh
  have hwrote : ∀ w, reservationKey? w = none → ∀ w' ∈ History.writes h ++ [w],
      reservationKey? w' = none := by
    intro w hw w' hw'
    rcases List.mem_append.1 hw' with hw' | hw'
    · exact hh w' hw'
    · exact List.mem_singleton.1 hw' ▸ hw
  refine ⟨fun _ => hh, fun r _ => ?_⟩
  cases st with
  | write w => exact hwrote w hst
  | insert k w =>
      cases r with
      | true => exact hwrote w hst
      | false => exact hh
  | commit => exact fun w hw => absurd hw List.not_mem_nil
  | rollback => exact fun w hw => absurd hw List.not_mem_nil
  | _ => exact hh

/-- Every operation meets its obligations. -/
theorem wp_obliged (op : Op) :
    (Watch.reading AllAnswered (Obliges rt op)).wp (code rt op) (Told rt op) [] := by
  cases op with
  | route request route =>
      refine Watch.wp_bind (Watch.wp_mono (fun r h hr => ?_) (wp_routeProgram request route))
      cases r with
      | ok response => exact ⟨.ok response, rfl, hr⟩
      | error x => exact ⟨.error x, rfl, hr⟩
  | _ => exact wp_outside (outside_code _ fun _ _ h => by cases h) fun _ _ => trivial

/-- A commit leaves no record pending. -/
theorem allAnswered_commit (op : Op) (h : List (Obs Db)) (hmust : Obliges rt op h .commit)
    (σ : Session Db) (db : Store) (hpending : σ.pending.map Prod.snd = History.writes h)
    (hdb : AllAnswered db) : AllAnswered (σ.view db) := by
  have hother : (∀ w ∈ History.writes h, reservationKey? w = none) → AllAnswered (σ.view db) := by
    intro hw record hrecord
    rw [← hpending] at hw
    rw [show (σ.view db).idempotency = _ from idempotency_foldl hw db] at hrecord
    exact hdb record hrecord
  cases op with
  | route request route =>
      rcases hmust.commits rfl with hnone | ⟨status, body, hrecords, hrec⟩
      · rw [Session.view_of_no_writes (hpending.trans hnone)]
        exact hdb
      · exact allAnswered_of_records (hpending ▸ hrecords) hrec hdb
  | _ => exact hother (hmust rfl)

/-- No write takes a row away that a lock key names. -/
theorem lasting_db : Lasting Db := by
  intro db n w k hk
  cases k with
  | intent key => exact intentKeys.lasting hk
  | idempotency key => exact idempotencyKeys.lasting hk
  | execution id => exact executionIds.lasting hk

variable {allowed : Op → Prop} {s s' : State}

/-- Along every run the operations meet their obligations, and no committed record is pending. -/
theorem obliged_of_run (h : Run rt allowed s) :
    FollowedEach (fun op => Watch.reading AllAnswered (Obliges rt op)) (Told rt) s ∧
      AllAnswered s.db := by
  obtain ⟨assignments, bundles, h⟩ := h
  exact followedEach_reading lasting_db allAnswered_commit (fun op _ => wp_obliged op)
    (fun _ hr => absurd hr List.not_mem_nil) h

/-! ## Growth of the records -/

/-- The event commits at least one write. -/
def Effective (e : Entry) : Prop := e.act = .commit ∧ History.writes e.history ≠ []

/-- What the commit of a process does to the records. -/
inductive Adds (rt : Runtime) (db db' : Store) (p : Proc Db Error Result Op) : Prop
  | nothing (hdb : db'.idempotency = db.idempotency)
      (hsilent : ∀ request route, p.op = .route request route → History.writes p.history = [])
  | record (request : Request) (route : Route) (status : Nat) (body : Dict)
      (hop : p.op = .route request route)
      (hws : Records (keyOf rt request route) (hashOf rt route) status body
        (History.writes p.history))
      (hnew : keyOf rt request route ∉ db.idempotency.map (·.key))
      (hdb : db'.idempotency = db.idempotency ++
        [completeRecord (keyOf rt request route) (hashOf rt route) status body])

theorem adds_of_commit (h : Run rt allowed s) {pid : Nat} {p : Proc Db Error Result Op}
    (hp : s.procs pid = some p) (hmust : Obliges rt p.op p.history .commit) :
    Adds rt s.db (p.session.view s.db) p := by
  have hdistinct := (idempotencyKeys_distinct h).views pid p hp
  obtain ⟨assignments, bundles, h⟩ := h
  have hpending := ((exact_of_reachable h).procs pid p hp).pending
  generalize hop : p.op = op at hmust
  cases op with
  | route request route =>
      rcases hmust.commits rfl with hnone | ⟨status, body, hrecords, -⟩
      · refine .nothing ?_ fun _ _ _ => hnone
        rw [Session.view_of_no_writes (hpending.trans hnone)]
      · -- The key that this transaction has inserted is not in the store.
        have hinserted : keyOf rt request route ∈ idempotencyKeys.inserted p.history := by
          obtain ⟨mid, -, heq⟩ := hrecords
          exact List.mem_filterMap.2 ⟨_, heq ▸ List.mem_cons_self, rfl⟩
        have hnew : keyOf rt request route ∉ s.db.idempotency.map (·.key) := fun hold =>
          (List.nodup_append.1 hdistinct).2.2 _ hold _ hinserted rfl
        exact .record request route status body hop hrecords hnew
          (idempotency_of_fresh (hpending ▸ hrecords) hnew)
  | _ =>
      refine .nothing (idempotency_foldl (hpending ▸ hmust rfl) s.db) fun request route hroute => ?_
      rw [hop] at hroute
      cases hroute

/-- What a step does to the records: nothing, or a process commits. -/
theorem adds_of_step (h : Run rt allowed s) (hstep : Sys.Step (code rt) allowed s s') :
    (s'.db = s.db ∧ (s'.trace = s.trace ∨ ∃ e, s'.trace = e :: s.trace ∧ ¬ Effective e)) ∨
      ∃ pid p, s.procs pid = some p ∧ s'.trace = s.event pid p .commit :: s.trace ∧
        Adds rt s.db s'.db p := by
  rcases (Sys.Moves.of_step hstep).db_cases with
    ⟨hdb, htrace | ⟨pid, p, c, htrace⟩⟩ | ⟨pid, p, hp, hdb, htrace⟩
  · exact .inl ⟨hdb, .inl htrace⟩
  · exact .inl ⟨hdb, .inr ⟨_, htrace, fun heffective => by cases heffective.1⟩⟩
  · have hmem : s.event pid p .commit ∈ s'.trace := htrace ▸ List.mem_cons_self
    have hmust := ((obliged_of_run (Leads.run (.single hstep) h)).1.trace _ hmem).2
    exact .inr ⟨pid, p, hp, htrace, hdb ▸ adds_of_commit h hp hmust⟩

/-- No step takes a record away or changes one. -/
theorem records_prefix_of_step (h : Run rt allowed s) (hstep : Sys.Step (code rt) allowed s s') :
    s.db.idempotency <+: s'.db.idempotency := by
  rcases adds_of_step h hstep with ⟨hdb, -⟩ | ⟨pid, p, -, -, hadds⟩
  · exact hdb.symm ▸ List.prefix_refl _
  · cases hadds with
    | nothing hdb hsilent =>
        exact hdb.symm ▸ List.prefix_refl _
    | record request route status body hop hws hnew hdb =>
        rw [hdb]
        exact List.prefix_append _ _

/-- The committed effects of the routes, with their records. -/
structure OncePerKey (rt : Runtime) (s : State) : Prop where
  recorded : ∀ e ∈ s.trace, Effective e → ∀ request route, e.op = .route request route →
    ∃ status body, Records (keyOf rt request route) (hashOf rt route) status body
        (History.writes e.history) ∧
      completeRecord (keyOf rt request route) (hashOf rt route) status body ∈ s.db.idempotency
  once : s.trace.Pairwise fun e e' => Effective e → Effective e' →
    ∀ request route request' route', e.op = .route request route →
      e'.op = .route request' route' → keyOf rt request route ≠ keyOf rt request' route'

/-- Another event, which records a new key when it commits the effects of a route. -/
theorem OncePerKey.cons (ho : OncePerKey rt s) (hkept : s.db.idempotency <+: s'.db.idempotency)
    {e : Entry} (htrace : s'.trace = e :: s.trace)
    (hnew : Effective e → ∀ request route, e.op = .route request route →
      keyOf rt request route ∉ s.db.idempotency.map (·.key) ∧
        ∃ status body, Records (keyOf rt request route) (hashOf rt route) status body
            (History.writes e.history) ∧
          completeRecord (keyOf rt request route) (hashOf rt route) status body ∈
            s'.db.idempotency) : OncePerKey rt s' := by
  refine ⟨fun e' he' heffective request route hop => ?_, ?_⟩
  · rw [htrace] at he'
    rcases List.mem_cons.1 he' with rfl | he'
    · exact (hnew heffective request route hop).2
    · obtain ⟨status, body, hws, hmem⟩ := ho.recorded e' he' heffective request route hop
      exact ⟨status, body, hws, hkept.subset hmem⟩
  · rw [htrace]
    refine List.pairwise_cons.2 ⟨?_, ho.once⟩
    intro e' he' heffective heffective' request route request' route' hop hop' heq
    obtain ⟨status, body, -, hmem⟩ := ho.recorded e' he' heffective' request' route' hop'
    apply (hnew heffective request route hop).1
    rw [heq]
    exact List.mem_map.2 ⟨_, hmem, rfl⟩

theorem OncePerKey.step (h : Run rt allowed s) (hstep : Sys.Step (code rt) allowed s s')
    (ho : OncePerKey rt s) : OncePerKey rt s' := by
  have hkept := records_prefix_of_step h hstep
  rcases adds_of_step h hstep with ⟨hdb, htrace | ⟨e, htrace, hno⟩⟩ | ⟨pid, p, hp, htrace, hadds⟩
  · refine ⟨?_, htrace ▸ ho.once⟩
    rw [htrace, hdb]
    exact ho.recorded
  · exact ho.cons hkept htrace fun heffective => absurd heffective hno
  · refine ho.cons hkept htrace fun heffective request route hop => ?_
    cases hadds with
    | nothing hdb hsilent => exact absurd (hsilent request route hop) heffective.2
    | record request' route' status body hop' hws hnew hdb =>
        have heq : Op.route request route = .route request' route' := hop.symm.trans hop'
        cases heq
        refine ⟨hnew, status, body, hws, ?_⟩
        rw [hdb]
        exact List.mem_append_right _ (List.mem_singleton_self _)

/-- Along every run at most one effect of each key is committed. -/
theorem oncePerKey_of_run (h : Run rt allowed s) : OncePerKey rt s := by
  obtain ⟨assignments, bundles, h⟩ := h
  induction h with
  | initial => exact ⟨fun e he => absurd he List.not_mem_nil, .nil⟩
  | step hr hstep ih => exact ih.step (.of assignments bundles hr) hstep

end Operations

end HitlOps.Lifecycle
