import HitlOps.Transaction.Presence
import HitlOps.Lifecycle.Inner

/-!
# Reservations of the mutation routes

A mutation route looks its key up, reserves it, runs its command and completes the record, all in one
transaction. `Serves` is what that asks of each statement, and `Ends` says how the body of a route
ends: it found a record and answers with it, it has written its own record behind the command, or it
failed with an error on which the session rolls back.
-/

set_option autoImplicit false

namespace HitlOps.Lifecycle

open HitlOps.Python HitlOps.Domain HitlOps.Infrastructure HitlOps.Application HitlOps.Transaction
open HitlOps.Api

/-! ## Records -/

/-- The scopes of the routes that answer with `201`. -/
def createdScopes : List String :=
  ["intents", "agent_intents", "admin_role_assignments", "admin_policy_bundles"]

/-- The status of a successful response, by the scope of the route. -/
def statusOf (scope : String) : Nat := if scope ∈ createdScopes then 201 else 200

/-- An outcome that a route records: a success, or the error of an elapsed approval window. -/
def Recordable (scope : String) (status : Nat) (body : Dict) : Prop :=
  status = statusOf scope ∨ scope = "approvals" ∧ 400 ≤ status ∧
    ∃ code message, body = [("code", .str code), ("message", .str message)]

/-- The record is complete and holds an outcome of its route. -/
def Answered (record : IdempotencyRecord) : Prop :=
  record.status = .completed ∧ ∃ status body, record.responseStatus = some status ∧
    record.responseBody = some body ∧ Recordable record.key.scope status body

/-- No record of the store is pending. -/
def AllAnswered (db : Store) : Prop := ∀ record ∈ db.idempotency, Answered record

/-- The request is told the outcome that is recorded as `status` and `body`. -/
def Conveys (status : Nat) (body : Dict) : Except Error Response → Prop
  | .ok response => response = ⟨status, body⟩ ∧ status < 400
  | .error (.domain e) => e.httpStatus = status ∧ 400 ≤ status ∧
      body = [("code", .str e.code), ("message", .str e.message)]
  | .error _ => False

/-- The error of a key that was used for another request. -/
def conflict : Error := .idempotencyConflictError "idempotency key reused with different request"

theorem statusOf_lt (scope : String) : statusOf scope < 400 := by
  unfold statusOf
  split <;> omega

/-- The record of a command in progress. -/
abbrev pendingRecord (key : IdempotencyKey) (requestHash : String) : IdempotencyRecord :=
  ⟨key, requestHash, .pending, none, none⟩

/-- The record of a command with its outcome. -/
abbrev completeRecord (key : IdempotencyKey) (requestHash : String) (status : Nat) (body : Dict) :
    IdempotencyRecord := ⟨key, requestHash, .completed, some status, some body⟩

/-- The writes of a transaction that reserves the key, runs a command and records its outcome. -/
def Records (key : IdempotencyKey) (requestHash : String) (status : Nat) (body : Dict)
    (ws : List Write) : Prop :=
  ∃ mid, (∀ w ∈ mid, reservationKey? w = none) ∧
    ws = .insertIdempotency (pendingRecord key requestHash) ::
      (mid ++ [.completeIdempotency key status body])

/-- The writes name one outcome. -/
theorem Records.inj {key : IdempotencyKey} {requestHash : String} {status status' : Nat}
    {body body' : Dict} {ws : List Write} (h : Records key requestHash status body ws)
    (h' : Records key requestHash status' body' ws) : status = status' ∧ body = body' := by
  obtain ⟨mid, -, rfl⟩ := h
  obtain ⟨mid', -, heq⟩ := h'
  have hlast := (List.append_inj' (List.cons.inj heq).2 rfl).2
  cases hlast
  exact ⟨rfl, rfl⟩

theorem idempotency_of_outer {w : Write} (hw : reservationKey? w = none) (db : Store) (n : Nat) :
    (db.apply n w).idempotency = db.idempotency := by
  cases w with
  | insertIdempotency row => cases hw
  | completeIdempotency key status body => cases hw
  | _ => rfl

/-- Writes that leave the records alone. -/
theorem idempotency_foldl {pending : List (Nat × Write)}
    (h : ∀ w ∈ pending.map Prod.snd, reservationKey? w = none) (db : Store) :
    (pending.foldl (fun s e => s.apply e.1 e.2) db).idempotency = db.idempotency := by
  induction pending generalizing db with
  | nil => rfl
  | cons e rest ih =>
      rw [List.foldl_cons, ih fun w hw => h w (List.mem_cons_of_mem _ hw)]
      exact idempotency_of_outer (h e.2 List.mem_cons_self) db e.1

/-- What a recorded transaction does to the records. -/
theorem idempotency_of_records {key : IdempotencyKey} {requestHash : String} {status : Nat}
    {body : Dict} {pending : List (Nat × Write)}
    (h : Records key requestHash status body (pending.map Prod.snd)) (db : Store) :
    (pending.foldl (fun s e => s.apply e.1 e.2) db).idempotency =
      (db.idempotency ++ [pendingRecord key requestHash]).map
        fun r : IdempotencyRecord => if r.key = key then r.complete status body else r := by
  obtain ⟨mid, hmid, heq⟩ := h
  obtain ⟨⟨n, w⟩, rest, rfl, hw, hrest⟩ := List.map_eq_cons_iff.1 heq
  obtain ⟨middle, last, rfl, rfl, hlast⟩ := List.map_eq_append_iff.1 hrest
  obtain ⟨⟨m, w'⟩, tail, rfl, hw', htail⟩ := List.map_eq_cons_iff.1 hlast
  obtain rfl := List.map_eq_nil_iff.1 htail
  obtain rfl : w = _ := hw
  obtain rfl : w' = _ := hw'
  rw [List.foldl_cons, List.foldl_append, List.foldl_cons, List.foldl_nil]
  exact congrArg (List.map fun r : IdempotencyRecord =>
    if r.key = key then r.complete status body else r) (idempotency_foldl hmid _)

theorem complete_of_ne {key : IdempotencyKey} {status : Nat} {body : Dict}
    {rows : List IdempotencyRecord} (h : key ∉ rows.map (·.key)) :
    (rows.map fun r : IdempotencyRecord => if r.key = key then r.complete status body else r) =
      rows := by
  refine (List.map_congr_left fun r hr => ?_).trans (List.map_id rows)
  exact if_neg fun heq => h (List.mem_map.2 ⟨r, hr, heq⟩)

/-- With a free key, a recorded transaction adds one complete record. -/
theorem idempotency_of_fresh {key : IdempotencyKey} {requestHash : String} {status : Nat}
    {body : Dict} {pending : List (Nat × Write)}
    (h : Records key requestHash status body (pending.map Prod.snd)) {db : Store}
    (hfresh : key ∉ db.idempotency.map (·.key)) :
    (pending.foldl (fun s e => s.apply e.1 e.2) db).idempotency =
      db.idempotency ++ [completeRecord key requestHash status body] := by
  rw [idempotency_of_records h, List.map_append, complete_of_ne hfresh, List.map_singleton,
    if_pos rfl]
  rfl

theorem allAnswered_of_records {key : IdempotencyKey} {requestHash : String} {status : Nat}
    {body : Dict} {pending : List (Nat × Write)}
    (h : Records key requestHash status body (pending.map Prod.snd))
    (hrec : Recordable key.scope status body) {db : Store} (hdb : AllAnswered db) :
    AllAnswered (pending.foldl (fun s e => s.apply e.1 e.2) db) := by
  intro record hrecord
  rw [idempotency_of_records h] at hrecord
  obtain ⟨r, hr, rfl⟩ := List.mem_map.1 hrecord
  split
  · next hkey => exact ⟨rfl, status, body, rfl, rfl, by rwa [← hkey] at hrec⟩
  · next hkey =>
      rcases List.mem_append.1 hr with hr | hr
      · exact hdb r hr
      · rw [List.mem_singleton.1 hr] at hkey
        exact absurd rfl hkey

/-! ## The obligations -/

/-- The process has ended a session. -/
def ended (h : List (Obs Db)) : Bool := h.any Obs.closes

/-- What the commit of a route writes: nothing, or its own record around the command. -/
def OwnRecord (key : IdempotencyKey) (requestHash : String) (ws : List Write) : Prop :=
  ws = [] ∨ ∃ status body, Records key requestHash status body ws ∧ Recordable key.scope status body

/-- The obligations of a route with the key and the request hash. A route that is shown a record of
its key by its first statement ends its session and does nothing else. -/
structure Serves (key : IdempotencyKey) (requestHash : String) (h : List (Obs Db)) (st : Stmt Db) :
    Prop where
  opens : h = [] ∧ st = .select ∨ ∃ σ, History.opening h = some σ
  once : ended h = false
  replays : ∀ σ record, History.opening h = some σ → σ.idempotency? key = some record →
    st = .commit ∨ st = .rollback
  commits : st = .commit → OwnRecord key requestHash (History.writes h)

/-- The watch of a route. -/
abbrev serving (key : IdempotencyKey) (requestHash : String) : Watch Db :=
  .reading AllAnswered (Serves key requestHash)

section Rules

variable {key : IdempotencyKey} {requestHash : String} {h : List (Obs Db)} {α β : Type}

/-- The session is open, and no record of the key was there at its start. -/
structure Fresh (key : IdempotencyKey) (h : List (Obs Db)) : Prop where
  going : ended h = false
  first : ∃ σ, History.opening h = some σ ∧ σ.idempotency? key = none

theorem Fresh.ne_nil (hf : Fresh key h) : h ≠ [] := by
  rintro rfl
  obtain ⟨σ, hσ, -⟩ := hf.first
  cases hσ

/-- A fresh session may do what it likes, but it commits its own record only. -/
theorem Fresh.serves (hf : Fresh key h) {st : Stmt Db}
    (hcommit : st = .commit → OwnRecord key requestHash (History.writes h)) :
    Serves key requestHash h st where
  opens := .inr (hf.first.imp fun _ hσ => hσ.1)
  once := hf.going
  replays := by
    intro σ record hσ hrecord
    obtain ⟨σ', hσ', hnone⟩ := hf.first
    rw [hσ', Option.some.injEq] at hσ
    rw [← hσ, hnone] at hrecord
    cases hrecord
  commits := hcommit

/-- A statement that does not end the session. -/
def Stays (st : Stmt Db) : Prop := ∀ r : st.Resp, (Obs.did st r).closes = false

theorem stays_of_inner {st : Stmt Db} (hst : Inner st) : Stays st := by
  cases st with
  | commit => exact hst.elim
  | rollback => exact hst.elim
  | _ => exact fun _ => rfl

theorem Stays.ne_commit {st : Stmt Db} (hst : Stays st) : st ≠ .commit := by
  rintro rfl
  cases hst ()

theorem Fresh.longer (hf : Fresh key h) {st : Stmt Db} (hst : Stays st) (r : st.Resp) :
    Fresh key (extend h st r) := by
  obtain ⟨σ, hσ, hnone⟩ := hf.first
  refine ⟨?_, σ, ?_, hnone⟩
  · have hclose := hst r
    cases st with
    | call c => exact hf.going
    | _ =>
        show ((Obs.did _ r).closes || ended h) = false
        rw [hclose, hf.going]
        rfl
  · rw [History.opening_of_suffix (Watch.suffix_extend h st r) hf.ne_nil, hσ]

/-- The session has reserved the key, and its command is running. -/
structure Running (key : IdempotencyKey) (requestHash : String) (h : List (Obs Db)) : Prop
    extends Fresh key h where
  reserved : ∃ mid, (∀ w ∈ mid, reservationKey? w = none) ∧
    History.writes h = .insertIdempotency (pendingRecord key requestHash) :: mid

theorem Running.wrote (hr : Running key requestHash h) {w : Write} (hw : reservationKey? w = none) :
    ∃ mid, (∀ w ∈ mid, reservationKey? w = none) ∧ History.writes h ++ [w] =
      .insertIdempotency (pendingRecord key requestHash) :: mid := by
  obtain ⟨mid, hmid, heq⟩ := hr.reserved
  refine ⟨mid ++ [w], fun w' hw' => ?_, by rw [heq, List.cons_append]⟩
  rcases List.mem_append.1 hw' with hw' | hw'
  · exact hmid w' hw'
  · exact List.mem_singleton.1 hw' ▸ hw

/-- The statements of a command keep the session running. -/
theorem Running.step {st : Stmt Db} (hst : Inner st) (hr : Running key requestHash h) :
    Serves key requestHash h st ∧ ∀ r, Running key requestHash (extend h st r) := by
  have hstays := stays_of_inner hst
  refine ⟨hr.serves fun hcommit => absurd hcommit hstays.ne_commit, fun r => ?_⟩
  refine ⟨hr.longer hstays r, ?_⟩
  cases st with
  | commit => exact hst.elim
  | rollback => exact hst.elim
  | write w => exact hr.wrote hst
  | insert k w =>
      cases r with
      | true => exact hr.wrote hst
      | false => exact hr.reserved
  | select => exact hr.reserved
  | lock k nowait => exact hr.reserved
  | draw o => exact hr.reserved
  | call c => exact hr.reserved
  | mark m => exact hr.reserved

/-- A command ends with the session running. -/
theorem wp_command {H : Error → Prop} {p : M α} (hp : p.Uses Inner H)
    (hr : Running key requestHash h) {Q : Except Error α → List (Obs Db) → Prop}
    (hx : ∀ x h', Running key requestHash h' → H x → Q (.error x) h')
    (hok : ∀ a h', Running key requestHash h' → Q (.ok a) h') :
    (serving key requestHash).wp p Q h := by
  refine Watch.wp_uses (Running key requestHash) (fun st hst h' hr' => ?_) hp hr
    fun r h' hr' hH => ?_
  · exact ⟨(hr'.step hst).1, fun r _ => (hr'.step hst).2 r⟩
  · cases r with
    | ok a => exact hok a h' hr'
    | error x => exact hx x h' hr' (hH x rfl)

/-! ## Reserving -/

theorem wp_lookupRecord {Q : Except Error (Option IdempotencyRecord) → List (Obs Db) → Prop}
    (hmust : Serves key requestHash h .select)
    (hQ : ∀ seen : Store × Instant, (History.writes h = [] → AllAnswered seen.1 ∧
      ∀ k ∈ History.refused h, present seen.1 k = true) →
        Q (.ok (seen.1.idempotency? key)) (.did .select seen :: h)) :
    (serving key requestHash).wp (lookupRecord key) Q h :=
  ⟨hmust, fun seen hmay => hQ seen fun hnone => hmay seen.1 rfl hnone⟩

/-- The session has found the record and has written nothing. -/
structure Prior (key : IdempotencyKey) (record : IdempotencyRecord) (h : List (Obs Db)) :
    Prop where
  key_eq : record.key = key
  answered : Answered record
  begun : ∃ σ, History.opening h = some σ
  going : ended h = false
  silent : History.writes h = []
  first : ∀ σ found, History.opening h = some σ → σ.idempotency? key = some found → found = record

theorem Prior.serves {record : IdempotencyRecord} (hp : Prior key record h) {st : Stmt Db}
    (hst : st = .commit ∨ st = .rollback) : Serves key requestHash h st where
  opens := .inr hp.begun
  once := hp.going
  replays := fun _ _ _ _ => hst
  commits := fun _ => .inl hp.silent

/-- A record that was found in a store without pending records. -/
theorem answered_of_found {σ : Store} (hσ : AllAnswered σ) {record : IdempotencyRecord}
    (hfound : σ.idempotency? key = some record) : record.key = key ∧ Answered record := by
  have hkey := List.find?_some (p := fun r : IdempotencyRecord => r.key = key) hfound
  exact ⟨of_decide_eq_true hkey, hσ record (List.mem_of_find?_eq_some hfound)⟩

/-- What a record says to a request with the hash. -/
theorem wp_reservationFrom {record : IdempotencyRecord} (hp : Prior key record h)
    {Q : Except Error IdempotencyReservation → List (Obs Db) → Prop}
    (hconflict : record.requestHash ≠ requestHash → Q (.error conflict) h)
    (hreplay : ∀ status body, record.requestHash = requestHash →
      record.responseStatus = some status → record.responseBody = some body →
        Recordable key.scope status body → Q (.ok ⟨true, false, some status, some body⟩) h) :
    (serving key requestHash).wp (reservationFrom record requestHash) Q h := by
  obtain ⟨hstatus, status, body, hs, hb, hrec⟩ := hp.answered
  refine Watch.wp_ite hconflict fun hhash => Watch.wp_ite (fun _ => ?_) fun hpending => ?_
  · have hQ := hreplay status body (not_not.1 hhash) hs hb (hp.key_eq ▸ hrec)
    rw [← hs, ← hb] at hQ
    exact hQ
  · exact absurd hstatus hpending

theorem wp_begin {Q : Except Error IdempotencyReservation → List (Obs Db) → Prop}
    (hconflict : ∀ record h, Prior key record h → record.requestHash ≠ requestHash →
      Q (.error conflict) h)
    (hreplay : ∀ record h status body, Prior key record h → record.requestHash = requestHash →
      record.responseStatus = some status → record.responseBody = some body →
        Recordable key.scope status body → Q (.ok ⟨true, false, some status, some body⟩) h)
    (hfresh : ∀ h, Running key requestHash h → Q (.ok .fresh) h) :
    (serving key requestHash).wp (begin key requestHash) Q [] := by
  have hfirst : Serves key requestHash [] .select :=
    ⟨.inl ⟨rfl, rfl⟩, rfl, fun _ _ hσ => (by cases hσ), fun hcommit => (by cases hcommit)⟩
  refine Watch.wp_bind (wp_lookupRecord hfirst fun seen hseen => ?_)
  obtain ⟨hall, -⟩ := hseen rfl
  generalize hfound : seen.1.idempotency? key = found
  cases found with
  | some record =>
      obtain ⟨hkey, hanswered⟩ := answered_of_found hall hfound
      have hprior : Prior key record [.did .select seen] := by
        refine ⟨hkey, hanswered, ⟨seen.1, rfl⟩, rfl, rfl, ?_⟩
        intro σ found hσ hrecord
        cases hσ
        rw [hfound, Option.some.injEq] at hrecord
        exact hrecord.symm
      exact wp_reservationFrom hprior (hconflict record _ hprior) fun status body =>
        hreplay record _ status body hprior
  | none =>
      have hnew : Fresh key [.did .select seen] :=
        ⟨rfl, seen.1, rfl, hfound⟩
      refine Watch.wp_bind ⟨hnew.serves fun hcommit => (by cases hcommit), fun inserted _ => ?_⟩
      cases inserted with
      | true =>
          refine hfresh _ ⟨⟨rfl, seen.1, rfl, hfound⟩, [], ?_, rfl⟩
          exact fun w hw => absurd hw List.not_mem_nil
      | false =>
          -- The insert was refused, so the second lookup finds the record that won.
          have hlost : Fresh key [.did (.insert (.idempotency key)
              (.insertIdempotency (pendingRecord key requestHash))) false,
                .did .select seen] := ⟨rfl, seen.1, rfl, hfound⟩
          refine Watch.wp_bind (wp_lookupRecord
            (hlost.serves fun hcommit => by cases hcommit) fun again hagain => ?_)
          obtain ⟨hall', hpresent⟩ := hagain rfl
          have hthere : (again.1.idempotency? key).isSome = true :=
            hpresent (.idempotency key) List.mem_cons_self
          generalize hfound' : again.1.idempotency? key = found' at hthere
          cases found' with
          | none => cases hthere
          | some record =>
              obtain ⟨hkey, hanswered⟩ := answered_of_found hall' hfound'
              have hprior : Prior key record (.did .select again :: [.did (.insert (.idempotency key)
                  (.insertIdempotency (pendingRecord key requestHash))) false,
                    .did .select seen]) := by
                refine ⟨hkey, hanswered, ⟨seen.1, rfl⟩, rfl, rfl, ?_⟩
                intro σ found hσ hrecord
                cases hσ
                rw [hfound] at hrecord
                cases hrecord
              exact wp_reservationFrom hprior (hconflict record _ hprior) fun status body =>
                hreplay record _ status body hprior

end Rules

end HitlOps.Lifecycle
