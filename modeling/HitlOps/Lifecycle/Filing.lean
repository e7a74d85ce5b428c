import HitlOps.Lifecycle.Plain
import HitlOps.Lifecycle.Runs
import HitlOps.Transaction.Paths

/-!
# The books of the executions

Every transaction that concerns executions is one of four deeds: it claims a revision, it moves a
revision and its execution row together, it counts an attempt that resolved nothing, or it leaves
executions alone. `Deed` says so of the history at a commit, with the row that was read, the
transition that was written and the answer that it rests on; `filing` is the watch whose commits
are deeds. The lifecycle programs are checked against it in the modules behind this one.
-/

set_option autoImplicit false

namespace HitlOps.Lifecycle

open HitlOps.Python HitlOps.Domain HitlOps.Infrastructure HitlOps.Application HitlOps.Adapters
open HitlOps.Transaction

/-! ## What the open transaction has done -/

/-- A write to an execution row. -/
def filesExecution : Write → Bool
  | .insertExecution _ => true
  | .updateExecution _ _ => true
  | _ => false

/-- A write to a revision or to an execution row. -/
def touchesBooks (w : Write) : Bool := filesExecution w || (target? w).isSome

/-- The stores that the open transaction was shown before its first entry, with the keys held. -/
abbrev booksRead (h : List (Obs Db)) : List (Store × List LockKey) := History.reads touchesBooks h

/-- The stores that the process was ever shown before an entry. -/
abbrev booksShown (h : List (Obs Db)) : List Store := History.shown touchesBooks h

/-- The transitions that the open transaction has written. -/
def entered (h : List (Obs Db)) : List StateTransition := (ghostAfter h).entered

/-- The writes of the open transaction to execution rows. -/
def filed (h : List (Obs Db)) : List Write := (History.writes h).filter filesExecution

/-- The payload of a message that hands an execution over to the operators. -/
def handOver? : Write → Option Dict
  | .insertOutbox topic payload => if topic = exhaustedTopic then some payload else none
  | _ => none

/-- The executions that the open transaction hands over to the operators. -/
def escalated (h : List (Obs Db)) : List Dict := (History.writes h).filterMap handOver?

/-- The newest call of the open transaction, with its answer. -/
def newestAnswer : List (Obs Db) → Option (Σ c, Answer c)
  | [] => none
  | .sent _ :: _ => none
  | .did (.call c) a :: _ => some ⟨c, a⟩
  | .did .commit _ :: _ => none
  | .did .rollback _ :: _ => none
  | _ :: h => newestAnswer h

/-- The operation key that the open transaction has looked up. -/
def askedFor : List (Obs Db) → Option String
  | [] => none
  | .sent (.lookupStatus _ operationKey _) :: _ => some operationKey
  | .did .commit _ :: _ => none
  | .did .rollback _ :: _ => none
  | _ :: h => askedFor h

/-! ## Evidence -/

/-- The provider answered a call for the operation key with the outcome; a command that the adapter
refused to send counts as failed. -/
def Tells (operationKey : String) (outcome : ExecutionOutcome) : (c : Call) → Answer c → Prop
  | .execute _ command, answer => command.operationKey = operationKey ∧
      ((∃ r, answer = .result r ∧ ExecutionOutcome.parse? r.outcome = some outcome) ∨
        (outcome = .failed ∧ answer = .preSend))
  | .lookupStatus _ key _, answer => key = operationKey ∧
      ∃ r, answer = .result r ∧ ExecutionOutcome.parse? r.outcome = some outcome
  | _, _ => False

/-- A final state of the revision `k` rests on the newest answer of the provider. -/
def Evident (h : List (Obs Db)) (k : RevisionKey) (target : IntentState) : Prop :=
  ∀ outcome, outcome ≠ .unknown → target = targetState outcome →
    ∃ c a, newestAnswer h = some ⟨c, a⟩ ∧ Tells (operationKeyFor k) outcome c a

/-! ## Deeds -/

/-- The status of the execution row that goes with a state behind a claim. -/
def statusFor : IntentState → Option ExecutionStatus
  | .revalidating => some .claimed
  | .executing => some .executing
  | .executionUnknown => some .unknown
  | .succeeded => some .succeeded
  | .failed => some .failed
  | .stale => some .failed
  | .expired => some .failed
  | _ => none

/-- The process was shown an execution row of the revision `k` with the identifier. -/
def Located (h : List (Obs Db)) (k : RevisionKey) (id : UUID) : Prop :=
  ∃ σ ∈ booksShown h, ∃ y ∈ σ.executions, y.id = id ∧ y.key.intentId = k.intentId ∧
    y.key.revision = k.revision

/-- How a process knows the execution row `x` of the revision `k`: it read the only row of the
revision under the row lock, or it read the row by the identifier of a row of the revision. -/
inductive Source (h : List (Obs Db)) (k : RevisionKey) (x : Execution) : Prop
  | locked (σ : Store) (keys : List LockKey) (hσ : (σ, keys) ∈ booksRead h)
      (hk : .intent k ∈ keys) (hx : σ.executionsOf k.intentId k.revision = [x])
  | byId (σ : Store) (hσ : σ ∈ booksShown h) (hx : σ.execution? x.id = some x)
      (hlocated : Located h k x.id)

/-- The revision `k` was in the state when its row lock was granted. -/
def LockedIn (h : List (Obs Db)) (k : RevisionKey) (state : IntentState) : Prop :=
  ∃ e ∈ booksRead h, .intent k ∈ e.2 ∧ ∃ a, e.1.intent? k = some a ∧ a.state = state

/-- The open transaction has read `x`. -/
def ReadRow (h : List (Obs Db)) (x : Execution) : Prop :=
  ∃ e ∈ booksRead h, e.1.execution? x.id = some x

/-- The writes of a claim of the revision `k` that saw the store `σ`: a first row, or a new attempt
on the only row. -/
inductive Claims (σ : Store) (k : RevisionKey) : List Write → Prop
  | first (id : UUID) (expires : Time) (hnone : σ.executionsOf k.intentId k.revision = []) :
      Claims σ k [.insertExecution (claimedExecution id k expires)]
  | again (x new : Execution) (hx : σ.executionsOf k.intentId k.revision = [x])
      (hcount : new.reconcileAttempts = x.reconcileAttempts) :
      Claims σ k [.updateExecution x new]

/-- What a transaction does to the executions. -/
inductive Deed (rt : Runtime) (h : List (Obs Db)) : Prop
  | plain (hfiled : filed h = []) (hentered : ∀ t ∈ entered h, PlainTransition t)
      (hescalated : escalated h = []) (hasked : askedFor h = none)
  | claim (k : RevisionKey) (t : StateTransition) (σ : Store) (keys : List LockKey)
      (hσ : (σ, keys) ∈ booksRead h) (hk : .intent k ∈ keys) (hentered : entered h = [t])
      (hkey : t.key = k) (hstate : t.toState = .revalidating) (hescalated : escalated h = [])
      (hfiled : Claims σ k (filed h)) (hasked : askedFor h = none)
  | move (k : RevisionKey) (t : StateTransition) (x new : Execution) (hx : Source h k x)
      (hentered : entered h = [t]) (hkey : t.key = k) (hstate : t.toState ≠ .revalidating)
      (hfiled : filed h = [.updateExecution x new])
      (hstatus : statusFor t.toState = some new.status) (hattempt : new.attempt = x.attempt)
      (hcount : new.reconcileAttempts = x.reconcileAttempts)
      (hevident : Evident h k t.toState) (hescalated : escalated h = [])
      (hasked : askedFor h = none ∨ askedFor h = some (operationKeyFor k))
  | keep (k : RevisionKey) (x : Execution) (answer : LookupAnswer) (dbNow : Time) (commandId : String)
      (hx : Source h k x) (hkey : x.key = k) (hread : ReadRow h x)
      (hlocked : LockedIn h k .executionUnknown) (hasked : askedFor h = some (operationKeyFor k))
      (hentered : entered h = [])
      (hfiled : filed h =
        [.updateExecution x (unresolvedExecution rt x (evidenceOf x answer) dbNow)])
      (hescalated : escalated h =
        if maxReconcileAttempts ≤ x.reconcileAttempts + 1 then
          [exhaustedPayload x (x.reconcileAttempts + 1) commandId] else [])

/-! ## Evaluations -/

/-- The revision of a risk row. -/
def riskKey? : Write → Option RevisionKey
  | .insertRisk row => some row.key
  | _ => none

/-- The revision of a policy row. -/
def policyKey? : Write → Option RevisionKey
  | .insertPolicy row => some row.key
  | _ => none

/-- Each risk row comes with a policy row of its revision. -/
def Twins (ws : List Write) : Prop := ws.filterMap riskKey? = ws.filterMap policyKey?

theorem Twins.append {ws : List Write} (h : Twins ws) {w : Write} (hr : riskKey? w = none)
    (hp : policyKey? w = none) : Twins (ws ++ [w]) := by
  unfold Twins
  rw [List.filterMap_append, List.filterMap_append, show ws.filterMap riskKey? = _ from h]
  rw [List.filterMap_cons, List.filterMap_cons, hr, hp]
  rfl

/-- What a commit owes: a deed, and evaluations with both of their rows. -/
structure Settled (rt : Runtime) (h : List (Obs Db)) : Prop where
  deed : Deed rt h
  twins : Twins (History.writes h)

/-! ## The watch -/

/-- Every execution row has the operation key of its revision. -/
def Keyed (s : Store) : Prop := ∀ x ∈ s.executions, x.operationKey = operationKeyFor x.key

/-- A lookup asks for the row that was read, under the row lock of an unknown outcome. -/
def Polls (Due : List (Obs Db) → UUID → Prop) (h : List (Obs Db)) (operationKey : String) : Prop :=
  askedFor h = none ∧ ∃ x, Source h x.key x ∧ ReadRow h x ∧
    operationKey = operationKeyFor x.key ∧ LockedIn h x.key .executionUnknown ∧ Due h x.id

/-- The unique key under which a row is inserted. -/
def insertKey? : Write → Option LockKey
  | .insertExecution row => some (.execution row.id)
  | .insertIntent row => some (.intent row.key)
  | .insertIdempotency row => some (.idempotency row.key)
  | _ => none

/-- The obligations of the statements. -/
def files (rt : Runtime) (Due : List (Obs Db) → UUID → Prop) (h : List (Obs Db)) : Stmt Db → Prop
  | .commit => Settled rt h
  | .call (.lookupStatus _ operationKey _) => Polls Due h operationKey
  | .write w => insertKey? w = none
  | .insert k (.insertExecution row) =>
      k = .execution row.id ∧ row.operationKey = operationKeyFor row.key
  | .insert k (.insertIntent row) => k = .intent row.key
  | .insert k (.insertIdempotency row) => k = .idempotency row.key
  | _ => True

/-- The watch of the books. -/
@[reducible] def filing (rt : Runtime) (Due : List (Obs Db) → UUID → Prop) : Watch Db :=
  .over Keyed (files rt Due)

/-- A new execution row has the operation key of its revision. -/
def KeyedWrite (w : Write) : Prop :=
  ∀ row, w = .insertExecution row → row.operationKey = operationKeyFor row.key

/-- Updates leave the operation key alone. -/
theorem keyed_apply (db : Store) (n : Nat) (w : Write) (hw : KeyedWrite w) (h : Keyed db) :
    Keyed (db.apply n w) := by
  cases w with
  | insertExecution row =>
      intro x hx
      rcases List.mem_append.1 hx with hx | hx
      · exact h x hx
      · rw [List.mem_singleton.1 hx]
        exact hw row rfl
  | updateExecution old new =>
      intro x hx
      obtain ⟨y, hy, rfl⟩ := List.mem_map.1 hx
      split
      · exact h y hy
      · exact h y hy
  | _ => exact h

/-! ## Histories that grow -/

/-- What was shown stays shown. -/
theorem shown_of_suffix {h h' : List (Obs Db)} (hs : h <:+ h') {σ : Store} (hσ : σ ∈ booksShown h) :
    σ ∈ booksShown h' := by
  obtain ⟨t, rfl⟩ := hs
  induction t with
  | nil => exact hσ
  | cons o t ih => exact List.mem_append_right _ ih

/-- `h'` continues the open transaction of `h`: what was held and read still is. -/
structure Keeps (h h' : List (Obs Db)) : Prop where
  suffix : h <:+ h'
  held : ∀ k ∈ History.held h, k ∈ History.held h'
  reads : ∀ e ∈ booksRead h, e ∈ booksRead h'

/-- `h'` continues `h` without a write. -/
structure Quiet (h h' : List (Obs Db)) : Prop extends Keeps h h' where
  writes : History.writes h' = History.writes h
  entered : entered h' = entered h

/-- `h'` continues `h` without a write and without a lookup. -/
structure Notes (h h' : List (Obs Db)) : Prop extends Quiet h h' where
  asked : askedFor h' = askedFor h

theorem Keeps.refl (h : List (Obs Db)) : Keeps h h :=
  ⟨List.suffix_refl h, fun _ hk => hk, fun _ he => he⟩

theorem Keeps.shown {h h' : List (Obs Db)} (hk : Keeps h h') {σ : Store} (hσ : σ ∈ booksShown h) :
    σ ∈ booksShown h' := shown_of_suffix hk.suffix hσ

theorem Keeps.trans {h h' h'' : List (Obs Db)} (hk : Keeps h h') (hk' : Keeps h' h'') :
    Keeps h h'' :=
  ⟨hk.suffix.trans hk'.suffix, fun k hm => hk'.held k (hk.held k hm),
    fun e he => hk'.reads e (hk.reads e he)⟩

theorem Quiet.trans {h h' h'' : List (Obs Db)} (hn : Quiet h h') (hn' : Quiet h' h'') :
    Quiet h h'' :=
  ⟨hn.toKeeps.trans hn'.toKeeps, hn'.writes.trans hn.writes, hn'.entered.trans hn.entered⟩

theorem Notes.refl (h : List (Obs Db)) : Notes h h := ⟨⟨.refl h, rfl, rfl⟩, rfl⟩

theorem Notes.trans {h h' h'' : List (Obs Db)} (hn : Notes h h') (hn' : Notes h' h'') :
    Notes h h'' :=
  ⟨hn.toQuiet.trans hn'.toQuiet, hn'.asked.trans hn.asked⟩

/-- The observation does not end the transaction. -/
def Open : Obs Db → Prop
  | .did .commit _ => False
  | .did .rollback _ => False
  | _ => True

theorem keeps_cons {o : Obs Db} (ho : Open o) (h : List (Obs Db)) : Keeps h (o :: h) := by
  have hs : h <:+ o :: h := List.suffix_cons o h
  cases o with
  | sent c => exact ⟨hs, fun k hk => hk, fun e he => List.mem_append_right _ he⟩
  | did st r =>
      cases st with
      | commit => exact ho.elim
      | rollback => exact ho.elim
      | lock k nowait =>
          refine ⟨hs, fun k' hk => ?_, fun e he => List.mem_append_right _ he⟩
          show k' ∈ if _ then k :: History.held h else History.held h
          split
          · exact List.mem_cons_of_mem _ hk
          · exact hk
      | insert k w =>
          refine ⟨hs, fun k' hk => ?_, fun e he => List.mem_append_right _ he⟩
          show k' ∈ if _ then k :: History.held h else History.held h
          split
          · exact List.mem_cons_of_mem _ hk
          · exact hk
      | select => exact ⟨hs, fun k hk => hk, fun e he => List.mem_append_right _ he⟩
      | write w => exact ⟨hs, fun k hk => hk, fun e he => List.mem_append_right _ he⟩
      | draw d => exact ⟨hs, fun k hk => hk, fun e he => List.mem_append_right _ he⟩
      | call c => exact ⟨hs, fun k hk => hk, fun e he => List.mem_append_right _ he⟩
      | mark m => exact ⟨hs, fun k hk => hk, fun e he => List.mem_append_right _ he⟩

/-- The observation neither ends the transaction nor writes. -/
def Silent : Obs Db → Prop
  | .did .commit _ => False
  | .did .rollback _ => False
  | .did (.write _) _ => False
  | .did (.insert _ _) r => r = false
  | _ => True

theorem quiet_cons {o : Obs Db} (ho : Silent o) (h : List (Obs Db)) : Quiet h (o :: h) := by
  have hopen : Open o := by
    cases o with
    | sent c => exact trivial
    | did st r => cases st <;> first | exact ho.elim | exact trivial
  have hkeeps := keeps_cons hopen h
  cases o with
  | sent c =>
      refine ⟨hkeeps, rfl, ?_⟩
      cases c <;> rfl
  | did st r =>
      cases st with
      | commit => exact ho.elim
      | rollback => exact ho.elim
      | write w => exact ho.elim
      | insert k w =>
          have hr : r = false := ho
          subst hr
          exact ⟨hkeeps, rfl, rfl⟩
      | mark m =>
          refine ⟨hkeeps, rfl, ?_⟩
          cases m <;> rfl
      | draw d =>
          refine ⟨hkeeps, rfl, ?_⟩
          cases d <;> rfl
      | select => exact ⟨hkeeps, rfl, rfl⟩
      | lock k nowait => exact ⟨hkeeps, rfl, rfl⟩
      | call c => exact ⟨hkeeps, rfl, rfl⟩

/-- The observation sends no lookup. -/
def Unasking : Obs Db → Prop
  | .sent (.lookupStatus _ _ _) => False
  | _ => True

theorem askedFor_cons {o : Obs Db} (hopen : Open o) (ho : Unasking o) (h : List (Obs Db)) :
    askedFor (o :: h) = askedFor h := by
  cases o with
  | sent c => cases c <;> first | rfl | exact ho.elim
  | did st r => cases st <;> first | rfl | exact hopen.elim

theorem notes_cons {o : Obs Db} (ho : Silent o ∧ Unasking o) (h : List (Obs Db)) :
    Notes h (o :: h) := by
  refine ⟨quiet_cons ho.1 h, askedFor_cons ?_ ho.2 h⟩
  have hsilent := ho.1
  cases o with
  | sent c => exact trivial
  | did st r => cases st <;> first | exact hsilent.elim | exact trivial

end HitlOps.Lifecycle
