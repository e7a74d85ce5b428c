import HitlOps.Lifecycle.Keys
import HitlOps.Properties.Log

/-!
# Refused commands

A decision or a cancellation that is refused leaves its session without a write, so it makes no
difference how the session ends. The expiry of an approval window is the one refusal that is meant to
be committed: it moves the intent to `EXPIRED`, and writes nothing else.
-/

set_option autoImplicit false

namespace HitlOps.Properties

open HitlOps.Python HitlOps.Domain HitlOps.Infrastructure HitlOps.Application
open HitlOps.Transaction HitlOps.Lifecycle
open HitlOps.Api (getSession)

/-! ## Paths that write nothing -/

/-- Every path, whatever the statements return. -/
abbrev everyPath : Watch Db := Watch.over (fun _ => True) fun _ _ => True

/-- A statement that leaves the session as it is. -/
def ReadOnly : Stmt Db → Prop
  | .select => True
  | .lock _ _ => True
  | .draw _ => True
  | .mark _ => True
  | _ => False

section Paths

variable {α β : Type} {h : List (Obs Db)} {Q : Except Error α → List (Obs Db) → Prop}

theorem wp_any {p : M α} (hQ : ∀ r h', Q r h') : everyPath.wp p Q h := by
  induction p generalizing h with
  | ret a => exact hQ _ _
  | raise x => exact hQ _ _
  | stmt st k ih => exact ⟨trivial, fun r _ => ih r⟩

theorem writes_extend {st : Stmt Db} (hst : ReadOnly st) (h : List (Obs Db)) (r : st.Resp) :
    History.writes (extend h st r) = History.writes h := by
  cases st with
  | select => rfl
  | lock k nowait => rfl
  | draw o => rfl
  | mark m => rfl
  | _ => cases hst

/-- An error that does not tell of an elapsed window. -/
abbrev Ordinary (x : Error) : Prop := x.isApprovalExpired = false

/-- A program that only reads ends with the writes it began with. -/
theorem wp_readOnly_bind {p : M β} {f : β → M α} (hp : p.Uses ReadOnly Ordinary)
    (hx : ∀ x h', Ordinary x → History.writes h' = History.writes h → Q (.error x) h')
    (hf : ∀ b h', History.writes h' = History.writes h → everyPath.wp (f b) Q h') :
    everyPath.wp (p >>= f) Q h := by
  refine Watch.wp_bind (Watch.wp_uses (fun h' => History.writes h' = History.writes h) ?_ hp rfl
    fun r h' hw hr => ?_)
  · intro st hst h' hw
    exact ⟨trivial, fun r _ => (writes_extend hst h' r).trans hw⟩
  · cases r with
    | ok b => exact hf b h' hw
    | error x => exact hx x h' (hr x rfl) hw

end Paths

/-! ## The guards -/

section Guards

theorem readOnly_query {α : Type} (q : Store → α) :
    (Prog.query (D := Db) q : M α).Uses ReadOnly Ordinary := Prog.uses_query trivial

theorem readOnly_raiseIf {c : Prop} [Decidable c] {x : Error} (hx : Ordinary x) :
    (Prog.raiseIf (D := Db) c x).Uses ReadOnly Ordinary := Prog.uses_raiseIf hx

theorem readOnly_scan {α : Type} (q : Store → List α) : (scan q).Uses ReadOnly Ordinary :=
  (readOnly_query q).bind fun _ => (Prog.uses_draw (S := ReadOnly) trivial).bind fun _ => trivial

theorem readOnly_scalarOne {α : Type} (rows : List α) :
    (scalarOne rows).Uses ReadOnly Ordinary := by
  match rows with
  | [] => rfl
  | [a] => trivial
  | a :: b :: rest => rfl

theorem readOnly_scalarOneOrNone {α : Type} (rows : List α) :
    (scalarOneOrNone rows).Uses ReadOnly Ordinary := by
  match rows with
  | [] => trivial
  | [a] => trivial
  | a :: b :: rest => rfl

theorem readOnly_currentRoles (actor : AuthenticatedActor) (environment : Option Json) :
    (currentRoles actor environment).Uses ReadOnly Ordinary :=
  (readOnly_query _).bind fun _ => (Prog.uses_draw (S := ReadOnly) trivial).bind fun _ => trivial

theorem readOnly_currentScopes (actor : AuthenticatedActor) (environment : Option Json) :
    (currentScopes actor environment).Uses ReadOnly Ordinary :=
  (readOnly_query _).bind fun _ => (Prog.uses_draw (S := ReadOnly) trivial).bind fun _ => trivial

theorem readOnly_approverScopes (command : ApprovalDecisionCommand) (policy : PolicyEvaluation)
    (environment : Option Json) :
    (approverScopes command policy environment).Uses ReadOnly Ordinary := by
  unfold approverScopes
  refine Prog.uses_ite (fun _ => ?_) fun _ => trivial
  refine (readOnly_raiseIf rfl).bind fun _ => ?_
  refine (readOnly_currentScopes _ _).bind fun scopes => ?_
  refine (readOnly_raiseIf rfl).bind fun _ => ?_
  exact (readOnly_raiseIf rfl).bind fun _ => trivial

theorem readOnly_enforceDistinctL1 (key : RevisionKey) (actorId : String) :
    (enforceDistinctL1 key actorId).Uses ReadOnly Ordinary := by
  unfold enforceDistinctL1
  refine (readOnly_scan _).bind fun actors => ?_
  exact (readOnly_scalarOneOrNone actors).bind fun _ => readOnly_raiseIf rfl

theorem readOnly_enforceCanceller (command : CancelIntentCommand) (intent : ActionIntent) :
    (enforceCanceller command intent).Uses ReadOnly Ordinary := by
  unfold enforceCanceller
  refine Prog.uses_ite (fun _ => ?_) fun _ => trivial
  exact (readOnly_currentRoles _ _).bind fun _ => readOnly_raiseIf rfl

end Guards

/-! ## The rows -/

section Rows

variable {α : Type} {h : List (Obs Db)}

/-- An exception that is no domain error. -/
abbrev Foreign (x : Error) : Prop := x.isDomain = false

/-- The history behind a transition of `intent`. -/
def afterTransition (intent : ActionIntent) (target : IntentState) (cause : Cause) (dbNow : Time)
    (topic : String) (payload : Dict) (seen : Store × Instant) (h : List (Obs Db)) :
    List (Obs Db) :=
  .did (.write (.updateIntent intent.key ⟨target, intent.stateVersion + 1, none⟩)) () ::
    .did (.write (.insertOutbox topic payload)) () ::
      .did (.write (.insertTransition
        (transitionRow intent target cause (seen.1.maxSequence intent.key + 1) dbNow))) () ::
        .did .select seen :: h

theorem wp_query {q : Store → α} {Q : Except Error α → List (Obs Db) → Prop}
    (hQ : ∀ seen, Q (.ok (q seen.1)) (.did .select seen :: h)) :
    everyPath.wp (Prog.query (D := Db) q) Q h := ⟨trivial, fun seen _ => hQ seen⟩

theorem wp_flush {w : Write} {Q : Except Error Unit → List (Obs Db) → Prop}
    (hx : ∀ x h', Foreign x → Q (.error x) h') (hok : Q (.ok ()) (.did (.write w) () :: h)) :
    everyPath.wp (flush w) Q h :=
  Watch.wp_bind (Watch.wp_raiseIf (fun _ => hx _ _ rfl) fun _ => ⟨trivial, fun _ _ => hok⟩)

/-- A legal transition meets no domain error. -/
theorem wp_appendTransition {intent : ActionIntent} {target : IntentState} {cause : Cause}
    {dbNow : Time} {topic : String} {payload : Dict}
    {Q : Except Error ActionIntent → List (Obs Db) → Prop} (hlegal : isLegal intent.state target = true)
    (hx : ∀ x h', Foreign x → Q (.error x) h')
    (hok : ∀ seen, Q (.ok (moved intent target))
      (afterTransition intent target cause dbNow topic payload seen h)) :
    everyPath.wp (appendTransition intent target cause dbNow topic payload) Q h := by
  unfold appendTransition requireTransition
  refine Watch.wp_bind (Watch.wp_raiseIf (fun hillegal => ?_) fun _ => ?_)
  · rw [hlegal] at hillegal
    cases hillegal
  · refine Watch.wp_bind (wp_query fun seen => ?_)
    refine Watch.wp_bind (wp_flush hx ?_)
    refine Watch.wp_bind (wp_flush hx ?_)
    exact Watch.wp_bind (wp_flush hx (hok seen))

/-- The rows of a decision with a legal target meet no domain error. -/
theorem wp_writeDecision {command : ApprovalDecisionCommand} {intent : ActionIntent}
    {policy : PolicyEvaluation} {roles scopes : List String} {target : IntentState} {dbNow : Time}
    {Q : Except Error IntentSnapshot → List (Obs Db) → Prop}
    (hlegal : isLegal intent.state target = true) (hx : ∀ x h', Foreign x → Q (.error x) h')
    (hok : ∀ a h', Q (.ok a) h') :
    everyPath.wp (writeDecision command intent policy roles scopes target dbNow) Q h := by
  unfold writeDecision insertDecision
  refine Watch.wp_bind (Watch.wp_bind (wp_query fun seen => ?_))
  refine Watch.wp_bind (Watch.wp_raiseIf (fun _ => hx _ _ rfl) fun _ => ?_)
  refine wp_flush hx ?_
  refine Watch.wp_bind (wp_appendTransition hlegal hx fun seen => ?_)
  refine Watch.wp_ite (fun hfirst => ?_) fun _ => hok _ _
  -- The second transition starts where the first one ended.
  obtain ⟨-, rfl⟩ := hfirst
  exact Watch.wp_bind (wp_appendTransition rfl hx fun seen => hok _ _)

end Rows

/-! ## Decisions and cancellations -/

section Commands

variable {h : List (Obs Db)}

/-- The target of a decision is a legal one. -/
theorem wp_resolveTarget {intent : ActionIntent} {route : ApprovalRoute}
    {command : ApprovalDecisionCommand} {Q : Except Error IntentState → List (Obs Db) → Prop}
    (hx : ∀ x h', Ordinary x → History.writes h' = History.writes h → Q (.error x) h')
    (hok : ∀ target h', isLegal intent.state target = true →
      History.writes h' = History.writes h → Q (.ok target) h') :
    everyPath.wp (resolveTarget intent route command) Q h := by
  unfold resolveTarget requireTransition
  refine Watch.wp_ite (fun _ => ?_) fun _ => Watch.wp_ite (fun hfirst => ?_) fun _ =>
    Watch.wp_ite (fun hsecond => ?_) fun _ => hx _ _ rfl rfl
  · refine Watch.wp_bind (Watch.wp_raiseIf (fun _ => hx _ _ rfl rfl) fun hlegal => ?_)
    rw [Bool.not_eq_false] at hlegal
    exact hok _ _ hlegal rfl
  · have hlegal : ∀ target ∈ [IntentState.approvedByLevel1, .approved],
        isLegal intent.state target = true := by
      rw [hfirst]
      decide
    refine Watch.wp_ite (fun _ => hx _ _ rfl rfl) fun _ => ?_
    refine Watch.wp_ite (fun _ => ?_) fun _ => ?_
    · exact hok _ _ (hlegal _ List.mem_cons_self) rfl
    · exact hok _ _ (hlegal _ (List.mem_cons_of_mem _ List.mem_cons_self)) rfl
  · refine Watch.wp_ite (fun _ => hx _ _ rfl rfl) fun _ => ?_
    refine Watch.wp_ite (fun _ => hx _ _ rfl rfl) fun _ => ?_
    refine wp_readOnly_bind (readOnly_enforceDistinctL1 _ _) hx fun _ h' hw => ?_
    refine hok _ _ ?_ hw
    rw [hsecond]
    rfl

/-- A refusal that has written nothing. -/
def Silent {α : Type} (h : List (Obs Db)) : Except Error α → List (Obs Db) → Prop :=
  fun r h' => ∀ x, r = .error x → x.isDomain = true →
    Ordinary x ∧ History.writes h' = History.writes h

theorem silent_error {α : Type} {x : Error} {h' : List (Obs Db)} (hx : Ordinary x)
    (hw : History.writes h' = History.writes h) : Silent (α := α) h (.error x) h' := by
  intro y hy _
  cases hy
  exact ⟨hx, hw⟩

theorem silent_foreign {α : Type} {x : Error} {h' : List (Obs Db)} (hx : Foreign x) :
    Silent (α := α) h (.error x) h' := by
  intro y hy hdomain
  cases hy
  rw [hx] at hdomain
  cases hdomain

theorem silent_ok {α : Type} {a : α} {h' : List (Obs Db)} : Silent h (.ok a) h' :=
  fun _ hx => (by cases hx)

theorem wp_decideCurrent (command : ApprovalDecisionCommand) (intent : ActionIntent)
    (dbNow : Time) : everyPath.wp (decideCurrent command intent dbNow) (Silent h) h := by
  unfold decideCurrent
  have hx : ∀ x h', Ordinary x → History.writes h' = History.writes h →
      Silent (α := IntentSnapshot) h (.error x) h' := fun x h' => silent_error
  -- Each guard leaves the writes as they were, whether it passes or refuses.
  refine wp_readOnly_bind (readOnly_query _) hx fun policies h₁ hw₁ => ?_
  rw [← hw₁] at hx
  refine wp_readOnly_bind (readOnly_scalarOne policies) hx fun policy h₂ hw₂ => ?_
  rw [← hw₂] at hx
  refine wp_readOnly_bind (readOnly_currentRoles _ _) hx fun roles h₃ hw₃ => ?_
  rw [← hw₃] at hx
  refine wp_readOnly_bind (readOnly_raiseIf rfl) hx fun _ h₄ hw₄ => ?_
  rw [← hw₄] at hx
  refine wp_readOnly_bind (readOnly_approverScopes _ _ _) hx fun scopes h₅ hw₅ => ?_
  rw [← hw₅] at hx
  refine wp_readOnly_bind (readOnly_raiseIf rfl) hx fun _ h₆ hw₆ => ?_
  rw [← hw₆] at hx
  refine Watch.wp_bind (wp_resolveTarget hx fun target h₇ hlegal _ => ?_)
  exact wp_writeDecision hlegal (fun x h' => silent_foreign) fun a h' => silent_ok

/-- The cause of an expiry. -/
def clockCause (command : ApprovalDecisionCommand) : Cause :=
  ⟨"system", "approval-clock", command.commandId, "approval_ttl_elapsed"⟩

/-- The history of a decision that finds the window of the intent elapsed. -/
inductive Expired (command : ApprovalDecisionCommand) (h : List (Obs Db)) : List (Obs Db) → Prop
  | of (intent : ActionIntent) (locked seen : Store × Instant)
      (hfound : locked.1.intent? command.key = some intent)
      (hstate : intent.state ∈ expirableStates) :
      Expired command h (afterTransition intent .expired (clockCause command) locked.2
        "intent.transitioned" (Commands.transitionPayload intent .expired (clockCause command)) seen
        (.did (.lock (.intent command.key) true) (some locked) ::
          .did (.mark (.decide command)) () :: h))

/-- How a decision ends: a refusal is silent, or it is the expiry of the window. -/
def Decided {α : Type} (command : ApprovalDecisionCommand) (h : List (Obs Db)) :
    Except Error α → List (Obs Db) → Prop :=
  fun r h' => Silent h r h' ∨ ∃ x, r = .error x ∧ x.isApprovalExpired = true ∧
    x.persistState = true ∧ Expired command h h'

theorem wp_lockIntentNowait {key : RevisionKey}
    {Q : Except Error (Option (Option ActionIntent × Time)) → List (Obs Db) → Prop}
    (hrefused : Q (.ok none) (.did (.lock (.intent key) true) none :: h))
    (hlocked : ∀ locked, Q (.ok (some (locked.1.intent? key, locked.2)))
      (.did (.lock (.intent key) true) (some locked) :: h)) :
    everyPath.wp (lockIntentNowait key) Q h := by
  refine ⟨trivial, fun r _ => ?_⟩
  cases r with
  | none => exact hrefused
  | some locked => exact hlocked locked

/-- The first step of both commands: nothing, or a granted lock on a row. -/
theorem wp_loadLockedIntent {key : RevisionKey}
    {Q : Except Error (ActionIntent × Time) → List (Obs Db) → Prop}
    (hx : ∀ x h', Ordinary x → History.writes h' = History.writes h → Q (.error x) h')
    (hok : ∀ intent locked, locked.1.intent? key = some intent →
      Q (.ok (intent, locked.2)) (.did (.lock (.intent key) true) (some locked) :: h)) :
    everyPath.wp (loadLockedIntent key) Q h := by
  unfold loadLockedIntent
  refine Watch.wp_bind (wp_lockIntentNowait (hx _ _ rfl rfl) fun locked => ?_)
  generalize hfound : locked.1.intent? key = found
  cases found with
  | none => exact hx _ _ rfl rfl
  | some intent => exact hok intent locked hfound

theorem isLegal_expired : ∀ state ∈ expirableStates, isLegal state .expired = true := by decide

theorem isLegal_cancelled : ∀ state ∈ cancellableStates, isLegal state .cancelled = true := by
  decide

theorem wp_decide (command : ApprovalDecisionCommand) :
    everyPath.wp (Application.decide command) (Decided command h) h := by
  unfold Application.decide
  have hx : ∀ {g : List (Obs Db)}, History.writes g = History.writes h →
      ∀ x h', Ordinary x → History.writes h' = History.writes g →
        Decided (α := IntentSnapshot) command h (.error x) h' :=
    fun hg x h' hord hw => .inl (silent_error hord (hw.trans hg))
  refine Watch.wp_bind ⟨trivial, fun _ _ => ?_⟩
  refine Watch.wp_bind (Watch.wp_raiseIf (fun _ => hx rfl _ _ rfl rfl) fun _ => ?_)
  refine Watch.wp_bind (wp_loadLockedIntent (hx rfl) fun intent locked hfound => ?_)
  refine Watch.wp_bind (Watch.wp_raiseIf (fun _ => hx rfl _ _ rfl rfl) fun _ => ?_)
  refine Watch.wp_bind (Watch.wp_raiseIf (fun _ => hx rfl _ _ rfl rfl) fun _ => ?_)
  refine Watch.wp_ite (fun hexpired => ?_) fun _ => ?_
  · refine Watch.wp_bind (wp_appendTransition (isLegal_expired _ hexpired.1)
      (fun x h' hforeign => .inl (silent_foreign hforeign)) fun seen => ?_)
    exact .inr ⟨_, rfl, rfl, rfl, .of intent locked seen hfound hexpired.1⟩
  · exact Watch.wp_mono (fun r h' hsilent => .inl hsilent) (wp_decideCurrent command intent locked.2)

theorem wp_cancel (command : CancelIntentCommand) :
    everyPath.wp (Application.cancel command) (Silent h) h := by
  unfold Application.cancel
  have hx : ∀ {g : List (Obs Db)}, History.writes g = History.writes h →
      ∀ x h', Ordinary x → History.writes h' = History.writes g →
        Silent (α := IntentSnapshot) h (.error x) h' :=
    fun hg x h' hord hw => silent_error hord (hw.trans hg)
  refine Watch.wp_bind ⟨trivial, fun _ _ => ?_⟩
  refine Watch.wp_bind (Watch.wp_raiseIf (fun _ => hx rfl _ _ rfl rfl) fun _ => ?_)
  refine Watch.wp_bind (wp_loadLockedIntent (hx rfl) fun intent locked hfound => ?_)
  refine Watch.wp_bind (Watch.wp_raiseIf (fun _ => hx rfl _ _ rfl rfl) fun _ => ?_)
  refine Watch.wp_bind (Watch.wp_raiseIf (fun _ => hx rfl _ _ rfl rfl) fun hstate => ?_)
  rw [Decidable.not_not] at hstate
  refine wp_readOnly_bind (readOnly_enforceCanceller command intent) (hx rfl) fun _ h' _ => ?_
  exact Watch.wp_bind (wp_appendTransition (isLegal_cancelled _ hstate)
    (fun x h' => silent_foreign) fun seen => silent_ok)

end Commands

/-! ## Sessions -/

section Sessions

variable {α : Type} {h : List (Obs Db)}

/-- The history of a session that ended with the error `x`: what came before had `P`. -/
def ClosedBy (x : Error) (P : List (Obs Db) → Prop) (h' : List (Obs Db)) : Prop :=
  ∃ g, P g ∧ (h' = .did .commit () :: g ∧ x.persistState = true ∨
    h' = .did .rollback () :: g ∧ x.persistState = false)

theorem persistState_eq_false {x : Error} (h : ¬ (x.isException = true ∧ x.persistState = true)) :
    x.persistState = false := by
  cases x with
  | domain e =>
      rw [← Bool.not_eq_true]
      exact fun hpersist => h ⟨rfl, hpersist⟩
  | _ => rfl

/-- The session dependency commits on an error with `persist_state`, and rolls back on others. -/
theorem wp_getSession {body : M α} {B Q : Except Error α → List (Obs Db) → Prop}
    (hbody : everyPath.wp body B h) (hok : ∀ a h', Q (.ok a) h')
    (hx : ∀ x h', ClosedBy x (B (.error x)) h' → Q (.error x) h') :
    everyPath.wp (getSession body) Q h := by
  unfold getSession
  refine Watch.wp_handle (Watch.wp_bind (Watch.wp_mono (fun r g hr => ?_) hbody))
  cases r with
  | ok a => exact ⟨trivial, fun _ _ => hok _ _⟩
  | error x =>
      refine Watch.wp_ite (fun hpersist => ?_) fun hother => ?_
      · exact ⟨trivial, fun _ _ => hx _ _ ⟨g, hr, .inl ⟨rfl, hpersist.2⟩⟩⟩
      · exact ⟨trivial, fun _ _ => hx _ _ ⟨g, hr, .inr ⟨rfl, persistState_eq_false hother⟩⟩⟩

/-- What the history of an operation says of its error. -/
def errorPost : Op → Except Error Result → List (Obs Db) → Prop
  | .decide command, .error x =>
      ClosedBy x (Decided (α := IntentSnapshot) command [] (.error x))
  | .cancel _, .error x => ClosedBy x (Silent (α := IntentSnapshot) [] (.error x))
  | _, _ => fun _ => True

theorem wp_code (rt : Runtime) (op : Op) : everyPath.wp (code rt op) (errorPost op) [] := by
  cases op with
  | decide command =>
      refine Watch.wp_bind (wp_getSession (wp_decide command) (fun a h' => trivial) ?_)
      exact fun x h' hclosed => hclosed
  | cancel command =>
      refine Watch.wp_bind (wp_getSession (wp_cancel command) (fun a h' => trivial) ?_)
      exact fun x h' hclosed => hclosed
  | _ => exact wp_any fun r h' => trivial

theorem followed_errorPost {rt : Runtime} {s : State} (h : Run rt (fun _ => True) s) :
    everyPath.Followed errorPost s := by
  obtain ⟨assignments, bundles, h⟩ := h
  have hwrite : ∀ (g : List (Obs Db)) (w : Write), True → True := fun _ _ _ => trivial
  have hkeep : ∀ (db : Store) (n : Nat) (w : Write), True → True → True := fun _ _ _ _ _ => trivial
  exact (Watch.followed_of_reachable hkeep hwrite (fun _ _ _ _ => trivial)
    (fun op _ => wp_code rt op) trivial h).1

end Sessions

/-! ## What the session holds -/

/-- The error that a program raises at once. -/
def raisedNow : M Result → Option Error
  | .raise x => some x
  | _ => none

/-- The error that the command of the process has raised, while its session is about to end. -/
def raised? (p : Proc Db Error Result Op) : Option Error :=
  match p.prog with
  | .stmt .commit k => raisedNow (k ())
  | .stmt .rollback k => raisedNow (k ())
  | _ => none

theorem eq_raise_of_raisedNow {p : M Result} {x : Error} (h : raisedNow p = some x) :
    p = .raise x := by
  cases p with
  | raise y =>
      obtain rfl := Option.some.inj h
      rfl
  | ret a => cases h
  | stmt st k => cases h

/-- The process ends its session next, by a commit or a rollback. -/
theorem prog_of_raised {p : Proc Db Error Result Op} {x : Error} (h : raised? p = some x) :
    ∃ k : Unit → M Result, (p.prog = .stmt .commit k ∨ p.prog = .stmt .rollback k) ∧
      k () = .raise x := by
  unfold raised? at h
  split at h
  · next k hprog => exact ⟨k, .inl hprog, eq_raise_of_raisedNow h⟩
  · next k hprog => exact ⟨k, .inr hprog, eq_raise_of_raisedNow h⟩
  · cases h

/-- The session has no write, so a commit and a rollback leave the same store. -/
structure LeavesAsIs (s : State) (p : Proc Db Error Result Op) : Prop where
  nothing : p.session.pending = []
  commit : p.session.view s.db = s.db

/-- The session holds the expiry of the intent and nothing else, and commits it. -/
structure ExpiresOnly (s : State) (command : ApprovalDecisionCommand)
    (p : Proc Db Error Result Op) (a : ActionIntent) (t : StateTransition) (m : OutboxMessage) :
    Prop where
  stored : s.db.intent? command.key = some a
  legal : isLegal a.state .expired = true
  transition : t.key = command.key ∧ t.fromState = some a.state ∧ t.toState = .expired ∧
    t.sequence = s.db.maxSequence command.key + 1
  message : m.topic = "intent.transitioned" ∧
    m.payload = Commands.transitionPayload a .expired (clockCause command)
  view : p.session.view s.db =
    { s.db with
      intents := s.db.intents.map fun r => if r.key = command.key then moved r .expired else r
      transitions := s.db.transitions ++ [t]
      outbox := s.db.outbox ++ [m] }
  commits : ∃ k, p.prog = .stmt .commit k

section Commands

variable {rt : Runtime} {s : State} {pid : Nat} {p : Proc Db Error Result Op} {x : Error}

theorem errorPost_of_raised (h : Run rt (fun _ => True) s) (hp : s.procs pid = some p)
    (hx : raised? p = some x) : ∃ o : Obs Db, errorPost p.op (.error x) (o :: p.history) ∧
      (o = .did .commit () → ∃ k, p.prog = .stmt .commit k) := by
  obtain ⟨k, hprog, hk⟩ := prog_of_raised hx
  have hwaiting : p.waiting = false := by
    cases hw : p.waiting with
    | false => rfl
    | true =>
        have hc := ((followed_errorPost h).procs pid p hp).2
        simp only [Watch.Continues, hw, if_true] at hc
        obtain ⟨c, k', g, hcall, -⟩ := hc
        rcases hprog with hprog | hprog <;> rw [hprog] at hcall <;> cases hcall
  have hwp := wp_of_followed (followed_errorPost h) hp hwaiting
  rcases hprog with hprog | hprog
  · rw [hprog] at hwp
    have hnext := hwp.2 () fun σ hσ => trivial
    rw [hk] at hnext
    exact ⟨.did .commit (), hnext, fun _ => ⟨k, hprog⟩⟩
  · rw [hprog] at hwp
    have hnext := hwp.2 () fun σ hσ => trivial
    rw [hk] at hnext
    exact ⟨.did .rollback (), hnext, fun ho => (by cases ho)⟩

theorem leavesAsIs_of_writes (h : Run rt (fun _ => True) s) (hp : s.procs pid = some p)
    (hwrites : History.writes p.history = []) : LeavesAsIs s p := by
  obtain ⟨assignments, bundles, h⟩ := h
  have hpending := ((exact_of_reachable h).procs pid p hp).pending
  rw [hwrites, List.map_eq_nil_iff] at hpending
  refine ⟨hpending, ?_⟩
  unfold Session.view
  rw [hpending, List.foldl_nil]

/-- With one row of each key, the patch of an expiry moves the row on by one version. -/
theorem patch_eq_moved {db : Store} (hnodup : (db.intents.map (·.key)).Nodup) {a : ActionIntent}
    (ha : a ∈ db.intents) : (db.intents.map fun r =>
      if r.key = a.key then r.patch ⟨.expired, a.stateVersion + 1, none⟩ else r) =
        db.intents.map fun r => if r.key = a.key then moved r .expired else r := by
  apply List.map_congr_left
  intro r hr
  by_cases hkey : r.key = a.key
  · obtain rfl := List.inj_on_of_nodup_map hnodup hr ha hkey
    rw [if_pos rfl, if_pos rfl]
    rfl
  · rw [if_neg hkey, if_neg hkey]

/-- Three pending writes, with the numbers that they drew. -/
theorem eq_of_map_snd {pending : List (Nat × Write)} {w₁ w₂ w₃ : Write}
    (h : pending.map Prod.snd = [w₁, w₂, w₃]) :
    ∃ n₁ n₂ n₃, pending = [(n₁, w₁), (n₂, w₂), (n₃, w₃)] := by
  obtain ⟨⟨n₁, v₁⟩, rest₁, rfl, hv₁, h₁⟩ := List.map_eq_cons_iff.1 h
  obtain ⟨⟨n₂, v₂⟩, rest₂, rfl, hv₂, h₂⟩ := List.map_eq_cons_iff.1 h₁
  obtain ⟨⟨n₃, v₃⟩, rest₃, rfl, hv₃, h₃⟩ := List.map_eq_cons_iff.1 h₂
  obtain rfl := List.map_eq_nil_iff.1 h₃
  cases hv₁
  cases hv₂
  cases hv₃
  exact ⟨n₁, n₂, n₃, rfl⟩

/-- The history of an expiry is what the session holds. -/
theorem expiresOnly_of_expired (h : Run rt (fun _ => True) s) (hp : s.procs pid = some p)
    {command : ApprovalDecisionCommand} (hexpired : Expired command [] p.history)
    (hcommits : ∃ k, p.prog = .stmt .commit k) : ∃ a t m, ExpiresOnly s command p a t m := by
  generalize hhistory : p.history = g at hexpired
  obtain ⟨intent, locked, seen, hfound, hstate⟩ := hexpired
  have hkey : intent.key = command.key := key_of_intent? hfound
  have hheld : History.held (D := Db) [.did (.lock (.intent command.key) true) (some locked),
      .did (.mark (.decide command)) ()] = [.intent command.key] := by
    simp only [History.held, Option.any_some, present, hfound, Option.isSome_some, if_true]
  -- The row and the log were read under the lock.
  have hcurrent : ∀ σ, (σ, [.intent command.key]) ∈ booksRead p.history →
      revision σ command.key = revision s.db command.key :=
    fun σ hσ => revision_current h command.key pid p hp _ hσ List.mem_cons_self
  have hlocked : (locked.1, [.intent command.key]) ∈ booksRead p.history := by
    rw [hhistory, ← hheld]
    refine mem_reads_of_cons rfl (mem_reads_of_cons rfl (mem_reads_of_cons rfl
      (mem_reads_of_cons rfl ?_)))
    exact List.mem_append_left _ (List.mem_singleton_self _)
  have hseen : (seen.1, [.intent command.key]) ∈ booksRead p.history := by
    rw [hhistory, ← hheld]
    refine mem_reads_of_cons rfl (mem_reads_of_cons rfl (mem_reads_of_cons rfl ?_))
    exact List.mem_append_left _ (List.mem_singleton_self _)
  have hstored : s.db.intent? command.key = some intent :=
    (congrArg Revision.intent (hcurrent _ hlocked)).symm.trans hfound
  have hsequence : seen.1.maxSequence intent.key = s.db.maxSequence command.key := by
    rw [hkey]
    exact congrArg (fun r : Revision => r.log.foldl (fun n t => max n t.sequence) 0)
      (hcurrent _ hseen)
  have hnodup := intentKeys_nodup h
  obtain ⟨assignments, bundles, h⟩ := h
  have hpending := ((exact_of_reachable h).procs pid p hp).pending
  rw [hhistory] at hpending
  obtain ⟨n₁, n₂, n₃, hlist⟩ := eq_of_map_snd hpending
  refine ⟨intent, transitionRow intent .expired (clockCause command)
    (s.db.maxSequence command.key + 1) locked.2, ⟨n₂, "intent.transitioned",
      Commands.transitionPayload intent .expired (clockCause command)⟩, hstored,
      isLegal_expired _ hstate, ⟨hkey, rfl, rfl, rfl⟩, ⟨rfl, rfl⟩, ?_, hcommits⟩
  unfold Session.view
  rw [hlist, List.foldl_cons, List.foldl_cons, List.foldl_cons, List.foldl_nil]
  have hpatched := patch_eq_moved hnodup (List.mem_of_find?_eq_some hstored)
  rw [hkey] at hpatched
  rw [← hpatched, ← hsequence, hkey]
  rfl

end Commands

/-- A refused cancellation, and a decision that is refused for another reason than its window, have
written nothing; a decision that finds the window elapsed has written the expiry only. -/
theorem refusals_write_nothing {rt : Runtime} {s : State} (h : Run rt (fun _ => True) s) {pid : Nat}
    {p : Proc Db Error Result Op} (hp : s.procs pid = some p) {x : Error} (hx : raised? p = some x)
    (hdomain : x.isDomain = true) :
    (∀ command, p.op = .cancel command → LeavesAsIs s p) ∧
      (∀ command, p.op = .decide command → x.isApprovalExpired = false → LeavesAsIs s p) ∧
      ∀ command, p.op = .decide command → x.isApprovalExpired = true →
        ∃ a t m, ExpiresOnly s command p a t m := by
  -- The session has ended in a commit or in a rollback, behind the history of the command.
  obtain ⟨o, hpost, hcommits⟩ := errorPost_of_raised h hp hx
  refine ⟨fun command hop => ?_, fun command hop hother => ?_, fun command hop hexpired => ?_⟩
  · rw [hop] at hpost
    obtain ⟨g, hsilent, hclosed⟩ := hpost
    have hg : p.history = g := by
      rcases hclosed with ⟨heq, -⟩ | ⟨heq, -⟩ <;> exact (List.cons.inj heq).2
    exact leavesAsIs_of_writes h hp (hg ▸ (hsilent x rfl hdomain).2)
  · rw [hop] at hpost
    obtain ⟨g, hdecided, hclosed⟩ := hpost
    have hg : p.history = g := by
      rcases hclosed with ⟨heq, -⟩ | ⟨heq, -⟩ <;> exact (List.cons.inj heq).2
    rcases hdecided with hsilent | ⟨y, hy, hexpired, -⟩
    · exact leavesAsIs_of_writes h hp (hg ▸ (hsilent x rfl hdomain).2)
    · cases hy
      rw [hother] at hexpired
      cases hexpired
  · rw [hop] at hpost
    obtain ⟨g, hdecided, hclosed⟩ := hpost
    have hg : p.history = g := by
      rcases hclosed with ⟨heq, -⟩ | ⟨heq, -⟩ <;> exact (List.cons.inj heq).2
    rcases hdecided with hsilent | ⟨y, hy, -, hpersist, hhistory⟩
    · have hother : x.isApprovalExpired = false := (hsilent x rfl hdomain).1
      rw [hexpired] at hother
      cases hother
    -- The expiry persists its state, so the session has committed.
    · cases hy
      rcases hclosed with ⟨heq, -⟩ | ⟨-, hrolled⟩
      · exact expiresOnly_of_expired h hp (hg ▸ hhistory) (hcommits (List.cons.inj heq).1)
      · rw [hpersist] at hrolled
        cases hrolled

/-- A deletion that waits for its first approval until the window has elapsed. -/
def lateApproval : List (Move Db Op) :=
  Scenario.deletion.take 4 ++ [.tick 10000000000000,
    .spawn (.decide (Scenario.approval .deleteResource "alice" Scenario.alice_ne 1 4)),
    .go 2 6 Scenario.environment]

/-- The command of a decision. -/
def decisionOf? : Op → Option ApprovalDecisionCommand
  | .decide command => some command
  | _ => none

theorem eq_decide_of_decisionOf {op : Op} {command : ApprovalDecisionCommand}
    (h : decisionOf? op = some command) : op = .decide command := by
  cases op with
  | decide c =>
      obtain rfl := Option.some.inj h
      rfl
  | _ => cases h

set_option maxRecDepth 100000 in
/-- The late approval holds the expiry. -/
theorem refusals_write_nothing_late : ∃ p a t m, (Scenario.after lateApproval).procs 2 = some p ∧
    ExpiresOnly (Scenario.after lateApproval)
      (Scenario.approval .deleteResource "alice" Scenario.alice_ne 1 4) p a t m := by
  have hrun := Scenario.run_after (fun _ => True) lateApproval fun _ _ => trivial
  have hfacts : ((Scenario.after lateApproval).procs 2).bind raised? =
        some (.approvalExpiredError "approval window elapsed") ∧
      ((Scenario.after lateApproval).procs 2).bind (fun p => decisionOf? p.op) =
        some (Scenario.approval .deleteResource "alice" Scenario.alice_ne 1 4) := by
    decide +kernel
  obtain ⟨p, hp, hx⟩ := Option.bind_eq_some_iff.1 hfacts.1
  obtain ⟨p', hp', hop⟩ := Option.bind_eq_some_iff.1 hfacts.2
  rw [hp] at hp'
  obtain rfl := Option.some.inj hp'
  obtain ⟨a, t, m, hexpires⟩ := (refusals_write_nothing hrun hp hx rfl).2.2 _
    (eq_decide_of_decisionOf hop) rfl
  exact ⟨p, a, t, m, hp, hexpires⟩

end HitlOps.Properties
