import HitlOps.Lifecycle.Administration
import HitlOps.Lifecycle.Decisions

/-!
# Verdicts and deadlines

What the rows of a person, and the rows of the clock, rest on. A decision and a cancellation name the
authenticated actor of the operation that writes them; a decision and a permit are written before the
approval window of the locked row ends, and an expiry after it; the window itself is opened by the
evaluation only. `judging` is the watch of these obligations, with one more at each commit: the
verdicts that the transaction has entered are the decisions that it has stored, one for one.
-/

set_option autoImplicit false

namespace HitlOps.Lifecycle

open HitlOps.Python HitlOps.Domain HitlOps.Infrastructure HitlOps.Application HitlOps.Adapters
open HitlOps.Transaction HitlOps.Api

/-! ## Obligations -/

/-- The row of the revision as the open transaction has read it under its lock. -/
def LockedRow (h : List (Obs Db)) (k : RevisionKey) (a : ActionIntent) : Prop :=
  ∃ e ∈ booksRead h, .intent k ∈ e.2 ∧ e.1.intent? k = some a

/-- The person behind an operation. -/
def personOf? : Op → Option AuthenticatedActor
  | .route request _ => some request.actor
  | .decide command => some command.actor
  | .cancel command => some command.actor
  | _ => none

/-- What a transition row rests on. -/
structure Warranted (op : Op) (h : List (Obs Db)) (t : StateTransition) : Prop where
  cancelled : t.toState = .cancelled → t.actorType = "human" ∧ ∃ a actor, LockedRow h t.key a ∧
    personOf? op = some actor ∧ actor.tenantId = t.key.tenantId ∧ actor.actorId = t.actorId ∧
    (actor.actorId = a.requesterId ∨ Commissioned h actor)
  expired : t.toState = .expired →
    ∃ a, LockedRow h t.key a ∧ a.state ≠ .requested ∧ ElapsedAt a t.occurredAt
  executing : t.toState = .executing →
    ∃ a, LockedRow h t.key a ∧ a.state ≠ .requested ∧ OpenAt a t.occurredAt

/-- What a decision row rests on. -/
def Founded (op : Op) (h : List (Obs Db)) (d : ApprovalDecisionRow) : Prop :=
  ∃ a actor, LockedRow h d.key a ∧ a.state ≠ .requested ∧ personOf? op = some actor ∧
    actor.tenantId = d.key.tenantId ∧ actor.actorId = d.actorId ∧
    d.expiresAt = a.approvalExpiresAt ∧ OpenAt a d.decidedAt

/-- What a write rests on; a deadline is set by the transaction that evaluates the revision. -/
def RestsOn (op : Op) (h : List (Obs Db)) : Write → Prop
  | .insertTransition t => Warranted op h t
  | .insertDecision d => Founded op h d
  | .updateIntent key patch => patch.approvalExpiresAt ≠ none →
      ∃ t ∈ entered h, t.key = key ∧ t.toState = .riskEvaluated
  | _ => True

/-- The states that a verdict leads to. -/
def verdictStates : List IntentState := [.approvedByLevel1, .approved, .rejected]

/-- The verdicts of a log. -/
def verdicts (log : List StateTransition) : List StateTransition :=
  log.filter fun t => t.toState ∈ verdictStates

/-- The decisions that the open transaction has written. -/
def decided (h : List (Obs Db)) : List ApprovalDecisionRow := (ghostAfter h).decided

/-- The transition row is the verdict of the decision. -/
structure Pronounces (t : StateTransition) (d : ApprovalDecisionRow) : Prop where
  key : t.key = d.key
  actor : t.actorType = "human" ∧ t.actorId = d.actorId
  time : t.occurredAt = d.decidedAt
  verdict : t.toState = .rejected ↔ d.decision = .reject
  level : t.toState = .approvedByLevel1 → d.level = 1

/-- The verdicts of the open transaction are its decisions. -/
def Matched (h : List (Obs Db)) : Prop := List.Forall₂ Pronounces (verdicts (entered h)) (decided h)

/-- What a statement owes. -/
def owesVerdict (op : Op) (h : List (Obs Db)) : Stmt Db → Prop
  | .write w => RestsOn op h w
  | .insert _ w => RestsOn op h w
  | .commit => Matched h
  | _ => True

/-- The watch of the verdicts. -/
@[reducible] def judging (op : Op) : Watch Db := .over (fun _ => True) (owesVerdict op)

/-! ## Neutral writes -/

/-- The states whose rows rest on something. -/
def weighedStates : List IntentState := [.cancelled, .expired, .executing] ++ verdictStates

/-- A write that owes nothing and is no verdict. -/
def Neutral : Write → Prop
  | .insertTransition t => t.toState ∉ weighedStates
  | .insertDecision _ => False
  | .updateIntent _ patch => patch.approvalExpiresAt = none
  | _ => True

/-- A write that is no verdict. -/
def Unjudged : Write → Prop
  | .insertTransition t => t.toState ∉ verdictStates
  | .insertDecision _ => False
  | _ => True

theorem Neutral.unjudged {w : Write} (hw : Neutral w) : Unjudged w := by
  cases w with
  | insertTransition t => exact fun ht => hw (List.mem_append_right _ ht)
  | insertDecision d => exact hw
  | _ => exact trivial

theorem Neutral.restsOn {w : Write} (hw : Neutral w) (op : Op) (h : List (Obs Db)) :
    RestsOn op h w := by
  have hout : ∀ {t : StateTransition} {state : IntentState}, t.toState ∉ weighedStates →
      state ∈ weighedStates → t.toState ≠ state := by
    intro t state ht hstate heq
    rw [heq] at ht
    exact ht hstate
  cases w with
  | insertTransition t =>
      refine ⟨fun ht => ?_, fun ht => ?_, fun ht => ?_⟩
      · exact absurd ht (hout hw (by decide))
      · exact absurd ht (hout hw (by decide))
      · exact absurd ht (hout hw (by decide))
  | insertDecision d => exact hw.elim
  | updateIntent key patch => exact fun hne => absurd hw hne
  | _ => exact trivial

theorem neutral_of_moves {T : List IntentState} (hT : ∀ state ∈ T, state ∉ weighedStates) {w : Write}
    (hw : MovesInto T w) : Neutral w := by
  cases w with
  | insertTransition t => exact hT _ hw
  | updateIntent key patch => exact hw.2
  | insertOutbox topic payload => exact trivial
  | _ => exact hw.elim

theorem neutral_of_executes {T : List IntentState} (hT : ∀ state ∈ T, state ∉ weighedStates)
    {w : Write} (hw : Executes T w) : Neutral w := by
  cases w with
  | insertTransition t => exact hT _ hw
  | updateIntent key patch => exact hw.2
  | insertDecision d => exact hw.elim
  | _ => exact trivial

theorem neutral_of_creates {w : Write} (hw : Creates w) : Neutral w := by
  cases w with
  | insertIntent a => exact trivial
  | _ => exact neutral_of_moves (T := [.requested]) (by decide) hw

theorem neutral_of_reserves {w : Write} (hw : Reserves w) : Neutral w := by
  cases w with
  | insertTransition t => exact hw.elim
  | insertDecision d => exact hw.elim
  | updateIntent key patch => exact hw.elim
  | _ => exact trivial

theorem neutral_of_administers {actor : AuthenticatedActor} {w : Write} (hw : Administers actor w) :
    Neutral w := by
  cases w with
  | insertTransition t => exact hw.elim
  | insertDecision d => exact hw.elim
  | updateIntent key patch => exact hw.elim
  | _ => exact trivial

/-! ## Matched histories -/

section Matching

variable {h h' : List (Obs Db)}

-- Both ends of a transaction clear the ghost lists, so nothing is left to match.
theorem matched_commit (h : List (Obs Db)) : Matched (.did .commit () :: h) := .nil

theorem matched_rollback (h : List (Obs Db)) : Matched (.did .rollback () :: h) := .nil

/-- A row that is no verdict does not count. -/
theorem verdicts_append {log : List StateTransition} {t : StateTransition}
    (ht : t.toState ∉ verdictStates) : verdicts (log ++ [t]) = verdicts log := by
  unfold verdicts
  rw [List.filter_append, List.filter_cons_of_neg (by simpa using ht), List.filter_nil,
    List.append_nil]

theorem matched_write {w : Write} (hw : Unjudged w) (hm : Matched h) :
    Matched (.did (.write w) () :: h) := by
  cases w with
  | insertTransition t =>
      have hsame : verdicts (entered h ++ [t]) = verdicts (entered h) := verdicts_append hw
      show List.Forall₂ Pronounces (verdicts (entered h ++ [t])) (decided h)
      rw [hsame]
      exact hm
  | insertDecision d => exact hw.elim
  | _ => exact hm

/-- A statement without a verdict keeps a matched history. -/
theorem matched_step {C : Call → Prop} {W : Write → Prop} (hW : ∀ w, W w → Unjudged w)
    {st : Stmt Db} (hst : Does W C st) (hm : Matched h) (r : st.Resp) : Matched (extend h st r) := by
  cases st with
  | write w => exact matched_write (hW w hst) hm
  | commit => exact matched_commit h
  | rollback => exact matched_rollback h
  | draw o => cases o <;> exact hm
  | mark m => cases m <;> exact hm
  | call c => cases c <;> exact hm
  | _ => exact hm

/-- What the open transaction has entered stays entered. -/
theorem entered_of_during (hd : During h h') : ∀ t ∈ entered h, t ∈ entered h' := by
  induction hd with
  | refl => exact fun t ht => ht
  | more o ho hd ih =>
      intro t ht
      have hlast := ih t ht
      cases o with
      | sent c => cases c <;> exact hlast
      | did st r =>
          cases st with
          | commit => cases ho
          | rollback => cases ho
          | draw o => cases o <;> exact hlast
          | mark m => cases m <;> exact hlast
          | write w =>
              cases w with
              | insertTransition t => exact List.mem_append_left _ hlast
              | _ => exact hlast
          | _ => exact hlast

theorem LockedRow.during {k : RevisionKey} {a : ActionIntent} (hl : LockedRow h k a)
    (hd : During h h') : LockedRow h' k a := by
  obtain ⟨e, he, hrest⟩ := hl
  exact ⟨e, hd.reads he, hrest⟩

end Matching

/-! ## Rules -/

/-- An error that no route records and on which every session rolls back. -/
def Fatal (x : Error) : Prop := Benign x ∧ x.isApprovalExpired = false

/-- The open transaction has written to idempotency records at most. -/
def OnlyReserved (h : List (Obs Db)) : Prop := ∀ w ∈ History.writes h, Reserves w

section Rules

variable {rt : Runtime} {op : Op} {α β : Type} {h : List (Obs Db)}
  {Q : Except Error α → List (Obs Db) → Prop}

theorem OnlyReserved.any {touches : Write → Bool} (hs : OnlyReserved h)
    (ht : ∀ w, Reserves w → touches w = false) : (History.writes h).any touches = false := by
  rw [List.any_eq_false]
  intro w hw
  rw [ht w (hs w hw)]
  exact Bool.false_ne_true

theorem OnlyReserved.clean (hs : OnlyReserved h) : (History.writes h).any touchesBooks = false :=
  hs.any fun w hw => by cases w <;> first | rfl | exact hw.elim

theorem OnlyReserved.unchanged (hs : OnlyReserved h) : Unchanged h :=
  hs.any fun w hw => by cases w <;> first | rfl | exact hw.elim

theorem onlyReserved_nil : OnlyReserved [] := fun _ hw => absurd hw List.not_mem_nil

theorem onlyReserved_of_writes (hw : History.writes h = []) : OnlyReserved h := by
  intro w hmem
  rw [hw] at hmem
  exact absurd hmem List.not_mem_nil

/-- A program of neutral writes. -/
theorem judging_aside {W : Write → Prop} {C : Call → Prop} {p : M α} (hp : Doing W C p)
    (hW : ∀ w, W w → Neutral w) (hm : Matched h) (hQ : ∀ r h', Matched h' → Q r h') :
    (judging op).wp p Q h := by
  -- The invariant of the program is that its history is matched.
  refine Watch.wp_uses Matched (fun st hst h' hm' => ?_) hp hm fun r h' hm' _ => hQ r h' hm'
  refine ⟨?_, fun r _ => matched_step (fun w hw => (hW w hw).unjudged) hst hm' r⟩
  cases st with
  | write w => exact (hW w hst).restsOn op h'
  | insert k w => exact (hW w hst).restsOn op h'
  | commit => exact hm'
  | _ => exact trivial

/-- A calm program of neutral writes stays in its transaction. -/
theorem judging_calm {W : Write → Prop} {p : M α} (hp : Calmly W p) (hW : ∀ w, W w → Neutral w)
    (hm : Matched h) (hQ : ∀ r h', During h h' → Matched h' → Q r h') : (judging op).wp p Q h := by
  refine Watch.wp_uses (fun h' => During h h' ∧ Matched h') (fun st hst h' hh => ?_) hp
    ⟨.refl h, hm⟩ fun r h' hh _ => hQ r h' hh.1 hh.2
  have hkept : ∀ r, Matched (extend h' st r) :=
    matched_step (C := fun _ => True) (fun w hw => (hW w hw).unjudged) (does_of_calm hst) hh.2
  have hmore : ∀ o : Obs Db, o.closes = false → During h (o :: h') := fun o ho => hh.1.more o ho
  cases st with
  | write w => exact ⟨(hW w hst).restsOn op h', fun r _ => ⟨hmore _ rfl, hkept r⟩⟩
  | insert k w => exact hst.elim
  | commit => exact hst.elim
  | rollback => exact hst.elim
  | call c => exact hst.elim
  | _ => exact ⟨trivial, fun r _ => ⟨hmore _ rfl, hkept r⟩⟩

/-- A program that only reads in its transaction. -/
theorem judging_reading {p : M α} (hp : Calmly (fun _ => False) p) (hm : Matched h)
    (hQ : ∀ r h', During h h' → Matched h' → Q r h') : (judging op).wp p Q h :=
  judging_calm hp (fun _ hw => hw.elim) hm hQ

/-- A program that writes to idempotency records only. -/
theorem judging_reserving {C : Call → Prop} {p : M α} (hp : Doing Reserves C p)
    (hs : OnlyReserved h) (hm : Matched h)
    (hQ : ∀ r h', OnlyReserved h' → Matched h' → Q r h') : (judging op).wp p Q h := by
  refine Watch.wp_uses (fun h' => OnlyReserved h' ∧ Matched h') (fun st hst h' hh => ?_) hp ⟨hs, hm⟩
    fun r h' hh _ => hQ r h' hh.1 hh.2
  have hkept := matched_step (fun w hw => (neutral_of_reserves hw).unjudged) hst hh.2
  have happend : ∀ {w : Write}, Reserves w → ∀ w' ∈ History.writes h' ++ [w], Reserves w' := by
    intro w hw w' hmem
    rcases List.mem_append.1 hmem with hmem | hmem
    · exact hh.1 w' hmem
    · exact List.mem_singleton.1 hmem ▸ hw
  cases st with
  | write w => exact ⟨(neutral_of_reserves hst).restsOn op h', fun r _ => ⟨happend hst, hkept r⟩⟩
  | insert k w =>
      refine ⟨(neutral_of_reserves hst).restsOn op h', fun r _ => ⟨?_, hkept r⟩⟩
      cases r with
      | true => exact happend hst
      | false => exact hh.1
  | commit => exact ⟨hh.2, fun r _ => ⟨onlyReserved_of_writes rfl, hkept r⟩⟩
  | rollback => exact ⟨trivial, fun r _ => ⟨onlyReserved_of_writes rfl, hkept r⟩⟩
  | _ => exact ⟨trivial, fun r _ => ⟨hh.1, hkept r⟩⟩

/-- A flushed row. -/
theorem judging_flush {w : Write} {Q : Except Error Unit → List (Obs Db) → Prop}
    (howes : RestsOn op h w) (herr : ∀ x h', Fatal x → Q (.error x) h')
    (hok : Q (.ok ()) (.did (.write w) () :: h)) : (judging op).wp (flush w) Q h := by
  refine Watch.wp_bind (Watch.wp_raiseIf (fun _ => herr _ _ ⟨rfl, rfl⟩) fun _ => ?_)
  exact ⟨howes, fun _ _ => hok⟩

/-- A lock statement shows the row as it is committed. -/
theorem lockedRow_of_lock (hs : OnlyReserved h) {key : RevisionKey} {a : ActionIntent} {σ : Store}
    (ha : σ.intent? key = some a) (nowait : Bool) (t : Instant) :
    LockedRow (.did (.lock (.intent key) nowait) (some (σ, t)) :: h : List (Obs Db)) key a := by
  have hclean : ¬ (History.writes h).any touchesBooks = true := by
    rw [hs.clean]
    exact Bool.false_ne_true
  have hpresent : (some (σ, t)).any (fun r => Db.present r.1 (.intent key)) = true :=
    present_intent ha
  refine ⟨(σ, History.held (.did (.lock (.intent key) nowait) (some (σ, t)) :: h : List (Obs Db))),
    ?_, ?_, ha⟩
  · -- Nothing is pending, so the statement counts as a reading of the committed tables.
    show _ ∈ (if _ then _ else _) ++ _
    rw [if_neg hclean]
    exact List.mem_append_left _ (List.mem_singleton_self _)
  · show _ ∈ if _ then _ else _
    rw [if_pos hpresent]
    exact List.mem_cons_self

theorem judging_lockIntentNowait {key : RevisionKey}
    {Q : Except Error (Option (Option ActionIntent × Time)) → List (Obs Db) → Prop}
    (hs : OnlyReserved h) (hm : Matched h) (hnone : ∀ h', Matched h' → Q (.ok none) h')
    (hmissing : ∀ t h', Matched h' → Q (.ok (some (none, t))) h')
    (hsome : ∀ a t h', OnlyReserved h' → Matched h' → LockedRow h' key a → a.key = key →
      Q (.ok (some (some a, t))) h') : (judging op).wp (lockIntentNowait key) Q h := by
  refine Watch.wp_bind ⟨trivial, fun seen _ => ?_⟩
  cases seen with
  | none => exact hnone _ hm
  | some seen =>
      obtain ⟨σ, t⟩ := seen
      show Q (.ok (some (σ.intent? key, t))) _
      cases ha : σ.intent? key with
      | none => exact hmissing t _ hm
      | some a => exact hsome a t _ hs hm (lockedRow_of_lock hs ha true t) (key_of_intent? ha)

theorem judging_loadLockedIntent {key : RevisionKey}
    {Q : Except Error (ActionIntent × Time) → List (Obs Db) → Prop} (hs : OnlyReserved h)
    (hm : Matched h) (herr : ∀ x h', Matched h' → Q (.error x) h')
    (hok : ∀ a t h', OnlyReserved h' → Matched h' → LockedRow h' key a → a.key = key →
      Q (.ok (a, t)) h') : (judging op).wp (loadLockedIntent key) Q h := by
  refine Watch.wp_bind (judging_lockIntentNowait hs hm (fun h' hm' => herr _ h' hm')
    (fun t h' hm' => herr _ h' hm') fun a t h' hs' hm' hl hkey => hok a t h' hs' hm' hl hkey)

/-- `h'` comes from `h` by the entry of one transition row. -/
structure Appends (h h' : List (Obs Db)) (t : StateTransition) : Prop where
  during : During h h'
  log : entered h' = entered h ++ [t]
  decisions : decided h' = decided h

theorem judging_appendTransition {a : ActionIntent} {target : IntentState} {cause : Cause}
    {dbNow : Time} {topic : String} {payload : Dict}
    {Q : Except Error ActionIntent → List (Obs Db) → Prop}
    (howes : ∀ sequence h', During h h' →
      Warranted op h' (transitionRow a target cause sequence dbNow))
    (herr : ∀ x h', Fatal x → Q (.error x) h')
    (hok : ∀ sequence h', Appends h h' (transitionRow a target cause sequence dbNow) →
      Q (.ok (moved a target)) h') :
    (judging op).wp (appendTransition a target cause dbNow topic payload) Q h := by
  refine Watch.wp_bind (Watch.wp_raiseIf (fun _ => herr _ _ ⟨rfl, rfl⟩) fun _ => ?_)
  refine Watch.wp_bind (Watch.wp_bind ⟨trivial, fun r _ => ?_⟩)
  have hd : During h (extend h .select r : List (Obs Db)) := (During.refl h).more _ rfl
  refine Watch.wp_bind (judging_flush (howes _ _ hd) herr ?_)
  refine Watch.wp_bind (judging_flush trivial herr ?_)
  refine Watch.wp_bind (judging_flush (fun hne => absurd rfl hne) herr ?_)
  -- The three writes of the step come after the reading of the sequence.
  exact hok _ _ ⟨((hd.more _ rfl).more _ rfl).more _ rfl, rfl, rfl⟩

end Rules

/-! ## Sessions -/

section Sessions

variable {rt : Runtime} {op : Op} {α β : Type} {h : List (Obs Db)}

/-- A session may commit this history: it is matched, or the error is fatal to the session. -/
def Fit : Except Error α → List (Obs Db) → Prop
  | .ok _, h => Matched h
  | .error x, h => Fatal x ∨ Matched h

theorem judging_getSession {p : M α} (hp : (judging op).wp p Fit h) :
    (judging op).wp (getSession p) (fun _ h' => Matched h') h := by
  refine Watch.wp_handle (Watch.wp_bind (Watch.wp_mono (fun r h' hr => ?_) hp))
  cases r with
  | ok a => exact ⟨hr, fun _ _ => matched_commit h'⟩
  | error x =>
      refine Watch.wp_ite (fun hpersist => ?_) fun _ => ?_
      · -- The session commits, so the error is not benign.
        have hm : Matched h' := hr.resolve_left fun hx => by
          rw [show x.persistState = false from hx.1] at hpersist
          exact absurd hpersist.2 Bool.false_ne_true
        exact ⟨hm, fun _ _ => matched_commit h'⟩
      · exact ⟨trivial, fun _ _ => matched_rollback h'⟩

theorem judging_transaction {p : M α} (hp : (judging op).wp p Fit h) :
    (judging op).wp (Prog.transaction p) (fun _ h' => Matched h') h := by
  refine Watch.wp_transaction (Watch.wp_mono (fun r h' hr => ?_) hp)
  cases r with
  | ok a => exact ⟨hr, matched_commit h'⟩
  | error x => exact ⟨trivial, matched_rollback h'⟩

/-- A guard in front of a part. -/
theorem judging_guard {p : M β} {f : β → M α} (hp : Calmly (fun _ => False) p) (hm : Matched h)
    (hf : ∀ b h', During h h' → Matched h' → (judging op).wp (f b) Fit h') :
    (judging op).wp (p >>= f) Fit h := by
  refine Watch.wp_bind (judging_reading hp hm fun r h' hd hm' => ?_)
  cases r with
  | ok b => exact hf b h' hd hm'
  | error x => exact .inr hm'

/-- A guard with the values that it lets through. -/
theorem judging_choice {V : β → Prop} {p : M β} {f : β → M α} (hp : Calmly (fun _ => False) p)
    (hv : p.Yields V) (hm : Matched h)
    (hf : ∀ b h', V b → During h h' → Matched h' → (judging op).wp (f b) Fit h') :
    (judging op).wp (p >>= f) Fit h := by
  have hread : (judging op).wp p (fun _ h' => During h h' ∧ Matched h') h :=
    judging_reading hp hm fun _ h' hd hm' => ⟨hd, hm'⟩
  refine Watch.wp_bind (Watch.wp_mono (fun r h' hr => ?_) (Watch.wp_yields hv hread))
  cases r with
  | ok b => exact hf b h' (hr.2 b rfl) hr.1.1 hr.1.2
  | error x => exact .inr hr.1.2

/-- A neutral part at the end. -/
theorem judging_rest {W : Write → Prop} {C : Call → Prop} {p : M α} (hp : Doing W C p)
    (hW : ∀ w, W w → Neutral w) (hm : Matched h) : (judging op).wp p Fit h := by
  refine judging_aside hp hW hm fun r h' hm' => ?_
  cases r with
  | ok a => exact hm'
  | error x => exact .inr hm'

/-! ## Decisions -/

/-- A row of another state rests on nothing. -/
theorem warranted_of_verdict {t : StateTransition}
    (ht : t.toState ∉ [IntentState.cancelled, .expired, .executing]) : Warranted op h t := by
  refine ⟨fun heq => ?_, fun heq => ?_, fun heq => ?_⟩
  · exact absurd (by rw [heq]; decide) ht
  · exact absurd (by rw [heq]; decide) ht
  · exact absurd (by rw [heq]; decide) ht

theorem warranted_expired {t : StateTransition} {a : ActionIntent} (ht : t.toState = .expired)
    (hl : LockedRow h t.key a) (hs : a.state ≠ .requested) (he : ElapsedAt a t.occurredAt) :
    Warranted op h t := by
  refine ⟨fun heq => ?_, fun _ => ⟨a, hl, hs, he⟩, fun heq => ?_⟩
  · rw [ht] at heq
    cases heq
  · rw [ht] at heq
    cases heq

theorem warranted_executing {t : StateTransition} {a : ActionIntent} (ht : t.toState = .executing)
    (hl : LockedRow h t.key a) (hs : a.state ≠ .requested) (ho : OpenAt a t.occurredAt) :
    Warranted op h t := by
  refine ⟨fun heq => ?_, fun heq => ?_, fun _ => ⟨a, hl, hs, ho⟩⟩
  · rw [ht] at heq
    cases heq
  · rw [ht] at heq
    cases heq

theorem Founded.during {d : ApprovalDecisionRow} {h' : List (Obs Db)} (hf : Founded op h d)
    (hd : During h h') : Founded op h' d := by
  obtain ⟨a, actor, hl, hrest⟩ := hf
  exact ⟨a, actor, hl.during hd, hrest⟩

/-- A verdict of its decision. -/
theorem matched_pronounced {h' : List (Obs Db)} {t : StateTransition} {d : ApprovalDecisionRow}
    (hm : Matched h) (ht : t.toState ∈ verdictStates) (hp : Pronounces t d)
    (hentered : entered h' = entered h ++ [t]) (hdecided : decided h' = decided h ++ [d]) :
    Matched h' := by
  have hlast : verdicts [t] = [t] := List.filter_cons_of_pos (by simpa using ht)
  unfold Matched
  rw [hentered, hdecided, verdicts, List.filter_append]
  refine List.rel_append hm ?_
  rw [show List.filter _ [t] = [t] from hlast]
  exact .cons hp .nil

/-- A transition row that is no verdict keeps a matched history. -/
theorem Appends.matched {h' : List (Obs Db)} {t : StateTransition} (happ : Appends h h' t)
    (ht : t.toState ∉ verdictStates) (hm : Matched h) : Matched h' := by
  have hsame : verdicts (entered h ++ [t]) = verdicts (entered h) := verdicts_append ht
  unfold Matched
  rw [happ.log, happ.decisions, hsame]
  exact hm

theorem verdict_of_resolved {command : ApprovalDecisionCommand} {state target : IntentState}
    {route : ApprovalRoute} {decisions : List ApprovalDecisionRow}
    (hr : Resolved command state route decisions target) :
    target ∈ verdictStates ∧ (target = .rejected ↔ command.decision = .reject) ∧
      (target = .approvedByLevel1 → command.level = 1) ∧ state ∈ expirableStates := by
  have happrove : command.decision = .approve → ¬ command.decision = .reject := by
    intro hd hreject
    rw [hd] at hreject
    cases hreject
  cases hr with
  | reject hd hlegal =>
      refine ⟨by decide, ⟨fun _ => hd, fun _ => rfl⟩, fun ht => (by cases ht), ?_⟩
      revert hlegal
      cases state <;> decide
  | single hd hs hl hne =>
      refine ⟨by decide, ⟨fun ht => (by cases ht), fun hx => absurd hx (happrove hd)⟩,
        fun ht => (by cases ht), ?_⟩
      rw [hs]
      decide
  | first hd hs hl hroute =>
      refine ⟨by decide, ⟨fun ht => (by cases ht), fun hx => absurd hx (happrove hd)⟩,
        fun _ => hl, ?_⟩
      rw [hs]
      decide
  | second hd hs hl hroute hne =>
      refine ⟨by decide, ⟨fun ht => (by cases ht), fun hx => absurd hx (happrove hd)⟩,
        fun ht => (by cases ht), ?_⟩
      rw [hs]
      decide

theorem judging_insertDecision {row : ApprovalDecisionRow}
    {Q : Except Error Unit → List (Obs Db) → Prop} (hf : Founded op h row)
    (herr : ∀ x h', Fatal x → Q (.error x) h')
    (hok : ∀ h', During h h' → entered h' = entered h → decided h' = decided h ++ [row] →
      Q (.ok ()) h') : (judging op).wp (insertDecision row) Q h := by
  refine Watch.wp_bind (Watch.wp_bind ⟨trivial, fun r _ => ?_⟩)
  have hd : During h (extend h .select r : List (Obs Db)) := (During.refl h).more _ rfl
  refine Watch.wp_bind (Watch.wp_raiseIf (fun _ => herr _ _ ⟨rfl, rfl⟩) fun _ => ?_)
  exact judging_flush (hf.during hd) herr (hok _ (hd.more _ rfl) rfl rfl)

/-- The rows of a decision. -/
theorem judging_writeDecision {command : ApprovalDecisionCommand} {a : ActionIntent}
    {policy : PolicyEvaluation} {roles scopes : List String} {target : IntentState} {dbNow : Time}
    (hkey : a.key = command.key) (hf : Founded op h (decisionRow command a policy roles scopes dbNow))
    (hres : Resolved command a.state policy.route [] target) (hm : Matched h) :
    (judging op).wp (writeDecision command a policy roles scopes target dbNow) Fit h := by
  obtain ⟨hverdict, hreject, hlevel, -⟩ := verdict_of_resolved hres
  have hrow : target ∉ [IntentState.cancelled, .expired, .executing] := by
    revert hverdict
    cases target <;> decide
  refine Watch.wp_bind (judging_insertDecision hf (fun _ _ hx => .inl hx) fun h₁ hd₁ he₁ hdec₁ => ?_)
  refine Watch.wp_bind (judging_appendTransition (fun _ _ _ => warranted_of_verdict hrow)
    (fun _ _ hx => .inl hx) fun sequence h₂ happ => ?_)
  have hm₂ : Matched h₂ := by
    have hpronounces : Pronounces (transitionRow a target
        ⟨"human", command.actor.actorId, command.commandId, "approval_" ++ command.decision.lowered⟩
        sequence dbNow) (decisionRow command a policy roles scopes dbNow) :=
      ⟨hkey, ⟨rfl, rfl⟩, rfl, hreject, hlevel⟩
    refine matched_pronounced hm hverdict hpronounces (happ.log.trans ?_) ?_
    · rw [he₁]
    · rw [happ.decisions, hdec₁]
  refine Watch.wp_ite (fun _ => ?_) fun _ => hm₂
  -- The second request of a critical approval is no verdict.
  have hrequest : IntentState.pendingApproval2 ∉ [IntentState.cancelled, .expired, .executing] := by
    decide
  have hsilent : IntentState.pendingApproval2 ∉ verdictStates := by decide
  refine Watch.wp_bind (judging_appendTransition (fun _ _ _ => warranted_of_verdict hrequest)
    (fun _ _ hx => .inl hx) fun sequence' h₃ happ' => ?_)
  exact happ'.matched hsilent hm₂

theorem judging_decideCurrent {command : ApprovalDecisionCommand} {a : ActionIntent} {dbNow : Time}
    (hop : personOf? op = some command.actor) (htenant : command.tenantId = command.actor.tenantId)
    (hkey : a.key = command.key) (hl : LockedRow h command.key a)
    (hopen : a.state ∈ expirableStates → OpenAt a dbNow) (hm : Matched h) : (judging op).wp (decideCurrent command a dbNow) Fit h := by
  refine judging_guard (calmly_query _) hm fun policies h₁ hd₁ hm₁ => ?_
  refine judging_guard (calmly_scalarOne _) hm₁ fun policy h₂ hd₂ hm₂ => ?_
  refine judging_guard (calmly_currentRoles _ _) hm₂ fun roles h₃ hd₃ hm₃ => ?_
  refine judging_guard (p := enforceRole _ _ _ _) (calmly_raiseIf _ _) hm₃ fun _ h₄ hd₄ hm₄ => ?_
  refine judging_guard (calmly_approverScopes _ _ _) hm₄ fun scopes h₅ hd₅ hm₅ => ?_
  refine judging_guard (calmly_raiseIf _ _) hm₅ fun _ h₆ hd₆ hm₆ => ?_
  refine judging_choice (calmly_resolveTarget _ _ _) (yields_resolved _ _ _) hm₆
    fun target h₇ hres hd₇ hm₇ => ?_
  have hd := (((((hd₁.trans hd₂).trans hd₃).trans hd₄).trans hd₅).trans hd₆).trans hd₇
  obtain ⟨-, -, -, hexpirable⟩ := verdict_of_resolved hres
  have hstate : a.state ≠ .requested := by
    intro heq
    rw [heq] at hexpirable
    exact absurd hexpirable (by decide)
  exact judging_writeDecision hkey ⟨a, command.actor, hl.during hd, hstate, hop, htenant.symm, rfl, rfl,
    hopen hexpirable⟩ hres hm₇

theorem judging_decide (command : ApprovalDecisionCommand)
    (hop : personOf? op = some command.actor) (hs : OnlyReserved h) (hm : Matched h) :
    (judging op).wp (Application.decide command) Fit h := by
  refine Watch.wp_bind ⟨trivial, fun _ _ => ?_⟩
  have hs₀ : OnlyReserved (extend h (.mark (.decide command) : Stmt Db) ()) := hs
  have hm₀ : Matched (extend h (.mark (.decide command) : Stmt Db) ()) := hm
  refine Watch.wp_bind (Watch.wp_raiseIf (fun _ => .inr hm₀) fun htenant => ?_)
  refine Watch.wp_bind (judging_loadLockedIntent hs₀ hm₀ (fun x h' hm' => .inr hm') ?_)
  intro a dbNow h₁ hs₁ hm₁ hl hkey
  refine judging_guard (calmly_raiseIf _ _) hm₁ fun _ h₂ hd₂ hm₂ => ?_
  refine judging_guard (calmly_raiseIf _ _) hm₂ fun _ h₃ hd₃ hm₃ => ?_
  have hl₃ := hl.during (hd₂.trans hd₃)
  refine Watch.wp_ite (fun hexpired => ?_) fun hcurrent => ?_
  · have hstate : a.state ≠ .requested := by
      intro heq
      rw [heq] at hexpired
      exact absurd hexpired.1 (by decide)
    refine Watch.wp_bind (judging_appendTransition (fun sequence h₄ hd₄ => ?_)
      (fun _ _ hx => .inl hx) fun sequence h₄ happ => ?_)
    · refine warranted_expired rfl ?_ hstate (elapsedAt_of_windowElapsed hexpired.2)
      rw [← hkey] at hl₃
      exact hl₃.during hd₄
    · have hsilent : IntentState.expired ∉ verdictStates := by decide
      exact .inr (happ.matched hsilent hm₃)
  · exact judging_decideCurrent hop (not_not.1 htenant) hkey hl₃
      (fun hexpirable => openAt_of_windowElapsed fun hw => hcurrent ⟨hexpirable, hw⟩) hm₃

/-! ## Cancellations -/

theorem judging_enforceCanceller {Q : Except Error Unit → List (Obs Db) → Prop}
    (command : CancelIntentCommand) (a : ActionIntent) (hu : Unchanged h) (hm : Matched h)
    (herr : ∀ x h', Matched h' → Q (.error x) h')
    (hok : ∀ h', During h h' → Matched h' →
      command.actor.actorId = a.requesterId ∨ Commissioned h' command.actor → Q (.ok ()) h') :
    (judging op).wp (enforceCanceller command a) Q h := by
  refine Watch.wp_ite (fun _ => ?_) fun hown => hok h (.refl h) hm (.inl (not_not.1 hown))
  refine Watch.wp_bind (Watch.wp_bind ⟨trivial, fun read _ => ⟨trivial, fun now _ => ?_⟩⟩)
  obtain ⟨σ, t⟩ := read
  have hd : During h (.did (.draw .now) now :: .did .select (σ, t) :: h : List (Obs Db)) :=
    ((During.refl h).more _ rfl).more _ rfl
  refine Watch.wp_raiseIf (fun _ => herr _ _ hm) fun hrole => hok _ hd hm (.inr ?_)
  have hshown := shown_of_select hu σ t
  refine ⟨σ, ?_, now, List.mem_cons_self, not_not.1 hrole⟩
  exact mem_shown_of_suffix (List.suffix_cons (.did (.draw .now) now : Obs Db) _) hshown

theorem judging_cancel (command : CancelIntentCommand) (hop : personOf? op = some command.actor)
    (hs : OnlyReserved h) (hm : Matched h) : (judging op).wp (cancel command) Fit h := by
  refine Watch.wp_bind ⟨trivial, fun _ _ => ?_⟩
  have hs₀ : OnlyReserved (extend h (.mark (.cancel command) : Stmt Db) ()) := hs
  have hm₀ : Matched (extend h (.mark (.cancel command) : Stmt Db) ()) := hm
  refine Watch.wp_bind (Watch.wp_raiseIf (fun _ => .inr hm₀) fun htenant => ?_)
  refine Watch.wp_bind (judging_loadLockedIntent hs₀ hm₀ (fun x h' hm' => .inr hm') ?_)
  intro a dbNow h₁ hs₁ hm₁ hl hkey
  refine Watch.wp_bind (Watch.wp_raiseIf (fun _ => .inr hm₁) fun _ => ?_)
  refine Watch.wp_bind (Watch.wp_raiseIf (fun _ => .inr hm₁) fun _ => ?_)
  refine Watch.wp_bind (judging_enforceCanceller command a hs₁.unchanged hm₁
    (fun _ _ hm' => .inr hm') fun h₂ hd₂ hm₂ hmay => ?_)
  have htenant' : command.actor.tenantId = command.tenantId := (not_not.1 htenant).symm
  refine Watch.wp_bind (judging_appendTransition (fun sequence h₃ hd₃ => ?_)
    (fun _ _ hx => .inl hx) fun sequence h₃ happ => ?_)
  · refine ⟨fun _ => ⟨rfl, a, command.actor, ?_, hop, ?_, rfl, ?_⟩, fun ht => (by cases ht),
      fun ht => (by cases ht)⟩
    · rw [← hkey] at hl
      exact hl.during (hd₂.trans hd₃)
    · show command.actor.tenantId = a.key.tenantId
      rw [hkey]
      exact htenant'
    · exact hmay.imp_right fun hc => hc.suffix hd₃.suffix
  · have hsilent : IntentState.cancelled ∉ verdictStates := by decide
    exact happ.matched hsilent hm₂

end Sessions

end HitlOps.Lifecycle
