import Mathlib.Tactic.Set
import HitlOps.Lifecycle.Contract

/-!
# Rules of the lifecycle contract

Weakest preconditions of the steps that the operations share: programs that only read, the queries,
the row lock of an intent, flushed rows, and `appendTransition`. Each rule gives the continuation
an assertion about the new knowledge (`Reads`, `Free`, `Txn`), so that a proof about an operation
never opens the statements again.

Errors are passed on by `Benign`: an error without `persist_state` makes every caller roll back.
-/

set_option autoImplicit false

namespace HitlOps.Lifecycle

open HitlOps.Python HitlOps.Domain HitlOps.Infrastructure HitlOps.Application HitlOps.Adapters
open HitlOps.Transaction

/-- The callers roll back on this error. -/
abbrev Benign (x : Error) : Prop := x.persistState = false

section Rules

variable {rt : Runtime} {P : PolicyEvaluation → Prop} {α β : Type} {τ : Know}

variable (rt P) in
/-- The weakest precondition under the lifecycle contract. -/
abbrev lwp (p : M α) (Q : Except Error α → Know → Prop) (τ : Know) : Prop :=
  (contract rt P).wp p Q τ

/-- Every benign error meets the postcondition. -/
def Safe (Q : Except Error α → Know → Prop) : Prop := ∀ x τ', Benign x → Q (.error x) τ'

/-! ## Programs that only read -/

/-- A statement that writes nothing of a revision and keeps the duty of the process. -/
def Aside : Stmt Db → Prop
  | .select => True
  | .lock k _ => lockedRevision? k = none
  | .insert k w => lockedRevision? k = none ∧ target? w = none
  | .write w => target? w = none
  | .draw _ => True
  | .call c => ∀ tool command, c ≠ .execute tool command
  | .commit => False
  | .rollback => False
  | .mark _ => False

theorem wrote_of_target {w : Write} (hw : target? w = none) (g : Ghost) : g.wrote w = g := by
  cases w with
  | insertTransition row => cases hw
  | insertDecision row => cases hw
  | _ => rfl

theorem drawn_reads (g : Ghost) (o : Source) (v : Draw o) :
    (g.drawn o v).reads = g.reads ∧ (g.drawn o v).duty = g.duty ∧
      (g.drawn o v).entered = g.entered ∧ (g.drawn o v).decided = g.decided ∧
      ∀ t, t ∈ g.clocks → t ∈ (g.drawn o v).clocks := by
  cases o with
  | now => exact ⟨rfl, rfl, rfl, rfl, fun t ht => List.mem_cons_of_mem _ ht⟩
  | uuid => exact ⟨rfl, rfl, rfl, rfl, fun t ht => ht⟩
  | order => exact ⟨rfl, rfl, rfl, rfl, fun t ht => ht⟩

theorem sent_of_aside {c : Call} (hc : ∀ tool command, c ≠ .execute tool command) (g : Ghost) :
    g.sent c = g := by
  cases c with
  | execute tool command => exact absurd rfl (hc tool command)
  | _ => rfl

theorem reads_of_ghost_eq {τ τ' : Know} (hseen : ∀ i r, τ.seen i r → τ'.seen i r)
    (hbegun : ∀ b, τ.begun = some b → τ'.begun = some b) (hheld : τ'.held = τ.held)
    (hghost : τ'.ghost = τ.ghost) : Reads τ τ' where
  seen := hseen
  reads := fun σ hσ => by rw [hghost]; exact hσ
  clocks := fun t ht => by rw [hghost]; exact ht
  begun := hbegun
  held := hheld
  duty := congrArg Ghost.duty hghost
  entered := congrArg Ghost.entered hghost
  decided := congrArg Ghost.decided hghost

/-- An aside statement is a step of `Reads`. -/
theorem aside_pre (st : Stmt Db) (hst : Aside st) (τ : Know) (K : st.Resp → Know → Prop)
    (hK : ∀ r τ', Reads τ τ' → K r τ') : (contract rt P).pre st τ K := by
  have hbegun : ∀ b, τ.Starts b → ∀ b', τ.begun = some b' → some b = some b' :=
    fun b hb b' hb' => congrArg some (hb b' hb').symm
  cases st with
  | select =>
      refine fun b s hb hv => hK _ _ ?_
      exact ⟨⟨fun i r h => Or.inl h, fun σ h => List.mem_cons_of_mem _ h, fun t h => h⟩,
        hbegun b hb, rfl, rfl, rfl, rfl⟩
  | lock k nowait =>
      have hk : lockedRevision? k = none := hst
      refine ⟨fun _ b hb => hK _ _ ?_, fun b s hb hv => ?_⟩
      · exact ⟨⟨fun i r h => h, fun σ h => h, fun t h => h⟩, hbegun b hb, rfl, rfl, rfl, rfl⟩
      · simp only [hk]
        refine hK _ _ ?_
        exact ⟨⟨fun i r h => Or.inl h, fun σ h => List.mem_cons_of_mem _ h, fun t h => h⟩,
          hbegun b hb, rfl, rfl, rfl, rfl⟩
  | insert k w =>
      obtain ⟨hk, hw⟩ := hst
      simp only [Contract.pre, hk]
      refine ⟨hw, fun b r hb => hK _ _ ?_⟩
      exact ⟨⟨fun i r h => h, fun σ h => h, fun t h => h⟩, hbegun b hb, rfl, rfl, rfl, rfl⟩
  | write w =>
      have hw : target? w = none := hst
      simp only [Contract.pre, hw]
      refine fun b hb => hK _ _ ?_
      exact reads_of_ghost_eq (fun i r h => h) (hbegun b hb) rfl (wrote_of_target hw τ.ghost)
  | commit => exact hst.elim
  | rollback => exact hst.elim
  | draw o =>
      refine fun a => hK _ _ ?_
      obtain ⟨hr, hd, he, hds, hc⟩ := drawn_reads τ.ghost o a
      exact ⟨⟨fun i r h => h, fun σ h => hr ▸ h, hc⟩, fun b h => h, rfl, hd, he, hds⟩
  | call c =>
      have hc : ∀ tool command, c ≠ .execute tool command := hst
      refine ⟨?_, fun a => hK _ _ ?_⟩
      · cases c with
        | execute tool command => exact absurd rfl (hc tool command)
        | _ => exact trivial
      · exact reads_of_ghost_eq (fun i r h => h) (fun b h => h) rfl (sent_of_aside hc τ.ghost)
  | mark m => exact hst.elim

/-- The rule of a program that only reads. -/
theorem lwp_aside {p : M α} {H : Error → Prop} (hp : p.Uses Aside H)
    {Q : Except Error α → Know → Prop}
    (hQ : ∀ r τ', Reads τ τ' → (∀ x, r = .error x → H x) → Q r τ') : lwp rt P p Q τ :=
  Contract.wp_uses Reads Reads.refl Reads.trans aside_pre hp hQ

/-! ## Queries -/

theorem lwp_select {Q : Except Error (Store × Instant) → Know → Prop}
    (h : ∀ b σ τ', Reads τ τ' → τ'.begun = some b → σ ∈ τ'.ghost.reads → (rely P).View τ σ →
      Q (.ok (σ, b.2)) τ') : lwp rt P (Prog.select (D := Db)) Q τ := by
  refine (Contract.wp_select (C := contract rt P) Q).2 fun b σ hb hv => ?_
  refine h b σ _ ?_ rfl List.mem_cons_self hv
  exact ⟨⟨fun i r hr => Or.inl hr, fun σ hσ => List.mem_cons_of_mem _ hσ, fun t ht => ht⟩,
    fun b' hb' => congrArg some (hb b' hb').symm, rfl, rfl, rfl, rfl⟩

theorem lwp_query {q : Store → α} {Q : Except Error α → Know → Prop}
    (h : ∀ σ τ', Reads τ τ' → σ ∈ τ'.ghost.reads → (rely P).View τ σ → Q (.ok (q σ)) τ') :
    lwp rt P (Prog.query (D := Db) q) Q τ := by
  unfold Prog.query
  rw [lwp, Contract.wp_bind]
  exact lwp_select fun b σ τ' hr _ hσ hv => h σ τ' hr hσ hv

theorem lwp_now {Q : Except Error Time → Know → Prop}
    (h : ∀ t τ', Reads τ τ' → t ∈ τ'.ghost.clocks → Q (.ok t) τ') :
    lwp rt P (Prog.draw (D := Db) .now) Q τ := by
  refine fun t => h t _ ?_ List.mem_cons_self
  exact ⟨⟨fun i r hr => hr, fun σ hσ => hσ, fun t ht => List.mem_cons_of_mem _ ht⟩,
    fun b hb => hb, rfl, rfl, rfl, rfl⟩

theorem lwp_uuid {Q : Except Error UUID → Know → Prop} (h : ∀ id τ', Reads τ τ' → Q (.ok id) τ') :
    lwp rt P (Prog.draw (D := Db) .uuid) Q τ :=
  fun id => h id _ ⟨⟨fun _ _ hr => hr, fun _ hσ => hσ, fun _ ht => ht⟩, fun _ hb => hb, rfl, rfl,
    rfl, rfl⟩

theorem lwp_scan {q : Store → List α} {Q : Except Error (List α) → Know → Prop}
    (h : ∀ σ rows τ', Reads τ τ' → σ ∈ τ'.ghost.reads → (rely P).View τ σ → rows.Perm (q σ) →
      Q (.ok rows) τ') : lwp rt P (scan q) Q τ := by
  unfold scan
  rw [lwp, Contract.wp_bind]
  refine lwp_query fun σ τ₁ hr hσ hv => ?_
  rw [Contract.andThen_ok, Contract.wp_bind]
  intro rank
  have hd : Reads τ₁ ((contract rt P).noted τ₁ (.did (.draw .order) rank)) :=
    ⟨⟨fun _ _ hr => hr, fun _ hσ => hσ, fun _ ht => ht⟩, fun _ hb => hb, rfl, rfl, rfl, rfl⟩
  exact h σ _ _ (hr.trans hd) hσ hv (arrange_perm rank (q σ))

/-- The roles of an actor, from one reading of the assignments and of the clock. -/
theorem lwp_currentRoles {actor : AuthenticatedActor} {environment : Option Json}
    {Q : Except Error (List String) → Know → Prop}
    (h : ∀ σ now τ', Reads τ τ' → σ ∈ τ'.ghost.reads → now ∈ τ'.ghost.clocks →
      Q (.ok (evaluateCurrentRoles (σ.loadAssignments actor.tenantId actor.actorId) now
        environment)) τ') : lwp rt P (currentRoles actor environment) Q τ := by
  unfold currentRoles loadAssignments
  rw [lwp, Contract.wp_bind]
  refine lwp_query fun σ τ₁ hr hσ _ => ?_
  rw [Contract.andThen_ok, Contract.wp_bind]
  refine lwp_now fun now τ₂ hr' hnow => ?_
  exact h σ now τ₂ (hr.trans hr') (hr'.reads σ hσ) hnow

theorem lwp_currentScopes {actor : AuthenticatedActor} {environment : Option Json}
    {Q : Except Error (List String) → Know → Prop}
    (h : ∀ σ now τ', Reads τ τ' → σ ∈ τ'.ghost.reads → now ∈ τ'.ghost.clocks →
      Q (.ok (evaluateCurrentScopes (σ.loadAssignments actor.tenantId actor.actorId) now
        environment)) τ') : lwp rt P (currentScopes actor environment) Q τ := by
  unfold currentScopes loadAssignments
  rw [lwp, Contract.wp_bind]
  refine lwp_query fun σ τ₁ hr hσ _ => ?_
  rw [Contract.andThen_ok, Contract.wp_bind]
  refine lwp_now fun now τ₂ hr' hnow => ?_
  exact h σ now τ₂ (hr.trans hr') (hr'.reads σ hσ) hnow

theorem lwp_scalarOne {rows : List α} {Q : Except Error α → Know → Prop} (hQ : Safe Q)
    (h : ∀ a, rows = [a] → Q (.ok a) τ) : lwp rt P (scalarOne rows) Q τ := by
  match rows with
  | [] => exact hQ _ _ rfl
  | [a] => exact h a rfl
  | _ :: _ :: _ => exact hQ _ _ rfl

theorem lwp_scalarOneOrNone {rows : List α} {Q : Except Error (Option α) → Know → Prop}
    (hQ : Safe Q) (hnone : rows = [] → Q (.ok none) τ) (h : ∀ a, rows = [a] → Q (.ok (some a)) τ) :
    lwp rt P (scalarOneOrNone rows) Q τ := by
  match rows with
  | [] => exact hnone rfl
  | [a] => exact h a rfl
  | _ :: _ :: _ => exact hQ _ _ rfl

theorem lwp_raiseIf {c : Prop} [Decidable c] {x : Error} {Q : Except Error Unit → Know → Prop}
    (hx : Benign x) (hQ : Safe Q) (h : ¬ c → Q (.ok ()) τ) : lwp rt P (Prog.raiseIf c x) Q τ := by
  rw [lwp, Contract.wp_raiseIf]
  split
  · exact hQ x τ hx
  · next hc => exact h hc

theorem lwp_orRaise {x : Error} {o : Option α} {Q : Except Error α → Know → Prop}
    (hx : Benign x) (hQ : Safe Q) (h : ∀ a, o = some a → Q (.ok a) τ) :
    lwp rt P (Prog.orRaise x o) Q τ :=
  Contract.wp_orRaise x o (fun _ => hQ x τ hx) h

/-! ## Row locks -/

theorem present_intent {σ : Store} {k : RevisionKey} {a : ActionIntent}
    (h : σ.intent? k = some a) : Db.present σ (.intent k) = true := by
  show (σ.intent? k).isSome = true
  rw [h]
  rfl

theorem absent_intent {σ : Store} {k : RevisionKey} (h : σ.intent? k = none) :
    Db.present σ (.intent k) = false := by
  show (σ.intent? k).isSome = false
  rw [h]
  rfl

/-- What a granted row lock tells: the row as committed, and the start of the transaction. -/
structure Locked (P : PolicyEvaluation → Prop) (τ τ' : Know) (duty : Duty) (k : RevisionKey)
    (σ : Store) (b : Store × Instant) (a : ActionIntent) : Prop where
  txn : Txn τ' b duty k (revision σ k) (revision σ k) [] []
  grows : Grows τ τ'
  read : σ ∈ τ'.ghost.reads
  valid : Valid P k a (revision σ k)
  later : ∀ r, τ.seen k r → Later r (revision σ k)
  start : ∀ b', τ.begun = some b' → b' = b

theorem lwp_lock {duty : Duty} {k : RevisionKey} {nowait : Bool} (hF : Free τ duty)
    {Q : Except Error (Option (Store × Instant)) → Know → Prop}
    (hbusy : nowait = true → ∀ τ', Free τ' duty → Grows τ τ' → Q (.ok none) τ')
    (hmiss : ∀ σ t τ', σ.intent? k = none → Free τ' duty → Grows τ τ' → Q (.ok (some (σ, t))) τ')
    (hlock : ∀ σ b a τ', σ.intent? k = some a → Locked P τ τ' duty k σ b a →
      Q (.ok (some (σ, b.2))) τ') :
    lwp rt P (Prog.lock (D := Db) (.intent k) nowait) Q τ := by
  refine Contract.wp_lock_free (i := k) rfl hF.held (fun hn b hb => ?_) fun b σ hb hfit => ?_
  · refine hbusy hn _ ⟨rfl, hF.duty, hF.entered, hF.decided⟩ ?_
    exact ⟨fun _ _ h => h, fun _ h => h, fun _ h => h⟩
  · have hgrows : ∀ held, Grows τ ⟨some b, held, τ.learn σ,
        (contract rt P).observe τ.ghost (.did (.lock (.intent k) nowait) (some (σ, b.2)))⟩ :=
      fun held => ⟨fun i r h => Or.inl h, fun s h => List.mem_cons_of_mem _ h, fun t h => h⟩
    cases hi : σ.intent? k with
    | none =>
        rw [absent_intent hi, if_neg Bool.false_ne_true]
        exact hmiss σ b.2 _ hi ⟨rfl, hF.duty, hF.entered, hF.decided⟩ (hgrows none)
    | some a =>
        rw [present_intent hi, if_pos rfl]
        refine hlock σ b a _ hi ?_
        exact
          { txn := ⟨rfl, rfl, hF.duty, hF.entered, hF.decided⟩
            grows := hgrows _
            read := List.mem_cons_self
            valid := WellFormed.valid (hfit k).1 hi
            later := (hfit k).2
            start := hb }

theorem lwp_lockIntentNowait {duty : Duty} {k : RevisionKey} (hF : Free τ duty)
    {Q : Except Error (Option (Option ActionIntent × Time)) → Know → Prop}
    (hbusy : ∀ τ', Free τ' duty → Grows τ τ' → Q (.ok none) τ')
    (hmiss : ∀ t τ', Free τ' duty → Grows τ τ' → Q (.ok (some (none, t))) τ')
    (hlock : ∀ σ b a τ', Locked P τ τ' duty k σ b a → Q (.ok (some (some a, b.2))) τ') :
    lwp rt P (lockIntentNowait k) Q τ := by
  unfold lockIntentNowait
  rw [lwp, Contract.wp_bind]
  refine lwp_lock hF (fun _ => hbusy) (fun σ t τ' hi hF' hg => ?_) fun σ b a τ' hi hl => ?_
  · show Q (.ok (some (σ.intent? k, t))) τ'
    rw [hi]
    exact hmiss t τ' hF' hg
  · show Q (.ok (some (σ.intent? k, b.2))) τ'
    rw [hi]
    exact hlock σ b a τ' hl

theorem lwp_lockIntent {duty : Duty} {k : RevisionKey} (hF : Free τ duty)
    {Q : Except Error ActionIntent → Know → Prop} (hQ : Safe Q)
    (hlock : ∀ σ b a τ', Locked P τ τ' duty k σ b a → Q (.ok a) τ') :
    lwp rt P (lockIntent k) Q τ := by
  unfold lockIntent
  rw [lwp, Contract.wp_bind]
  refine lwp_lock hF (fun h => by cases h) (fun σ t τ' hi _ _ => ?_) fun σ b a τ' hi hl => ?_
  · rw [Contract.andThen_ok]
    show (contract rt P).wp (Prog.orRaise _ (σ.intent? k)) Q τ'
    rw [hi]
    exact hQ _ _ rfl
  · rw [Contract.andThen_ok]
    show (contract rt P).wp (Prog.orRaise _ (σ.intent? k)) Q τ'
    rw [hi]
    exact hlock σ b a τ' hl

/-! ## Flushed rows -/

theorem lwp_flush_aside {w : Write} (hw : target? w = none) {Q : Except Error Unit → Know → Prop}
    (hQ : Safe Q) (h : ∀ τ', w.admissible = true → Reads τ τ' → Q (.ok ()) τ') :
    lwp rt P (flush w) Q τ := by
  unfold flush
  rw [lwp, Contract.wp_bind]
  refine lwp_raiseIf rfl hQ fun hadm => ?_
  refine lwp_aside (H := fun _ => False) (Prog.uses_write hw) fun r τ' hr hx => ?_
  have hadm' : w.admissible = true := by
    rwa [Bool.not_eq_false] at hadm
  cases r with
  | ok _ => exact h τ' hadm' hr
  | error x => exact (hx x rfl).elim

/-- The transition rows of a write. -/
def enteredBy : Write → List StateTransition
  | .insertTransition row => [row]
  | _ => []

/-- The decision rows of a write. -/
def decidedBy : Write → List ApprovalDecisionRow
  | .insertDecision row => [row]
  | _ => []

theorem wrote_eq (g : Ghost) (w : Write) :
    (g.wrote w).entered = g.entered ++ enteredBy w ∧
      (g.wrote w).decided = g.decided ++ decidedBy w ∧ (g.wrote w).duty = g.duty ∧
      (g.wrote w).reads = g.reads ∧ (g.wrote w).clocks = g.clocks := by
  cases w with
  | insertTransition row => exact ⟨rfl, (List.append_nil _).symm, rfl, rfl, rfl⟩
  | insertDecision row => exact ⟨(List.append_nil _).symm, rfl, rfl, rfl, rfl⟩
  | _ => exact ⟨(List.append_nil _).symm, (List.append_nil _).symm, rfl, rfl, rfl⟩

variable {b : Store × Instant} {duty : Duty} {k : RevisionKey} {base cur : Revision}
  {es : List StateTransition} {ds : List ApprovalDecisionRow}

/-- A write to the locked revision. -/
theorem lwp_write {w : Write} (hw : target? w = some k) (hT : Txn τ b duty k base cur es ds)
    {Q : Except Error Unit → Know → Prop}
    (h : ∀ n τ', (∀ m ∈ cur.messages, m.sequence < n) →
      Txn τ' b duty k base (cur.put n w) (es ++ enteredBy w) (ds ++ decidedBy w) → Grows τ τ' →
      Q (.ok ()) τ') : lwp rt P (Prog.write (D := Db) w) Q τ := by
  refine Contract.wp_write_held hw hT.held fun b' n hb hn => ?_
  obtain ⟨he, hd, hduty, hr, hc⟩ := wrote_eq τ.ghost w
  have hbb : b = b' := hb b hT.begun
  refine h n _ hn ⟨by rw [hbb], rfl, hduty.trans hT.duty, ?_, ?_⟩
    ⟨fun i r hr => hr, fun σ hσ => ?_, fun t ht => ?_⟩
  · rw [← hT.entered]
    exact he
  · rw [← hT.decided]
    exact hd
  · show σ ∈ (τ.ghost.wrote w).reads
    rw [hr]
    exact hσ
  · show t ∈ (τ.ghost.wrote w).clocks
    rw [hc]
    exact ht

theorem lwp_flush {w : Write} (hw : target? w = some k) (hT : Txn τ b duty k base cur es ds)
    {Q : Except Error Unit → Know → Prop} (hQ : Safe Q)
    (h : ∀ n τ', (∀ m ∈ cur.messages, m.sequence < n) →
      Txn τ' b duty k base (cur.put n w) (es ++ enteredBy w) (ds ++ decidedBy w) → Grows τ τ' →
      Q (.ok ()) τ') : lwp rt P (flush w) Q τ := by
  unfold flush
  rw [lwp, Contract.wp_bind]
  exact lwp_raiseIf rfl hQ fun _ => lwp_write hw hT h

/-! ## Transitions -/

/-- The common step of the five `_record_transition` functions. -/
theorem lwp_appendTransition {a : ActionIntent} {target : IntentState} {cause : Cause}
    {dbNow : Time} {topic : String} {payload : Dict} (hT : Txn τ b duty k base cur es ds)
    (hcore : Core k a cur)
    (hm : ∀ n, Announces k (transitionRow a target cause (cur.log.length + 1) dbNow)
      ⟨n, topic, payload⟩)
    {Q : Except Error ActionIntent → Know → Prop} (hQ : Safe Q)
    (h : ∀ n τ', isLegal a.state target = true → (∀ m ∈ cur.messages, m.sequence < n) →
      Core k (moved a target)
        (cur.move a target (transitionRow a target cause (cur.log.length + 1) dbNow)
          ⟨n, topic, payload⟩) →
      Txn τ' b duty k base
        (cur.move a target (transitionRow a target cause (cur.log.length + 1) dbNow)
          ⟨n, topic, payload⟩)
        (es ++ [transitionRow a target cause (cur.log.length + 1) dbNow]) ds →
      Grows τ τ' → Q (.ok (moved a target)) τ') :
    lwp rt P (appendTransition a target cause dbNow topic payload) Q τ := by
  unfold appendTransition requireTransition
  rw [lwp, Contract.wp_bind]
  refine lwp_raiseIf rfl hQ fun hlegal => ?_
  rw [Bool.not_eq_false] at hlegal
  rw [Contract.andThen_ok, Contract.wp_bind]
  refine lwp_query fun σ τ₁ hr hσ hv => ?_
  -- The log that the query sees is the log under the pending writes.
  have hrow : revision σ k = cur := hv.1 k base cur hT.held
  have hmax : σ.maxSequence a.key = cur.log.length := by
    rw [hcore.key, ← hcore.chain.maxSequence, ← hrow]
    rfl
  rw [Contract.andThen_ok, hmax, Contract.wp_bind]
  set t := transitionRow a target cause (cur.log.length + 1) dbNow with hdef
  have htkey : t.key = k := hcore.key
  have ht : announced? topic payload = some k := (hm 0).names.announced (hm 0).topic
  refine lwp_flush (w := .insertTransition t) (congrArg some htkey) (hT.reads hr) hQ
    fun n₁ τ₂ hn₁ hT₂ hg₂ => ?_
  rw [Contract.andThen_ok, Contract.wp_bind]
  refine lwp_flush (w := .insertOutbox topic payload) ht hT₂ hQ fun n₂ τ₃ hn₂ hT₃ hg₃ => ?_
  rw [Contract.andThen_ok, Contract.wp_bind]
  refine lwp_flush (w := .updateIntent a.key ⟨target, a.stateVersion + 1, none⟩)
    (congrArg some hcore.key) hT₃ hQ fun n₃ τ₄ hn₃ hT₄ hg₄ => ?_
  refine h n₂ τ₄ hlegal hn₂ (hcore.move hlegal rfl rfl rfl (hm n₂) hn₂) ?_ ((hr.toGrows.trans hg₂).trans (hg₃.trans hg₄))
  have hcur : ((cur.put n₁ (.insertTransition t)).put n₂ (.insertOutbox topic payload)).put n₃
      (.updateIntent a.key ⟨target, a.stateVersion + 1, none⟩) =
      cur.move a target t ⟨n₂, topic, payload⟩ := by
    simp only [Revision.put, Revision.move, hcore.intent, Option.map_some]
    rfl
  simp only [enteredBy, decidedBy, List.append_nil] at hT₄
  rw [hcur] at hT₄
  exact hT₄

/-- The message of a move announces its row. -/
theorem announces_transitionRow {a : ActionIntent} {target : IntentState} {cause : Cause}
    {sequence n : Nat} {dbNow : Time} {topic : String} {payload : Dict}
    (htopic : topic ∈ lifecycleTopics) (hcreated : topic ≠ "intent.created")
    (hnames : Names k payload) (hto : payload.get? "to_state" = some (.str target.value)) :
    Announces k (transitionRow a target cause sequence dbNow) ⟨n, topic, payload⟩ where
  names := hnames
  topic := htopic
  created := ⟨fun h => absurd h hcreated, fun h => by cases h⟩
  target := fun _ => hto

/-! ## Commits -/

/-- The row `cur` of the intent `a` continues `base` by `es` and `ds`. -/
structure Continued (base cur : Revision) (a : ActionIntent) (es : List StateTransition)
    (ds : List ApprovalDecisionRow) : Prop where
  log : cur.log = base.log ++ es
  decisions : cur.decisions = base.decisions ++ ds
  identity : ∀ a₀, base.intent = some a₀ → SameIdentity a₀ a

/-- The duties of a commit on a locked revision. -/
structure Entitled (rt : Runtime) (τ : Know) (dbNow : Time) (duty : Duty) (k : RevisionKey)
    (base : Revision) (es : List StateTransition) (ds : List ApprovalDecisionRow) : Prop where
  command : ∀ c, duty.command = some c → c.key = k ∧ es ≠ [] ∧
    ∃ a, base.intent = some a ∧ a.stateVersion = c.expectedStateVersion
  owned : ∀ a, base.intent = some a → a.state = .revalidating → es ≠ [] →
    duty.claimed = some k
  permit : ∀ p, duty.permit = some p → p.key = k ∧ ∃ t ∈ es, t.toState = .executing
  executing : (∃ t ∈ es, t.toState = .executing) → Authorized rt τ.ghost dbNow k base
  decided : ∀ d ∈ ds, ∃ c a, duty.command = some (.decide c) ∧ base.intent = some a ∧
    Truthful τ.ghost dbNow c a d

/-- A transaction that keeps the invariant and its duties may commit. -/
theorem Txn.commitOk {a : ActionIntent} (hT : Txn τ b duty k base cur es ds)
    (hvalid : Valid P k a cur) (hcont : Continued base cur a es ds)
    (hduty : Entitled rt τ b.2 duty k base es ds) : (contract rt P).CommitOk τ := by
  constructor
  · intro i base' cur' hh
    rw [hT.held] at hh
    cases hh
    refine ⟨hvalid.wellFormed, fun a₀ ha₀ => ⟨a, hvalid.core.intent, hcont.identity a₀ ha₀⟩, ?_⟩
    rw [hcont.log]
    exact List.prefix_append _ _
  · simp only [hT.held]
    refine ⟨b, hT.begun, ?_⟩
    exact
      { log := by rw [hT.entered]; exact hcont.log
        decisions := by rw [hT.decided]; exact hcont.decisions
        command := by rw [hT.duty, hT.entered]; exact hduty.command
        owned := by rw [hT.duty, hT.entered]; exact hduty.owned
        permit := by rw [hT.duty, hT.entered]; exact hduty.permit
        executing := by rw [hT.entered]; exact hduty.executing
        decided := by rw [hT.decided, hT.duty]; exact hduty.decided }

/-- A locked revision without writes may be committed. -/
theorem Locked.commitOk {σ : Store} {a : ActionIntent} {τ' : Know}
    (h : Locked P τ τ' duty k σ b a) (hd : duty.Idle) : (contract rt P).CommitOk τ' := by
  refine h.txn.commitOk h.valid ⟨(List.append_nil _).symm, (List.append_nil _).symm, ?_⟩ ?_
  · intro a₀ ha₀
    rw [h.valid.core.intent] at ha₀
    cases ha₀
    exact .refl a
  · exact
      { command := fun c hc => by rw [hd.command] at hc; cases hc
        owned := fun _ _ _ hne => absurd rfl hne
        permit := fun p hp => by rw [hd.permit] at hp; cases hp
        executing := fun ⟨_, ht, _⟩ => by cases ht
        decided := fun _ hd => by cases hd }

/-- The commit of one plain move of a locked revision. -/
theorem Txn.commitOk_move {a : ActionIntent} {target : IntentState} {cause : Cause} {seq : Nat}
    {dbNow : Time} {m : OutboxMessage}
    (hT : Txn τ b duty k base (base.move a target (transitionRow a target cause seq dbNow) m)
      [transitionRow a target cause seq dbNow] [])
    (hvalid : Valid P k a base) (hplain : target ∈ plainTargets)
    (hlegal : isLegal a.state target = true) (hseq : seq = base.log.length + 1)
    (hm : Announces k (transitionRow a target cause seq dbNow) m)
    (hn : ∀ m' ∈ base.messages, m'.sequence < m.sequence)
    (hcommand : ∀ c, duty.command = some c → c.key = k ∧ a.stateVersion = c.expectedStateVersion)
    (howned : a.state = .revalidating → duty.claimed = some k)
    (hpermit : ∀ p, duty.permit = some p → p.key = k ∧ target = .executing)
    (hexec : target = .executing → Authorized rt τ.ghost b.2 k base) :
    (contract rt P).CommitOk τ := by
  have hcore := hvalid.core.move hlegal rfl rfl hseq hm hn
  have hev := hvalid.evidence.move (t := transitionRow a target cause seq dbNow) (m := m) hplain
    hlegal rfl
  refine hT.commitOk ⟨hcore, hev⟩ ⟨rfl, (List.append_nil _).symm, fun a₀ ha₀ => ?_⟩ ?_
  · rw [hvalid.core.intent] at ha₀
    cases ha₀
    exact sameIdentity_moved a target
  · refine
      { command := fun c hc => ?_
        owned := fun a₀ ha₀ hs _ => ?_
        permit := fun p hp => ?_
        executing := ?_
        decided := fun _ hd => by cases hd }
    · obtain ⟨hk, hver⟩ := hcommand c hc
      exact ⟨hk, List.cons_ne_nil _ _, a, hvalid.core.intent, hver⟩
    · rw [hvalid.core.intent] at ha₀
      cases ha₀
      exact howned hs
    · obtain ⟨hk, htarget⟩ := hpermit p hp
      exact ⟨hk, _, List.mem_singleton_self _, htarget⟩
    · rintro ⟨t, ht, hte⟩
      rw [List.mem_singleton] at ht
      subst ht
      exact hexec hte

end Rules

end HitlOps.Lifecycle
