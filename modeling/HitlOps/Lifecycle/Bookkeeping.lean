import HitlOps.Lifecycle.Filing

/-!
# Rules of the books

What the statements and the common parts of the lifecycle programs do to a history, in the form in
which the programs use them: a reading part leads to a history that `Notes` relates to the one
before, and an entry adds one transition or one write to an execution row.
-/

set_option autoImplicit false

namespace HitlOps.Lifecycle

open HitlOps.Python HitlOps.Domain HitlOps.Infrastructure HitlOps.Application HitlOps.Adapters
open HitlOps.Transaction

section Rules

variable {rt : Runtime} {Due : List (Obs Db) → UUID → Prop} {α : Type} {h : List (Obs Db)}

/-- The open transaction has written nothing. -/
structure Unwritten (h : List (Obs Db)) : Prop where
  writes : History.writes h = []
  entered : entered h = []

/-- The open transaction has written nothing and looked up nothing. -/
structure Begun (h : List (Obs Db)) : Prop extends Unwritten h where
  asked : askedFor h = none

theorem Unwritten.clean (hb : Unwritten h) : (History.writes h).any touchesBooks = false := by
  rw [hb.writes]
  rfl

theorem Unwritten.quiet (hb : Unwritten h) {h' : List (Obs Db)} (hq : Quiet h h') : Unwritten h' :=
  ⟨hq.writes.trans hb.writes, hq.entered.trans hb.entered⟩

theorem Begun.notes (hb : Begun h) {h' : List (Obs Db)} (hn : Notes h h') : Begun h' :=
  ⟨hb.toUnwritten.quiet hn.toQuiet, hn.asked.trans hb.asked⟩

theorem begun_nil : Begun [] := ⟨⟨rfl, rfl⟩, rfl⟩

theorem begun_commit (h : List (Obs Db)) : Begun (.did .commit () :: h) := ⟨⟨rfl, rfl⟩, rfl⟩

theorem begun_rollback (h : List (Obs Db)) : Begun (.did .rollback () :: h) := ⟨⟨rfl, rfl⟩, rfl⟩

theorem filed_of_unwritten (hb : Unwritten h) : filed h = [] := by
  unfold filed
  rw [hb.writes]
  rfl

theorem escalated_of_unwritten (hb : Unwritten h) : escalated h = [] := by
  unfold escalated
  rw [hb.writes]
  rfl

theorem twins_of_unwritten (hb : Unwritten h) : Twins (History.writes h) := by
  rw [hb.writes]
  rfl

/-- A transaction without a write and without a lookup leaves executions alone. -/
theorem settled_of_begun (hb : Begun h) : Settled rt h where
  deed := .plain (filed_of_unwritten hb.toUnwritten)
    (fun t ht => by rw [hb.entered] at ht; cases ht) (escalated_of_unwritten hb.toUnwritten) hb.asked
  twins := twins_of_unwritten hb.toUnwritten

/-- An observation of a transaction without a write shows a store that counts. -/
theorem sees {o : Obs Db} (ho : Silent o) (hb : Unwritten h) {σ : Store} (hσ : o.seen? = some σ) :
    (σ, History.held (o :: h)) ∈ booksRead (o :: h) ∧ σ ∈ booksShown (o :: h) := by
  have hclean : ¬ (History.writes h).any touchesBooks = true := by
    rw [hb.clean]
    exact Bool.false_ne_true
  constructor
  · have hmem : (σ, History.held (o :: h)) ∈ (if (History.writes h).any touchesBooks = true then []
        else (o.seen?.map fun σ => (σ, History.held (o :: h))).toList) ++ booksRead h := by
      rw [if_neg hclean, hσ]
      exact List.mem_append_left _ (List.mem_singleton_self _)
    cases o with
    | sent c => cases hσ
    | did st r =>
        cases st with
        | commit => exact ho.elim
        | rollback => exact ho.elim
        | _ => exact hmem
  · show σ ∈ (if _ then _ else _) ++ _
    rw [if_neg hclean, hσ]
    exact List.mem_append_left _ (List.mem_singleton_self _)

theorem Located.suffix {h h' : List (Obs Db)} {k : RevisionKey} {id : UUID} (hl : Located h k id)
    (hs : h <:+ h') : Located h' k id := by
  obtain ⟨σ, hσ, hrow⟩ := hl
  exact ⟨σ, shown_of_suffix hs hσ, hrow⟩

theorem Located.keeps {h h' : List (Obs Db)} {k : RevisionKey} {id : UUID} (hl : Located h k id)
    (hk : Keeps h h') : Located h' k id := by
  exact hl.suffix hk.suffix

theorem Source.keeps {h h' : List (Obs Db)} {k : RevisionKey} {x : Execution} (hx : Source h k x)
    (hk : Keeps h h') : Source h' k x := by
  cases hx with
  | locked σ keys hσ hkey hx => exact .locked σ keys (hk.reads _ hσ) hkey hx
  | byId σ hσ hx hlocated => exact .byId σ (hk.shown hσ) hx (hlocated.keeps hk)

theorem LockedIn.keeps {h h' : List (Obs Db)} {k : RevisionKey} {state : IntentState}
    (hl : LockedIn h k state) (hk : Keeps h h') : LockedIn h' k state := by
  obtain ⟨e, he, hrest⟩ := hl
  exact ⟨e, hk.reads e he, hrest⟩

theorem ReadRow.keeps {h h' : List (Obs Db)} {x : Execution} (hr : ReadRow h x) (hk : Keeps h h') :
    ReadRow h' x := by
  obtain ⟨e, he, hx⟩ := hr
  exact ⟨e, hk.reads e he, hx⟩

/-- What follows the body of a transaction: a settled history, or an exception. -/
def ends (rt : Runtime) (Q : α → List (Obs Db) → Prop) :
    Except Error α → List (Obs Db) → Prop
  | .ok a, h => Settled rt h ∧ Q a (.did .commit () :: h)
  | .error _, _ => True

/-- A transaction whose body ends with a deed. -/
theorem bw_transaction {p : M α} {Q : Except Error α → List (Obs Db) → Prop}
    (herr : ∀ x h', h <:+ h' → Begun h' → Q (.error x) h')
    (hp : (filing rt Due).wp p
      (ends rt fun a h' => h <:+ h' → Begun h' → Q (.ok a) h') h) :
    (filing rt Due).wp (Prog.transaction p) Q h := by
  refine Watch.wp_transaction (Watch.wp_mono (fun r h' hr => ?_) (Watch.wp_suffix hp))
  obtain ⟨hsuffix, hr⟩ := hr
  have hsuffix' : ∀ o : Obs Db, h <:+ o :: h' := fun o => hsuffix.trans (List.suffix_cons o h')
  cases r with
  | ok a => exact ⟨hr.1, hr.2 (hsuffix' _) (begun_commit h')⟩
  | error x => exact ⟨trivial, herr x _ (hsuffix' _) (begun_rollback h')⟩

/-- A session, whose open transaction is rolled back. -/
theorem bw_session {p : M α} {Q : Except Error α → List (Obs Db) → Prop}
    (hp : (filing rt Due).wp p
      (fun r h' => h <:+ h' → Q r (.did .rollback () :: h')) h) :
    (filing rt Due).wp (Prog.session p) Q h :=
  Watch.wp_session (Watch.wp_mono (fun _ _ hr => ⟨trivial, hr.2 hr.1⟩) (Watch.wp_suffix hp))

/-! ## Readings -/

/-- A statement that only reads. -/
def Reading : Stmt Db → Prop
  | .select => True
  | .draw _ => True
  | .call (.fetch _ _) => True
  | .call .publishPending => True
  | _ => False

theorem reading_step {st : Stmt Db} (hst : Reading st) (h : List (Obs Db)) :
    files rt Due h st ∧ ∀ r, Notes h (extend h st r) := by
  cases st with
  | select => exact ⟨trivial, fun r => notes_cons (o := (.did .select r : Obs Db)) ⟨trivial, trivial⟩ h⟩
  | draw d => exact ⟨trivial, fun r => notes_cons (o := (.did (.draw d) r : Obs Db)) ⟨trivial, trivial⟩ h⟩
  | call c =>
      have hquiet : Unasking (.sent c : Obs Db) → ∀ a : Answer c, Notes h (extend h (.call c : Stmt Db) a) :=
        fun hc a => (notes_cons (o := (.sent c : Obs Db)) ⟨trivial, hc⟩ h).trans
          (notes_cons (o := (.did (.call c) a : Obs Db)) ⟨trivial, trivial⟩ _)
      cases c with
      | fetch tool parameters => exact ⟨trivial, hquiet trivial⟩
      | publishPending => exact ⟨trivial, hquiet trivial⟩
      | execute tool command => exact hst.elim
      | lookupStatus tool key provider => exact hst.elim
      | propose request context => exact hst.elim
  | _ => exact hst.elim

/-- A program that only reads. -/
theorem bw_reading {p : M α} (hp : p.Uses Reading fun _ => True)
    {Q : Except Error α → List (Obs Db) → Prop} (hQ : ∀ r h', Notes h h' → Q r h') :
    (filing rt Due).wp p Q h := by
  refine Watch.wp_uses (Notes h) (fun st hst h' hn => ?_) hp (.refl h) fun r h' hn _ => hQ r h' hn
  obtain ⟨hmust, hnext⟩ : files rt Due h' st ∧ ∀ r, Notes h' (extend h' st r) := reading_step hst h'
  exact ⟨hmust, fun r _ => hn.trans (hnext r)⟩

theorem reads_query (q : Store → α) : (Prog.query q : M α).Uses Reading fun _ => True :=
  Prog.uses_query trivial

theorem reads_scalarOne (rows : List α) : (scalarOne rows).Uses Reading fun _ => True := by
  match rows with
  | [] => exact trivial
  | [_] => exact trivial
  | _ :: _ :: _ => exact trivial

theorem reads_scalarOneOrNone (rows : List α) :
    (scalarOneOrNone rows).Uses Reading fun _ => True := by
  match rows with
  | [] => exact trivial
  | [_] => exact trivial
  | _ :: _ :: _ => exact trivial

theorem reads_scan (q : Store → List α) : (scan q).Uses Reading fun _ => True :=
  (reads_query q).bind fun _ => (Prog.uses_draw (S := Reading) trivial).bind fun _ => trivial

/-- A select shows a store that counts. -/
theorem bw_select (hb : Unwritten h) {Q : Except Error (Store × Instant) → List (Obs Db) → Prop}
    (hQ : ∀ σ t h', Notes h h' → Keyed σ → h' = .did .select (σ, t) :: h →
      (σ, History.held h') ∈ booksRead h' → σ ∈ booksShown h' → Q (.ok (σ, t)) h') :
    (filing rt Due).wp (Prog.select (D := Db)) Q h := by
  refine ⟨trivial, fun r hr => ?_⟩
  obtain ⟨σ, t⟩ := r
  have hkeyed : Keyed σ := hr σ rfl
  obtain ⟨hread, hshown⟩ := sees (o := (.did .select (σ, t) : Obs Db)) trivial hb rfl
  exact hQ σ t _ (notes_cons (o := (.did .select (σ, t) : Obs Db)) ⟨trivial, trivial⟩ h) hkeyed rfl hread
    hshown

theorem bw_query (hb : Unwritten h) (q : Store → α) {Q : Except Error α → List (Obs Db) → Prop}
    (hQ : ∀ σ h', Notes h h' → Keyed σ → (σ, History.held h') ∈ booksRead h' →
      σ ∈ booksShown h' → Q (.ok (q σ)) h') :
    (filing rt Due).wp (Prog.query (D := Db) q) Q h :=
  Watch.wp_bind (bw_select hb fun σ _ h' hn hk _ hread hshown => hQ σ h' hn hk hread hshown)

/-- A lock statement on the row of an intent. -/
theorem bw_lock (hb : Unwritten h) (key : RevisionKey) (nowait : Bool)
    {Q : Except Error (Option (Store × Instant)) → List (Obs Db) → Prop}
    (hnone : ∀ h', Notes h h' → Q (.ok none) h')
    (hsome : ∀ σ t h', Notes h h' → Keyed σ → (σ, History.held h') ∈ booksRead h' →
      ((σ.intent? key).isSome → .intent key ∈ History.held h') → Q (.ok (some (σ, t))) h') :
    (filing rt Due).wp (Prog.lock (D := Db) (.intent key) nowait) Q h := by
  refine ⟨trivial, fun r hr => ?_⟩
  cases r with
  | none => exact hnone _ (notes_cons (o := (.did (.lock (.intent key) nowait) none : Obs Db)) ⟨trivial, trivial⟩ h)
  | some e =>
      obtain ⟨σ, t⟩ := e
      obtain ⟨hread, -⟩ :=
        sees (o := (.did (.lock (.intent key) nowait) (some (σ, t)) : Obs Db)) trivial hb rfl
      refine hsome σ t _ (notes_cons
        (o := (.did (.lock (.intent key) nowait) (some (σ, t)) : Obs Db)) ⟨trivial, trivial⟩ h)
        (hr σ rfl) hread fun hpresent => ?_
      have hpresent' : (some (σ, t)).any (fun r => Db.present r.1 (.intent key)) = true := hpresent
      show _ ∈ if (some (σ, t)).any (fun r => Db.present r.1 (.intent key)) = true then _ else _
      rw [if_pos hpresent']
      exact List.mem_cons_self

theorem key_of_intent? {σ : Store} {key : RevisionKey} {a : ActionIntent}
    (ha : σ.intent? key = some a) : a.key = key := by
  have hkey := List.find?_some ha
  exact of_decide_eq_true hkey

theorem id_of_execution? {σ : Store} {id : UUID} {x : Execution} (hx : σ.execution? id = some x) :
    x.id = id ∧ x ∈ σ.executions := by
  have hid := List.find?_some hx
  exact ⟨of_decide_eq_true hid, List.mem_of_find?_eq_some hx⟩

theorem bw_lockIntentNowait (hb : Unwritten h) (key : RevisionKey)
    {Q : Except Error (Option (Option ActionIntent × Time)) → List (Obs Db) → Prop}
    (hnone : ∀ h', Notes h h' → Q (.ok none) h')
    (hmissing : ∀ t h', Notes h h' → Q (.ok (some (none, t))) h')
    (hsome : ∀ σ a t h', Notes h h' → (σ, History.held h') ∈ booksRead h' →
      .intent key ∈ History.held h' → σ.intent? key = some a → Q (.ok (some (some a, t))) h') :
    (filing rt Due).wp (lockIntentNowait key) Q h := by
  refine Watch.wp_bind (bw_lock hb key true (fun h' hn => hnone h' hn) ?_)
  intro σ t h' hn _ hread hheld
  show Q (.ok (some (σ.intent? key, t))) h'
  cases ha : σ.intent? key with
  | none => exact hmissing t h' hn
  | some a => exact hsome σ a t h' hn hread (hheld (by rw [ha]; rfl)) ha

theorem bw_lockIntent (hb : Unwritten h) (key : RevisionKey)
    {Q : Except Error ActionIntent → List (Obs Db) → Prop} (hQ : ∀ x h', Q (.error x) h')
    (hsome : ∀ σ a h', Notes h h' → (σ, History.held h') ∈ booksRead h' →
      .intent key ∈ History.held h' → σ.intent? key = some a → Q (.ok a) h') :
    (filing rt Due).wp (lockIntent key) Q h := by
  refine Watch.wp_bind (bw_lock hb key false (fun h' hn => hQ _ h') ?_)
  intro σ t h' hn _ hread hheld
  refine Watch.wp_orRaise (fun _ => hQ _ h') fun a ha => ?_
  exact hsome σ a h' hn hread (hheld (by rw [ha]; rfl)) ha

/-! ## Entries -/

/-- One more write of the open transaction. -/
theorem keeps_write (w : Write) (h : List (Obs Db)) : Keeps h (.did (.write w) () :: h) :=
  keeps_cons (o := (.did (.write w) () : Obs Db)) trivial h

/-- A flushed write that the watch lets through. -/
theorem bw_flush {w : Write} (hw : insertKey? w = none)
    {Q : Except Error Unit → List (Obs Db) → Prop} (hQ : ∀ x h', Q (.error x) h')
    (hok : Q (.ok ()) (.did (.write w) () :: h)) : (filing rt Due).wp (flush w) Q h := by
  refine Watch.wp_bind (Watch.wp_raiseIf (fun _ => hQ _ _) fun _ => ?_)
  exact ⟨hw, fun _ _ => hok⟩

/-- `h'` comes from `h` by one transition row of the revision `k`. -/
structure Enters (h h' : List (Obs Db)) (k : RevisionKey) (target : IntentState)
    (t : StateTransition) : Prop extends Keeps h h' where
  answer : newestAnswer h' = newestAnswer h
  asked : askedFor h' = askedFor h
  entered : entered h' = entered h ++ [t]
  filed : filed h' = filed h
  escalated : escalated h' = escalated h
  twins : Twins (History.writes h) → Twins (History.writes h')
  key : t.key = k
  toState : t.toState = target

theorem bw_appendTransition {a : ActionIntent} {target : IntentState} {cause : Cause}
    {dbNow : Time} {topic : String} {payload : Dict} (htopic : topic ≠ exhaustedTopic)
    {Q : Except Error ActionIntent → List (Obs Db) → Prop} (hQ : ∀ x h', Q (.error x) h')
    (hok : ∀ t h', Enters h h' a.key target t → Q (.ok (moved a target)) h') :
    (filing rt Due).wp (appendTransition a target cause dbNow topic payload) Q h := by
  refine Watch.wp_bind (Watch.wp_raiseIf (fun _ => hQ _ _) fun _ => ?_)
  refine Watch.wp_bind (Watch.wp_bind ⟨trivial, fun r _ => ?_⟩)
  refine Watch.wp_bind (bw_flush rfl hQ ?_)
  refine Watch.wp_bind (bw_flush rfl hQ ?_)
  refine Watch.wp_bind (bw_flush rfl hQ ?_)
  -- The four observations of the step, newest first.
  set h₁ : List (Obs Db) := extend h .select r with hh₁
  have hn : Notes h h₁ := notes_cons (o := (.did .select r : Obs Db)) ⟨trivial, trivial⟩ h
  refine hok (transitionRow a target cause (r.1.maxSequence a.key + 1) dbNow) _
    ⟨hn.toKeeps.trans ((keeps_write _ _).trans ((keeps_write _ _).trans (keeps_write _ _))), ?_, hn.asked, ?_,
      ?_, ?_, fun ht => ?_, rfl, rfl⟩
  · rfl
  · show (ghostAfter h₁).entered ++ [_] = _
    rw [show (ghostAfter h₁).entered = entered h from hn.entered]
  · show ((History.writes h₁ ++ [_] ++ [_] ++ [_]).filter filesExecution) = _
    simp only [List.filter_append, hn.writes, List.filter_cons, filesExecution, Bool.false_eq_true,
      if_false, List.filter_nil, List.append_nil]
    rfl
  · show ((History.writes h₁ ++ [_] ++ [_] ++ [_]).filterMap handOver?) = _
    simp only [List.filterMap_append, hn.writes, List.filterMap_cons, handOver?, if_neg htopic,
      List.filterMap_nil, List.append_nil]
    rfl
  · rw [← hn.writes] at ht
    exact ((ht.append rfl rfl).append rfl rfl).append rfl rfl

/-- `h'` comes from `h` by one update of an execution row. -/
structure Files (h h' : List (Obs Db)) (x new : Execution) : Prop extends Keeps h h' where
  answer : newestAnswer h' = newestAnswer h
  asked : askedFor h' = askedFor h
  entered : entered h' = entered h
  filed : filed h' = filed h ++ [.updateExecution x new]
  escalated : escalated h' = escalated h
  twins : Twins (History.writes h) → Twins (History.writes h')

theorem bw_updateExecution {x new : Execution} {Q : Except Error Unit → List (Obs Db) → Prop}
    (hQ : ∀ e h', Q (.error e) h') (hok : ∀ h', Files h h' x new → Q (.ok ()) h') :
    (filing rt Due).wp (flush (.updateExecution x new)) Q h := by
  refine bw_flush rfl hQ 
    (hok _ ⟨keeps_write _ h, rfl, rfl, rfl, ?_, ?_, fun ht => ht.append rfl rfl⟩)
  · show (History.writes h ++ [_]).filter filesExecution = _
    rw [List.filter_append]
    rfl
  · show (History.writes h ++ [_]).filterMap handOver? = _
    rw [List.filterMap_append]
    exact List.append_nil _

end Rules

end HitlOps.Lifecycle
