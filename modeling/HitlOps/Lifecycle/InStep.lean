import HitlOps.Lifecycle.Provenance
import HitlOps.Lifecycle.Rounds
import HitlOps.Transaction.Commits
import HitlOps.Transaction.Unique

/-!
# Revisions and execution rows in step

`Paired` says that the execution rows of a revision agree with its log: none before a claim, and
exactly one behind it whose status goes with the state. Each deed keeps the two tables paired. A
deed may rest on a row that was read before the row lock was granted; that row is outdated at most
by moves of the revision, so a column that the deed writes is never taken for unchanged.

Execution rows are looked up without the tenant, so all of this is for stores in which no two
tenants share an intent identifier.
-/

set_option autoImplicit false

namespace HitlOps.Lifecycle

open HitlOps.Python HitlOps.Domain HitlOps.Infrastructure HitlOps.Application HitlOps.Adapters
open HitlOps.Transaction

/-! ## Two tables -/

/-- The execution rows of the revision `k`. -/
def rowsOf (db : Store) (k : RevisionKey) : List Execution := db.executions.filter fun x => x.key = k

/-- The execution rows of a revision agree with its log. -/
inductive Paired (r : Revision) (rows : List Execution) : Prop
  | unclaimed (hlog : ∀ t ∈ r.log, t.toState ≠ .revalidating) (hrows : rows = [])
  | claimed (a : ActionIntent) (x : Execution) (hlog : ∃ t ∈ r.log, t.toState = .revalidating)
      (ha : r.intent = some a) (hrows : rows = [x]) (hstatus : statusFor a.state = some x.status)
      (hattempt : x.attempt = 1)

/-- Every revision of the store is paired with its rows. -/
def InStep (db : Store) : Prop := ∀ k, Paired (revision db k) (rowsOf db k)

/-- No two tenants share an intent identifier. -/
def UniqueIds (db : Store) : Prop :=
  ∀ k k', (db.intent? k).isSome → (db.intent? k').isSome → k.intentId = k'.intentId →
    k.tenantId = k'.tenantId

theorem mem_rowsOf {db : Store} {k : RevisionKey} {x : Execution} :
    x ∈ rowsOf db k ↔ x ∈ db.executions ∧ x.key = k := by
  rw [rowsOf, List.mem_filter, decide_eq_true_eq]

/-- A row of a paired revision is its only row. -/
theorem Paired.of_mem {r : Revision} {rows : List Execution} (h : Paired r rows) {x : Execution}
    (hx : x ∈ rows) : rows = [x] ∧ x.attempt = 1 ∧ (∃ t ∈ r.log, t.toState = .revalidating) ∧
      ∃ a, r.intent = some a ∧ statusFor a.state = some x.status := by
  cases h with
  | unclaimed hlog hrows =>
      rw [hrows] at hx
      cases hx
  | claimed a y hlog ha hrows hstatus hattempt =>
      rw [hrows, List.mem_singleton] at hx
      subst hx
      exact ⟨hrows, hattempt, hlog, a, ha, hstatus⟩

/-- A row belongs to a revision that exists. -/
theorem InStep.intent {db : Store} (h : InStep db) {x : Execution} (hx : x ∈ db.executions) :
    (db.intent? x.key).isSome := by
  obtain ⟨-, -, -, a, ha, -⟩ := (h x.key).of_mem (mem_rowsOf.2 ⟨hx, rfl⟩)
  rw [show db.intent? x.key = some a from ha]
  rfl

/-! ## What a deed does to the rows -/

/-- The effect of a write on the execution rows. -/
def putExecution (rows : List Execution) : Write → List Execution
  | .insertExecution row => rows ++ [row]
  | .updateExecution old new =>
      rows.map fun e => if e.id = old.id then Execution.merge old new e else e
  | _ => rows

theorem executions_foldl (pending : List (Nat × Write)) (db : Store) :
    (pending.foldl (fun s e => Store.apply s e.1 e.2) db).executions =
      ((pending.map Prod.snd).filter filesExecution).foldl putExecution db.executions := by
  induction pending generalizing db with
  | nil => rfl
  | cons e rest ih =>
      obtain ⟨n, w⟩ := e
      rw [List.foldl_cons, ih, List.map_cons, List.filter_cons]
      cases w <;> rfl

/-- The execution rows that a process sees. -/
theorem executions_view {s : State} {pid : Nat} {p : Proc Db Error Result Op}
    (hx : Exact s pid p) :
    (p.session.view s.db).executions = (filed p.history).foldl putExecution s.db.executions := by
  have hpending : p.session.pending.map Prod.snd = History.writes p.history := hx.pending
  have h := executions_foldl p.session.pending s.db
  rw [hpending] at h
  exact h

theorem merge_id (old new e : Execution) : (Execution.merge old new e).id = e.id := rfl

theorem merge_key (old new e : Execution) : (Execution.merge old new e).key = e.key := rfl

/-- A row keeps its identifier and its revision. -/
theorem kept_putExecution (rows : List Execution) (w : Write) :
    ∀ x ∈ rows, ∃ x' ∈ putExecution rows w, x'.id = x.id ∧ x'.key = x.key := by
  intro x hx
  cases w with
  | insertExecution row => exact ⟨x, List.mem_append_left _ hx, rfl, rfl⟩
  | updateExecution old new =>
      refine ⟨_, List.mem_map_of_mem hx, ?_, ?_⟩
      · split
        · exact merge_id old new x
        · rfl
      · split
        · exact merge_key old new x
        · rfl
  | _ => exact ⟨x, hx, rfl, rfl⟩

theorem kept_foldl (ws : List Write) (rows : List Execution) :
    ∀ x ∈ rows, ∃ x' ∈ ws.foldl putExecution rows, x'.id = x.id ∧ x'.key = x.key := by
  induction ws generalizing rows with
  | nil => exact fun x hx => ⟨x, hx, rfl, rfl⟩
  | cons w ws ih =>
      intro x hx
      obtain ⟨y, hy, hid, hkey⟩ := kept_putExecution rows w x hx
      obtain ⟨z, hz, hid', hkey'⟩ := ih (putExecution rows w) y hy
      exact ⟨z, hz, hid'.trans hid, hkey'.trans hkey⟩

theorem rowsOf_insert {db db' : Store} {row : Execution}
    (h : db'.executions = db.executions ++ [row]) (k : RevisionKey) :
    rowsOf db' k = if row.key = k then rowsOf db k ++ [row] else rowsOf db k := by
  unfold rowsOf
  rw [h, filter_append_one]
  by_cases hk : row.key = k
  · rw [if_pos (decide_eq_true hk), if_pos hk]
  · rw [if_neg (by simpa using hk), if_neg hk]

theorem rowsOf_update {db db' : Store} {old new : Execution}
    (h : db'.executions = putExecution db.executions (.updateExecution old new)) (k : RevisionKey) :
    rowsOf db' k =
      (rowsOf db k).map fun e => if e.id = old.id then Execution.merge old new e else e := by
  unfold rowsOf
  rw [h, putExecution, List.filter_map]
  congr 1
  refine List.filter_congr fun e _ => ?_
  simp only [Function.comp_apply]
  split
  · rw [merge_key]
  · rfl

/-! ## Chains that grow -/

/-- The first row behind a log continues its state. -/
theorem Chain.first_of_append {log ts : List StateTransition} {t : StateTransition}
    {s s' : IntentState} (h : Chain (log ++ t :: ts) s') (hlog : Chain log s) :
    t.fromState = some s ∧ isLegal s t.toState = true := by
  obtain ⟨u, hu, hus⟩ := hlog.getLast?
  have hedge := (List.isChain_append.1 h.edges).2.2 u hu t rfl
  rw [hus] at hedge
  exact hedge

/-- A status that goes with two states goes with states of one depth. -/
theorem statusFor_rank {s s' : IntentState} {status : ExecutionStatus}
    (h : statusFor s = some status) (h' : statusFor s' = some status) : rank s' ≤ rank s := by
  revert h h'
  cases s <;> cases s' <;> cases status <;> decide

/-- No plain transition leads on from a state behind a claim. -/
theorem not_plain_of_statusFor {s : IntentState} {status : ExecutionStatus} {t : StateTransition}
    (h : statusFor s = some status) (hfrom : t.fromState = some s)
    (hlegal : isLegal s t.toState = true) : ¬ PlainTransition t := by
  intro hplain
  have htarget := hplain.target
  have hexpired := fun heq => hplain.expired heq s hfrom
  revert h hlegal htarget hexpired
  generalize t.toState = target
  cases s <;> cases target <;> decide +revert

/-! ## Stores that were shown -/

/-- The tables that the deeds are about. -/
def booksOf (db : Store) : (RevisionKey → Revision) × List Execution := (revision db, db.executions)

/-- The tables of the revision `k`. -/
def pageOf (k : RevisionKey) (db : Store) : Revision × List Execution := (revision db k, rowsOf db k)

theorem untouching_booksOf : Untouching (D := Db) booksOf touchesBooks := by
  intro db n w hw
  simp only [touchesBooks, Bool.or_eq_false_iff, Option.isSome_eq_false_iff,
    Option.isNone_iff_eq_none] at hw
  have hrevision : revision (db.apply n w) = revision db := by
    funext k
    rw [revision_apply, hw.2, if_neg (by rintro ⟨⟩)]
  have hexecutions : (db.apply n w).executions = db.executions := by
    cases w <;> first | rfl | cases hw.1
  exact Prod.ext hrevision hexecutions

theorem pageOf_eq {db db' : Store} (h : booksOf db = booksOf db') (k : RevisionKey) :
    pageOf k db = pageOf k db' := by
  have hrevision : revision db = revision db' := congrArg Prod.fst h
  have hexecutions : db.executions = db'.executions := congrArg Prod.snd h
  unfold pageOf rowsOf
  rw [hrevision, hexecutions]

theorem untouching_pageOf (k : RevisionKey) : Untouching (D := Db) (pageOf k) touchesBooks :=
  fun db n w hw => pageOf_eq (untouching_booksOf db n w hw) k

/-- The older tables were in step, and the newer ones continue them. -/
structure Continue (b b' : (RevisionKey → Revision) × List Execution) : Prop where
  wellFormed : ∀ k, WellFormed AnyPolicy k (b.1 k)
  paired : ∀ k, Paired (b.1 k) (b.2.filter fun x => x.key = k)
  later : ∀ k, Later (b.1 k) (b'.1 k)
  kept : ∀ x ∈ b.2, ∃ x' ∈ b'.2, x'.id = x.id ∧ x'.key = x.key

theorem Continue.trans {b b' b'' : (RevisionKey → Revision) × List Execution}
    (h : Continue b b') (h' : Continue b' b'') : Continue b b'' := by
  refine ⟨h.wellFormed, h.paired, fun k => (h.later k).trans (h'.later k), fun x hx => ?_⟩
  obtain ⟨y, hy, hid, hkey⟩ := h.kept x hx
  obtain ⟨z, hz, hid', hkey'⟩ := h'.kept y hy
  exact ⟨z, hz, hid'.trans hid, hkey'.trans hkey⟩

/-- What is known of the tables and of the stores that the processes were shown. -/
structure Tidy (s : State) : Prop where
  inStep : InStep s.db
  current : ∀ k, Current (D := Db) (pageOf k) touchesBooks (.intent k) s
  grown : Grown (D := Db) booksOf touchesBooks Continue s

theorem mem_shown_of_mem_reads {h : List (Obs Db)} {e : Store × List LockKey}
    (he : e ∈ booksRead h) : e.1 ∈ booksShown h := by
  induction h with
  | nil => cases he
  | cons o h ih =>
      rcases mem_reads_cons he with ⟨hold, -⟩ | ⟨hclean, hseen, -⟩
      · exact List.mem_append_right _ (ih hold)
      · refine List.mem_append_left _ ?_
        rw [if_neg (by rw [hclean]; exact Bool.false_ne_true), hseen]
        exact List.mem_singleton_self _

/-! ## The row of a deed -/

/-- The execution rows of a store have distinct identifiers. -/
def executionIds : PrimaryKey Db UUID where
  ids := fun db => db.executions.map (·.id)
  new? := fun w =>
    match w with
    | .insertExecution row => some row.id
    | _ => none
  key := .execution
  key_injective := fun _ _ h => LockKey.execution.inj h
  ids_apply := by
    intro db n w
    cases w with
    | insertExecution row => exact List.map_append
    | updateExecution old new =>
        refine Eq.trans ?_ (List.append_nil _).symm
        show (db.executions.map _).map _ = _
        rw [List.map_map]
        refine List.map_congr_left fun e _ => ?_
        simp only [Function.comp_apply]
        split
        · exact merge_id old new e
        · rfl
    | _ => exact (List.append_nil _).symm
  present_iff := by
    intro db i
    show (db.execution? i).isSome = true ↔ _
    rw [Store.execution?, List.find?_isSome, List.mem_map]
    simp only [decide_eq_true_eq]

/-- Two rows with one identifier are one row. -/
theorem eq_of_id {db : Store} (h : (executionIds.ids db).Nodup) {x y : Execution}
    (hx : x ∈ db.executions) (hy : y ∈ db.executions) (hid : x.id = y.id) : x = y :=
  List.inj_on_of_nodup_map h hx hy hid

/-- The row `c` is the only one of the revision `k`, and `x` is what it was at some earlier time. -/
structure Holds (db : Store) (k : RevisionKey) (x c : Execution) : Prop where
  rows : rowsOf db k = [c]
  id : c.id = x.id
  earlier : ∃ r a, WellFormed AnyPolicy k r ∧ Later r (revision db k) ∧ r.intent = some a ∧
    statusFor a.state = some x.status

section Deeds

variable {s : State} {pid : Nat} {p : Proc Db Error Result Op}

/-- A row that a process was shown belongs to a revision that exists. -/
theorem Tidy.intent (ht : Tidy s) (hp : s.procs pid = some p) {σ : Store}
    (hσ : σ ∈ booksShown p.history) {x : Execution} (hx : x ∈ σ.executions) :
    (s.db.intent? x.key).isSome := by
  have hc := ht.grown pid p hp σ hσ
  obtain ⟨-, -, -, a, ha, -⟩ := (hc.paired x.key).of_mem (mem_rowsOf.2 ⟨hx, rfl⟩)
  obtain ⟨a', ha', -⟩ := (hc.later x.key).identity a ha
  rw [show s.db.intent? x.key = some a' from ha']
  rfl

/-- A row of the intent and the revision of `k` is a row of `k`. -/
theorem key_of_unique {db : Store} (hu : UniqueIds db) {k k' : RevisionKey}
    (hk : (db.intent? k).isSome) (hk' : (db.intent? k').isSome) (hintent : k'.intentId = k.intentId)
    (hrevision : k'.revision = k.revision) : k' = k := by
  obtain ⟨tenant, intent, revision⟩ := k
  obtain ⟨tenant', intent', revision'⟩ := k'
  cases hintent
  cases hrevision
  cases hu _ _ hk' hk rfl
  rfl

/-- The source of a deed is the row of its revision. -/
theorem Tidy.holds (ht : Tidy s) (hu : UniqueIds s.db) (hids : (executionIds.ids s.db).Nodup)
    (hrows : ∀ k, WellFormed AnyPolicy k (revision s.db k)) (hp : s.procs pid = some p)
    {k : RevisionKey} (hk : (s.db.intent? k).isSome) {x : Execution}
    (hx : Source p.history k x) : ∃ c, Holds s.db k x c := by
  cases hx with
  | locked σ keys hσ hkey hfound =>
      have hmem : x ∈ σ.executionsOf k.intentId k.revision := by
        rw [hfound]
        exact List.mem_singleton_self x
      obtain ⟨hrow, hkeys⟩ := List.mem_filter.1 hmem
      obtain ⟨hintent, hrevision⟩ := of_decide_eq_true hkeys
      have hxkey := key_of_unique hu hk
        (ht.intent hp (mem_shown_of_mem_reads hσ) hrow) hintent hrevision
      -- The lock is held since the row was read.
      have hpage := ht.current k pid p hp (σ, keys) hσ hkey
      have hrows' : rowsOf σ k = rowsOf s.db k := congrArg Prod.snd hpage
      have hmem' : x ∈ rowsOf s.db k := hrows' ▸ mem_rowsOf.2 ⟨hrow, hxkey⟩
      obtain ⟨heq, -, -, a, ha, hstatus⟩ := (ht.inStep k).of_mem hmem'
      exact ⟨x, heq, rfl, revision s.db k, a, hrows k, .refl _, ha, hstatus⟩
  | byId σ hσ hfound hlocated =>
      obtain ⟨-, hrow⟩ := id_of_execution? hfound
      obtain ⟨σ', hσ', y, hy, hyid, hintent, hrevision⟩ := hlocated
      have hc := ht.grown pid p hp σ hσ
      obtain ⟨c, hcmem, hcid, hckey⟩ := hc.kept x hrow
      obtain ⟨d, hdmem, hdid, hdkey⟩ := (ht.grown pid p hp σ' hσ').kept y hy
      have hcd := eq_of_id hids hcmem hdmem (hcid.trans (hyid.symm.trans hdid.symm))
      subst hcd
      have hykey := key_of_unique hu hk (ht.intent hp hσ' hy) hintent hrevision
      have hxkey : x.key = k := hckey.symm.trans (hdkey.trans hykey)
      have hcrow : c ∈ rowsOf s.db k := mem_rowsOf.2 ⟨hcmem, hckey.trans hxkey⟩
      obtain ⟨heq, -⟩ := (ht.inStep k).of_mem hcrow
      obtain ⟨-, -, -, a, ha, hstatus⟩ := (hc.paired k).of_mem (mem_rowsOf.2 ⟨hrow, hxkey⟩)
      exact ⟨c, heq, hcid, _, a, hc.wellFormed k, hc.later k, ha, hstatus⟩

/-! ## Commits -/

/-- What is known of a commit of the process `pid` in a run. -/
structure CommitOf (rt : Runtime) (s : State) (pid : Nat) (p : Proc Db Error Result Op)
    (db' : Store) : Prop where
  proc : s.procs pid = some p
  exactly : Exact s pid p
  deed : Deed rt p.history
  twins : Twins (History.writes p.history)
  committed : Committed rt AnyPolicy (s.event pid p .commit)
  db : db' = p.session.view s.db
  rows : ∀ k, WellFormed AnyPolicy k (revision s.db k)
  rows' : ∀ k, WellFormed AnyPolicy k (revision db' k)

variable {rt : Runtime} {db' : Store}

theorem CommitOf.later (h : CommitOf rt s pid p db') (k : RevisionKey) :
    Later (revision s.db k) (revision db' k) := by
  rw [h.db]
  exact h.committed.later k

/-- A revision that the commit changes is locked and grows by the entries. -/
theorem CommitOf.revision_cases (h : CommitOf rt s pid p db') (k : RevisionKey) :
    revision db' k = revision s.db k ∨ s.locks (.intent k) = some pid ∧
      (revision db' k).log = (revision s.db k).log ++ entered p.history := by
  by_cases hne : revision (s.event pid p .commit).after k = revision (s.event pid p .commit).db k
  · rw [h.db]
    exact Or.inl hne
  · obtain ⟨b, -, hlock, hcom⟩ := h.committed.moved hne
    rw [h.db]
    exact Or.inr ⟨hlock, hcom.log⟩

theorem CommitOf.executions (h : CommitOf rt s pid p db') :
    db'.executions = (filed p.history).foldl putExecution s.db.executions := by
  rw [h.db]
  exact executions_view h.exactly

/-- Rows stay with a revision whose log does not grow. -/
theorem Paired.of_log {r r' : Revision} {rows : List Execution} {k : RevisionKey}
    (h : Paired r rows) (hr : WellFormed AnyPolicy k r) (hr' : WellFormed AnyPolicy k r')
    (hlater : Later r r') (hlog : r'.log = r.log) : Paired r' rows := by
  cases h with
  | unclaimed hno hrows => exact .unclaimed (by rw [hlog]; exact hno) hrows
  | claimed a x hyes ha hrows hstatus hattempt =>
      obtain ⟨a', ha', -⟩ := hlater.identity a ha
      have hchain := (hr.valid ha).core.chain
      have hchain' := (hr'.valid ha').core.chain
      rw [hlog] at hchain'
      refine .claimed a' x (by rw [hlog]; exact hyes) ha' hrows ?_ hattempt
      rw [hchain'.unique hchain]
      exact hstatus

/-- The revision of the only entry of a commit. -/
structure Entered (s : State) (pid : Nat) (db' : Store) (t : StateTransition) : Prop where
  locked : s.locks (.intent t.key) = some pid
  others : ∀ k, k ≠ t.key → revision db' k = revision s.db k
  log : (revision db' t.key).log = (revision s.db t.key).log ++ [t]
  legal : ∃ a, s.db.intent? t.key = some a ∧ isLegal a.state t.toState = true
  state : ∃ a', db'.intent? t.key = some a' ∧ a'.state = t.toState

theorem enters_of_commit (h : CommitOf rt s pid p db') {t : StateTransition}
    (ht : entered p.history = [t]) (hne : t.toState ≠ .requested) : Entered s pid db' t := by
  cases hc : h.committed with
  | untouched hun same =>
      have hempty : entered p.history = [] := hun.entered
      rw [ht] at hempty
      cases hempty
  | touched k b hb locked hcom valid later same =>
      have hlog : (revision db' k).log = (revision s.db k).log ++ [t] := by
        rw [h.db, ← ht]
        exact hcom.log
      have hmem : t ∈ db'.transitionsOf k := by
        rw [show db'.transitionsOf k = _ from hlog]
        exact List.mem_append_right _ (List.mem_singleton_self t)
      have hkey : t.key = k := of_decide_eq_true (List.mem_filter.1 hmem).2
      subst hkey
      -- The revision exists after the commit, as its log is not empty.
      have hintent' : ∃ a', (revision db' t.key).intent = some a' := by
        cases hi : (revision db' t.key).intent with
        | some a' => exact ⟨a', rfl⟩
        | none =>
            rw [(h.rows' t.key).eq_empty hi] at hlog
            exact absurd hlog.symm (List.append_ne_nil_of_right_ne_nil _ (List.cons_ne_nil _ _))
      obtain ⟨a', ha'⟩ := hintent'
      have hchain' := ((h.rows' t.key).valid ha').core.chain
      rw [hlog] at hchain'
      obtain ⟨u, hu, hstate⟩ := hchain'.getLast?
      rw [List.getLast?_concat] at hu
      cases hu
      refine ⟨locked, fun k' hk' => ?_, hlog, ?_, a', ha', hstate.symm⟩
      · rw [h.db]
        exact same k' hk'
      · cases hi : (revision s.db t.key).intent with
        | none =>
            -- A log that begins with the entry begins with REQUESTED.
            rw [(h.rows t.key).eq_empty hi] at hchain'
            obtain ⟨u, rest, heq, -, hreq⟩ := hchain'.head
            cases heq
            exact absurd hreq hne
        | some a =>
            have hchain := ((h.rows t.key).valid hi).core.chain
            exact ⟨a, hi, (hchain'.first_of_append hchain).2⟩

/-- The two tables are in step after the commit, and it held the lock of what it changed. -/
structure Balanced (s : State) (pid : Nat) (db' : Store) : Prop where
  inStep : InStep db'
  locked : ∀ k, pageOf k db' ≠ pageOf k s.db → s.locks (.intent k) = some pid

theorem balanced_of_plain (h : CommitOf rt s pid p db') (ht : InStep s.db)
    (hfiled : filed p.history = [])
    (hentered : ∀ t ∈ entered p.history, PlainTransition t) : Balanced s pid db' := by
  have hrows : ∀ k, rowsOf db' k = rowsOf s.db k := by
    intro k
    have hexecutions := h.executions
    rw [hfiled] at hexecutions
    unfold rowsOf
    rw [hexecutions]
    rfl
  refine ⟨fun k => ?_, fun k hne => ?_⟩
  · rw [hrows k]
    have hpaired := ht k
    rcases h.revision_cases k with hsame | ⟨-, hlog⟩
    · rw [hsame]
      exact hpaired
    · cases hents : entered p.history with
      | nil =>
          rw [hents, List.append_nil] at hlog
          exact hpaired.of_log (h.rows k) (h.rows' k) (h.later k) hlog
      | cons t ts =>
          rw [hents] at hlog
          cases hpaired with
          | unclaimed hno hempty =>
              refine .unclaimed (fun u hu => ?_) hempty
              rw [hlog] at hu
              rcases List.mem_append.1 hu with hu | hu
              · exact hno u hu
              · intro hreval
                have hplain := (hentered u (hents ▸ hu)).target
                rw [hreval] at hplain
                exact hplain List.mem_cons_self
          | claimed a x hyes ha hone hstatus hattempt =>
              -- A plain entry cannot follow a claim.
              obtain ⟨a', ha', -⟩ := (h.later k).identity a ha
              have hchain := ((h.rows k).valid ha).core.chain
              have hchain' := ((h.rows' k).valid ha').core.chain
              rw [hlog] at hchain'
              obtain ⟨hfrom, hlegal⟩ := hchain'.first_of_append hchain
              have hplain := hentered t (hents ▸ List.mem_cons_self)
              exact absurd hplain (not_plain_of_statusFor hstatus hfrom hlegal)
  · rcases h.revision_cases k with hsame | ⟨hlock, -⟩
    · exact absurd (Prod.ext hsame (hrows k)) hne
    · exact hlock

theorem balanced_of_claim (h : CommitOf rt s pid p db') (ht : Tidy s) (hu : UniqueIds s.db)
    {k : RevisionKey} {t : StateTransition} {σ : Store} {keys : List LockKey}
    (hσ : (σ, keys) ∈ booksRead p.history) (hk : .intent k ∈ keys)
    (hentered : entered p.history = [t]) (hkey : t.key = k) (hstate : t.toState = .revalidating)
    (hclaims : Claims σ k (filed p.history)) : Balanced s pid db' := by
  subst hkey
  have henters := enters_of_commit h hentered (by rw [hstate]; decide)
  obtain ⟨a, ha, hlegal⟩ := henters.legal
  obtain ⟨a', ha', hstate'⟩ := henters.state
  rw [hstate] at hlegal hstate'
  -- The revision was approved, so it had no row.
  have hempty : (∀ u ∈ (revision s.db t.key).log, u.toState ≠ .revalidating) ∧
      rowsOf s.db t.key = [] := by
    cases ht.inStep t.key with
    | unclaimed hno hrows => exact ⟨hno, hrows⟩
    | claimed b x hyes hb hrows hstatus hattempt =>
        have hab : b = a := Option.some.inj (hb.symm.trans ha)
        subst hab
        rcases of_isLegal_revalidating hlegal with hs | hs
        · rw [hs] at hstatus
          cases hstatus
        · rw [hs] at hstatus
          cases hstatus
  have hexecutions := h.executions
  generalize filed p.history = ws at hclaims hexecutions
  cases hclaims with
  | again x new hx =>
      have hmem : x ∈ σ.executionsOf t.key.intentId t.key.revision := by
        rw [hx]
        exact List.mem_singleton_self x
      obtain ⟨hrow, hkeys⟩ := List.mem_filter.1 hmem
      obtain ⟨hintent, hrevision⟩ := of_decide_eq_true hkeys
      have hxkey := key_of_unique hu (by rw [ha]; rfl)
        (ht.intent h.proc (mem_shown_of_mem_reads hσ) hrow) hintent hrevision
      have hpage := ht.current t.key pid p h.proc (σ, keys) hσ hk
      have hrows : rowsOf σ t.key = rowsOf s.db t.key := congrArg Prod.snd hpage
      have hxrow : x ∈ rowsOf s.db t.key := hrows ▸ mem_rowsOf.2 ⟨hrow, hxkey⟩
      rw [hempty.2] at hxrow
      cases hxrow
  | first id expires hnone =>
      have hrows : ∀ k, rowsOf db' k = _ := rowsOf_insert hexecutions
      have hrowkey : (claimedExecution id t.key expires).key = t.key := rfl
      refine ⟨fun k => ?_, fun k hne => ?_⟩
      · by_cases hk : k = t.key
        · subst hk
          rw [hrows, if_pos hrowkey, hempty.2, List.nil_append]
          refine .claimed a' _ ?_ ha' rfl ?_ rfl
          · rw [henters.log]
            exact ⟨t, List.mem_append_right _ (List.mem_singleton_self t), hstate⟩
          · rw [hstate']
            rfl
        · rw [hrows, if_neg fun heq => hk heq.symm, henters.others k hk]
          exact ht.inStep k
      · by_cases hk : k = t.key
        · subst hk
          exact henters.locked
        · refine absurd (Prod.ext (henters.others k hk) ?_) hne
          exact (hrows k).trans (if_neg fun heq => hk heq.symm)

/-- An update by a source changes the row of its revision only. -/
theorem rowsOf_of_holds (hids : (executionIds.ids s.db).Nodup) {k : RevisionKey}
    {x new c : Execution} (hc : Holds s.db k x c)
    (hexecutions : db'.executions = putExecution s.db.executions (.updateExecution x new)) :
    rowsOf db' k = [Execution.merge x new c] ∧ ∀ k', k' ≠ k → rowsOf db' k' = rowsOf s.db k' := by
  have hcmem : c ∈ rowsOf s.db k := by
    rw [hc.rows]
    exact List.mem_singleton_self c
  obtain ⟨hcrow, hckey⟩ := mem_rowsOf.1 hcmem
  refine ⟨?_, fun k' hk' => ?_⟩
  · rw [rowsOf_update hexecutions, hc.rows, List.map_singleton, if_pos hc.id]
  · rw [rowsOf_update hexecutions]
    refine (List.map_congr_left fun e he => ?_).trans (List.map_id _)
    obtain ⟨herow, hekey⟩ := mem_rowsOf.1 he
    rw [if_neg]
    · rfl
    · intro hid
      have hec := eq_of_id hids herow hcrow (hid.trans hc.id.symm)
      subst hec
      exact hk' (hekey.symm.trans hckey)

theorem balanced_of_move (h : CommitOf rt s pid p db') (ht : Tidy s) (hu : UniqueIds s.db)
    (hids : (executionIds.ids s.db).Nodup) {k : RevisionKey} {t : StateTransition}
    {x new : Execution} (hx : Source p.history k x) (hentered : entered p.history = [t])
    (hkey : t.key = k) (hfiled : filed p.history = [.updateExecution x new])
    (hstatus : statusFor t.toState = some new.status) (hattempt : new.attempt = x.attempt) :
    Balanced s pid db' := by
  subst hkey
  have hne : t.toState ≠ .requested := by
    intro hreq
    rw [hreq] at hstatus
    cases hstatus
  have henters := enters_of_commit h hentered hne
  obtain ⟨a, ha, hlegal⟩ := henters.legal
  obtain ⟨a', ha', hstate'⟩ := henters.state
  obtain ⟨c, hc⟩ := ht.holds hu hids h.rows h.proc (by rw [ha]; rfl) hx
  have hexecutions := h.executions
  rw [hfiled] at hexecutions
  obtain ⟨hrow, hothers⟩ := rowsOf_of_holds hids hc hexecutions
  have hcmem : c ∈ rowsOf s.db t.key := by
    rw [hc.rows]
    exact List.mem_singleton_self c
  obtain ⟨-, hcattempt, hyes, b, hb, hcstatus⟩ := (ht.inStep t.key).of_mem hcmem
  refine ⟨fun k => ?_, fun k hne => ?_⟩
  · by_cases hk : k = t.key
    · subst hk
      have hchanged : (Execution.merge x new c).status = new.status := by
        show (if new.status = x.status then c.status else new.status) = new.status
        split
        · next heq =>
            -- The row that was read had the status of an earlier, less deep state.
            obtain ⟨r, a₀, hr, hlater, ha₀, hstatus₀⟩ := hc.earlier
            have hchain₀ := (hr.valid ha₀).core.chain
            have hchain := ((h.rows t.key).valid ha).core.chain
            obtain ⟨u, hu, hus⟩ := hchain₀.getLast?
            have hmem := hlater.log.subset (List.mem_of_getLast? hu)
            have hle := hchain.rank_le u hmem
            rw [hus] at hle
            rw [heq] at hstatus
            have hback := statusFor_rank hstatus₀ hstatus
            have hlt := rank_lt_of_isLegal hlegal
            omega
        · rfl
      refine .claimed a' _ ?_ ha' hrow ?_ ?_
      · obtain ⟨u, hu, hreval⟩ := hyes
        rw [henters.log]
        exact ⟨u, List.mem_append_left _ hu, hreval⟩
      · rw [hstate', hchanged]
        exact hstatus
      · show (if new.attempt = x.attempt then c.attempt else new.attempt) = 1
        rw [if_pos hattempt]
        exact hcattempt
    · rw [hothers k hk, henters.others k hk]
      exact ht.inStep k
  · by_cases hk : k = t.key
    · subst hk
      exact henters.locked
    · exact absurd (Prod.ext (henters.others k hk) (hothers k hk)) hne

theorem balanced_of_keep (h : CommitOf rt s pid p db') (ht : Tidy s) (hu : UniqueIds s.db)
    (hids : (executionIds.ids s.db).Nodup) {k : RevisionKey} {x new : Execution}
    (hx : Source p.history k x) (hlocked : LockedIn p.history k .executionUnknown)
    (hentered : entered p.history = []) (hfiled : filed p.history = [.updateExecution x new])
    (hstatus : new.status = .unknown) (hattempt : new.attempt = x.attempt) :
    Balanced s pid db' := by
  obtain ⟨e, he, hkheld, a, ha, hstate⟩ := hlocked
  -- What the process saw under the lock is what the store holds now.
  have hpage := ht.current k pid p h.proc e he hkheld
  have hrevision : revision e.1 k = revision s.db k := congrArg Prod.fst hpage
  have hintent : s.db.intent? k = some a := (congrArg Revision.intent hrevision).symm.trans ha
  have hlock : s.locks (.intent k) = some pid :=
    (h.exactly.locks _).2 (held_of_mem_reads he hkheld)
  obtain ⟨c, hc⟩ := ht.holds hu hids h.rows h.proc (by rw [hintent]; rfl) hx
  have hexecutions := h.executions
  rw [hfiled] at hexecutions
  obtain ⟨hrow, hothers⟩ := rowsOf_of_holds hids hc hexecutions
  have hcmem : c ∈ rowsOf s.db k := by
    rw [hc.rows]
    exact List.mem_singleton_self c
  -- The row that the update was read from is the row of the revision.
  obtain ⟨-, hcattempt, hyes, b, hb, hcstatus⟩ := (ht.inStep k).of_mem hcmem
  have hlog : ∀ k', (revision db' k').log = (revision s.db k').log := by
    intro k'
    rcases h.revision_cases k' with hsame | ⟨-, hlog⟩
    · rw [hsame]
    · rw [hlog, hentered, List.append_nil]
  refine ⟨fun k' => ?_, fun k' hne => ?_⟩
  · refine Paired.of_log ?_ (h.rows k') (h.rows' k') (h.later k') (hlog k')
    by_cases hk : k' = k
    · subst hk
      have hab : b = a := Option.some.inj (hb.symm.trans hintent)
      subst hab
      rw [hstate] at hcstatus
      have hcunknown : c.status = .unknown := (Option.some.inj hcstatus).symm
      refine .claimed b _ hyes hb hrow ?_ ?_
      · show _ = some (if new.status = x.status then c.status else new.status)
        rw [hstate, hcunknown, hstatus, ite_self]
        rfl
      · show (if new.attempt = x.attempt then c.attempt else new.attempt) = 1
        rw [if_pos hattempt]
        exact hcattempt
    · rw [hothers k' hk]
      exact ht.inStep k'
  · by_cases hk : k' = k
    · subst hk
      exact hlock
    · rcases h.revision_cases k' with hsame | ⟨hlock', -⟩
      · exact absurd (Prod.ext hsame (hothers k' hk)) hne
      · exact hlock'

/-- Every deed keeps the two tables in step. -/
theorem balanced_of_commit (h : CommitOf rt s pid p db') (ht : Tidy s) (hu : UniqueIds s.db)
    (hids : (executionIds.ids s.db).Nodup) : Balanced s pid db' := by
  cases h.deed with
  | plain hfiled hentered hescalated hasked => exact balanced_of_plain h ht.inStep hfiled hentered
  | claim k t σ keys hσ hk hentered hkey hstate hescalated hfiled hasked =>
      exact balanced_of_claim h ht hu hσ hk hentered hkey hstate hfiled
  | move k t x new hx hentered hkey hstate hfiled hstatus hattempt hcount hevident hescalated
      hasked =>
      exact balanced_of_move h ht hu hids hx hentered hkey hfiled hstatus hattempt
  | keep k x answer dbNow commandId hx hkey hread hlocked hasked hentered hfiled hescalated =>
      exact balanced_of_keep h ht hu hids hx hlocked hentered hfiled rfl rfl

end Deeds

/-! ## Runs -/

section Runs

variable {rt : Runtime} {allowed : Op → Prop} {s s' : State}

/-- The watch of the books, with nothing said about when a lookup is due. -/
theorem filed_of_run (h : Run rt allowed s) :
    (filing rt fun _ _ => True).Followed (fun _ _ _ => True) s :=
  (filing_of_run (fun _ _ _ _ _ _ _ => trivial)
    (fun op _ => by cases op <;> first | exact trivial | exact fun _ => trivial) h).1

/-- What is known of a commit that the trace has recorded. -/
theorem commitOf_of_event (h : Run rt allowed s) (h' : Run rt allowed s') {pid : Nat}
    {p : Proc Db Error Result Op} (hp : s.procs pid = some p)
    (htrace : s'.trace = s.event pid p .commit :: s.trace) (hdb : s'.db = p.session.view s.db) :
    CommitOf rt s pid p s'.db := by
  have hadmits : ∀ op, allowed op → Admits AnyPolicy op := fun op _ => admits_any op
  have hmem : s.event pid p .commit ∈ s'.trace := by
    rw [htrace]
    exact List.mem_cons_self
  have hmust : Settled rt p.history := ((filed_of_run h').trace _ hmem).2
  have hreach := h
  obtain ⟨assignments, bundles, hreach⟩ := hreach
  exact
    { proc := hp
      exactly := (exact_of_reachable hreach).procs pid p hp
      deed := hmust.deed
      twins := hmust.twins
      committed := (recorded_of_run covers_any hadmits h' _ hmem).committed rfl
      db := hdb
      rows := (sound_of_run covers_any hadmits h).rows
      rows' := (sound_of_run covers_any hadmits h').rows }

/-- A step leaves the store alone, or it is a commit of which all is known. -/
theorem commitOf_of_moves (h : Run rt allowed s) (h' : Run rt allowed s')
    (hs : Sys.Moves (code rt) allowed s s') : s'.db = s.db ∨
      ∃ pid p, CommitOf rt s pid p s'.db ∧ s'.trace = s.event pid p .commit :: s.trace := by
  cases hs with
  | launch op hop => exact Or.inl rfl
  | draw v hp hw hprog => exact Or.inl rfl
  | send hp hw hprog => exact Or.inl rfl
  | answer a hp hw hprog => exact Or.inl rfl
  | kill hp => exact Or.inl rfl
  | tick d => exact Or.inl rfl
  | @accept pid p st k e hp hw hprog he =>
      by_cases hst : st = .commit
      · subst hst
        refine Or.inr ⟨pid, p, commitOf_of_event h h' hp rfl ?_, rfl⟩
        simp only [Sys.reply?, Option.some.injEq] at he
        subst he
        rfl
      · exact Or.inl (Sys.reply_db he hst)

/-- A row lock keeps the revision as it was shown. -/
theorem revision_current (h : Run rt allowed s) (k : RevisionKey) :
    Current (D := Db) (fun db => revision db k) touchesBooks (.intent k) s := by
  obtain ⟨assignments, bundles, h⟩ := h
  refine h.invariant (J := fun s => Current (D := Db) (fun db => revision db k) touchesBooks
    (.intent k) s) (fun _ _ hp => by cases hp) fun s s' hr hr' hs hJ => ?_
  refine hJ.step (exact_of_reachable hr)
    (fun db n w hw => congrArg Prod.fst (untouching_pageOf k db n w hw)) hs ?_
  intro pid p hp htrace hne
  have hmem : s.event pid p .commit ∈ s'.trace := by
    rw [htrace]
    exact List.mem_cons_self
  have hrec := recorded_of_run (P := AnyPolicy) covers_any (fun op _ => admits_any op)
    (.of assignments bundles hr') _ hmem
  have hdb : s'.db = (s.event pid p .commit).after := hs.db_of_commit htrace
  rw [hdb] at hne
  obtain ⟨-, -, hlock, -⟩ := (hrec.committed rfl).moved hne
  exact hlock

/-- An older store has no more intents. -/
theorem UniqueIds.older {db db' : Store} (h : UniqueIds db')
    (hlater : ∀ k, Later (revision db k) (revision db' k)) : UniqueIds db := by
  have hsome : ∀ k, (db.intent? k).isSome → (db'.intent? k).isSome := by
    intro k hk
    obtain ⟨a, ha⟩ := Option.isSome_iff_exists.1 hk
    obtain ⟨a', ha', -⟩ := (hlater k).identity a ha
    rw [show db'.intent? k = some a' from ha']
    rfl
  exact fun k k' hk hk' => h k k' (hsome k hk) (hsome k' hk')

/-- Execution identifiers are distinct in every run. -/
theorem executionIds_nodup (h : Run rt allowed s) : (executionIds.ids s.db).Nodup := by
  obtain ⟨assignments, bundles, h⟩ := h
  suffices hdistinct : executionIds.Distinct s from hdistinct.store
  refine PrimaryKey.distinct_of_reachable (fun h st hmust => ?_)
    (fun s hr => filed_of_run (.of assignments bundles hr)) List.nodup_nil h
  cases st with
  | write w =>
      cases w with
      | insertExecution row => cases hmust
      | _ => rfl
  | insert k w =>
      intro i hi
      cases w with
      | insertExecution row =>
          cases hi
          exact hmust.1
      | _ => cases hi
  | _ => exact trivial

theorem tidy_step (h : Run rt allowed s) (h' : Run rt allowed s')
    (hs : Sys.Moves (code rt) allowed s s') (hJ : UniqueIds s.db → Tidy s)
    (hu : UniqueIds s'.db) : Tidy s' := by
  have hx : AllExact s := by
    obtain ⟨_, _, hreach⟩ := h
    exact exact_of_reachable hreach
  have hcases := commitOf_of_moves h h' hs
  have hlater : ∀ k, Later (revision s.db k) (revision s'.db k) := by
    intro k
    rcases hcases with hdb | ⟨pid, p, hc, -⟩
    · rw [hdb]
      exact .refl _
    · exact hc.later k
  have hus := hu.older hlater
  have ht := hJ hus
  -- Rows are added and updated, none is removed.
  have hkept : ∀ x ∈ s.db.executions, ∃ x' ∈ s'.db.executions, x'.id = x.id ∧ x'.key = x.key := by
    rcases hcases with hdb | ⟨pid, p, hc, -⟩
    · rw [hdb]
      exact fun x hx => ⟨x, hx, rfl, rfl⟩
    · rw [hc.executions]
      exact kept_foldl _ _
  have hwf := (sound_of_run (P := AnyPolicy) covers_any (fun op _ => admits_any op) h).rows
  have hbalanced : InStep s'.db ∧ ∀ pid p, s'.trace = s.event pid p .commit :: s.trace →
      ∀ k, pageOf k s'.db ≠ pageOf k s.db → s.locks (.intent k) = some pid := by
    rcases hcases with hdb | ⟨pid, p, hc, htrace⟩
    · rw [hdb]
      exact ⟨ht.inStep, fun _ _ _ k hne => absurd rfl hne⟩
    · have hb := balanced_of_commit hc ht hus (executionIds_nodup h)
      refine ⟨hb.inStep, fun pid' p' htrace' k hne => ?_⟩
      rw [htrace, List.cons.injEq] at htrace'
      have hpid : pid = pid' := congrArg Event.pid htrace'.1
      exact hpid ▸ hb.locked k hne
  exact
    { inStep := hbalanced.1
      current := fun k => (ht.current k).step hx (untouching_pageOf k) hs
        fun pid p _ htrace hne => hbalanced.2 pid p htrace k hne
      grown := ht.grown.step Continue.trans hx untouching_booksOf hs
        ⟨hwf, ht.inStep, hlater, hkept⟩ }

/-- In every run whose intents have identifiers of their own the two tables are in step. -/
theorem tidy_of_run (h : Run rt allowed s) (hu : UniqueIds s.db) : Tidy s := by
  obtain ⟨assignments, bundles, h⟩ := h
  revert hu
  refine h.invariant (J := fun s => UniqueIds s.db → Tidy s) (fun _ => ?_)
    fun s s' hr hr' hs hJ => tidy_step (.of assignments bundles hr) (.of assignments bundles hr') hs hJ
  exact
    { inStep := fun k => .unclaimed (fun t ht => absurd ht List.not_mem_nil) rfl
      current := fun _ _ _ hp => by cases hp
      grown := fun _ _ hp => by cases hp }

/-! ## Evaluations -/

theorem evaluations_foldl (pending : List (Nat × Write)) (db : Store) :
    let view := pending.foldl (fun s e => Store.apply s e.1 e.2) db
    view.risks.map (·.key) =
        db.risks.map (·.key) ++ (pending.map Prod.snd).filterMap riskKey? ∧
      view.policies.map (·.key) =
        db.policies.map (·.key) ++ (pending.map Prod.snd).filterMap policyKey? := by
  induction pending generalizing db with
  | nil => exact ⟨(List.append_nil _).symm, (List.append_nil _).symm⟩
  | cons e rest ih =>
      obtain ⟨n, w⟩ := e
      obtain ⟨hr, hp⟩ := ih (db.apply n w)
      refine ⟨hr.trans ?_, hp.trans ?_⟩
      · cases w <;> first
          | rfl
          | simp only [Store.apply, List.map_append, List.append_assoc]; rfl
      · cases w <;> first
          | rfl
          | simp only [Store.apply, List.map_append, List.append_assoc]; rfl

/-- The risk rows and the policy rows are about the same revisions, in the same order. -/
theorem twins_of_run (h : Run rt allowed s) :
    s.db.risks.map (·.key) = s.db.policies.map (·.key) := by
  obtain ⟨assignments, bundles, h⟩ := h
  refine h.invariant (J := fun s => (s.db : Store).risks.map (·.key) = (s.db : Store).policies.map (·.key)) rfl
    fun s s' hr hr' hs hJ => ?_
  rcases commitOf_of_moves (.of assignments bundles hr) (.of assignments bundles hr') hs with
    hdb | ⟨pid, p, hc, -⟩
  · rw [hdb]
    exact hJ
  · obtain ⟨hrisks, hpolicies⟩ := evaluations_foldl p.session.pending s.db
    have hpending : p.session.pending.map Prod.snd = History.writes p.history := hc.exactly.pending
    have htwins : (History.writes p.history).filterMap riskKey? =
        (History.writes p.history).filterMap policyKey? := hc.twins
    rw [hc.db]
    refine hrisks.trans (Eq.trans ?_ hpolicies.symm)
    rw [hJ, hpending, htwins]

/-- A revision has as many risk rows as policy rows. -/
theorem length_risksOf (h : Run rt allowed s) (k : RevisionKey) :
    (s.db.risksOf k).length = (s.db.policiesOf k).length := by
  have hcount : ∀ {α : Type} (key : α → RevisionKey) (l : List α),
      (l.filter fun x => key x = k).length = ((l.map key).filter fun x => x = k).length := by
    intro α key l
    rw [List.filter_map, List.length_map]
    rfl
  unfold Store.risksOf Store.policiesOf
  rw [hcount (fun r : RiskEvaluationRow => r.key), hcount (fun r : PolicyEvaluationRow => r.key),
    twins_of_run h]

end Runs

end HitlOps.Lifecycle
