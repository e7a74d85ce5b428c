import HitlOps.Lifecycle.InStep
import HitlOps.Lifecycle.Judging
import HitlOps.Transaction.Service

/-!
# The verdicts of a run

What `judging` says about whole runs. The row that a transaction has locked is the committed row of
its commit; a deadline that is set stays as it is in every later store; and the verdicts of a log are
the decisions of its revision.
-/

set_option autoImplicit false

namespace HitlOps.Lifecycle

open HitlOps.Python HitlOps.Domain HitlOps.Infrastructure HitlOps.Application HitlOps.Adapters
open HitlOps.Transaction

variable {rt : Runtime} {allowed : Op → Prop} {s s' : State} {e : Entry} {k : RevisionKey}

/-! ## Commits -/

/-- What a committed write rests on. -/
theorem restsOn_of_event (h : Run rt allowed s) (he : e ∈ s.trace) {w : Write}
    (hw : w ∈ History.writes e.history) : ∃ h', During h' e.history ∧ RestsOn e.op h' w := by
  obtain ⟨assignments, bundles, h⟩ := h
  have hfollowed := followedEach_of_reachable (fun op _ => judging_code rt op) h
  obtain ⟨l, r, hsplit⟩ := List.append_of_mem hw
  obtain ⟨h', -, -, hduring, hmust⟩ := (hfollowed.trace e he).1.split hsplit
  rcases hmust with hmust | ⟨key, hmust⟩
  · exact ⟨h', hduring, hmust⟩
  · exact ⟨h', hduring, hmust⟩

/-- A commit has stored what it has entered. -/
theorem matched_of_event (h : Run rt allowed s) (he : e ∈ s.trace) (hact : e.act = .commit) :
    Matched e.history := by
  obtain ⟨assignments, bundles, h⟩ := h
  have hmust := ((followedEach_of_reachable (fun op _ => judging_code rt op) h).trace e he).2
  rw [hact] at hmust
  exact hmust

/-- The row that an event has locked is the row that it found. -/
theorem intent?_of_locked (h : Run rt allowed s) (he : e ∈ s.trace) {a : ActionIntent}
    (hl : LockedRow e.history k a) : e.db.intent? k = some a := by
  obtain ⟨assignments, bundles, h⟩ := h
  obtain ⟨r, hr, hheld, ha⟩ := hl
  have hrow : revision r.1 k = revision e.db k :=
    read_of_event (fun _ hs => revision_current (.of assignments bundles hs) k) h e he r hr hheld
  exact (congrArg Revision.intent hrow).symm.trans ha

/-! ## Logs that grow -/

/-- A log that has left `REQUESTED` does not return. -/
theorem Chain.ne_requested {log ts : List StateTransition} {state state' : IntentState}
    (h : Chain log state) (h' : Chain (log ++ ts) state') (hs : state ≠ .requested) :
    state' ≠ .requested := by
  rintro rfl
  obtain ⟨t, ht, rfl⟩ := h.getLast?
  have hle := h'.rank_le t (List.mem_append_left _ (List.mem_of_getLast? ht))
  revert hle hs
  generalize t.toState = state
  cases state <;> decide

/-- A log that has left `REQUESTED` is not evaluated again. -/
theorem Chain.not_evaluated {log ts : List StateTransition} {state state' : IntentState}
    (h : Chain log state) (h' : Chain (log ++ ts) state') (hs : state ≠ .requested)
    {t : StateTransition} (ht : t ∈ ts) : t.toState ≠ .riskEvaluated := by
  intro heq
  have hlt := h'.rank_lt_of_append h ts rfl t ht
  rw [heq] at hlt
  revert hlt hs
  cases state <;> decide

/-! ## Deadlines -/

/-- Every evaluated intent keeps its deadline from the first store to the second. -/
def Fixed (db db' : Store) : Prop :=
  ∀ k a, db.intent? k = some a → a.state ≠ .requested →
    ∃ a', db'.intent? k = some a' ∧ a'.state ≠ .requested ∧
      a'.approvalExpiresAt = a.approvalExpiresAt

theorem Fixed.refl (db : Store) : Fixed db db := fun _ a ha hs => ⟨a, ha, hs, rfl⟩

theorem Fixed.trans {db db' db'' : Store} (h : Fixed db db') (h' : Fixed db' db'') :
    Fixed db db'' := by
  intro k a ha hs
  obtain ⟨a', ha', hs', heq⟩ := h k a ha hs
  obtain ⟨a'', ha'', hs'', heq'⟩ := h' k a' ha' hs'
  exact ⟨a'', ha'', hs'', heq'.trans heq⟩

/-- The write does not set the deadline of the revision. -/
def Undated (k : RevisionKey) (w : Write) : Prop :=
  ∀ patch, w = .updateIntent k patch → patch.approvalExpiresAt = none

theorem deadline_apply {db : Store} {n : Nat} {w : Write} (hw : Undated k w) {a : ActionIntent}
    (ha : db.intent? k = some a) :
    ∃ a', (db.apply n w).intent? k = some a' ∧ a'.approvalExpiresAt = a.approvalExpiresAt := by
  have hrow : (db.apply n w).intent? k =
      (if target? w = some k then (revision db k).put n w else revision db k).intent :=
    congrArg Revision.intent (revision_apply db n w k)
  have hold : (revision db k).intent = some a := ha
  rw [hrow]
  split
  · next htarget =>
      cases w with
      | insertIntent row =>
          refine ⟨a, ?_, rfl⟩
          show (revision db k).intent.or (some row) = some a
          rw [hold, Option.some_or]
      | updateIntent key patch =>
          have hkey : key = k := Option.some.inj htarget
          have hnone : patch.approvalExpiresAt = none := hw patch (by rw [hkey])
          refine ⟨a.patch patch, ?_, ?_⟩
          · show (revision db k).intent.map (·.patch patch) = some (a.patch patch)
            rw [hold, Option.map_some]
          · show patch.approvalExpiresAt.or a.approvalExpiresAt = a.approvalExpiresAt
            rw [hnone, Option.none_or]
      | _ => exact ⟨a, hold, rfl⟩
  · exact ⟨a, hold, rfl⟩

theorem deadline_foldl (pending : List (Nat × Write)) (db : Store)
    (hw : ∀ w ∈ pending.map Prod.snd, Undated k w) {a : ActionIntent} (ha : db.intent? k = some a) :
    ∃ a', (pending.foldl (fun s e => Store.apply s e.1 e.2) db).intent? k = some a' ∧
      a'.approvalExpiresAt = a.approvalExpiresAt := by
  induction pending generalizing db a with
  | nil => exact ⟨a, ha, rfl⟩
  | cons e rest ih =>
      obtain ⟨a₁, ha₁, heq₁⟩ := deadline_apply (n := e.1) (hw e.2 List.mem_cons_self) ha
      obtain ⟨a', ha', heq⟩ := ih (db.apply e.1 e.2) (fun w hmem => hw w (List.mem_cons_of_mem _ hmem)) ha₁
      exact ⟨a', ha', heq.trans heq₁⟩

/-- A commit enters rows of a revision that it moves only. -/
theorem log_of_entered {pid : Nat} {p : Proc Db Error Result Op} {db' : Store}
    (hc : CommitOf rt s pid p db') {t : StateTransition} (ht : t ∈ entered p.history) :
    (revision db' t.key).log = (revision s.db t.key).log ++ entered p.history := by
  rw [hc.db]
  cases hc.committed with
  | untouched hnone same =>
      have hempty : entered p.history = [] := hnone.entered
      rw [hempty] at ht
      exact absurd ht List.not_mem_nil
  | touched k b hb locked hcom valid later same =>
      have hlog : (revision (p.session.view s.db) k).log =
          (revision s.db k).log ++ entered p.history := hcom.log
      have hmem : t ∈ (p.session.view s.db).transitionsOf k := by
        show t ∈ (revision (p.session.view s.db) k).log
        rw [hlog]
        exact List.mem_append_right _ ht
      have hkey : t.key = k := of_decide_eq_true (List.mem_filter.1 hmem).2
      rw [hkey]
      exact hlog

/-- A step fixes the deadlines. -/
theorem fixed_of_moves (h : Run rt allowed s) (h' : Run rt allowed s')
    (hs : Sys.Moves (code rt) allowed s s') : Fixed s.db s'.db := by
  rcases commitOf_of_moves h h' hs with hdb | ⟨pid, p, hc, htrace⟩
  · rw [hdb]
    exact .refl s.db
  intro k a ha hne
  have hchain : Chain (revision s.db k).log a.state := ((hc.rows k).valid ha).core.chain
  have hpending : p.session.pending.map Prod.snd = History.writes p.history := hc.exactly.pending
  have hundated : ∀ w ∈ p.session.pending.map Prod.snd, Undated k w := by
    rintro w hw patch rfl
    rw [hpending] at hw
    by_contra hdated
    have hevent : s.event pid p .commit ∈ s'.trace := by
      rw [htrace]
      exact List.mem_cons_self
    obtain ⟨h₀, hduring, hrests⟩ := restsOn_of_event h' hevent hw
    obtain ⟨t, ht, hkey, hrisk⟩ := hrests hdated
    -- The deadline comes with a second evaluation, but the log is past the first one.
    have hentered : t ∈ entered p.history := entered_of_during hduring t ht
    have hlog := log_of_entered hc hentered
    rw [hkey] at hlog
    obtain ⟨a', ha', -⟩ := (hc.later k).identity a ha
    have hchain' : Chain (revision s'.db k).log a'.state := ((hc.rows' k).valid ha').core.chain
    rw [hlog] at hchain'
    exact hchain.not_evaluated hchain' hne hentered hrisk
  obtain ⟨a', ha', heq⟩ := deadline_foldl p.session.pending s.db hundated ha
  have hrow : s'.db.intent? k = some a' := by
    rw [hc.db]
    exact ha'
  refine ⟨a', hrow, ?_, heq⟩
  have hchain' : Chain (revision s'.db k).log a'.state := ((hc.rows' k).valid hrow).core.chain
  obtain ⟨ts, hts⟩ := (hc.later k).log
  rw [← hts] at hchain'
  exact hchain.ne_requested hchain' hne

/-- The deadlines that an event found are the present ones. -/
theorem fixed_of_event (h : Run rt allowed s) (he : e ∈ s.trace) : Fixed e.db s.db := by
  obtain ⟨assignments, bundles, h⟩ := h
  refine event_le (L := Fixed) Fixed.trans (fun s s' hr hr' hs => ?_) h e he
  exact fixed_of_moves (.of assignments bundles hr) (.of assignments bundles hr') hs

/-- The deadline of a locked row is the present one. -/
theorem deadline_of_locked (h : Run rt allowed s) (he : e ∈ s.trace) {a₀ a : ActionIntent}
    (hl : LockedRow e.history k a₀) (hs : a₀.state ≠ .requested) (ha : s.db.intent? k = some a) :
    a.approvalExpiresAt = a₀.approvalExpiresAt := by
  obtain ⟨a', ha', -, heq⟩ := fixed_of_event h he k a₀ (intent?_of_locked h he hl) hs
  rw [ha, Option.some.injEq] at ha'
  exact ha' ▸ heq

/-! ## Rows -/

/-- The open transaction has written what it has entered and what it has decided. -/
theorem writes_of_rows (h : List (Obs Db)) :
    (∀ t ∈ entered h, Write.insertTransition t ∈ History.writes h) ∧
      ∀ d ∈ decided h, Write.insertDecision d ∈ History.writes h := by
  induction h with
  | nil => exact ⟨fun t ht => absurd ht List.not_mem_nil, fun d hd => absurd hd List.not_mem_nil⟩
  | cons o h ih =>
      obtain ⟨hentered, hdecided⟩ := ih
      -- An observation that adds no row.
      have hsame : o.closes = false → entered (o :: h) = entered h → decided (o :: h) = decided h →
          (∀ t ∈ entered (o :: h), Write.insertTransition t ∈ History.writes (o :: h)) ∧
            ∀ d ∈ decided (o :: h), Write.insertDecision d ∈ History.writes (o :: h) := by
        intro ho he hd
        rw [he, hd]
        have hsub := (writes_prefix_cons (h := h) ho).subset
        exact ⟨fun t ht => hsub (hentered t ht), fun d hd => hsub (hdecided d hd)⟩
      cases o with
      | sent c => cases c <;> exact hsame rfl rfl rfl
      | did st r =>
          cases st with
          | commit =>
              exact ⟨fun t ht => absurd ht List.not_mem_nil, fun d hd => absurd hd List.not_mem_nil⟩
          | rollback =>
              exact ⟨fun t ht => absurd ht List.not_mem_nil, fun d hd => absurd hd List.not_mem_nil⟩
          | draw o => cases o <;> exact hsame rfl rfl rfl
          | mark m => cases m <;> exact hsame rfl rfl rfl
          | write w =>
              cases w with
              | insertTransition row =>
                  refine ⟨fun t ht => ?_, fun d hd => List.mem_append_left _ (hdecided d hd)⟩
                  rcases List.mem_append.1 ht with hold | hnew
                  · exact List.mem_append_left _ (hentered t hold)
                  · rw [List.mem_singleton.1 hnew]
                    exact List.mem_append_right _ (List.mem_singleton_self _)
              | insertDecision row =>
                  refine ⟨fun t ht => List.mem_append_left _ (hentered t ht), fun d hd => ?_⟩
                  rcases List.mem_append.1 hd with hold | hnew
                  · exact List.mem_append_left _ (hdecided d hold)
                  · rw [List.mem_singleton.1 hnew]
                    exact List.mem_append_right _ (List.mem_singleton_self _)
              | _ => exact hsame rfl rfl rfl
          | _ => exact hsame rfl rfl rfl

/-- The log and the decisions of the revision grow by the rows of the commit `e`. -/
structure GrowsBy (k : RevisionKey) (db db' : Store) (e : Entry) : Prop where
  commit : e.act = .commit
  log : db'.transitionsOf k = db.transitionsOf k ++ entered e.history
  decisions : db'.decisionsOf k = db.decisionsOf k ++ decided e.history

/-- A step leaves the log and the decisions of a revision, or they grow by the rows of its commit. -/
theorem grows_of_moves (h : Run rt allowed s) (h' : Run rt allowed s')
    (hs : Sys.Moves (code rt) allowed s s') (k : RevisionKey) :
    (s'.db.transitionsOf k = s.db.transitionsOf k ∧ s'.db.decisionsOf k = s.db.decisionsOf k) ∨
      ∃ e ∈ s'.trace, GrowsBy k s.db s'.db e := by
  rcases commitOf_of_moves h h' hs with hdb | ⟨pid, p, hc, htrace⟩
  · rw [hdb]
    exact Or.inl ⟨rfl, rfl⟩
  by_cases hsame : revision (s.event pid p .commit).after k = revision s.db k
  · rw [hc.db]
    exact Or.inl ⟨congrArg Revision.log hsame, congrArg Revision.decisions hsame⟩
  · obtain ⟨b, -, -, hcom⟩ := hc.committed.moved hsame
    have hevent : s.event pid p .commit ∈ s'.trace := by
      rw [htrace]
      exact List.mem_cons_self
    refine Or.inr ⟨_, hevent, rfl, ?_, ?_⟩
    · rw [hc.db]
      exact hcom.log
    · rw [hc.db]
      exact hcom.decisions

/-- Every row of a log and every decision was committed by an event. -/
theorem rows_of_run (h : Run rt allowed s) (k : RevisionKey) :
    (∀ t ∈ s.db.transitionsOf k, ∃ e ∈ s.trace, e.act = .commit ∧ t ∈ entered e.history) ∧
      ∀ d ∈ s.db.decisionsOf k, ∃ e ∈ s.trace, e.act = .commit ∧ d ∈ decided e.history := by
  obtain ⟨assignments, bundles, h⟩ := h
  refine h.invariant (J := fun s => (∀ t ∈ (s.db : Store).transitionsOf k, ∃ e ∈ s.trace,
    e.act = .commit ∧ t ∈ entered e.history) ∧ ∀ d ∈ (s.db : Store).decisionsOf k, ∃ e ∈ s.trace,
    e.act = .commit ∧ d ∈ decided e.history) ?_ fun s s' hr hr' hs hJ => ?_
  · exact ⟨fun t ht => absurd ht List.not_mem_nil, fun d hd => absurd hd List.not_mem_nil⟩
  obtain ⟨hlog, hdecisions⟩ := hJ
  have hkeep : ∀ {P : Entry → Prop}, (∃ e ∈ s.trace, P e) → ∃ e ∈ s'.trace, P e :=
    fun ⟨e, he, hP⟩ => ⟨e, Joint.trace_of_moves hs e he, hP⟩
  rcases grows_of_moves (.of assignments bundles hr) (.of assignments bundles hr') hs k with
    ⟨hsame, hsame'⟩ | ⟨e, he, hgrows⟩
  · rw [hsame, hsame']
    exact ⟨fun t ht => hkeep (hlog t ht), fun d hd => hkeep (hdecisions d hd)⟩
  · rw [hgrows.log, hgrows.decisions]
    refine ⟨fun t ht => ?_, fun d hd => ?_⟩
    · rcases List.mem_append.1 ht with hold | hnew
      · exact hkeep (hlog t hold)
      · exact ⟨e, he, hgrows.commit, hnew⟩
    · rcases List.mem_append.1 hd with hold | hnew
      · exact hkeep (hdecisions d hold)
      · exact ⟨e, he, hgrows.commit, hnew⟩

/-! ## Verdicts -/

/-- The verdicts of a log are the decisions of its revision, in their order. -/
theorem matched_of_run (h : Run rt allowed s) (k : RevisionKey) :
    List.Forall₂ Pronounces (verdicts (s.db.transitionsOf k)) (s.db.decisionsOf k) := by
  obtain ⟨assignments, bundles, h⟩ := h
  refine h.invariant (J := fun s => List.Forall₂ Pronounces
    (verdicts ((s.db : Store).transitionsOf k)) ((s.db : Store).decisionsOf k)) .nil
    fun s s' hr hr' hs hJ => ?_
  have hrun' : Run rt allowed s' := .of assignments bundles hr'
  rcases grows_of_moves (.of assignments bundles hr) hrun' hs k with
    ⟨hlog, hdecisions⟩ | ⟨e, he, hgrows⟩
  · rw [hlog, hdecisions]
    exact hJ
  · rw [hgrows.log, hgrows.decisions, verdicts, List.filter_append]
    exact List.rel_append hJ (matched_of_event hrun' he hgrows.commit)

end HitlOps.Lifecycle
