import Mathlib.Data.List.Induction
import HitlOps.Delivery.Publisher

/-!
# The chains of the aggregates

A transaction writes at most one event, and it holds the lock of the aggregate since it searched and
read it. So the event continues the committed chain, and its cause is new.
-/

set_option autoImplicit false

namespace HitlOps.Delivery

open HitlOps.Python HitlOps.Domain HitlOps.Infrastructure HitlOps.Transaction

/-! ## The last event -/

section Last

variable {rt : Runtime} {previousHash : String} {sequence : Int}

/-- The last event by sequence of a chain is its last row. -/
theorem lastEvent_of_linked {rows : List AuditEventRow} (h : Linked rt previousHash sequence rows) :
    lastEvent? rows = rows.getLast? := by
  induction rows using List.reverseRecOn with
  | nil => rfl
  | append_singleton init e ih =>
      obtain ⟨hinit, -, hseq, -⟩ := Linked.append_iff.1 h
      rw [List.getLast?_concat]
      cases init using List.reverseRecOn with
      | nil => rfl
      | append_singleton front l _ =>
          have hlast := ih hinit
          obtain ⟨-, -, hseq', -⟩ := Linked.append_iff.1 hinit
          rw [List.length_append, List.length_singleton] at hseq
          cases hfront : front ++ [l] with
          | nil => exact absurd hfront (by simp)
          | cons first rest =>
              rw [hfront, ← hfront, List.getLast?_concat, hfront] at hlast
              show some ((rest ++ [e]).foldl laterEvent first) = some e
              rw [List.foldl_append]
              have hfold : rest.foldl laterEvent first = l := Option.some.inj hlast
              rw [hfold]
              show some (if l.sequence < e.sequence then e else l) = some e
              rw [if_pos (by omega)]

/-- The next event continues the chain. -/
theorem linked_nextEvent {pr : PostRuntime} {rows : List AuditEventRow}
    (h : Linked pr.toRuntime zeroHash 1 rows) (request : AuditRequest) :
    Linked pr.toRuntime zeroHash 1 (rows ++ [nextEvent pr request rows]) := by
  have hlast := lastEvent_of_linked h
  refine Linked.append_iff.2 ⟨h, ?_, ?_, rfl⟩
  · show ((lastEvent? rows).map (·.eventHash)).getD zeroHash = _
    rw [hlast]
    rfl
  · show ((lastEvent? rows).map fun e => e.sequence + 1).getD 1 = _
    rw [hlast]
    induction rows using List.reverseRecOn with
    | nil => rfl
    | append_singleton init e _ =>
        obtain ⟨-, -, hseq, -⟩ := Linked.append_iff.1 h
        rw [List.getLast?_concat, List.length_append, List.length_singleton]
        show e.sequence + 1 = _
        omega

end Last

/-! ## Pending events -/

/-- The event that a write adds. -/
def event? : PostWrite → Option AuditEventRow
  | .insertEvent row => some row
  | _ => none

theorem events_foldl (pending : List (Nat × PostWrite)) (s : Mailbox) :
    (pending.foldl (fun s e => s.apply e.1 e.2) s).events =
      s.events ++ (pending.map Prod.snd).filterMap event? := by
  induction pending generalizing s with
  | nil => exact (List.append_nil _).symm
  | cons e rest ih =>
      obtain ⟨n, w⟩ := e
      rw [List.foldl_cons, ih]
      cases w with
      | insertMessage id topic payload createdAt => rfl
      | updateMessage old new => rfl
      | insertEvent row => exact List.append_assoc _ _ _

section Pending

variable {pr : PostRuntime} {direct : Prop} {h : List (Obs Post)}

theorem Prepares.during {h' : List (Obs Post)} {request : AuditRequest} {row : AuditEventRow}
    (hp : Prepares pr h request row) (hd : During h h') : Prepares pr h' request row := by
  obtain ⟨⟨e₁, he₁, hsearched⟩, e₂, he₂, hnext⟩ := hp
  exact ⟨⟨e₁, hd.reads he₁, hsearched⟩, e₂, hd.reads he₂, hnext⟩

/-- The obligation of an event at a place of the pending writes. -/
theorem event_of_split (hk : (postWatch pr direct).Kept h) {l r : List PostWrite}
    {row : AuditEventRow} (hw : History.writes h = l ++ .insertEvent row :: r) :
    l = [] ∧ ∃ request, Prepares pr h request row ∧ (direct ∨ Delivers pr h request) := by
  obtain ⟨h', hl, -, hd, hmust⟩ := hk.split hw
  rcases hmust with hmust | ⟨k, hmust⟩
  · exact hmust.elim
  · obtain ⟨hempty, request, hp, hcaller⟩ := hmust
    exact ⟨hl ▸ hempty, request, hp.during hd, hcaller.imp id fun hdel => hdel.during hd⟩

/-- A transaction has written no event, or one. -/
theorem events_of_kept (hk : (postWatch pr direct).Kept h) :
    (History.writes h).filterMap event? = [] ∨
      ∃ row request, (History.writes h).filterMap event? = [row] ∧ Prepares pr h request row ∧
        (direct ∨ Delivers pr h request) := by
  cases hws : History.writes h with
  | nil => exact Or.inl rfl
  | cons w rest =>
      -- An event is the first write of its transaction.
      have hrest : rest.filterMap event? = [] := by
        rw [List.filterMap_eq_nil_iff]
        intro v hv
        cases v with
        | insertEvent row =>
            obtain ⟨l, r, rfl⟩ := List.append_of_mem hv
            have hl := (event_of_split hk (l := w :: l) hws).1
            cases hl
        | _ => rfl
      rw [List.filterMap_cons, hrest]
      cases w with
      | insertEvent row =>
          obtain ⟨-, request, hp, hcaller⟩ := event_of_split hk (l := []) hws
          exact Or.inr ⟨row, request, rfl, hp, hcaller⟩
      | _ => exact Or.inl rfl

end Pending

/-! ## The invariant -/

/-- Every aggregate has a chain with distinct causes, and a process that holds its lock has seen the
chain as it is. -/
structure Chained (pr : PostRuntime) (s : PostState) : Prop where
  current : ∀ a, Current (fun m : Mailbox => m.eventsOf a) (fun _ => true) (advisoryKey pr a) s
  linked : ∀ a, Linked pr.toRuntime zeroHash 1 (s.db.eventsOf a)
  causes : ∀ a, ((s.db.eventsOf a).filterMap (·.causationId)).Nodup

section Step

variable {pr : PostRuntime} {direct : Prop} {allowed : PostOp → Prop} {s s' : PostState}

/-- What a commit does to the events: nothing, or it adds the next event of an aggregate whose lock
the process holds; no event of the aggregate has the cause of the new one. -/
theorem events_of_commit (hx : AllExact s)
    (hf : (postWatch pr direct).Followed (fun _ _ _ => True) s) (hc : Chained pr s) {pid : Nat}
    {p : Proc Post Error PostResult PostOp} (hp : s.procs pid = some p) :
    (p.session.view s.db).events = s.db.events ∨
      ∃ request, (p.session.view s.db).events =
          s.db.events ++ [nextEvent pr request (s.db.eventsOf request.aggregate)] ∧
        s.locks (advisoryKey pr request.aggregate) = some pid ∧
        (∀ c, request.causationId = some c →
          ∀ e ∈ s.db.eventsOf request.aggregate, e.causationId ≠ some c) ∧
        (direct ∨ Delivers pr p.history request) := by
  have hexact := hx.procs pid p hp
  have hview : (p.session.view s.db).events =
      s.db.events ++ (History.writes p.history).filterMap event? := by
    rw [← hexact.pending]
    exact events_foldl _ _
  rw [hview]
  rcases events_of_kept (hf.procs pid p hp).1 with hnone | ⟨row, request, hrow, hprep, hcaller⟩
  · rw [hnone, List.append_nil]
    exact Or.inl rfl
  · obtain ⟨⟨e₁, he₁, hkey₁, hdup⟩, e₂, he₂, hkey₂, hnext⟩ := hprep
    have hcur : ∀ e ∈ seenHere p.history, advisoryKey pr request.aggregate ∈ e.2 →
        e.1.eventsOf request.aggregate = s.db.eventsOf request.aggregate :=
      hc.current request.aggregate pid p hp
    refine Or.inr ⟨request, ?_, (hexact.locks _).2 (held_of_mem_reads he₁ hkey₁), ?_, hcaller⟩
    · rw [hrow, hnext, hcur e₂ he₂ hkey₂]
    · intro cause hcause e he hec
      have hmem : e ∈ duplicates e₁.1 request := by
        unfold duplicates
        rw [hcause]
        refine List.mem_filter.2 ⟨?_, decide_eq_true hec⟩
        rw [hcur e₁ he₁ hkey₁]
        exact he
      rw [hdup] at hmem
      exact List.not_mem_nil hmem

theorem nextEvent_aggregate (request : AuditRequest) (rows : List AuditEventRow) :
    (nextEvent pr request rows).aggregate = request.aggregate := rfl

theorem eventsOf_append {m m' : Mailbox} {row : AuditEventRow} (h : m'.events = m.events ++ [row])
    (a : Aggregate) :
    m'.eventsOf a = if row.aggregate = a then m.eventsOf a ++ [row] else m.eventsOf a := by
  unfold Mailbox.eventsOf
  rw [h, List.filter_append, List.filter_cons]
  split
  · next ha => rw [if_pos (of_decide_eq_true ha)]; rfl
  · next ha => rw [if_neg (fun heq => ha (decide_eq_true heq)), List.filter_nil, List.append_nil]

theorem eventsOf_congr {m m' : Mailbox} (h : m'.events = m.events) (a : Aggregate) :
    m'.eventsOf a = m.eventsOf a := by
  unfold Mailbox.eventsOf
  rw [h]

theorem Chained.step (hx : AllExact s) (hf : (postWatch pr direct).Followed (fun _ _ _ => True) s)
    (hs : Sys.Moves (code pr) allowed s s') (hc : Chained pr s) : Chained pr s' := by
  -- Events of an aggregate are only added under its advisory lock.
  have hcurrent : ∀ a, Current (fun m : Mailbox => m.eventsOf a) (fun _ => true)
      (advisoryKey pr a) s' := by
    intro a
    refine Current.step hx (fun _ _ _ hw => by cases hw) hs (fun pid p hp ht hne => ?_) (hc.current a)
    rw [hs.db_of_commit ht] at hne
    rcases events_of_commit hx hf hc hp with hsame | ⟨request, hnew, hlock, -, -⟩
    · exact absurd (eventsOf_congr hsame a) hne
    · by_cases ha : request.aggregate = a
      · exact ha ▸ hlock
      · refine absurd ?_ hne
        show Mailbox.eventsOf _ a = _
        rw [eventsOf_append hnew, nextEvent_aggregate, if_neg ha]
  rcases hs.db_cases with ⟨hdb, -⟩ | ⟨pid, p, hp, hdb, -⟩
  · exact ⟨hcurrent, fun a => hdb ▸ hc.linked a, fun a => hdb ▸ hc.causes a⟩
  · rcases events_of_commit hx hf hc hp with hsame | ⟨request, hnew, -, hcause, -⟩
    · rw [← hdb] at hsame
      refine ⟨hcurrent, fun a => ?_, fun a => ?_⟩
      · rw [eventsOf_congr hsame]
        exact hc.linked a
      · rw [eventsOf_congr hsame]
        exact hc.causes a
    · rw [← hdb] at hnew
      refine ⟨hcurrent, fun a => ?_, fun a => ?_⟩
      · rw [eventsOf_append hnew, nextEvent_aggregate]
        split
        · next ha => exact ha ▸ linked_nextEvent (hc.linked _) request
        · exact hc.linked a
      · rw [eventsOf_append hnew, nextEvent_aggregate]
        split
        · next ha =>
            subst ha
            rw [List.filterMap_append, List.filterMap_cons, nextEvent_causation]
            cases hc' : request.causationId with
            | none => simpa using hc.causes request.aggregate
            | some c =>
                -- The writer has searched the events for this cause under the lock.
                refine List.nodup_append.2 ⟨hc.causes _, List.pairwise_singleton _ c, ?_⟩
                intro c' hc'' d hd
                rw [List.filterMap_nil, List.mem_singleton] at hd
                rintro rfl
                obtain ⟨e, he, hec⟩ := List.mem_filterMap.1 hc''
                exact hcause c hc' e he (hd ▸ hec)
        · exact hc.causes a

end Step

variable {pr : PostRuntime} {allowed : PostOp → Prop} {s : PostState}

/-- In every run the aggregates have chains. -/
theorem chained_of_reachable (h : PostRun pr allowed s) : Chained pr s := by
  have hempty : Chained pr (Sys.initial (⟨[], []⟩ : Mailbox)) :=
    ⟨fun _ _ _ hp => (by cases hp), fun _ => .nil, fun _ => List.nodup_nil⟩
  refine h.invariant hempty fun s s' hr _ hs hc => ?_
  exact hc.step (exact_of_reachable hr) (duties_of_reachable (fun _ _ => trivial) hr) hs

end HitlOps.Delivery
