import HitlOps.Api.Queries
import HitlOps.Lifecycle.Keys
import HitlOps.Paging
import HitlOps.Properties.Log
import HitlOps.Transaction.Reading

/-!
# Reading the events of an intent

A client that follows `next_cursor` from the start to the end receives the transition log of the last
page's store, each row once and in order, however the log grows between the requests.
-/

set_option autoImplicit false

namespace HitlOps.Properties

open HitlOps.Python HitlOps.Domain HitlOps.Infrastructure HitlOps.Application HitlOps.Transaction
open HitlOps.Lifecycle HitlOps.Api

/-! ## Responses -/

/-- The `events` of a response. -/
def eventsOf (body : Dict) : List Json :=
  match body.get? "events" with
  | some (.list items) => items
  | _ => []

/-- The `next_cursor` of a response. -/
def nextCursor (body : Dict) : Option Nat :=
  match body.get? "next_cursor" with
  | some (.int n) => some n.toNat
  | _ => none

theorem eventsOf_eventsBody (rt : Runtime) (query : EventsQuery) (items : List StateTransition)
    (rows : List AuditEventRow) :
    eventsOf (eventsBody rt query items rows) = items.map (transitionItem rt) := rfl

theorem nextCursor_eventsBody (rt : Runtime) (query : EventsQuery) (items : List StateTransition)
    (rows : List AuditEventRow) :
    nextCursor (eventsBody rt query items rows) =
      Paging.next StateTransition.sequence query.limit items := by
  have hfield : (eventsBody rt query items rows).get? "next_cursor" =
      some (((if items.length = query.limit then items.getLast? else none).map
        fun r => Json.int r.sequence).getD .null) := rfl
  unfold nextCursor Paging.next
  rw [hfield]
  by_cases hfull : items.length = query.limit
  · rw [if_pos hfull, if_pos hfull]
    cases items.getLast? with
    | none => rfl
    | some r => rfl
  · rw [if_neg hfull, if_neg hfull]
    rfl

/-! ## One request -/

section Request

variable {rt : Runtime} {audit : List AuditEventRow} {actor : AuthenticatedActor} {intentId : UUID}
  {query : EventsQuery} {db db' : Store} {row : ActionIntent}

/-- A scan reads one store, and returns its rows in some order. -/
theorem reads_scan_bind {β γ : Type} {q : Store → List β} {f : List β → M γ} {views : List Store}
    {r : Except Error γ} : (scan q >>= f).Reads views r ↔
      ∃ db rest, views = db :: rest ∧ ∃ rank, (f (arrange rank (q db))).Reads rest r := by
  have hreads : (scan q >>= f).Reads views r ↔
      (Prog.query (D := Db) q >>= fun rows => (Prog.draw (D := Db) .order >>= fun rank =>
        f (arrange rank rows) : M γ)).Reads views r := Iff.rfl
  rw [hreads, Prog.reads_query_bind]
  constructor
  · rintro ⟨db, rest, hviews, h⟩
    exact ⟨db, rest, hviews, Prog.reads_draw_bind.1 h⟩
  · rintro ⟨db, rest, hviews, h⟩
    exact ⟨db, rest, hviews, Prog.reads_draw_bind.2 h⟩

/-- With one revision, the second select gives the page. -/
theorem reads_getEvents {r : Except Error Dict}
    (hrow : revisionsOf actor.tenantId intentId db = [row]) :
    (getEvents rt audit actor intentId query).Reads [db, db'] r ↔
      ∃ rank, r = .ok (eventsBody rt query
        ((orderBy (fun a b : StateTransition => a.sequence ≤ b.sequence)
          (arrange rank (transitionsAfter actor.tenantId intentId query.cursor db'))).take
            query.limit)
        (aggregateRows audit actor.tenantId intentId)) := by
  let respond : List StateTransition → M Dict := fun rows =>
    .ret (eventsBody rt query
      ((orderBy (fun a b : StateTransition => a.sequence ≤ b.sequence) rows).take query.limit)
      (aggregateRows audit actor.tenantId intentId))
  -- The first select finds the revision; the page is read from the second one.
  have hone : (getEvents rt audit actor intentId query).Reads [db, db'] r ↔
      (scan (transitionsAfter actor.tenantId intentId query.cursor) >>= respond).Reads [db'] r := by
    unfold getEvents
    rw [Prog.reads_query_bind]
    constructor
    · rintro ⟨first, rest, hviews, h⟩
      obtain ⟨rfl, rfl⟩ := List.cons_eq_cons.1 hviews
      rw [hrow] at h
      exact h
    · intro h
      refine ⟨db, [db'], rfl, ?_⟩
      rw [hrow]
      exact h
  rw [hone, reads_scan_bind]
  constructor
  · rintro ⟨second, rest, hviews, rank, h⟩
    obtain ⟨rfl, rfl⟩ := List.cons_eq_cons.1 hviews
    exact ⟨rank, (Prog.reads_ret.1 h).2⟩
  · rintro ⟨rank, rfl⟩
    exact ⟨db', [], rfl, rank, Prog.reads_ret.2 ⟨rfl, rfl⟩⟩

/-- All transitions of the intent belong to its first revision. -/
def OnlyFirst (db : Store) (tenantId : String) (intentId : UUID) : Prop :=
  ∀ t ∈ db.transitions, t.key.tenantId = tenantId → t.key.intentId = intentId → t.key.revision = 1

/-- The transition log of an intent. -/
def logOf (db : Store) (tenantId : String) (intentId : UUID) : List StateTransition :=
  db.transitionsOf ⟨tenantId, intentId, 1⟩

theorem OnlyFirst.of_extends {tenantId : String} (h : OnlyFirst db' tenantId intentId)
    (hextends : Extends db db') : OnlyFirst db tenantId intentId :=
  fun t ht => h t (hextends.transitions.subset ht)

/-- The rows behind a cursor are rows of the log. -/
theorem transitionsAfter_eq {tenantId : String} (h : OnlyFirst db tenantId intentId)
    (cursor : Nat) : transitionsAfter tenantId intentId cursor db =
      (logOf db tenantId intentId).filter fun t => cursor < t.sequence := by
  unfold transitionsAfter logOf Store.transitionsOf
  rw [List.filter_filter]
  apply List.filter_congr
  intro t ht
  have hiff : (t.key.tenantId = tenantId ∧ t.key.intentId = intentId ∧ cursor < t.sequence) ↔
      (cursor < t.sequence ∧ t.key = ⟨tenantId, intentId, 1⟩) := by
    constructor
    · rintro ⟨htenant, hintent, hlt⟩
      have hfirst := h t ht htenant hintent
      obtain ⟨⟨tenant, intent, revision⟩, _, _, _, _, _, _, _, _, _⟩ := t
      cases htenant
      cases hintent
      cases hfirst
      exact ⟨hlt, rfl⟩
    · rintro ⟨hlt, hkey⟩
      rw [hkey]
      exact ⟨rfl, rfl, hlt⟩
  simp only [decide_eq_decide.2 hiff, Bool.decide_and]

/-- The page of a request is the part of the numbered log behind its cursor. -/
theorem page_of_log (h : OnlyFirst db actor.tenantId intentId)
    (hlog : Paging.Numbered StateTransition.sequence 1 (logOf db actor.tenantId intentId))
    (rank : Nat → Nat) :
    (orderBy (fun a b : StateTransition => a.sequence ≤ b.sequence)
      (arrange rank (transitionsAfter actor.tenantId intentId query.cursor db))).take query.limit =
        Paging.page query.cursor query.limit (logOf db actor.tenantId intentId) := by
  have hrows : transitionsAfter actor.tenantId intentId query.cursor db =
      (logOf db actor.tenantId intentId).drop query.cursor := by
    rw [transitionsAfter_eq h, hlog.filter_eq_drop]
    rfl
  have hsorted : orderBy (fun a b : StateTransition => a.sequence ≤ b.sequence)
      (arrange rank ((logOf db actor.tenantId intentId).drop query.cursor)) =
        (logOf db actor.tenantId intentId).drop query.cursor := by
    apply @Paging.eq_of_perm _ StateTransition.sequence
    · exact (List.perm_insertionSort _ _).trans (arrange_perm rank _)
    · exact List.pairwise_insertionSort _ _
    · exact hlog.pairwise.drop
  rw [hrows, hsorted]
  rfl

end Request

/-! ## Following the cursor -/

/-- Requests from the state `s` on that follow `next_cursor`, page by page: the bodies so far, the
cursor of the next request, and the state whose log the last page has read. -/
inductive Following (rt : Runtime) (actor : AuthenticatedActor) (intentId : UUID) (limit : Nat)
    (hlimit : 1 ≤ limit ∧ limit ≤ 200) (s : State) : List Dict → Option Nat → State → Prop
  | start : Following rt actor intentId limit hlimit s [] (some 0) s
  | page {bodies : List Dict} {cursor : Nat} {s₁ s₂ s₃ : State} {audit : List AuditEventRow}
      {body : Dict} (hprevious : Following rt actor intentId limit hlimit s bodies (some cursor) s₁)
      (hfirst : Leads rt (fun _ => True) s₁ s₂) (hsecond : Leads rt (fun _ => True) s₂ s₃)
      (hbody : (getEvents rt audit actor intentId ⟨cursor, limit, hlimit⟩).Reads [s₂.db, s₃.db]
        (.ok body)) :
      Following rt actor intentId limit hlimit s (bodies ++ [body]) (nextCursor body) s₃

section Following

variable {rt : Runtime} {actor : AuthenticatedActor} {intentId : UUID} {limit : Nat}
  {hlimit : 1 ≤ limit ∧ limit ≤ 200} {s s' : State} {bodies : List Dict} {next : Option Nat}

theorem Following.leads (h : Following rt actor intentId limit hlimit s bodies next s') :
    Leads rt (fun _ => True) s s' := by
  induction h with
  | start => exact .refl
  | page _ hfirst hsecond _ ih => exact (ih.trans hfirst).trans hsecond

theorem numbered_log (h : Run rt (fun _ => True) s) (tenantId : String) :
    Paging.Numbered StateTransition.sequence 1 (logOf s.db tenantId intentId) := by
  obtain ⟨hlog, hnone, -⟩ := log_and_versions h
  unfold Paging.Numbered logOf
  cases ha : s.db.intent? ⟨tenantId, intentId, 1⟩ with
  | none =>
      rw [hnone _ ha]
      rfl
  | some a => exact (hlog _ a ha).sequences

/-- An intent with one revision has one row. -/
theorem revisionsOf_eq (h : Run rt (fun _ => True) s) {tenantId : String}
    (hfirst : OnlyFirst s.db tenantId intentId)
    (hsome : (⟨tenantId, intentId, 1⟩ : RevisionKey) ∈ s.db.intents.map (·.key)) :
    ∃ row, revisionsOf tenantId intentId s.db = [row] := by
  obtain ⟨hlog, -, -⟩ := log_and_versions h
  have hnodup := intentKeys_nodup h
  have hkey : ∀ r ∈ revisionsOf tenantId intentId s.db, r.key = ⟨tenantId, intentId, 1⟩ := by
    intro r hr
    obtain ⟨hr, hmine⟩ := List.mem_filter.1 hr
    obtain ⟨htenant, hintent⟩ := of_decide_eq_true hmine
    have hsome : (s.db.intent? r.key).isSome = true :=
      List.find?_isSome.2 ⟨r, hr, decide_eq_true rfl⟩
    obtain ⟨a, ha⟩ := Option.isSome_iff_exists.1 hsome
    obtain ⟨t, rest, ht, -, -⟩ := (hlog r.key a ha).first
    have hmem : t ∈ s.db.transitionsOf r.key := ht ▸ List.mem_cons_self
    obtain ⟨hmem, hk⟩ := List.mem_filter.1 hmem
    have hk : t.key = r.key := of_decide_eq_true hk
    have hone : r.key.revision = 1 := hk ▸ hfirst t hmem (hk ▸ htenant) (hk ▸ hintent)
    rw [← htenant, ← hintent, ← hone]
  have hmem : ∃ r, r ∈ revisionsOf tenantId intentId s.db := by
    obtain ⟨r, hr, hrkey⟩ := List.mem_map.1 hsome
    refine ⟨r, List.mem_filter.2 ⟨hr, ?_⟩⟩
    rw [hrkey]
    exact decide_eq_true ⟨rfl, rfl⟩
  have hunique : ((revisionsOf tenantId intentId s.db).map (·.key)).Nodup :=
    hnodup.sublist (List.filter_sublist.map _)
  -- All rows have the one key, and no two rows share a key.
  rcases hrows : revisionsOf tenantId intentId s.db with _ | ⟨row, _ | ⟨other, rest⟩⟩
  · obtain ⟨r, hr⟩ := hmem
    rw [hrows] at hr
    cases hr
  · exact ⟨row, rfl⟩
  · rw [hrows] at hunique hkey
    have hsame : row.key = other.key :=
      (hkey row List.mem_cons_self).trans
        (hkey other (List.mem_cons_of_mem _ List.mem_cons_self)).symm
    have hne := (List.nodup_cons.1 hunique).1
    exact absurd (List.mem_cons.2 (.inl hsame)) hne

/-- The intent is in the store, with its first revision only. -/
structure Listed (tenantId : String) (intentId : UUID) (db : Store) : Prop where
  stored : (⟨tenantId, intentId, 1⟩ : RevisionKey) ∈ db.intents.map (·.key)
  first : OnlyFirst db tenantId intentId

/-- Every request for a listed intent is answered, with the page behind its cursor. -/
theorem getEvents_answers {s₁ s₂ : State} (h₁ : Run rt (fun _ => True) s₁)
    (h₂ : Run rt (fun _ => True) s₂) (hlisted₁ : Listed actor.tenantId intentId s₁.db)
    (hlisted₂ : Listed actor.tenantId intentId s₂.db) {audit : List AuditEventRow}
    {query : EventsQuery} {r : Except Error Dict} :
    (getEvents rt audit actor intentId query).Reads [s₁.db, s₂.db] r ↔
      r = .ok (eventsBody rt query
        (Paging.page query.cursor query.limit (logOf s₂.db actor.tenantId intentId))
        (aggregateRows audit actor.tenantId intentId)) := by
  obtain ⟨row, hrow⟩ := revisionsOf_eq h₁ hlisted₁.first hlisted₁.stored
  have hpage := @page_of_log actor intentId query s₂.db hlisted₂.first
    (numbered_log h₂ actor.tenantId)
  rw [reads_getEvents hrow]
  constructor
  · rintro ⟨rank, rfl⟩
    rw [hpage rank]
  · rintro rfl
    exact ⟨id, by rw [hpage id]⟩

/-- What the pages up to `next` have told of the log. -/
structure PagesTell (rt : Runtime) (limit : Nat) (log : List StateTransition) (bodies : List Dict)
    (next : Option Nat) : Prop where
  rest : ∀ cursor, next = some cursor → cursor = limit * bodies.length ∧ cursor ≤ log.length ∧
    bodies.flatMap eventsOf = (log.take cursor).map (transitionItem rt)
  done : next = none → bodies.flatMap eventsOf = log.map (transitionItem rt) ∧
    bodies.length = log.length / limit + 1

/-- A longer log keeps what the pages have told, as long as they go on. -/
theorem PagesTell.grow {log log' : List StateTransition} {cursor : Nat}
    (h : PagesTell rt limit log bodies (some cursor)) (hgrow : log <+: log') :
    PagesTell rt limit log' bodies (some cursor) := by
  refine ⟨fun c hc => ?_, fun hnone => (by cases hnone)⟩
  obtain ⟨hcursor, hle, htold⟩ := h.rest c hc
  refine ⟨hcursor, hle.trans hgrow.length_le, ?_⟩
  obtain ⟨more, rfl⟩ := hgrow
  rw [htold, List.take_append_of_le_length hle]

/-- One more page. -/
theorem PagesTell.page {log : List StateTransition} {cursor : Nat} {query : EventsQuery}
    {rows : List AuditEventRow} (h : PagesTell rt query.limit log bodies (some cursor))
    (hnumbered : Paging.Numbered StateTransition.sequence 1 log) (hcursor : query.cursor = cursor) :
    PagesTell rt query.limit log
      (bodies ++ [eventsBody rt query (Paging.page query.cursor query.limit log) rows])
      (nextCursor (eventsBody rt query (Paging.page query.cursor query.limit log) rows)) := by
  subst hcursor
  obtain ⟨hcursor, hle, htold⟩ := h.rest _ rfl
  have hpos : 0 < query.limit := query.bounded.1
  have hevents : (bodies ++ [eventsBody rt query (Paging.page query.cursor query.limit log)
      rows]).flatMap eventsOf =
        (log.take (query.cursor + query.limit)).map (transitionItem rt) := by
    rw [List.flatMap_append, htold, List.flatMap_singleton, eventsOf_eventsBody, ← List.map_append,
      Paging.take_append_page]
  have hlength : ∀ body : Dict, (bodies ++ [body]).length = bodies.length + 1 := fun body => by
    rw [List.length_append, List.length_singleton]
  rw [nextCursor_eventsBody, Paging.next_page hnumbered hpos]
  by_cases hfull : query.cursor + query.limit ≤ log.length
  · rw [if_pos hfull]
    refine ⟨fun c hc => ?_, fun hnone => (by cases hnone)⟩
    obtain rfl := Option.some.inj hc
    refine ⟨?_, hfull, hevents⟩
    rw [hlength, Nat.mul_succ, ← hcursor]
  · rw [if_neg hfull]
    refine ⟨fun c hc => (by cases hc), fun _ => ⟨?_, ?_⟩⟩
    · rw [hevents, List.take_of_length_le (by omega)]
    · rw [hlength]
      congr 1
      -- The rows of the last page are fewer than the limit.
      exact (Nat.div_eq_of_lt_le (by rw [Nat.mul_comm, ← hcursor]; exact hle)
        (by rw [Nat.succ_mul, Nat.mul_comm, ← hcursor]; omega)).symm

theorem Listed.of_leads {s₁ s₂ : State} (hstored : (⟨actor.tenantId, intentId, 1⟩ : RevisionKey) ∈
    s₁.db.intents.map (·.key)) (hleads : Leads rt (fun _ => True) s₁ s₂)
    (hfirst : OnlyFirst s₂.db actor.tenantId intentId) : Listed actor.tenantId intentId s₂.db :=
  ⟨hleads.extends.intents.subset hstored, hfirst⟩

/-- The log of a later state goes on from the log of an earlier one. -/
theorem logOf_grows {s₁ s₂ : State} (hleads : Leads rt (fun _ => True) s₁ s₂)
    (tenantId : String) : logOf s₁.db tenantId intentId <+: logOf s₂.db tenantId intentId := by
  obtain ⟨more, hmore⟩ := hleads.extends.transitions
  unfold logOf Store.transitionsOf
  rw [← hmore, List.filter_append]
  exact List.prefix_append _ _

/-- The pages tell the log of the state that the last of them has read. -/
theorem Following.told (h : Following rt actor intentId limit hlimit s bodies next s')
    (hs : Run rt (fun _ => True) s)
    (hstored : (⟨actor.tenantId, intentId, 1⟩ : RevisionKey) ∈ s.db.intents.map (·.key))
    (hfirst : OnlyFirst s'.db actor.tenantId intentId) :
    PagesTell rt limit (logOf s'.db actor.tenantId intentId) bodies next := by
  induction h with
  | start =>
      refine ⟨fun c hc => ?_, fun hnone => (by cases hnone)⟩
      obtain rfl := Option.some.inj hc
      exact ⟨rfl, Nat.zero_le _, rfl⟩
  | @page bodies cursor s₁ s₂ s₃ audit body hprevious hleads₁ hleads₂ hbody ih =>
      have hleads : Leads rt (fun _ => True) s s₂ := hprevious.leads.trans hleads₁
      have hearlier := hfirst.of_extends hleads₂.extends
      have hrun₂ := hleads.run hs
      have hrun₃ := hleads₂.run hrun₂
      have htold := (ih (hearlier.of_extends hleads₁.extends)).grow
        (logOf_grows (hleads₁.trans hleads₂) actor.tenantId)
      have hanswer := (getEvents_answers hrun₂ hrun₃ (Listed.of_leads hstored hleads hearlier)
        (Listed.of_leads hstored (hleads.trans hleads₂) hfirst)).1 hbody
      obtain rfl := Except.ok.inj hanswer
      exact @PagesTell.page rt bodies _ cursor ⟨cursor, limit, hlimit⟩ _ htold
        (numbered_log hrun₃ actor.tenantId) rfl

/-- A walk over a log that stands still ends. -/
theorem Following.ends (h : Following rt actor intentId limit hlimit s bodies next s')
    (hs : Run rt (fun _ => True) s)
    (hstored : (⟨actor.tenantId, intentId, 1⟩ : RevisionKey) ∈ s.db.intents.map (·.key))
    (hfirst : OnlyFirst s'.db actor.tenantId intentId) :
    ∃ more, Following rt actor intentId limit hlimit s (bodies ++ more) none s' := by
  have hlisted := Listed.of_leads hstored h.leads hfirst
  have hrun := h.leads.run hs
  -- By induction on the number of rows behind the cursor: a page that is not the last shortens it.
  induction hn : (logOf s'.db actor.tenantId intentId).length - limit * bodies.length using
      Nat.strong_induction_on generalizing bodies next with
  | _ n ih =>
      cases next with
      | none => exact ⟨[], by rwa [List.append_nil]⟩
      | some cursor =>
          have hanswer := (@getEvents_answers rt actor intentId s' s' hrun hrun hlisted hlisted []
            ⟨cursor, limit, hlimit⟩ _).2 rfl
          have hpage := Following.page h .refl .refl hanswer
          obtain ⟨hcursor, -, -⟩ := (h.told hs hstored hfirst).rest cursor rfl
          have hpos : 0 < limit := hlimit.1
          have hnext := nextCursor_eventsBody rt ⟨cursor, limit, hlimit⟩
            (Paging.page cursor limit (logOf s'.db actor.tenantId intentId))
            (aggregateRows [] actor.tenantId intentId)
          rw [Paging.next_page (numbered_log hrun actor.tenantId) hpos] at hnext
          rw [hnext] at hpage
          by_cases hfull : cursor + limit ≤ (logOf s'.db actor.tenantId intentId).length
          · rw [if_pos hfull] at hpage
            obtain ⟨more, hmore⟩ := ih _ (by
              rw [List.length_append, List.length_singleton, Nat.mul_succ]
              omega) hpage rfl
            rw [List.append_assoc] at hmore
            exact ⟨_, hmore⟩
          · rw [if_neg hfull] at hpage
            exact ⟨_, hpage⟩

end Following

/-! ## A whole walk -/

/-- What a walk has told of the log of an intent, and how it goes on. -/
structure Walked (rt : Runtime) (actor : AuthenticatedActor) (intentId : UUID) (limit : Nat)
    (hlimit : 1 ≤ limit ∧ limit ≤ 200) (s : State) (bodies : List Dict) (next : Option Nat)
    (s' : State) : Prop where
  numbered : (logOf s'.db actor.tenantId intentId).map (·.sequence) =
    List.range' 1 (logOf s'.db actor.tenantId intentId).length
  told : PagesTell rt limit (logOf s'.db actor.tenantId intentId) bodies next
  answered : ∀ cursor s₁ s₂ audit, next = some cursor → Leads rt (fun _ => True) s' s₁ →
    Leads rt (fun _ => True) s₁ s₂ → OnlyFirst s₂.db actor.tenantId intentId →
      ∀ r, (getEvents rt audit actor intentId ⟨cursor, limit, hlimit⟩).Reads [s₁.db, s₂.db] r ↔
        r = .ok (eventsBody rt ⟨cursor, limit, hlimit⟩
          (Paging.page cursor limit (logOf s₂.db actor.tenantId intentId))
          (aggregateRows audit actor.tenantId intentId))
  ends : ∃ more, Following rt actor intentId limit hlimit s (bodies ++ more) none s' ∧
    (bodies ++ more).length = (logOf s'.db actor.tenantId intentId).length / limit + 1

/-- Following the cursor tells the log of the last page's store, each row once and in order, and ends
behind the last row. -/
theorem pages_tell_the_log {rt : Runtime} {actor : AuthenticatedActor} {intentId : UUID}
    {limit : Nat} {hlimit : 1 ≤ limit ∧ limit ≤ 200} {s s' : State} {bodies : List Dict}
    {next : Option Nat} (hs : Run rt (fun _ => True) s)
    (hstored : (⟨actor.tenantId, intentId, 1⟩ : RevisionKey) ∈ s.db.intents.map (·.key))
    (h : Following rt actor intentId limit hlimit s bodies next s')
    (hfirst : OnlyFirst s'.db actor.tenantId intentId) :
    Walked rt actor intentId limit hlimit s bodies next s' := by
  have hrun := h.leads.run hs
  refine ⟨numbered_log hrun actor.tenantId, h.told hs hstored hfirst, ?_, ?_⟩
  · intro cursor s₁ s₂ audit _ h₁ h₂ hfirst₂ r
    have hlisted₁ := Listed.of_leads hstored (h.leads.trans h₁) (hfirst₂.of_extends h₂.extends)
    have hlisted₂ := Listed.of_leads hstored ((h.leads.trans h₁).trans h₂) hfirst₂
    exact getEvents_answers (h₁.run hrun) (h₂.run (h₁.run hrun)) hlisted₁ hlisted₂
  · obtain ⟨more, hmore⟩ := h.ends hs hstored hfirst
    exact ⟨more, hmore, ((hmore.told hs hstored hfirst).done rfl).2⟩

/-- A walk in pages of two rows over the log of a recorded intent. -/
theorem pages_tell_the_log_recorded : ∃ bodies,
    Following Scenario.runtime (Scenario.actor "alice" Scenario.alice_ne) Scenario.intentId 2
      (by decide) (Scenario.after (Scenario.deletion.take 4)) bodies none
      (Scenario.after (Scenario.deletion.take 4)) ∧
    Walked Scenario.runtime (Scenario.actor "alice" Scenario.alice_ne) Scenario.intentId 2
      (by decide) (Scenario.after (Scenario.deletion.take 4)) bodies none
      (Scenario.after (Scenario.deletion.take 4)) := by
  have hrun := Scenario.run_after (fun _ => True) (Scenario.deletion.take 4) fun _ _ => trivial
  have hrows : Scenario.key ∈ (Scenario.after (Scenario.deletion.take 4)).db.intents.map (·.key) ∧
      ∀ t ∈ (Scenario.after (Scenario.deletion.take 4)).db.transitions, t.key.revision = 1 := by
    decide +kernel
  have hfirst : OnlyFirst (Scenario.after (Scenario.deletion.take 4)).db "acme"
      Scenario.intentId := fun t ht _ _ => hrows.2 t ht
  have hstart : Following Scenario.runtime (Scenario.actor "alice" Scenario.alice_ne)
      Scenario.intentId 2 (by decide) (Scenario.after (Scenario.deletion.take 4)) [] (some 0)
      (Scenario.after (Scenario.deletion.take 4)) := .start
  obtain ⟨bodies, hbodies, -⟩ := (pages_tell_the_log hrun hrows.1 hstart hfirst).ends
  exact ⟨bodies, hbodies, pages_tell_the_log hrun hrows.1 hbodies hfirst⟩

end HitlOps.Properties
