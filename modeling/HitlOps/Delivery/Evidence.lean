import HitlOps.Delivery.Chain

/-!
# The evidence of a message

When only publishers append, every event belongs to a message with an audit topic and names it as its
cause. A message is finalized by a process whose history shows that its event is there; the event is
in what that process was shown, or in what it has committed.
-/

set_option autoImplicit false

namespace HitlOps.Delivery

open HitlOps.Python HitlOps.Domain HitlOps.Infrastructure HitlOps.Transaction

/-- The operation is one of the application or a publisher; it appends no event of its own. -/
def Publishing (op : PostOp) : Prop := ∀ request, op ≠ .append request

/-- The event is that of the message. -/
def IsEventOf (pr : PostRuntime) (e : AuditEventRow) (m : OutboxRow) : Prop :=
  m.topic ∈ auditTopics ∧ e.causationId = some m.id.text ∧
    ∃ request, auditRequest pr m = .ok request ∧ e.aggregate = request.aggregate

theorem isEventOf_of_content {pr : PostRuntime} {e : AuditEventRow} {m m' : OutboxRow}
    (hc : content m' = content m) (h : IsEventOf pr e m) : IsEventOf pr e m' := by
  obtain ⟨ht, hcause, request, hr, ha⟩ := h
  refine ⟨topic_of_content hc ▸ ht, ?_, request, ?_, ha⟩
  · rw [id_of_content hc]
    exact hcause
  · rw [auditRequest_of_content hc]
    exact hr

/-- Every published message with an audit topic has an event. -/
def Attested (s : Mailbox) : Prop :=
  ∀ m ∈ s.messages, m.topic ∈ auditTopics → m.publishedAt.isSome = true →
    ∃ e ∈ s.events, e.causationId = some m.id.text

/-! ## Publication -/

section Published

/-- A message is published by an update that changes the column. -/
theorem published_apply {s : Mailbox} {n : Nat} {w : PostWrite} {m : OutboxRow}
    (hm : m ∈ (s.apply n w).messages) (hp : m.publishedAt.isSome = true) :
    (∃ m₀ ∈ s.messages, content m₀ = content m ∧ m₀.publishedAt.isSome = true) ∨
      ∃ old new, w = .updateMessage old new ∧ old.id = m.id ∧ new.publishedAt ≠ old.publishedAt := by
  cases w with
  | insertMessage id topic payload createdAt =>
      rcases List.mem_append.1 hm with hm | hm
      · exact Or.inl ⟨m, hm, rfl, hp⟩
      · rw [List.mem_singleton.1 hm] at hp
        cases hp
  | insertEvent row => exact Or.inl ⟨m, hm, rfl, hp⟩
  | updateMessage old new =>
      obtain ⟨m₀, hm₀, heq⟩ := List.mem_map.1 hm
      by_cases hid : m₀.id = old.id
      · rw [if_pos hid] at heq
        subst heq
        by_cases hsame : new.publishedAt = old.publishedAt
        · refine Or.inl ⟨m₀, hm₀, rfl, ?_⟩
          have hcolumn : (OutboxRow.merge old new m₀).publishedAt = m₀.publishedAt := if_pos hsame
          rw [← hcolumn]
          exact hp
        · exact Or.inr ⟨old, new, rfl, hid.symm, hsame⟩
      · rw [if_neg hid] at heq
        subst heq
        exact Or.inl ⟨m₀, hm₀, rfl, hp⟩

theorem published_foldl {pending : List (Nat × PostWrite)} {s : Mailbox} {m : OutboxRow}
    (hm : m ∈ (pending.foldl (fun s e => s.apply e.1 e.2) s).messages)
    (hp : m.publishedAt.isSome = true) :
    (∃ m₀ ∈ s.messages, content m₀ = content m ∧ m₀.publishedAt.isSome = true) ∨
      ∃ old new, .updateMessage old new ∈ pending.map Prod.snd ∧ old.id = m.id ∧
        new.publishedAt ≠ old.publishedAt := by
  induction pending generalizing s with
  | nil => exact Or.inl ⟨m, hm, rfl, hp⟩
  | cons e rest ih =>
      rcases ih hm with ⟨m₁, hm₁, hc₁, hp₁⟩ | ⟨old, new, hw, hid, hne⟩
      · rcases published_apply hm₁ hp₁ with ⟨m₀, hm₀, hc₀, hp₀⟩ | ⟨old, new, hw, hid, hne⟩
        · exact Or.inl ⟨m₀, hm₀, hc₀.trans hc₁, hp₀⟩
        · refine Or.inr ⟨old, new, ?_, hid.trans (id_of_content hc₁), hne⟩
          rw [List.map_cons, hw]
          exact List.mem_cons_self
      · exact Or.inr ⟨old, new, List.mem_cons_of_mem _ hw, hid, hne⟩

variable {pr : PostRuntime} {direct : Prop} {h : List (Obs Post)}

/-- Only a settled process publishes, and it knows that the event is recorded. -/
theorem recorded_of_kept (hk : (postWatch pr direct).Kept h) {old new : OutboxRow}
    (hw : .updateMessage old new ∈ History.writes h) (hne : new.publishedAt ≠ old.publishedAt) :
    Recorded h old.id ∧ ∃ σ ∈ seenBy h, σ.message? old.id = some old := by
  obtain ⟨l, r, hsplit⟩ := List.append_of_mem hw
  obtain ⟨h', -, -, hd, hmust⟩ := hk.split hsplit
  rcases hmust with (hlease | hsettle) | ⟨k, hmust⟩
  · obtain ⟨workerId, now, span, hnew, -⟩ := hlease.lease
    rw [hnew] at hne
    exact absurd rfl hne
  · rcases hsettle.settled with ⟨now, -, hr⟩ | ⟨publisher, now, hnew⟩
    · obtain ⟨e, he, hold⟩ := hsettle.seen
      exact ⟨hr.suffix hd.suffix, e.1, mem_shown_of_reads (hd.reads he), hold⟩
    · rw [hnew] at hne
      exact absurd rfl hne
  · exact hmust.elim

end Published

/-! ## The invariant -/

/-- Events belong to messages, published messages have events, also in the stores that were shown, and
the events that a process has committed are there. -/
structure Evident (pr : PostRuntime) (s : PostState) : Prop where
  events : ∀ e ∈ s.db.events, ∃ m ∈ s.db.messages, IsEventOf pr e m
  attested : Attested s.db
  shown : Grown id (fun _ => true) (fun σ σ' : Mailbox => Attested σ ∧ Attested σ') s
  landed : Landed (fun w (m : Mailbox) => ∀ e, w = PostWrite.insertEvent e → e ∈ m.events) s

section Step

variable {pr : PostRuntime} {allowed : PostOp → Prop} {s s' : PostState}

/-- What a history records is in the store. -/
theorem event_of_recorded (hr : PostRun pr allowed s) (he : Evident pr s) {pid : Nat}
    {p : Proc Post Error PostResult PostOp} (hp : s.procs pid = some p) {m : OutboxRow}
    (hm : s.db.message? m.id = some m) (ht : m.topic ∈ auditTopics)
    (hrecorded : Recorded p.history m.id) : ∃ e ∈ s.db.events, e.causationId = some m.id.text := by
  -- The message that a shown store has under the identifier is this one.
  have hsame : ∀ σ m₀, σ ∈ seenBy p.history → σ.message? m.id = some m₀ → content m = content m₀ := by
    intro σ m₀ hσ hm₀
    obtain ⟨m', hm', hc⟩ := (grew_of_shown hr hp hσ).message hm₀
    rw [hm, Option.some.injEq] at hm'
    exact hm' ▸ hc
  cases hrecorded with
  | unaudited σ m₀ hσ hm₀ ht₀ =>
      exact absurd (topic_of_content (hsame σ m₀ hσ hm₀) ▸ ht) ht₀
  | published σ m₀ hσ hm₀ hp₀ =>
      have hc := hsame σ m₀ hσ hm₀
      obtain ⟨hmem, hid⟩ := mem_of_message hm₀
      have hgood : Attested σ := (he.shown pid p hp σ hσ).1
      obtain ⟨e, hmem', hcause⟩ := hgood m₀ hmem (topic_of_content hc ▸ ht) hp₀
      exact ⟨e, (grew_of_shown hr hp hσ).mem_event hmem', hid ▸ hcause⟩
  | found σ e hσ hmem hc => exact ⟨e, (grew_of_shown hr hp hσ).mem_event hmem, hc⟩
  | wrote e hmem hc => exact ⟨e, he.landed pid p hp _ hmem e rfl, hc⟩

/-- The process that delivers knows the message of its request. -/
theorem message_of_delivers (hr : PostRun pr allowed s) {pid : Nat}
    {p : Proc Post Error PostResult PostOp} (hp : s.procs pid = some p) {request : AuditRequest}
    (hd : Delivers pr p.history request) :
    ∃ m ∈ s.db.messages, m.topic ∈ auditTopics ∧ auditRequest pr m = .ok request := by
  obtain ⟨σ, hσ, m₀, hm₀, ht, hreq, -⟩ := hd.message
  obtain ⟨m, hm, hc⟩ := (grew_of_shown hr hp hσ).message hm₀
  refine ⟨m, (mem_of_message hm).1, topic_of_content hc ▸ ht, ?_⟩
  rw [auditRequest_of_content hc]
  exact hreq

theorem Evident.step (hr : PostRun pr allowed s) (hr' : PostRun pr allowed s')
    (hf : (postWatch pr False).Followed (fun _ _ _ => True) s)
    (hs : Sys.Moves (code pr) allowed s s') (he : Evident pr s) : Evident pr s' := by
  have hx := exact_of_reachable hr
  have hup : Grew s.db s'.db := hs.le Grew.refl Grew.trans Grew.apply
  have hattested : Attested s'.db := by
    rcases hs.db_cases with ⟨hdb, -⟩ | ⟨pid, p, hp, hdb, -⟩
    · rw [hdb]
      exact he.attested
    · intro m hm ht hpublished
      have hm' := (separate_of_reachable hr').message hm
      rw [hdb] at hm
      rcases published_foldl hm hpublished with ⟨m₀, hm₀, hc, hp₀⟩ | ⟨old, new, hw, hid, hne⟩
      · obtain ⟨e, hmem, hcause⟩ := he.attested m₀ hm₀ ((topic_of_content hc).symm ▸ ht) hp₀
        exact ⟨e, hup.mem_event hmem, id_of_content hc ▸ hcause⟩
      · rw [(hx.procs pid p hp).pending] at hw
        obtain ⟨hrecorded, σ, hσ, hold⟩ := recorded_of_kept (hf.procs pid p hp).1 hw hne
        rw [hid] at hrecorded hold
        -- A finalized message was there before the transaction.
        obtain ⟨m₀, hm₀, -⟩ := (grew_of_shown hr hp hσ).message hold
        obtain ⟨m₁, hm₁, hc⟩ := hup.message hm₀
        rw [hm', Option.some.injEq] at hm₁
        subst hm₁
        obtain ⟨e, hmem, hcause⟩ := event_of_recorded hr he hp
          ((mem_of_message hm₀).2.symm ▸ hm₀) (topic_of_content hc ▸ ht)
          ((mem_of_message hm₀).2.symm ▸ hrecorded)
        exact ⟨e, hup.mem_event hmem, (mem_of_message hm₀).2 ▸ hcause⟩
  refine ⟨?_, hattested, ?_, ?_⟩
  · rcases hs.db_cases with ⟨hdb, -⟩ | ⟨pid, p, hp, hdb, -⟩
    · rw [hdb]
      exact he.events
    · have hold : ∀ e ∈ s.db.events, ∃ m ∈ s'.db.messages, IsEventOf pr e m := by
        intro e hmem
        obtain ⟨m, hm, hevent⟩ := he.events e hmem
        obtain ⟨m', hm', hc⟩ := hup.mem_message hm
        exact ⟨m', hm', isEventOf_of_content hc hevent⟩
      intro e hmem
      rw [hdb] at hmem
      rcases events_of_commit hx hf (chained_of_reachable hr) hp with hsame | ⟨request, hnew, -, -, hd⟩
      · exact hold e (hsame ▸ hmem)
      · rw [hnew] at hmem
        rcases List.mem_append.1 hmem with hmem | hmem
        · exact hold e hmem
        · rw [List.mem_singleton.1 hmem]
          obtain ⟨m, hm, ht, hreq⟩ := message_of_delivers hr hp (hd.resolve_left id)
          obtain ⟨m', hm', hc⟩ := hup.mem_message hm
          refine ⟨m', hm', isEventOf_of_content hc ⟨ht, ?_, request, hreq, rfl⟩⟩
          exact causation_of_auditRequest hreq
  · exact Grown.step (fun h h' => ⟨h.1, h'.2⟩) hx (fun _ _ _ hw => by cases hw) hs
      ⟨he.attested, hattested⟩ he.shown
  · refine Landed.step hs (fun w hw e heq => hup.mem_event (hw e heq)) (fun pid p hp ht w hw e heq => ?_)
      he.landed
    rw [hs.db_of_commit ht]
    show e ∈ (p.session.pending.foldl (fun s e => s.apply e.1 e.2) s.db).events
    rw [events_foldl, (hx.procs pid p hp).pending]
    exact List.mem_append_right _ (List.mem_filterMap.2 ⟨w, hw, heq ▸ rfl⟩)

/-- In every run of senders and publishers. -/
theorem evident_of_reachable (h : PostRun pr Publishing s) : Evident pr s := by
  have hempty : Evident pr (Sys.initial (⟨[], []⟩ : Mailbox)) :=
    ⟨fun _ he => absurd he List.not_mem_nil, fun _ hm => absurd hm List.not_mem_nil,
      fun _ _ hp => (by cases hp), fun _ _ hp => (by cases hp)⟩
  refine h.invariant hempty fun s s' hr hr' hs he => ?_
  exact he.step hr hr' (duties_of_reachable (fun request hop => hop request rfl) hr) hs

end Step

/-! ## One event for each message -/

/-- The events whose cause is the message. -/
def evidence (s : Mailbox) (m : OutboxRow) : List AuditEventRow :=
  s.events.filter fun e => e.causationId = some m.id.text

theorem length_filter_le_one {α β : Type} [DecidableEq β] {f : α → Option β} {c : β} {l : List α}
    (h : (l.filterMap f).Nodup) : (l.filter fun a => f a = some c).length ≤ 1 := by
  induction l with
  | nil => exact Nat.zero_le 1
  | cons a rest ih =>
      rw [List.filterMap_cons] at h
      rw [List.filter_cons]
      cases hfa : f a with
      | none =>
          rw [hfa] at h
          simpa using ih h
      | some b =>
          rw [hfa] at h
          obtain ⟨hfresh, hrest⟩ := List.nodup_cons.1 h
          by_cases hbc : b = c
          · -- The cause of the first event is none of the others'.
            subst hbc
            have hnone : rest.filter (fun a => decide (f a = some b)) = [] := by
              rw [List.filter_eq_nil_iff]
              intro a' ha' heq
              exact hfresh (List.mem_filterMap.2 ⟨a', ha', of_decide_eq_true heq⟩)
            rw [hnone]
            simp
          · rw [if_neg (by simpa using hbc)]
            exact ih hrest

section Once

variable {pr : PostRuntime} {s : PostState}

/-- The events of a message are all in one aggregate. -/
theorem evidence_eq_filter (h : PostRun pr Publishing s) {m : OutboxRow} (hm : m ∈ s.db.messages)
    {request : AuditRequest} (hr : auditRequest pr m = .ok request) :
    evidence s.db m =
      (s.db.eventsOf request.aggregate).filter fun e => e.causationId = some m.id.text := by
  have hseparate := separate_of_reachable h
  unfold evidence Mailbox.eventsOf
  rw [List.filter_filter]
  refine List.filter_congr fun e he => ?_
  obtain ⟨m', hm', -, hcause, request', hr', ha⟩ := (evident_of_reachable h).events e he
  by_cases hc : e.causationId = some m.id.text
  · -- The identifier of the cause determines the message, and the message its aggregate.
    have hid : m.id = m'.id := UUID.ext_text (Option.some.inj (hc.symm.trans hcause))
    have hsame : m = m' := List.inj_on_of_nodup_map hseparate hm hm' hid
    subst hsame
    rw [hr, Except.ok.injEq] at hr'
    rw [ha, ← hr', hc]
    simp
  · simp [hc]

/-- A message never has two events. -/
theorem evidence_le_one (h : PostRun pr Publishing s) {m : OutboxRow} (hm : m ∈ s.db.messages) :
    (evidence s.db m).length ≤ 1 := by
  cases hr : auditRequest pr m with
  | ok request =>
      rw [evidence_eq_filter h hm hr]
      exact length_filter_le_one ((chained_of_reachable h).causes request.aggregate)
  | error x =>
      -- A message without a request has no event.
      have hnone : evidence s.db m = [] := by
        unfold evidence
        rw [List.filter_eq_nil_iff]
        intro e he heq
        obtain ⟨m', hm', -, hcause, request', hr', -⟩ := (evident_of_reachable h).events e he
        have hid : m.id = m'.id :=
          UUID.ext_text (Option.some.inj ((of_decide_eq_true heq).symm.trans hcause))
        rw [List.inj_on_of_nodup_map (separate_of_reachable h) hm hm' hid, hr'] at hr
        cases hr
      rw [hnone]
      exact Nat.zero_le 1

end Once

end HitlOps.Delivery
