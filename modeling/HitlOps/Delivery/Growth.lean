import HitlOps.Delivery.System
import HitlOps.Transaction.Commits
import HitlOps.Transaction.Unique

/-!
# The mailbox only grows

A queued message keeps its identifier, its sequence number, its topic, its payload and its time, and
an event is never changed. `Grew` is the order of mailboxes that this gives; every write moves
upwards in it. The identifiers of the messages are distinct in whatever a process is shown.
-/

set_option autoImplicit false

namespace HitlOps.Delivery

open HitlOps.Python HitlOps.Domain HitlOps.Infrastructure HitlOps.Transaction

/-! ## Contents -/

/-- The row as it was queued, without the state of its delivery. -/
def content (r : OutboxRow) : OutboxRow :=
  { r with
    attempts := 0
    nextAttemptAt := none
    publishedAt := none
    claimedBy := none
    claimExpiresAt := none }

theorem id_of_content {r r' : OutboxRow} (h : content r = content r') : r.id = r'.id :=
  show (content r).id = (content r').id from congrArg OutboxRow.id h

theorem sequence_of_content {r r' : OutboxRow} (h : content r = content r') :
    r.sequence = r'.sequence :=
  show (content r).sequence = (content r').sequence from congrArg OutboxRow.sequence h

theorem topic_of_content {r r' : OutboxRow} (h : content r = content r') : r.topic = r'.topic :=
  show (content r).topic = (content r').topic from congrArg OutboxRow.topic h

/-- The event of a message is determined when the message is queued. -/
theorem auditRequest_of_content {pr : PostRuntime} {r r' : OutboxRow} (h : content r = content r') :
    auditRequest pr r = auditRequest pr r' :=
  show auditRequest pr (content r) = auditRequest pr (content r') from congrArg _ h

theorem content_merge (old new r : OutboxRow) : content (OutboxRow.merge old new r) = content r :=
  rfl

/-- The messages and the events of the first mailbox are those that the second one starts with. -/
structure Grew (s s' : Mailbox) : Prop where
  messages : s.messages.map content <+: s'.messages.map content
  events : s.events <+: s'.events

namespace Grew

variable {s s' s'' : Mailbox}

theorem refl (s : Mailbox) : Grew s s := ⟨List.prefix_refl _, List.prefix_refl _⟩

theorem trans (h : Grew s s') (h' : Grew s' s'') : Grew s s'' :=
  ⟨h.messages.trans h'.messages, h.events.trans h'.events⟩

/-- Every write moves upwards. -/
theorem apply (s : Mailbox) (n : Nat) (w : PostWrite) : Grew s (s.apply n w) := by
  cases w with
  | insertMessage id topic payload createdAt =>
      refine ⟨?_, List.prefix_refl _⟩
      show _ <+: (s.messages ++ _).map content
      rw [List.map_append]
      exact List.prefix_append _ _
  | updateMessage old new =>
      refine ⟨?_, List.prefix_refl _⟩
      show _ <+: (s.messages.map _).map content
      have hsame : (s.messages.map fun r => if r.id = old.id then OutboxRow.merge old new r else r).map
          content = s.messages.map content := by
        rw [List.map_map]
        refine List.map_congr_left fun r _ => ?_
        show content (if r.id = old.id then OutboxRow.merge old new r else r) = content r
        split
        · exact content_merge old new r
        · rfl
      exact hsame.symm ▸ List.prefix_refl (s.messages.map content)
  | insertEvent row => exact ⟨List.prefix_refl _, List.prefix_append _ _⟩

theorem message_map (s : Mailbox) (id : UUID) :
    (s.messages.map content).find? (fun r => r.id = id) = (s.message? id).map content := by
  rw [List.find?_map]
  rfl

/-- A message that was there is still there. -/
theorem message (h : Grew s s') {id : UUID} {r : OutboxRow} (hr : s.message? id = some r) :
    ∃ r', s'.message? id = some r' ∧ content r' = content r := by
  obtain ⟨t, ht⟩ := h.messages
  have hfound : (s'.message? id).map content = some (content r) := by
    rw [← message_map, ← ht, List.find?_append, message_map, hr]
    rfl
  obtain ⟨r', hr', hcontent⟩ := Option.map_eq_some_iff.1 hfound
  exact ⟨r', hr', hcontent⟩

theorem mem_message (h : Grew s s') {r : OutboxRow} (hr : r ∈ s.messages) :
    ∃ r' ∈ s'.messages, content r' = content r :=
  List.mem_map.1 (h.messages.subset (List.mem_map_of_mem hr))

theorem mem_event (h : Grew s s') {e : AuditEventRow} (he : e ∈ s.events) : e ∈ s'.events :=
  h.events.subset he

end Grew

/-! ## Distinct identifiers -/

/-- The primary key of the messages. -/
def messageIds : PrimaryKey Post UUID where
  ids s := s.messages.map (·.id)
  new?
    | .insertMessage id _ _ _ => some id
    | _ => none
  key := .message
  key_injective := fun _ _ h => PostKey.message.inj h
  ids_apply := by
    intro db n w
    cases w with
    | insertMessage id topic payload createdAt => exact List.map_append
    | updateMessage old new =>
        refine Eq.trans ?_ (List.append_nil _).symm
        show (db.messages.map fun r => if r.id = old.id then OutboxRow.merge old new r else r).map
          (·.id) = _
        rw [List.map_map]
        refine List.map_congr_left fun r _ => ?_
        show (if r.id = old.id then OutboxRow.merge old new r else r).id = r.id
        split <;> rfl
    | insertEvent row => exact (List.append_nil _).symm
  present_iff := by
    intro db id
    show (db.message? id).isSome = true ↔ _
    rw [Mailbox.message?, List.find?_isSome, List.mem_map]
    constructor
    · rintro ⟨r, hr, hid⟩
      exact ⟨r, hr, of_decide_eq_true hid⟩
    · rintro ⟨r, hr, hid⟩
      exact ⟨r, hr, decide_eq_true hid⟩

/-- The messages have distinct identifiers. -/
def Separate (s : Mailbox) : Prop := (s.messages.map (·.id)).Nodup

theorem mem_of_message {s : Mailbox} {id : UUID} {r : OutboxRow} (h : s.message? id = some r) :
    r ∈ s.messages ∧ r.id = id := by
  have hid := List.find?_some (p := fun r : OutboxRow => decide (r.id = id)) h
  exact ⟨List.mem_of_find?_eq_some h, of_decide_eq_true hid⟩

/-- A message is the one that its identifier finds. -/
theorem Separate.message {s : Mailbox} (h : Separate s) {r : OutboxRow} (hr : r ∈ s.messages) :
    s.message? r.id = some r := by
  cases hfound : s.message? r.id with
  | none =>
      have hne := List.find?_eq_none.1 hfound r hr
      simp only [decide_true, not_true_eq_false] at hne
  | some r' =>
      obtain ⟨hmem, hid⟩ := mem_of_message hfound
      rw [List.inj_on_of_nodup_map h hmem hr hid]

section Keyed

variable {pr : PostRuntime} {α : Type}

/-- The program adds messages under the keys of their identifiers only. -/
def Keyed (p : PostM α) : Prop := p.Uses messageIds.Respects fun _ => True

theorem keyed_select : Keyed (Prog.select (D := Post)) := Prog.uses_select trivial

theorem keyed_query (q : Mailbox → α) : Keyed (Prog.query (D := Post) q) := Prog.uses_query trivial

theorem keyed_lock (k : PostKey) (nowait : Bool) : Keyed (Prog.lock (D := Post) k nowait) :=
  Prog.uses_lock trivial

theorem keyed_draw (o : PostSource) : Keyed (Prog.draw (D := Post) o) := Prog.uses_draw trivial

theorem Keyed.transaction {p : PostM α} (hp : Keyed p) : Keyed (Prog.transaction p) := by
  have hbody : Keyed (do let a ← p; Prog.commit (D := Post); return a) :=
    Prog.Uses.bind hp fun _ => ⟨trivial, fun _ => trivial⟩
  exact Prog.Uses.handle hbody fun _ _ => ⟨trivial, fun _ => trivial⟩

theorem Keyed.session {p : PostM α} (hp : Keyed p) : Keyed (Prog.session p) := by
  have hbody : Keyed (do let a ← p; Prog.rollback (D := Post); return a) :=
    Prog.Uses.bind hp fun _ => ⟨trivial, fun _ => trivial⟩
  exact Prog.Uses.handle hbody fun _ _ => ⟨trivial, fun _ => trivial⟩

theorem keyed_insertPost {k : PostKey} {w : PostWrite}
    (hw : messageIds.Respects (.insert k w : Stmt Post)) : Keyed (insertPost k w) := by
  refine Prog.Uses.bind (Prog.uses_raiseIf trivial) fun _ => ?_
  exact Prog.Uses.bind (Prog.uses_insert hw) fun _ => Prog.uses_raiseIf trivial

theorem keyed_flushPost {w : PostWrite} (hw : messageIds.Respects (.write w : Stmt Post)) :
    Keyed (flushPost w) :=
  Prog.Uses.bind (Prog.uses_raiseIf trivial) fun _ => Prog.uses_write hw

theorem keyed_checkOutage : Keyed checkOutage :=
  Prog.Uses.bind (keyed_draw .outage) fun _ => Prog.uses_raiseIf trivial

theorem keyed_ofResult (r : Except Error α) : Keyed (ofResult r) := by
  cases r <;> trivial

theorem keyed_append (request : AuditRequest) : Keyed (append pr request) := by
  refine Prog.Uses.bind (keyed_lock _ _) fun _ => ?_
  refine Prog.Uses.bind (keyed_query _) fun existing => ?_
  match existing with
  | [e] => exact trivial
  | _ :: _ :: _ => exact trivial
  | [] =>
      refine Prog.Uses.bind (keyed_query _) fun rows => ?_
      refine Prog.Uses.bind keyed_checkOutage fun _ => ?_
      exact Prog.Uses.bind (keyed_insertPost fun _ h => by cases h) fun _ => trivial

theorem keyed_insertMessage (topic : String) (payload : Dict) :
    Keyed (insertMessage topic payload) := by
  refine Prog.Uses.bind (keyed_draw _) fun id => ?_
  refine Prog.Uses.bind keyed_select fun r => ?_
  exact keyed_insertPost fun i h => congrArg PostKey.message (Option.some.inj h)

theorem keyed_queue (messages : List (String × Dict)) : Keyed (queue messages) := by
  induction messages with
  | nil => exact trivial
  | cons m rest ih => exact Prog.Uses.bind (keyed_insertMessage _ _) fun _ => ih

theorem keyed_lockClaimable (now : Time) (n : Nat) (ids : List UUID) :
    Keyed (lockClaimable now n ids) := by
  induction ids generalizing n with
  | nil => cases n <;> exact trivial
  | cons id rest ih =>
      cases n with
      | zero => exact trivial
      | succ n =>
          refine Prog.Uses.bind (keyed_lock _ _) fun r => ?_
          match r with
          | none => exact ih (n + 1)
          | some (s, _) =>
              dsimp only
              generalize s.message? id = found
              cases found with
              | none => exact ih (n + 1)
              | some row =>
                  exact Prog.uses_ite (fun _ => Prog.Uses.bind (ih n) fun _ => trivial)
                    fun _ => ih (n + 1)

theorem keyed_leaseRows (workerId : String) (expires : Time) (rows : List OutboxRow) :
    Keyed (leaseRows workerId expires rows) := by
  induction rows with
  | nil => exact trivial
  | cons row rest ih => exact Prog.Uses.bind (keyed_flushPost rfl) fun _ => ih

theorem keyed_claimBatch (publisher : OutboxPublisher) (workerId : String) :
    Keyed (claimBatch publisher workerId) := by
  refine Prog.Uses.bind (keyed_draw _) fun now => Keyed.transaction ?_
  refine Prog.Uses.bind (keyed_query _) fun candidates => ?_
  refine Prog.Uses.bind (keyed_lockClaimable _ _ _) fun rows => ?_
  exact Prog.Uses.bind (keyed_leaseRows _ _ _) fun _ => trivial

theorem keyed_deliverEvent (id : UUID) (topic : Option String) :
    Keyed (deliverEvent pr id topic) := by
  refine Prog.uses_ite (fun _ => Keyed.transaction ?_) fun _ => trivial
  refine Prog.Uses.bind (keyed_query _) fun found => ?_
  cases found with
  | none => exact trivial
  | some row =>
      refine Prog.uses_ite (fun _ => ?_) fun _ => trivial
      refine Prog.Uses.bind ?_ fun _ => trivial
      refine Prog.Uses.bind (keyed_ofResult _) fun request => ?_
      exact Prog.Uses.bind (keyed_append request) fun _ => trivial

theorem keyed_deliverNotification (workerId : String) (topic : Option String) (payload : Dict) :
    Keyed (deliverNotification pr workerId topic payload) := by
  refine Prog.uses_ite (fun _ => ?_) fun _ => trivial
  refine Prog.Uses.bind (keyed_ofResult _) fun revision => ?_
  refine Prog.Uses.bind (Prog.uses_call trivial) fun answer => ?_
  match answer with
  | .error => exact trivial
  | .cancelled => exact trivial
  | .sent notificationId =>
      refine Prog.Uses.bind (Keyed.transaction ?_) fun _ => trivial
      exact Prog.Uses.bind keyed_checkOutage fun _ => keyed_insertMessage _ _

theorem keyed_deliver (id : UUID) (workerId : String) : Keyed (deliver pr id workerId) := by
  refine Prog.Uses.bind (Keyed.session (Prog.Uses.bind keyed_checkOutage fun _ => keyed_query _))
    fun found => ?_
  refine Prog.Uses.bind (keyed_deliverEvent _ _) fun audited => ?_
  exact Prog.Uses.bind (keyed_deliverNotification _ _ _) fun notified => trivial

theorem keyed_settleMessage (id : UUID) (workerId : String)
    (settled : OutboxRow → Time → OutboxRow) : Keyed (settleMessage id workerId settled) := by
  refine Keyed.transaction (Prog.Uses.bind (keyed_query _) fun found => ?_)
  cases found with
  | none => exact trivial
  | some row =>
      refine Prog.uses_ite (fun _ => trivial) fun _ => Prog.uses_ite (fun _ => trivial) fun _ => ?_
      refine Prog.Uses.bind (keyed_draw _) fun now => ?_
      exact Prog.Uses.bind (keyed_lock _ _) fun _ => keyed_flushPost rfl

theorem keyed_publishAll (publisher : OutboxPublisher) (workerId : String) (ids : List UUID)
    (stats : PublishStats) : Keyed (publishAll pr publisher workerId ids stats) := by
  induction ids generalizing stats with
  | nil => exact trivial
  | cons id rest ih =>
      have htry : Keyed (Prog.handle (do
          let d ← deliver pr id workerId
          return some d) fun x => if x.isException = true then return none else .raise x) :=
        Prog.Uses.handle (Prog.Uses.bind (keyed_deliver id workerId) fun _ => trivial)
          fun _ _ => Prog.uses_ite (fun _ => trivial) fun _ => trivial
      refine Prog.Uses.bind htry fun delivered => ?_
      cases delivered with
      | none => exact Prog.Uses.bind (keyed_settleMessage _ _ _) fun _ => ih _
      | some d => exact Prog.Uses.bind (keyed_settleMessage _ _ _) fun _ => ih _

theorem keyed_code (op : PostOp) : Keyed (code pr op) := by
  cases op with
  | send messages => exact Prog.Uses.bind (keyed_queue messages).transaction fun _ => trivial
  | append request => exact Prog.Uses.bind (keyed_append request).transaction fun _ => trivial
  | publish publisher workerId =>
      refine Prog.Uses.bind ?_ fun _ => trivial
      exact Prog.Uses.bind (keyed_claimBatch _ _) fun ids => keyed_publishAll _ _ _ _

end Keyed

variable {pr : PostRuntime} {allowed : PostOp → Prop} {s : PostState}

/-- Whatever a process sees has distinct messages. -/
theorem distinct_messages (h : PostRun pr allowed s) : messageIds.Distinct s := by
  have hempty : (messageIds.ids (⟨[], []⟩ : Mailbox)).Nodup := List.nodup_nil
  have hfollowed : ∀ s, PostRun pr allowed s →
      (Watch.over (fun _ => True) fun _ st => messageIds.Respects st).Followed
        (fun _ _ _ => True) s := by
    intro s hs
    refine (Watch.followed_of_reachable (fun _ _ _ _ _ => trivial) (fun _ _ _ => trivial)
      (fun _ _ _ _ => trivial) (fun op _ => ?_) trivial hs).1
    exact Watch.wp_uses (fun _ => True) (fun st hst _ _ => ⟨hst, fun _ _ => trivial⟩)
      (keyed_code op) trivial fun _ _ _ _ => trivial
  exact PrimaryKey.distinct_of_reachable (fun _ _ hst => hst) hfollowed hempty h

theorem separate_of_reachable (h : PostRun pr allowed s) : Separate s.db := (distinct_messages h).store

theorem separate_view (h : PostRun pr allowed s) {pid : Nat} {p : Proc Post Error PostResult PostOp}
    (hp : s.procs pid = some p) : Separate (p.session.view s.db) := by
  show (messageIds.ids (p.session.view s.db)).Nodup
  rw [PrimaryKey.ids_view ((exact_of_reachable h).procs pid p hp)]
  exact (distinct_messages h).views pid p hp

/-- What a process was shown before it wrote is below the committed mailbox. -/
theorem grew_of_shown (h : PostRun pr allowed s) {pid : Nat}
    {p : Proc Post Error PostResult PostOp} (hp : s.procs pid = some p) {σ : Mailbox}
    (hσ : σ ∈ History.shown (fun _ => true) p.history) : Grew σ s.db := by
  have hgrown : Grown id (fun _ => true) Grew s :=
    grown_of_reachable Grew.refl Grew.trans Grew.apply h
  exact hgrown pid p hp σ hσ

end HitlOps.Delivery
