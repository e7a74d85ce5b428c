import HitlOps.Delivery.Growth

/-!
# Duties of the delivery system

What a transaction has to know before it writes. An event is the next one of its aggregate, which the
transaction has locked and searched; a lease is taken on a claimable row under its lock; a message is
settled by a process that holds its lease, and finalized only when its event is recorded.

`Recorded` and `Failed` are the two ways in which the delivery of a message can end.
-/

set_option autoImplicit false

namespace HitlOps.Delivery

open HitlOps.Python HitlOps.Domain HitlOps.Infrastructure HitlOps.Transaction

/-! ## Histories of a publisher -/

/-- The stores that the process was shown in transactions that had not yet written. -/
abbrev seenBy (h : List (Obs Post)) : List Mailbox := History.shown (fun _ => true) h

/-- The stores that the open transaction was shown before it wrote, with the keys it held. -/
abbrev seenHere (h : List (Obs Post)) : List (Mailbox × List PostKey) :=
  History.reads (fun _ => true) h

/-- The message that the write leases. -/
def leasedId? : PostWrite → Option UUID
  | .updateMessage old new => if new.claimedBy.isSome = true then some old.id else none
  | _ => none

/-- The messages that the process has claimed, in the order of its claims. -/
def batch (h : List (Obs Post)) : List UUID := (History.committed h).filterMap leasedId?

/-- The holder of a message after a write. -/
def holderAfter (id : UUID) (holder : Option String) : PostWrite → Option String
  | .updateMessage old new => if old.id = id then new.claimedBy else holder
  | _ => holder

/-- The name under which the writes leave a message leased. -/
def leaseIn (id : UUID) (ws : List PostWrite) : Option String := ws.foldl (holderAfter id) none

/-- The write is neither an update of a message nor an event. -/
def IsPlain : PostWrite → Prop
  | .updateMessage _ _ => False
  | _ => True

/-! ## Ends of a delivery -/

/-- No audit event of the message is missing, for all that the history shows. -/
inductive Recorded (h : List (Obs Post)) (id : UUID) : Prop
  | unaudited (σ : Mailbox) (m : OutboxRow) (hσ : σ ∈ seenBy h) (hm : σ.message? id = some m)
      (ht : m.topic ∉ auditTopics)
  | published (σ : Mailbox) (m : OutboxRow) (hσ : σ ∈ seenBy h) (hm : σ.message? id = some m)
      (hp : m.publishedAt.isSome = true)
  | found (σ : Mailbox) (e : AuditEventRow) (hσ : σ ∈ seenBy h) (he : e ∈ σ.events)
      (hc : e.causationId = some id.text)
  | wrote (e : AuditEventRow) (he : PostWrite.insertEvent e ∈ History.committed h)
      (hc : e.causationId = some id.text)

/-- Why an append raises. -/
inductive AppendFails (pr : PostRuntime) (h : List (Obs Post)) (request : AuditRequest) : Prop
  | outage (ho : (.did (.draw .outage) true : Obs Post) ∈ h)
  | refused (k : PostKey) (w : PostWrite) (hi : (.did (.insert k w) false : Obs Post) ∈ h)
  | ambiguous (σ : Mailbox) (hσ : σ ∈ seenBy h) (hd : 2 ≤ (duplicates σ request).length)
  | unstorable (σ : Mailbox) (hσ : σ ∈ seenBy h)
      (ha : (nextEvent pr request (σ.eventsOf request.aggregate)).admissible = false)

/-- Why a delivery can fail before the event of its message is written. -/
inductive Failed (pr : PostRuntime) (h : List (Obs Post)) (id : UUID) : Prop
  | outage (ho : (.did (.draw .outage) true : Obs Post) ∈ h)
  | malformed (σ : Mailbox) (m : OutboxRow) (x : Error) (hσ : σ ∈ seenBy h)
      (hm : σ.message? id = some m) (ht : m.topic ∈ auditTopics) (hx : auditRequest pr m = .error x)
  | append (σ : Mailbox) (m : OutboxRow) (request : AuditRequest) (hσ : σ ∈ seenBy h)
      (hm : σ.message? id = some m) (ht : m.topic ∈ auditTopics)
      (hr : auditRequest pr m = .ok request) (hf : AppendFails pr h request)

/-- The message has its event, or its delivery failed. -/
def Done (pr : PostRuntime) (h : List (Obs Post)) (id : UUID) : Prop :=
  Recorded h id ∨ Failed pr h id

/-! ## Duties -/

/-- The rows that the process has claimed, in the order of their sequence. -/
structure Claimed (h : List (Obs Post)) (rows : List OutboxRow) : Prop where
  batch : batch h = rows.map (·.id)
  sorted : rows.Pairwise fun a b => a.sequence ≤ b.sequence
  seen : ∀ r ∈ rows, ∃ σ ∈ seenBy h, σ.message? r.id = some r

/-- The row is the next event of the aggregate that the transaction has locked and searched. -/
structure Prepares (pr : PostRuntime) (h : List (Obs Post)) (request : AuditRequest)
    (row : AuditEventRow) : Prop where
  searched : ∃ e ∈ seenHere h, advisoryKey pr request.aggregate ∈ e.2 ∧ duplicates e.1 request = []
  next : ∃ e ∈ seenHere h, advisoryKey pr request.aggregate ∈ e.2 ∧
    row = nextEvent pr request (e.1.eventsOf request.aggregate)

/-- The request is that of a claimed message, and the messages claimed before it are done. -/
structure Delivers (pr : PostRuntime) (h : List (Obs Post)) (request : AuditRequest) : Prop where
  intro ::
  message : ∃ σ ∈ seenBy h, ∃ m, σ.message? m.id = some m ∧ m.topic ∈ auditTopics ∧
    auditRequest pr m = .ok request ∧
    ∃ done r rest, Claimed h (done ++ r :: rest) ∧ r.id = m.id ∧ ∀ d ∈ done, Done pr h d.id

/-- The update is a lease of a claimable row that the transaction has locked. -/
structure Leases (h : List (Obs Post)) (old new : OutboxRow) : Prop where
  lease : ∃ workerId now span, new = leased old workerId (now + seconds span) ∧
    isClaimable old now = true
  seen : ∃ e ∈ seenHere h, e.1.message? old.id = some old ∧ PostKey.message old.id ∈ e.2
  others : ∀ w ∈ History.writes h, ∃ id, leasedId? w = some id ∧ id ≠ old.id

/-- The update finalizes or reschedules a message that the process has leased. -/
structure Settles (h : List (Obs Post)) (old new : OutboxRow) : Prop where
  writes : History.writes h = []
  held : PostKey.message old.id ∈ History.held h
  seen : ∃ e ∈ seenHere h, e.1.message? old.id = some old
  unpublished : old.publishedAt = none
  lease : ∃ workerId, old.claimedBy = some workerId ∧
    leaseIn old.id (History.committed h) = some workerId
  settled : (∃ now, new = finalized old now ∧ Recorded h old.id) ∨
    ∃ publisher now, new = rescheduled publisher old now

/-- The duties of the statements. With `direct`, events may also be appended for callers of their
own. -/
def duties (pr : PostRuntime) (direct : Prop) (h : List (Obs Post)) : Stmt Post → Prop
  | .insert _ (.insertEvent row) =>
      History.writes h = [] ∧
        ∃ request, Prepares pr h request row ∧ (direct ∨ Delivers pr h request)
  | .insert _ (.insertMessage _ _ _ _) => True
  | .insert _ (.updateMessage _ _) => False
  | .write (.updateMessage old new) => Leases h old new ∨ Settles h old new
  | .write _ => False
  | _ => True

/-- The watch of the delivery system. -/
abbrev postWatch (pr : PostRuntime) (direct : Prop) : Watch Post :=
  .growing Separate Grew (duties pr direct)

/-! ## Longer histories -/

section Longer

variable {pr : PostRuntime} {h h' : List (Obs Post)} {id : UUID} {request : AuditRequest}

theorem Recorded.suffix (hr : Recorded h id) (hs : h <:+ h') : Recorded h' id := by
  cases hr with
  | unaudited σ m hσ hm ht => exact .unaudited σ m (mem_shown_of_suffix hs hσ) hm ht
  | published σ m hσ hm hp => exact .published σ m (mem_shown_of_suffix hs hσ) hm hp
  | found σ e hσ he hc => exact .found σ e (mem_shown_of_suffix hs hσ) he hc
  | wrote e he hc => exact .wrote e ((committed_prefix_of_suffix hs).subset he) hc

theorem AppendFails.suffix (hf : AppendFails pr h request) (hs : h <:+ h') :
    AppendFails pr h' request := by
  cases hf with
  | outage ho => exact .outage (hs.subset ho)
  | refused k w hi => exact .refused k w (hs.subset hi)
  | ambiguous σ hσ hd => exact .ambiguous σ (mem_shown_of_suffix hs hσ) hd
  | unstorable σ hσ ha => exact .unstorable σ (mem_shown_of_suffix hs hσ) ha

theorem Failed.suffix (hf : Failed pr h id) (hs : h <:+ h') : Failed pr h' id := by
  cases hf with
  | outage ho => exact .outage (hs.subset ho)
  | malformed σ m x hσ hm ht hx => exact .malformed σ m x (mem_shown_of_suffix hs hσ) hm ht hx
  | append σ m request hσ hm ht hr hf =>
      exact .append σ m request (mem_shown_of_suffix hs hσ) hm ht hr (hf.suffix hs)

theorem Done.suffix (hd : Done pr h id) (hs : h <:+ h') : Done pr h' id :=
  hd.imp (fun hr => hr.suffix hs) fun hf => hf.suffix hs

/-- The claims of the process are the same, and it has been shown more. -/
theorem Claimed.longer {rows : List OutboxRow} (hc : Claimed h rows) (hs : h <:+ h')
    (hb : Delivery.batch h' = Delivery.batch h) : Claimed h' rows where
  batch := hb.trans hc.batch
  sorted := hc.sorted
  seen := fun r hr => by
    obtain ⟨σ, hσ, hm⟩ := hc.seen r hr
    exact ⟨σ, mem_shown_of_suffix hs hσ, hm⟩

theorem batch_of_during (hd : During h h') : batch h' = batch h := by
  unfold batch
  rw [hd.committed]

/-- Between two transactions: the history is longer, nothing is pending, and the process holds the
leases it held. -/
structure Passed (h h' : List (Obs Post)) : Prop where
  suffix : h <:+ h'
  clean : History.writes h' = []
  batch : batch h' = batch h
  leases : ∀ id, leaseIn id (History.committed h') = leaseIn id (History.committed h)

theorem Passed.trans {h'' : List (Obs Post)} (hp : Passed h h') (hp' : Passed h' h'') :
    Passed h h'' :=
  ⟨hp.suffix.trans hp'.suffix, hp'.clean, hp'.batch.trans hp.batch,
    fun id => (hp'.leases id).trans (hp.leases id)⟩

/-- Observations of the open transaction that added no write. -/
structure Looked (h h' : List (Obs Post)) : Prop where
  during : During h h'
  writes : History.writes h' = History.writes h

theorem Looked.refl (h : List (Obs Post)) : Looked h h := ⟨.refl h, rfl⟩

theorem Looked.trans {h'' : List (Obs Post)} (hl : Looked h h') (hl' : Looked h' h'') :
    Looked h h'' :=
  ⟨hl.during.trans hl'.during, hl'.writes.trans hl.writes⟩

theorem Looked.passed (hl : Looked h h') (hclean : History.writes h = []) : Passed h h' :=
  ⟨hl.during.suffix, hl.writes.trans hclean, batch_of_during hl.during,
    fun _ => by rw [hl.during.committed]⟩

theorem leasedId_of_plain {w : PostWrite} (hw : IsPlain w) : leasedId? w = none := by
  cases w with
  | updateMessage old new => exact hw.elim
  | _ => rfl

theorem holderAfter_of_plain {w : PostWrite} (hw : IsPlain w) (holder : Option String) :
    holderAfter id holder w = holder := by
  cases w with
  | updateMessage old new => exact hw.elim
  | _ => rfl

/-- Plain writes leave the leases alone. -/
theorem leaseIn_append_of_plain {ws ws' : List PostWrite} (hplain : ∀ w ∈ ws', IsPlain w) :
    leaseIn id (ws ++ ws') = leaseIn id ws := by
  unfold leaseIn
  rw [List.foldl_append]
  generalize ws.foldl (holderAfter id) none = holder
  induction ws' with
  | nil => rfl
  | cons w rest ih =>
      rw [List.foldl_cons, holderAfter_of_plain (hplain w List.mem_cons_self)]
      exact ih fun w' hw' => hplain w' (List.mem_cons_of_mem _ hw')

theorem filterMap_of_plain {ws : List PostWrite} (hplain : ∀ w ∈ ws, IsPlain w) :
    ws.filterMap leasedId? = [] :=
  List.filterMap_eq_nil_iff.2 fun w hw => leasedId_of_plain (hplain w hw)

/-- The commit of plain writes. -/
theorem passed_commit (hd : During h h') (hplain : ∀ w ∈ History.writes h', IsPlain w) :
    Passed h (.did .commit () :: h') where
  suffix := hd.suffix.trans (List.suffix_cons _ _)
  clean := rfl
  batch := by
    show (History.committed h' ++ History.writes h').filterMap leasedId? = _
    rw [List.filterMap_append, filterMap_of_plain hplain, List.append_nil, hd.committed]
    rfl
  leases := fun id => by
    show leaseIn id (History.committed h' ++ History.writes h') = _
    rw [leaseIn_append_of_plain hplain, hd.committed]

theorem passed_rollback (hd : During h h') : Passed h (.did .rollback () :: h') where
  suffix := hd.suffix.trans (List.suffix_cons _ _)
  clean := rfl
  batch := by
    show (History.committed h').filterMap leasedId? = _
    rw [hd.committed]
    rfl
  leases := fun id => by
    show leaseIn id (History.committed h') = _
    rw [hd.committed]

end Longer

end HitlOps.Delivery
