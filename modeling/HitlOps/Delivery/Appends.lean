import HitlOps.Delivery.Duties

/-!
# Deliveries meet their duties

`append` and `_deliver` against the watch of the delivery system. A delivery that returns has
recorded its message; one that raises has recorded it, or it failed before the event was written.
-/

set_option autoImplicit false

namespace HitlOps.Delivery

open HitlOps.Python HitlOps.Domain HitlOps.Infrastructure HitlOps.Transaction

section Rules

variable {pr : PostRuntime} {direct : Prop} {α : Type} {h : List (Obs Post)}

/-! ## Statements -/

/-- One more observation of the open transaction showed the store `σ`. -/
structure Shows (h h' : List (Obs Post)) (σ : Mailbox) : Prop extends Looked h h' where
  separate : Separate σ
  grew : ∀ σ₀ ∈ seenBy h, Grew σ₀ σ
  here : History.writes h = [] → (σ, History.held h') ∈ seenHere h'

theorem looked_cons {o : Obs Post} (ho : o.closes = false)
    (hw : History.writes (o :: h) = History.writes h) : Looked h (o :: h) :=
  ⟨(During.refl h).more o ho, hw⟩

theorem shows_cons {o : Obs Post} (ho : o.closes = false)
    (hw : History.writes (o :: h) = History.writes h) {σ : Mailbox} (hσ : o.seen? = some σ)
    (hmay : ∀ σ, o.seen? = some σ → Separate σ ∧ ∀ σ₀ ∈ seenBy h, Grew σ₀ σ) :
    Shows h (o :: h) σ := by
  refine ⟨looked_cons ho hw, (hmay σ hσ).1, (hmay σ hσ).2, fun hclean => ?_⟩
  have hnone : ¬ (History.writes h).any (fun _ => true) = true := by
    rw [hclean]
    exact Bool.false_ne_true
  have hmem : (σ, History.held (o :: h)) ∈ (if (History.writes h).any (fun _ => true) = true then []
      else (o.seen?.map fun σ => (σ, History.held (o :: h))).toList) ++ seenHere h := by
    rw [if_neg hnone, hσ]
    exact List.mem_append_left _ (List.mem_singleton_self _)
  cases o with
  | sent c => cases hσ
  | did st r =>
      cases st with
      | commit => cases ho
      | rollback => cases ho
      | _ => exact hmem

theorem Shows.seenBy {h' : List (Obs Post)} {σ : Mailbox} (hs : Shows h h' σ)
    (hclean : History.writes h = []) : σ ∈ Delivery.seenBy h' :=
  mem_shown_of_reads (hs.here hclean)

theorem pw_query {Q : Except Error α → List (Obs Post) → Prop} (q : Mailbox → α)
    (hQ : ∀ σ h', Shows h h' σ → Q (.ok (q σ)) h') :
    (postWatch pr direct).wp (Prog.query (D := Post) q) Q h := by
  refine ⟨trivial, fun r hr => ?_⟩
  exact hQ r.1 _ (shows_cons (o := (.did .select r : Obs Post)) rfl rfl rfl hr.2)

/-- A lock that waits is granted, and it is held if its row exists. -/
theorem pw_lock {Q : Except Error (Option (Mailbox × Instant)) → List (Obs Post) → Prop}
    (k : PostKey)
    (hQ : ∀ σ t h', Shows h h' σ → (σ.present k = true → k ∈ History.held h') →
      Q (.ok (some (σ, t))) h') :
    (postWatch pr direct).wp (Prog.lock (D := Post) k false) Q h := by
  refine ⟨trivial, fun r hr => ?_⟩
  cases r with
  | none => exact hr.1.elim
  | some e =>
      refine hQ e.1 e.2 _
        (shows_cons (o := (.did (.lock k false) (some e) : Obs Post)) rfl rfl rfl hr.2) fun hp => ?_
      show k ∈ if (some e).any (fun r => Mailbox.present r.1 k) = true then k :: History.held h
        else History.held h
      rw [Option.any_some, if_pos hp]
      exact List.mem_cons_self

/-- A lock that does not wait may be refused. -/
theorem pw_lock_skip {Q : Except Error (Option (Mailbox × Instant)) → List (Obs Post) → Prop}
    (k : PostKey) (hnone : ∀ h', Looked h h' → Q (.ok none) h')
    (hQ : ∀ σ t h', Shows h h' σ → (σ.present k = true → k ∈ History.held h') →
      Q (.ok (some (σ, t))) h') :
    (postWatch pr direct).wp (Prog.lock (D := Post) k true) Q h := by
  refine ⟨trivial, fun r hr => ?_⟩
  cases r with
  | none => exact hnone _ (looked_cons (o := (.did (.lock k true) none : Obs Post)) rfl rfl)
  | some e =>
      refine hQ e.1 e.2 _
        (shows_cons (o := (.did (.lock k true) (some e) : Obs Post)) rfl rfl rfl hr.2) fun hp => ?_
      show k ∈ if (some e).any (fun r => Mailbox.present r.1 k) = true then k :: History.held h
        else History.held h
      rw [Option.any_some, if_pos hp]
      exact List.mem_cons_self

theorem pw_draw {o : PostSource} {Q : Except Error (PostDraw o) → List (Obs Post) → Prop}
    (hQ : ∀ v h', Looked h h' → Q (.ok v) h') :
    (postWatch pr direct).wp (Prog.draw (D := Post) o) Q h :=
  ⟨trivial, fun v _ => hQ v _ (looked_cons (o := (.did (.draw o) v : Obs Post)) rfl rfl)⟩

theorem pw_call {c : PostCall} {Q : Except Error (PostAnswer c) → List (Obs Post) → Prop}
    (hQ : ∀ a h', Looked h h' → Q (.ok a) h') :
    (postWatch pr direct).wp (Prog.call (D := Post) c) Q h := by
  refine ⟨trivial, fun a _ => hQ a _ ?_⟩
  exact (looked_cons (o := (.sent c : Obs Post)) rfl rfl).trans (looked_cons rfl rfl)

theorem pw_checkOutage {Q : Except Error Unit → List (Obs Post) → Prop}
    (herr : ∀ x h', Looked h h' → (.did (.draw .outage) true : Obs Post) ∈ h' → Q (.error x) h')
    (hok : ∀ h', Looked h h' → Q (.ok ()) h') : (postWatch pr direct).wp checkOutage Q h := by
  apply Watch.wp_bind
  refine ⟨trivial, fun out _ => ?_⟩
  have hl : Looked h (.did (.draw .outage) out :: h) := looked_cons rfl rfl
  cases out with
  | true => exact herr _ _ hl List.mem_cons_self
  | false => exact hok _ hl

theorem pw_flushPost {w : PostWrite} {Q : Except Error Unit → List (Obs Post) → Prop}
    (hmust : duties pr direct h (.write w)) (herr : ∀ x, Q (.error x) h)
    (hok : Q (.ok ()) (.did (.write w) () :: h)) : (postWatch pr direct).wp (flushPost w) Q h := by
  apply Watch.wp_bind
  exact Watch.wp_raiseIf (fun _ => herr _) fun _ => ⟨hmust, fun _ _ => hok⟩

theorem pw_insertPost {k : PostKey} {w : PostWrite} {Q : Except Error Unit → List (Obs Post) → Prop}
    (hmust : duties pr direct h (.insert k w)) (hbad : ∀ x, w.admissible = false → Q (.error x) h)
    (hrefused : ∀ x h', Looked h h' → (.did (.insert k w) false : Obs Post) ∈ h' → Q (.error x) h')
    (hok : Q (.ok ()) (.did (.insert k w) true :: h)) :
    (postWatch pr direct).wp (insertPost k w) Q h := by
  apply Watch.wp_bind
  apply Watch.wp_raiseIf
  · exact fun hw => hbad _ hw
  · intro _
    apply Watch.wp_bind
    refine ⟨hmust, fun inserted _ => ?_⟩
    cases inserted with
    | true => exact hok
    | false => exact hrefused _ _ (looked_cons rfl rfl) List.mem_cons_self

theorem pw_ofResult {r : Except Error α} {Q : Except Error α → List (Obs Post) → Prop}
    (hQ : Q r h) : (postWatch pr direct).wp (ofResult r) Q h := by
  cases r <;> exact hQ

/-! ## Light programs -/

/-- A statement that reads, draws, or queues a message. -/
def IsLight : Stmt Post → Prop
  | .insert _ w => ∃ id topic payload createdAt, w = .insertMessage id topic payload createdAt
  | .write _ => False
  | .commit => False
  | .rollback => False
  | _ => True

/-- A light program only adds plain writes to its transaction. -/
theorem pw_light {p : PostM α} (hp : p.Uses IsLight fun _ => True)
    (hplain : ∀ w ∈ History.writes h, IsPlain w) {Q : Except Error α → List (Obs Post) → Prop}
    (hQ : ∀ r h', During h h' → (∀ w ∈ History.writes h', IsPlain w) → Q r h') :
    (postWatch pr direct).wp p Q h := by
  refine Watch.wp_uses (fun h' => During h h' ∧ ∀ w ∈ History.writes h', IsPlain w)
    (fun st hst h' hh' => ?_) hp ⟨.refl h, hplain⟩ fun r h' hh' _ => hQ r h' hh'.1 hh'.2
  obtain ⟨hd, hw⟩ := hh'
  cases st with
  | select => exact ⟨trivial, fun r _ => ⟨hd.more _ rfl, hw⟩⟩
  | lock k nowait => exact ⟨trivial, fun r _ => ⟨hd.more _ rfl, hw⟩⟩
  | draw o => exact ⟨trivial, fun r _ => ⟨hd.more _ rfl, hw⟩⟩
  | mark m => exact ⟨trivial, fun r _ => ⟨hd.more _ rfl, hw⟩⟩
  | call c => exact ⟨trivial, fun r _ => ⟨(hd.more _ rfl).more _ rfl, hw⟩⟩
  | write w => exact hst.elim
  | commit => exact hst.elim
  | rollback => exact hst.elim
  | insert k w =>
      obtain ⟨id, topic, payload, createdAt, rfl⟩ := hst
      refine ⟨trivial, fun r _ => ⟨hd.more _ rfl, ?_⟩⟩
      cases r with
      | false => exact hw
      | true =>
          intro w hmem
          rcases List.mem_append.1 hmem with hmem | hmem
          · exact hw w hmem
          · rw [List.mem_singleton.1 hmem]
            trivial

theorem light_checkOutage : checkOutage.Uses IsLight fun _ => True :=
  Prog.Uses.bind (Prog.uses_draw trivial) fun _ => Prog.uses_raiseIf trivial

theorem light_insertMessage (topic : String) (payload : Dict) :
    (insertMessage topic payload).Uses IsLight fun _ => True := by
  refine Prog.Uses.bind (Prog.uses_draw trivial) fun id => ?_
  refine Prog.Uses.bind (Prog.uses_select trivial) fun r => ?_
  refine Prog.Uses.bind (Prog.uses_raiseIf trivial) fun _ => ?_
  exact Prog.Uses.bind (Prog.uses_insert ⟨_, _, _, _, rfl⟩) fun _ => Prog.uses_raiseIf trivial

theorem light_queue (messages : List (String × Dict)) :
    (queue messages).Uses IsLight fun _ => True := by
  induction messages with
  | nil => trivial
  | cons m rest ih => exact Prog.Uses.bind (light_insertMessage _ _) fun _ => ih

/-- A transaction around a light program. -/
theorem pw_transaction_light {p : PostM α} (hp : p.Uses IsLight fun _ => True)
    (hclean : History.writes h = []) {Q : Except Error α → List (Obs Post) → Prop}
    (hQ : ∀ r h', Passed h h' → Q r h') :
    (postWatch pr direct).wp (Prog.transaction p) Q h := by
  apply Watch.wp_transaction
  refine pw_light hp (fun w hw => ?_) fun r h' hd hplain => ?_
  · rw [hclean] at hw
    exact absurd hw List.not_mem_nil
  · cases r with
    | ok a => exact ⟨trivial, hQ _ _ (passed_commit hd hplain)⟩
    | error x => exact ⟨trivial, hQ _ _ (passed_rollback hd)⟩

end Rules

/-! ## Requests -/

section Requests

variable {pr : PostRuntime} {m : OutboxRow} {request : AuditRequest} {σ : Mailbox}

/-- The event of a message names the message as its cause. -/
theorem causation_of_auditRequest (h : auditRequest pr m = .ok request) :
    request.causationId = some m.id.text := by
  simp only [auditRequest, bind, Except.bind] at h
  repeat' split at h
  all_goals cases h
  rfl

theorem mem_duplicates {e : AuditEventRow} (he : e ∈ duplicates σ request) :
    e ∈ σ.events ∧ e.aggregate = request.aggregate ∧ e.causationId = request.causationId := by
  unfold duplicates at he
  cases hc : request.causationId with
  | none =>
      rw [hc] at he
      exact absurd he List.not_mem_nil
  | some c =>
      rw [hc] at he
      obtain ⟨he, hcause⟩ := List.mem_filter.1 he
      obtain ⟨he, haggregate⟩ := List.mem_filter.1 he
      exact ⟨he, of_decide_eq_true haggregate, of_decide_eq_true hcause⟩

theorem nextEvent_causation (rows : List AuditEventRow) :
    (nextEvent pr request rows).causationId = request.causationId := rfl

end Requests

section Deliveries

variable {pr : PostRuntime} {direct : Prop} {α : Type} {h : List (Obs Post)}
  {request : AuditRequest}

theorem Delivers.during {h' : List (Obs Post)} (hd : Delivers pr h request) (hl : During h h') :
    Delivers pr h' request := by
  obtain ⟨σ, hσ, m, hm, ht, hr, done, r, rest, hc, hid, hdone⟩ := hd.message
  exact ⟨σ, mem_shown_of_suffix hl.suffix hσ, m, hm, ht, hr, done, r, rest,
    hc.longer hl.suffix (batch_of_during hl), hid, fun d hd => (hdone d hd).suffix hl.suffix⟩

/-- `AuditWriter.append`: it finds the event, writes it, or raises for a reason. -/
theorem pw_append (hclean : History.writes h = []) (hcaller : direct ∨ Delivers pr h request)
    {Q : Except Error AuditEventRow → List (Obs Post) → Prop}
    (herr : ∀ x h', Looked h h' → AppendFails pr h' request → Q (.error x) h')
    (hfound : ∀ e σ h', Looked h h' → σ ∈ seenBy h' → e ∈ duplicates σ request → Q (.ok e) h')
    (hwrote : ∀ e h', During h h' → History.writes h' = [.insertEvent e] →
      e.causationId = request.causationId → Q (.ok e) h') :
    (postWatch pr direct).wp (append pr request) Q h := by
  apply Watch.wp_bind
  refine pw_lock _ fun σ₁ t h₁ hs₁ hheld => ?_
  have hkey₁ := hheld rfl
  have hclean₁ := hs₁.writes.trans hclean
  apply Watch.wp_bind
  refine pw_query _ fun σ₂ h₂ hs₂ => ?_
  have hl₂ := hs₁.toLooked.trans hs₂.toLooked
  have hclean₂ := hs₂.writes.trans hclean₁
  have hkey₂ := hs₂.during.held hkey₁
  have hsearch := hs₂.here hclean₁
  have hseen₂ := hs₂.seenBy hclean₁
  generalize hdup : duplicates σ₂ request = found
  match found with
  | [e] =>
      refine hfound e σ₂ h₂ hl₂ hseen₂ ?_
      rw [hdup]
      exact List.mem_singleton_self e
  | e :: e' :: rest =>
      refine herr _ h₂ hl₂ (.ambiguous σ₂ hseen₂ ?_)
      rw [hdup]
      exact Nat.le_add_left 2 _
  | [] =>
      apply Watch.wp_bind
      refine pw_query _ fun σ₃ h₃ hs₃ => ?_
      have hl₃ := hl₂.trans hs₃.toLooked
      have hkey₃ := hs₃.during.held hkey₂
      have hlast := hs₃.here hclean₂
      apply Watch.wp_bind
      refine pw_checkOutage (fun x h₄ hl₄ ho => herr x h₄ (hl₃.trans hl₄) (.outage ho))
        fun h₄ hl₄ => ?_
      have hl := hl₃.trans hl₄
      apply Watch.wp_bind
      refine pw_insertPost ⟨hl.writes.trans hclean, request, ⟨⟨(σ₂, _), ?_, hkey₂, hdup⟩,
        ⟨_, hl₄.during.reads hlast, hkey₃, rfl⟩⟩, hcaller.imp id fun hd => hd.during hl.during⟩
        (fun x hbad => ?_) (fun x h₅ hl₅ hi => ?_) ?_
      · exact hl₄.during.reads (hs₃.during.reads hsearch)
      · refine herr x h₄ hl (.unstorable σ₃ ?_ hbad)
        exact mem_shown_of_suffix hl₄.during.suffix (hs₃.seenBy hclean₂)
      · exact herr x h₅ (hl.trans hl₅) (.refused _ _ hi)
      · refine hwrote _ _ (hl.during.more _ rfl) ?_ (nextEvent_causation _)
        show History.writes h₄ ++ [_] = [_]
        rw [hl.writes, hclean]
        rfl

/-- The audit part of a delivery. -/
theorem pw_deliverEvent (hclean : History.writes h = []) {done rest : List OutboxRow}
    {r m : OutboxRow} (hc : Claimed h (done ++ r :: rest)) (hdone : ∀ d ∈ done, Done pr h d.id)
    {σ : Mailbox} (hσ : σ ∈ seenBy h) (hm : σ.message? r.id = some m)
    {Q : Except Error Bool → List (Obs Post) → Prop}
    (herr : ∀ x h', Passed h h' → Done pr h' r.id → Q (.error x) h')
    (hok : ∀ b h', Passed h h' → Recorded h' r.id → Q (.ok b) h') :
    (postWatch pr direct).wp (deliverEvent pr r.id (some m.topic)) Q h := by
  apply Watch.wp_ite
  · intro htopic
    have ht : m.topic ∈ auditTopics := of_decide_eq_true htopic
    apply Watch.wp_transaction
    apply Watch.wp_bind
    refine pw_query _ fun σ₁ h₁ hs₁ => ?_
    obtain ⟨m₁, hm₁, hcontent⟩ := (hs₁.grew σ hσ).message hm
    have hid := (mem_of_message hm₁).2
    have ht₁ : m₁.topic ∈ auditTopics := topic_of_content hcontent ▸ ht
    have hσ₁ := hs₁.seenBy hclean
    have hclean₁ := hs₁.writes.trans hclean
    generalize hfound : σ₁.message? r.id = found
    rw [hm₁] at hfound
    obtain rfl := hfound
    apply Watch.wp_ite
    · intro _
      apply Watch.wp_bind
      apply Watch.wp_bind
      apply pw_ofResult
      cases hr : auditRequest pr m₁ with
      -- A payload of which no event can be made fails every delivery.
      | error x =>
          refine ⟨trivial, herr x _ (passed_rollback hs₁.during) (Or.inr ?_)⟩
          exact (Failed.malformed σ₁ m₁ x hσ₁ hm₁ ht₁ hr).suffix (List.suffix_cons _ _)
      | ok request =>
          have hcause : request.causationId = some r.id.text := hid ▸ causation_of_auditRequest hr
          have hdelivers : Delivers pr h₁ request :=
            ⟨σ₁, hσ₁, m₁, hid.symm ▸ hm₁, ht₁, hr, done, r, rest,
              hc.longer hs₁.during.suffix (batch_of_during hs₁.during), hid.symm,
              fun d hd => (hdone d hd).suffix hs₁.during.suffix⟩
          apply Watch.wp_bind
          refine pw_append hclean₁ (Or.inr hdelivers) (fun x h₂ hl₂ hf => ?_)
            (fun e σ₂ h₂ hl₂ hσ₂ he => ?_) fun e h₂ hd₂ hw hc₂ => ?_
          · refine ⟨trivial, herr x _ (passed_rollback (hs₁.toLooked.trans hl₂).during) (Or.inr ?_)⟩
            exact (Failed.append σ₁ m₁ request (mem_shown_of_suffix hl₂.during.suffix hσ₁) hm₁ ht₁ hr
              hf).suffix (List.suffix_cons _ _)
          -- The event is there already, under the same cause.
          · obtain ⟨he, -, hec⟩ := mem_duplicates he
            have hl := hs₁.toLooked.trans hl₂
            refine ⟨trivial, hok _ _ (passed_commit hl.during fun w hw => ?_) ?_⟩
            · rw [hl.writes, hclean] at hw
              exact absurd hw List.not_mem_nil
            · exact (Recorded.found σ₂ e hσ₂ he (hec.trans hcause)).suffix (List.suffix_cons _ _)
          · have hd : During h h₂ := hs₁.during.trans hd₂
            refine ⟨trivial, hok _ _ (passed_commit hd fun w hmem => ?_) ?_⟩
            · rw [hw, List.mem_singleton] at hmem
              rw [hmem]
              trivial
            · refine .wrote e ?_ (hc₂.trans hcause)
              show _ ∈ History.committed h₂ ++ History.writes h₂
              rw [hw]
              exact List.mem_append_right _ (List.mem_singleton_self _)
    · intro hpublished
      refine ⟨trivial, hok _ _ (passed_commit hs₁.during fun w hw => ?_) ?_⟩
      · rw [hclean₁] at hw
        exact absurd hw List.not_mem_nil
      -- The message was published in between: then its event is recorded, too.
      · refine (Recorded.published σ₁ m₁ hσ₁ hm₁ ?_).suffix (List.suffix_cons _ _)
        cases hp : m₁.publishedAt with
        | none => exact absurd (by rw [hp]; rfl) hpublished
        | some t => rfl
  · intro htopic
    refine hok _ _ ((Looked.refl h).passed hclean) (.unaudited σ m hσ hm fun ht => htopic ?_)
    exact decide_eq_true ht

end Deliveries

end HitlOps.Delivery
