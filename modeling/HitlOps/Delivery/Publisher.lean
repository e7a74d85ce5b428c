import HitlOps.Delivery.Appends

/-!
# Publishers meet their duties

`_claim`, `_deliver`, `_finalize`, `_reschedule` and the loop of `publish_pending` against the watch
of the delivery system. The loop keeps the claimed rows split into those that are done and those that
the process still holds.
-/

set_option autoImplicit false

namespace HitlOps.Delivery

open HitlOps.Python HitlOps.Domain HitlOps.Infrastructure HitlOps.Transaction

section Publisher

variable {pr : PostRuntime} {direct : Prop} {h : List (Obs Post)}

/-! ## Delivery -/

theorem pw_deliverNotification (workerId : String) (topic : Option String) (payload : Dict)
    (hclean : History.writes h = []) {Q : Except Error Bool → List (Obs Post) → Prop}
    (hQ : ∀ r h', Passed h h' → Q r h') :
    (postWatch pr direct).wp (deliverNotification pr workerId topic payload) Q h := by
  have hsame : Passed h h := (Looked.refl h).passed hclean
  apply Watch.wp_ite
  · intro _
    apply Watch.wp_bind
    apply pw_ofResult
    cases intValue pr (payload.getD "revision" (.int 1)) with
    | error x => exact hQ _ _ hsame
    | ok revision =>
        apply Watch.wp_bind
        refine pw_call fun answer h₁ hl₁ => ?_
        have hp := hl₁.passed hclean
        cases answer with
        | error => exact hQ _ _ hp
        | cancelled => exact hQ _ _ hp
        | sent notificationId =>
            apply Watch.wp_bind
            refine pw_transaction_light ?_ hp.clean fun r h' hp' => ?_
            · exact Prog.Uses.bind light_checkOutage fun _ => light_insertMessage _ _
            · cases r with
              | error x => exact hQ _ _ (hp.trans hp')
              | ok u => exact hQ _ _ (hp.trans hp')
  · intro _
    exact hQ _ _ hsame

/-- `_deliver` on a row of the batch. -/
theorem pw_deliver (workerId : String) (hclean : History.writes h = []) {done rest : List OutboxRow}
    {r : OutboxRow} (hc : Claimed h (done ++ r :: rest)) (hdone : ∀ d ∈ done, Done pr h d.id)
    {Q : Except Error Delivered → List (Obs Post) → Prop}
    (herr : ∀ x h', Passed h h' → Done pr h' r.id → Q (.error x) h')
    (hok : ∀ d h', Passed h h' → Recorded h' r.id → Q (.ok d) h') :
    (postWatch pr direct).wp (deliver pr r.id workerId) Q h := by
  apply Watch.wp_bind
  apply Watch.wp_session
  apply Watch.wp_bind
  refine pw_checkOutage (fun x h₁ hl₁ ho => ?_) fun h₁ hl₁ => ?_
  · refine ⟨trivial, herr x _ (passed_rollback hl₁.during) (Or.inr (.outage ?_))⟩
    exact List.mem_cons_of_mem _ ho
  · show (postWatch pr direct).wp (Prog.query (D := Post) (·.message? r.id)) _ h₁
    refine pw_query _ fun σ h₂ hs₂ => ⟨trivial, ?_⟩
    have hd₂ := hl₁.during.trans hs₂.during
    have hp₂ := passed_rollback hd₂
    -- The row was shown when it was claimed, so it is still there.
    obtain ⟨σ₀, hσ₀, hr⟩ := hc.seen r (List.mem_append_right _ List.mem_cons_self)
    obtain ⟨m, hm, hcontent⟩ := (hs₂.grew σ₀ (mem_shown_of_suffix hl₁.during.suffix hσ₀)).message hr
    have hσ : σ ∈ seenBy (.did .rollback () :: h₂ : List (Obs Post)) :=
      mem_shown_of_suffix (List.suffix_cons _ _) (hs₂.seenBy (hl₁.writes.trans hclean))
    show (postWatch pr direct).wp (deliverEvent pr r.id ((σ.message? r.id).map (·.topic)) >>= _) Q _
    rw [hm]
    apply Watch.wp_bind
    refine pw_deliverEvent rfl (hc.longer hp₂.suffix hp₂.batch)
      (fun d hd => (hdone d hd).suffix hp₂.suffix) hσ hm (fun x h₃ hp₃ hd₃ => ?_)
      fun audited h₃ hp₃ hr₃ => ?_
    · exact herr x h₃ (hp₂.trans hp₃) hd₃
    · apply Watch.wp_bind
      refine pw_deliverNotification _ _ _ hp₃.clean fun res h₄ hp₄ => ?_
      have hp := hp₂.trans (hp₃.trans hp₄)
      cases res with
      | error x => exact herr x h₄ hp (Or.inl (hr₃.suffix hp₄.suffix))
      | ok notified => exact hok _ h₄ hp (hr₃.suffix hp₄.suffix)

/-! ## Settlement -/

/-- `_finalize` and `_reschedule`, for a message that the process holds. -/
theorem pw_settleMessage {id : UUID} {workerId : String} {settled : OutboxRow → Time → OutboxRow}
    (hclean : History.writes h = []) (hlease : leaseIn id (History.committed h) = some workerId)
    (hfree : ∀ row now, (settled row now).claimedBy = none)
    (hsettled : (settled = finalized ∧ Recorded h id) ∨
      ∃ publisher, settled = rescheduled publisher)
    {Q : Except Error Unit → List (Obs Post) → Prop}
    (hQ : ∀ r h', h <:+ h' → History.writes h' = [] → batch h' = batch h →
      (∀ id', id' ≠ id → leaseIn id' (History.committed h') = leaseIn id' (History.committed h)) →
      Q r h') :
    (postWatch pr direct).wp (settleMessage id workerId settled) Q h := by
  have hpassed : ∀ r h', Passed h h' → Q r h' := fun r h' hp =>
    hQ r h' hp.suffix hp.clean hp.batch fun id' _ => hp.leases id'
  have hnothing : ∀ {h'}, Looked h h' → ∀ w ∈ History.writes h', IsPlain w := by
    intro h' hl w hw
    rw [hl.writes, hclean] at hw
    exact absurd hw List.not_mem_nil
  apply Watch.wp_transaction
  apply Watch.wp_bind
  refine pw_query _ fun σ h₁ hs₁ => ?_
  have hleave : True ∧ Q (.ok ()) (.did .commit () :: h₁) :=
    ⟨trivial, hpassed _ _ (passed_commit hs₁.during (hnothing hs₁.toLooked))⟩
  generalize hrow : σ.message? id = found
  cases found with
  | none => exact hleave
  | some row =>
      have hid := (mem_of_message hrow).2
      apply Watch.wp_ite
      · exact fun _ => hleave
      · intro hunpublished
        apply Watch.wp_ite
        · exact fun _ => hleave
        · intro hclaimed
          rw [ne_eq, Decidable.not_not] at hclaimed
          apply Watch.wp_bind
          refine pw_draw fun now h₂ hl₂ => ?_
          apply Watch.wp_bind
          refine pw_lock _ fun σ₃ t h₃ hs₃ hheld => ?_
          have hl₃ := hs₁.toLooked.trans (hl₂.trans hs₃.toLooked)
          have hσ : σ ∈ seenBy h₂ := mem_shown_of_suffix hl₂.during.suffix (hs₁.seenBy hclean)
          have hpresent : σ₃.present (.message row.id) = true := by
            obtain ⟨row', hrow', -⟩ := (hs₃.grew σ hσ).message hrow
            show (σ₃.message? row.id).isSome = true
            rw [hid, hrow']
            rfl
          refine pw_flushPost (Or.inr ?_) (fun x => ?_) ?_
          · refine ⟨hl₃.writes.trans hclean, hheld hpresent, ⟨(σ, History.held h₁), ?_, ?_⟩, ?_, ?_, ?_⟩
            · exact hs₃.during.reads (hl₂.during.reads (hs₁.here hclean))
            · rw [hid]
              exact hrow
            · cases hp : row.publishedAt with
              | none => rfl
              | some t => exact absurd (by rw [hp]; rfl) hunpublished
            · refine ⟨workerId, hclaimed, ?_⟩
              rw [hid, hl₃.during.committed]
              exact hlease
            · rcases hsettled with ⟨rfl, hr⟩ | ⟨publisher, rfl⟩
              · exact Or.inl ⟨now, rfl, hid ▸ hr.suffix hl₃.during.suffix⟩
              · exact Or.inr ⟨publisher, now, rfl⟩
          · exact ⟨trivial, hpassed _ _ (passed_rollback hl₃.during)⟩
          · -- The one write of the transaction frees the message.
            have hwrites : History.writes (.did (.write (.updateMessage row (settled row now))) () :: h₃ :
                List (Obs Post)) = [.updateMessage row (settled row now)] := by
              show History.writes h₃ ++ [_] = [_]
              rw [hl₃.writes, hclean]
              rfl
            have hcommitted : History.committed (.did .commit () ::
                .did (.write (.updateMessage row (settled row now))) () :: h₃ : List (Obs Post)) =
                  History.committed h ++ [.updateMessage row (settled row now)] := by
              show History.committed h₃ ++ History.writes _ = _
              rw [hwrites, hl₃.during.committed]
            refine ⟨trivial, hQ _ _ ?_ rfl ?_ fun id' hne => ?_⟩
            · exact hl₃.during.suffix.trans ((List.suffix_cons _ _).trans (List.suffix_cons _ _))
            · have hnone : leasedId? (.updateMessage row (settled row now)) = none := by
                show (if (settled row now).claimedBy.isSome = true then _ else _) = none
                rw [hfree]
                rfl
              show (History.committed (D := Post) _).filterMap leasedId? = _
              rw [hcommitted, List.filterMap_append, List.filterMap_cons, hnone, List.filterMap_nil,
                List.append_nil]
              rfl
            · show leaseIn id' (History.committed (D := Post) _) = _
              rw [hcommitted]
              show (History.committed h ++ [_]).foldl (holderAfter id') none = _
              rw [List.foldl_append]
              exact if_neg fun h' => hne (h'.symm.trans hid)

/-! ## Claims -/

/-- The row is claimable, and the transaction holds the lock under which it read it. -/
def LockedRow (h : List (Obs Post)) (now : Time) (row : OutboxRow) : Prop :=
  isClaimable row now = true ∧
    ∃ e ∈ seenHere h, e.1.message? row.id = some row ∧ PostKey.message row.id ∈ e.2

theorem LockedRow.during {now : Time} {row : OutboxRow} (hr : LockedRow h now row)
    {h' : List (Obs Post)} (hd : During h h') : LockedRow h' now row := by
  obtain ⟨hclaimable, e, he, hrow⟩ := hr
  exact ⟨hclaimable, e, hd.reads he, hrow⟩

theorem pw_lockClaimable (now : Time) (ids : List UUID) (n : Nat) (hclean : History.writes h = [])
    {σ₀ : Mailbox} (hσ₀ : σ₀ ∈ seenBy h)
    {Q : Except Error (List OutboxRow) → List (Obs Post) → Prop}
    (hQ : ∀ rows h', Looked h h' → (rows.map (·.id)).Sublist ids →
      (∀ row ∈ rows, LockedRow h' now row ∧
        ∃ σ, Grew σ₀ σ ∧ σ.message? row.id = some row) → Q (.ok rows) h') :
    (postWatch pr direct).wp (lockClaimable now n ids) Q h := by
  induction ids generalizing h n Q with
  | nil =>
      have hempty := hQ [] h (.refl h) (List.Sublist.refl _) fun row hrow => absurd hrow List.not_mem_nil
      cases n <;> exact hempty
  | cons id rest ih =>
      cases n with
      | zero =>
          exact hQ [] h (.refl h) (List.nil_sublist _) fun row hrow => absurd hrow List.not_mem_nil
      | succ n =>
          -- The row is passed over.
          have hskip : ∀ h₁, Looked h h₁ →
              (postWatch pr direct).wp (lockClaimable now (n + 1) rest) Q h₁ := fun h₁ hl₁ =>
            ih (n + 1) (hl₁.writes.trans hclean) (mem_shown_of_suffix hl₁.during.suffix hσ₀)
              (fun rows h' hl' hsub hrows =>
                hQ rows h' (hl₁.trans hl') (hsub.cons id) hrows)
          apply Watch.wp_bind
          refine pw_lock_skip _ hskip fun σ t h₁ hs₁ hheld => ?_
          dsimp only [Watch.andThen]
          generalize hrow : σ.message? id = found
          cases found with
          | none => exact hskip h₁ hs₁.toLooked
          | some row =>
              have hid := (mem_of_message hrow).2
              apply Watch.wp_ite
              · intro hclaimable
                have hlocked : LockedRow h₁ now row := by
                  refine ⟨hclaimable, _, hs₁.here hclean, hid.symm ▸ hrow, hid.symm ▸ hheld ?_⟩
                  show (σ.message? id).isSome = true
                  rw [hrow]
                  rfl
                apply Watch.wp_bind
                refine ih n (hs₁.writes.trans hclean)
                  (mem_shown_of_suffix hs₁.during.suffix hσ₀) fun rows h' hl' hsub hrows => ?_
                refine hQ (row :: rows) h' (hs₁.toLooked.trans hl') ?_ ?_
                · rw [List.map_cons, hid]
                  exact hsub.cons_cons id
                · intro row' hrow'
                  rcases List.mem_cons.1 hrow' with rfl | hrow'
                  · exact ⟨hlocked.during hl'.during, σ, hs₁.grew σ₀ hσ₀, hid.symm ▸ hrow⟩
                  · exact hrows row' hrow'
              · exact fun _ => hskip h₁ hs₁.toLooked

/-- The candidates have distinct identifiers. -/
theorem nodup_claimableRows {σ : Mailbox} (hs : Separate σ) (now : Time) :
    ((claimableRows now σ).map (·.id)).Nodup := by
  have hperm := List.perm_insertionSort (fun a b : OutboxRow => a.sequence ≤ b.sequence)
    (σ.messages.filter fun r => isClaimable r now)
  refine ((hperm.map (·.id)).nodup_iff).2 ?_
  exact hs.sublist (List.filter_sublist.map _)

/-- Rows that were locked in the order of the candidates are in the order of their sequence. -/
theorem sorted_of_sublist {σ : Mailbox} (hs : Separate σ) {now : Time} {rows : List OutboxRow}
    (hsub : (rows.map (·.id)).Sublist ((claimableRows now σ).map (·.id)))
    (hrows : ∀ row ∈ rows, ∃ σ', Grew σ σ' ∧ σ'.message? row.id = some row) :
    rows.Pairwise fun a b => a.sequence ≤ b.sequence := by
  -- The sequence of a message by its identifier.
  let number : UUID → Nat := fun id => ((σ.message? id).map (·.sequence)).getD 0
  have hcandidate : ∀ c ∈ claimableRows now σ, number c.id = c.sequence := by
    intro c hc
    have hmem := (List.mem_filter.1 ((List.mem_insertionSort _).1 hc)).1
    show ((σ.message? c.id).map (·.sequence)).getD 0 = _
    rw [hs.message hmem]
    rfl
  have hrow : ∀ row ∈ rows, number row.id = row.sequence := by
    intro row hmem
    obtain ⟨c, hc, hid⟩ := List.mem_map.1 (hsub.subset (List.mem_map_of_mem hmem))
    obtain ⟨σ', hgrew, hfound⟩ := hrows row hmem
    have hc' := hs.message (List.mem_filter.1 ((List.mem_insertionSort _).1 hc)).1
    obtain ⟨row', hrow', hcontent⟩ := hgrew.message hc'
    rw [show c.id = row.id from hid, hfound, Option.some.injEq] at hrow'
    rw [← show c.id = row.id from hid, hcandidate c hc, hrow']
    exact (sequence_of_content hcontent).symm
  have hsorted : ((claimableRows now σ).map (·.id)).Pairwise fun a b => number a ≤ number b := by
    rw [List.pairwise_map]
    refine (List.pairwise_insertionSort _ _).imp_of_mem fun {a b} ha hb hab => ?_
    rw [hcandidate a ha, hcandidate b hb]
    exact hab
  refine (List.pairwise_map.1 (hsorted.sublist hsub)).imp_of_mem fun {a b} ha hb hab => ?_
  rw [hrow a ha, hrow b hb] at hab
  exact hab

theorem pw_leaseRows (workerId : String) (now : Time) (span : Nat) (rows : List OutboxRow)
    (hrows : ∀ row ∈ rows, LockedRow h now row) (hnodup : (rows.map (·.id)).Nodup)
    (hothers : ∀ w ∈ History.writes h, ∃ id, leasedId? w = some id ∧ id ∉ rows.map (·.id))
    {Q : Except Error Unit → List (Obs Post) → Prop} (herr : ∀ x h', During h h' → Q (.error x) h')
    (hok : ∀ h', During h h' → History.writes h' = History.writes h ++ rows.map (fun row =>
      .updateMessage row (leased row workerId (now + seconds span))) → Q (.ok ()) h') :
    (postWatch pr direct).wp (leaseRows workerId (now + seconds span) rows) Q h := by
  induction rows generalizing h with
  | nil => exact hok h (.refl h) (List.append_nil _).symm
  | cons row rest ih =>
      obtain ⟨hfresh, hrest⟩ := List.nodup_cons.1 hnodup
      apply Watch.wp_bind
      refine pw_flushPost (Or.inl ⟨⟨workerId, now, span, rfl, ?_⟩, ?_, fun w hw => ?_⟩)
        (fun x => herr x h (.refl h)) ?_
      · exact (hrows row List.mem_cons_self).1
      · exact (hrows row List.mem_cons_self).2
      · obtain ⟨id, hid, hne⟩ := hothers w hw
        exact ⟨id, hid, fun heq => hne (heq ▸ List.mem_cons_self)⟩
      · have hd : During h (.did (.write (.updateMessage row
            (leased row workerId (now + seconds span)))) () :: h) := (During.refl h).more _ rfl
        refine ih (fun r hr => (hrows r (List.mem_cons_of_mem _ hr)).during hd) hrest
          (fun w hw => ?_) (fun x h' hd' => herr x h' (hd.trans hd')) fun h' hd' hw' => ?_
        · rcases List.mem_append.1 hw with hw | hw
          · obtain ⟨id, hid, hne⟩ := hothers w hw
            exact ⟨id, hid, fun hmem => hne (List.mem_cons_of_mem _ hmem)⟩
          · rw [List.mem_singleton.1 hw]
            exact ⟨row.id, rfl, hfresh⟩
        · refine hok h' (hd.trans hd') ?_
          rw [hw']
          show (History.writes h ++ [_]) ++ _ = _
          rw [List.append_assoc]
          rfl

/-- The leases of distinct messages. -/
theorem leaseIn_leases (workerId : String) (expires : Time) {rows : List OutboxRow} {row : OutboxRow}
    (hrow : row ∈ rows) :
    leaseIn row.id (rows.map fun r => .updateMessage r (leased r workerId expires)) =
      some workerId := by
  have hkeep : ∀ (rows : List OutboxRow), (rows.map fun r => PostWrite.updateMessage r
      (leased r workerId expires)).foldl (holderAfter row.id) (some workerId) = some workerId := by
    intro rows
    induction rows with
    | nil => rfl
    | cons r rest ih =>
        rw [List.map_cons, List.foldl_cons]
        show List.foldl _ (if r.id = row.id then some workerId else some workerId) _ = _
        rw [ite_self]
        exact ih
  unfold leaseIn
  generalize (none : Option String) = holder
  induction rows generalizing holder with
  | nil => exact absurd hrow List.not_mem_nil
  | cons r rest ih =>
      rw [List.map_cons, List.foldl_cons]
      rcases List.mem_cons.1 hrow with rfl | hrow
      · rw [show holderAfter row.id holder (.updateMessage row (leased row workerId expires)) =
          some workerId from if_pos rfl]
        exact hkeep rest
      · exact ih hrow _

theorem pw_claimBatch (publisher : OutboxPublisher) (workerId : String)
    (hclean : History.writes h = []) (hfresh : History.committed h = [])
    {Q : Except Error (List UUID) → List (Obs Post) → Prop} (herr : ∀ x h', Q (.error x) h')
    (hok : ∀ rows h', History.writes h' = [] → Claimed h' rows → (rows.map (·.id)).Nodup →
      (∀ row ∈ rows, leaseIn row.id (History.committed h') = some workerId) →
      Q (.ok (rows.map (·.id))) h') :
    (postWatch pr direct).wp (claimBatch publisher workerId) Q h := by
  apply Watch.wp_bind
  refine pw_draw fun now h₁ hl₁ => ?_
  have hclean₁ := hl₁.writes.trans hclean
  apply Watch.wp_transaction
  apply Watch.wp_bind
  refine pw_query _ fun σ h₂ hs₂ => ?_
  have hclean₂ := hs₂.writes.trans hclean₁
  apply Watch.wp_bind
  refine pw_lockClaimable now _ _ hclean₂ (hs₂.seenBy hclean₁) fun rows h₃ hl₃ hsub hrows => ?_
  have hnodup : (rows.map (·.id)).Nodup := (nodup_claimableRows hs₂.separate now).sublist hsub
  apply Watch.wp_bind
  refine pw_leaseRows workerId now _ rows (fun row hrow => (hrows row hrow).1) hnodup (fun w hw => ?_)
    (fun x h₄ hd₄ => ⟨trivial, herr x _⟩) fun h₄ hd₄ hw₄ => ⟨trivial, ?_⟩
  · rw [hl₃.writes, hclean₂] at hw
    exact absurd hw List.not_mem_nil
  · rw [hl₃.writes, hclean₂, List.nil_append] at hw₄
    have hd := hl₁.during.trans (hs₂.during.trans (hl₃.during.trans hd₄))
    have hcommitted : History.committed (.did .commit () :: h₄ : List (Obs Post)) = rows.map fun row =>
        .updateMessage row (leased row workerId (now + seconds publisher.claimLeaseSeconds)) := by
      show History.committed h₄ ++ History.writes h₄ = _
      rw [hw₄, hd.committed, hfresh, List.nil_append]
    refine hok rows _ rfl ⟨?_, ?_, fun row hrow => ?_⟩ hnodup fun row hrow => ?_
    · unfold batch
      rw [hcommitted, List.filterMap_map]
      exact List.filterMap_eq_map_iff_forall_eq_some.2 fun row _ => rfl
    · exact sorted_of_sublist hs₂.separate hsub fun row hrow => (hrows row hrow).2
    · obtain ⟨⟨-, e, he, hfound, -⟩, -⟩ := hrows row hrow
      exact ⟨e.1, mem_shown_of_suffix (hd₄.suffix.trans (List.suffix_cons _ _))
        (mem_shown_of_reads he), hfound⟩
    · rw [hcommitted]
      exact leaseIn_leases workerId _ hrow

/-! ## Publication -/

theorem pw_publishAll (publisher : OutboxPublisher) (workerId : String) (rows : List OutboxRow)
    (stats : PublishStats) (hclean : History.writes h = []) {done : List OutboxRow}
    (hc : Claimed h (done ++ rows)) (hdone : ∀ d ∈ done, Done pr h d.id)
    (hnodup : (rows.map (·.id)).Nodup)
    (hlease : ∀ row ∈ rows, leaseIn row.id (History.committed h) = some workerId)
    {Q : Except Error PublishStats → List (Obs Post) → Prop} (hQ : ∀ r h', Q r h') :
    (postWatch pr direct).wp (publishAll pr publisher workerId (rows.map (·.id)) stats) Q h := by
  induction rows generalizing done h stats with
  | nil => exact hQ _ _
  | cons row rest ih =>
      obtain ⟨hfresh, hrest⟩ := List.nodup_cons.1 hnodup
      -- Whatever became of the delivery, the row is settled and the loop goes on.
      have hnext : ∀ h₁, Passed h h₁ → Done pr h₁ row.id → ∀ settled : OutboxRow → Time → OutboxRow,
          (∀ row now, (settled row now).claimedBy = none) →
          ((settled = finalized ∧ Recorded h₁ row.id) ∨
            ∃ publisher, settled = rescheduled publisher) →
          ∀ stats, (postWatch pr direct).wp (do
            settleMessage row.id workerId settled
            publishAll pr publisher workerId (rest.map (·.id)) stats) Q h₁ := by
        intro h₁ hp₁ hd₁ settled hfree hsettled stats
        apply Watch.wp_bind
        refine pw_settleMessage hp₁.clean ?_ hfree hsettled fun r h₂ hs₂ hclean₂ hb₂ hl₂ => ?_
        · rw [hp₁.leases]
          exact hlease row List.mem_cons_self
        · cases r with
          | error x => exact hQ _ _
          | ok u =>
              have hs := hp₁.suffix.trans hs₂
              have hc₂ : Claimed h₂ ((done ++ [row]) ++ rest) := by
                rw [List.append_assoc]
                exact hc.longer hs (hb₂.trans hp₁.batch)
              refine ih stats hclean₂ hc₂ (fun d hd => ?_) hrest fun r hr => ?_
              · rcases List.mem_append.1 hd with hd | hd
                · exact (hdone d hd).suffix hs
                · rw [List.mem_singleton.1 hd]
                  exact hd₁.suffix hs₂
              · have hne : r.id ≠ row.id := fun heq => hfresh (List.mem_map.2 ⟨r, hr, heq⟩)
                rw [hl₂ r.id hne, hp₁.leases]
                exact hlease r (List.mem_cons_of_mem _ hr)
      apply Watch.wp_bind
      apply Watch.wp_handle
      apply Watch.wp_bind
      refine pw_deliver workerId hclean hc hdone (fun x h₁ hp₁ hd₁ => ?_) fun d h₁ hp₁ hr₁ => ?_
      · apply Watch.wp_ite
        · intro _
          exact hnext h₁ hp₁ hd₁ (rescheduled publisher) (fun _ _ => rfl) (Or.inr ⟨publisher, rfl⟩) _
        · exact fun _ => hQ _ _
      · exact hnext h₁ hp₁ (Or.inl hr₁) finalized (fun _ _ => rfl) (Or.inl ⟨rfl, hr₁⟩) _

/-- Every operation meets the duties; `append` needs `direct`. -/
theorem pw_code {op : PostOp} (hdirect : ∀ request, op = .append request → direct) :
    (postWatch pr direct).wp (code pr op) (fun _ _ => True) [] := by
  cases op with
  | send messages =>
      apply Watch.wp_bind
      refine pw_transaction_light (light_queue messages) rfl fun r h' _ => ?_
      cases r <;> trivial
  | append request =>
      apply Watch.wp_bind
      apply Watch.wp_transaction
      refine pw_append rfl (Or.inl (hdirect request rfl)) (fun _ _ _ _ => ⟨trivial, trivial⟩)
        (fun _ _ _ _ _ _ => ⟨trivial, trivial⟩) fun _ _ _ _ _ => ⟨trivial, trivial⟩
  | publish publisher workerId =>
      apply Watch.wp_bind
      apply Watch.wp_bind
      refine pw_claimBatch publisher workerId rfl rfl (fun _ _ => trivial)
        fun rows h' hclean hc hnodup hlease => ?_
      refine pw_publishAll publisher workerId rows ⟨0, 0, 0⟩ hclean (show Claimed h' ([] ++ rows) from hc)
        (fun d hd => absurd hd List.not_mem_nil) hnodup hlease fun r h'' => ?_
      cases r <;> trivial

end Publisher

variable {pr : PostRuntime} {direct : Prop} {allowed : PostOp → Prop} {s : PostState}

/-- In every run the processes meet their duties. -/
theorem duties_of_reachable (hdirect : ∀ request, allowed (.append request) → direct)
    (h : PostRun pr allowed s) : (postWatch pr direct).Followed (fun _ _ _ => True) s := by
  refine Watch.followed_growing Grew.refl Grew.trans Grew.apply
    (fun s hs pid p hp => separate_view hs hp) (fun op hop => ?_) h
  exact pw_code fun request heq => hdirect request (heq ▸ hop)

end HitlOps.Delivery
