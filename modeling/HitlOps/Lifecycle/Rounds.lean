import HitlOps.Lifecycle.Ledger
import HitlOps.Lifecycle.Records

/-!
# The worker keeps the books

The loops of the worker and the operations of the system are checked against `filing`. Between two
transactions a loop knows that nothing is pending, and what it read earlier stays shown.
`Filed` is what the watch gives for a whole run: every commit is a deed, and every lookup asks for a
row that was read under the row lock.
-/

set_option autoImplicit false

namespace HitlOps.Lifecycle

open HitlOps.Python HitlOps.Domain HitlOps.Infrastructure HitlOps.Application HitlOps.Adapters
open HitlOps.Transaction HitlOps.Worker

section Rounds

variable {rt : Runtime} {Due : List (Obs Db) → UUID → Prop} {α : Type} {h : List (Obs Db)}

/-! ## Recovery -/

theorem bw_recoverCandidate (hb : Begun h) {candidate : Execution} {commandId : String}
    (hl : Located h candidate.key candidate.id) {Q : Except Error Bool → List (Obs Db) → Prop}
    (hQ : ∀ e h', h <:+ h' → Begun h' → Q (.error e) h')
    (hok : ∀ b h', h <:+ h' → Begun h' → Q (.ok b) h') :
    (filing rt Due).wp (recoverCandidate candidate commandId) Q h := by
  refine bw_transaction hQ ?_
  refine Watch.wp_bind (bw_query hb.toUnwritten _ fun σ h₁ hn₁ _ _ hshown => ?_)
  have hb₁ := hb.notes hn₁
  cases hx : σ.execution? candidate.id with
  | none => exact ⟨settled_of_begun hb₁, fun hs hb' => hok _ _ hs hb'⟩
  | some x =>
      refine Watch.wp_ite (fun _ => ⟨settled_of_begun hb₁, fun hs hb' => hok _ _ hs hb'⟩) fun _ => ?_
      refine Watch.wp_bind (bw_select hb₁.toUnwritten fun σ₂ dbNow h₂ hn₂ _ _ _ _ => ?_)
      have hb₂ := hb₁.notes hn₂
      refine Watch.wp_bind (bw_lockIntentNowait hb₂.toUnwritten candidate.key
        (fun h₃ hn₃ => ⟨settled_of_begun (hb₂.notes hn₃), fun hs hb' => hok _ _ hs hb'⟩)
        (fun t h₃ hn₃ => ⟨settled_of_begun (hb₂.notes hn₃), fun hs hb' => hok _ _ hs hb'⟩)
        fun σ₃ a t h₃ hn₃ _ _ ha => ?_)
      have hb₃ := hb₂.notes hn₃
      refine Watch.wp_ite (fun _ => ⟨settled_of_begun hb₃, fun hs hb' => hok _ _ hs hb'⟩) fun _ => ?_
      have hkey : a.key = candidate.key := key_of_intent? ha
      have hid := (id_of_execution? hx).1
      have hkeeps := (hn₁.trans (hn₂.trans hn₃)).toKeeps
      -- The row was found under the identifier of the candidate.
      have hsource : Source h₃ a.key x := by
        refine .byId σ ((hn₂.trans hn₃).shown hshown) (hid ▸ hx) ?_
        rw [hid, hkey]
        exact hl.keeps hkeeps
      refine Watch.wp_bind (bw_appendTransition (by decide) (fun _ _ => trivial) fun t' h₄ he => ?_)
      refine Watch.wp_bind (bw_updateExecution (fun _ _ => trivial) fun h₅ hf => ?_)
      have hsettled : Settled rt h₅ := settled_of_move hb₃.toUnwritten hsource he hf (by decide) rfl rfl
        rfl (evident_of_ne (by decide) (by decide)) (Or.inl hb₃.asked)
      exact ⟨hsettled, fun hs hb' => hok _ _ hs hb'⟩

theorem bw_recoverAll (candidates : List Execution) (recovered : Nat) (hb : Begun h)
    (hl : ∀ candidate ∈ candidates, Located h candidate.key candidate.id)
    {Q : Except Error Nat → List (Obs Db) → Prop} (hQ : ∀ e h', Q (.error e) h')
    (hok : ∀ n h', Begun h' → Q (.ok n) h') :
    (filing rt Due).wp (recoverAll candidates recovered) Q h := by
  induction candidates generalizing h recovered with
  | nil => exact hok _ h hb
  | cons candidate rest ih =>
      refine Watch.wp_bind ⟨trivial, fun id _ => ?_⟩
      have hn := notes_cons (o := (.did (.draw .uuid) id : Obs Db)) ⟨trivial, trivial⟩ h
      have hl₁ := fun c hc => (hl c hc).keeps hn.toKeeps
      have hrest : ∀ n h', (.did (.draw .uuid) id :: h : List (Obs Db)) <:+ h' → Begun h' →
          (filing rt Due).wp (recoverAll rest n) Q h' := fun n h' hs hb' =>
        ih n hb' fun c hc => (hl₁ c (List.mem_cons_of_mem _ hc)).suffix hs
      refine Watch.wp_bind (Watch.wp_handle (bw_recoverCandidate (hb.notes hn)
        (hl₁ candidate List.mem_cons_self) (fun e h' hs hb' => ?_) fun b h' hs hb' => ?_))
      · exact Watch.wp_ite (fun _ => hrest _ h' hs hb') fun _ => hQ e h'
      · exact hrest _ h' hs hb'

theorem bw_recoverStaleExecuting (hb : Begun h) {Q : Except Error Nat → List (Obs Db) → Prop}
    (hQ : ∀ e h', Q (.error e) h') (hok : ∀ n h', Begun h' → Q (.ok n) h') :
    (filing rt Due).wp recoverStaleExecuting Q h := by
  refine Watch.wp_bind (bw_session ?_)
  refine Watch.wp_bind (bw_select hb.toUnwritten fun σ now h₁ hn₁ _ _ _ hshown => ?_)
  refine Watch.wp_bind ⟨trivial, fun rank _ _ => ?_⟩
  refine bw_recoverAll _ 0 (begun_rollback _) (fun candidate hc => ?_) hQ hok
  have hmem := List.mem_of_mem_take hc
  rw [mem_arrange] at hmem
  exact ⟨σ, List.mem_append_right _ (List.mem_append_right _ hshown), candidate,
    (List.mem_filter.1 hmem).1, rfl, rfl, rfl⟩

/-! ## Claim and execute -/

theorem bw_getActive (tenantId : String) {Q : Except Error (Option PolicyBundle) →
      List (Obs Db) → Prop} (hQ : ∀ r h', Notes h h' → Q r h') :
    (filing rt Due).wp (getActive tenantId) Q h := by
  refine bw_reading ?_ hQ
  exact (reads_query _).bind fun _ => (reads_scalarOneOrNone _).bind fun _ => trivial

theorem bw_claim (hb : Begun h) (key : RevisionKey) (commandId : String)
    {Q : Except Error (Option ExecutionPermit) → List (Obs Db) → Prop}
    (hQ : ∀ e h', Q (.error e) h') (hnone : ∀ h', Begun h' → Q (.ok none) h')
    (hok : ∀ p h', Begun h' → Permitted h' p → Q (.ok (some p)) h') :
    (filing rt Due).wp (Worker.claim rt key commandId) Q h := by
  refine Watch.wp_handle (bw_session ?_)
  have hrolled : ∀ h', Begun (.did .rollback () :: h') := begun_rollback
  have herr : ∀ e h', h <:+ h' → Watch.orElse (filing rt Due) (fun x =>
      if x.isStateConflict = true then return none else .raise x) Q (.error e)
      (.did .rollback () :: h') := fun e h' _ =>
    Watch.wp_ite (fun _ => hnone _ (hrolled h')) fun _ => hQ e _
  refine Watch.wp_bind (bw_getActive key.tenantId fun r h₁ hn₁ => ?_)
  match r with
  | .error e => exact herr e h₁
  | .ok none => exact fun _ => hnone _ (hrolled h₁)
  | .ok (some bundle) =>
      refine Watch.wp_bind (bw_claimAndRevalidate (hb.notes hn₁) _ herr
        (fun f h₂ _ _ => hnone _ (hrolled h₂)) fun p h₂ _ hp _ => ?_)
      exact hok p _ (hrolled h₂) (hp.suffix (List.suffix_cons _ _))

theorem bw_execute (hb : Begun h) {permit : ExecutionPermit} (hp : Permitted h permit)
    {commandId : String} {Q : Except Error Bool → List (Obs Db) → Prop}
    (hQ : ∀ e h', Q (.error e) h') (hok : ∀ b h', Begun h' → Q (.ok b) h') :
    (filing rt Due).wp (Worker.execute rt permit commandId) Q h := by
  refine Watch.wp_handle (Watch.wp_bind (bw_transaction (fun e h' _ hb' => ?_) ?_))
  · exact Watch.wp_ite (fun _ => hok _ h' hb') fun _ => hQ e h'
  · refine bw_executePermit hb hp (fun _ _ => trivial) fun r h' hsettled => ?_
    exact ⟨hsettled, fun _ hb' => hok _ _ hb'⟩

theorem bw_executeEligible (keys : List RevisionKey) (stats : Stats) (hb : Begun h)
    {Q : Except Error Stats → List (Obs Db) → Prop} (hQ : ∀ e h', Q (.error e) h')
    (hok : ∀ n h', Begun h' → Q (.ok n) h') :
    (filing rt Due).wp (executeEligible rt keys stats) Q h := by
  induction keys generalizing h stats with
  | nil => exact hok _ h hb
  | cons key rest ih =>
      refine Watch.wp_bind ⟨trivial, fun id _ => ?_⟩
      have hn := notes_cons (o := (.did (.draw .uuid) id : Obs Db)) ⟨trivial, trivial⟩ h
      refine Watch.wp_bind (bw_claim (hb.notes hn) key _ hQ (fun h' hb' => ih _ hb')
        fun p h' hb' hp => ?_)
      exact Watch.wp_bind (bw_execute hb' hp hQ fun b h'' hb'' => ih _ hb'')

/-! ## Reconcile -/

theorem bw_reconcileOne (hb : Begun h) {executionId : UUID} {commandId : String}
    (hdue : ∀ h', h <:+ h' → Due h' executionId) {Q : Except Error Bool → List (Obs Db) → Prop}
    (hQ : ∀ e h', Q (.error e) h') (hok : ∀ b h', h <:+ h' → Begun h' → Q (.ok b) h') :
    (filing rt Due).wp (reconcileOne rt executionId commandId) Q h := by
  refine Watch.wp_handle (Watch.wp_bind (bw_transaction (fun e h' hs hb' => ?_) ?_))
  · exact Watch.wp_ite (fun _ => hok _ h' hs hb') fun _ => hQ e h'
  · refine bw_reconcile hb hdue (fun _ _ => trivial) fun r h' hsettled => ?_
    exact ⟨hsettled, fun hs hb' => hok _ _ hs hb'⟩

theorem bw_reconcileDue (ids : List UUID) (stats : Stats) (hb : Begun h)
    (hdue : ∀ id ∈ ids, ∀ h', h <:+ h' → Due h' id)
    {Q : Except Error Stats → List (Obs Db) → Prop} (hQ : ∀ e h', Q (.error e) h')
    (hok : ∀ n h', Begun h' → Q (.ok n) h') :
    (filing rt Due).wp (reconcileDue rt ids stats) Q h := by
  induction ids generalizing h stats with
  | nil => exact hok _ h hb
  | cons id rest ih =>
      refine Watch.wp_bind ⟨trivial, fun commandId _ => ?_⟩
      have hn := notes_cons (o := (.did (.draw .uuid) commandId : Obs Db)) ⟨trivial, trivial⟩ h
      refine Watch.wp_bind (bw_reconcileOne (hb.notes hn)
        (fun h' hs => hdue id List.mem_cons_self h' (hn.suffix.trans hs)) hQ fun b h' hs hb' => ?_)
      exact ih _ hb' fun id' hid h'' hs' =>
        hdue id' (List.mem_cons_of_mem _ hid) h'' (hn.suffix.trans (hs.trans hs'))

/-! ## The tick -/

/-- The executions of a due list that the process has drawn up are due. -/
def Scheduled (Due : List (Obs Db) → UUID → Prop) : Prop :=
  ∀ (h : List (Obs Db)) (σ : Store) (now : Time) (rank : Nat → Nat),
    (.did .select (σ, now) : Obs Db) ∈ h → ∀ id ∈ dueExecutions now rank σ, Due h id

theorem bw_runWorkerTick (hb : Begun h) (hdue : Scheduled Due)
    {Q : Except Error Stats → List (Obs Db) → Prop} (hQ : ∀ r h', Q r h') :
    (filing rt Due).wp (runWorkerTick rt) Q h := by
  refine Watch.wp_bind (bw_recoverStaleExecuting hb (fun e h' => hQ _ h') fun n h₁ hb₁ => ?_)
  refine Watch.wp_bind (bw_session ?_)
  refine Watch.wp_bind (bw_select hb₁.toUnwritten fun σ now h₂ hn₂ _ heq _ _ => ?_)
  refine Watch.wp_bind ⟨trivial, fun rank _ _ => ?_⟩
  -- The snapshot of the due executions is in the history from here on.
  have hselect : (.did .select (σ, now) : Obs Db) ∈
      (.did .rollback () :: .did (.draw .order) rank :: h₂ : List (Obs Db)) := by
    rw [heq]
    exact List.mem_cons_of_mem _ (List.mem_cons_of_mem _ List.mem_cons_self)
  refine Watch.wp_bind (bw_session (bw_reading (reads_scan eligibleKeys) fun r h₃ _ hs₃ => ?_))
  cases r with
  | error e => exact hQ _ _
  | ok keys =>
      refine Watch.wp_bind (Watch.wp_mono (fun r h₄ hr => ?_) (Watch.wp_suffix
        (bw_executeEligible (Q := fun r h' => ∀ n, r = .ok n → Begun h') (keys.take tickLimit)
          ⟨0, 0, 0, n⟩ (begun_rollback h₃) (fun _ _ _ hn => by cases hn) fun _ _ hb' _ _ => hb')))
      obtain ⟨hs₄, hb₄⟩ := hr
      cases r with
      | error e => exact hQ _ _
      | ok stats =>
          have hdue' : ∀ id ∈ dueExecutions now rank σ, ∀ h', h₄ <:+ h' → Due h' id := by
            intro id hid h' hs'
            have hs := hs₃.trans ((List.suffix_cons _ h₃).trans (hs₄.trans hs'))
            exact hdue h' σ now rank (hs.subset hselect) id hid
          refine Watch.wp_bind (bw_reconcileDue _ stats (hb₄ stats rfl) hdue' (fun _ _ => hQ _ _)
            fun stats' h₅ hb₅ => ?_)
          refine Watch.wp_bind (Watch.wp_bind ⟨trivial, fun answer _ => ?_⟩)
          cases answer with
          | none => exact hQ _ _
          | some e => exact hQ _ _

/-! ## Operations -/

/-- A reconciliation outside a tick is due when the watch says so of its execution. -/
def AdmitsReconcile (Due : List (Obs Db) → UUID → Prop) : Op → Prop
  | .reconcile executionId _ _ => ∀ h, Due h executionId
  | _ => True

theorem bw_code (hdue : Scheduled Due) (op : Op) (hop : AdmitsReconcile Due op) :
    (filing rt Due).wp (code rt op) (fun _ _ => True) [] := by
  cases op with
  | claim request =>
      refine Watch.wp_bind (Watch.wp_handle (bw_claimAndRevalidate begun_nil request
        (fun e h' => ?_) (fun _ _ _ => trivial) fun _ _ _ _ => trivial))
      exact Watch.wp_bind ⟨trivial, fun _ _ => trivial⟩
  | reconcile executionId workerId commandId =>
      refine Watch.wp_bind (bw_transaction (fun _ _ _ _ => trivial) ?_)
      refine bw_reconcile begun_nil (fun h' _ => hop h') (fun _ _ => trivial) fun r h' hsettled => ?_
      exact ⟨hsettled, fun _ _ => trivial⟩
  | recover =>
      exact Watch.wp_bind (bw_recoverStaleExecuting begun_nil (fun _ _ => trivial)
        fun _ _ _ => trivial)
  | workerTick =>
      refine Watch.wp_bind (bw_runWorkerTick begun_nil hdue fun r h' => ?_)
      cases r with
      | error e => exact trivial
      | ok stats => exact trivial
  | _ => exact Watch.wp_mono (fun _ _ _ => trivial) (steady_code (by exact trivial) [] apart_nil)

/-! ## Runs -/

variable {allowed : Op → Prop} {s : State}

/-- Every commit of the run is a deed and every lookup polls a row that is due. -/
theorem filing_of_run (hdue : Scheduled Due) (hop : ∀ op, allowed op → AdmitsReconcile Due op)
    (h : Run rt allowed s) :
    (filing rt Due).Followed (fun _ _ _ => True) s ∧ Keyed s.db := by
  obtain ⟨assignments, bundles, h⟩ := h
  refine Watch.followed_of_reachable keyed_apply (fun h w hw => ?_) (fun h k w hw => ?_)
    (fun op ho => bw_code hdue op (hop op ho)) (fun x hx => absurd hx List.not_mem_nil) h
  · rintro row rfl
    cases hw
  · rintro row rfl
    exact hw.2

end Rounds

end HitlOps.Lifecycle
