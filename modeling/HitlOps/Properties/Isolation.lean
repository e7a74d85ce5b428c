import HitlOps.Properties.Items
import HitlOps.Properties.Rows

/-!
# When a tick attempts every item

For a store, a time and a behaviour of the adapter: the ticks that take these snapshots of the store
all attempt every item and run the publisher exactly when no ready revision of them can spoil the
first loop, and no lookup of them can be cancelled. Both are read off the rows, the active bundles and
what the adapter may answer.
-/

set_option autoImplicit false

namespace HitlOps.Properties

open HitlOps.Python HitlOps.Domain HitlOps.Infrastructure HitlOps.Application HitlOps.Adapters
open HitlOps.Transaction HitlOps.Worker

/-! ## The inputs of a tick -/

/-- What may be answered to a call. -/
abbrev Behaviour := ∀ c : Call, Answer c → Prop

/-- The calls are answered within the behaviour. -/
def Gives (A : Behaviour) (moments : Nat → Moment Db) : Prop := ∀ n c, A c ((moments n).answer c)

theorem Gives.later {A : Behaviour} {d d' : Desk Db} (hA : Gives A d.moments) (h : Desk.Later d d') :
    Gives A d'.moments := by
  obtain ⟨k, hk⟩ := h.moments
  intro n c
  rw [hk]
  exact hA (k + n) c

/-- A store as the program fills it: within the constraints of the schema, tenants that their column
holds, execution rows in step with the log, and more identifiers that are free than a tick takes. -/
structure InOrder (s : Store) : Prop extends s.Constrained where
  tenants : ∀ i ∈ s.intents, fits 63 i.key.tenantId = true
  inStep : Lifecycle.InStep s
  uniqueIds : Lifecycle.UniqueIds s
  free : ∃ ids : List UUID, ids.Nodup ∧ tickLimit < ids.length ∧
    ∀ id ∈ ids, ∀ e ∈ s.executions, e.id ≠ id

/-- Where the first loop comes to one of the items, the identifiers to come are those of no execution. -/
def FreshAlong (rt : Runtime) (keys : List RevisionKey) (stats : Stats) (d : Desk Db) : Prop :=
  ∀ k < keys.length, ∀ stats' d', (executeEligible rt (keys.take k) stats).alone d = (.ok stats', d') →
    FreshMoments d'.moments d'.db

/-- The tick takes these snapshots of the store `db` at the time `now`; its adapter keeps to the
behaviour `A`, and the identifiers that it mints are fresh. -/
def TickOn (rt : Runtime) (A : Behaviour) (s : Snapshots) (db : Store) (now : Time) (d : Desk Db) :
    Prop :=
  ∃ d₀, takeSnapshots.alone d = (.ok s, d₀) ∧ d₀.db = db ∧ d₀.clock = now ∧ Gives A d₀.moments ∧
    FreshAlong rt s.eligible s.stats d₀

/-! ## The condition -/

/-- A claim at `t` for this target ends in a permit: the gates pass on the rows of the revision. -/
structure Permits (rt : Runtime) (db : Store) (i : ActionIntent) (bundle : PolicyBundle) (t : Time)
    (snapshot : TargetSnapshot) : Prop where
  gates : ∃ policy rank, Cleared rt db i policy t rank ∧ Lifecycle.PolicyLets rt i policy bundle
  target : checkPreconditions i.canonicalParameters snapshot = none

/-- How a ready revision may end a tick that comes to its gates at `t`. -/
inductive Spoils (rt : Runtime) (A : Behaviour) (db : Store) (i : ActionIntent) (bundle : PolicyBundle)
    (t : Time) : Prop
  /-- The fetch of its target is cancelled. -/
  | cancelled (hfetch : A (.fetch i.tool i.canonicalParameters) .cancelled)
  /-- The row of its policy is missing. -/
  | unevaluated {snapshot : TargetSnapshot}
      (hfetch : A (.fetch i.tool i.canonicalParameters) (.snapshot snapshot))
      (hdigest : recomputeDigest rt i = i.intentDigest) (hnone : db.policiesOf i.key = [])
  /-- The evaluator raises on the active bundle. -/
  | policy {snapshot : TargetSnapshot} {policy : PolicyEvaluation} {rank : Nat → Nat}
      (hfetch : A (.fetch i.tool i.canonicalParameters) (.snapshot snapshot))
      (hcleared : Cleared rt db i policy t rank)
      (heval : ∃ x, evaluatePolicy rt i.tool (evaluateRisk i.tool i.canonicalParameters {})
        i.canonicalParameters bundle = .error x)
  /-- The column of the snapshot does not hold the target. -/
  | target {snapshot : TargetSnapshot}
      (hfetch : A (.fetch i.tool i.canonicalParameters) (.snapshot snapshot))
      (hpermits : Permits rt db i bundle t snapshot)
      (hcolumn : storableDict (preconditionSnapshot snapshot) = false)
  /-- The answer to its execution cannot be recorded. -/
  | answer {snapshot : TargetSnapshot} {answer : ExecuteAnswer}
      (hfetch : A (.fetch i.tool i.canonicalParameters) (.snapshot snapshot))
      (hpermits : Permits rt db i bundle t snapshot)
      (hcolumn : storableDict (preconditionSnapshot snapshot) = true)
      (hexecute : A (.execute i.tool (sentCommand rt i snapshot)) answer)
      (hrefused : ¬ Recordable rt answer)

/-- The claim or the execution of the revision may end a tick that comes to its gates at `t`. -/
def Spoiled (rt : Runtime) (A : Behaviour) (db : Store) (key : RevisionKey) (t : Time) : Prop :=
  ∃ i row, db.intent? key = some i ∧ db.activeBundles key.tenantId = [row] ∧
    Spoils rt A db i row.bundle t

/-- The lookup of the execution may be cancelled. -/
def LookupCancelled (A : Behaviour) (db : Store) (id : UUID) : Prop :=
  ∃ e i, db.execution? id = some e ∧ db.intent? e.key = some i ∧ A (lookupOf e i) .cancelled

/-- No item of the snapshots may end the tick: no ready revision at a time from `now` on, and no
execution that is due. -/
structure Unspoiled (rt : Runtime) (A : Behaviour) (s : Snapshots) (db : Store) (now : Time) :
    Prop where
  claims : ∀ key ∈ s.eligible, ∀ t, now ≤ t → ¬ Spoiled rt A db key t
  lookups : ∀ id ∈ s.due, ¬ LookupCancelled A db id

/-! ## The rows of an item -/

section Rows

variable {rt : Runtime} {A : Behaviour} {U : UUID → Prop} {key other : RevisionKey} {db s : Store}
  {i : ActionIntent} {bundle : PolicyBundle} {t : Time} {policy : PolicyEvaluation} {rank : Nat → Nat}

theorem Spares.policiesOf (h : Spares key U db s) (k : RevisionKey) :
    s.policiesOf k = db.policiesOf k := by
  unfold Store.policiesOf
  rw [h.policies]

theorem Spares.onePolicy (h : Spares key U db s) {k : RevisionKey} (hone : OnePolicy db k) :
    OnePolicy s k := by
  unfold OnePolicy
  rw [h.policiesOf]
  exact hone

theorem Spares.approvalsOf (h : Spares key U db s) (k : RevisionKey) :
    s.approvalsOf k = db.approvalsOf k := by
  unfold Store.approvalsOf Store.decisionsOf
  rw [h.decisions]

theorem Spares.loadAssignments (h : Spares key U db s) (tenantId principalId : String) :
    s.loadAssignments tenantId principalId = db.loadAssignments tenantId principalId := by
  unfold Store.loadAssignments Store.assignmentsOf
  rw [h.assignments]

theorem Spares.activeBundles (h : Spares key U db s) (tenantId : String) :
    s.activeBundles tenantId = db.activeBundles tenantId := by
  unfold Store.activeBundles
  rw [h.bundles]

/-- The first two gates read the evaluation, the decisions and the assignments. -/
theorem Spares.cleared (h : Spares key U db s) :
    Cleared rt s i policy t rank ↔ Cleared rt db i policy t rank := by
  have happrovals : ApprovalsHold s i policy t (arrange rank (s.approvalsOf i.key)) ↔
      ApprovalsHold db i policy t (arrange rank (db.approvalsOf i.key)) := by
    unfold ApprovalsHold Authorized
    simp only [h.approvalsOf, h.loadAssignments]
  constructor
  · rintro ⟨hdigest, hstored, hwindow, hhold⟩
    rw [h.policiesOf] at hstored
    exact ⟨hdigest, hstored, hwindow, happrovals.1 hhold⟩
  · rintro ⟨hdigest, hstored, hwindow, hhold⟩
    rw [← h.policiesOf] at hstored
    exact ⟨hdigest, hstored, hwindow, happrovals.2 hhold⟩

/-- A move of the intent changes nothing that the first two gates read. -/
theorem cleared_moved {target : IntentState} :
    Cleared rt db (moved i target) policy t rank ↔ Cleared rt db i policy t rank :=
  ⟨fun h => ⟨h.digest, h.stored, h.window, h.approvals⟩,
    fun h => ⟨h.digest, h.stored, h.window, h.approvals⟩⟩

theorem Spares.permits {snapshot : TargetSnapshot} (h : Spares key U db s) :
    Permits rt s i bundle t snapshot ↔ Permits rt db i bundle t snapshot := by
  constructor
  · rintro ⟨⟨policy, rank, hcleared, hlets⟩, htarget⟩
    exact ⟨⟨policy, rank, h.cleared.1 hcleared, hlets⟩, htarget⟩
  · rintro ⟨⟨policy, rank, hcleared, hlets⟩, htarget⟩
    exact ⟨⟨policy, rank, h.cleared.2 hcleared, hlets⟩, htarget⟩

theorem Spares.spoils (h : Spares key U db s) :
    Spoils rt A s i bundle t ↔ Spoils rt A db i bundle t := by
  constructor
  · intro hs
    cases hs with
    | cancelled hfetch => exact .cancelled hfetch
    | unevaluated hfetch hdigest hnone => exact .unevaluated hfetch hdigest (h.policiesOf _ ▸ hnone)
    | policy hfetch hcleared heval => exact .policy hfetch (h.cleared.1 hcleared) heval
    | target hfetch hpermits hcolumn => exact .target hfetch (h.permits.1 hpermits) hcolumn
    | answer hfetch hpermits hcolumn hexecute hrefused =>
        exact .answer hfetch (h.permits.1 hpermits) hcolumn hexecute hrefused
  · intro hs
    cases hs with
    | cancelled hfetch => exact .cancelled hfetch
    | unevaluated hfetch hdigest hnone =>
        exact .unevaluated hfetch hdigest ((h.policiesOf _).trans hnone)
    | policy hfetch hcleared heval => exact .policy hfetch (h.cleared.2 hcleared) heval
    | target hfetch hpermits hcolumn => exact .target hfetch (h.permits.2 hpermits) hcolumn
    | answer hfetch hpermits hcolumn hexecute hrefused =>
        exact .answer hfetch (h.permits.2 hpermits) hcolumn hexecute hrefused

/-- An item of another revision spoils the tick as before. -/
theorem Spares.spoiled (h : Spares key U db s) (hother : other ≠ key) :
    Spoiled rt A s other t ↔ Spoiled rt A db other t := by
  unfold Spoiled
  simp only [h.intents other hother, h.activeBundles, h.spoils]

/-- Another revision stays ready. -/
theorem Spares.ready (h : Spares key U db s)
    (hother : ¬ (other.intentId = key.intentId ∧ other.revision = key.revision))
    (hrow : ReadyRow other i db) : ReadyRow other i s where
  intent := (h.intents other fun hk => hother (hk ▸ ⟨rfl, rfl⟩)).trans hrow.intent
  state := hrow.state
  unclaimed := (h.executions _ _ hother).trans hrow.unclaimed
  bundle := (h.activeBundles _).symm ▸ hrow.bundle
  policy := h.onePolicy hrow.policy
  tenant := hrow.tenant

/-- The rows of an execution of another revision stay, when its identifier is not minted anew. -/
theorem Spares.unknown {e : Execution} (h : Spares key U db s) (hkey : e.key ≠ key) (hU : ¬ U e.id)
    (hrow : UnknownRow e i db) : UnknownRow e i s where
  row := h.rows _ _ hrow.row hkey
  intent := (h.intents _ hkey).trans hrow.intent
  state := hrow.state
  own := fun e' he' hid => by
    rcases h.ids e' he' with ⟨e₀, he₀, hid₀, hkey₀⟩ | hminted
    · rw [← hkey₀]
      exact hrow.own e₀ he₀ (hid₀.trans hid)
    · rw [hid] at hminted
      exact absurd hminted hU

end Rows

/-! ## One iteration of the first loop -/

section Claims

variable {rt : Runtime} {A : Behaviour} {U : UUID → Prop} {key : RevisionKey} {commandId : String}
  {i : ActionIntent} {bundle : PolicyBundle} {d d' : Desk Db} {stats : Stats}

/-- A permit of the row, sent for a target that the gates let at `t`. -/
structure Permitted (rt : Runtime) (A : Behaviour) (key : RevisionKey) (U : UUID → Prop)
    (i : ActionIntent) (bundle : PolicyBundle) (d d' : Desk Db) (permit : ExecutionPermit)
    (snapshot : TargetSnapshot) (t : Time) : Prop where
  fetched : A (.fetch i.tool i.canonicalParameters) (.snapshot snapshot)
  time : d.clock ≤ t
  permits : Permits rt d.db i bundle t snapshot
  column : storableDict (preconditionSnapshot snapshot) = true
  spares : Spares key U d.db d'.db
  rows : ∃ id expires, permit = permitFor rt (moved (moved i .revalidating) .executing)
      (withTarget (claimedExecution id key expires) snapshot) t ∧
    Held key (moved (moved i .revalidating) .executing)
      (started (claimedExecution id key expires) snapshot t) d'.db

/-- What a claim under a bundle says about the inputs. -/
theorem BundleRun.outcome {r : Except Error (Except RevalidationFailure ExecutionPermit)}
    (h : BundleRun rt key U i bundle d d' r) (hkey : i.key = key) (hone : OnePolicy d.db key)
    (hA : Gives A d.moments) :
    (∃ x t, r = .error x ∧ d.clock ≤ t ∧ Spoils rt A d.db i bundle t) ∨
      (∃ f, r = .ok (.error f) ∧ Spares key U d.db d'.db) ∨
      ∃ permit snapshot t, r = .ok (.ok permit) ∧
        Permitted rt A key U i bundle d d' permit snapshot t := by
  cases h with
  | @cancelled n hfetch =>
      exact Or.inl ⟨_, d.clock, rfl, Nat.le_refl _, .cancelled (hfetch ▸ hA n _)⟩
  | unfetched hfetch hspares => exact Or.inr (Or.inl ⟨_, rfl, hspares⟩)
  | @gated snapshot n m id expires t s g r hfetch hspares hstart hend hread hconcludes =>
      have hA' : A (.fetch i.tool i.canonicalParameters) (.snapshot snapshot) := hfetch ▸ hA n _
      have hone' : OnePolicy s (moved i .revalidating).key := hspares.onePolicy (hkey ▸ hone)
      cases hconcludes with
      | raised hfatal =>
          -- The rows of other items are as before the claim, so the reason is in the first store.
          refine Or.inl ⟨_, t, rfl, hstart, ?_⟩
          obtain ⟨hdigest, hnone | ⟨policy, hcleared, heval⟩⟩ :=
            (readOn_gates_error hone').1 ⟨_, hread⟩
          · exact .unevaluated hA' hdigest ((hspares.policiesOf _).symm.trans hnone)
          · exact .policy hA' (hspares.cleared.1 (cleared_moved.1 hcleared)) heval
      | failed hspares' => exact Or.inr (Or.inl ⟨_, rfl, hspares.trans hspares'⟩)
      | unstorable hsnapshot =>
          obtain ⟨policy, hcleared, hlets, htarget, -⟩ := readOn_gates_passed.1 hread
          exact Or.inl ⟨_, t, rfl, hstart, .target hA'
            ⟨⟨policy, _, hspares.cleared.1 (cleared_moved.1 hcleared), hlets⟩, htarget⟩ hsnapshot⟩
      | permitted hsnapshot hspares' hheld =>
          obtain ⟨policy, hcleared, hlets, htarget, -⟩ := readOn_gates_passed.1 hread
          exact Or.inr (Or.inr ⟨_, snapshot, t, rfl, hA', hstart,
            ⟨⟨policy, _, hspares.cleared.1 (cleared_moved.1 hcleared), hlets⟩, htarget⟩, hsnapshot,
            hspares.trans hspares', id, expires, rfl, hheld⟩)

/-- The attempt to execute a permit of a claim. -/
theorem Permitted.execute {permit : ExecutionPermit} {snapshot : TargetSnapshot} {t : Time}
    (h : Permitted rt A key U i bundle d d' permit snapshot t) (hkey : i.key = key)
    (hclosed : d'.session = .closed) (htexts : Texts key commandId) : ∃ r d'',
      (executeAttempt rt permit commandId).alone d' = (r, d'') ∧
        ExecuteRun rt key U i.tool (sentCommand rt i snapshot) d' d'' r := by
  obtain ⟨id, expires, rfl, hheld⟩ := h.rows
  exact alone_executeAttempt hclosed htexts hheld rfl ⟨rfl, rfl, rfl⟩ rfl hkey

/-- What the attempt of a claim says about the inputs. -/
theorem ClaimRun.outcome {r : Except Error (Option ExecutionPermit)} (h : ClaimRun rt key U i d d' r)
    (hrow : ReadyRow key i d.db) (hA : Gives A d.moments) :
    (∃ x t, r = .error x ∧ x.isStateConflict = false ∧ d.clock ≤ t ∧ Spoiled rt A d.db key t) ∨
      (r = .ok none ∧ Spares key U d.db d'.db) ∨
      ∃ row permit snapshot t, d.db.activeBundles key.tenantId = [row] ∧ r = .ok (some permit) ∧
        Permitted rt A key U i row.bundle d d' permit snapshot t := by
  have hkey : i.key = key := Lifecycle.key_of_intent? hrow.intent
  cases h with
  | idle hbundle hdb =>
      refine Or.inr (Or.inl ⟨rfl, ?_⟩)
      rw [hdb]
      exact Spares.refl _ _ _
  | @under row r hbundle hrun =>
      rcases hrun.outcome hkey hrow.policy hA with ⟨x, t, rfl, ht, hspoils⟩ | ⟨f, rfl, hspares⟩ |
        ⟨permit, snapshot, t, rfl, hpermitted⟩
      · refine Or.inl ⟨x, t, rfl, ?_, ht, i, row, hrow.intent, hbundle, hspoils⟩
        exact (ClaimRun.under hbundle hrun).fatal
      · exact Or.inr (Or.inl ⟨rfl, hspares⟩)
      · exact Or.inr (Or.inr ⟨row, permit, snapshot, t, hbundle, rfl, hpermitted⟩)

theorem texts_of_ready (hrow : ReadyRow key i d.db) (id : UUID) : Texts key id.hex :=
  ⟨storableText_of_fits hrow.tenant, storableText_hex id⟩

theorem closed_claimAttempt (d : Desk Db) :
    ((claimAttempt rt key commandId).alone d).2.session = .closed := Prog.closed_session _ d

theorem closed_executeAttempt (permit : ExecutionPermit) (d : Desk Db) :
    ((executeAttempt rt permit commandId).alone d).2.session = .closed := by
  have h := Prog.closed_transaction (D := Db) (executePermit rt permit workerId commandId) d
  unfold executeAttempt
  rw [Prog.alone_bind]
  rcases hrun : (Prog.transaction (D := Db) (executePermit rt permit workerId commandId)).alone d with
    ⟨r, d'⟩
  rw [hrun] at h
  cases r with
  | ok a => exact h
  | error x => exact h

/-- One iteration of the first loop: the revision spoils the tick, or the loop goes on. -/
theorem alone_iteration (rt : Runtime) (stats : Stats) (hclosed : d.session = .closed)
    (hrow : ReadyRow key i d.db) (hfresh : FreshMoments d.moments d.db)
    (hU : ∀ n, U ((d.moments n).draw .uuid)) (hA : Gives A d.moments) :
    (∃ t, d.clock ≤ t ∧ Spoiled rt A d.db key t) ∨ ∃ stats' d',
      (executeEligible rt [key] stats).alone d = (.ok stats', d') ∧ d'.session = .closed ∧
        Spares key U d.db d'.db := by
  have htexts : Texts key (commandIdAt d) := texts_of_ready hrow _
  obtain ⟨r, d₁, hclaim, hrun⟩ := @alone_claimAttempt rt key U (commandIdAt d) i d.wait hclosed htexts
    hrow (fun n => hfresh (n + 1)) fun n => hU (n + 1)
  have hclosed₁ := @closed_claimAttempt rt key (commandIdAt d) d.wait
  rw [hclaim] at hclosed₁
  rcases hrun.outcome hrow (fun n c => hA (n + 1) c) with ⟨x, t, rfl, -, ht, hspoiled⟩ |
    ⟨rfl, hspares⟩ | ⟨row, permit, snapshot, t, hbundle, rfl, hpermitted⟩
  · exact Or.inl ⟨t, Nat.le_trans (Desk.later_wait d).clock ht, hspoiled⟩
  · exact Or.inr ⟨_, d₁, alone_skipped hclaim, hclosed₁, hspares⟩
  · obtain ⟨r₂, d₂, hexecute, hsent⟩ := hpermitted.execute
      (Lifecycle.key_of_intent? hrow.intent) hclosed₁ htexts
    have hlater := Prog.later_of_alone hclaim
    cases hsent with
    | recorded hanswer hspares =>
        have hclosed₂ := @closed_executeAttempt rt (commandIdAt d) permit d₁
        rw [hexecute] at hclosed₂
        exact Or.inr ⟨_, d₂, alone_executed hclaim hexecute, hclosed₂, hpermitted.spares.trans hspares⟩
    | @refused n x hanswer hfatal =>
        refine Or.inl ⟨t, Nat.le_trans (Desk.later_wait d).clock hpermitted.time, i, row, hrow.intent,
          hbundle, .answer hpermitted.fetched hpermitted.permits hpermitted.column ?_ hanswer⟩
        exact (hA.later ((Desk.later_wait d).trans hlater)) n _

end Claims

/-! ## Items that end a tick -/

/-- Moments that are alike, but for the time in front of the first one. -/
def steady (pause : Time) (id : UUID) (rank : Nat → Nat) (answer : ∀ c, Answer c) (n : Nat) :
    Moment Db where
  elapsed := if n = 0 then pause else 0
  draw
    | .now => 0
    | .uuid => id
    | .order => rank
  answer := answer

section Endings

variable {rt : Runtime} {A : Behaviour} {U : UUID → Prop} {key : RevisionKey} {i : ActionIntent}
  {bundle : PolicyBundle} {d d' : Desk Db} {stats : Stats} {snapshot : TargetSnapshot}
  {rank : Nat → Nat} {id : UUID} {t : Time}

/-- The answer to one call may be exchanged. -/
theorem exists_answer {f : ∀ c, Answer c} (hf : ∀ c, A c (f c)) {c : Call} {a : Answer c} (ha : A c a) :
    ∃ g : ∀ c, Answer c, (∀ c, A c (g c)) ∧ g c = a ∧ ∀ b, b ≠ c → g b = f b := by
  refine ⟨Function.update f c a, fun b => ?_, Function.update_self .., fun b hb => ?_⟩
  · by_cases hb : b = c
    · subst hb
      rw [Function.update_self]
      exact ha
    · rw [Function.update_of_ne hb]
      exact hf b
  · exact Function.update_of_ne hb ..

/-- When the target is fetched at every moment and the clock stands still, a claim comes to its gates. -/
theorem BundleRun.gates {r : Except Error (Except RevalidationFailure ExecutionPermit)}
    (h : BundleRun rt key U i bundle d d' r)
    (hfetch : ∀ n, (d.moments n).answer (.fetch i.tool i.canonicalParameters) = .snapshot snapshot)
    (hclock : d'.clock = d.clock) (hrank : ∀ n, (d.moments n).draw .order = rank) :
    ∃ id expires s v g, Spares key U d.db s ∧ v .order = rank ∧
      Prog.readOn (D := Db) s d.clock v (revalidateGates rt (moved i .revalidating)
        (claimedExecution id key expires) d.clock bundle snapshot) = some g ∧
      Concludes rt key U (moved i .revalidating) (claimedExecution id key expires) snapshot d.clock s
        d'.db g r := by
  cases h with
  | @cancelled n hcancelled =>
      rw [hfetch] at hcancelled
      cases hcancelled
  | @unfetched n f hfailed hspares =>
      rw [hfetch] at hfailed
      rcases hfailed with h | h
      · cases h
      · cases h
  | @gated snapshot' n m id expires t s g r hfetch' hspares hstart hend hread hconcludes =>
      rw [hfetch] at hfetch'
      cases hfetch'
      -- The time of the gates lies between the two desks.
      obtain rfl : t = d.clock := Nat.le_antisymm (hend.trans (Nat.le_of_eq hclock)) hstart
      exact ⟨id, expires, s, _, g, hspares, hrank m, hread, hconcludes⟩

/-- The gates raise: so does the claim. -/
theorem Concludes.of_error {j : ActionIntent} {x : Execution} {s s' : Store} {g : Except Error Gates}
    {r : Except Error (Except RevalidationFailure ExecutionPermit)}
    (h : Concludes rt key U j x snapshot t s s' g r) (hg : ∃ y, g = .error y) : ∃ y, r = .error y := by
  obtain ⟨y, rfl⟩ := hg
  cases h with
  | raised hfatal => exact ⟨y, rfl⟩

/-- The gates let the row: the claim ends in a permit exactly when the column holds the target. -/
theorem Concludes.of_passed {j : ActionIntent} {x : Execution} {s s' : Store} {g : Except Error Gates}
    {r : Except Error (Except RevalidationFailure ExecutionPermit)}
    (h : Concludes rt key U j x snapshot t s s' g r) (hg : g = .ok (.passed (withTarget x snapshot))) :
    (storableDict (preconditionSnapshot snapshot) = false ∧ ∃ y, r = .error y) ∨
      (storableDict (preconditionSnapshot snapshot) = true ∧ Spares key U s s' ∧
        Held key (moved j .executing) (started x snapshot t) s' ∧
        r = .ok (.ok (permitFor rt (moved j .executing) (withTarget x snapshot) t))) := by
  cases h with
  | raised hfatal => cases hg
  | failed hspares => cases hg
  | unstorable hsnapshot => exact Or.inl ⟨hsnapshot, _, rfl⟩
  | permitted hsnapshot hspares hheld => exact Or.inr ⟨hsnapshot, hspares, hheld, rfl⟩

/-- At steady moments gates that raise end the claim. -/
theorem BundleRun.of_raising {r : Except Error (Except RevalidationFailure ExecutionPermit)}
    (h : BundleRun rt key U i bundle d d' r) (hrow : ReadyRow key i d.db)
    (hfetch : ∀ n, (d.moments n).answer (.fetch i.tool i.canonicalParameters) = .snapshot snapshot)
    (hclock : d'.clock = d.clock) (hrank : ∀ n, (d.moments n).draw .order = rank)
    (hdigest : recomputeDigest rt i = i.intentDigest)
    (hraises : d.db.policiesOf i.key = [] ∨ ∃ policy, Cleared rt d.db i policy d.clock rank ∧
      ∃ x, evaluatePolicy rt i.tool (evaluateRisk i.tool i.canonicalParameters {})
        i.canonicalParameters bundle = .error x) : ∃ x, r = .error x := by
  obtain ⟨id, expires, s, v, g, hspares, rfl, hread, hconcludes⟩ := h.gates hfetch hclock hrank
  have hone : OnePolicy s (moved i .revalidating).key :=
    hspares.onePolicy (Lifecycle.key_of_intent? hrow.intent ▸ hrow.policy)
  have hcases : s.policiesOf (moved i .revalidating).key = [] ∨ ∃ policy,
      Cleared rt s (moved i .revalidating) policy d.clock (v .order) ∧
        ∃ x, evaluatePolicy rt i.tool (evaluateRisk i.tool i.canonicalParameters {})
          i.canonicalParameters bundle = .error x := by
    rcases hraises with hnone | ⟨policy, hcleared, heval⟩
    · exact Or.inl ((hspares.policiesOf _).trans hnone)
    · exact Or.inr ⟨policy, cleared_moved.2 (hspares.cleared.2 hcleared), heval⟩
  obtain ⟨x, hx⟩ := (readOn_gates_error hone).2 ⟨hdigest, hcases⟩
  rw [hread] at hx
  exact hconcludes.of_error ⟨x, Option.some.inj hx⟩

/-- At steady moments a claim whose gates pass ends in a permit, or in the column of its target. -/
theorem BundleRun.of_permits {r : Except Error (Except RevalidationFailure ExecutionPermit)}
    {policy : PolicyEvaluation} (h : BundleRun rt key U i bundle d d' r)
    (hfetch : ∀ n, (d.moments n).answer (.fetch i.tool i.canonicalParameters) = .snapshot snapshot)
    (hclock : d'.clock = d.clock) (hrank : ∀ n, (d.moments n).draw .order = rank)
    (hcleared : Cleared rt d.db i policy d.clock rank) (hlets : Lifecycle.PolicyLets rt i policy bundle)
    (htarget : checkPreconditions i.canonicalParameters snapshot = none) :
    (storableDict (preconditionSnapshot snapshot) = false ∧ ∃ x, r = .error x) ∨
      ∃ permit, r = .ok (.ok permit) ∧
        Permitted rt (fun _ _ => True) key U i bundle d d' permit snapshot d.clock := by
  obtain ⟨id, expires, s, v, g, hspares, rfl, hread, hconcludes⟩ := h.gates hfetch hclock hrank
  have hpassed : some g = some (.ok (.passed (withTarget (claimedExecution id key expires) snapshot))) :=
    hread.symm.trans (readOn_gates_passed.2
      ⟨policy, cleared_moved.2 (hspares.cleared.2 hcleared), hlets, htarget, rfl⟩)
  rcases hconcludes.of_passed (Option.some.inj hpassed) with hunstorable |
    ⟨hsnapshot, hspares', hheld, rfl⟩
  · exact Or.inl hunstorable
  · exact Or.inr ⟨_, rfl, trivial, Nat.le_refl _, ⟨⟨policy, _, hcleared, hlets⟩, htarget⟩, hsnapshot,
      hspares.trans hspares', id, expires, rfl, hheld⟩

/-- The desk of a tick whose claim comes to its gates at `t`. -/
def steadyDesk (d : Desk Db) (t : Time) (id : UUID) (rank : Nat → Nat) (answer : ∀ c, Answer c) :
    Desk Db := d.meeting (steady (t - d.clock) id rank answer)

/-- A claim at steady moments. -/
theorem alone_steadyClaim (rt : Runtime) (hclosed : d.session = .closed) (hrow : ReadyRow key i d.db)
    (hfree : ∀ e ∈ d.db.executions, e.id ≠ id) (ht : d.clock ≤ t) {row : PolicyBundleRow}
    (hbundle : d.db.activeBundles key.tenantId = [row]) (rank : Nat → Nat) (answer : ∀ c, Answer c) :
    ∃ r d', (claimAttempt rt key id.hex).alone (steadyDesk d t id rank answer).wait =
        (Except.map permitOf? r, d') ∧
      BundleRun rt key (· = id) i row.bundle (steadyDesk d t id rank answer).wait d' r ∧
      (steadyDesk d t id rank answer).wait.clock = t ∧ d'.clock = t := by
  have htime : (steadyDesk d t id rank answer).wait.clock = t := Nat.add_sub_of_le ht
  obtain ⟨r, d', hclaim, hrun⟩ := @alone_claimAttempt rt key (· = id) id.hex i
    (steadyDesk d t id rank answer).wait hclosed (texts_of_ready hrow id) hrow (fun _ => hfree)
    fun _ => rfl
  -- Only the moment in front of the claim takes time.
  have hclock := Prog.clock_alone (claimAttempt rt key id.hex)
    (d := (steadyDesk d t id rank answer).wait) fun _ => rfl
  rw [hclaim, htime] at hclock
  cases hrun with
  | idle hnone hdb =>
      have hnone : d.db.activeBundles key.tenantId = [] := hnone
      rw [hbundle] at hnone
      cases hnone
  | @under row' r hone hrun =>
      have hone : d.db.activeBundles key.tenantId = [row'] := hone
      rw [hbundle] at hone
      cases hone
      exact ⟨r, d', hclaim, hrun, htime, hclock⟩

/-- A claim that raises ends the loop. -/
theorem not_ends_of_error {x : Error}
    (h : (claimAttempt rt key (commandIdAt d)).alone d.wait = (.error x, d'))
    (hx : x.isStateConflict = false) : ¬ Ends (executeEligible rt [key] stats) d := by
  intro hends
  have hconflict := (ends_claim_one.1 hends).1 x d' h
  rw [hx] at hconflict
  cases hconflict

/-- An execution that raises ends the loop. -/
theorem not_ends_of_refused {permit : ExecutionPermit} {d'' : Desk Db} {x : Error}
    (h : (claimAttempt rt key (commandIdAt d)).alone d.wait = (.ok (some permit), d'))
    (hexecute : (executeAttempt rt permit (commandIdAt d)).alone d' = (.error x, d''))
    (hx : x.isStateConflict = false) : ¬ Ends (executeEligible rt [key] stats) d := by
  intro hends
  have hconflict := (ends_claim_one.1 hends).2 permit d' h x d'' hexecute
  rw [hx] at hconflict
  cases hconflict

/-- What spoils a tick at `t` ends one, at steady moments within the behaviour. -/
theorem exists_spoiling (stats : Stats) (hclosed : d.session = .closed) (hrow : ReadyRow key i d.db)
    (hA : ∀ c, ∃ a, A c a) (hfree : ∀ e ∈ d.db.executions, e.id ≠ id) (ht : d.clock ≤ t)
    (hspoiled : Spoiled rt A d.db key t) : ∃ m, Gives A m ∧ (∀ n, (m n).draw .uuid = id) ∧
      ¬ Ends (executeEligible rt [key] stats) (d.meeting m) := by
  have hkey : i.key = key := Lifecycle.key_of_intent? hrow.intent
  obtain ⟨i', row, hintent, hbundle, hspoils⟩ := hspoiled
  obtain rfl : i = i' := Option.some.inj (hrow.intent.symm.trans hintent)
  -- A claim that raises is enough.
  have hraise : ∀ rank answer, (∀ c, A c (answer c)) →
      (∀ r d', BundleRun rt key (· = id) i row.bundle (steadyDesk d t id rank answer).wait d' r →
        (steadyDesk d t id rank answer).wait.clock = t → d'.clock = t → ∃ x, r = .error x) →
      ∃ m, Gives A m ∧ (∀ n, (m n).draw .uuid = id) ∧
        ¬ Ends (executeEligible rt [key] stats) (d.meeting m) := by
    intro rank answer hanswer hall
    obtain ⟨r, d', hclaim, hrun, hstart, hend⟩ :=
      alone_steadyClaim rt hclosed hrow hfree ht hbundle rank answer
    obtain ⟨x, rfl⟩ := hall r d' hrun hstart hend
    have hclaimed : ClaimRun rt key (· = id) i (steadyDesk d t id rank answer).wait d' (.error x) :=
      ClaimRun.under (d := (steadyDesk d t id rank answer).wait) hbundle hrun
    exact ⟨_, fun _ => hanswer, fun _ => rfl,
      not_ends_of_error (d := steadyDesk d t id rank answer) hclaim hclaimed.fatal⟩
  choose f hf using hA
  cases hspoils with
  | cancelled hfetch =>
      obtain ⟨answer, hanswer, hcancelled, -⟩ := exists_answer hf hfetch
      refine hraise (fun n => n) answer hanswer fun r d' hrun _ _ => ?_
      have hanswers : ∀ n, ((steadyDesk d t id (fun n => n) answer).wait.moments n).answer
          (.fetch i.tool i.canonicalParameters) = .cancelled := fun _ => hcancelled
      cases hrun with
      | cancelled => exact ⟨_, rfl⟩
      | unfetched hfailed =>
          rw [hanswers] at hfailed
          rcases hfailed with h | h
          · cases h
          · cases h
      | gated hsnapshot =>
          rw [hanswers] at hsnapshot
          cases hsnapshot
  | unevaluated hfetch hdigest hnone =>
      obtain ⟨answer, hanswer, hsnapshot, -⟩ := exists_answer hf hfetch
      exact hraise (fun n => n) answer hanswer fun r d' hrun hstart hend =>
        hrun.of_raising hrow (fun _ => hsnapshot) (hend.trans hstart.symm) (fun _ => rfl) hdigest
          (Or.inl hnone)
  | policy hfetch hcleared heval =>
      obtain ⟨answer, hanswer, hsnapshot, -⟩ := exists_answer hf hfetch
      exact hraise _ answer hanswer fun r d' hrun hstart hend =>
        hrun.of_raising hrow (fun _ => hsnapshot) (hend.trans hstart.symm) (fun _ => rfl)
          hcleared.digest (Or.inr ⟨_, hstart.symm ▸ hcleared, heval⟩)
  | target hfetch hpermits hcolumn =>
      obtain ⟨policy, rank, hcleared, hlets⟩ := hpermits.gates
      obtain ⟨answer, hanswer, hsnapshot, -⟩ := exists_answer hf hfetch
      refine hraise rank answer hanswer fun r d' hrun hstart hend => ?_
      rcases hrun.of_permits (fun _ => hsnapshot) (hend.trans hstart.symm) (fun _ => rfl)
        (hstart.symm ▸ hcleared) hlets hpermits.target with ⟨-, hx⟩ | ⟨permit, -, hpermitted⟩
      · exact hx
      · rw [hpermitted.column] at hcolumn
        cases hcolumn
  | @answer snapshot refused hfetch hpermits hcolumn hexecute hrefused =>
      obtain ⟨policy, rank, hcleared, hlets⟩ := hpermits.gates
      obtain ⟨g, hg, hsnapshot, -⟩ := exists_answer hf hfetch
      obtain ⟨answer, hanswer, hanswered, hrest⟩ := exists_answer hg hexecute
      -- The answer to the execution is exchanged behind that to the fetch, and leaves it.
      have hsnapshot : answer (.fetch i.tool i.canonicalParameters) = .snapshot snapshot :=
        (hrest (.fetch _ _) fun h => nomatch h).trans hsnapshot
      obtain ⟨r, d', hclaim, hrun, hstart, hend⟩ :=
        alone_steadyClaim rt hclosed hrow hfree ht hbundle rank answer
      rcases hrun.of_permits (fun _ => hsnapshot) (hend.trans hstart.symm) (fun _ => rfl)
        (hstart.symm ▸ hcleared) hlets hpermits.target with ⟨hno, -⟩ | ⟨permit, rfl, hpermitted⟩
      · rw [hno] at hcolumn
        cases hcolumn
      · have hclosed' := @closed_claimAttempt rt key id.hex (steadyDesk d t id rank answer).wait
        rw [hclaim] at hclosed'
        obtain ⟨r₂, d'', hrun₂, hsent⟩ := hpermitted.execute hkey hclosed' (texts_of_ready hrow id)
        have hanswers := (Prog.later_of_alone hclaim).forall (P := fun m => m.answer = answer) fun _ => rfl
        cases hsent with
        | recorded hrecordable =>
            rw [hanswers, hanswered] at hrecordable
            exact absurd hrecordable hrefused
        | refused hno hfatal =>
            exact ⟨_, fun _ => hanswer, fun _ => rfl,
              not_ends_of_refused (d := steadyDesk d t id rank answer) hclaim hrun₂ hfatal⟩

/-- Behind a run on steady moments, other moments may follow. -/
theorem exists_followed {α : Type} {p : M α} {a : α} {f : ∀ c, Answer c} {next : Nat → Moment Db}
    {ids : List UUID} (hrun : p.alone (d.meeting (steady 0 id (fun n => n) f)) = (.ok a, d'))
    (hf : ∀ c, A c (f c)) (hid : id ∈ ids) (hnext : Gives A next)
    (hids : ∀ n, (next n).draw .uuid ∈ ids) : ∃ m, Gives A m ∧ (∀ n, (m n).draw .uuid ∈ ids) ∧
      p.alone (d.meeting m) = (.ok a, d'.meeting next) := by
  obtain ⟨m, hsplice, hm⟩ := Prog.exists_splice p (d.meeting (steady 0 id (fun n => n) f)) next
  rw [hrun] at hsplice
  refine ⟨m, fun n c => ?_, fun n => ?_, hsplice⟩
  · rcases hm n with ⟨k, hk⟩ | ⟨k, hk⟩
    · rw [hk]
      exact hf c
    · rw [hk]
      exact hnext k c
  · rcases hm n with ⟨k, hk⟩ | ⟨k, hk⟩
    · rw [hk]
      exact hid
    · rw [hk]
      exact hids k

end Endings

/-! ## The second loop -/

/-- The identifiers of executions that are due. -/
abbrev idsOf (due : List (Execution × ActionIntent)) : List UUID := due.map (·.1.id)

/-- The executions are due in the store, each for a revision of its own. -/
structure DueRows (due : List (Execution × ActionIntent)) (s : Store) : Prop where
  rows : ∀ x ∈ due, UnknownRow x.1 x.2 s
  keys : (due.map (·.1.key)).Nodup

section Lookups

variable {rt : Runtime} {A : Behaviour} {e : Execution} {i : ActionIntent} {d : Desk Db} {stats : Stats}
  {due : List (Execution × ActionIntent)} {id : UUID}

/-- One iteration of the second loop: it ends exactly when its lookup is not cancelled. -/
theorem alone_lookup (rt : Runtime) (stats : Stats) (hclosed : d.session = .closed)
    (hrow : UnknownRow e i d.db) :
    ((d.moments 3).answer (lookupOf e i) = .cancelled ∧ ¬ Ends (reconcileDue rt [e.id] stats) d) ∨
      ((d.moments 3).answer (lookupOf e i) ≠ .cancelled ∧ ∃ stats' d',
        (reconcileDue rt [e.id] stats).alone d = (.ok stats', d') ∧ d'.session = .closed ∧
          Spares e.key (fun _ => False) d.db d'.db) := by
  obtain ⟨r, d', hattempt, hrun⟩ := @alone_reconcileAttempt rt (fun _ => False) (commandIdAt d) i e
    d.wait hclosed hrow
  by_cases hcancelled : (d.moments 3).answer (lookupOf e i) = .cancelled
  · obtain ⟨x, rfl, hx⟩ := hrun.uncaught.2 hcancelled
    refine Or.inl ⟨hcancelled, fun hends => ?_⟩
    have hexception := ends_reconcile_one.1 hends x d' hattempt
    rw [hx] at hexception
    cases hexception
  · refine Or.inr ⟨hcancelled, ?_⟩
    -- What is raised is passed over.
    have hone : ∃ done, (reconcileOne rt e.id (commandIdAt d)).alone d.wait = (.ok done, d') := by
      rw [reconcileOne_eq]
      cases r with
      | ok done => exact ⟨done, guarded_ok hattempt⟩
      | error x =>
          refine ⟨false, guarded_caught hattempt (Bool.not_eq_false _ |>.mp fun hx => ?_)⟩
          exact hcancelled (hrun.uncaught.1 ⟨x, rfl, hx⟩)
    obtain ⟨done, hdone⟩ := hone
    exact ⟨_, d', Prog.alone_bind_ok.2 ⟨_, d.wait, rfl, Prog.alone_bind_ok.2 ⟨done, d', hdone, rfl⟩⟩,
      hrun.closed, hrun.spares⟩

/-- The rows of the other executions stay due behind an iteration. -/
theorem DueRows.tail {x : Execution × ActionIntent} {s s' : Store} (h : DueRows (x :: due) s)
    (hspares : Spares x.1.key (fun _ => False) s s') : DueRows due s' where
  rows := fun y hy => by
    have hne : y.1.key ≠ x.1.key := fun heq =>
      (List.nodup_cons.1 h.keys).1 (List.mem_map.2 ⟨y, hy, heq⟩)
    exact hspares.unknown hne id (h.rows y (List.mem_cons_of_mem x hy))
  keys := (List.nodup_cons.1 h.keys).2

theorem reconcileDue_cons (id : UUID) (ids : List UUID) : reconcileDue rt (id :: ids) stats =
    reconcileDue rt [id] stats >>= reconcileDue rt ids := reconcileDue_append [id] ids stats

/-- When no lookup can be cancelled, the second loop ends. -/
theorem ends_due (hclosed : d.session = .closed) (hdue : DueRows due d.db) (hA : Gives A d.moments)
    (hlookups : ∀ x ∈ due, ¬ A (lookupOf x.1 x.2) .cancelled) :
    Ends (reconcileDue rt (idsOf due) stats) d := by
  induction due generalizing d stats with
  | nil => exact ⟨stats, d, rfl⟩
  | cons x due ih =>
      rcases alone_lookup rt stats hclosed (hdue.rows x (List.mem_cons_self ..)) with
        ⟨hcancelled, -⟩ | ⟨-, stats', d', hrun, hclosed', hspares⟩
      · exact absurd (hcancelled ▸ hA 3 _) (hlookups x (List.mem_cons_self ..))
      · show Ends (reconcileDue rt (x.1.id :: idsOf due) stats) d
        rw [reconcileDue_cons]
        exact ends_bind.2 ⟨stats', d', hrun, ih hclosed' (hdue.tail hspares)
          (hA.later (Prog.later_of_alone hrun)) fun y hy => hlookups y (List.mem_cons_of_mem x hy)⟩

/-- When a lookup can be cancelled, the second loop need not end. -/
theorem exists_cancelled (rt : Runtime) (stats : Stats) (hclosed : d.session = .closed)
    (hdue : DueRows due d.db) (hA : ∀ c, ∃ a, A c a) {ids : List UUID} (hid : id ∈ ids)
    (hlookup : ∃ x ∈ due, A (lookupOf x.1 x.2) .cancelled) :
    ∃ m, Gives A m ∧ (∀ n, (m n).draw .uuid ∈ ids) ∧
      ¬ Ends (reconcileDue rt (idsOf due) stats) (d.meeting m) := by
  obtain ⟨f, hf⟩ : ∃ f : ∀ c, Answer c, ∀ c, A c (f c) := Classical.skolem.1 hA
  induction due generalizing d stats with
  | nil =>
      obtain ⟨x, hx, -⟩ := hlookup
      cases hx
  | cons x due ih =>
      have hrow := hdue.rows x (List.mem_cons_self ..)
      have hhead : idsOf (x :: due) = x.1.id :: idsOf due := rfl
      by_cases hx : A (lookupOf x.1 x.2) .cancelled
      · -- The first lookup is cancelled.
        obtain ⟨answer, hanswer, hcancelled, -⟩ := exists_answer hf hx
        refine ⟨steady 0 id (fun n => n) answer, fun _ => hanswer, fun _ => hid, fun hends => ?_⟩
        rw [hhead, reconcileDue_cons] at hends
        obtain ⟨a, d', hfirst, -⟩ := ends_bind.1 hends
        rcases alone_lookup rt stats
          (d := d.meeting (steady 0 id (fun n => n) answer)) hclosed hrow with ⟨-, hno⟩ | ⟨hno, -⟩
        · exact hno ⟨a, d', hfirst⟩
        · exact hno hcancelled
      · -- The first lookup is answered; the others follow on moments of their own.
        rcases alone_lookup rt stats
          (d := d.meeting (steady 0 id (fun n => n) f)) hclosed hrow with ⟨hcancelled, -⟩ |
            ⟨-, stats', d', hrun, hclosed', hspares⟩
        · have hcancelled : f (lookupOf x.1 x.2) = .cancelled := hcancelled
          exact absurd (hcancelled ▸ hf _) hx
        · have hrest : ∃ y ∈ due, A (lookupOf y.1 y.2) .cancelled := by
            obtain ⟨y, hy, hcancelled⟩ := hlookup
            rcases List.mem_cons.1 hy with rfl | hy
            · exact absurd hcancelled hx
            · exact ⟨y, hy, hcancelled⟩
          obtain ⟨next, hnext, hids, hno⟩ := ih stats' hclosed' (hdue.tail hspares) hrest
          obtain ⟨m, hm, hmids, hfirst⟩ := exists_followed hrun hf hid hnext hids
          refine ⟨m, hm, hmids, fun hends => hno ?_⟩
          rw [hhead, reconcileDue_cons] at hends
          obtain ⟨a, d'', hfirst', hends⟩ := ends_bind.1 hends
          cases hfirst.symm.trans hfirst'
          exact hends

end Lookups

/-! ## Both loops -/

/-- The revisions are ready in the store, and share no identifier and number. -/
structure ReadyRows (keys : List RevisionKey) (s : Store) : Prop where
  rows : ∀ key ∈ keys, ∃ i, ReadyRow key i s
  distinct : (keys.map fun k => (k.intentId, k.revision)).Nodup

section Loops

variable {rt : Runtime} {A : Behaviour} {U : UUID → Prop} {key : RevisionKey} {keys : List RevisionKey}
  {d d' : Desk Db} {stats stats' : Stats} {due : List (Execution × ActionIntent)} {ids : List UUID}

theorem bothLoops_cons (key : RevisionKey) : bothLoops rt (key :: keys) ids stats =
    executeEligible rt [key] stats >>= fun stats => bothLoops rt keys ids stats := by
  unfold bothLoops
  rw [show key :: keys = [key] ++ keys from rfl, executeEligible_append, Prog.bind_assoc]

/-- The other revisions stay ready behind an iteration. -/
theorem ReadyRows.tail {s s' : Store} (h : ReadyRows (key :: keys) s) (hspares : Spares key U s s') :
    ReadyRows keys s' where
  rows := fun other hother => by
    obtain ⟨i, hrow⟩ := h.rows other (List.mem_cons_of_mem key hother)
    refine ⟨i, hspares.ready (fun hsame => ?_) hrow⟩
    exact (List.nodup_cons.1 h.distinct).1
      (List.mem_map.2 ⟨other, hother, Prod.ext hsame.1 hsame.2⟩)
  distinct := (List.nodup_cons.1 h.distinct).2

theorem ReadyRows.ne {s : Store} (h : ReadyRows (key :: keys) s) {other : RevisionKey}
    (hother : other ∈ keys) : other ≠ key := by
  rintro rfl
  exact (List.nodup_cons.1 h.distinct).1 (List.mem_map_of_mem hother)

/-- An execution that is due belongs to no ready revision: its rows stay behind an iteration. -/
theorem DueRows.claimed {s s' : Store} {i : ActionIntent} (h : DueRows due s) (hrow : ReadyRow key i s)
    (hspares : Spares key U s s') (hU : ∀ e ∈ s.executions, ¬ U e.id) : DueRows due s' where
  rows := fun x hx => by
    have hunknown := h.rows x hx
    -- Its intent is in `EXECUTION_UNKNOWN`, that of a ready revision is not.
    have hne : x.1.key ≠ key := by
      intro heq
      have hsame := hrow.intent.symm.trans (heq ▸ hunknown.intent)
      cases hsame
      rcases hrow.state with hstate | hstate
      · rw [hunknown.state] at hstate
        cases hstate
      · rw [hunknown.state] at hstate
        cases hstate
    exact hspares.unknown hne (hU x.1 (List.mem_of_find?_eq_some hunknown.row)) hunknown
  keys := h.keys

theorem freshAlong_cons : FreshAlong rt (key :: keys) stats d ↔ FreshMoments d.moments d.db ∧
    ∀ stats' d', (executeEligible rt [key] stats).alone d = (.ok stats', d') →
      FreshAlong rt keys stats' d' := by
  have htake : ∀ k, (key :: keys).take (k + 1) = [key] ++ keys.take k := fun k => rfl
  constructor
  · intro h
    refine ⟨h 0 (Nat.zero_lt_succ _) stats d rfl, fun stats' d' hrun k hk stats'' d'' hrest => ?_⟩
    refine h (k + 1) (Nat.succ_lt_succ hk) stats'' d'' ?_
    rw [htake, executeEligible_append, alone_then hrun]
    exact hrest
  · rintro ⟨hfirst, hrest⟩ k hk stats'' d'' hrun
    cases k with
    | zero =>
        cases hrun
        exact hfirst
    | succ k =>
        rw [htake, executeEligible_append] at hrun
        obtain ⟨stats', d', hone, hrun⟩ := Prog.alone_bind_ok.1 hrun
        exact hrest stats' d' hone k (Nat.lt_of_succ_lt_succ hk) stats'' d'' hrun

/-- When no item can end the tick, both loops end. -/
theorem ends_bothLoops (hclosed : d.session = .closed) (hready : ReadyRows keys d.db)
    (hdue : DueRows due d.db) (hA : Gives A d.moments) (hfresh : FreshAlong rt keys stats d)
    (hclaims : ∀ key ∈ keys, ∀ t, d.clock ≤ t → ¬ Spoiled rt A d.db key t)
    (hlookups : ∀ x ∈ due, ¬ A (lookupOf x.1 x.2) .cancelled) :
    Ends (bothLoops rt keys (idsOf due) stats) d := by
  induction keys generalizing d stats with
  | nil => exact ends_due hclosed hdue hA hlookups
  | cons key keys ih =>
      obtain ⟨i, hrow⟩ := hready.rows key (List.mem_cons_self ..)
      obtain ⟨hfirst, hrest⟩ := freshAlong_cons.1 hfresh
      rcases alone_iteration rt stats (U := fun id => ∀ e ∈ d.db.executions, e.id ≠ id) hclosed hrow
        hfirst (fun n e he => hfirst n e he) hA with ⟨t, ht, hspoiled⟩ |
          ⟨stats', d', hrun, hclosed', hspares⟩
      · exact absurd hspoiled (hclaims key (List.mem_cons_self ..) t ht)
      · have hlater := Prog.later_of_alone hrun
        rw [bothLoops_cons]
        refine ends_bind.2 ⟨stats', d', hrun, ih hclosed' (hready.tail hspares)
          (hdue.claimed hrow hspares fun e he hfree => hfree e he rfl) (hA.later hlater)
          (hrest stats' d' hrun) fun other hother t ht hspoiled => ?_⟩
        exact hclaims other (List.mem_cons_of_mem key hother) t (hlater.clock.trans ht)
          ((hspares.spoiled (hready.ne hother)).1 hspoiled)

/-- When an item can end the tick, one tick is ended: its moments are steady for each item. -/
theorem exists_ended (rt : Runtime) (stats : Stats) (hclosed : d.session = .closed)
    (hready : ReadyRows keys d.db) (hdue : DueRows due d.db) (hA : ∀ c, ∃ a, A c a) (hnodup : ids.Nodup)
    (hlength : keys.length < ids.length) (hfree : ∀ id ∈ ids, ∀ e ∈ d.db.executions, e.id ≠ id)
    (hends : (∃ key ∈ keys, ∃ t, d.clock ≤ t ∧ Spoiled rt A d.db key t) ∨
      ∃ x ∈ due, A (lookupOf x.1 x.2) .cancelled) :
    ∃ m, Gives A m ∧ (∀ n, (m n).draw .uuid ∈ ids) ∧ FreshAlong rt keys stats (d.meeting m) ∧
      ¬ Ends (bothLoops rt keys (idsOf due) stats) (d.meeting m) := by
  induction keys generalizing d stats ids with
  | nil =>
      obtain ⟨id, hid⟩ := List.exists_mem_of_length_pos hlength
      rcases hends with ⟨key, hkey, -⟩ | hlookup
      · cases hkey
      · obtain ⟨m, hm, hmids, hno⟩ := exists_cancelled rt stats hclosed hdue hA hid hlookup
        exact ⟨m, hm, hmids, fun k hk => absurd hk (Nat.not_lt_zero k), hno⟩
  | cons key keys ih =>
      match ids with
      | [] => cases hlength
      | id :: ids =>
          obtain ⟨i, hrow⟩ := hready.rows key (List.mem_cons_self ..)
          have hid := hfree id (List.mem_cons_self ..)
          by_cases hkey : ∃ t, d.clock ≤ t ∧ Spoiled rt A d.db key t
          · obtain ⟨t, ht, hspoiled⟩ := hkey
            obtain ⟨m, hm, hmids, hno⟩ := exists_spoiling stats hclosed hrow hA hid ht hspoiled
            refine ⟨m, hm, fun n => (hmids n).symm ▸ List.mem_cons_self .., ?_, fun hall => hno ?_⟩
            · refine freshAlong_cons.2 ⟨fun n => (hmids n).symm ▸ hid, fun stats' d' hrun => ?_⟩
              exact absurd ⟨stats', d', hrun⟩ hno
            · rw [bothLoops_cons] at hall
              obtain ⟨stats', d', hrun, -⟩ := ends_bind.1 hall
              exact ⟨stats', d', hrun⟩
          · -- The first item is over on steady moments; the others follow on moments of their own.
            obtain ⟨f, hf⟩ : ∃ f : ∀ c, Answer c, ∀ c, A c (f c) := Classical.skolem.1 hA
            let d₀ : Desk Db := d.meeting (steady 0 id (fun n => n) f)
            rcases alone_iteration rt stats (U := (· = id)) (d := d₀) hclosed hrow
              (fun _ => hid) (fun _ => rfl) (fun _ => hf) with hspoiled |
                ⟨stats', d', hrun, hclosed', hspares⟩
            · exact absurd hspoiled hkey
            · have hclock := Prog.clock_alone (executeEligible rt [key] stats) (d := d₀) fun n =>
                ite_self (0 : Time)
              rw [hrun] at hclock
              have hclock : d'.clock = d.clock := hclock
              obtain ⟨hnew, hnodup'⟩ := List.nodup_cons.1 hnodup
              have hfree' : ∀ id' ∈ ids, ∀ e ∈ d'.db.executions, e.id ≠ id' := by
                intro id' hmem e he heq
                rcases hspares.ids e he with ⟨e₀, he₀, hsame, -⟩ | hminted
                · exact hfree id' (List.mem_cons_of_mem id hmem) e₀ he₀ (hsame.trans heq)
                · exact hnew ((hminted.symm.trans heq) ▸ hmem)
              have hends' : (∃ other ∈ keys, ∃ t, d'.clock ≤ t ∧ Spoiled rt A d'.db other t) ∨
                  ∃ x ∈ due, A (lookupOf x.1 x.2) .cancelled := by
                rcases hends with ⟨other, hother, t, ht, hspoiled⟩ | hlookup
                · rcases List.mem_cons.1 hother with rfl | hother
                  · exact absurd ⟨t, ht, hspoiled⟩ hkey
                  · exact Or.inl ⟨other, hother, t, hclock.symm ▸ ht,
                      (hspares.spoiled (hready.ne hother)).2 hspoiled⟩
                · exact Or.inr hlookup
              obtain ⟨next, hnext, hids, hfresh, hno⟩ := ih stats' hclosed' (hready.tail hspares)
                (hdue.claimed hrow hspares hid) hnodup' (Nat.lt_of_succ_lt_succ hlength) hfree' hends'
              obtain ⟨m, hm, hmids, hfirst⟩ := exists_followed hrun hf
                (show id ∈ id :: ids from List.mem_cons_self ..) hnext fun n =>
                  List.mem_cons_of_mem id (hids n)
              refine ⟨m, hm, hmids, freshAlong_cons.2 ⟨fun n => hfree _ (hmids n), ?_⟩,
                fun hall => hno ?_⟩
              · intro stats'' d'' hfirst'
                cases hfirst.symm.trans hfirst'
                exact hfresh
              · rw [bothLoops_cons] at hall
                obtain ⟨stats'', d'', hfirst', hall⟩ := ends_bind.1 hall
                cases hfirst.symm.trans hfirst'
                exact hall

end Loops

/-! ## The snapshots -/

section Snapshots

variable {rt : Runtime} {d d₀ : Desk Db} {s : Snapshots} {db : Store}

/-- The recovery leaves a closed session behind. -/
theorem closed_recoverAll (candidates : List Execution) {n recovered : Nat} {d' : Desk Db}
    (hclosed : d.session = .closed) (h : (recoverAll candidates n).alone d = (.ok recovered, d')) :
    d'.session = .closed := by
  induction candidates generalizing d n with
  | nil =>
      cases h
      exact hclosed
  | cons candidate rest ih =>
      obtain ⟨commandId, d₁, hdraw, h⟩ := Prog.alone_bind_ok.1 h
      cases hdraw
      obtain ⟨done, d₂, hdone, h⟩ := Prog.alone_bind_ok.1 h
      refine ih ?_ h
      -- The transaction of a candidate is closed, also when what it raises is passed over.
      have hdesk := congrArg (fun e => e.2.session) hdone
      have hguarded := desk_guarded recoveryIgnores false
        (recoverCandidate candidate (commandIdAt d)) d.wait
      exact hdesk.symm.trans ((congrArg Desk.session hguarded).trans (Prog.closed_transaction _ d.wait))

theorem closed_recoverStaleExecuting {recovered : Nat}
    (h : recoverStaleExecuting.alone d = (.ok recovered, d₀)) : d₀.session = .closed := by
  obtain ⟨candidates, d₁, hcandidates, h⟩ := Prog.alone_bind_ok.1 h
  refine closed_recoverAll candidates ?_ h
  exact (congrArg (fun e => e.2.session) hcandidates).symm.trans (Prog.closed_session _ d)

theorem alone_readDue (hclosed : d.session = .closed) : ∃ now rank d',
    (Prog.session (D := Db) readDue).alone d = (.ok (dueExecutions now rank d.db), d') ∧
      d'.db = d.db ∧ d'.session = .closed := by
  have hbody : readDue.alone d =
      (.ok (dueExecutions d.wait.start.2 ((d.moments 1).draw .order) d.view), d.wait.opening.wait) := rfl
  rw [Desk.view_of_closed hclosed] at hbody
  exact ⟨_, _, _, Prog.alone_session_ok hbody, rfl, rfl⟩

theorem alone_scanEligible (hclosed : d.session = .closed) : ∃ rank d',
    (Prog.session (D := Db) (scan eligibleKeys)).alone d =
      (.ok (arrange rank (eligibleKeys d.db)), d') ∧ d'.db = d.db ∧ d'.session = .closed := by
  have hbody : (scan eligibleKeys).alone d =
      (.ok (arrange ((d.moments 1).draw .order) (eligibleKeys d.view)), d.wait.opening.wait) := rfl
  rw [Desk.view_of_closed hclosed] at hbody
  exact ⟨_, _, Prog.alone_session_ok hbody, rfl, rfl⟩

/-- What the snapshots hold of the store behind them. -/
theorem of_takeSnapshots (h : takeSnapshots.alone d = (.ok s, d₀)) : d₀.session = .closed ∧
    (∃ rank, s.eligible = (arrange rank (eligibleKeys d₀.db)).take tickLimit) ∧
      ∃ now rank, s.due = dueExecutions now rank d₀.db := by
  unfold takeSnapshots at h
  obtain ⟨recovered, d₁, hrecover, h⟩ := Prog.alone_bind_ok.1 h
  -- The two sessions read the store that the recovery leaves.
  obtain ⟨now, rank, d₂, hdue, hdb₂, hclosed₂⟩ :=
    alone_readDue (closed_recoverStaleExecuting hrecover)
  obtain ⟨rank', d₃, heligible, hdb₃, hclosed₃⟩ := alone_scanEligible hclosed₂
  rw [alone_then hdue, alone_then heligible] at h
  cases h
  exact ⟨hclosed₃, ⟨rank', by rw [hdb₃]⟩, now, rank, by rw [hdb₃, hdb₂]⟩

end Snapshots

/-! ## Rows of a store in order -/

section InOrder

variable {key : RevisionKey} {db : Store} {e : Execution} {keys : List RevisionKey}

/-- A row is found by a unique column. -/
theorem find?_of_nodup {α β : Type} [DecidableEq β] {f : α → β} {rows : List α}
    (hnodup : (rows.map f).Nodup) {a : α} (ha : a ∈ rows) :
    rows.find? (fun x => decide (f x = f a)) = some a := by
  have hfound : (rows.find? fun x => decide (f x = f a)).isSome = true :=
    List.find?_isSome.2 ⟨a, ha, decide_eq_true rfl⟩
  obtain ⟨b, hb⟩ := Option.isSome_iff_exists.1 hfound
  have hsame : f b = f a := by simpa using List.find?_some hb
  rw [hb, List.inj_on_of_nodup_map hnodup (List.mem_of_find?_eq_some hb) ha hsame]

/-- A ready revision has no execution, of whichever tenant. -/
theorem InOrder.unclaimed (h : InOrder db) {i : ActionIntent} (hi : db.intent? key = some i)
    (hstate : i.state = .autoApproved ∨ i.state = .approved) :
    db.executionsOf key.intentId key.revision = [] := by
  refine List.eq_nil_iff_forall_not_mem.2 fun e he => ?_
  -- The tenant of such a row would be the one of the intent, which has no execution in its state.
  obtain ⟨he, hmatch⟩ := List.mem_filter.1 he
  obtain ⟨hid, hrevision⟩ := of_decide_eq_true hmatch
  have htenant : e.key.tenantId = key.tenantId :=
    h.uniqueIds e.key key (h.inStep.intent he) (hi ▸ rfl) hid
  have hkey : e.key = key := by
    show RevisionKey.mk e.key.tenantId e.key.intentId e.key.revision = key
    rw [htenant, hid, hrevision]
  obtain ⟨-, -, -, a, ha, hstatus⟩ := (h.inStep key).of_mem (Lifecycle.mem_rowsOf.2 ⟨he, hkey⟩)
  cases hi.symm.trans ha
  rcases hstate with hstate | hstate
  · rw [hstate] at hstatus
    cases hstatus
  · rw [hstate] at hstatus
    cases hstatus

/-- Rows that agree in a unique column are at most one. -/
theorem length_le_one_of_nodup {α β : Type} {f : α → β} {table rows : List α}
    (hnodup : (table.map f).Nodup) (hrows : rows.Sublist table)
    (hall : ∀ x ∈ rows, ∀ y ∈ rows, f x = f y) : rows.length ≤ 1 := by
  rcases single_of_nodup hnodup hrows hall with hnone | ⟨x, hone⟩
  · rw [hnone]
    exact Nat.zero_le 1
  · rw [hone]
    exact Nat.le_refl 1

theorem InOrder.ready (h : InOrder db) (hkey : key ∈ eligibleKeys db) : ∃ i, ReadyRow key i db := by
  obtain ⟨i, hi, rfl⟩ := List.mem_map.1 hkey
  obtain ⟨hi, hstate⟩ := List.mem_filter.1 hi
  have hstate := of_decide_eq_true hstate
  have hintent : db.intent? i.key = some i := find?_of_nodup h.intents hi
  refine ⟨i, hintent, hstate, h.unclaimed hintent hstate, ?_, ?_, h.tenants i hi⟩
  · have hsub : (db.activeBundles i.key.tenantId).Sublist
        (db.bundles.filter fun r => r.isActive = true) :=
      List.monotone_filter_right _ fun r hr => decide_eq_true (of_decide_eq_true hr).2
    refine length_le_one_of_nodup h.activeBundles hsub fun r hr r' hr' => ?_
    exact (of_decide_eq_true (List.mem_filter.1 hr).2).1.trans
      (of_decide_eq_true (List.mem_filter.1 hr').2).1.symm
  · refine length_le_one_of_nodup h.policies List.filter_sublist fun r hr r' hr' => ?_
    exact (of_decide_eq_true (List.mem_filter.1 hr).2).trans
      (of_decide_eq_true (List.mem_filter.1 hr').2).symm

/-- The revisions of the first snapshot are ready. -/
theorem InOrder.readyRows (h : InOrder db) (rank : Nat → Nat) (n : Nat) :
    ReadyRows ((arrange rank (eligibleKeys db)).take n) db where
  rows := fun key hkey => h.ready (mem_arrange.1 (List.mem_of_mem_take hkey))
  distinct := by
    have hkeys : (eligibleKeys db).Nodup := (List.filter_sublist.map _).nodup h.intents
    have hnodup := (List.take_sublist n _).nodup ((arrange_perm rank _).nodup_iff.2 hkeys)
    refine hnodup.map_on fun k hk k' hk' hsame => ?_
    obtain ⟨i, hi⟩ := h.ready (mem_arrange.1 (List.mem_of_mem_take hk))
    obtain ⟨i', hi'⟩ := h.ready (mem_arrange.1 (List.mem_of_mem_take hk'))
    obtain ⟨hid, hrevision⟩ := Prod.mk.inj hsame
    have htenant := h.uniqueIds k k' (hi.intent ▸ rfl) (hi'.intent ▸ rfl) hid
    cases k
    cases k'
    simp only at hid hrevision htenant
    rw [hid, hrevision, htenant]

/-- The intent of an execution that is due waits for its outcome. -/
theorem InOrder.unknown (h : InOrder db) {now : Time} (he : e ∈ db.executions)
    (hdue : isDue e now = true) : ∃ i, UnknownRow e i db := by
  obtain ⟨-, -, -, i, hi, hstatus⟩ := (h.inStep e.key).of_mem (Lifecycle.mem_rowsOf.2 ⟨he, rfl⟩)
  have hunknown : e.status = .unknown := by
    unfold isDue at hdue
    simp only [Bool.and_eq_true, decide_eq_true_eq] at hdue
    exact hdue.1.1
  refine ⟨i, find?_of_nodup h.executionIds he, hi, ?_, fun e' he' hid => ?_⟩
  · exact (agrees_of_statusFor hstatus).unknown.1 hunknown
  · rw [List.inj_on_of_nodup_map h.executionIds he' he hid]

/-- Rows with a partner each are a list of pairs. -/
theorem exists_pairs {α β : Type} {P : α → β → Prop} {rows : List α} (h : ∀ a ∈ rows, ∃ b, P a b) :
    ∃ pairs : List (α × β), pairs.map (·.1) = rows ∧ ∀ x ∈ pairs, P x.1 x.2 := by
  induction rows with
  | nil => exact ⟨[], rfl, fun x hx => nomatch hx⟩
  | cons a rows ih =>
      obtain ⟨b, hb⟩ := h a (List.mem_cons_self ..)
      obtain ⟨pairs, hpairs, hall⟩ := ih fun a' ha' => h a' (List.mem_cons_of_mem a ha')
      refine ⟨(a, b) :: pairs, congrArg (List.cons a) hpairs, fun x hx => ?_⟩
      rcases List.mem_cons.1 hx with rfl | hx
      · exact hb
      · exact hall x hx

/-- The executions of the second snapshot are due. -/
theorem InOrder.dueRows (h : InOrder db) (now : Time) (rank : Nat → Nat) :
    ∃ due, idsOf due = dueExecutions now rank db ∧ DueRows due db := by
  let sorted := (arrange rank (db.executions.filter fun e => isDue e now)).insertionSort
    fun a b => dueBefore a b = true
  have hperm : sorted.Perm (db.executions.filter fun e => isDue e now) :=
    (List.perm_insertionSort _ _).trans (arrange_perm rank _)
  have hmem : ∀ e ∈ sorted.take tickLimit, ∃ i, UnknownRow e i db := by
    intro e he
    obtain ⟨he, hdue⟩ := List.mem_filter.1 (hperm.mem_iff.1 (List.mem_of_mem_take he))
    exact h.unknown he hdue
  obtain ⟨due, hrows, hall⟩ := exists_pairs hmem
  refine ⟨due, ?_, hall, ?_⟩
  · have hids := congrArg (List.map (·.id)) hrows
    rw [List.map_map] at hids
    exact hids
  · have hkeys : (sorted.map (·.key)).Nodup :=
      (hperm.map _).nodup_iff.2 ((List.filter_sublist.map _).nodup h.executions)
    have hdistinct := ((List.take_sublist tickLimit sorted).map (·.key)).nodup hkeys
    rw [← hrows, List.map_map] at hdistinct
    exact hdistinct

end InOrder

/-! ## Ticks -/

section Ticks

variable {rt : Runtime} {A : Behaviour} {s : Snapshots} {db : Store} {now : Time}
  {due : List (Execution × ActionIntent)}

/-- The lookups of the second snapshot are those of its rows. -/
theorem lookups_iff (hids : idsOf due = s.due) (hdue : DueRows due db) :
    (∀ id ∈ s.due, ¬ LookupCancelled A db id) ↔ ∀ x ∈ due, ¬ A (lookupOf x.1 x.2) .cancelled := by
  constructor
  · intro h x hx hcancelled
    have hrow := hdue.rows x hx
    exact h x.1.id (hids ▸ List.mem_map_of_mem hx) ⟨x.1, x.2, hrow.row, hrow.intent, hcancelled⟩
  · rintro h id hid ⟨e, i, he, hi, hcancelled⟩
    rw [← hids] at hid
    obtain ⟨x, hx, rfl⟩ := List.mem_map.1 hid
    have hrow := hdue.rows x hx
    cases hrow.row.symm.trans he
    cases hrow.intent.symm.trans hi
    exact h x hx hcancelled

end Ticks

/-! ## Two inspections -/

/-- The adapter of the scenario answers as it does there. -/
def healthyBehaviour : Behaviour := fun c a => a = Scenario.environment.answer c

/-- The adapter that reports `DONE` for every execution. -/
def doneBehaviour : Behaviour := fun c a => a = (unknownOutcomeDesk.moments 0).answer c

/-- What a tick finds in front of the two inspections. -/
def inspectionSnapshots : Snapshots :=
  ⟨[(readyInspection Scenario.intentId).key, (readyInspection Scenario.freshId).key], [], ⟨0, 0, 0, 0⟩⟩

theorem inOrder_twoInspections : InOrder twoInspections where
  intents := by decide
  transitions := by decide
  commands := by decide
  risks := by decide
  policies := by decide
  approvals := by decide
  executionIds := by decide
  executions := by decide
  operations := by decide
  outbox := by decide
  idempotency := by decide
  assignmentIds := by decide
  grants := by decide
  bundleIds := by decide
  activeBundles := by decide
  transitionOf := fun _ h => nomatch h
  riskOf := fun _ h => nomatch h
  policyOf := by decide
  decisionOf := fun _ h => nomatch h
  executionOf := fun _ h => nomatch h
  revisions := by decide
  versions := by decide
  levels := fun _ h => nomatch h
  attempts := fun _ h => nomatch h
  tenants := by decide
  inStep := fun _ => .unclaimed (fun _ h => absurd h List.not_mem_nil) rfl
  uniqueIds := by
    have hacme : ∀ k, (twoInspections.intent? k).isSome → k.tenantId = "acme" := by
      intro k hk
      obtain ⟨i, hi⟩ := Option.isSome_iff_exists.1 hk
      have htenants : ∀ i ∈ twoInspections.intents, i.key.tenantId = "acme" := by decide
      rw [← Lifecycle.key_of_intent? hi]
      exact htenants i (List.mem_of_find?_eq_some hi)
    exact fun k k' hk hk' _ => (hacme k hk).trans (hacme k' hk').symm
  free := ⟨[UUID.nil, Scenario.intentId, Scenario.freshId,
    ⟨"33333333-3333-3333-3333-333333333333", by decide⟩,
    ⟨"44444444-4444-4444-4444-444444444444", by decide⟩,
    ⟨"55555555-5555-5555-5555-555555555555", by decide⟩], by decide, by decide,
    fun _ _ _ h => nomatch h⟩

/-- Under the seed bundle the healthy adapter spoils neither inspection, at whatever time. -/
theorem not_spoils_inspection {id : UUID} {t : Time}
    (hpolicies : twoInspections.policiesOf (readyInspection id).key ≠ []) :
    ¬ Spoils Scenario.runtime healthyBehaviour twoInspections (readyInspection id)
      Scenario.seedBundle.bundle t := by
  have heval : (evaluatePolicy Scenario.runtime .inspectService
      (evaluateRisk .inspectService Scenario.parameters {}) Scenario.parameters
      Scenario.seedBundle.bundle).isOk = true := by decide +kernel
  intro h
  cases h with
  | cancelled hfetch => cases hfetch
  | unevaluated hfetch hdigest hnone => exact hpolicies hnone
  | policy hfetch hcleared hraises =>
      obtain ⟨x, hx⟩ := hraises
      have hx : evaluatePolicy Scenario.runtime .inspectService
          (evaluateRisk .inspectService Scenario.parameters {}) Scenario.parameters
          Scenario.seedBundle.bundle = .error x := hx
      rw [hx] at heval
      cases heval
  | target hfetch hpermits hcolumn =>
      cases hfetch
      have hheld : storableDict (preconditionSnapshot
          ⟨true, Scenario.parameters, "healthy", [], none⟩) = true := by decide
      exact absurd (hheld.symm.trans hcolumn) Bool.noConfusion
  | answer hfetch hpermits hcolumn hexecute hrefused =>
      cases hexecute
      exact hrefused ⟨by decide, rfl, rfl, by decide⟩

/-- Beside the healthy adapter neither inspection can end a tick. -/
theorem unspoiled_inspections :
    Unspoiled Scenario.runtime healthyBehaviour inspectionSnapshots twoInspections 0 := by
  have hbundle : twoInspections.activeBundles "acme" = [Scenario.seedBundle] := rfl
  refine ⟨fun key hkey t _ => ?_, fun id hid => nomatch hid⟩
  rintro ⟨i, row, hi, hrow, hspoils⟩
  rcases List.mem_cons.1 hkey with rfl | hkey
  · have hfound : twoInspections.intent? (readyInspection Scenario.intentId).key =
        some (readyInspection Scenario.intentId) := rfl
    cases hfound.symm.trans hi
    cases hbundle.symm.trans hrow
    exact not_spoils_inspection (by decide) hspoils
  · obtain rfl := List.mem_singleton.1 hkey
    have hfound : twoInspections.intent? (readyInspection Scenario.freshId).key =
        some (readyInspection Scenario.freshId) := rfl
    cases hfound.symm.trans hi
    cases hbundle.symm.trans hrow
    exact not_spoils_inspection (by decide) hspoils

/-- The adapter that reports `DONE` spoils the first one. -/
theorem spoiled_inspection : Spoiled Scenario.runtime doneBehaviour twoInspections
    (readyInspection Scenario.intentId).key 0 := by
  refine ⟨readyInspection Scenario.intentId, Scenario.seedBundle, rfl, rfl, ?_⟩
  refine @Spoils.answer _ _ _ _ _ _ ⟨true, Scenario.parameters, "healthy", [], none⟩
    (.result ⟨"DONE", none, [], none⟩) rfl ⟨?_, by decide⟩ (by decide) rfl fun h => ?_
  · refine ⟨Scenario.evaluation .inspectService, id, ⟨rfl, rfl, rfl, trivial⟩, ?_⟩
    exact ⟨Scenario.evaluation .inspectService, rfl, by decide, fun h => absurd rfl h⟩
  · have hparse := h.1
    revert hparse
    decide

end HitlOps.Properties
