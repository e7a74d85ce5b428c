import HitlOps.Worker
import HitlOps.Transaction.Alone
import HitlOps.Transaction.Replay
import HitlOps.Scenario

/-!
# The items of a tick

A tick takes its snapshots, claims and executes one revision after the other, reconciles one execution
after the other, and publishes. The reconciliation loop passes over every exception; the first loop
passes over state conflicts only, so any other exception of one of its items ends the tick.
-/

set_option autoImplicit false

namespace HitlOps.Properties

open HitlOps.Python HitlOps.Domain HitlOps.Infrastructure HitlOps.Application HitlOps.Transaction
open HitlOps.Worker

/-! ## The parts of a tick -/

/-- What a tick reads in front of its loops. -/
structure Snapshots where
  eligible : List RevisionKey
  due : List UUID
  stats : Stats

/-- The reading of the executions that are due. -/
def readDue : M (List UUID) := do
  let (s, now) ← Prog.select (D := Db)
  let rank ← Prog.draw (D := Db) .order
  return dueExecutions now rank s

/-- `run_worker_tick` in front of its loops. -/
def takeSnapshots : M Snapshots := do
  let recovered ← recoverStaleExecuting
  let due ← Prog.session (D := Db) readDue
  let eligible ← Prog.session (D := Db) (scan eligibleKeys)
  return ⟨eligible.take tickLimit, due, ⟨0, 0, 0, recovered⟩⟩

/-- A tick: the snapshots, the two loops, and the publisher. -/
theorem runWorkerTick_eq (rt : Runtime) : runWorkerTick rt = (do
    let snapshots ← takeSnapshots
    let stats ← executeEligible rt snapshots.eligible snapshots.stats
    let stats ← reconcileDue rt snapshots.due stats
    publishPending
    return stats) := by
  unfold takeSnapshots runWorkerTick
  simp only [Prog.bind_assoc]
  rfl

/-- The `try` block of `_claim`. -/
def claimAttempt (rt : Runtime) (key : RevisionKey) (commandId : String) :
    M (Option ExecutionPermit) :=
  Prog.session (D := Db) do
    match ← getActive key.tenantId with
    | none => return none
    | some bundle => do
        match ← claimAndRevalidate rt ⟨key, workerId, commandId, bundle, defaultClaimLeaseSeconds⟩ with
        | .error _ => return none
        | .ok permit => return some permit

/-- The `try` block of `_execute`. -/
def executeAttempt (rt : Runtime) (permit : ExecutionPermit) (commandId : String) : M Bool := do
  let _ ← Prog.transaction (D := Db) (executePermit rt permit workerId commandId)
  return true

/-- The `try` block of the reconciliation loop. -/
def reconcileAttempt (rt : Runtime) (executionId : UUID) (commandId : String) : M Bool := do
  let _ ← Prog.transaction (D := Db) (reconcile rt executionId workerId commandId)
  return true

/-- `try: p except: default`, for the exceptions that `caught` accepts. -/
def guarded {α : Type} (caught : Error → Bool) (default : α) (p : M α) : M α :=
  Prog.handle p fun x => if caught x = true then return default else .raise x

theorem claim_eq (rt : Runtime) (key : RevisionKey) (commandId : String) :
    claim rt key commandId =
      guarded Error.isStateConflict none (claimAttempt rt key commandId) := rfl

theorem execute_eq (rt : Runtime) (permit : ExecutionPermit) (commandId : String) :
    execute rt permit commandId =
      guarded Error.isStateConflict false (executeAttempt rt permit commandId) := rfl

theorem reconcileOne_eq (rt : Runtime) (executionId : UUID) (commandId : String) :
    reconcileOne rt executionId commandId =
      guarded Error.isException false (reconcileAttempt rt executionId commandId) := rfl

/-! ## Items and exceptions -/

/-- The command identifier that an iteration draws first. -/
def commandIdAt (d : Desk Db) : String := ((d.moments 0).draw .uuid : UUID).hex

/-- `run_worker_tick` between its snapshots and the publisher. -/
def bothLoops (rt : Runtime) (keys : List RevisionKey) (ids : List UUID) (stats : Stats) : M Stats :=
  executeEligible rt keys stats >>= reconcileDue rt ids

/-- The first loop comes to its item `k`, with these counters and this desk. -/
def AtClaim (rt : Runtime) (s : Snapshots) (d : Desk Db) (k : Nat) (stats : Stats) (d' : Desk Db) :
    Prop :=
  (executeEligible rt (s.eligible.take k) s.stats).alone d = (.ok stats, d')

/-- The second loop comes to its item `k`. -/
def AtReconciliation (rt : Runtime) (s : Snapshots) (d : Desk Db) (k : Nat) (stats : Stats)
    (d' : Desk Db) : Prop :=
  (bothLoops rt s.eligible (s.due.take k) s.stats).alone d = (.ok stats, d')

/-- The tick attempts every item of its snapshots, and then runs the publisher. -/
def AttemptsAll (rt : Runtime) (d : Desk Db) : Prop :=
  ∀ s d₀, takeSnapshots.alone d = (.ok s, d₀) →
    (∀ k < s.eligible.length, ∃ stats d', AtClaim rt s d₀ k stats d') ∧
    (∀ k < s.due.length, ∃ stats d', AtReconciliation rt s d₀ k stats d') ∧
    ∃ stats d', AtReconciliation rt s d₀ s.due.length stats d' ∧
      (runWorkerTick rt).alone d = (do publishPending; return stats : M Stats).alone d'

/-! ## Programs that end -/

/-- The program ends without an exception. -/
def Ends {α : Type} (p : M α) (d : Desk Db) : Prop := ∃ a d', p.alone d = (.ok a, d')

section Ends

variable {α β : Type} {p : M α} {f : α → M β} {d : Desk Db}

theorem ends_bind : Ends (p >>= f) d ↔ ∃ a d', p.alone d = (.ok a, d') ∧ Ends (f a) d' := by
  constructor
  · rintro ⟨b, d₁, h⟩
    obtain ⟨a, d', hp, hf⟩ := Prog.alone_bind_ok.1 h
    exact ⟨a, d', hp, b, d₁, hf⟩
  · rintro ⟨a, d', hp, b, d₁, hf⟩
    exact ⟨b, d₁, Prog.alone_bind_ok.2 ⟨a, d', hp, hf⟩⟩

variable {caught : Error → Bool} {default : α}

theorem guarded_ok {a : α} {d' : Desk Db} (h : p.alone d = (.ok a, d')) :
    (guarded caught default p).alone d = (.ok a, d') := by
  unfold guarded
  rw [Prog.alone_handle, h]

theorem guarded_caught {x : Error} {d' : Desk Db} (h : p.alone d = (.error x, d'))
    (hx : caught x = true) : (guarded caught default p).alone d = (.ok default, d') := by
  unfold guarded
  rw [Prog.alone_handle, h]
  show (if caught x = true then _ else _ : M α).alone d' = _
  rw [if_pos hx]
  rfl

/-- A guarded program leaves the desk of the program behind. -/
theorem desk_guarded (caught : Error → Bool) (default : α) (p : M α) (d : Desk Db) :
    ((guarded caught default p).alone d).2 = (p.alone d).2 := by
  unfold guarded
  rw [Prog.alone_handle]
  rcases p.alone d with ⟨r, d'⟩
  cases r with
  | ok a => rfl
  | error x =>
      show ((if caught x = true then _ else _ : M α).alone d').2 = d'
      split
      · rfl
      · rfl

/-- A guarded program ends exactly when the exception that it raises, if any, is caught. -/
theorem ends_guarded : Ends (guarded caught default p) d ↔
    ∀ x d', p.alone d = (.error x, d') → caught x = true := by
  constructor
  · rintro ⟨a, d₁, h⟩ x d' hx
    by_contra hno
    unfold guarded at h
    rw [Prog.alone_handle, hx] at h
    change (if caught x = true then _ else _ : M α).alone d' = _ at h
    rw [if_neg hno] at h
    cases h
  · intro h
    rcases hp : p.alone d with ⟨r, d'⟩
    cases r with
    | ok a => exact ⟨a, d', guarded_ok hp⟩
    | error x => exact ⟨default, d', guarded_caught hp (h x d' hp)⟩

/-- What a guarded program returns beside its default is a value of the program. -/
theorem of_guarded {a : α} {d' : Desk Db} (h : (guarded caught default p).alone d = (.ok a, d'))
    (hne : a ≠ default) : p.alone d = (.ok a, d') := by
  rcases hp : p.alone d with ⟨r, d₁⟩
  cases r with
  | ok b =>
      rw [guarded_ok hp] at h
      exact h
  | error x =>
      have hx := ends_guarded.1 ⟨a, d', h⟩ x d₁ hp
      rw [guarded_caught hp hx] at h
      cases h
      exact absurd rfl hne

end Ends

/-! ## Iterations -/

section Loops

variable {rt : Runtime} {d : Desk Db}

/-- The first loop over two lists is the loop over the one and then over the other. -/
theorem executeEligible_append (keys rest : List RevisionKey) (stats : Stats) :
    executeEligible rt (keys ++ rest) stats =
      executeEligible rt keys stats >>= executeEligible rt rest := by
  induction keys generalizing stats with
  | nil => rfl
  | cons key keys ih =>
      rw [List.cons_append]
      unfold executeEligible
      simp only [Prog.bind_assoc]
      refine congrArg _ (funext fun id => congrArg _ (funext fun permit => ?_))
      cases permit with
      | none => exact ih _
      | some permit =>
          dsimp only
          rw [Prog.bind_assoc]
          exact congrArg _ (funext fun executed => ih _)

theorem reconcileDue_append (ids rest : List UUID) (stats : Stats) :
    reconcileDue rt (ids ++ rest) stats =
      reconcileDue rt ids stats >>= reconcileDue rt rest := by
  induction ids generalizing stats with
  | nil => rfl
  | cons id ids ih =>
      rw [List.cons_append]
      unfold reconcileDue
      simp only [Prog.bind_assoc]
      exact congrArg _ (funext fun commandId => congrArg _ (funext fun done => ih _))

/-- One iteration of the first loop ends exactly when its exceptions are state conflicts. -/
theorem ends_claim_one {key : RevisionKey} {stats : Stats} :
    Ends (executeEligible rt [key] stats) d ↔
      (∀ x d₁, (claimAttempt rt key (commandIdAt d)).alone d.wait = (.error x, d₁) →
        x.isStateConflict = true) ∧
      ∀ permit d₁, (claimAttempt rt key (commandIdAt d)).alone d.wait = (.ok (some permit), d₁) →
        ∀ x d₂, (executeAttempt rt permit (commandIdAt d)).alone d₁ = (.error x, d₂) →
          x.isStateConflict = true := by
  constructor
  · intro h
    obtain ⟨id, d₀, hid, h⟩ := ends_bind.1 h
    cases hid
    obtain ⟨found, d₁, hclaim, h⟩ := ends_bind.1 h
    refine ⟨ends_guarded.1 ⟨found, d₁, hclaim⟩, fun permit d₂ hpermit => ?_⟩
    have heq : (claim rt key (commandIdAt d)).alone d.wait = (.ok (some permit), d₂) :=
      guarded_ok hpermit
    -- The claim of the loop is the attempt that has returned the permit.
    cases hclaim.symm.trans heq
    obtain ⟨executed, d₃, hexecute, -⟩ := ends_bind.1 h
    exact ends_guarded.1 ⟨executed, d₃, hexecute⟩
  · rintro ⟨hclaim, hexecute⟩
    refine ends_bind.2 ⟨_, _, rfl, ?_⟩
    obtain ⟨found, d₁, hfound⟩ : Ends (claim rt key (commandIdAt d)) d.wait :=
      ends_guarded.2 hclaim
    refine ends_bind.2 ⟨found, d₁, hfound, ?_⟩
    cases found with
    | none => exact ⟨_, _, rfl⟩
    | some permit =>
        have hpermit := of_guarded hfound (Option.some_ne_none permit)
        obtain ⟨executed, d₂, hdone⟩ : Ends (execute rt permit (commandIdAt d)) d₁ :=
          ends_guarded.2 (hexecute permit d₁ hpermit)
        exact ends_bind.2 ⟨executed, d₂, hdone, _, _, rfl⟩

variable {key : RevisionKey} {stats : Stats} {d₁ : Desk Db}

/-- A claim that returns no permit is counted as skipped. -/
theorem alone_skipped
    (hclaim : (claimAttempt rt key (commandIdAt d)).alone d.wait = (.ok none, d₁)) :
    (executeEligible rt [key] stats).alone d = (.ok { stats with skipped := stats.skipped + 1 }, d₁) :=
  Prog.alone_bind_ok.2 ⟨_, d.wait, rfl, Prog.alone_bind_ok.2 ⟨none, d₁, guarded_ok hclaim, rfl⟩⟩

/-- A permit whose execution is recorded is counted as executed. -/
theorem alone_executed {permit : ExecutionPermit} {d₂ : Desk Db}
    (hclaim : (claimAttempt rt key (commandIdAt d)).alone d.wait = (.ok (some permit), d₁))
    (hexecute : (executeAttempt rt permit (commandIdAt d)).alone d₁ = (.ok true, d₂)) :
    (executeEligible rt [key] stats).alone d =
      (.ok { stats with executed := stats.executed + 1 }, d₂) :=
  Prog.alone_bind_ok.2 ⟨_, d.wait, rfl, Prog.alone_bind_ok.2 ⟨some permit, d₁, guarded_ok hclaim,
    Prog.alone_bind_ok.2 ⟨true, d₂, guarded_ok hexecute, rfl⟩⟩⟩

theorem ends_reconcile_one {id : UUID} {stats : Stats} :
    Ends (reconcileDue rt [id] stats) d ↔
      ∀ x d₁, (reconcileAttempt rt id (commandIdAt d)).alone d.wait = (.error x, d₁) →
        x.isException = true := by
  constructor
  · intro h
    obtain ⟨commandId, d₀, hid, h⟩ := ends_bind.1 h
    cases hid
    obtain ⟨done, d₁, hdone, -⟩ := ends_bind.1 h
    exact ends_guarded.1 ⟨done, d₁, hdone⟩
  · intro h
    refine ends_bind.2 ⟨_, _, rfl, ?_⟩
    obtain ⟨done, d₁, hdone⟩ : Ends (reconcileOne rt id (commandIdAt d)) d.wait :=
      ends_guarded.2 h
    exact ends_bind.2 ⟨done, d₁, hdone, _, _, rfl⟩

variable {s : Snapshots}

/-- The loop comes to the item behind `k` when the iteration of `k` ends. -/
theorem claim_succ {k : Nat} {key : RevisionKey} (hkey : s.eligible[k]? = some key) :
    (∃ stats d', AtClaim rt s d (k + 1) stats d') ↔
      ∃ stats d', AtClaim rt s d k stats d' ∧ Ends (executeEligible rt [key] stats) d' := by
  have htake : s.eligible.take (k + 1) = s.eligible.take k ++ [key] := by
    rw [List.take_add_one, hkey]
    rfl
  unfold AtClaim
  rw [htake, executeEligible_append]
  exact ends_bind

theorem reconciliation_succ {k : Nat} {id : UUID} (hid : s.due[k]? = some id) :
    (∃ stats d', AtReconciliation rt s d (k + 1) stats d') ↔
      ∃ stats d', AtReconciliation rt s d k stats d' ∧ Ends (reconcileDue rt [id] stats) d' := by
  have htake : s.due.take (k + 1) = s.due.take k ++ [id] := by
    rw [List.take_add_one, hid]
    rfl
  have happend : reconcileDue rt (s.due.take k ++ [id]) =
      fun stats => reconcileDue rt (s.due.take k) stats >>= reconcileDue rt [id] :=
    funext fun stats => reconcileDue_append _ _ stats
  unfold AtReconciliation bothLoops
  rw [htake, happend, ← Prog.bind_assoc]
  exact ends_bind

/-- A loop that comes to the item behind `k` came to `k`. -/
theorem claim_of_le {k n : Nat} (hkn : k ≤ n) (hn : n ≤ s.eligible.length)
    (h : ∃ stats d', AtClaim rt s d n stats d') : ∃ stats d', AtClaim rt s d k stats d' := by
  induction n with
  | zero =>
      rw [Nat.le_zero.1 hkn]
      exact h
  | succ n ih =>
      rcases Nat.lt_or_eq_of_le hkn with hlt | rfl
      · have hkey := List.getElem?_eq_getElem (show n < s.eligible.length by omega)
        obtain ⟨stats, d', hat, -⟩ := (claim_succ hkey).1 h
        exact ih (by omega) (by omega) ⟨stats, d', hat⟩
      · exact h

theorem reconciliation_of_le {k n : Nat} (hkn : k ≤ n) (hn : n ≤ s.due.length)
    (h : ∃ stats d', AtReconciliation rt s d n stats d') :
    ∃ stats d', AtReconciliation rt s d k stats d' := by
  induction n with
  | zero =>
      rw [Nat.le_zero.1 hkn]
      exact h
  | succ n ih =>
      rcases Nat.lt_or_eq_of_le hkn with hlt | rfl
      · have hid := List.getElem?_eq_getElem (show n < s.due.length by omega)
        obtain ⟨stats, d', hat, -⟩ := (reconciliation_succ hid).1 h
        exact ih (by omega) (by omega) ⟨stats, d', hat⟩
      · exact h

/-- The second loop starts when the first one has ended. -/
theorem reconciliation_zero : (∃ stats d', AtReconciliation rt s d 0 stats d') ↔
    ∃ stats d', AtClaim rt s d s.eligible.length stats d' := by
  unfold AtReconciliation bothLoops AtClaim
  rw [List.take_length, List.take_zero]
  constructor
  · rintro ⟨stats, d', h⟩
    obtain ⟨stats', d₁, hclaims, -⟩ := Prog.alone_bind_ok.1 h
    exact ⟨stats', d₁, hclaims⟩
  · rintro ⟨stats, d', h⟩
    exact ⟨stats, d', Prog.alone_bind_ok.2 ⟨stats, d', h, rfl⟩⟩

/-- Behind its snapshots, a tick attempts every item and then runs the publisher exactly when both loops
end. -/
theorem attemptsAll_iff {d₀ : Desk Db} (hs : takeSnapshots.alone d = (.ok s, d₀)) :
    AttemptsAll rt d ↔ Ends (bothLoops rt s.eligible s.due s.stats) d₀ := by
  have hwhole : ∀ stats d', AtReconciliation rt s d₀ s.due.length stats d' ↔
      (bothLoops rt s.eligible s.due s.stats).alone d₀ = (.ok stats, d') := by
    intro stats d'
    unfold AtReconciliation
    rw [List.take_length]
  constructor
  · intro h
    obtain ⟨-, -, stats, d', hat, -⟩ := h s d₀ hs
    exact ⟨stats, d', (hwhole stats d').1 hat⟩
  · rintro ⟨stats, d', hrun⟩ s' d₁ hs'
    cases hs.symm.trans hs'
    have hend : ∃ stats d', AtReconciliation rt s d₀ s.due.length stats d' :=
      ⟨stats, d', (hwhole stats d').2 hrun⟩
    -- A loop that ends has come to each of its items on the way.
    refine ⟨fun k hk => ?_, fun k hk => reconciliation_of_le hk.le le_rfl hend,
      stats, d', (hwhole stats d').2 hrun, ?_⟩
    · exact claim_of_le hk.le le_rfl
        (reconciliation_zero.1 (reconciliation_of_le (Nat.zero_le _) le_rfl hend))
    · have hloops : (do
          let stats ← executeEligible rt s.eligible s.stats
          let stats ← reconcileDue rt s.due stats
          publishPending
          return stats : M Stats).alone d₀ = (do publishPending; return stats : M Stats).alone d' := by
        rw [← Prog.bind_assoc]
        exact (Prog.alone_bind _ _ _).trans (by
          rw [show (executeEligible rt s.eligible s.stats >>= _ : M Stats).alone d₀ = _ from hrun])
      rw [runWorkerTick_eq, Prog.alone_bind, hs]
      exact hloops

end Loops

/-! ## A result that ends the tick -/

/-- An approved inspection, ready for a worker. -/
def readyInspection (id : UUID) : ActionIntent :=
  { key := ⟨"acme", id, 1⟩
    tool := .inspectService
    canonicalParameters := Scenario.parameters
    intentDigest := Scenario.digest .inspectService
    requesterId := "rachel"
    requesterRationale := ""
    rawProposal := none
    source := .direct
    state := .autoApproved
    stateVersion := 3
    approvalExpiresAt := none }

/-- Two of them with their evaluations. -/
def twoInspections : Store :=
  { Store.empty with
    intents := [readyInspection Scenario.intentId, readyInspection Scenario.freshId]
    policies := [⟨⟨"acme", Scenario.intentId, 1⟩, Scenario.evaluation .inspectService, 0⟩,
      ⟨⟨"acme", Scenario.freshId, 1⟩, Scenario.evaluation .inspectService, 0⟩]
    bundles := [Scenario.seedBundle] }

/-- A worker whose adapter reports an outcome that is none of the three. -/
def unknownOutcomeDesk : Desk Db :=
  .opened twoInspections 0 0 fun _ =>
    { elapsed := 0
      draw := Scenario.environment.draw
      answer
        | .execute _ _ => .result ⟨"DONE", none, [], none⟩
        | c => Scenario.environment.answer c }

/-- The tick ends in its first iteration, with another revision in its snapshot. -/
def endsEarly (rt : Runtime) (d : Desk Db) : Bool :=
  match takeSnapshots.alone d with
  | (.ok s, d₀) => decide (1 < s.eligible.length) &&
      match (executeEligible rt (s.eligible.take 1) s.stats).alone d₀ with
      | (.error _, _) => true
      | (.ok _, _) => false
  | (.error _, _) => false

theorem not_attemptsAll_of_endsEarly {rt : Runtime} {d : Desk Db} (h : endsEarly rt d = true) :
    ¬ AttemptsAll rt d := by
  intro hall
  unfold endsEarly at h
  split at h
  · next s d₀ hs =>
      obtain ⟨hlen, hone⟩ := Bool.and_eq_true_iff.1 h
      obtain ⟨stats, d', hat⟩ := (hall s d₀ hs).1 1 (of_decide_eq_true hlen)
      unfold AtClaim at hat
      rw [hat] at hone
      cases hone
  · cases h

end HitlOps.Properties
