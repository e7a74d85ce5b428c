import HitlOps.Program
import HitlOps.Transaction.Progress
import HitlOps.Lifecycle.Invariant

/-!
# The lifecycle contract

The ghost value of a process records what its open transaction has read and written, and three
duties that outlive a transaction: the claim in progress, the revision that the process has moved
to `REVALIDATING`, and the permit that it may still execute. `contract` states what every commit
and every provider call of an operation owes:

* a commit without a locked revision writes nothing of a lifecycle;
* a commit on a locked revision follows `Committing`: a command took effect on the version it
  named, only the claiming process leaves `REVALIDATING`, and a permit or a decision comes with its
  evidence;
* `adapter.execute` is called for the permit at hand only, under the row lock of an executing
  intent, with the stored tool and parameters.
-/

set_option autoImplicit false

namespace HitlOps.Lifecycle

open HitlOps.Python HitlOps.Domain HitlOps.Infrastructure HitlOps.Application HitlOps.Adapters
open HitlOps.Transaction

/-! ## Ghost values -/

/-- A command that names the state version it acts on. -/
inductive Command : Type
  | decide (c : ApprovalDecisionCommand)
  | cancel (c : CancelIntentCommand)

/-- The revision of a command. -/
def Command.key : Command → RevisionKey
  | .decide c => c.key
  | .cancel c => c.key

/-- The state version that a command names. -/
def Command.expectedStateVersion : Command → Nat
  | .decide c => c.expectedStateVersion
  | .cancel c => c.expectedStateVersion

/-- What a process is up to. Command and permit belong to the open transaction. -/
structure Duty where
  command : Option Command
  permit : Option ExecutionPermit
  claim : Option (RevisionKey × PolicyBundle)
  claimed : Option RevisionKey
  credit : Option ExecutionPermit

/-- The ghost value of a process; all but the duty belongs to the open transaction. -/
structure Ghost where
  duty : Duty
  entered : List StateTransition
  decided : List ApprovalDecisionRow
  reads : List Store
  clocks : List Time

namespace Ghost

/-- The ghost value of a new process. -/
def initial : Ghost := ⟨⟨none, none, none, none, none⟩, [], [], [], []⟩

/-- The claimed revision after a commit: taken by entering `REVALIDATING`, given up by any other
transition. -/
def claimedAfter (g : Ghost) : Option RevisionKey :=
  match g.entered.getLast? with
  | some t => if t.toState = .revalidating then some t.key else none
  | none => g.duty.claimed

/-- The ghost value after a commit. -/
def settle (g : Ghost) : Ghost :=
  ⟨⟨none, none, g.duty.claim, g.claimedAfter, g.duty.permit.or g.duty.credit⟩, [], [], [], []⟩

/-- The ghost value after a rollback. -/
def abandon (g : Ghost) : Ghost :=
  ⟨⟨none, none, g.duty.claim, g.duty.claimed, g.duty.credit⟩, [], [], [], []⟩

/-- The ghost value after a flushed write. -/
def wrote (g : Ghost) : Write → Ghost
  | .insertTransition row => { g with entered := g.entered ++ [row] }
  | .insertDecision row => { g with decided := g.decided ++ [row] }
  | _ => g

/-- The ghost value after a trace point. -/
def marked (g : Ghost) : Mark → Ghost
  | .decide c => { g with duty := { g.duty with command := some (.decide c) } }
  | .cancel c => { g with duty := { g.duty with command := some (.cancel c) } }
  | .claim key bundle => { g with duty := { g.duty with claim := some (key, bundle) } }
  | .permit p => { g with duty := { g.duty with permit := some p } }

/-- The ghost value after a call was sent: the permit is used up by `adapter.execute`. -/
def sent (g : Ghost) : Call → Ghost
  | .execute _ _ => { g with duty := { g.duty with credit := none } }
  | _ => g

/-- The ghost value after a clock was read. -/
def drawn (g : Ghost) : (o : Source) → Draw o → Ghost
  | .now, t => { g with clocks := t :: g.clocks }
  | _, _ => g

/-- The ghost value after an observation. -/
def observe (g : Ghost) : Obs Db → Ghost
  | .did .select r => { g with reads := r.1 :: g.reads }
  | .did (.lock _ _) r => { g with reads := (r.map Prod.fst).toList ++ g.reads }
  | .did (.write w) _ => g.wrote w
  | .did (.mark m) _ => g.marked m
  | .did (.draw o) v => g.drawn o v
  | .did .commit _ => g.settle
  | .did .rollback _ => g.abandon
  | .sent c => g.sent c
  | _ => g

end Ghost

/-! ## Obligations -/

/-- The approver holds the role and the scopes in the assignments of `σ` at the time `t`. -/
structure HoldsNow (σ : Store) (tenantId actorId role : String) (scopes : List String) (t : Time)
    (environment : Option Json) : Prop where
  role : role ∈ evaluateCurrentRoles (σ.loadAssignments tenantId actorId) t environment
  scopes : ∀ scope ∈ scopes,
    scope ∈ evaluateCurrentScopes (σ.loadAssignments tenantId actorId) t environment

/-- Two different approvers of the revision hold the roles of their levels at `dbNow`. -/
def CriticalHold (reads : List Store) (a : ActionIntent) (p : PolicyEvaluation)
    (decisions : List ApprovalDecisionRow) (dbNow : Time) : Prop :=
  ∃ d₁ ∈ decisions, ∃ d₂ ∈ decisions, ∃ role₁ role₂ rest,
    d₁.decision = .approve ∧ d₁.level = 1 ∧ d₂.decision = .approve ∧ d₂.level = 2 ∧
      d₁.actorId ≠ d₂.actorId ∧ p.requiredRoles = role₁ :: role₂ :: rest ∧
      (∃ σ ∈ reads, HoldsNow σ a.key.tenantId d₁.actorId role₁ p.requiredScopes dbNow
        a.environment) ∧
      ∃ σ ∈ reads, HoldsNow σ a.key.tenantId d₂.actorId role₂ p.requiredScopes dbNow a.environment

/-- An approver of the revision holds the scopes, and one of the roles, at `dbNow`. -/
def SingleHold (reads : List Store) (a : ActionIntent) (p : PolicyEvaluation)
    (decisions : List ApprovalDecisionRow) (dbNow : Time) : Prop :=
  ∃ d ∈ decisions, d.decision = .approve ∧ ∃ σ ∈ reads,
    (p.requiredRoles ≠ [] → ∃ role ∈ p.requiredRoles, role ∈ evaluateCurrentRoles
      (σ.loadAssignments a.key.tenantId d.actorId) dbNow a.environment) ∧
    ∀ scope ∈ p.requiredScopes, scope ∈ evaluateCurrentScopes
      (σ.loadAssignments a.key.tenantId d.actorId) dbNow a.environment

/-- The evaluation of the intent under a bundle lets the claim pass. -/
def PolicyLets (rt : Runtime) (a : ActionIntent) (stored : PolicyEvaluation)
    (bundle : PolicyBundle) : Prop :=
  ∃ current, evaluatePolicy rt a.tool (evaluateRisk a.tool a.canonicalParameters {})
      a.canonicalParameters bundle = .ok current ∧
    current.disposition ≠ .block ∧
    (current.disposition ≠ .allow → policyStricter current stored = false)

/-- What a process knows when it moves the claimed revision `k` to `EXECUTING`. -/
structure Authorized (rt : Runtime) (g : Ghost) (dbNow : Time) (k : RevisionKey)
    (base : Revision) : Prop where
  evidence : ∃ a row bundle, base.intent = some a ∧ base.policies = [row] ∧
    g.duty.claim = some (k, bundle) ∧
    (∀ t, a.approvalExpiresAt = some t → dbNow < t) ∧
    (row.evaluation.route = .criticalTwoStep →
      CriticalHold g.reads a row.evaluation base.decisions dbNow) ∧
    PolicyLets rt a row.evaluation bundle
  single : ∀ a row, base.intent = some a → base.policies = [row] →
    row.evaluation.route = .single → SingleHold g.reads a row.evaluation base.decisions dbNow

/-- The snapshots of a stored decision are what the deciding transaction read. -/
structure Truthful (g : Ghost) (dbNow : Time) (c : ApprovalDecisionCommand) (a : ActionIntent)
    (d : ApprovalDecisionRow) : Prop where
  actor : d.actorId = c.actor.actorId ∧ c.actor.tenantId = a.key.tenantId
  digest : d.intentDigest = a.intentDigest
  decidedAt : d.decidedAt = dbNow
  roles : ∃ σ ∈ g.reads, ∃ now ∈ g.clocks, ∀ role ∈ d.actorRolesSnapshot,
    role ∈ evaluateCurrentRoles (σ.loadAssignments a.key.tenantId d.actorId) now a.environment
  scopes : d.decision = .approve → ∃ σ ∈ g.reads, ∃ now ∈ g.clocks,
    ∀ scope ∈ d.scopeSnapshot.scopes,
      scope ∈ evaluateCurrentScopes (σ.loadAssignments a.key.tenantId d.actorId) now a.environment
  token : ∀ scope ∈ d.scopeSnapshot.tokenScopes, scope ∈ c.actor.scopes

/-- What a commit owes on the revision `k` that was `base` and becomes `cur`. -/
structure Committing (rt : Runtime) (g : Ghost) (dbNow : Time) (k : RevisionKey)
    (base cur : Revision) : Prop where
  log : cur.log = base.log ++ g.entered
  decisions : cur.decisions = base.decisions ++ g.decided
  command : ∀ c, g.duty.command = some c → c.key = k ∧ g.entered ≠ [] ∧
    ∃ a, base.intent = some a ∧ a.stateVersion = c.expectedStateVersion
  owned : ∀ a, base.intent = some a → a.state = .revalidating → g.entered ≠ [] →
    g.duty.claimed = some k
  permit : ∀ p, g.duty.permit = some p → p.key = k ∧ ∃ t ∈ g.entered, t.toState = .executing
  executing : (∃ t ∈ g.entered, t.toState = .executing) → Authorized rt g dbNow k base
  decided : ∀ d ∈ g.decided, ∃ c a, g.duty.command = some (.decide c) ∧ base.intent = some a ∧
    Truthful g dbNow c a d

/-- What a commit owes without a locked revision. -/
structure Untouched (g : Ghost) : Prop where
  command : g.duty.command = none
  permit : g.duty.permit = none
  entered : g.entered = []
  decided : g.decided = []

/-- What a call of `adapter.execute` owes. -/
def Executing (rt : Runtime) (g : Ghost) (held : Option (RevisionKey × Revision × Revision))
    (tool : ToolName) (command : AdapterCommand) : Prop :=
  ∃ k base a p, held = some (k, base, base) ∧ base.intent = some a ∧ a.state = .executing ∧
    g.duty.credit = some p ∧ p.key = k ∧ command.operationKey = operationKeyFor k ∧
    tool = a.tool ∧ command.parameters = a.canonicalParameters ∧
    recomputeDigest rt a = a.intentDigest

/-- The lifecycle contract of the operations. -/
@[reducible] def contract (rt : Runtime) (P : PolicyEvaluation → Prop) :
    Contract Db Error Result Op (rely P) where
  Ghost := Ghost
  start := fun _ => .initial
  observe := Ghost.observe
  Guar := fun k base cur => WellFormed P k cur ∧ Later base cur
  Commit := fun g begun held =>
    match held with
    | none => Untouched g
    | some (k, base, cur) => ∃ b, begun = some b ∧ Committing rt g b.2 k base cur
  Call := fun g held c =>
    match c with
    | .execute tool command => Executing rt g held tool command
    | _ => True
  Post := fun _ _ _ => True

theorem contract_lawful (rt : Runtime) (P : PolicyEvaluation → Prop) : (contract rt P).Lawful :=
  fun _ _ _ h => h

/-! ## Knowledge along a transaction -/

/-- What a process knows. -/
abbrev Know := Local revisions Ghost

/-- `τ'` knows at least what `τ` has seen, read and timed. -/
structure Grows (τ τ' : Know) : Prop where
  seen : ∀ i r, τ.seen i r → τ'.seen i r
  reads : ∀ σ, σ ∈ τ.ghost.reads → σ ∈ τ'.ghost.reads
  clocks : ∀ t, t ∈ τ.ghost.clocks → t ∈ τ'.ghost.clocks

theorem Grows.refl (τ : Know) : Grows τ τ := ⟨fun _ _ h => h, fun _ h => h, fun _ h => h⟩

theorem Grows.trans {τ τ' τ'' : Know} (h : Grows τ τ') (h' : Grows τ' τ'') : Grows τ τ'' :=
  ⟨fun i r hr => h'.seen i r (h.seen i r hr), fun σ hσ => h'.reads σ (h.reads σ hσ),
    fun t ht => h'.clocks t (h.clocks t ht)⟩

/-- `τ'` comes from `τ` through statements that write nothing of a revision. -/
structure Reads (τ τ' : Know) : Prop extends Grows τ τ' where
  begun : ∀ b, τ.begun = some b → τ'.begun = some b
  held : τ'.held = τ.held
  duty : τ'.ghost.duty = τ.ghost.duty
  entered : τ'.ghost.entered = τ.ghost.entered
  decided : τ'.ghost.decided = τ.ghost.decided

theorem Reads.refl (τ : Know) : Reads τ τ := ⟨.refl τ, fun _ h => h, rfl, rfl, rfl, rfl⟩

theorem Reads.trans {τ τ' τ'' : Know} (h : Reads τ τ') (h' : Reads τ' τ'') : Reads τ τ'' :=
  ⟨h.toGrows.trans h'.toGrows, fun b hb => h'.begun b (h.begun b hb), h'.held.trans h.held,
    h'.duty.trans h.duty, h'.entered.trans h.entered, h'.decided.trans h.decided⟩

/-- No revision is locked and nothing of a revision is written. -/
structure Free (τ : Know) (duty : Duty) : Prop where
  held : τ.held = none
  duty : τ.ghost.duty = duty
  entered : τ.ghost.entered = []
  decided : τ.ghost.decided = []

/-- The revision `k` is locked; it was `base`, and with the pending writes it is `cur`. -/
structure Txn (τ : Know) (b : Store × Instant) (duty : Duty) (k : RevisionKey)
    (base cur : Revision) (entered : List StateTransition) (decided : List ApprovalDecisionRow) :
    Prop where
  begun : τ.begun = some b
  held : τ.held = some (k, base, cur)
  duty : τ.ghost.duty = duty
  entered : τ.ghost.entered = entered
  decided : τ.ghost.decided = decided

theorem Free.reads {τ τ' : Know} {duty : Duty} (h : Free τ duty) (h' : Reads τ τ') :
    Free τ' duty :=
  ⟨h'.held.trans h.held, h'.duty.trans h.duty, h'.entered.trans h.entered,
    h'.decided.trans h.decided⟩

theorem Txn.reads {τ τ' : Know} {b : Store × Instant} {duty : Duty} {k : RevisionKey}
    {base cur : Revision} {es : List StateTransition} {ds : List ApprovalDecisionRow}
    (h : Txn τ b duty k base cur es ds) (h' : Reads τ τ') : Txn τ' b duty k base cur es ds :=
  ⟨h'.begun b h.begun, h'.held.trans h.held, h'.duty.trans h.duty, h'.entered.trans h.entered,
    h'.decided.trans h.decided⟩

/-- The duty of a process between its commands. -/
structure Duty.Idle (d : Duty) : Prop where
  command : d.command = none
  permit : d.permit = none

section Rules

variable {rt : Runtime} {P : PolicyEvaluation → Prop}

theorem free_initial (op : Op) :
    Free ((contract rt P).enter op) Ghost.initial.duty := ⟨rfl, rfl, rfl, rfl⟩

/-- A process that holds nothing may commit. -/
theorem Free.commitOk {τ : Know} {duty : Duty} (h : Free τ duty) (hd : duty.Idle) :
    (contract rt P).CommitOk τ := by
  constructor
  · intro i base cur hh
    rw [h.held] at hh
    cases hh
  · simp only [h.held]
    exact ⟨h.duty ▸ hd.command, h.duty ▸ hd.permit, h.entered, h.decided⟩

theorem CriticalHold.mono {reads reads' : List Store} {a : ActionIntent} {p : PolicyEvaluation}
    {decisions : List ApprovalDecisionRow} {dbNow : Time}
    (h : CriticalHold reads a p decisions dbNow) (hr : ∀ σ, σ ∈ reads → σ ∈ reads') :
    CriticalHold reads' a p decisions dbNow := by
  obtain ⟨d₁, hd₁, d₂, hd₂, r₁, r₂, rest, h1, h2, h3, h4, hne, hroles, ⟨σ₁, hσ₁, hh₁⟩,
    ⟨σ₂, hσ₂, hh₂⟩⟩ := h
  exact ⟨d₁, hd₁, d₂, hd₂, r₁, r₂, rest, h1, h2, h3, h4, hne, hroles, ⟨σ₁, hr σ₁ hσ₁, hh₁⟩,
    ⟨σ₂, hr σ₂ hσ₂, hh₂⟩⟩

theorem SingleHold.mono {reads reads' : List Store} {a : ActionIntent} {p : PolicyEvaluation}
    {decisions : List ApprovalDecisionRow} {dbNow : Time}
    (h : SingleHold reads a p decisions dbNow) (hr : ∀ σ, σ ∈ reads → σ ∈ reads') :
    SingleHold reads' a p decisions dbNow := by
  obtain ⟨d, hd, happ, σ, hσ, hholds⟩ := h
  exact ⟨d, hd, happ, σ, hr σ hσ, hholds⟩

theorem Authorized.mono {g g' : Ghost} {dbNow : Time} {k : RevisionKey} {base : Revision}
    (h : Authorized rt g dbNow k base) (hd : g'.duty = g.duty)
    (hr : ∀ σ, σ ∈ g.reads → σ ∈ g'.reads) : Authorized rt g' dbNow k base := by
  obtain ⟨a, row, bundle, ha, hrow, hc, hw, hcrit, hp⟩ := h.evidence
  exact ⟨⟨a, row, bundle, ha, hrow, by rw [hd]; exact hc, hw, fun hroute => (hcrit hroute).mono hr,
    hp⟩, fun a row ha hrow hroute => (h.single a row ha hrow hroute).mono hr⟩

theorem Truthful.mono {g g' : Ghost} {dbNow : Time} {c : ApprovalDecisionCommand}
    {a : ActionIntent} {d : ApprovalDecisionRow} (h : Truthful g dbNow c a d)
    (hr : ∀ σ, σ ∈ g.reads → σ ∈ g'.reads) (hc : ∀ t, t ∈ g.clocks → t ∈ g'.clocks) :
    Truthful g' dbNow c a d := by
  obtain ⟨σ, hσ, now, hnow, hroles⟩ := h.roles
  refine ⟨h.actor, h.digest, h.decidedAt, ⟨σ, hr σ hσ, now, hc now hnow, hroles⟩, fun happ => ?_,
    h.token⟩
  obtain ⟨σ', hσ', now', hnow', hscopes⟩ := h.scopes happ
  exact ⟨σ', hr σ' hσ', now', hc now' hnow', hscopes⟩

/-- Reading on keeps a transaction that may commit. -/
theorem commitOk_reads {τ τ' : Know} (h : (contract rt P).CommitOk τ) (h' : Reads τ τ') :
    (contract rt P).CommitOk τ' := by
  obtain ⟨hg, hc⟩ := h
  constructor
  · intro i base cur hh
    rw [h'.held] at hh
    exact hg i base cur hh
  · simp only [h'.held]
    -- Reading on changes what is known, not what is owed.
    cases hheld : τ.held with
    | none =>
        simp only [hheld] at hc
        exact ⟨by rw [h'.duty]; exact hc.command, by rw [h'.duty]; exact hc.permit,
          by rw [h'.entered]; exact hc.entered, by rw [h'.decided]; exact hc.decided⟩
    | some e =>
        obtain ⟨k, base, cur⟩ := e
        simp only [hheld] at hc
        obtain ⟨b, hb, hcom⟩ := hc
        refine ⟨b, h'.begun b hb, ?_⟩
        exact
          { log := by rw [h'.entered]; exact hcom.log
            decisions := by rw [h'.decided]; exact hcom.decisions
            command := by rw [h'.duty, h'.entered]; exact hcom.command
            owned := by rw [h'.duty, h'.entered]; exact hcom.owned
            permit := by rw [h'.duty, h'.entered]; exact hcom.permit
            executing := by
              rw [h'.entered]
              exact fun he => (hcom.executing he).mono h'.duty h'.reads
            decided := by
              rw [h'.decided, h'.duty]
              intro d hd
              obtain ⟨c, a, hcmd, ha, ht⟩ := hcom.decided d hd
              exact ⟨c, a, hcmd, ha, ht.mono h'.reads h'.clocks⟩ }

/-- A commit leaves the process free, with the duty settled. -/
theorem free_committed (τ : Know) :
    Free ((contract rt P).committed τ) τ.ghost.settle.duty := ⟨rfl, rfl, rfl, rfl⟩

theorem free_rolledBack (τ : Know) :
    Free ((contract rt P).rolledBack τ) τ.ghost.abandon.duty := ⟨rfl, rfl, rfl, rfl⟩

end Rules

end HitlOps.Lifecycle
