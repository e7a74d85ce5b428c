import HitlOps.Program
import HitlOps.Transaction.Replay

/-!
# A small deployment

The tenant `acme` with the seed policy bundle, two approvers for critical operations, and a request
to delete a database. Scripts over this deployment show that the behaviours which the properties
speak about occur. The digest of the scenario is the identity, so it has no collisions.
-/

set_option autoImplicit false

namespace HitlOps.Scenario

open HitlOps.Python HitlOps.Domain HitlOps.Infrastructure HitlOps.Application HitlOps.Adapters
open HitlOps.Transaction

/-- Library functions that keep texts as they are. -/
def runtime : Runtime where
  sha256 := id
  nfc := id
  lower := id
  isPrintable := fun _ => true
  laxInt := fun _ => none
  isoformat := fun _ => ""
  jsonTime := fun _ => ""

def intentId : UUID := ⟨"11111111-1111-1111-1111-111111111111", by decide⟩

def freshId : UUID := ⟨"22222222-2222-2222-2222-222222222222", by decide⟩

/-- A healthy target and an adapter that succeeds. -/
def environment : Environment Db where
  draw
    | .now => 0
    | .uuid => freshId
    | .order => id
  answer
    | .fetch _ parameters => .snapshot ⟨true, parameters, "healthy", [], none⟩
    | .execute _ _ => .result ⟨"SUCCEEDED", none, [], none⟩
    | .lookupStatus _ _ _ => .error
    | .propose _ _ => .cancelled
    | .publishPending => none

/-- The seed bundle, active for the tenant. -/
def seedBundle : PolicyBundleRow := ⟨freshId, "acme", "policy-1", seedPolicyBundleRules, true⟩

/-- A role in every environment, without an end. -/
def assignment (name role : String) : RoleAssignmentRow :=
  ⟨freshId, "acme", name, role, [], ["ops:write"], "", 0, none, none, "root"⟩

/-- The approvers of critical operations. -/
def approvers : List RoleAssignmentRow :=
  [assignment "alice" "critical_approver_l1", assignment "bob" "critical_approver_l2"]

def parameters : Dict := [("resource_id", .str "db-1")]

def key : RevisionKey := ⟨"acme", intentId, 1⟩

/-- The digest of the request to run `tool`. -/
def digest (tool : ToolName) : String :=
  runtime.sha256 ((digestEnvelope tool "acme" "rachel" 1 parameters).dumps canonicalOptions)

/-- The request to run `tool` on the database. -/
def creation (tool : ToolName) : CreateIntentCommand where
  tenantId := "acme"
  intentId
  revision := 1
  tool
  canonicalParameters := parameters
  intentDigest := digest tool
  requesterId := "rachel"
  requesterRationale := "retire the database"
  source := .direct
  rawProposal := none
  commandId := "create"
  correlationId := "corr"
  actorId := "rachel"

/-- The evaluation of the request under the seed bundle. -/
def evaluation (tool : ToolName) : PolicyEvaluation :=
  match evaluatePolicy runtime tool (evaluateRisk tool parameters {}) parameters
    seedPolicyBundle with
  | .ok policy => policy
  | .error _ => blocked "" ""

def recording (tool : ToolName) : Op :=
  .record key (evaluateRisk tool parameters {}) (evaluation tool) "record" "corr"

def actor (name : String) (h : name ≠ "") : AuthenticatedActor :=
  ⟨name, "acme", "corr", ["ops:write"], h, by decide⟩

theorem alice_ne : "alice" ≠ "" := by decide

theorem bob_ne : "bob" ≠ "" := by decide

/-- An approval at a level, for a state version. -/
def approval (tool : ToolName) (name : String) (h : name ≠ "") (level version : Nat) :
    ApprovalDecisionCommand where
  tenantId := "acme"
  intentId
  revision := 1
  intentDigest := digest tool
  level
  decision := .approve
  reason := "reviewed"
  expectedStateVersion := version
  actor := actor name h
  commandId := "decide"
  obligations := [("require_change_ticket", "CHG-1")]

/-- Start an operation as the process `pid` and run it to its end. -/
def complete (pid : Nat) (op : Op) : List (Move Db Op) := [.spawn op, .go pid 200 environment]

/-- The deletion is requested, evaluated, approved at both levels, and executed by a worker. -/
def deletion : List (Move Db Op) :=
  complete 0 (.create (creation .deleteResource))
    ++ complete 1 (recording .deleteResource)
    ++ complete 2 (.decide (approval .deleteResource "alice" alice_ne 1 4))
    ++ complete 3 (.decide (approval .deleteResource "bob" bob_ne 2 6))
    ++ complete 4 .workerTick

/-- The first state: the approvers and the seed bundle. -/
def start : State := Sys.initial (initialStore approvers [seedBundle])

/-- The state behind a script. -/
def after (script : List (Move Db Op)) : State := Sys.play (code runtime) start script

set_option maxRecDepth 100000 in
/-- The deletion runs to its end. -/
theorem deletion_succeeds :
    ∃ a, (after deletion).db.intent? key = some a ∧ a.state = .succeeded := by
  have h : ((after deletion).db.intent? key).any (fun a => a.state = .succeeded) = true := by
    decide +kernel
  obtain ⟨a, ha, hstate⟩ := (Option.any_eq_true _ _).1 h
  exact ⟨a, ha, of_decide_eq_true hstate⟩

set_option maxRecDepth 100000 in
/-- Its log has been through `APPROVED`. -/
theorem deletion_approved :
    ∃ t ∈ (after deletion).db.transitionsOf key, t.toState = .approved := by
  have h : ((after deletion).db.transitionsOf key).any (fun t => t.toState = .approved) = true := by
    decide +kernel
  obtain ⟨t, ht, hstate⟩ := List.any_eq_true.1 h
  exact ⟨t, ht, of_decide_eq_true hstate⟩

/-- A script of allowed operations is a run. -/
theorem run_after (allowed : Op → Prop) (script : List (Move Db Op))
    (h : ∀ op, .spawn op ∈ script → allowed op) : Run runtime allowed (after script) :=
  .of approvers [seedBundle] (Sys.reachable_play .initial script h)

/-- The operations that a script starts. -/
def started : List (Move Db Op) → List Op
  | [] => []
  | .spawn op :: rest => op :: started rest
  | _ :: rest => started rest

theorem mem_started {script : List (Move Db Op)} {op : Op} :
    Move.spawn op ∈ script ↔ op ∈ started script := by
  induction script with
  | nil =>
      constructor
      · intro h
        cases h
      · intro h
        cases h
  | cons m rest ih => cases m <;> simp [started, ih]

end HitlOps.Scenario
