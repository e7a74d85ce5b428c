import Mathlib.Logic.Relation
import HitlOps.Transaction.Steps

/-!
# Scripted runs

A script starts processes and moves them on, with an environment that fixes every draw and every
answer. `play` computes the state behind a script, and `reachable_play` says that it is a state of
the system: a script shows by computation that a behaviour is possible.
-/

set_option autoImplicit false

namespace HitlOps.Transaction

variable {D : Schema} {X R O : Type}

/-- Fixed values for the draws and the answers. -/
structure Environment (D : Schema) where
  draw : ∀ o : D.Source, D.Draw o
  answer : ∀ c : D.Call, D.Answer c

/-- A move of a script: start an operation, run up to `n` steps of a process, let it die, or let
time pass. -/
inductive Move (D : Schema) (O : Type) : Type
  | spawn (op : O)
  | go (pid : Nat) (n : Nat) (env : Environment D)
  | crash (pid : Nat)
  | tick (d : Instant)

namespace Sys

variable (code : O → Prog D X R)

/-- The label that moves the process on. -/
def labelOf (s : Sys D X R O) (pid : Nat) (env : Environment D) : Label D O :=
  match s.procs pid with
  | none => .run pid
  | some p =>
      if p.waiting then .answer pid env.answer
      else match p.prog with
        | .stmt (.draw _) _ => .draw pid env.draw
        | _ => .run pid

/-- Up to `n` steps of a process; it stops when the process cannot move. -/
def go (pid : Nat) (env : Environment D) : Nat → Sys D X R O → Sys D X R O
  | 0, s => s
  | n + 1, s =>
      match s.step code (s.labelOf pid env) with
      | none => s
      | some s' => go pid env n s'

/-- The state behind one move. -/
def move (s : Sys D X R O) : Move D O → Sys D X R O
  | .spawn op => (s.step code (.spawn op)).getD s
  | .go pid n env => go code pid env n s
  | .crash pid => (s.step code (.crash pid)).getD s
  | .tick d => (s.step code (.tick d)).getD s

/-- The state behind a script. -/
def play (s : Sys D X R O) (script : List (Move D O)) : Sys D X R O := script.foldl (move code) s

variable {code} {allowed : O → Prop} {db : D.Store}

theorem labelOf_ne_spawn (s : Sys D X R O) (pid : Nat) (env : Environment D) (op : O) :
    s.labelOf pid env ≠ .spawn op := by
  intro h
  unfold labelOf at h
  split at h
  · cases h
  · split at h
    · cases h
    · split at h <;> cases h

theorem Reachable.steps {s s' : Sys D X R O} (h : Reachable code allowed db s)
    (hs : Relation.ReflTransGen (Step code allowed) s s') : Reachable code allowed db s' := by
  induction hs with
  | refl => exact h
  | tail _ hstep ih => exact .step ih hstep

theorem steps_go (s : Sys D X R O) (pid : Nat) (env : Environment D) (n : Nat) :
    Relation.ReflTransGen (Step code allowed) s (go code pid env n s) := by
  induction n generalizing s with
  | zero => exact .refl
  | succ n ih =>
      unfold go
      cases hstep : s.step code (s.labelOf pid env) with
      | none => exact .refl
      | some s' =>
          refine .head ⟨_, hstep, fun op hop => ?_⟩ (ih s')
          exact absurd hop (labelOf_ne_spawn s pid env op)

theorem steps_step? (s : Sys D X R O) (l : Label D O) (hl : ∀ op, l = .spawn op → allowed op) :
    Relation.ReflTransGen (Step code allowed) s ((s.step code l).getD s) := by
  cases hstep : s.step code l with
  | none => exact .refl
  | some s' => exact .single ⟨l, hstep, hl⟩

theorem steps_move (s : Sys D X R O) (m : Move D O) (hm : ∀ op, m = .spawn op → allowed op) :
    Relation.ReflTransGen (Step code allowed) s (move code s m) := by
  cases m with
  | spawn op => exact steps_step? s (.spawn op) fun op' hop => by cases hop; exact hm op rfl
  | go pid n env => exact steps_go s pid env n
  | crash pid => exact steps_step? s (.crash pid) fun op hop => by cases hop
  | tick d => exact steps_step? s (.tick d) fun op hop => by cases hop

/-- A script of allowed operations takes steps of the system. -/
theorem steps_play (s : Sys D X R O) (script : List (Move D O))
    (hscript : ∀ op, .spawn op ∈ script → allowed op) :
    Relation.ReflTransGen (Step code allowed) s (play code s script) := by
  induction script generalizing s with
  | nil => exact .refl
  | cons m rest ih =>
      refine .trans (steps_move s m fun op hop => ?_) (ih _ fun op hop => ?_)
      · exact hscript op (hop ▸ List.mem_cons_self)
      · exact hscript op (List.mem_cons_of_mem m hop)

/-- A script of allowed operations leads to a reachable state. -/
theorem reachable_play {s : Sys D X R O} (h : Reachable code allowed db s)
    (script : List (Move D O)) (hscript : ∀ op, .spawn op ∈ script → allowed op) :
    Reachable code allowed db (play code s script) := h.steps (steps_play s script hscript)

/-! ### Checked scripts -/

/-- Every step of `go` passes the check. -/
def passes (code : O → Prog D X R) (check : Sys D X R O → Label D O → Bool) (pid : Nat)
    (env : Environment D) : Nat → Sys D X R O → Bool
  | 0, _ => true
  | n + 1, s =>
      match s.step code (s.labelOf pid env) with
      | none => true
      | some s' => check s (s.labelOf pid env) && passes code check pid env n s'

/-- Every step of a script passes the check. -/
def playPasses (code : O → Prog D X R) (check : Sys D X R O → Label D O → Bool) :
    Sys D X R O → List (Move D O) → Bool
  | _, [] => true
  | s, m :: rest =>
      (match m with
        | .spawn op => check s (.spawn op)
        | .go pid n env => passes code check pid env n s
        | .crash pid => check s (.crash pid)
        | .tick d => check s (.tick d)) && playPasses code check (move code s m) rest

variable {check : Sys D X R O → Label D O → Bool} {guard : Sys D X R O → Sys D X R O → Prop}

theorem guided_go (hcheck : ∀ s l s', Reachable code allowed db s → s.step code l = some s' →
      check s l = true → guard s s')
    {s : Sys D X R O} (h : Guided code allowed guard db s) (pid : Nat) (env : Environment D) (n : Nat)
    (hpass : passes code check pid env n s = true) :
    Guided code allowed guard db (go code pid env n s) := by
  induction n generalizing s with
  | zero => exact h
  | succ n ih =>
      unfold passes at hpass
      unfold go
      cases hstep : s.step code (s.labelOf pid env) with
      | none => exact h
      | some s' =>
          rw [hstep, Bool.and_eq_true] at hpass
          have hs : Step code allowed s s' :=
            ⟨_, hstep, fun op hop => absurd hop (labelOf_ne_spawn s pid env op)⟩
          exact ih (.step h hs (hcheck s _ s' h.reachable hstep hpass.1)) hpass.2

theorem guided_step? (hcheck : ∀ s l s', Reachable code allowed db s → s.step code l = some s' →
      check s l = true → guard s s')
    {s : Sys D X R O} (h : Guided code allowed guard db s) (l : Label D O)
    (hl : ∀ op, l = .spawn op → allowed op) (hpass : check s l = true) :
    Guided code allowed guard db ((s.step code l).getD s) := by
  cases hstep : s.step code l with
  | none => exact h
  | some s' => exact .step h ⟨l, hstep, hl⟩ (hcheck s l s' h.reachable hstep hpass)

/-- A checked script of allowed operations leads to a state of a guarded run. -/
theorem guided_play (hcheck : ∀ s l s', Reachable code allowed db s → s.step code l = some s' →
      check s l = true → guard s s')
    {s : Sys D X R O} (h : Guided code allowed guard db s) (script : List (Move D O))
    (hscript : ∀ op, .spawn op ∈ script → allowed op)
    (hpass : playPasses code check s script = true) :
    Guided code allowed guard db (play code s script) := by
  induction script generalizing s with
  | nil => exact h
  | cons m rest ih =>
      unfold playPasses at hpass
      rw [Bool.and_eq_true] at hpass
      refine ih ?_ (fun op hop => hscript op (List.mem_cons_of_mem m hop)) hpass.2
      cases m with
      | spawn op =>
          refine guided_step? hcheck h (.spawn op) (fun op' hop => ?_) hpass.1
          cases hop
          exact hscript op List.mem_cons_self
      | go pid n env => exact guided_go hcheck h pid env n hpass.1
      | crash pid => exact guided_step? hcheck h (.crash pid) (fun op hop => by cases hop) hpass.1
      | tick d => exact guided_step? hcheck h (.tick d) (fun op hop => by cases hop) hpass.1

end Sys

/-! ## Programs that only read -/

namespace Prog

variable {α : Type}

/-- The result of a program over a store that stands still. `none` is a program that locks, writes,
or leaves the store. -/
def readOn (db : D.Store) (now : Instant) (v : ∀ o : D.Source, D.Draw o) :
    Prog D X α → Option (Except X α)
  | .ret a => some (.ok a)
  | .raise x => some (.error x)
  | .stmt .select k => (k (db, now)).readOn db now v
  | .stmt (.draw o) k => (k (v o)).readOn db now v
  | _ => none

theorem readOn_bind {β : Type} {db : D.Store} {now : Instant} {v : ∀ o : D.Source, D.Draw o}
    {p : Prog D X α} {a : α} (f : α → Prog D X β) (h : p.readOn db now v = some (.ok a)) :
    (p >>= f).readOn db now v = (f a).readOn db now v := by
  induction p with
  | ret b =>
      cases h
      rfl
  | raise x => cases h
  | stmt st k ih =>
      cases st with
      | select => exact ih _ h
      | draw o => exact ih _ h
      | _ => cases h

/-- A sequence returns exactly when its first part does, and then the second one. -/
theorem readOn_bind_ok {β : Type} {db : D.Store} {now : Instant} {v : ∀ o : D.Source, D.Draw o}
    {p : Prog D X α} {f : α → Prog D X β} {b : β} :
    (p >>= f).readOn db now v = some (.ok b) ↔
      ∃ a, p.readOn db now v = some (.ok a) ∧ (f a).readOn db now v = some (.ok b) := by
  constructor
  · intro h
    induction p with
    | ret a => exact ⟨a, rfl, h⟩
    | raise x => cases h
    | stmt st k ih =>
        cases st with
        | select => exact ih _ h
        | draw o => exact ih _ h
        | _ => cases h
  · rintro ⟨a, ha, hb⟩
    rw [readOn_bind f ha, hb]

theorem readOn_raiseIf {db : D.Store} {now : Instant} {v : ∀ o : D.Source, D.Draw o} {c : Prop}
    [Decidable c] {x : X} {u : Unit} :
    (raiseIf c x : Prog D X Unit).readOn db now v = some (.ok u) ↔ ¬ c := by
  unfold raiseIf
  split
  · next h => exact ⟨fun hx => (by cases hx), fun hn => absurd h hn⟩
  · next h => exact ⟨fun _ => h, fun _ => rfl⟩

/-- Sequences associate. -/
theorem bind_assoc {β γ : Type} (p : Prog D X α) (f : α → Prog D X β) (g : β → Prog D X γ) :
    (p >>= f) >>= g = p >>= fun a => f a >>= g := by
  show (p.bind f).bind g = p.bind fun a => (f a).bind g
  induction p with
  | ret a => rfl
  | raise x => rfl
  | stmt st k ih =>
      simp only [bind]
      congr 1
      funext r
      exact ih r

end Prog

end HitlOps.Transaction
