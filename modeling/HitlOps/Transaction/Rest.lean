import Mathlib.Logic.Hydra
import HitlOps.Transaction.Waiting

/-!
# Coming to rest

A step of a process leaves less of its program, and a program is a tree of finite paths. So a system
that starts nothing new and keeps the lock discipline comes to rest: `exists_rest` gives a run from any
reachable state in which every process ends and every lock is released.

The measure is the multiset of what the processes have left, in the order of `Relation.CutExpand`.
-/

set_option autoImplicit false

namespace HitlOps.Transaction

variable {D : Schema} {X R O : Type}

/-! ## What a process has left -/

/-- What a process slot has left: the rest of a program, and whether a call of it is out. -/
abbrev Remainder (D : Schema) (X R : Type) : Type := Option (Prog D X R × Bool)

/-- The first remainder is one step shorter: a call is sent, or a statement is behind. -/
inductive Shorter : Remainder D X R → Remainder D X R → Prop
  | sent (c : D.Call) (k : D.Answer c → Prog D X R) :
      Shorter (some (.stmt (.call c) k, true)) (some (.stmt (.call c) k, false))
  | behind (st : Stmt D) (k : st.Resp → Prog D X R) (r : st.Resp) (out : Bool) :
      Shorter (some (k r, false)) (some (.stmt st k, out))

theorem acc_waiting {st : Stmt D} {k : st.Resp → Prog D X R}
    (h : ∀ r, Acc Shorter (some (k r, false))) : Acc Shorter (some (Prog.stmt st k, true)) := by
  constructor
  intro y hy
  cases hy with
  | behind st k r out => exact h r

/-- A program is behind after finitely many steps, whatever the responses. -/
theorem acc_remainder (p : Prog D X R) : Acc Shorter (some (p, false)) := by
  induction p with
  | ret a => exact ⟨_, fun y hy => by cases hy⟩
  | raise x => exact ⟨_, fun y hy => by cases hy⟩
  | stmt st k ih =>
      constructor
      intro y hy
      cases hy with
      | sent c k => exact acc_waiting ih
      | behind st k r out => exact ih r

theorem wellFounded_shorter : WellFounded (Shorter : Remainder D X R → Remainder D X R → Prop) := by
  constructor
  intro a
  match a with
  | none => exact ⟨_, fun y hy => by cases hy⟩
  | some (p, false) => exact acc_remainder p
  | some (p, true) =>
      cases p with
      | ret a => exact ⟨_, fun y hy => by cases hy⟩
      | raise x => exact ⟨_, fun y hy => by cases hy⟩
      | stmt st k => exact acc_waiting fun r => acc_remainder (k r)

namespace Sys

variable {s s' : Sys D X R O} {pid : Nat} {code : O → Prog D X R} {allowed : O → Prop}

/-- What the process `pid` has left. -/
def remainder (s : Sys D X R O) (pid : Nat) : Remainder D X R :=
  (s.procs pid).map fun p => (p.prog, p.waiting)

/-- What all processes have left. -/
def remainders (s : Sys D X R O) : Multiset (Remainder D X R) :=
  (Multiset.range s.next).map s.remainder

/-! ## One step -/

/-- The process `pid` alone has moved on by one step. -/
structure MovedOn (s s' : Sys D X R O) (pid : Nat) : Prop where
  next : s'.next = s.next
  others : ∀ q, q ≠ pid → s'.procs q = s.procs q
  own : ∃ p p', s.procs pid = some p ∧ s'.procs pid = some p' ∧ p'.op = p.op
  shorter : Shorter (s'.remainder pid) (s.remainder pid)

/-- The process of a slot is replaced by one that has one step less to go. -/
theorem movedOn_of_update {p p' : Proc D X R O} (hp : s.procs pid = some p)
    (hnext : s'.next = s.next) (hprocs : s'.procs = Function.update s.procs pid (some p'))
    (hop : p'.op = p.op)
    (hshort : Shorter (some (p'.prog, p'.waiting)) (some (p.prog, p.waiting))) :
    s.MovedOn s' pid := by
  have hp' : s'.procs pid = some p' := by rw [hprocs, Function.update_self]
  refine ⟨hnext, fun q hq => ?_, ⟨p, p', hp, hp', hop⟩, ?_⟩
  · rw [hprocs, Function.update_of_ne hq]
  · rw [remainder, remainder, hp, hp']
    exact hshort

/-- A label that moves a process on does so, and leaves the others alone. -/
theorem movedOn_of_step {l : Label D O} (hl : l.mover? = some pid) (h : s.step code l = some s') :
    s.MovedOn s' pid := by
  cases l with
  | spawn op => cases hl
  | crash pid => cases hl
  | tick d => cases hl
  | run pid =>
      cases hl
      simp only [step] at h
      split at h
      · cases h
      · next p hp =>
          split at h
          · cases h
          · next hw =>
              rw [Bool.not_eq_true] at hw
              split at h
              · next st k hprog =>
                  cases st with
                  | call c =>
                      simp only [runStmt, Option.some.injEq] at h
                      subst h
                      refine movedOn_of_update hp rfl rfl rfl ?_
                      rw [hprog, hw]
                      exact .sent c k
                  | _ =>
                      simp only [runStmt, Option.map_eq_some_iff] at h
                      obtain ⟨e, -, rfl⟩ := h
                      refine movedOn_of_update hp rfl rfl rfl ?_
                      rw [hprog, hw]
                      exact .behind _ k e.resp false
              · cases h
  | draw pid v =>
      cases hl
      simp only [step] at h
      split at h
      · cases h
      · next p hp =>
          split at h
          · cases h
          · next hw =>
              rw [Bool.not_eq_true] at hw
              split at h
              · next o k hprog =>
                  cases h
                  refine movedOn_of_update hp rfl rfl rfl ?_
                  rw [hprog, hw]
                  exact .behind (.draw o) k (v o) false
              · cases h
  | answer pid a =>
      cases hl
      simp only [step] at h
      split at h
      · cases h
      · next p hp =>
          split at h
          · next hw =>
              split at h
              · next c k hprog =>
                  cases h
                  refine movedOn_of_update hp rfl rfl rfl ?_
                  rw [hprog, hw]
                  exact .behind (.call c) k (a c) true
              · cases h
          · cases h

/-- A step of a process leaves less to do. -/
theorem MovedOn.decreases (h : s.MovedOn s' pid) (hpid : pid < s.next) :
    Relation.CutExpand Shorter s'.remainders s.remainders := by
  have hmem : pid ∈ Multiset.range s.next := Multiset.mem_range.2 hpid
  have hsplit := Multiset.cons_erase hmem
  have hrest : ((Multiset.range s.next).erase pid).map s'.remainder =
      ((Multiset.range s.next).erase pid).map s.remainder := by
    refine Multiset.map_congr rfl fun q hq => ?_
    have hne : q ≠ pid := fun heq => by
      have hnodup := (Multiset.nodup_range s.next).notMem_erase (a := pid)
      exact hnodup (heq ▸ hq)
    rw [remainder, remainder, h.others q hne]
  rw [remainders, remainders, h.next, ← hsplit, Multiset.map_cons, Multiset.map_cons, hrest,
    ← Multiset.singleton_add, ← Multiset.singleton_add]
  exact Relation.cutExpand_single_add h.shorter _

/-! ## Runs to rest -/

/-- A step that moves a process on. -/
def MoveStep (code : O → Prog D X R) (s s' : Sys D X R O) : Prop :=
  ∃ l pid, l.mover? = some pid ∧ s.step code l = some s'

/-- Every process has ended and every lock is released. -/
structure AtRest (s : Sys D X R O) : Prop where
  ended : ∀ pid p, s.procs pid = some p → p.outcome?.isSome
  unlocked : ∀ k, s.locks k = none

/-- The processes of `s` are those of `s'`, for the same operations. -/
def SameProcesses (s s' : Sys D X R O) : Prop :=
  ∀ pid, (s.procs pid).map (·.op) = (s'.procs pid).map (·.op)

theorem MovedOn.same (h : s.MovedOn s' pid) : SameProcesses s s' := by
  intro q
  by_cases hq : q = pid
  · subst hq
    obtain ⟨p, p', hp, hp', hop⟩ := h.own
    rw [hp, hp', Option.map_some, Option.map_some, hop]
  · rw [h.others q hq]

/-- A move is a step of the system. -/
theorem MoveStep.step (h : MoveStep code s s') : Step code allowed s s' := by
  obtain ⟨l, pid, hl, hstep⟩ := h
  refine ⟨l, hstep, fun op hop => ?_⟩
  rw [hop] at hl
  cases hl

theorem atRest_of_ended {level : D.Key → Nat}
    (hf : (Watch.climbing level).Followed EndsReleased s) (hx : AllExact s)
    (hended : ∀ pid p, s.procs pid = some p → p.outcome?.isSome) : AtRest s := by
  refine ⟨hended, fun k => ?_⟩
  cases hk : s.locks k with
  | none => rfl
  | some q =>
      obtain ⟨p, hp, hopen⟩ := owner_unfinished hf hx hk
      have hsome := hended q p hp
      rw [hopen] at hsome
      cases hsome

end Sys

/-! ## The run theorem -/

section Runs

variable {s : Sys D X R O} {code : O → Prog D X R} {allowed : O → Prop} {db : D.Store}
  {level : D.Key → Nat}

/-- In every run of operations that climb and end released, the processes do. -/
theorem climbing_of_reachable
    (hcode : ∀ op, allowed op → (Watch.climbing level).wp (code op) (EndsReleased op) [])
    (h : Sys.Reachable code allowed db s) : (Watch.climbing level).Followed EndsReleased s :=
  h.invariant (Watch.followed_initial db) fun _ _ _ _ hs hJ =>
    hJ.step hcode (fun _ _ _ => trivial) (fun _ _ _ => trivial) (fun _ _ _ _ _ _ => trivial) hs

/-- From every reachable state the processes can run to their ends, with no new one and no crash. -/
theorem exists_rest
    (hcode : ∀ op, allowed op → (Watch.climbing level).wp (code op) (EndsReleased op) [])
    (hdraw : ∀ o, Nonempty (D.Draw o)) (hcall : ∀ c, Nonempty (D.Answer c)) {top : Nat}
    (htop : ∀ k, level k < top) (h : Sys.Reachable code allowed db s) :
    ∃ s', Relation.ReflTransGen (Sys.MoveStep code) s s' ∧ s'.AtRest ∧ s.SameProcesses s' := by
  -- The induction is on what the processes have left.
  induction hm : s.remainders using wellFounded_shorter.cutExpand.induction generalizing s with
  | _ m ih =>
      have hf := climbing_of_reachable hcode h
      have hx := exact_of_reachable h
      by_cases hended : ∀ pid p, s.procs pid = some p → p.outcome?.isSome
      · exact ⟨s, .refl, Sys.atRest_of_ended hf hx hended, fun pid => rfl⟩
      · obtain ⟨pid, p, hp, hopen⟩ : ∃ pid p, s.procs pid = some p ∧ p.outcome? = none := by
          by_contra hno
          refine hended fun pid p hp => ?_
          by_contra hopen
          exact hno ⟨pid, p, hp, Option.not_isSome_iff_eq_none.1 hopen⟩
        obtain ⟨q, -, l, s₁, hl, hstep⟩ := Sys.exists_mover hf hx hdraw hcall htop hp hopen
        have hmoved := Sys.movedOn_of_step hl hstep
        have hmove : Sys.MoveStep code s s₁ := ⟨l, q, hl, hstep⟩
        have hq : q < s.next := by
          obtain ⟨p₁, -, hp₁, -⟩ := hmoved.own
          by_contra hge
          rw [hx.fresh q (Nat.le_of_not_lt hge)] at hp₁
          cases hp₁
        have hless := hmoved.decreases hq
        rw [hm] at hless
        obtain ⟨s', hrun, hrest, hsame⟩ := ih _ hless (h.step hmove.step) rfl
        exact ⟨s', .head hmove hrun, hrest, fun pid => (hmoved.same pid).trans (hsame pid)⟩

end Runs

end HitlOps.Transaction
