import Mathlib.Logic.Relation
import HitlOps.Transaction.Paths

/-!
# Waiting for locks

A statement that meets a lock of another process waits for its owner. `Climbs` is the discipline that
keeps such waits finite: keys have levels, and a process waits only for a key above every key that its
open transaction holds. Under this discipline the levels rise along a chain of waiting processes, so no
chain closes, and every waiting process waits in the end for one that can move.
-/

set_option autoImplicit false

namespace HitlOps.Transaction

open History

variable {D : Schema} {X R O : Type}

/-! ## The discipline -/

/-- The key that a statement waits for while another process holds it. -/
def Stmt.awaits? : Stmt D → Option D.Key
  | .lock k nowait => if nowait then none else some k
  | .insert k _ => some k
  | _ => none

/-- A statement waits only for a key above all that the open transaction holds. -/
def Climbs (level : D.Key → Nat) (h : List (Obs D)) (st : Stmt D) : Prop :=
  ∀ k, st.awaits? = some k → k ∈ held h ∨ ∀ k' ∈ held h, level k' < level k

/-- The watch of the discipline. -/
@[reducible] def Watch.climbing (level : D.Key → Nat) : Watch D :=
  ⟨fun _ _ _ => True, Climbs level⟩

/-- Nothing is held and nothing is pending. -/
def Released (h : List (Obs D)) : Prop := held h = [] ∧ writes h = []

/-- The end of an operation: whatever it returns or raises, its transaction is over. -/
def EndsReleased (_ : O) (_ : Except X R) (h : List (Obs D)) : Prop := Released h

theorem climbs_of_awaits {level : D.Key → Nat} {h : List (Obs D)} {st : Stmt D}
    (hst : st.awaits? = none) : Climbs level h st := by
  intro k hk
  rw [hst] at hk
  cases hk

theorem climbs_of_held {level : D.Key → Nat} {h : List (Obs D)} (hh : held h = []) (st : Stmt D) :
    Climbs level h st := by
  intro k _
  right
  intro k' hk'
  rw [hh] at hk'
  cases hk'

/-! ## Waiting processes -/

/-- The process that a label moves on. -/
def Label.mover? : Label D O → Option Nat
  | .run pid => some pid
  | .draw pid _ => some pid
  | .answer pid _ => some pid
  | _ => none

namespace Sys

variable {s : Sys D X R O} {pid q r : Nat} {k k' : D.Key} {code : O → Prog D X R}
  {level : D.Key → Nat}

/-- The process `pid` is in front of a statement that waits for the key `k`, which `q` holds. -/
structure WaitsFor (s : Sys D X R O) (pid : Nat) (k : D.Key) (q : Nat) : Prop where
  next : ∃ p st rest, s.procs pid = some p ∧ p.waiting = false ∧ p.prog = .stmt st rest ∧
    st.awaits? = some k
  owner : s.locks k = some q
  other : q ≠ pid

/-- The process `pid` waits for the process `q`. -/
def Waits (s : Sys D X R O) (pid q : Nat) : Prop := ∃ k, s.WaitsFor pid k q

/-- The process can take its next step. -/
def CanMove (code : O → Prog D X R) (s : Sys D X R O) (pid : Nat) : Prop :=
  ∃ l s', l.mover? = some pid ∧ s.step code l = some s'

/-- A process waits for one key at a time. -/
theorem WaitsFor.key_eq (h : s.WaitsFor pid k q) (h' : s.WaitsFor pid k' r) : k = k' := by
  obtain ⟨p, st, rest, hp, -, hprog, hk⟩ := h.next
  obtain ⟨p', st', rest', hp', -, hprog', hk'⟩ := h'.next
  rw [hp, Option.some.injEq] at hp'
  subst hp'
  rw [hprog, Prog.stmt.injEq] at hprog'
  obtain ⟨hst, -⟩ := hprog'
  rw [← hst, hk, Option.some.injEq] at hk'
  exact hk'

/-- Levels rise from a process that waits to the one that it waits for. -/
theorem WaitsFor.level_lt {Post : O → Except X R → List (Obs D) → Prop}
    (hf : (Watch.climbing level).Followed Post s) (hx : AllExact s) (h : s.WaitsFor pid k q)
    (h' : s.WaitsFor q k' r) : level k < level k' := by
  obtain ⟨p, st, rest, hp, hw, hprog, hk'⟩ := h'.next
  have hheld : k ∈ held p.history := ((hx.procs q p hp).locks k).1 h.owner
  have hclimbs : Climbs level p.history st := by
    have hwp := wp_of_followed hf hp hw
    rw [hprog] at hwp
    exact hwp.1
  rcases hclimbs k' hk' with hown | hall
  · -- A key of its own does not make a process wait.
    have howner := ((hx.procs q p hp).locks k').2 hown
    rw [h'.owner, Option.some.injEq] at howner
    exact absurd howner h'.other
  · exact hall k hheld

/-- Levels rise along every chain of waiting processes. -/
theorem level_lt_of_chain {Post : O → Except X R → List (Obs D) → Prop}
    (hf : (Watch.climbing level).Followed Post s) (hx : AllExact s)
    (hchain : Relation.TransGen s.Waits pid q) (hk : s.WaitsFor pid k r) {r' : Nat}
    (hk' : s.WaitsFor q k' r') : level k < level k' := by
  induction hchain generalizing k' r' with
  | single h =>
      obtain ⟨k₁, h⟩ := h
      obtain rfl := h.key_eq hk
      exact h.level_lt hf hx hk'
  | tail _ h ih =>
      obtain ⟨k₁, h⟩ := h
      exact Nat.lt_trans (ih h) (h.level_lt hf hx hk')

/-- No process waits for itself, not even through others. -/
theorem not_waits_cycle {Post : O → Except X R → List (Obs D) → Prop}
    (hf : (Watch.climbing level).Followed Post s) (hx : AllExact s) (pid : Nat) :
    ¬ Relation.TransGen s.Waits pid pid := by
  intro hcycle
  obtain ⟨q, ⟨k, hk⟩, -⟩ := Relation.TransGen.head'_iff.1 hcycle
  exact Nat.lt_irrefl _ (level_lt_of_chain hf hx hcycle hk hk)

/-- A database statement without a reply waits for the owner of its key. -/
theorem awaits_of_no_reply {σ : Session D} {st : Stmt D} (hdraw : ∀ o, st ≠ .draw o)
    (hcall : ∀ c, st ≠ .call c) (h : s.reply? pid σ st = none) :
    ∃ k q, st.awaits? = some k ∧ s.locks k = some q ∧ q ≠ pid := by
  cases st with
  | draw o => exact absurd rfl (hdraw o)
  | call c => exact absurd rfl (hcall c)
  | lock k nowait =>
      simp only [reply?] at h
      split at h
      · next q hq =>
          split at h
          · cases h
          · next hne =>
              cases nowait with
              | true => simp only [if_true, reduceCtorEq] at h
              | false => exact ⟨k, q, rfl, hq, hne⟩
      · cases h
  | insert k w =>
      simp only [reply?] at h
      split at h
      · next q hq =>
          split at h
          · split at h <;> cases h
          · next hne => exact ⟨k, q, rfl, hq, hne⟩
      · split at h <;> cases h
  | select => simp only [reply?, reduceCtorEq] at h
  | write w => simp only [reply?, reduceCtorEq] at h
  | commit => simp only [reply?, reduceCtorEq] at h
  | rollback => simp only [reply?, reduceCtorEq] at h
  | mark m => simp only [reply?, reduceCtorEq] at h

/-- A process that is not finished can move, or it waits for another one. -/
theorem canMove_or_waits {W : Watch D} {Post : O → Except X R → List (Obs D) → Prop}
    (hf : W.Followed Post s) (hdraw : ∀ o, Nonempty (D.Draw o)) (hcall : ∀ c, Nonempty (D.Answer c))
    {p : Proc D X R O} (hp : s.procs pid = some p) (hopen : p.outcome? = none) :
    CanMove code s pid ∨ ∃ q, s.Waits pid q := by
  cases hw : p.waiting with
  | true =>
      have hc := (hf.procs pid p hp).2
      simp only [Watch.Continues, hw, if_true] at hc
      obtain ⟨c, rest, h, hprog, -, -⟩ := hc
      obtain ⟨answers⟩ : Nonempty (∀ c, D.Answer c) := ⟨fun c => Classical.choice (hcall c)⟩
      left
      refine ⟨.answer pid answers, s.resume pid p (.call c) rest (answers c), rfl, ?_⟩
      simp only [step, hp, hw, if_true, hprog]
  | false =>
      cases hprog : p.prog with
      | ret a => simp only [Proc.outcome?, hprog, reduceCtorEq] at hopen
      | raise x => simp only [Proc.outcome?, hprog, reduceCtorEq] at hopen
      | stmt st rest =>
          by_cases hisDraw : ∃ o, st = .draw o
          · obtain ⟨o, rfl⟩ := hisDraw
            obtain ⟨values⟩ : Nonempty (∀ o, D.Draw o) := ⟨fun o => Classical.choice (hdraw o)⟩
            left
            refine ⟨.draw pid values, s.resume pid p (.draw o) rest (values o), rfl, ?_⟩
            simp only [step, hp, hw, Bool.false_eq_true, if_false, hprog]
          · by_cases hisCall : ∃ c, st = .call c
            · obtain ⟨c, rfl⟩ := hisCall
              left
              refine ⟨.run pid, s.send pid p c rest, rfl, ?_⟩
              simp only [step, hp, hw, Bool.false_eq_true, if_false, hprog, runStmt, send]
            · have hrun : s.step code (.run pid) =
                  (s.reply? pid p.session st).map (s.accept pid p st rest) := by
                simp only [step, hp, hw, Bool.false_eq_true, if_false, hprog]
                cases st with
                | call c => exact absurd ⟨c, rfl⟩ hisCall
                | _ => rfl
              -- A statement of the database is refused a reply only while another process holds its lock.
              cases he : s.reply? pid p.session st with
              | some e =>
                  left
                  exact ⟨.run pid, _, rfl, hrun.trans (congrArg _ he)⟩
              | none =>
                  right
                  obtain ⟨k, q, hk, hq, hne⟩ := awaits_of_no_reply
                    (fun o ho => hisDraw ⟨o, ho⟩) (fun c hc => hisCall ⟨c, hc⟩) he
                  exact ⟨q, k, ⟨p, st, rest, hp, hw, hprog, hk⟩, hq, hne⟩

/-- The owner of a lock is in the middle of its operation, when operations end released. -/
theorem owner_unfinished (hf : (Watch.climbing level).Followed EndsReleased s) (hx : AllExact s)
    (hk : s.locks k = some q) : ∃ p, s.procs q = some p ∧ p.outcome? = none := by
  obtain ⟨p, hp⟩ := Option.isSome_iff_exists.1 (hx.owners k q hk)
  refine ⟨p, hp, ?_⟩
  cases hout : p.outcome? with
  | none => rfl
  | some out =>
      have hheld : k ∈ held p.history := ((hx.procs q p hp).locks k).1 hk
      have hreleased : Released p.history := hf.post hp hout
      rw [hreleased.1] at hheld
      cases hheld

/-- Behind every process that is not finished stands one that can move. -/
theorem exists_mover (hf : (Watch.climbing level).Followed EndsReleased s) (hx : AllExact s)
    (hdraw : ∀ o, Nonempty (D.Draw o)) (hcall : ∀ c, Nonempty (D.Answer c)) {top : Nat}
    (htop : ∀ k, level k < top) {p : Proc D X R O} (hp : s.procs pid = some p)
    (hopen : p.outcome? = none) :
    ∃ q, Relation.ReflTransGen s.Waits pid q ∧ CanMove code s q := by
  -- The levels of the awaited keys rise and stay below `top`.
  have hrise : ∀ n pid k q, s.WaitsFor pid k q → top - level k ≤ n →
      ∃ m, Relation.ReflTransGen s.Waits pid m ∧ CanMove code s m := by
    intro n
    induction n with
    | zero =>
        intro pid k q _ hn
        have hlt := htop k
        omega
    | succ n ih =>
        intro pid k q hwait hn
        have hhead : s.Waits pid q := ⟨k, hwait⟩
        obtain ⟨p', hp', hopen'⟩ := owner_unfinished hf hx hwait.owner
        rcases canMove_or_waits hf hdraw hcall hp' hopen' with hmove | ⟨r, k', hwait'⟩
        · exact ⟨q, .single hhead, hmove⟩
        · have hlt := hwait.level_lt hf hx hwait'
          have hbound := htop k'
          obtain ⟨m, hm, hmove⟩ := ih q k' r hwait' (by omega)
          exact ⟨m, .head hhead hm, hmove⟩
  rcases canMove_or_waits hf hdraw hcall hp hopen with hmove | ⟨q, k, hwait⟩
  · exact ⟨pid, .refl, hmove⟩
  · exact hrise _ pid k q hwait (Nat.le_refl _)

end Sys

end HitlOps.Transaction
