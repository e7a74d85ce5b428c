import HitlOps.Transaction.System

/-!
# One step of the system

`Moves` lists the steps of the concurrent semantics with the state that each of them leads to, and
`Moves.of_step` is its inversion lemma. Facts about runs that need no contract are proved by
induction over reachable states and a case split on `Moves`.
-/

set_option autoImplicit false

namespace HitlOps.Transaction

variable {D : Schema} {X R O : Type}

/-- The store that a statement showed to its process. -/
def Obs.seen? : Obs D → Option D.Store
  | .did .select r => some r.1
  | .did (.lock _ _) r => r.map Prod.fst
  | _ => none

/-! ## Lock tables -/

theorem releaseLocks_eq_some {locks : D.Key → Option Nat} {pid q : Nat} {k : D.Key} :
    releaseLocks locks pid k = some q ↔ locks k = some q ∧ q ≠ pid := by
  unfold releaseLocks
  by_cases h : locks k = some pid
  · rw [if_pos h]
    constructor
    · intro h'; cases h'
    · rintro ⟨h1, h2⟩
      rw [h] at h1
      exact absurd (Option.some.inj h1).symm h2
  · rw [if_neg h]
    constructor
    · intro h'
      refine ⟨h', ?_⟩
      rintro rfl
      exact h h'
    · exact fun h' => h'.1

theorem update_locks_iff {locks : D.Key → Option Nat} {k : D.Key} {pid : Nat}
    (hk : locks k = none) (q : Nat) (hq : q ≠ pid) (k' : D.Key) :
    Function.update locks k (some pid) k' = some q ↔ locks k' = some q := by
  by_cases h : k' = k
  · subst h
    rw [Function.update_self, hk]
    constructor
    · intro h'
      exact absurd (Option.some.inj h').symm hq
    · intro h'
      cases h'
  · rw [Function.update_of_ne h]

theorem update_locks_self {locks : D.Key → Option Nat} {k : D.Key} {pid : Nat} (k' : D.Key) :
    Function.update locks k (some pid) k' = some pid ↔ k' = k ∨ locks k' = some pid := by
  by_cases h : k' = k
  · subst h
    simp only [Function.update_self, true_or]
  · rw [Function.update_of_ne h]
    simp only [h, false_or]

theorem release_iff {locks : D.Key → Option Nat} {pid : Nat} (q : Nat) (hq : q ≠ pid) (k : D.Key) :
    releaseLocks locks pid k = some q ↔ locks k = some q := by
  rw [releaseLocks_eq_some]
  exact ⟨fun h => h.1, fun h => ⟨h, hq⟩⟩

namespace Sys

/-- The state after the process `pid` has sent the call `c`. -/
def send (s : Sys D X R O) (pid : Nat) (p : Proc D X R O) (c : D.Call)
    (k : D.Answer c → Prog D X R) : Sys D X R O :=
  { s with
    trace := s.event pid p (.call c) :: s.trace
    procs := Function.update s.procs pid
      (some ⟨p.op, .stmt (.call c) k, p.session, .sent c :: p.history, true⟩) }

/-- The state with a new process for `op`. -/
def launch (s : Sys D X R O) (code : O → Prog D X R) (op : O) : Sys D X R O :=
  { s with
    procs := Function.update s.procs s.next (some ⟨op, code op, .closed, [], false⟩)
    next := s.next + 1 }

/-- The state without the process `pid`. -/
def kill (s : Sys D X R O) (pid : Nat) : Sys D X R O :=
  { s with
    procs := Function.update s.procs pid none
    locks := releaseLocks s.locks pid }

/-- What one step does. -/
inductive Moves (code : O → Prog D X R) (allowed : O → Prop) (s : Sys D X R O) :
    Sys D X R O → Prop
  | launch (op : O) (hop : allowed op) : Moves code allowed s (s.launch code op)
  | accept {pid : Nat} {p : Proc D X R O} {st : Stmt D} {k : st.Resp → Prog D X R} {e : Reply D st}
      (hp : s.procs pid = some p) (hw : p.waiting = false) (hprog : p.prog = .stmt st k)
      (he : s.reply? pid p.session st = some e) : Moves code allowed s (s.accept pid p st k e)
  | draw {pid : Nat} {p : Proc D X R O} {o : D.Source} {k : D.Draw o → Prog D X R} (v : D.Draw o)
      (hp : s.procs pid = some p) (hw : p.waiting = false) (hprog : p.prog = .stmt (.draw o) k) :
      Moves code allowed s (s.resume pid p (.draw o) k v)
  | send {pid : Nat} {p : Proc D X R O} {c : D.Call} {k : D.Answer c → Prog D X R}
      (hp : s.procs pid = some p) (hw : p.waiting = false) (hprog : p.prog = .stmt (.call c) k) :
      Moves code allowed s (s.send pid p c k)
  | answer {pid : Nat} {p : Proc D X R O} {c : D.Call} {k : D.Answer c → Prog D X R}
      (a : D.Answer c) (hp : s.procs pid = some p) (hw : p.waiting = true)
      (hprog : p.prog = .stmt (.call c) k) :
      Moves code allowed s (s.resume pid p (.call c) k a)
  | kill {pid : Nat} {p : Proc D X R O} (hp : s.procs pid = some p) :
      Moves code allowed s (s.kill pid)
  | tick (d : Instant) : Moves code allowed s { s with clock := s.clock + d }

/-- Every step is one of the moves. -/
theorem Moves.of_step {code : O → Prog D X R} {allowed : O → Prop} {s s' : Sys D X R O}
    (h : Step code allowed s s') : Moves code allowed s s' := by
  obtain ⟨l, hl, hop⟩ := h
  cases l with
  | spawn op =>
      simp only [step, Option.some.injEq] at hl
      subst hl
      exact .launch op (hop op rfl)
  | run pid =>
      simp only [step] at hl
      cases hp : s.procs pid with
      | none => simp only [hp, reduceCtorEq] at hl
      | some p =>
          simp only [hp] at hl
          cases hw : p.waiting with
          | true => simp only [hw, if_true, reduceCtorEq] at hl
          | false =>
              simp only [hw, Bool.false_eq_true, if_false] at hl
              cases hprog : p.prog with
              | ret a => simp only [hprog, reduceCtorEq] at hl
              | raise x => simp only [hprog, reduceCtorEq] at hl
              | stmt st k =>
                  simp only [hprog] at hl
                  cases st with
                  | call c =>
                      simp only [runStmt, Option.some.injEq] at hl
                      subst hl
                      exact .send hp hw hprog
                  | _ =>
                      simp only [runStmt, Option.map_eq_some_iff] at hl
                      obtain ⟨e, he, rfl⟩ := hl
                      exact .accept hp hw hprog he
  | draw pid v =>
      simp only [step] at hl
      cases hp : s.procs pid with
      | none => simp only [hp, reduceCtorEq] at hl
      | some p =>
          simp only [hp] at hl
          cases hw : p.waiting with
          | true => simp only [hw, if_true, reduceCtorEq] at hl
          | false =>
              simp only [hw, Bool.false_eq_true, if_false] at hl
              split at hl
              · next o k hprog =>
                  simp only [Option.some.injEq] at hl
                  subst hl
                  exact .draw (v o) hp hw hprog
              · cases hl
  | answer pid a =>
      simp only [step] at hl
      cases hp : s.procs pid with
      | none => simp only [hp, reduceCtorEq] at hl
      | some p =>
          simp only [hp] at hl
          cases hw : p.waiting with
          | false => simp only [hw, Bool.false_eq_true, if_false, reduceCtorEq] at hl
          | true =>
              simp only [hw, if_true] at hl
              split at hl
              · next c k hprog =>
                  simp only [Option.some.injEq] at hl
                  subst hl
                  exact .answer (a c) hp hw hprog
              · cases hl
  | crash pid =>
      simp only [step] at hl
      cases hp : s.procs pid with
      | none => simp only [hp, reduceCtorEq] at hl
      | some p =>
          simp only [hp, Option.some.injEq] at hl
          subst hl
          exact .kill hp
  | tick d =>
      simp only [step, Option.some.injEq] at hl
      subst hl
      exact .tick d

/-- An invariant of the moves holds in every reachable state. -/
theorem Reachable.invariant {code : O → Prog D X R} {allowed : O → Prop} {db : D.Store}
    {J : Sys D X R O → Prop} (hinit : J (Sys.initial db))
    (hstep : ∀ s s', Reachable code allowed db s → Reachable code allowed db s' →
      Moves code allowed s s' → J s → J s')
    {s : Sys D X R O} (h : Reachable code allowed db s) : J s := by
  induction h with
  | initial => exact hinit
  | step hr hs ih => exact hstep _ _ hr (hr.step hs) (.of_step hs) ih

/-- The states of the runs whose steps all pass the guard. -/
inductive Guided (code : O → Prog D X R) (allowed : O → Prop)
    (guard : Sys D X R O → Sys D X R O → Prop) (db : D.Store) : Sys D X R O → Prop
  | initial : Guided code allowed guard db (initial db)
  | step {s s' : Sys D X R O} :
      Guided code allowed guard db s → Step code allowed s s' → guard s s' →
      Guided code allowed guard db s'

theorem Guided.reachable {code : O → Prog D X R} {allowed : O → Prop}
    {guard : Sys D X R O → Sys D X R O → Prop} {db : D.Store} {s : Sys D X R O}
    (h : Guided code allowed guard db s) : Reachable code allowed db s := by
  induction h with
  | initial => exact .initial
  | step _ hs _ ih => exact .step ih hs

/-- An invariant of the guarded moves holds in every state of a guarded run. -/
theorem Guided.invariant {code : O → Prog D X R} {allowed : O → Prop}
    {guard : Sys D X R O → Sys D X R O → Prop} {db : D.Store} {J : Sys D X R O → Prop}
    (hinit : J (Sys.initial db))
    (hstep : ∀ s s', Reachable code allowed db s → Reachable code allowed db s' →
      Moves code allowed s s' → guard s s' → J s → J s')
    {s : Sys D X R O} (h : Guided code allowed guard db s) : J s := by
  induction h with
  | initial => exact hinit
  | step hg hs hguard ih =>
      exact hstep _ _ hg.reachable (.step hg.reachable hs) (.of_step hs) hguard ih

/-! ## Replies -/

section Replies

variable {s : Sys D X R O} {pid : Nat} {σ : Session D}

/-- A reply other than that of a commit leaves the committed store alone. -/
theorem reply_db {st : Stmt D} {e : Reply D st} (h : s.reply? pid σ st = some e)
    (hst : st ≠ .commit) : e.db = s.db := by
  cases st with
  | commit => exact absurd rfl hst
  | lock k nowait =>
      simp only [reply?] at h
      repeat' split at h
      all_goals first | (simp only [Option.some.injEq] at h; subst h; rfl) | cases h
  | insert k w =>
      simp only [reply?] at h
      repeat' split at h
      all_goals first | (simp only [Option.some.injEq] at h; subst h; rfl) | cases h
  | draw o => cases h
  | call c => cases h
  | select => simp only [reply?, Option.some.injEq] at h; subst h; rfl
  | write w => simp only [reply?, Option.some.injEq] at h; subst h; rfl
  | rollback => simp only [reply?, Option.some.injEq] at h; subst h; rfl
  | mark m => simp only [reply?, Option.some.injEq] at h; subst h; rfl

end Replies

end Sys

end HitlOps.Transaction
