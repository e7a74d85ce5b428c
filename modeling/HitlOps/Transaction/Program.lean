import Mathlib.Logic.Function.Basic

/-!
# Programs over a transactional store

A process talks to a shared relational store one statement at a time. `Schema` names the store, its
writes, its lock keys, the calls that leave the store, and the local sources of nondeterminism
(clocks, random identifiers). `Stmt` is one statement, and `Prog D X α` is a program: a finite-path
tree of statements that ends with a value of type `α` or an exception of type `X`.

The store is abstract here. Its rows are reached through queries on the value that a `select` or a
`lock` returns, so a program chooses its queries freely while the statement order stays visible.
-/

set_option autoImplicit false

namespace HitlOps.Transaction

/-- Time stamps, in microseconds. -/
abbrev Instant := Nat

/-- The interface between programs and a store.

`apply s n w` is the store after the write `w` that drew the sequence number `n`. `present s k`
says that the row guarded by the lock key `k` exists. -/
structure Schema where
  Store : Type
  Write : Type
  Key : Type
  Call : Type
  Answer : Call → Type
  Source : Type
  Draw : Source → Type
  Mark : Type
  decKey : DecidableEq Key
  apply : Store → Nat → Write → Store
  present : Store → Key → Bool

attribute [instance] Schema.decKey

/-- One statement of a process. -/
inductive Stmt (D : Schema) : Type
  /-- A plain `SELECT`: the view of the session and the start of its transaction. -/
  | select
  /-- `SELECT … FOR UPDATE`; with `nowait`, a lock held elsewhere is refused at once. -/
  | lock (k : D.Key) (nowait : Bool)
  /-- `INSERT` of the row guarded by the unique key `k`; it waits for a concurrent inserter. -/
  | insert (k : D.Key) (w : D.Write)
  /-- Any other flushed `INSERT` or `UPDATE`. -/
  | write (w : D.Write)
  | commit
  | rollback
  /-- A local reading: the process clock, a fresh identifier, the order of an unordered scan. -/
  | draw (o : D.Source)
  /-- A call that leaves the store, such as a provider request. -/
  | call (c : D.Call)
  /-- A trace point; it has no effect and only enters the history of the process. -/
  | mark (m : D.Mark)

variable {D : Schema} {X α β γ : Type}

/-- The type of the response to a statement. -/
@[reducible] def Stmt.Resp : Stmt D → Type
  | .select => D.Store × Instant
  | .lock _ _ => Option (D.Store × Instant)
  | .insert _ _ => Bool
  | .write _ => Unit
  | .commit => Unit
  | .rollback => Unit
  | .draw o => D.Draw o
  | .call c => D.Answer c
  | .mark _ => Unit

/-- A program: a value, an exception, or a statement and the rest for each of its responses. -/
inductive Prog (D : Schema) (X α : Type) : Type
  | ret (a : α)
  | raise (x : X)
  | stmt (st : Stmt D) (k : st.Resp → Prog D X α)

namespace Prog

/-- Sequencing. -/
def bind : Prog D X α → (α → Prog D X β) → Prog D X β
  | ret a, f => f a
  | raise x, _ => raise x
  | stmt st k, f => stmt st fun r => (k r).bind f

/-- Exception handling. The statements of the body keep their effects. -/
def handle : Prog D X α → (X → Prog D X α) → Prog D X α
  | ret a, _ => ret a
  | raise x, h => h x
  | stmt st k, h => stmt st fun r => (k r).handle h

instance : Monad (Prog D X) where
  pure := ret
  bind := bind

/-! ## Single statements -/

def select : Prog D X (D.Store × Instant) := stmt .select ret

def lock (k : D.Key) (nowait : Bool) : Prog D X (Option (D.Store × Instant)) :=
  stmt (.lock k nowait) ret

def insert (k : D.Key) (w : D.Write) : Prog D X Bool := stmt (.insert k w) ret

def write (w : D.Write) : Prog D X Unit := stmt (.write w) ret

def commit : Prog D X Unit := stmt .commit ret

def rollback : Prog D X Unit := stmt .rollback ret

def draw (o : D.Source) : Prog D X (D.Draw o) := stmt (.draw o) ret

def call (c : D.Call) : Prog D X (D.Answer c) := stmt (.call c) ret

def mark (m : D.Mark) : Prog D X Unit := stmt (.mark m) ret

/-- A query: a `select` read through `q`. -/
def query (q : D.Store → α) : Prog D X α := do
  let (s, _) ← select
  return q s

/-- Raise `x` when `c` holds. -/
def raiseIf (c : Prop) [Decidable c] (x : X) : Prog D X Unit :=
  if c then raise x else ret ()

/-- The value of an option, or the exception `x`. -/
def orRaise (x : X) : Option α → Prog D X α
  | some a => ret a
  | none => raise x

/-- `async with session.begin()`: commit at the end of the body, roll back on an exception. -/
def transaction (body : Prog D X α) : Prog D X α :=
  handle (do let a ← body; commit; return a) fun x => do rollback; raise x

/-- `async with session_factory()`: the session closes without a commit of its own. -/
def session (body : Prog D X α) : Prog D X α :=
  handle (do let a ← body; rollback; return a) fun x => do rollback; raise x

/-! ## Statements of a program -/

/-- Every statement of the program satisfies `S` and every exception it raises satisfies `E`. -/
def Uses (S : Stmt D → Prop) (E : X → Prop) : Prog D X α → Prop
  | ret _ => True
  | raise x => E x
  | stmt st k => S st ∧ ∀ r, (k r).Uses S E

section Uses

variable {S S' : Stmt D → Prop} {E E' : X → Prop}

theorem Uses.mono {p : Prog D X α} (h : p.Uses S E) (hS : ∀ st, S st → S' st)
    (hE : ∀ x, E x → E' x) : p.Uses S' E' := by
  induction p with
  | ret a => exact h
  | raise x => exact hE x h
  | stmt st k ih => exact ⟨hS st h.1, fun r => ih r (h.2 r)⟩

theorem Uses.bind {p : Prog D X α} {f : α → Prog D X β} (hp : p.Uses S E)
    (hf : ∀ a, (f a).Uses S E) : (p >>= f).Uses S E := by
  induction p with
  | ret a => exact hf a
  | raise x => exact hp
  | stmt st k ih => exact ⟨hp.1, fun r => ih r (hp.2 r)⟩

/-- The parts of a sequence whose first part is a sequence. -/
theorem Uses.bind_bind {p : Prog D X α} {g : α → Prog D X β} {f : β → Prog D X γ}
    (hp : p.Uses S E) (h : ∀ a, (g a >>= f).Uses S E) : ((p >>= g) >>= f).Uses S E := by
  induction p with
  | ret a => exact h a
  | raise x => exact hp
  | stmt st k ih => exact ⟨hp.1, fun r => ih r (hp.2 r)⟩

theorem Uses.handle {p : Prog D X α} {h : X → Prog D X α} (hp : p.Uses S E')
    (hh : ∀ x, E' x → (h x).Uses S E) : (p.handle h).Uses S E := by
  induction p with
  | ret a => exact hp
  | raise x => exact hh x hp
  | stmt st k ih => exact ⟨hp.1, fun r => ih r (hp.2 r)⟩

/-- Every value that the program returns satisfies `V`. -/
def Yields (V : α → Prop) : Prog D X α → Prop
  | ret a => V a
  | raise _ => True
  | stmt _ k => ∀ r, (k r).Yields V

/-- A sequence whose second part only sees the values that the first one returns. -/
theorem Uses.bind_yields {V : α → Prop} {p : Prog D X α} {f : α → Prog D X β} (hp : p.Uses S E)
    (hv : p.Yields V) (hf : ∀ a, V a → (f a).Uses S E) : (p >>= f).Uses S E := by
  induction p with
  | ret a => exact hf a hv
  | raise x => exact hp
  | stmt st k ih => exact ⟨hp.1, fun r => ih r (hp.2 r) (hv r)⟩

theorem Yields.bind {V : α → Prop} {V' : β → Prop} {p : Prog D X α} {f : α → Prog D X β}
    (hp : p.Yields V) (hf : ∀ a, V a → (f a).Yields V') : (p >>= f).Yields V' := by
  induction p with
  | ret a => exact hf a hp
  | raise x => trivial
  | stmt st k ih => exact fun r => ih r (hp r)

theorem yields_true (p : Prog D X α) : p.Yields fun _ => True := by
  induction p with
  | ret a => trivial
  | raise x => trivial
  | stmt st k ih => exact fun r => ih r

theorem yields_ite {V : α → Prop} {c : Prop} [Decidable c] {p q : Prog D X α} (hp : c → p.Yields V)
    (hq : ¬ c → q.Yields V) : (if c then p else q).Yields V := by
  split
  · next h => exact hp h
  · next h => exact hq h

theorem yields_raiseIf (c : Prop) [Decidable c] (x : X) :
    (raiseIf c x : Prog D X Unit).Yields fun _ => ¬ c :=
  yields_ite (fun _ => trivial) fun h => h

theorem Yields.handle {V : α → Prop} {p : Prog D X α} {g : X → Prog D X α} (hp : p.Yields V)
    (hg : ∀ x, (g x).Yields V) : (p.handle g).Yields V := by
  induction p with
  | ret a => exact hp
  | raise x => exact hg x
  | stmt st k ih => exact fun r => ih r (hp r)

/-- A transaction returns what its body returns. -/
theorem Yields.transaction {V : α → Prop} {p : Prog D X α} (hp : p.Yields V) :
    (transaction p).Yields V := by
  refine Yields.handle (Yields.bind hp fun a ha => ?_) fun x => ?_
  · exact fun _ => ha
  · exact fun _ => trivial

theorem uses_ret (a : α) : (ret a : Prog D X α).Uses S E := trivial

theorem uses_raise {x : X} (hx : E x) : (raise x : Prog D X α).Uses S E := hx

theorem uses_ite {c : Prop} [Decidable c] {p q : Prog D X α} (hp : c → p.Uses S E)
    (hq : ¬ c → q.Uses S E) : (if c then p else q).Uses S E := by
  split
  · next h => exact hp h
  · next h => exact hq h

theorem uses_raiseIf {c : Prop} [Decidable c] {x : X} (hx : E x) :
    (raiseIf c x : Prog D X Unit).Uses S E :=
  uses_ite (fun _ => hx) fun _ => trivial

theorem uses_orRaise {x : X} {o : Option α} (hx : E x) : (orRaise x o : Prog D X α).Uses S E := by
  cases o with
  | none => exact hx
  | some a => trivial

theorem uses_select (hs : S .select) : (select : Prog D X _).Uses S E := ⟨hs, fun _ => trivial⟩

theorem uses_query {q : D.Store → α} (hs : S .select) : (query q : Prog D X α).Uses S E :=
  ⟨hs, fun _ => trivial⟩

theorem uses_lock {k : D.Key} {nowait : Bool} (hs : S (.lock k nowait)) :
    (lock k nowait : Prog D X _).Uses S E := ⟨hs, fun _ => trivial⟩

theorem uses_insert {k : D.Key} {w : D.Write} (hs : S (.insert k w)) :
    (insert k w : Prog D X _).Uses S E := ⟨hs, fun _ => trivial⟩

theorem uses_write {w : D.Write} (hs : S (.write w)) : (write w : Prog D X _).Uses S E :=
  ⟨hs, fun _ => trivial⟩

theorem uses_draw {o : D.Source} (hs : S (.draw o)) : (draw o : Prog D X _).Uses S E :=
  ⟨hs, fun _ => trivial⟩

theorem uses_call {c : D.Call} (hs : S (.call c)) : (call c : Prog D X _).Uses S E :=
  ⟨hs, fun _ => trivial⟩

theorem uses_mark {m : D.Mark} (hs : S (.mark m)) : (mark m : Prog D X _).Uses S E :=
  ⟨hs, fun _ => trivial⟩

end Uses

end Prog

end HitlOps.Transaction
