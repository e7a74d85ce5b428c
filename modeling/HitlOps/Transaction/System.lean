import HitlOps.Transaction.Program

/-!
# Concurrent runs of transactional programs

`Sys` is a committed store, a lock table, and a table of processes, each with the rest of its
program and its session. One step runs one statement of one process; other labels start a process,
answer a call, let a process die, or let time pass. A process may die at any point, also between
sending a call and receiving its answer.

Semantics of the statements, for READ COMMITTED with row locks held to the end of the transaction:

* a `select` sees the committed store with the session's own pending writes;
* a row lock or a pending insert excludes every other locker or inserter of that key until the
  transaction ends, and a lock statement reads the row as committed when it is granted;
* a write draws the next number of one global counter and is visible to others at `commit` only.

`trace` and `Proc.history` are history variables, newest entry first. No statement reads them.
-/

set_option autoImplicit false

namespace HitlOps.Transaction

variable {D : Schema} {X R O : Type}

/-- The open transaction of a process: where and when it began, and its pending writes. -/
structure Session (D : Schema) where
  begun : Option (D.Store × Instant)
  pending : List (Nat × D.Write)

namespace Session

/-- No transaction is open. -/
def closed : Session D := ⟨none, []⟩

/-- The store as the session sees it. -/
def view (σ : Session D) (db : D.Store) : D.Store :=
  σ.pending.foldl (fun s e => D.apply s e.1 e.2) db

/-- The start of the transaction: `(db, now)` when the statement at hand opens it. -/
def start (σ : Session D) (db : D.Store) (now : Instant) : D.Store × Instant := σ.begun.getD (db, now)

end Session

/-- An entry of a process history: a statement with its response, or a call that was sent. -/
inductive Obs (D : Schema) : Type
  | did (st : Stmt D) (r : st.Resp)
  | sent (c : D.Call)

/-- A process: the operation it was started for, the rest of its program, and its session. -/
structure Proc (D : Schema) (X R O : Type) where
  op : O
  prog : Prog D X R
  session : Session D
  history : List (Obs D)
  waiting : Bool

/-- What an event of the trace records. -/
inductive Act (D : Schema) : Type
  | commit
  | call (c : D.Call)

/-- A commit or a call, with the process and the shared state just before it. -/
structure Event (D : Schema) (O : Type) where
  pid : Nat
  op : O
  history : List (Obs D)
  session : Session D
  db : D.Store
  locks : D.Key → Option Nat
  clock : Instant
  act : Act D

/-- The committed store after the event, when it is a commit. -/
def Event.after (e : Event D O) : D.Store := e.session.view e.db

/-- The whole system. -/
structure Sys (D : Schema) (X R O : Type) where
  db : D.Store
  locks : D.Key → Option Nat
  procs : Nat → Option (Proc D X R O)
  next : Nat
  clock : Instant
  counter : Nat
  trace : List (Event D O)

/-- A label of the step function. A `draw` or an `answer` carries the values of the environment. -/
inductive Label (D : Schema) (O : Type) : Type
  | spawn (op : O)
  | run (pid : Nat)
  | draw (pid : Nat) (v : ∀ o : D.Source, D.Draw o)
  | answer (pid : Nat) (a : ∀ c : D.Call, D.Answer c)
  | crash (pid : Nat)
  | tick (d : Instant)

/-- The shared state, the session and the response after one statement. -/
structure Reply (D : Schema) (st : Stmt D) where
  db : D.Store
  locks : D.Key → Option Nat
  counter : Nat
  session : Session D
  resp : st.Resp

/-- The lock table without the locks of `pid`. -/
def releaseLocks (locks : D.Key → Option Nat) (pid : Nat) : D.Key → Option Nat :=
  fun k => if locks k = some pid then none else locks k

namespace Sys

/-- Run one database statement for the process `pid`. `none` means that the statement waits. -/
def reply? (s : Sys D X R O) (pid : Nat) (σ : Session D) : (st : Stmt D) → Option (Reply D st)
  | .select =>
      let b := σ.start s.db s.clock
      some ⟨s.db, s.locks, s.counter, ⟨some b, σ.pending⟩, (σ.view s.db, b.2)⟩
  | .lock k nowait =>
      let b := σ.start s.db s.clock
      let σ' : Session D := ⟨some b, σ.pending⟩
      match s.locks k with
      | some q =>
          if q = pid then some ⟨s.db, s.locks, s.counter, σ', some (σ.view s.db, b.2)⟩
          else if nowait then some ⟨s.db, s.locks, s.counter, σ', none⟩
          else none
      | none =>
          let locks :=
            if D.present (σ.view s.db) k then Function.update s.locks k (some pid) else s.locks
          some ⟨s.db, locks, s.counter, σ', some (σ.view s.db, b.2)⟩
  | .insert k w =>
      let b := σ.start s.db s.clock
      match s.locks k with
      | some q =>
          if q = pid then
            if D.present (σ.view s.db) k then
              some ⟨s.db, s.locks, s.counter, ⟨some b, σ.pending⟩, false⟩
            else
              some ⟨s.db, s.locks, s.counter + 1, ⟨some b, σ.pending ++ [(s.counter, w)]⟩, true⟩
          else none
      | none =>
          if D.present (σ.view s.db) k then
            some ⟨s.db, s.locks, s.counter, ⟨some b, σ.pending⟩, false⟩
          else
            some ⟨s.db, Function.update s.locks k (some pid), s.counter + 1,
              ⟨some b, σ.pending ++ [(s.counter, w)]⟩, true⟩
  | .write w =>
      let b := σ.start s.db s.clock
      some ⟨s.db, s.locks, s.counter + 1, ⟨some b, σ.pending ++ [(s.counter, w)]⟩, ()⟩
  | .commit => some ⟨σ.view s.db, releaseLocks s.locks pid, s.counter, .closed, ()⟩
  | .rollback => some ⟨s.db, releaseLocks s.locks pid, s.counter, .closed, ()⟩
  | .mark _ => some ⟨s.db, s.locks, s.counter, σ, ()⟩
  | .draw _ => none
  | .call _ => none

/-- The event that the process `p` leaves in the trace. -/
def event (s : Sys D X R O) (pid : Nat) (p : Proc D X R O) (act : Act D) : Event D O :=
  ⟨pid, p.op, p.history, p.session, s.db, s.locks, s.clock, act⟩

/-- Replace the process `pid`. -/
def setProc (s : Sys D X R O) (pid : Nat) (p : Proc D X R O) : Sys D X R O :=
  { s with procs := Function.update s.procs pid (some p) }

/-- The trace after the statement `st` of the process `pid`: commits are recorded. -/
def traceOf (s : Sys D X R O) (pid : Nat) (p : Proc D X R O) : Stmt D → List (Event D O)
  | .commit => s.event pid p .commit :: s.trace
  | _ => s.trace

/-- The system after the reply `e` to the statement `st` of `pid`. -/
def accept (s : Sys D X R O) (pid : Nat) (p : Proc D X R O) (st : Stmt D)
    (k : st.Resp → Prog D X R) (e : Reply D st) : Sys D X R O :=
  { s with
    db := e.db
    locks := e.locks
    counter := e.counter
    trace := s.traceOf pid p st
    procs := Function.update s.procs pid
      (some ⟨p.op, k e.resp, e.session, .did st e.resp :: p.history, false⟩) }

/-- Run the next statement of `pid`. A call is sent and the process waits for its answer. -/
def runStmt (s : Sys D X R O) (pid : Nat) (p : Proc D X R O) :
    (st : Stmt D) → (st.Resp → Prog D X R) → Option (Sys D X R O)
  | .call c, k =>
      some { s with
        trace := s.event pid p (.call c) :: s.trace
        procs := Function.update s.procs pid
          (some ⟨p.op, .stmt (.call c) k, p.session, .sent c :: p.history, true⟩) }
  | st, k => (s.reply? pid p.session st).map (s.accept pid p st k)

/-- Give a draw or an answer to the process `pid`. -/
def resume (s : Sys D X R O) (pid : Nat) (p : Proc D X R O) (st : Stmt D)
    (k : st.Resp → Prog D X R) (r : st.Resp) : Sys D X R O :=
  s.setProc pid ⟨p.op, k r, p.session, .did st r :: p.history, false⟩

/-- One step of the system; `code` gives each operation its program. -/
def step (code : O → Prog D X R) (s : Sys D X R O) : Label D O → Option (Sys D X R O)
  | .spawn op =>
      some { s with
        procs := Function.update s.procs s.next (some ⟨op, code op, .closed, [], false⟩)
        next := s.next + 1 }
  | .run pid =>
      match s.procs pid with
      | none => none
      | some p =>
          if p.waiting then none
          else match p.prog with
            | .stmt st k => s.runStmt pid p st k
            | _ => none
  | .draw pid v =>
      match s.procs pid with
      | none => none
      | some p =>
          if p.waiting then none
          else match p.prog with
            | .stmt (.draw o) k => some (s.resume pid p (.draw o) k (v o))
            | _ => none
  | .answer pid a =>
      match s.procs pid with
      | none => none
      | some p =>
          if p.waiting then
            match p.prog with
            | .stmt (.call c) k => some (s.resume pid p (.call c) k (a c))
            | _ => none
          else none
  | .crash pid =>
      match s.procs pid with
      | none => none
      | some _ =>
          some { s with
            procs := Function.update s.procs pid none
            locks := releaseLocks s.locks pid }
  | .tick d => some { s with clock := s.clock + d }

/-- A run over a list of labels. -/
def run (code : O → Prog D X R) : Sys D X R O → List (Label D O) → Option (Sys D X R O)
  | s, [] => some s
  | s, l :: ls => (s.step code l).bind fun s' => run code s' ls

/-- No process, no lock, an empty trace. -/
def initial (db : D.Store) : Sys D X R O := ⟨db, fun _ => none, fun _ => none, 0, 0, 0, []⟩

/-- One step whose started operation, if any, is allowed. -/
def Step (code : O → Prog D X R) (allowed : O → Prop) (s s' : Sys D X R O) : Prop :=
  ∃ l, s.step code l = some s' ∧ ∀ op, l = .spawn op → allowed op

/-- The states of the runs from `db` that start allowed operations only. -/
inductive Reachable (code : O → Prog D X R) (allowed : O → Prop) (db : D.Store) :
    Sys D X R O → Prop
  | initial : Reachable code allowed db (initial db)
  | step {s s' : Sys D X R O} :
      Reachable code allowed db s → Step code allowed s s' → Reachable code allowed db s'

end Sys

/-- The process has returned or raised. -/
def Proc.outcome? (p : Proc D X R O) : Option (Except X R) :=
  match p.prog with
  | .ret a => some (.ok a)
  | .raise x => some (.error x)
  | .stmt _ _ => none

end HitlOps.Transaction
