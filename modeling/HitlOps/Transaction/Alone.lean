import HitlOps.Transaction.Steps

/-!
# Programs that run alone

`Prog.alone` runs a program to its end while no other process moves. A `Desk` is what the process
works on: the committed store, its session, and the values that its clock, its draws and its calls
will give. `reachable_alone` says that such a run is a run of the system.
-/

set_option autoImplicit false

namespace HitlOps.Transaction

variable {D : Schema} {X R O α β : Type}

/-- What a process meets at one statement: the time that passes before it, a value for each local
reading, and an answer for each call. -/
structure Moment (D : Schema) where
  elapsed : Instant
  draw : ∀ o, D.Draw o
  answer : ∀ c, D.Answer c

/-- The state of a process that runs alone, with the moments to come. -/
structure Desk (D : Schema) where
  db : D.Store
  session : Session D
  counter : Nat
  clock : Instant
  moments : Nat → Moment D

namespace Desk

/-- A desk before a program starts. -/
def opened (db : D.Store) (counter : Nat) (clock : Instant) (moments : Nat → Moment D) : Desk D :=
  ⟨db, .closed, counter, clock, moments⟩

/-- The store as the process sees it. -/
def view (d : Desk D) : D.Store := d.session.view d.db

/-- The transaction of the next statement: where and when it began. -/
def start (d : Desk D) : D.Store × Instant := d.session.start d.db d.clock

/-- The first moment is over. -/
def wait (d : Desk D) : Desk D :=
  { d with
    clock := d.clock + (d.moments 0).elapsed
    moments := fun n => d.moments (n + 1) }

/-- The session stays open. -/
def opening (d : Desk D) : Desk D := { d with session := ⟨some d.start, d.session.pending⟩ }

/-- One more pending write. -/
def writing (d : Desk D) (w : D.Write) : Desk D :=
  { d with
    counter := d.counter + 1
    session := ⟨some d.start, d.session.pending ++ [(d.counter, w)]⟩ }

/-- The session ends with the committed store `db`. -/
def closing (d : Desk D) (db : D.Store) : Desk D := { d with db, session := .closed }

/-- The response to a statement at a moment, and the desk behind it. -/
def reply (d : Desk D) (m : Moment D) : (st : Stmt D) → st.Resp × Desk D
  | .select => ((d.view, d.start.2), d.opening)
  | .lock _ _ => (some (d.view, d.start.2), d.opening)
  | .insert k w => if D.present d.view k then (false, d.opening) else (true, d.writing w)
  | .write w => ((), d.writing w)
  | .commit => ((), d.closing d.view)
  | .rollback => ((), d.closing d.db)
  | .draw o => (m.draw o, d)
  | .call c => (m.answer c, d)
  | .mark _ => ((), d)

theorem clock_reply (d : Desk D) (m : Moment D) (st : Stmt D) : (d.reply m st).2.clock = d.clock := by
  cases st with
  | insert k w =>
      simp only [reply]
      split <;> rfl
  | _ => rfl

/-- One statement. -/
def exec (d : Desk D) (st : Stmt D) : st.Resp × Desk D := d.wait.reply (d.moments 0) st

end Desk

namespace Prog

/-- The outcome of a program that runs alone, and the desk that it leaves. -/
def alone : Prog D X α → Desk D → Except X α × Desk D
  | ret a, d => (.ok a, d)
  | raise x, d => (.error x, d)
  | stmt st k, d => (k (d.exec st).1).alone (d.exec st).2

@[simp] theorem alone_ret (a : α) (d : Desk D) : (ret a : Prog D X α).alone d = (.ok a, d) := rfl

@[simp] theorem alone_pure (a : α) (d : Desk D) : (pure a : Prog D X α).alone d = (.ok a, d) := rfl

@[simp] theorem alone_raise (x : X) (d : Desk D) : (raise x : Prog D X α).alone d = (.error x, d) :=
  rfl

/-- A sequence runs its second part on the desk that the first one leaves. -/
theorem alone_bind (p : Prog D X α) (f : α → Prog D X β) (d : Desk D) :
    (p >>= f).alone d = match p.alone d with
      | (.ok a, d') => (f a).alone d'
      | (.error x, d') => (.error x, d') := by
  induction p generalizing d with
  | ret a => rfl
  | raise x => rfl
  | stmt st k ih => exact ih _ _

theorem alone_handle (p : Prog D X α) (g : X → Prog D X α) (d : Desk D) :
    (p.handle g).alone d = match p.alone d with
      | (.ok a, d') => (.ok a, d')
      | (.error x, d') => (g x).alone d' := by
  induction p generalizing d with
  | ret a => rfl
  | raise x => rfl
  | stmt st k ih => exact ih _ _

/-- A sequence returns exactly when its two parts do. -/
theorem alone_bind_ok {p : Prog D X α} {f : α → Prog D X β} {d d' : Desk D} {b : β} :
    (p >>= f).alone d = (.ok b, d') ↔
      ∃ a d₁, p.alone d = (.ok a, d₁) ∧ (f a).alone d₁ = (.ok b, d') := by
  rw [alone_bind]
  constructor
  · intro h
    split at h
    · next a d₁ hp => exact ⟨a, d₁, hp, h⟩
    · cases h
  · rintro ⟨a, d₁, hp, hf⟩
    rw [hp]
    exact hf

theorem alone_raiseIf_ok {c : Prop} [Decidable c] {x : X} {d d' : Desk D} {u : Unit} :
    (raiseIf c x : Prog D X Unit).alone d = (.ok u, d') ↔ ¬ c ∧ d' = d := by
  unfold raiseIf
  split
  · next h => exact ⟨fun hx => (by cases hx), fun hn => absurd h hn.1⟩
  · next h =>
      constructor
      · intro hx
        cases hx
        exact ⟨h, rfl⟩
      · rintro ⟨-, rfl⟩
        rfl

@[simp] theorem alone_query (q : D.Store → α) (d : Desk D) :
    (query q : Prog D X α).alone d = (.ok (q d.wait.view), d.wait.opening) := rfl

@[simp] theorem alone_select (d : Desk D) :
    (select : Prog D X _).alone d = (.ok (d.wait.view, d.wait.start.2), d.wait.opening) := rfl

@[simp] theorem alone_lock (k : D.Key) (nowait : Bool) (d : Desk D) :
    (lock k nowait : Prog D X _).alone d =
      (.ok (some (d.wait.view, d.wait.start.2)), d.wait.opening) := rfl

@[simp] theorem alone_write (w : D.Write) (d : Desk D) :
    (write w : Prog D X _).alone d = (.ok (), d.wait.writing w) := rfl

@[simp] theorem alone_draw (o : D.Source) (d : Desk D) :
    (draw o : Prog D X _).alone d = (.ok ((d.moments 0).draw o), d.wait) := rfl

end Prog

/-! ## Views -/

namespace Desk

variable {d : Desk D}

@[simp] theorem view_wait : d.wait.view = d.view := rfl

@[simp] theorem view_opening : d.opening.view = d.view := rfl

@[simp] theorem start_opening : d.opening.start = d.start := rfl

@[simp] theorem start_writing (w : D.Write) : (d.writing w).start = d.start := rfl

/-- An open transaction began when it began. -/
@[simp] theorem start_wait_opening : d.opening.wait.start = d.start := rfl

@[simp] theorem start_wait_writing (w : D.Write) : (d.writing w).wait.start = d.start := rfl

theorem view_writing (w : D.Write) : (d.writing w).view = D.apply d.view d.counter w := by
  show (d.session.pending ++ [(d.counter, w)]).foldl _ d.db = _
  rw [List.foldl_append]
  rfl

end Desk

/-! ## Runs of the system -/

namespace Sys

/-- The process `pid` of `s` is at the desk `d`, and no other process holds a lock. -/
structure AtDesk (s : Sys D X R O) (pid : Nat) (d : Desk D) : Prop where
  db : s.db = d.db
  counter : s.counter = d.counter
  clock : s.clock = d.clock
  locks : ∀ k q, s.locks k = some q → q = pid

variable {code : O → Prog D X R} {allowed : O → Prop} {db : D.Store} {s : Sys D X R O} {pid : Nat}
  {d : Desk D}

/-- The reply to a database statement of a process that is alone. -/
theorem AtDesk.reply (h : s.AtDesk pid d) (m : Moment D) (st : Stmt D) (hdraw : ∀ o, st ≠ .draw o)
    (hcall : ∀ c, st ≠ .call c) :
    ∃ e, s.reply? pid d.session st = some e ∧ e.resp = (d.reply m st).1 ∧
      e.db = (d.reply m st).2.db ∧ e.counter = (d.reply m st).2.counter ∧
      e.session = (d.reply m st).2.session ∧ ∀ k q, e.locks k = some q → q = pid := by
  obtain ⟨hdb, hcounter, hclock, hlocks⟩ := h
  -- All locks are its own, whichever statement it runs.
  have hrelease : ∀ k q, releaseLocks s.locks pid k = some q → q = pid := fun k q hk =>
    hlocks k q (releaseLocks_eq_some.1 hk).1
  have hupdate : ∀ k k' q, Function.update s.locks k (some pid) k' = some q → q = pid := by
    intro k k' q hk
    by_cases hkk : k' = k
    · subst hkk
      rw [Function.update_self, Option.some.injEq] at hk
      exact hk.symm
    · rw [Function.update_of_ne hkk] at hk
      exact hlocks k' q hk
  have hview : d.session.view s.db = d.view := by rw [hdb]; rfl
  have hstart : d.session.start s.db s.clock = d.start := by rw [hdb, hclock]; rfl
  cases st with
  | draw o => exact absurd rfl (hdraw o)
  | call c => exact absurd rfl (hcall c)
  | select =>
      refine ⟨_, rfl, ?_, hdb, hcounter, ?_, hlocks⟩
      · show (d.session.view s.db, (d.session.start s.db s.clock).2) = _
        rw [hview, hstart]
        rfl
      · show (⟨some (d.session.start s.db s.clock), d.session.pending⟩ : Session D) = _
        rw [hstart]
        rfl
  | lock k nowait =>
      simp only [reply?, hview, hstart]
      cases hk : s.locks k with
      | none =>
          refine ⟨_, rfl, rfl, hdb, hcounter, rfl, ?_⟩
          show ∀ k' q, (if D.present d.view k = true then _ else s.locks) k' = some q → q = pid
          split
          · exact hupdate k
          · exact hlocks
      | some q =>
          simp only [if_pos (hlocks k q hk)]
          exact ⟨_, rfl, rfl, hdb, hcounter, rfl, hlocks⟩
  | insert k w =>
      simp only [reply?, hview, hstart, Desk.reply]
      cases hk : s.locks k with
      | none =>
          by_cases hp : D.present d.view k = true
          · simp only [if_pos hp]
            exact ⟨_, rfl, rfl, hdb, hcounter, rfl, hlocks⟩
          · simp only [if_neg hp]
            refine ⟨_, rfl, rfl, hdb, ?_, ?_, hupdate k⟩
            · show s.counter + 1 = d.counter + 1
              rw [hcounter]
            · show (⟨_, _ ++ [(s.counter, w)]⟩ : Session D) = _
              rw [hcounter]
              rfl
      | some q =>
          simp only [if_pos (hlocks k q hk)]
          by_cases hp : D.present d.view k = true
          · simp only [if_pos hp]
            exact ⟨_, rfl, rfl, hdb, hcounter, rfl, hlocks⟩
          · simp only [if_neg hp]
            refine ⟨_, rfl, rfl, hdb, ?_, ?_, hlocks⟩
            · show s.counter + 1 = d.counter + 1
              rw [hcounter]
            · show (⟨_, _ ++ [(s.counter, w)]⟩ : Session D) = _
              rw [hcounter]
              rfl
  | write w =>
      refine ⟨_, rfl, rfl, hdb, ?_, ?_, hlocks⟩
      · show s.counter + 1 = d.counter + 1
        rw [hcounter]
      · show (⟨some (d.session.start s.db s.clock), _ ++ [(s.counter, w)]⟩ : Session D) = _
        rw [hstart, hcounter]
        rfl
  | commit => exact ⟨_, rfl, rfl, hview, hcounter, rfl, hrelease⟩
  | rollback => exact ⟨_, rfl, rfl, hdb, hcounter, rfl, hrelease⟩
  | mark m => exact ⟨_, rfl, rfl, hdb, hcounter, rfl, hlocks⟩

/-- Time passes. -/
theorem exists_waited (hs : Reachable code allowed db s) (hd : s.AtDesk pid d) :
    ∃ t, Reachable code allowed db t ∧ t.AtDesk pid d.wait ∧ t.procs = s.procs := by
  refine ⟨_, .step hs ⟨.tick (d.moments 0).elapsed, rfl, fun op h => by cases h⟩, ?_, rfl⟩
  refine ⟨hd.db, hd.counter, ?_, hd.locks⟩
  show s.clock + _ = d.clock + _
  rw [hd.clock]

/-- One database statement of a process that is alone. -/
theorem exists_ran {op : O} {st : Stmt D} {k : st.Resp → Prog D X R} {h : List (Obs D)}
    (hs : Reachable code allowed db s) (hd : s.AtDesk pid d)
    (hp : s.procs pid = some ⟨op, .stmt st k, d.session, h, false⟩) (m : Moment D)
    (hdraw : ∀ o, st ≠ .draw o) (hcall : ∀ c, st ≠ .call c) :
    ∃ t h', Reachable code allowed db t ∧ t.AtDesk pid (d.reply m st).2 ∧ t.procs pid =
      some ⟨op, k (d.reply m st).1, (d.reply m st).2.session, h', false⟩ := by
  obtain ⟨e, he, hresp, hdb, hcounter, hsession, hlocks⟩ := hd.reply m st hdraw hcall
  have hrun : ∀ p : Proc D X R O, s.runStmt pid p st k =
      (s.reply? pid p.session st).map (s.accept pid p st k) := by
    intro p
    cases st with
    | call c => exact absurd rfl (hcall c)
    | _ => rfl
  have hstep : s.step code (.run pid) =
      some (s.accept pid ⟨op, .stmt st k, d.session, h, false⟩ st k e) := by
    simp only [step, hp, Bool.false_eq_true, if_false, hrun, he, Option.map_some]
  refine ⟨_, .did st e.resp :: h, .step hs ⟨_, hstep, fun op h => by cases h⟩, ?_, ?_⟩
  · refine ⟨hdb, hcounter, ?_, hlocks⟩
    rw [Desk.clock_reply]
    exact hd.clock
  · rw [← hresp, ← hsession]
    exact Function.update_self _ _ _

/-- One statement of a process that is alone. -/
theorem exists_replied {op : O} {st : Stmt D} {k : st.Resp → Prog D X R} {h : List (Obs D)}
    (hs : Reachable code allowed db s) (hd : s.AtDesk pid d)
    (hp : s.procs pid = some ⟨op, .stmt st k, d.session, h, false⟩) (m : Moment D) :
    ∃ t h', Reachable code allowed db t ∧ t.AtDesk pid (d.reply m st).2 ∧ t.procs pid =
      some ⟨op, k (d.reply m st).1, (d.reply m st).2.session, h', false⟩ := by
  cases st with
  | draw o =>
      have hstep : s.step code (.draw pid m.draw) =
          some (s.resume pid ⟨op, .stmt (.draw o) k, d.session, h, false⟩ (.draw o) k (m.draw o)) := by
        simp only [step, hp, Bool.false_eq_true, if_false]
      refine ⟨_, _, .step hs ⟨_, hstep, fun op h => by cases h⟩, ?_, Function.update_self _ _ _⟩
      exact ⟨hd.db, hd.counter, hd.clock, hd.locks⟩
  | call c =>
      -- The call is sent, and its answer arrives.
      have hstep : s.step code (.run pid) =
          some (s.send pid ⟨op, .stmt (.call c) k, d.session, h, false⟩ c k) := by
        simp only [step, hp, Bool.false_eq_true, if_false, runStmt]
        rfl
      have hsent := Reachable.step hs ⟨_, hstep, fun op h => by cases h⟩
      have hstep' : (s.send pid ⟨op, .stmt (.call c) k, d.session, h, false⟩ c k).step code
            (.answer pid m.answer) =
          some ((s.send pid ⟨op, .stmt (.call c) k, d.session, h, false⟩ c k).resume pid
            ⟨op, .stmt (.call c) k, d.session, .sent c :: h, true⟩ (.call c) k (m.answer c)) := by
        simp only [step, send, Function.update_self, if_true]
      refine ⟨_, _, .step hsent ⟨_, hstep', fun op h => by cases h⟩, ?_, Function.update_self _ _ _⟩
      exact ⟨hd.db, hd.counter, hd.clock, hd.locks⟩
  | _ => exact exists_ran hs hd hp m (fun o h => by cases h) fun c h => by cases h

/-- A run alone is a run of the system: the process comes to its end with the same outcome, and leaves
the same store behind. -/
theorem reachable_alone {op : O} (p : Prog D X R) {h : List (Obs D)}
    (hs : Reachable code allowed db s) (hd : s.AtDesk pid d)
    (hp : s.procs pid = some ⟨op, p, d.session, h, false⟩) :
    ∃ s' p', Reachable code allowed db s' ∧ s'.AtDesk pid (p.alone d).2 ∧
      s'.procs pid = some p' ∧ p'.op = op ∧ p'.session = (p.alone d).2.session ∧
      p'.outcome? = some (p.alone d).1 := by
  induction p generalizing s d h with
  | ret a => exact ⟨s, _, hs, hd, hp, rfl, rfl, rfl⟩
  | raise x => exact ⟨s, _, hs, hd, hp, rfl, rfl, rfl⟩
  | stmt st k ih =>
      obtain ⟨t, ht, htd, hprocs⟩ := exists_waited hs hd
      have hpt : t.procs pid = some ⟨op, .stmt st k, d.wait.session, h, false⟩ := hprocs ▸ hp
      obtain ⟨t', h', ht', htd', hp'⟩ := exists_replied ht htd hpt (d.moments 0)
      exact ih _ ht' htd' hp'

end Sys

end HitlOps.Transaction
