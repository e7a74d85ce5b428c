import HitlOps.Transaction.Replay
import HitlOps.Transaction.TwoRuns

/-!
# What a run alone meets

A run alone takes finitely many moments, so the later ones may be exchanged: `exists_splice`. Its clock
never goes back, a transaction leaves a closed session behind, and a property of the store that every
write keeps holds behind the run. A program that only looks around runs as it would over a store that
stands still: `readOn_alone`.
-/

set_option autoImplicit false

namespace HitlOps.Transaction

variable {D : Schema} {X α β : Type}

/-! ## Moments to come -/

namespace Desk

variable {d d' d'' : Desk D}

/-- The desk with other moments to come. -/
def meeting (d : Desk D) (moments : Nat → Moment D) : Desk D := { d with moments }

/-- A desk behind another one: moments have passed. -/
structure Later (d d' : Desk D) : Prop where
  moments : ∃ n, ∀ k, d'.moments k = d.moments (n + k)
  clock : d.clock ≤ d'.clock

theorem Later.refl (d : Desk D) : Later d d := ⟨⟨0, fun k => by rw [Nat.zero_add]⟩, Nat.le_refl _⟩

theorem Later.trans (h : Later d d') (h' : Later d' d'') : Later d d'' := by
  obtain ⟨n, hn⟩ := h.moments
  obtain ⟨m, hm⟩ := h'.moments
  refine ⟨⟨n + m, fun k => ?_⟩, Nat.le_trans h.clock h'.clock⟩
  rw [hm, hn, Nat.add_assoc]

/-- What holds of all moments to come holds of the later ones. -/
theorem Later.forall {P : Moment D → Prop} (h : Later d d') (hP : ∀ n, P (d.moments n)) :
    ∀ n, P (d'.moments n) := by
  obtain ⟨n, hn⟩ := h.moments
  intro k
  rw [hn]
  exact hP (n + k)

theorem later_exec (d : Desk D) (st : Stmt D) : Later d (d.exec st).2 := by
  refine ⟨⟨1, fun k => ?_⟩, ?_⟩
  · rw [moments_exec, Nat.add_comm]
  · show d.clock ≤ (d.wait.reply (d.moments 0) st).2.clock
    rw [clock_reply]
    exact Nat.le_add_right _ _

theorem later_wait (d : Desk D) : Later d d.wait :=
  ⟨⟨1, fun k => congrArg d.moments (Nat.add_comm k 1)⟩, Nat.le_add_right _ _⟩

/-- A statement only meets the first moment. -/
theorem exec_meeting {m : Nat → Moment D} (h : m 0 = d.moments 0) (st : Stmt D) :
    (d.meeting m).exec st = ((d.exec st).1, (d.exec st).2.meeting fun n => m (n + 1)) := by
  have hwait : (d.meeting m).wait = d.wait.meeting fun n => m (n + 1) := by
    show Desk.mk d.db d.session d.counter (d.clock + (m 0).elapsed) _ = _
    rw [h]
    rfl
  unfold exec
  rw [hwait, show (d.meeting m).moments 0 = d.moments 0 from h]
  cases st with
  | insert k w =>
      unfold reply
      by_cases hk : D.present d.wait.view k = true
      · have hk' : D.present (d.wait.meeting fun n => m (n + 1)).view k = true := hk
        simp only [if_pos hk, if_pos hk']
        rfl
      · have hk' : ¬ D.present (d.wait.meeting fun n => m (n + 1)).view k = true := hk
        simp only [if_neg hk, if_neg hk']
        rfl
  | _ => rfl

/-- An open transaction stays as it is. -/
theorem opening_of_begun (h : d.session.begun.isSome = true) : d.opening = d := by
  obtain ⟨b, hb⟩ := Option.isSome_iff_exists.1 h
  have hsession : (⟨some d.start, d.session.pending⟩ : Session D) = d.session := by
    rw [start, Session.start, hb, Option.getD_some, ← hb]
  unfold opening
  rw [hsession]

/-- Without an open transaction the session sees the committed store. -/
theorem view_of_closed (h : d.session = .closed) : d.view = d.db := by
  unfold view
  rw [h]
  rfl

theorem view_congr (hdb : d'.db = d.db) (hsession : d'.session = d.session) : d'.view = d.view := by
  unfold view
  rw [hdb, hsession]

theorem start_wait_of_begun (h : d.session.begun.isSome = true) : d.wait.start = d.start := by
  obtain ⟨b, hb⟩ := Option.isSome_iff_exists.1 h
  show d.session.begun.getD _ = d.session.begun.getD _
  rw [hb]
  rfl

end Desk

namespace Prog

/-- A run alone moves forward. -/
theorem later_alone (p : Prog D X α) (d : Desk D) : Desk.Later d (p.alone d).2 := by
  induction p generalizing d with
  | ret a => exact .refl d
  | raise x => exact .refl d
  | stmt st k ih => exact (Desk.later_exec d st).trans (ih _ _)

theorem later_of_alone {p : Prog D X α} {d d' : Desk D} {r : Except X α} (h : p.alone d = (r, d')) :
    Desk.Later d d' := by
  have hlater := later_alone p d
  rwa [h] at hlater

/-- A clock that stands still at every moment stands still over the run. -/
theorem clock_alone (p : Prog D X α) {d : Desk D} (h : ∀ n, (d.moments n).elapsed = 0) :
    (p.alone d).2.clock = d.clock := by
  induction p generalizing d with
  | ret a => rfl
  | raise x => rfl
  | stmt st k ih =>
      refine (ih _ fun n => ?_).trans ?_
      · rw [Desk.moments_exec]
        exact h (n + 1)
      · show (d.wait.reply (d.moments 0) st).2.clock = d.clock
        rw [Desk.clock_reply]
        show d.clock + (d.moments 0).elapsed = d.clock
        rw [h 0, Nat.add_zero]

/-- A run alone takes `n` moments. -/
theorem exists_span (p : Prog D X α) (d : Desk D) : ∃ n, ∀ m, (∀ k < n, m k = d.moments k) →
    p.alone (d.meeting m) = ((p.alone d).1, (p.alone d).2.meeting fun k => m (n + k)) := by
  induction p generalizing d with
  | ret a => exact ⟨0, fun m _ => by simp only [Nat.zero_add]; rfl⟩
  | raise x => exact ⟨0, fun m _ => by simp only [Nat.zero_add]; rfl⟩
  | stmt st k ih =>
      -- The statement takes the first moment, the rest of the program the `n` behind it.
      obtain ⟨n, hn⟩ := ih (d.exec st).1 (d.exec st).2
      refine ⟨n + 1, fun m hm => ?_⟩
      have hrest := hn (fun j => m (j + 1)) fun j hj => by
        rw [Desk.moments_exec]
        exact hm (j + 1) (by omega)
      unfold alone
      rw [Desk.exec_meeting (hm 0 (by omega))]
      refine hrest.trans ?_
      simp only [Nat.add_right_comm n]

/-- Behind a run alone, other moments may follow. -/
theorem exists_splice (p : Prog D X α) (d : Desk D) (next : Nat → Moment D) :
    ∃ m, p.alone (d.meeting m) = ((p.alone d).1, (p.alone d).2.meeting next) ∧
      ∀ n, (∃ k, m n = d.moments k) ∨ ∃ k, m n = next k := by
  obtain ⟨n, hn⟩ := exists_span p d
  refine ⟨fun k => if k < n then d.moments k else next (k - n), ?_, fun k => ?_⟩
  · rw [hn _ fun k hk => if_pos hk]
    refine congrArg (Prod.mk _) (congrArg _ (funext fun k => ?_))
    rw [if_neg (by omega), Nat.add_sub_cancel_left]
  · by_cases hk : k < n
    · exact Or.inl ⟨k, if_pos hk⟩
    · exact Or.inr ⟨k - n, if_neg hk⟩

/-! ## Transactions -/

section Transactions

variable {p : Prog D X α} {d d' : Desk D}

/-- A transaction that returns commits what it sees. -/
theorem alone_transaction_ok {a : α} (h : p.alone d = (.ok a, d')) :
    (transaction p).alone d = (.ok a, d'.wait.closing d'.view) := by
  unfold transaction
  rw [alone_handle, alone_bind, h]
  rfl

/-- A transaction that raises leaves the committed store. -/
theorem alone_transaction_error {x : X} (h : p.alone d = (.error x, d')) :
    (transaction p).alone d = (.error x, d'.wait.closing d'.db) := by
  unfold transaction
  rw [alone_handle, alone_bind, h]
  rfl

theorem alone_session_ok {a : α} (h : p.alone d = (.ok a, d')) :
    (session p).alone d = (.ok a, d'.wait.closing d'.db) := by
  unfold session
  rw [alone_handle, alone_bind, h]
  rfl

theorem alone_session_error {x : X} (h : p.alone d = (.error x, d')) :
    (session p).alone d = (.error x, d'.wait.closing d'.db) := by
  unfold session
  rw [alone_handle, alone_bind, h]
  rfl

theorem closed_transaction (p : Prog D X α) (d : Desk D) :
    ((transaction p).alone d).2.session = .closed := by
  cases h : p.alone d with
  | mk r d' =>
      cases r with
      | ok a => rw [alone_transaction_ok h]; rfl
      | error x => rw [alone_transaction_error h]; rfl

theorem closed_session (p : Prog D X α) (d : Desk D) :
    ((session p).alone d).2.session = .closed := by
  cases h : p.alone d with
  | mk r d' =>
      cases r with
      | ok a => rw [alone_session_ok h]; rfl
      | error x => rw [alone_session_error h]; rfl

end Transactions

/-! ## What a run alone ends with -/

section Results

variable {S : Stmt D → Prop} {E : X → Prop} {p : Prog D X α} {d d' : Desk D}

/-- A program raises what it may raise. -/
theorem Uses.alone_error (hp : p.Uses S E) {x : X} (h : p.alone d = (.error x, d')) : E x := by
  induction p generalizing d with
  | ret a => cases h
  | raise y =>
      cases h
      exact hp
  | stmt st k ih => exact ih _ (hp.2 _) h

/-- A program returns what it may return. -/
theorem Yields.alone_ok {V : α → Prop} (hp : p.Yields V) {a : α} (h : p.alone d = (.ok a, d')) :
    V a := by
  induction p generalizing d with
  | ret b =>
      cases h
      exact hp
  | raise x => cases h
  | stmt st k ih => exact ih _ (hp _) h

end Results

/-! ## What the writes keep -/

section Keeps

variable {I : D.Store → Prop} {E : X → Prop}

/-- The write of the statement, if any, keeps the property `I` of the store. -/
def Keeps (I : D.Store → Prop) : Stmt D → Prop
  | .insert _ w => ∀ s n, I s → I (D.apply s n w)
  | .write w => ∀ s n, I s → I (D.apply s n w)
  | _ => True

theorem keeps_exec {st : Stmt D} (hst : Keeps I st) {d : Desk D} (hdb : I d.db) (hview : I d.view) :
    I (d.exec st).2.db ∧ I (d.exec st).2.view := by
  cases st with
  | insert k w =>
      unfold Desk.exec Desk.reply
      -- A row that is there already is not inserted.
      by_cases hk : D.present d.wait.view k = true
      · simp only [if_pos hk]
        exact ⟨hdb, hview⟩
      · simp only [if_neg hk]
        refine ⟨hdb, ?_⟩
        rw [Desk.view_writing]
        exact hst _ _ hview
  | write w =>
      refine ⟨hdb, ?_⟩
      show I (d.wait.writing w).view
      rw [Desk.view_writing]
      exact hst _ _ hview
  | commit => exact ⟨hview, hview⟩
  | rollback => exact ⟨hdb, hdb⟩
  | _ => exact ⟨hdb, hview⟩

/-- A program whose statements keep the property keeps it. -/
theorem keeps_alone {p : Prog D X α} (hp : p.Uses (Keeps I) E) {d : Desk D} (hdb : I d.db)
    (hview : I d.view) : I (p.alone d).2.db ∧ I (p.alone d).2.view := by
  induction p generalizing d with
  | ret a => exact ⟨hdb, hview⟩
  | raise x => exact ⟨hdb, hview⟩
  | stmt st k ih =>
      obtain ⟨hdb', hview'⟩ := keeps_exec hp.1 hdb hview
      exact ih _ (hp.2 _) hdb' hview'

end Keeps

/-! ## Programs that look around -/

/-- A sequence raises what its first part raises, or what the second one does. -/
theorem readOn_bind_error {db : D.Store} {now : Instant} {v : ∀ o : D.Source, D.Draw o}
    {p : Prog D X α} {f : α → Prog D X β} {x : X} :
    (p >>= f).readOn db now v = some (.error x) ↔ p.readOn db now v = some (.error x) ∨
      ∃ a, p.readOn db now v = some (.ok a) ∧ (f a).readOn db now v = some (.error x) := by
  induction p with
  | ret a => exact ⟨fun h => Or.inr ⟨a, rfl, h⟩, fun h => by
      rcases h with h | ⟨b, hb, h⟩
      · cases h
      · cases hb
        exact h⟩
  | raise y => exact ⟨fun h => Or.inl (by cases h; rfl), fun h => by
      rcases h with h | ⟨b, hb, -⟩
      · cases h
        rfl
      · cases hb⟩
  | stmt st k ih =>
      cases st with
      | select => exact ih _
      | draw o => exact ih _
      | _ => exact ⟨fun h => (by cases h), fun h => (by rcases h with h | ⟨b, hb, -⟩ <;> contradiction)⟩

/-- Over a store that stands still, too, a program raises what it may raise. -/
theorem Uses.readOn_error {S : Stmt D → Prop} {E : X → Prop} {db : D.Store} {now : Instant}
    {v : ∀ o : D.Source, D.Draw o} {p : Prog D X α} (hp : p.Uses S E) {x : X}
    (h : p.readOn db now v = some (.error x)) : E x := by
  induction p with
  | ret a => cases h
  | raise y =>
      cases h
      exact hp
  | stmt st k ih =>
      cases st with
      | select => exact ih _ (hp.2 _) h
      | draw o => exact ih _ (hp.2 _) h
      | _ => cases h

/-- A statement that neither locks nor writes nor leaves the store, and that draws from `F` only. -/
def Looks (F : D.Source → Prop) : Stmt D → Prop
  | .select => True
  | .draw o => F o
  | _ => False

section Looks

variable {F : D.Source → Prop} {E : X → Prop} {p : Prog D X α} {d : Desk D}

/-- In an open transaction, a program that looks around leaves store and session as they are. -/
theorem still_alone (hp : p.Uses (Looks F) E) (hopen : d.session.begun.isSome = true) :
    (p.alone d).2.db = d.db ∧ (p.alone d).2.session = d.session := by
  induction p generalizing d with
  | ret a => exact ⟨rfl, rfl⟩
  | raise x => exact ⟨rfl, rfl⟩
  | stmt st k ih =>
      cases st with
      | select =>
          have hwait : d.wait.opening = d.wait := Desk.opening_of_begun hopen
          have hrest := ih _ (hp.2 (d.wait.view, d.wait.start.2)) (d := d.wait.opening) (by
            rw [hwait]
            exact hopen)
          refine ⟨hrest.1, hrest.2.trans ?_⟩
          rw [hwait]
          rfl
      | draw o => exact ih _ (hp.2 _) (d := d.wait) hopen
      | _ => exact hp.1.elim

/-- It runs as over a store that stands still, when the values that it draws are foreseen. -/
theorem readOn_alone {v : ∀ o : D.Source, D.Draw o} (hp : p.Uses (Looks F) E)
    (hopen : d.session.begun.isSome = true) (hv : ∀ o, F o → ∀ n, (d.moments n).draw o = v o) :
    p.readOn d.view d.start.2 v = some (p.alone d).1 := by
  induction p generalizing d with
  | ret a => rfl
  | raise x => rfl
  | stmt st k ih =>
      -- The transaction is open: its start, which a query reads, does not move with the clock.
      have hstart : d.wait.start = d.start := Desk.start_wait_of_begun hopen
      have hrest : ∀ r, (k r).Uses (Looks F) E →
          (k r).readOn d.view d.start.2 v = some ((k r).alone d.wait).1 := fun r hr => by
        rw [← hstart]
        exact ih r hr (d := d.wait) hopen fun o ho n => hv o ho (n + 1)
      cases st with
      | select =>
          have hwait : d.wait.opening = d.wait := Desk.opening_of_begun hopen
          show (k (d.view, d.start.2)).readOn d.view d.start.2 v =
            some ((k (d.wait.view, d.wait.start.2)).alone d.wait.opening).1
          rw [hwait, hstart]
          exact hrest _ (hp.2 _)
      | draw o =>
          show (k (v o)).readOn d.view d.start.2 v = some ((k ((d.moments 0).draw o)).alone d.wait).1
          rw [← hv o hp.1 0]
          exact hrest _ (hp.2 _)
      | _ => exact hp.1.elim

/-- The run alone is a run over a store that stands still, whose draws are those of one moment. -/
def AsIfStill (p : Prog D X α) (d : Desk D) : Prop :=
  ∃ n, p.readOn d.view d.start.2 (d.moments n).draw = some (p.alone d).1

theorem asIfStill_of_looks (hp : p.Uses (Looks fun _ => False) E)
    (hopen : d.session.begun.isSome = true) : AsIfStill p d :=
  ⟨0, readOn_alone hp hopen fun _ ho => ho.elim⟩

/-- What is seen behind a program that looks around. -/
theorem seen_alone {r : Except X α} {d' : Desk D} (hp : p.Uses (Looks F) E)
    (hopen : d.session.begun.isSome = true) (h : p.alone d = (r, d')) :
    d'.view = d.view ∧ d'.start.2 = d.start.2 ∧ d'.session.begun.isSome = true := by
  obtain ⟨hdb, hsession⟩ := still_alone hp hopen
  rw [h] at hdb hsession
  obtain ⟨b, hb⟩ := Option.isSome_iff_exists.1 hopen
  refine ⟨Desk.view_congr hdb hsession, ?_, ?_⟩
  · unfold Desk.start Session.start
    rw [hsession, hb]
    rfl
  · rw [hsession]
    exact hopen

/-- A program that draws nothing may stand in front. -/
theorem AsIfStill.bind {f : α → Prog D X β} (hp : p.Uses (Looks fun _ => False) E)
    (hopen : d.session.begun.isSome = true)
    (hf : ∀ a d', p.alone d = (.ok a, d') → d'.session.begun.isSome = true → AsIfStill (f a) d') :
    AsIfStill (p >>= f) d := by
  have hread : ∀ v, p.readOn d.view d.start.2 v = some (p.alone d).1 := fun v =>
    readOn_alone hp hopen fun _ ho => ho.elim
  rcases hrun : p.alone d with ⟨r, d'⟩
  have hlater := later_of_alone hrun
  obtain ⟨hview, hstart, hopen'⟩ := seen_alone hp hopen hrun
  rw [hrun] at hread
  cases r with
  | error x =>
      refine ⟨0, ?_⟩
      rw [alone_bind, hrun]
      exact readOn_bind_error.2 (Or.inl (hread _))
  | ok a =>
      obtain ⟨n, hn⟩ := hf a d' hrun hopen'
      obtain ⟨m, hm⟩ := hlater.moments
      refine ⟨m + n, ?_⟩
      rw [readOn_bind f (hread _), alone_bind, hrun, ← hm, ← hview, ← hstart]
      exact hn

/-- A program that draws nothing may stand behind. -/
theorem AsIfStill.andThen {f : α → Prog D X β} (h : AsIfStill p d)
    (hp : p.Uses (Looks F) E) (hopen : d.session.begun.isSome = true)
    (hf : ∀ a, (f a).Uses (Looks fun _ => False) fun _ => True) : AsIfStill (p >>= f) d := by
  obtain ⟨n, hn⟩ := h
  rcases hrun : p.alone d with ⟨r, d'⟩
  obtain ⟨hview, hstart, hopen'⟩ := seen_alone hp hopen hrun
  rw [hrun] at hn
  refine ⟨n, ?_⟩
  rw [alone_bind, hrun]
  cases r with
  | error x => exact readOn_bind_error.2 (Or.inl hn)
  | ok a =>
      rw [readOn_bind f hn, ← hview, ← hstart]
      exact readOn_alone (hf a) hopen' fun _ ho => ho.elim

/-- One draw may be taken. -/
theorem asIfStill_draw {o : D.Source} {f : D.Draw o → Prog D X α}
    (hf : ∀ r, (f r).Uses (Looks fun _ => False) E) (hopen : d.session.begun.isSome = true) :
    AsIfStill (draw o >>= f) d := by
  refine ⟨0, ?_⟩
  have hrest := readOn_alone (d := d.wait) (v := (d.moments 0).draw) (hf ((d.moments 0).draw o))
    hopen fun _ ho => ho.elim
  rw [Desk.start_wait_of_begun hopen] at hrest
  exact hrest

end Looks

end Prog

end HitlOps.Transaction
