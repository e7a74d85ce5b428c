import HitlOps.Transaction.Alone

/-!
# Two runs

A relation on stores says what two of them have in common. A program that is `Blind` to everything
else takes the same course on related stores, and leaves related stores behind: `alone_blind`.
-/

set_option autoImplicit false

namespace HitlOps.Transaction

variable {D : Schema} {X α β : Type}

/-- The write keeps related stores related. -/
def Respects (R : D.Store → D.Store → Prop) (w : D.Write) : Prop :=
  ∀ s s' n, R s s' → R (D.apply s n w) (D.apply s' n w)

namespace Prog

/-- The program takes the same course on related stores, its writes keep them related, and `Q` holds
of what it returns; it may rely on `admits` for the values that it draws. -/
def Blind (R : D.Store → D.Store → Prop) (admits : ∀ o, D.Draw o → Prop) (Q : α → Prop) :
    Prog D X α → Prop
  | ret a => Q a
  | raise _ => True
  | stmt .select k =>
      ∀ s s' t, R s s' → k (s, t) = k (s', t) ∧ (k (s, t)).Blind R admits Q
  | stmt (.lock _ _) k =>
      ∀ s s' t, R s s' → k (some (s, t)) = k (some (s', t)) ∧ (k (some (s, t))).Blind R admits Q
  | stmt (.insert key w) k =>
      (∀ s s', R s s' → D.present s key = D.present s' key) ∧ Respects R w ∧
        ∀ b, (k b).Blind R admits Q
  | stmt (.write w) k => Respects R w ∧ (k ()).Blind R admits Q
  | stmt .commit k => (k ()).Blind R admits Q
  | stmt .rollback k => (k ()).Blind R admits Q
  | stmt (.draw o) k => ∀ v, admits o v → (k v).Blind R admits Q
  | stmt (.call _) k => ∀ a, (k a).Blind R admits Q
  | stmt (.mark _) k => (k ()).Blind R admits Q

section Rules

variable {R : D.Store → D.Store → Prop} {admits : ∀ o, D.Draw o → Prop} {Q : α → Prop}
  {Q' : β → Prop}

theorem Blind.mono {p : Prog D X α} (h : p.Blind R admits Q) {Q₁ : α → Prop}
    (hQ : ∀ a, Q a → Q₁ a) : p.Blind R admits Q₁ := by
  induction p with
  | ret a => exact hQ a h
  | raise x => trivial
  | stmt st k ih =>
      cases st with
      | select => exact fun s s' t hr => ⟨(h s s' t hr).1, ih _ (h s s' t hr).2⟩
      | lock key nowait => exact fun s s' t hr => ⟨(h s s' t hr).1, ih _ (h s s' t hr).2⟩
      | insert key w => exact ⟨h.1, h.2.1, fun b => ih b (h.2.2 b)⟩
      | write w => exact ⟨h.1, ih () h.2⟩
      | draw o => exact fun v hv => ih v (h v hv)
      | call c => exact fun a => ih a (h a)
      | _ => exact ih () h

theorem Blind.bind {p : Prog D X α} {f : α → Prog D X β} (hp : p.Blind R admits Q)
    (hf : ∀ a, Q a → (f a).Blind R admits Q') : (p >>= f).Blind R admits Q' := by
  induction p with
  | ret a => exact hf a hp
  | raise x => trivial
  | stmt st k ih =>
      have hcongr : ∀ {q q' : Prog D X α}, q = q' → q.bind f = q'.bind f := fun h => h ▸ rfl
      cases st with
      | select =>
          exact fun s s' t hr => ⟨hcongr (hp s s' t hr).1, ih _ (hp s s' t hr).2⟩
      | lock key nowait =>
          exact fun s s' t hr => ⟨hcongr (hp s s' t hr).1, ih _ (hp s s' t hr).2⟩
      | insert key w => exact ⟨hp.1, hp.2.1, fun b => ih b (hp.2.2 b)⟩
      | write w => exact ⟨hp.1, ih () hp.2⟩
      | draw o => exact fun v hv => ih v (hp v hv)
      | call c => exact fun a => ih a (hp a)
      | _ => exact ih () hp

theorem Blind.handle {p : Prog D X α} {g : X → Prog D X α} (hp : p.Blind R admits Q)
    (hg : ∀ x, (g x).Blind R admits Q) : (p.handle g).Blind R admits Q := by
  induction p with
  | ret a => exact hp
  | raise x => exact hg x
  | stmt st k ih =>
      have hcongr : ∀ {q q' : Prog D X α}, q = q' → q.handle g = q'.handle g := fun h => h ▸ rfl
      cases st with
      | select =>
          exact fun s s' t hr => ⟨hcongr (hp s s' t hr).1, ih _ (hp s s' t hr).2⟩
      | lock key nowait =>
          exact fun s s' t hr => ⟨hcongr (hp s s' t hr).1, ih _ (hp s s' t hr).2⟩
      | insert key w => exact ⟨hp.1, hp.2.1, fun b => ih b (hp.2.2 b)⟩
      | write w => exact ⟨hp.1, ih () hp.2⟩
      | draw o => exact fun v hv => ih v (hp v hv)
      | call c => exact fun a => ih a (hp a)
      | _ => exact ih () hp

theorem blind_pure {a : α} (h : Q a) : (pure a : Prog D X α).Blind R admits Q := h

theorem blind_ite {c : Prop} [Decidable c] {p q : Prog D X α} (hp : c → p.Blind R admits Q)
    (hq : ¬ c → q.Blind R admits Q) : (if c then p else q).Blind R admits Q := by
  split
  · next h => exact hp h
  · next h => exact hq h

theorem blind_raiseIf {c : Prop} [Decidable c] {x : X} {Q : Unit → Prop} (h : ¬ c → Q ()) :
    (raiseIf c x : Prog D X Unit).Blind R admits Q :=
  blind_ite (fun _ => trivial) h

/-- A query of what related stores have in common. -/
theorem blind_query {q : D.Store → α} (h : ∀ s s', R s s' → q s = q s' ∧ Q (q s)) :
    (query q : Prog D X α).Blind R admits Q :=
  fun s s' _ hr => ⟨congrArg ret (h s s' hr).1, (h s s' hr).2⟩

theorem blind_write {w : D.Write} (h : Respects R w) {Q : Unit → Prop} (hQ : Q ()) :
    (write w : Prog D X Unit).Blind R admits Q := ⟨h, hQ⟩

theorem blind_draw {o : D.Source} {Q : D.Draw o → Prop} (h : ∀ v, admits o v → Q v) :
    (draw o : Prog D X _).Blind R admits Q := h

theorem Blind.transaction {p : Prog D X α} (hp : p.Blind R admits Q) :
    p.transaction.Blind R admits Q := by
  have hbody : (do let a ← p; commit; return a : Prog D X α).Blind R admits Q :=
    hp.bind fun _ ha => ha
  exact hbody.handle fun _ => trivial

end Rules

end Prog

/-! ## Runs on related stores -/

/-- The two processes are at the same point, over related stores. -/
structure Desk.Alike (R : D.Store → D.Store → Prop) (d d' : Desk D) : Prop where
  db : R d.db d'.db
  view : R d.view d'.view
  began : d.session.begun.map Prod.snd = d'.session.begun.map Prod.snd
  counter : d.counter = d'.counter
  clock : d.clock = d'.clock
  moments : d.moments = d'.moments

namespace Desk.Alike

variable {R : D.Store → D.Store → Prop} {d d' : Desk D}

theorem opened {db db' : D.Store} (h : R db db') (counter : Nat) (clock : Instant)
    (moments : Nat → Moment D) :
    Alike R (Desk.opened db counter clock moments) (Desk.opened db' counter clock moments) :=
  ⟨h, h, rfl, rfl, rfl, rfl⟩

theorem wait (h : Alike R d d') : Alike R d.wait d'.wait :=
  ⟨h.db, h.view, h.began, h.counter, by simp only [Desk.wait, h.clock, h.moments],
    by simp only [Desk.wait, h.moments]⟩

/-- Transactions that are open began at the same time. -/
theorem start (h : Alike R d d') : d.start.2 = d'.start.2 := by
  have hbegan := h.began
  unfold Desk.start Session.start
  cases hb : d.session.begun with
  | none =>
      cases hb' : d'.session.begun with
      | none => exact h.clock
      | some b => rw [hb, hb'] at hbegan; cases hbegan
  | some b =>
      cases hb' : d'.session.begun with
      | none => rw [hb, hb'] at hbegan; cases hbegan
      | some b' =>
          rw [hb, hb', Option.map_some, Option.map_some, Option.some.injEq] at hbegan
          exact hbegan

theorem opening (h : Alike R d d') : Alike R d.opening d'.opening :=
  ⟨h.db, h.view, congrArg some h.start, h.counter, h.clock, h.moments⟩

theorem writing (h : Alike R d d') {w : D.Write} (hw : Respects R w) :
    Alike R (d.writing w) (d'.writing w) := by
  refine ⟨h.db, ?_, congrArg some h.start, congrArg (· + 1) h.counter, h.clock, h.moments⟩
  rw [Desk.view_writing, Desk.view_writing, h.counter]
  exact hw _ _ _ h.view

theorem closing (h : Alike R d d') {db db' : D.Store} (hdb : R db db') :
    Alike R (d.closing db) (d'.closing db') :=
  ⟨hdb, hdb, rfl, h.counter, h.clock, h.moments⟩

end Desk.Alike

/-- One statement of a blind program: the rest is the same, and the desks stay alike. -/
theorem Prog.Blind.exec {R : D.Store → D.Store → Prop} {admits : ∀ o, D.Draw o → Prop} {Q : α → Prop}
    {st : Stmt D} {k : st.Resp → Prog D X α} (hp : (stmt st k).Blind R admits Q) {d d' : Desk D}
    (h : Desk.Alike R d d') (hdraw : ∀ o, admits o ((d.moments 0).draw o)) :
    k (d.exec st).1 = k (d'.exec st).1 ∧ (k (d.exec st).1).Blind R admits Q ∧
      Desk.Alike R (d.exec st).2 (d'.exec st).2 := by
  have hw := h.wait
  have hmoment : d.moments 0 = d'.moments 0 := congrFun h.moments 0
  unfold Desk.exec
  cases st with
  | select =>
      obtain ⟨heq, hk⟩ := hp _ _ d.wait.start.2 hw.view
      refine ⟨?_, hk, hw.opening⟩
      show k (d.wait.view, d.wait.start.2) = k (d'.wait.view, d'.wait.start.2)
      rw [heq, hw.start]
  | lock key nowait =>
      obtain ⟨heq, hk⟩ := hp _ _ d.wait.start.2 hw.view
      refine ⟨?_, hk, hw.opening⟩
      show k (some (d.wait.view, d.wait.start.2)) = k (some (d'.wait.view, d'.wait.start.2))
      rw [heq, hw.start]
  | insert key w =>
      obtain ⟨hpresent, hkeeps, hk⟩ := hp
      simp only [Desk.reply, hpresent _ _ hw.view]
      split
      · exact ⟨rfl, hk _, hw.opening⟩
      · exact ⟨rfl, hk _, hw.writing hkeeps⟩
  | write w => exact ⟨rfl, hp.2, hw.writing hp.1⟩
  | commit => exact ⟨rfl, hp, hw.closing hw.view⟩
  | rollback => exact ⟨rfl, hp, hw.closing hw.db⟩
  | draw o =>
      refine ⟨?_, hp _ (hdraw o), hw⟩
      show k ((d.moments 0).draw o) = k ((d'.moments 0).draw o)
      rw [hmoment]
  | call c =>
      refine ⟨?_, hp _, hw⟩
      show k ((d.moments 0).answer c) = k ((d'.moments 0).answer c)
      rw [hmoment]
  | mark m => exact ⟨rfl, hp, hw⟩

/-- The moments to come behind a statement. -/
theorem Desk.moments_exec (d : Desk D) (st : Stmt D) (n : Nat) :
    (d.exec st).2.moments n = d.moments (n + 1) := by
  cases st with
  | insert key w =>
      simp only [Desk.exec, Desk.reply]
      split <;> rfl
  | _ => rfl

/-- A process whose moments are all alike keeps them. -/
theorem Prog.moments_alone {m : Moment D} (p : Prog D X α) {d : Desk D} (h : ∀ n, d.moments n = m) :
    ∀ n, (p.alone d).2.moments n = m := by
  induction p generalizing d with
  | ret a => exact h
  | raise x => exact h
  | stmt st k ih =>
      refine ih _ fun n => ?_
      rw [Desk.moments_exec]
      exact h (n + 1)

/-- A blind program has the same outcome on related stores, and leaves related stores behind. -/
theorem Prog.alone_blind {R : D.Store → D.Store → Prop} {admits : ∀ o, D.Draw o → Prop}
    {Q : α → Prop} {p : Prog D X α} (hp : p.Blind R admits Q) {d d' : Desk D}
    (h : Desk.Alike R d d') (hdraws : ∀ n o, admits o ((d.moments n).draw o)) :
    (p.alone d).1 = (p.alone d').1 ∧ Desk.Alike R (p.alone d).2 (p.alone d').2 := by
  induction p generalizing d d' with
  | ret a => exact ⟨rfl, h⟩
  | raise x => exact ⟨rfl, h⟩
  | stmt st k ih =>
      obtain ⟨heq, hk, halike⟩ := hp.exec h (hdraws 0)
      have hrest := ih _ hk halike fun n o => by
        rw [Desk.moments_exec]
        exact hdraws (n + 1) o
      unfold alone
      rw [← heq]
      exact hrest

end HitlOps.Transaction
