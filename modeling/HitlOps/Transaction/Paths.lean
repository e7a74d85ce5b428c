import HitlOps.Transaction.History

/-!
# Assertions along the paths of a program

A `Watch` says which statements a program may execute after which history (`must`) and which
responses the store may give (`may`). `Watch.wp` is the weakest precondition of a program for it:
the obligations hold on every path, whatever the permitted responses, and the postcondition holds of
the history at the end. Nothing is assumed of the other processes but what `may` says.

`Followed` is the invariant of a system whose programs meet their preconditions: every statement
that a process has executed, and every commit and call of the trace, met its obligation.
-/

set_option autoImplicit false

namespace HitlOps.Transaction

variable {D : Schema} {X R O α β : Type}

/-- The history after a statement that got the response `r`. -/
def extend (h : List (Obs D)) : (st : Stmt D) → st.Resp → List (Obs D)
  | .call c, a => .did (.call c) a :: .sent c :: h
  | st, r => .did st r :: h

/-- The responses that are considered, and the obligation of each statement. -/
structure Watch (D : Schema) where
  may : List (Obs D) → (st : Stmt D) → st.Resp → Prop
  must : List (Obs D) → Stmt D → Prop

namespace Watch

variable (W : Watch D)

/-- The weakest precondition of a program. -/
def wp : Prog D X α → (Except X α → List (Obs D) → Prop) → List (Obs D) → Prop
  | .ret a, Q, h => Q (.ok a) h
  | .raise x, Q, h => Q (.error x) h
  | .stmt st k, Q, h => W.must h st ∧ ∀ r, W.may h st r → wp (k r) Q (extend h st r)

/-- Each statement of the history met its obligation. -/
def Kept : List (Obs D) → Prop
  | [] => True
  | .sent c :: h => W.must h (.call c) ∧ Kept h
  | .did (.call _) _ :: h => Kept h
  | .did st _ :: h => W.must h st ∧ Kept h

/-! ## Rules -/

variable {W} {Q Q' : Except X α → List (Obs D) → Prop} {h : List (Obs D)}

theorem wp_mono {p : Prog D X α} (hQ : ∀ r h', Q r h' → Q' r h') (hp : W.wp p Q h) :
    W.wp p Q' h := by
  induction p generalizing h with
  | ret a => exact hQ _ _ hp
  | raise x => exact hQ _ _ hp
  | stmt st k ih => exact ⟨hp.1, fun r hr => ih r (hp.2 r hr)⟩

/-- The postcondition of the first part of a sequence. -/
def andThen (W : Watch D) (f : α → Prog D X β) (Q : Except X β → List (Obs D) → Prop) :
    Except X α → List (Obs D) → Prop
  | .ok a, h => W.wp (f a) Q h
  | .error x, h => Q (.error x) h

/-- The postcondition of a body under a handler. -/
def orElse (W : Watch D) (g : X → Prog D X α) (Q : Except X α → List (Obs D) → Prop) :
    Except X α → List (Obs D) → Prop
  | .ok a, h => Q (.ok a) h
  | .error x, h => W.wp (g x) Q h

theorem wp_bind {p : Prog D X β} {f : β → Prog D X α} (hp : W.wp p (W.andThen f Q) h) :
    W.wp (p >>= f) Q h := by
  induction p generalizing h with
  | ret a => exact hp
  | raise x => exact hp
  | stmt st k ih => exact ⟨hp.1, fun r hr => ih r (hp.2 r hr)⟩

theorem wp_handle {p : Prog D X α} {g : X → Prog D X α} (hp : W.wp p (W.orElse g Q) h) :
    W.wp (p.handle g) Q h := by
  induction p generalizing h with
  | ret a => exact hp
  | raise x => exact hp
  | stmt st k ih => exact ⟨hp.1, fun r hr => ih r (hp.2 r hr)⟩

theorem wp_ite {c : Prop} [Decidable c] {p q : Prog D X α} (hp : c → W.wp p Q h)
    (hq : ¬ c → W.wp q Q h) : W.wp (if c then p else q) Q h := by
  split
  · next hc => exact hp hc
  · next hc => exact hq hc

theorem wp_raiseIf {c : Prop} [Decidable c] {x : X} {Q : Except X Unit → List (Obs D) → Prop}
    (hx : c → Q (.error x) h) (hok : ¬ c → Q (.ok ()) h) : W.wp (.raiseIf c x) Q h :=
  wp_ite hx hok

theorem wp_orRaise {x : X} {o : Option α} (hx : o = none → Q (.error x) h)
    (hok : ∀ a, o = some a → Q (.ok a) h) : W.wp (.orRaise x o) Q h := by
  cases o with
  | none => exact hx rfl
  | some a => exact hok a rfl

/-- The body of a transaction. -/
theorem wp_transaction {p : Prog D X α}
    (hp : W.wp p (fun r h' =>
      match r with
      | .ok a => W.must h' .commit ∧ Q (.ok a) (.did .commit () :: h')
      | .error x => W.must h' .rollback ∧ Q (.error x) (.did .rollback () :: h')) h) :
    W.wp (Prog.transaction p) Q h := by
  refine wp_handle (wp_bind (wp_mono (fun r h' hr => ?_) hp))
  cases r with
  | ok a => exact ⟨hr.1, fun _ _ => hr.2⟩
  | error x => exact ⟨hr.1, fun _ _ => hr.2⟩

/-- The body of a session. -/
theorem wp_session {p : Prog D X α}
    (hp : W.wp p (fun r h' => W.must h' .rollback ∧ Q r (.did .rollback () :: h')) h) :
    W.wp (Prog.session p) Q h := by
  refine wp_handle (wp_bind (wp_mono (fun r h' hr => ?_) hp))
  cases r with
  | ok a => exact ⟨hr.1, fun _ _ => hr.2⟩
  | error x => exact ⟨hr.1, fun _ _ => hr.2⟩

theorem suffix_extend (h : List (Obs D)) (st : Stmt D) (r : st.Resp) : h <:+ extend h st r := by
  cases st with
  | call c => exact (List.suffix_cons _ _).trans (List.suffix_cons _ _)
  | _ => exact List.suffix_cons _ _

/-- The history at the end continues the one at the start. -/
theorem wp_suffix {p : Prog D X α} (hp : W.wp p Q h) : W.wp p (fun r h' => h <:+ h' ∧ Q r h') h := by
  induction p generalizing h with
  | ret a => exact ⟨List.suffix_refl h, hp⟩
  | raise x => exact ⟨List.suffix_refl h, hp⟩
  | stmt st k ih =>
      refine ⟨hp.1, fun r hr => wp_mono (fun r' h' hQ => ?_) (ih r (hp.2 r hr))⟩
      exact ⟨(suffix_extend h st r).trans hQ.1, hQ.2⟩

/-- A program whose statements all keep the property `P` of the history. -/
theorem wp_uses {S : Stmt D → Prop} {H : X → Prop} (P : List (Obs D) → Prop)
    (hS : ∀ st, S st → ∀ h, P h → W.must h st ∧ ∀ r, W.may h st r → P (extend h st r))
    {p : Prog D X α} (hp : p.Uses S H) (hh : P h)
    (hQ : ∀ r h', P h' → (∀ x, r = .error x → H x) → Q r h') : W.wp p Q h := by
  induction p generalizing h with
  | ret a => exact hQ _ _ hh fun x hx => by cases hx
  | raise x =>
      refine hQ _ _ hh fun y hy => ?_
      cases hy
      exact hp
  | stmt st k ih =>
      obtain ⟨hmust, hnext⟩ := hS st hp.1 h hh
      exact ⟨hmust, fun r hr => ih r (hp.2 r) (hnext r hr)⟩

/-- The value at the end is one that the program returns. -/
theorem wp_yields {V : α → Prop} {p : Prog D X α} (hv : p.Yields V) (hp : W.wp p Q h) :
    W.wp p (fun r h' => Q r h' ∧ ∀ a, r = .ok a → V a) h := by
  induction p generalizing h with
  | ret a => exact ⟨hp, fun b hb => by cases hb; exact hv⟩
  | raise x => exact ⟨hp, fun b hb => by cases hb⟩
  | stmt st k ih => exact ⟨hp.1, fun r hr => ih r (hv r) (hp.2 r hr)⟩

/-- What another watch says of the histories at the end, when it considers the same responses. -/
theorem wp_also {W' : Watch D} (hmay : ∀ h st r, W.may h st r → W'.may h st r) {p : Prog D X α}
    (hp' : W'.wp p Q' h) (hp : W.wp p Q h) : W.wp p (fun r h' => Q r h' ∧ Q' r h') h := by
  induction p generalizing h with
  | ret a => exact ⟨hp, hp'⟩
  | raise x => exact ⟨hp, hp'⟩
  | stmt st k ih => exact ⟨hp.1, fun r hr => ih r (hp'.2 r (hmay h st r hr)) (hp.2 r hr)⟩

end Watch

/-- The watch that shows a program stores with the property `G` only. -/
def Watch.over (G : D.Store → Prop) (must : List (Obs D) → Stmt D → Prop) : Watch D where
  may := fun _ st r => ∀ σ, (Obs.did st r).seen? = some σ → G σ
  must := must

/-! ## Runs -/

/-- The statement that an event records. -/
def Act.stmt : Act D → Stmt D
  | .commit => .commit
  | .call c => .call c

/-- The rest of the program of a process meets its precondition. -/
def Watch.Continues (W : Watch D) (Post : O → Except X R → List (Obs D) → Prop)
    (p : Proc D X R O) : Prop :=
  if p.waiting then
    ∃ c k h, p.prog = .stmt (.call c) k ∧ p.history = .sent c :: h ∧
      ∀ a, W.may h (.call c) a → W.wp (k a) (Post p.op) (.did (.call c) a :: p.history)
  else W.wp p.prog (Post p.op) p.history

/-- Every process and every event of the system has met the obligations of the watch of its own
operation. -/
structure FollowedEach (W : O → Watch D) (Post : O → Except X R → List (Obs D) → Prop)
    (s : Sys D X R O) : Prop where
  procs : ∀ pid p, s.procs pid = some p → (W p.op).Kept p.history ∧ (W p.op).Continues Post p
  trace : ∀ e ∈ s.trace, (W e.op).Kept e.history ∧ (W e.op).must e.history e.act.stmt

/-- Every process and every event of the system has met its obligations. -/
structure Watch.Followed (W : Watch D) (Post : O → Except X R → List (Obs D) → Prop)
    (s : Sys D X R O) : Prop where
  procs : ∀ pid p, s.procs pid = some p → W.Kept p.history ∧ W.Continues Post p
  trace : ∀ e ∈ s.trace, W.Kept e.history ∧ W.must e.history e.act.stmt

section Runs

variable {W : Watch D} {Post : O → Except X R → List (Obs D) → Prop} {s s' : Sys D X R O}

/-- A process that does not wait for an answer is in front of its next statement. -/
theorem Watch.Continues.wp {p : Proc D X R O} (h : W.Continues Post p) (hw : p.waiting = false) :
    W.wp p.prog (Post p.op) p.history := by
  simp only [Watch.Continues, hw, Bool.false_eq_true, if_false] at h
  exact h

/-- A finished process meets its postcondition. -/
theorem Watch.Continues.post {p : Proc D X R O} (h : W.Continues Post p) {r : Except X R}
    (hr : p.outcome? = some r) : Post p.op r p.history := by
  have hw : p.waiting = false := by
    cases hw : p.waiting with
    | false => rfl
    | true =>
        simp only [Watch.Continues, hw, if_true] at h
        obtain ⟨c, k, h', hprog, -⟩ := h
        simp only [Proc.outcome?, hprog, reduceCtorEq] at hr
  have hwp := h.wp hw
  cases hprog : p.prog with
  | ret a =>
      simp only [Proc.outcome?, hprog, Option.some.injEq] at hr
      rw [hprog] at hwp
      exact hr ▸ hwp
  | raise x =>
      simp only [Proc.outcome?, hprog, Option.some.injEq] at hr
      rw [hprog] at hwp
      exact hr ▸ hwp
  | stmt st k => simp only [Proc.outcome?, hprog, reduceCtorEq] at hr

theorem wp_of_followed {pid : Nat} {p : Proc D X R O} (h : W.Followed Post s)
    (hp : s.procs pid = some p) (hw : p.waiting = false) : W.wp p.prog (Post p.op) p.history :=
  (h.procs pid p hp).2.wp hw

/-- A finished process meets its postcondition. -/
theorem Watch.Followed.post {pid : Nat} {p : Proc D X R O} (h : W.Followed Post s)
    (hp : s.procs pid = some p) {r : Except X R} (hr : p.outcome? = some r) :
    Post p.op r p.history := (h.procs pid p hp).2.post hr

section Each

variable {W : O → Watch D}

theorem FollowedEach.update {pid : Nat} {p' : Proc D X R O} (h : FollowedEach W Post s)
    (hprocs : s'.procs = Function.update s.procs pid (some p'))
    (htrace : ∀ e ∈ s'.trace, e ∈ s.trace ∨
      (W e.op).Kept e.history ∧ (W e.op).must e.history e.act.stmt)
    (hkept : (W p'.op).Kept p'.history) (hc : (W p'.op).Continues Post p') :
    FollowedEach W Post s' where
  procs := by
    intro q pq hq
    rw [hprocs] at hq
    by_cases hqp : q = pid
    · subst hqp
      rw [Function.update_self, Option.some.injEq] at hq
      exact hq ▸ ⟨hkept, hc⟩
    · rw [Function.update_of_ne hqp] at hq
      exact h.procs q pq hq
  trace := fun e he => (htrace e he).elim (h.trace e) id

/-- Each step keeps the obligations, when the response of the step is one that `may` considers. -/
theorem FollowedEach.step {code : O → Prog D X R} {allowed : O → Prop}
    (hcode : ∀ op, allowed op → (W op).wp (code op) (Post op) [])
    (hdraw : ∀ op h o v, (W op).may h (.draw o) v)
    (hcall : ∀ op h c a, (W op).may h (.call c) a)
    (hmay : ∀ pid p st e, s.procs pid = some p → s.reply? pid p.session st = some e →
      (W p.op).may p.history st e.resp)
    (hs : Sys.Moves code allowed s s') (h : FollowedEach W Post s) : FollowedEach W Post s' := by
  cases hs with
  | launch op hop =>
      exact h.update rfl (fun e he => Or.inl he) trivial (hcode op hop)
  | @accept pid p st k e hp hw hprog he =>
      obtain ⟨hkept, hc⟩ := h.procs pid p hp
      have hwp := hc.wp hw
      rw [hprog] at hwp
      obtain ⟨hmust, hnext⟩ := hwp
      have hcont := hnext e.resp (hmay pid p st e hp he)
      refine h.update rfl (fun e' he' => ?_) ?_ ?_
      · cases st with
        | commit =>
            rcases List.mem_cons.1 he' with rfl | he'
            · exact Or.inr ⟨hkept, hmust⟩
            · exact Or.inl he'
        | _ => exact Or.inl he'
      · cases st with
        | call c => cases he
        | _ => exact ⟨hmust, hkept⟩
      · cases st with
        | call c => cases he
        | _ => exact hcont
  | @draw pid p o k v hp hw hprog =>
      obtain ⟨hkept, hc⟩ := h.procs pid p hp
      have hwp := hc.wp hw
      rw [hprog] at hwp
      exact h.update rfl (fun e he => Or.inl he) ⟨hwp.1, hkept⟩ (hwp.2 v (hdraw _ _ o v))
  | @send pid p c k hp hw hprog =>
      obtain ⟨hkept, hc⟩ := h.procs pid p hp
      have hwp := hc.wp hw
      rw [hprog] at hwp
      refine h.update rfl (fun e he => ?_) ⟨hwp.1, hkept⟩ ⟨c, k, p.history, rfl, rfl, hwp.2⟩
      rcases List.mem_cons.1 he with rfl | he
      · exact Or.inr ⟨hkept, hwp.1⟩
      · exact Or.inl he
  | @answer pid p c k a hp hw hprog =>
      obtain ⟨hkept, hc⟩ := h.procs pid p hp
      simp only [Watch.Continues, hw, if_true] at hc
      obtain ⟨c', k', h', hprog', hhist, hc⟩ := hc
      rw [hprog, Prog.stmt.injEq] at hprog'
      obtain ⟨hcc, hkk⟩ := hprog'
      cases hcc
      cases hkk
      exact h.update rfl (fun e he => Or.inl he) hkept (hc a (hcall _ _ c a))
  | @kill pid p hp =>
      refine ⟨fun q pq hq => ?_, h.trace⟩
      by_cases hqp : q = pid
      · subst hqp
        simp only [Sys.kill, Function.update_self, reduceCtorEq] at hq
      · simp only [Sys.kill, Function.update_of_ne hqp] at hq
        exact h.procs q pq hq
  | tick d => exact ⟨h.procs, h.trace⟩

theorem followedEach_initial (db : D.Store) : FollowedEach W Post (Sys.initial db) :=
  ⟨fun _ _ h => (by cases h), fun _ h => absurd h List.not_mem_nil⟩

end Each

/-- The obligations of each operation hold along every run, whatever its statements are answered. -/
theorem followedEach_of_reachable {must : O → List (Obs D) → Stmt D → Prop}
    {code : O → Prog D X R} {allowed : O → Prop} {db : D.Store}
    (hcode : ∀ op, allowed op → (Watch.over (fun _ => True) (must op)).wp (code op) (Post op) [])
    (h : Sys.Reachable code allowed db s) :
    FollowedEach (fun op => Watch.over (fun _ => True) (must op)) Post s := by
  refine h.invariant (followedEach_initial db) fun s s' _ _ hs hJ => ?_
  refine hJ.step hcode ?_ ?_ ?_ hs
  · exact fun _ _ _ _ _ _ => trivial
  · exact fun _ _ _ _ _ _ => trivial
  · exact fun _ _ _ _ _ _ _ _ => trivial

/-- Each step keeps the obligations of a watch that all processes share. -/
theorem Watch.Followed.step {code : O → Prog D X R} {allowed : O → Prop}
    (hcode : ∀ op, allowed op → W.wp (code op) (Post op) [])
    (hdraw : ∀ h o v, W.may h (.draw o) v) (hcall : ∀ h c a, W.may h (.call c) a)
    (hmay : ∀ pid p st e, s.procs pid = some p → s.reply? pid p.session st = some e →
      W.may p.history st e.resp)
    (hs : Sys.Moves code allowed s s') (h : W.Followed Post s) : W.Followed Post s' := by
  have heach : FollowedEach (fun _ => W) Post s := ⟨h.procs, h.trace⟩
  have hstep := heach.step hcode (fun _ => hdraw) (fun _ => hcall) hmay hs
  exact ⟨hstep.procs, hstep.trace⟩

theorem Watch.followed_initial (db : D.Store) : W.Followed Post (Sys.initial db : Sys D X R O) :=
  ⟨fun _ _ h => (by cases h), fun _ h => absurd h List.not_mem_nil⟩

/-- The pending writes of a kept history are the ones that the watch lets through. -/
theorem Watch.Kept.writes {Wok : D.Write → Prop} (hwrite : ∀ h w, W.must h (.write w) → Wok w)
    (hinsert : ∀ h k w, W.must h (.insert k w) → Wok w) {h : List (Obs D)} (hk : W.Kept h) :
    ∀ w ∈ History.writes h, Wok w := by
  induction h with
  | nil => exact fun w hw => absurd hw List.not_mem_nil
  | cons o h ih =>
      cases o with
      | sent c => exact ih hk.2
      | did st r =>
          cases st with
          | commit => exact fun w hw => absurd hw List.not_mem_nil
          | rollback => exact fun w hw => absurd hw List.not_mem_nil
          | write w' =>
              intro w hw
              rcases List.mem_append.1 hw with hw | hw
              · exact ih hk.2 w hw
              · exact List.mem_singleton.1 hw ▸ hwrite h w' hk.1
          | insert k w' =>
              intro w hw
              change w ∈ if r = true then _ else _ at hw
              split at hw
              · rcases List.mem_append.1 hw with hw | hw
                · exact ih hk.2 w hw
                · exact List.mem_singleton.1 hw ▸ hinsert h k w' hk.1
              · exact ih hk.2 w hw
          | select => exact ih hk.2
          | lock k nowait => exact ih hk.2
          | draw d => exact ih hk.2
          | call c => exact ih hk
          | mark m => exact ih hk.2

/-- A session whose pending writes keep a property of stores sees a store that has it. -/
theorem view_keeps {G : D.Store → Prop} {Wok : D.Write → Prop}
    (hG : ∀ db n w, Wok w → G db → G (D.apply db n w)) {σ : Session D} {db : D.Store}
    (hw : ∀ w ∈ σ.pending.map Prod.snd, Wok w) (hdb : G db) : G (σ.view db) := by
  obtain ⟨begun, pending⟩ := σ
  show G (pending.foldl (fun s e => D.apply s e.1 e.2) db)
  induction pending generalizing db with
  | nil => exact hdb
  | cons e rest ih =>
      exact ih (hG db e.1 e.2 (hw e.2 List.mem_cons_self) hdb)
        fun w hw' => hw w (List.mem_cons_of_mem _ hw')

/-- A property of stores that every watched write keeps holds along every run, and so do the
obligations of the programs that rely on it. -/
theorem Watch.followed_of_reachable {G : D.Store → Prop} {Wok : D.Write → Prop}
    {must : List (Obs D) → Stmt D → Prop} {code : O → Prog D X R} {allowed : O → Prop}
    {db : D.Store} (hG : ∀ db n w, Wok w → G db → G (D.apply db n w))
    (hwrite : ∀ h w, must h (.write w) → Wok w) (hinsert : ∀ h k w, must h (.insert k w) → Wok w)
    (hcode : ∀ op, allowed op → (Watch.over G must).wp (code op) (Post op) []) (hdb : G db)
    (h : Sys.Reachable code allowed db s) : (Watch.over G must).Followed Post s ∧ G s.db := by
  have hinit : (Watch.over G must).Followed Post (Sys.initial db : Sys D X R O) ∧ G db :=
    ⟨Watch.followed_initial db, hdb⟩
  refine h.invariant (J := fun s => (Watch.over G must).Followed Post s ∧ G s.db) hinit
    fun s s' hr _ hs hJ => ?_
  obtain ⟨hfollowed, hdb⟩ := hJ
  have hview : ∀ pid p, s.procs pid = some p → G (p.session.view s.db) := by
    intro pid p hp
    refine view_keeps hG ?_ hdb
    rw [((exact_of_reachable hr).procs pid p hp).pending]
    exact (hfollowed.procs pid p hp).1.writes hwrite hinsert
  refine ⟨hfollowed.step hcode (fun h o v σ hσ => by cases hσ) (fun h c a σ hσ => by cases hσ)
    (fun pid p st e hp he σ hσ => ?_) hs, ?_⟩
  · rw [reply_shows he hσ]
    exact hview pid p hp
  · cases hs with
    | @accept pid p st k e hp hw hprog he =>
        by_cases hst : st = .commit
        · subst hst
          simp only [Sys.reply?, Option.some.injEq] at he
          subst he
          exact hview pid p hp
        · show G e.db
          rw [Sys.reply_db he hst]
          exact hdb
    | launch op hop => exact hdb
    | draw v hp hw hprog => exact hdb
    | send hp hw hprog => exact hdb
    | answer a hp hw hprog => exact hdb
    | kill hp => exact hdb
    | tick d => exact hdb

end Runs

end HitlOps.Transaction
