import HitlOps.Transaction.Soundness

/-!
# Steps and runs of a verified system

`Progress C allowed s s'` lists what one step can do: start an allowed operation, let one process
make an observation, commit, send a call, die, or let time pass. `step_sound` shows that every step
of a sound state is one of these and leads to a sound state, and `sound_of_reachable` lifts this to
runs. Invariants that relate several processes are proved by induction over `Progress`.
-/

set_option autoImplicit false

namespace HitlOps.Transaction

variable {D : Schema} {X R O : Type} {L : Slicing D} {E : Rely L}

namespace Contract

/-- What one step of a sound state does to the store, the trace and the processes. -/
inductive Progress (C : Contract D X R O E) (allowed : O → Prop) (s s' : Sys D X R O) : Prop
  | spawn (op : O) (p : Proc D X R O) (hop : allowed op) (hp : p.op = op ∧ p.history = [])
      (hprocs : s'.procs = Function.update s.procs s.next (some p)) (hnext : s'.next = s.next + 1)
      (hdb : s'.db = s.db) (htrace : s'.trace = s.trace)
  | quiet (pid : Nat) (p p' : Proc D X R O) (o : Obs D) (hp : s.procs pid = some p)
      (hp' : p'.op = p.op ∧ p'.history = o :: p.history)
      (hseen : ∀ σ, o.seen? = some σ → ∀ i, s.locks (L.key i) ≠ some pid →
        L.row σ i = L.row s.db i)
      (ho : ∀ r, o ≠ .did .commit r) (hc : ∀ c, o ≠ .sent c)
      (hprocs : s'.procs = Function.update s.procs pid (some p')) (hnext : s'.next = s.next)
      (hdb : s'.db = s.db) (htrace : s'.trace = s.trace)
  | commit (pid : Nat) (p p' : Proc D X R O) (hp : s.procs pid = some p)
      (hp' : p'.op = p.op ∧ p'.history = .did .commit () :: p.history)
      (hok : C.EventOk (s.event pid p .commit))
      (hprocs : s'.procs = Function.update s.procs pid (some p')) (hnext : s'.next = s.next)
      (hdb : s'.db = (s.event pid p .commit).after)
      (htrace : s'.trace = s.event pid p .commit :: s.trace)
  | call (pid : Nat) (p p' : Proc D X R O) (c : D.Call) (hp : s.procs pid = some p)
      (hp' : p'.op = p.op ∧ p'.history = .sent c :: p.history)
      (hok : C.EventOk (s.event pid p (.call c)))
      (hprocs : s'.procs = Function.update s.procs pid (some p')) (hnext : s'.next = s.next)
      (hdb : s'.db = s.db) (htrace : s'.trace = s.event pid p (.call c) :: s.trace)
  | crash (pid : Nat) (hprocs : s'.procs = Function.update s.procs pid none)
      (hnext : s'.next = s.next) (hdb : s'.db = s.db) (htrace : s'.trace = s.trace)
  | tick (hprocs : s'.procs = s.procs) (hnext : s'.next = s.next) (hdb : s'.db = s.db)
      (htrace : s'.trace = s.trace)

variable {C : Contract D X R O E} {s : Sys D X R O} {pid : Nat} {p : Proc D X R O}

/-! ## Soundness of a single step -/

/-- A step that changes one process, and the shared state within a frame. -/
theorem sound_update (hs : C.Sound s) (hp : (s.procs pid).isSome) {p' : Proc D X R O}
    (τ' : Local L C.Ghost) {s' : Sys D X R O}
    (hframe : Frame C s pid s'.db s'.locks s'.counter)
    (hprocs : s'.procs = Function.update s.procs pid (some p')) (hnext : s'.next = s.next)
    (hk : C.Knows s' pid p' τ') (hc : C.Continues p' τ') : C.Sound s' where
  lawful := hs.lawful
  rows := hframe.rows
  below := hframe.below
  procs := by
    intro q pq hq
    rw [hprocs] at hq
    by_cases hqp : q = pid
    · subst hqp
      rw [Function.update_self, Option.some.injEq] at hq
      subst hq
      exact ⟨τ', hk, hc⟩
    · rw [Function.update_of_ne hqp] at hq
      obtain ⟨τq, hkq, hcq⟩ := hs.procs q pq hq
      exact ⟨τq, ⟨hkq.begun, hkq.ghost, hkq.owns.frame
        (fun i => hframe.locks_iff q hqp _) (fun i => hframe.rows_eq q hqp i) hframe.counter_le,
        fun i r hr => E.le_trans (hkq.seen i r hr) (hframe.mono i)⟩, hcq⟩
  owners := by
    intro k q hl
    rw [hprocs]
    by_cases hqp : q = pid
    · subst hqp
      rw [Function.update_self]
      rfl
    · rw [Function.update_of_ne hqp]
      exact hs.owners k q ((hframe.locks_iff q hqp k).1 hl)
  fresh := by
    intro q hq
    rw [hnext] at hq
    have hnone := hs.fresh q hq
    rw [hprocs]
    by_cases hqp : q = pid
    · subst hqp
      rw [hnone] at hp
      cases hp
    · rw [Function.update_of_ne hqp]
      exact hnone

theorem sound_spawn {code : O → Prog D X R} (hs : C.Sound s) {op : O}
    (hv : C.Verifies code op) : C.Sound { s with
      procs := Function.update s.procs s.next (some ⟨op, code op, .closed, [], false⟩)
      next := s.next + 1 } where
  lawful := hs.lawful
  rows := hs.rows
  below := hs.below
  procs := by
    intro q pq hq
    by_cases hqn : q = s.next
    · subst hqn
      simp only [Function.update_self, Option.some.injEq] at hq
      subst hq
      have hl : ∀ i, s.locks (L.key i) ≠ some s.next := by
        intro i hi
        have := hs.owners _ _ hi
        rw [hs.fresh s.next (Nat.le_refl _)] at this
        cases this
      exact ⟨C.enter op, ⟨rfl, rfl, Owns.closed hl, fun _ _ h => h.elim⟩, hv⟩
    · simp only [Function.update_of_ne hqn] at hq
      obtain ⟨τ, hk, hc⟩ := hs.procs q pq hq
      exact ⟨τ, ⟨hk.begun, hk.ghost, hk.owns, hk.seen⟩, hc⟩
  owners := by
    intro k q hl
    have h := hs.owners k q hl
    by_cases hqn : q = s.next
    · subst hqn
      simp only [Function.update_self]
      rfl
    · simp only [Function.update_of_ne hqn]
      exact h
  fresh := by
    intro q hq
    have hlt : s.next < q := hq
    simp only [Function.update_of_ne (Nat.ne_of_gt hlt)]
    exact hs.fresh q (Nat.le_of_lt hlt)

theorem sound_crash (hs : C.Sound s) : C.Sound { s with
    procs := Function.update s.procs pid none
    locks := releaseLocks s.locks pid } where
  lawful := hs.lawful
  rows := hs.rows
  below := hs.below
  procs := by
    intro q pq hq
    by_cases hqp : q = pid
    · subst hqp
      simp only [Function.update_self] at hq
      cases hq
    · simp only [Function.update_of_ne hqp] at hq
      obtain ⟨τ, hk, hc⟩ := hs.procs q pq hq
      exact ⟨τ, ⟨hk.begun, hk.ghost, hk.owns.frame (fun i => release_iff q hqp _)
        (fun _ _ => rfl) (Nat.le_refl _), hk.seen⟩, hc⟩
  owners := by
    intro k q hl
    obtain ⟨hl, hqp⟩ := releaseLocks_eq_some.1 hl
    simp only [Function.update_of_ne hqp]
    exact hs.owners k q hl
  fresh := by
    intro q hq
    by_cases hqp : q = pid
    · subst hqp
      simp only [Function.update_self]
    · simp only [Function.update_of_ne hqp]
      exact hs.fresh q hq

theorem sound_tick (hs : C.Sound s) (d : Instant) : C.Sound { s with clock := s.clock + d } where
  lawful := hs.lawful
  rows := hs.rows
  below := hs.below
  procs := fun q pq hq =>
    let ⟨τ, hk, hc⟩ := hs.procs q pq hq
    ⟨τ, ⟨hk.begun, hk.ghost, hk.owns, hk.seen⟩, hc⟩
  owners := hs.owners
  fresh := hs.fresh

/-- The weakest precondition of a process that is not waiting. -/
theorem wp_of_continues {τ : Local L C.Ghost} (hc : C.Continues p τ) (hw : p.waiting = false) :
    C.wp p.prog (fun r τ' => C.Post p.op r τ'.ghost) τ := by
  simp only [Continues, hw, Bool.false_eq_true, if_false] at hc
  exact hc

/-- The event of a commit meets its obligation. -/
theorem commit_eventOk {τ : Local L C.Ghost} (hk : C.Knows s pid p τ) (hok : C.CommitOk τ) :
    C.EventOk (s.event pid p .commit) := by
  obtain ⟨hheld, hother⟩ := commit_rows hk hok
  refine ⟨τ.held, ?_, hheld, fun i hi => hother i ?_⟩
  · show C.Commit (C.ghostOf p.op p.history) p.session.begun τ.held
    rw [← hk.ghost, ← hk.begun]
    exact hok.2
  · rintro ⟨base, cur, hh⟩
    exact hi base cur hh

theorem call_eventOk {τ : Local L C.Ghost} {c : D.Call} (hk : C.Knows s pid p τ)
    (hok : C.Call τ.ghost τ.held c) : C.EventOk (s.event pid p (.call c)) := by
  refine ⟨τ.held, ?_, fun i base cur hh => ?_⟩
  · show C.Call (C.ghostOf p.op p.history) τ.held c
    rw [← hk.ghost]
    exact hok
  · exact ⟨(hk.owns.locked i).2 ⟨base, cur, hh⟩, (hk.owns.rows i base cur hh).1⟩

/-- A reply shows the rows of other processes as committed. -/
theorem reply_seen {τ : Local L C.Ghost} (hk : C.Knows s pid p τ) {st : Stmt D} {e : Reply D st}
    (he : s.reply? pid p.session st = some e) {σ : D.Store}
    (hσ : (Obs.did st e.resp).seen? = some σ) {i : L.Idx} (hi : s.locks (L.key i) ≠ some pid) :
    L.row σ i = L.row s.db i := by
  have hview : σ = p.session.view s.db → L.row σ i = L.row s.db i := by
    rintro rfl
    exact hk.owns.row_view_eq hi
  cases st with
  | select =>
      simp only [Sys.reply?, Option.some.injEq] at he
      subst he
      simp only [Obs.seen?, Option.some.injEq] at hσ
      exact hview hσ.symm
  | lock k nowait =>
      simp only [Sys.reply?] at he
      split at he
      · split at he
        · simp only [Option.some.injEq] at he
          subst he
          simp only [Obs.seen?, Option.map_some, Option.some.injEq] at hσ
          exact hview hσ.symm
        · split at he
          · simp only [Option.some.injEq] at he
            subst he
            simp only [Obs.seen?, Option.map_none, reduceCtorEq] at hσ
          · cases he
      · simp only [Option.some.injEq] at he
        subst he
        simp only [Obs.seen?, Option.map_some, Option.some.injEq] at hσ
        exact hview hσ.symm
  | insert k w => cases hσ
  | write w => cases hσ
  | commit => cases hσ
  | rollback => cases hσ
  | draw o => cases hσ
  | call c => cases hσ
  | mark m => cases hσ

theorem traceOf_eq (st : Stmt D) (h : st ≠ .commit) : s.traceOf pid p st = s.trace := by
  cases st with
  | commit => exact absurd rfl h
  | _ => rfl

theorem step_accept {allowed : O → Prop} (hs : C.Sound s) (hp : s.procs pid = some p)
    (hw : p.waiting = false) {st : Stmt D} {k : st.Resp → Prog D X R} (hprog : p.prog = .stmt st k)
    {e : Reply D st} (he : s.reply? pid p.session st = some e) :
    C.Sound (s.accept pid p st k e) ∧ C.Progress allowed s (s.accept pid p st k e) := by
  obtain ⟨τ, hk, hc⟩ := hs.procs pid p hp
  have hpre : C.pre st τ fun r τ' => C.wp (k r) (fun r τ' => C.Post p.op r τ'.ghost) τ' := by
    have := wp_of_continues hc hw
    rw [hprog] at this
    exact this
  obtain ⟨τ', hK, hτ⟩ := reply_sound hs hk hpre he
  have hsound : C.Sound (s.accept pid p st k e) := by
    refine sound_update hs (by rw [hp]; rfl) τ' hτ.frame rfl rfl
      ⟨hτ.begun, ?_, hτ.owns, hτ.seen⟩ ?_
    · rw [hτ.ghost, hk.ghost]
      rfl
    · exact hK
  refine ⟨hsound, ?_⟩
  -- A commit shows in the store and in the trace; every other statement is quiet.
  by_cases hst : st = .commit
  · subst hst
    simp only [Sys.reply?, Option.some.injEq] at he
    subst he
    exact .commit pid p ⟨p.op, k (), .closed, .did .commit () :: p.history, false⟩ hp ⟨rfl, rfl⟩
      (commit_eventOk hk hpre.1) rfl rfl rfl rfl
  · refine .quiet pid p ⟨p.op, k e.resp, e.session, .did st e.resp :: p.history, false⟩
      (.did st e.resp) hp ⟨rfl, rfl⟩
      (fun σ hσ i hi => reply_seen hk he hσ hi) ?_ (fun c h => by cases h) rfl rfl ?_
      (traceOf_eq st hst)
    · intro r h
      simp only [Obs.did.injEq] at h
      exact hst h.1
    · cases st with
      | commit => exact absurd rfl hst
      | select => simp only [Sys.reply?, Option.some.injEq] at he; subst he; rfl
      | lock k nowait =>
          simp only [Sys.reply?] at he
          repeat' split at he
          all_goals first | (simp only [Option.some.injEq] at he; subst he; rfl) | cases he
      | insert k w =>
          simp only [Sys.reply?] at he
          repeat' split at he
          all_goals first | (simp only [Option.some.injEq] at he; subst he; rfl) | cases he
      | write w => simp only [Sys.reply?, Option.some.injEq] at he; subst he; rfl
      | rollback => simp only [Sys.reply?, Option.some.injEq] at he; subst he; rfl
      | draw o => cases he
      | call c => cases he
      | mark m => simp only [Sys.reply?, Option.some.injEq] at he; subst he; rfl

/-- Handing a draw or an answer to its process. -/
theorem step_resume {allowed : O → Prop} (hs : C.Sound s) (hp : s.procs pid = some p)
    {st : Stmt D} {k : st.Resp → Prog D X R} {r : st.Resp}
    (hst : (Obs.did st r).seen? = none ∧ st ≠ .commit) {τ : Local L C.Ghost}
    (hk : C.Knows s pid p τ)
    (hc : C.wp (k r) (fun r τ' => C.Post p.op r τ'.ghost) (C.noted τ (.did st r))) :
    C.Sound (s.resume pid p st k r) ∧ C.Progress allowed s (s.resume pid p st k r) := by
  refine ⟨sound_update hs (by rw [hp]; rfl) (C.noted τ (.did st r))
    (Frame.same hs pid (Nat.le_refl _)) rfl rfl ⟨hk.begun, ?_, hk.owns, hk.seen⟩ hc, ?_⟩
  · show C.observe τ.ghost _ = _
    rw [hk.ghost]
    rfl
  · refine .quiet pid p ⟨p.op, k r, p.session, .did st r :: p.history, false⟩ (.did st r) hp
      ⟨rfl, rfl⟩ (fun σ hσ => ?_) ?_ (fun c h => by cases h) rfl rfl rfl rfl
    · rw [hst.1] at hσ
      cases hσ
    · intro r' h
      simp only [Obs.did.injEq] at h
      exact hst.2 h.1

theorem step_send {allowed : O → Prop} (hs : C.Sound s) (hp : s.procs pid = some p)
    (hw : p.waiting = false) {c : D.Call} {k : Stmt.Resp (.call c) → Prog D X R}
    (hprog : p.prog = .stmt (.call c) k) {s' : Sys D X R O}
    (hs' : s.runStmt pid p (.call c) k = some s') : C.Sound s' ∧ C.Progress allowed s s' := by
  obtain ⟨τ, hk, hc⟩ := hs.procs pid p hp
  have hpre : C.pre (.call c) τ fun r τ' => C.wp (k r) (fun r τ' => C.Post p.op r τ'.ghost) τ' := by
    have := wp_of_continues hc hw
    rw [hprog] at this
    exact this
  simp only [Sys.runStmt, Option.some.injEq] at hs'
  subst hs'
  refine ⟨sound_update hs (by rw [hp]; rfl) (C.noted τ (.sent c))
    (Frame.same hs pid (Nat.le_refl _)) rfl rfl ⟨hk.begun, ?_, hk.owns, hk.seen⟩ ?_,
    .call pid p ⟨p.op, .stmt (.call c) k, p.session, .sent c :: p.history, true⟩ c hp ⟨rfl, rfl⟩
      (call_eventOk hk hpre.1) rfl rfl rfl rfl⟩
  · show C.observe τ.ghost _ = _
    rw [hk.ghost]
    rfl
  · exact ⟨c, k, rfl, hpre.2⟩

/-- One step of a sound state. -/
theorem step_sound {code : O → Prog D X R} {allowed : O → Prop}
    (hcode : ∀ op, allowed op → C.Verifies code op) (hs : C.Sound s) {s' : Sys D X R O}
    (hstep : Sys.Step code allowed s s') : C.Sound s' ∧ C.Progress allowed s s' := by
  obtain ⟨l, hl, hop⟩ := hstep
  cases l with
  | spawn op =>
      simp only [Sys.step, Option.some.injEq] at hl
      subst hl
      exact ⟨sound_spawn hs (hcode op (hop op rfl)),
        .spawn op _ (hop op rfl) ⟨rfl, rfl⟩ rfl rfl rfl rfl⟩
  | run pid =>
      simp only [Sys.step] at hl
      cases hp : s.procs pid with
      | none => simp only [hp, reduceCtorEq] at hl
      | some p =>
          simp only [hp] at hl
          cases hw : p.waiting with
          | true => simp only [hw, if_true, reduceCtorEq] at hl
          | false =>
              simp only [hw, Bool.false_eq_true, if_false] at hl
              cases hprog : p.prog with
              | ret a => simp only [hprog, reduceCtorEq] at hl
              | raise x => simp only [hprog, reduceCtorEq] at hl
              | stmt st k =>
                  simp only [hprog] at hl
                  cases st with
                  -- A call is sent now and answered in a step of its own; every other statement is answered at once.
                  | call c => exact step_send hs hp hw hprog hl
                  | _ =>
                      simp only [Sys.runStmt, Option.map_eq_some_iff] at hl
                      obtain ⟨e, he, rfl⟩ := hl
                      exact step_accept hs hp hw hprog he
  | draw pid v =>
      simp only [Sys.step] at hl
      cases hp : s.procs pid with
      | none => simp only [hp, reduceCtorEq] at hl
      | some p =>
          simp only [hp] at hl
          cases hw : p.waiting with
          | true => simp only [hw, if_true, reduceCtorEq] at hl
          | false =>
              simp only [hw, Bool.false_eq_true, if_false] at hl
              split at hl
              · next o k hprog =>
                  simp only [Option.some.injEq] at hl
                  subst hl
                  obtain ⟨τ, hk, hc⟩ := hs.procs pid p hp
                  have hwp := wp_of_continues hc hw
                  rw [hprog] at hwp
                  exact step_resume hs hp ⟨rfl, fun h => by cases h⟩ hk (hwp (v o))
              · cases hl
  | answer pid a =>
      simp only [Sys.step] at hl
      cases hp : s.procs pid with
      | none => simp only [hp, reduceCtorEq] at hl
      | some p =>
          simp only [hp] at hl
          cases hw : p.waiting with
          | false => simp only [hw, Bool.false_eq_true, if_false, reduceCtorEq] at hl
          | true =>
              simp only [hw, if_true] at hl
              split at hl
              · next c k hprog =>
                  simp only [Option.some.injEq] at hl
                  subst hl
                  obtain ⟨τ, hk, hc⟩ := hs.procs pid p hp
                  simp only [Continues, hw, if_true] at hc
                  -- The process waits at the call that is answered.
                  obtain ⟨c', k', hprog', hc⟩ := hc
                  rw [hprog, Prog.stmt.injEq] at hprog'
                  obtain ⟨hcc, hkk⟩ := hprog'
                  cases hcc
                  cases hkk
                  exact step_resume hs hp ⟨rfl, fun h => by cases h⟩ hk (hc (a c))
              · cases hl
  | crash pid =>
      simp only [Sys.step] at hl
      cases hp : s.procs pid with
      | none => simp only [hp, reduceCtorEq] at hl
      | some p =>
          simp only [hp, Option.some.injEq] at hl
          subst hl
          exact ⟨sound_crash hs, .crash pid rfl rfl rfl rfl⟩
  | tick d =>
      simp only [Sys.step, Option.some.injEq] at hl
      subst hl
      exact ⟨sound_tick hs d, .tick rfl rfl rfl rfl⟩

/-! ## Runs -/

theorem sound_initial {db : D.Store} (hlaw : C.Lawful) (hrows : ∀ i, E.Inv i (L.row db i))
    (hbelow : ∀ i, L.below (L.row db i) 0) : C.Sound (Sys.initial db : Sys D X R O) where
  lawful := hlaw
  rows := hrows
  below := hbelow
  procs := fun _ _ h => by cases h
  owners := fun _ _ h => by cases h
  fresh := fun _ _ => rfl

/-- Every reachable state is sound. -/
theorem sound_of_reachable {code : O → Prog D X R} {allowed : O → Prop} {db : D.Store}
    (hlaw : C.Lawful) (hcode : ∀ op, allowed op → C.Verifies code op) (hrows : ∀ i, E.Inv i (L.row db i))
    (hbelow : ∀ i, L.below (L.row db i) 0) {s : Sys D X R O}
    (h : Sys.Reachable code allowed db s) : C.Sound s := by
  induction h with
  | initial => exact sound_initial hlaw hrows hbelow
  | step _ hstep ih => exact (step_sound hcode ih hstep).1

/-- An invariant over `Progress` holds in every reachable state. -/
theorem invariant_of_progress {code : O → Prog D X R} {allowed : O → Prop} {db : D.Store}
    (hlaw : C.Lawful) (hcode : ∀ op, allowed op → C.Verifies code op) (hrows : ∀ i, E.Inv i (L.row db i))
    (hbelow : ∀ i, L.below (L.row db i) 0) {J : Sys D X R O → Prop}
    (hinit : J (Sys.initial db))
    (hstep : ∀ s s', C.Sound s → C.Sound s' → C.Progress allowed s s' → J s → J s')
    {s : Sys D X R O} (h : Sys.Reachable code allowed db s) : J s := by
  induction h with
  | initial => exact hinit
  | step hr hst ih =>
      have hsound := sound_of_reachable hlaw hcode hrows hbelow hr
      obtain ⟨hs', hprog⟩ := step_sound hcode hsound hst
      exact hstep _ _ hsound hs' hprog ih

end Contract

end HitlOps.Transaction
