import HitlOps.Transaction.Steps

/-!
# Histories

Functions of the history of a process that say what its open transaction has done: the lock keys it
holds, the writes that are pending, and the stores it has been shown. `exact_of_reachable` states
that in every run they agree with the lock table and with the session of the process.

`Current` and `Grown` are the two ways in which a store that was shown earlier still counts: a row
is unchanged while its lock is held, and a row that only moves upwards is at least what was shown.
-/

set_option autoImplicit false

namespace HitlOps.Transaction

variable {D : Schema} {X R O : Type}

namespace History

/-- The lock keys that the open transaction holds. -/
def held : List (Obs D) → List D.Key
  | [] => []
  | .did (.lock k _) r :: h =>
      if r.any (fun r => D.present r.1 k) = true then k :: held h else held h
  | .did (.insert k _) r :: h => if r = true then k :: held h else held h
  | .did .commit _ :: _ => []
  | .did .rollback _ :: _ => []
  | _ :: h => held h

/-- The writes of the open transaction, oldest first. -/
def writes : List (Obs D) → List D.Write
  | [] => []
  | .did (.write w) _ :: h => writes h ++ [w]
  | .did (.insert _ w) r :: h => if r = true then writes h ++ [w] else writes h
  | .did .commit _ :: _ => []
  | .did .rollback _ :: _ => []
  | _ :: h => writes h

/-- The stores that the open transaction has been shown before it wrote to what `touches` says,
with the keys it held then, newest first. -/
def reads (touches : D.Write → Bool) : List (Obs D) → List (D.Store × List D.Key)
  | [] => []
  | .did .commit _ :: _ => []
  | .did .rollback _ :: _ => []
  | o :: h =>
      (if (writes h).any touches = true then []
        else (o.seen?.map fun σ => (σ, held (o :: h))).toList) ++ reads touches h

/-- The stores that the process has ever been shown in a transaction that had not yet written to
what `touches` says, newest first. -/
def shown (touches : D.Write → Bool) : List (Obs D) → List D.Store
  | [] => []
  | o :: h => (if (writes h).any touches = true then [] else o.seen?.toList) ++ shown touches h

end History

open History

/-! ## Histories agree with the system -/

/-- The history of the process `pid` agrees with the lock table and its session. -/
structure Exact (s : Sys D X R O) (pid : Nat) (p : Proc D X R O) : Prop where
  locks : ∀ k, s.locks k = some pid ↔ k ∈ held p.history
  pending : p.session.pending.map Prod.snd = writes p.history

/-- Every process has an exact history, and only processes hold locks. -/
structure AllExact (s : Sys D X R O) : Prop where
  procs : ∀ pid p, s.procs pid = some p → Exact s pid p
  owners : ∀ k pid, s.locks k = some pid → (s.procs pid).isSome
  fresh : ∀ pid, s.next ≤ pid → s.procs pid = none

variable {s : Sys D X R O} {pid : Nat}

theorem not_release {locks : D.Key → Option Nat} (k : D.Key) :
    releaseLocks locks pid k ≠ some pid := fun h => (releaseLocks_eq_some.1 h).2 rfl

/-- What a reply does to the locks and the session of its process. -/
theorem Exact.reply {p : Proc D X R O} (h : Exact s pid p) {st : Stmt D} {e : Reply D st}
    (he : s.reply? pid p.session st = some e) :
    (∀ k, e.locks k = some pid ↔ k ∈ held (.did st e.resp :: p.history)) ∧
      e.session.pending.map Prod.snd = writes (.did st e.resp :: p.history) ∧
      ∀ q, q ≠ pid → ∀ k, e.locks k = some q ↔ s.locks k = some q := by
  have hsame : ∀ q, q ≠ pid → ∀ k, s.locks k = some q ↔ s.locks k = some q :=
    fun _ _ _ => Iff.rfl
  cases st with
  | select =>
      simp only [Sys.reply?, Option.some.injEq] at he
      subst he
      exact ⟨h.locks, h.pending, hsame⟩
  | mark m =>
      simp only [Sys.reply?, Option.some.injEq] at he
      subst he
      exact ⟨h.locks, h.pending, hsame⟩
  | draw o => cases he
  | call c => cases he
  | commit =>
      simp only [Sys.reply?, Option.some.injEq] at he
      subst he
      refine ⟨fun k => ⟨fun hk => absurd hk (not_release k), fun hk => ?_⟩, rfl, release_iff⟩
      simp only [held, List.not_mem_nil] at hk
  | rollback =>
      simp only [Sys.reply?, Option.some.injEq] at he
      subst he
      refine ⟨fun k => ⟨fun hk => absurd hk (not_release k), fun hk => ?_⟩, rfl, release_iff⟩
      simp only [held, List.not_mem_nil] at hk
  | write w =>
      simp only [Sys.reply?, Option.some.injEq] at he
      subst he
      refine ⟨h.locks, ?_, hsame⟩
      simp only [List.map_append, List.map_cons, List.map_nil, h.pending, writes]
  -- A free row is locked when it is there; one of its own stays; one of another is refused or awaited.
  | lock k nowait =>
      have hheld : ∀ r : Option (D.Store × Instant),
          held (.did (.lock k nowait) r :: p.history) =
            if r.any (fun r => D.present r.1 k) = true then k :: held p.history
            else held p.history := fun _ => rfl
      simp only [Sys.reply?] at he
      cases hq : s.locks k with
      | none =>
          simp only [hq, Option.some.injEq] at he
          subst he
          rw [hheld]
          refine ⟨fun k' => ?_, h.pending, fun q hqp k' => ?_⟩
          · show (if D.present (p.session.view s.db) k = true then _ else s.locks) k' = some pid ↔ _
            simp only [Option.any_some]
            split
            · rw [update_locks_self, List.mem_cons, h.locks k']
            · exact h.locks k'
          · show (if D.present (p.session.view s.db) k = true then _ else s.locks) k' = some q ↔ _
            split
            · exact update_locks_iff hq q hqp k'
            · exact Iff.rfl
      | some q =>
          simp only [hq] at he
          split at he
          · next hqp =>
              subst hqp
              simp only [Option.some.injEq] at he
              subst he
              have hmem : k ∈ held p.history := (h.locks k).1 hq
              rw [hheld]
              refine ⟨fun k' => ?_, h.pending, hsame⟩
              rw [h.locks k']
              split
              · rw [List.mem_cons]
                exact ⟨Or.inr, fun h' => h'.elim (fun heq => heq ▸ hmem) id⟩
              · exact Iff.rfl
          · split at he
            · simp only [Option.some.injEq] at he
              subst he
              exact ⟨h.locks, h.pending, hsame⟩
            · cases he
  -- An insert that finds the key taken leaves everything as it is.
  | insert k w =>
      have hfalse : held (.did (.insert k w) false :: p.history) = held p.history ∧
          writes (.did (.insert k w) false :: p.history) = writes p.history := ⟨rfl, rfl⟩
      have htrue : held (.did (.insert k w) true :: p.history) = k :: held p.history ∧
          writes (.did (.insert k w) true :: p.history) = writes p.history ++ [w] := ⟨rfl, rfl⟩
      have hpending : (p.session.pending ++ [(s.counter, w)]).map Prod.snd =
          writes p.history ++ [w] := by
        rw [List.map_append, h.pending]
        rfl
      simp only [Sys.reply?] at he
      cases hq : s.locks k with
      | none =>
          simp only [hq] at he
          split at he
          · simp only [Option.some.injEq] at he
            subst he
            exact ⟨h.locks, h.pending, hsame⟩
          · simp only [Option.some.injEq] at he
            subst he
            refine ⟨fun k' => ?_, hpending, update_locks_iff hq⟩
            rw [htrue.1, update_locks_self, List.mem_cons, h.locks k']
      | some q =>
          simp only [hq] at he
          split at he
          · next hqp =>
              subst hqp
              split at he
              · simp only [Option.some.injEq] at he
                subst he
                exact ⟨h.locks, h.pending, hsame⟩
              · simp only [Option.some.injEq] at he
                subst he
                have hmem : k ∈ held p.history := (h.locks k).1 hq
                refine ⟨fun k' => ?_, hpending, hsame⟩
                rw [htrue.1, h.locks k', List.mem_cons]
                exact ⟨Or.inr, fun h' => h'.elim (fun heq => heq ▸ hmem) id⟩
          · cases he

/-- A change of one process that leaves the locks of the others alone. -/
theorem AllExact.update (h : AllExact s) {p p' : Proc D X R O} (hp : s.procs pid = some p)
    {s' : Sys D X R O} (hprocs : s'.procs = Function.update s.procs pid (some p'))
    (hnext : s'.next = s.next) (hp' : Exact s' pid p')
    (hlocks : ∀ q, q ≠ pid → ∀ k, s'.locks k = some q ↔ s.locks k = some q) : AllExact s' where
  procs := by
    intro q pq hq
    rw [hprocs] at hq
    by_cases hqp : q = pid
    · subst hqp
      rw [Function.update_self, Option.some.injEq] at hq
      exact hq ▸ hp'
    · rw [Function.update_of_ne hqp] at hq
      have hq' := h.procs q pq hq
      exact ⟨fun k => (hlocks q hqp k).trans (hq'.locks k), hq'.pending⟩
  owners := by
    intro k q hl
    rw [hprocs]
    by_cases hqp : q = pid
    · subst hqp
      rw [Function.update_self]
      rfl
    · rw [Function.update_of_ne hqp]
      exact h.owners k q ((hlocks q hqp k).1 hl)
  fresh := by
    intro q hq
    rw [hnext] at hq
    have hnone := h.fresh q hq
    rw [hprocs]
    have hqp : q ≠ pid := by
      intro heq
      subst heq
      rw [hp] at hnone
      cases hnone
    rw [Function.update_of_ne hqp]
    exact hnone

/-- Every step keeps the histories exact. -/
theorem AllExact.step {code : O → Prog D X R} {allowed : O → Prop} {s' : Sys D X R O}
    (h : AllExact s) (hs : Sys.Moves code allowed s s') : AllExact s' := by
  have hsame : ∀ pid q : Nat, q ≠ pid → ∀ k, s.locks k = some q ↔ s.locks k = some q :=
    fun _ _ _ _ => Iff.rfl
  cases hs with
  | launch op hop =>
      refine ⟨fun q pq hq => ?_, fun k q hl => ?_, fun q hq => ?_⟩
      · by_cases hqn : q = s.next
        · subst hqn
          simp only [Sys.launch, Function.update_self, Option.some.injEq] at hq
          subst hq
          refine ⟨fun k => ⟨fun hl => ?_, fun hk => absurd hk List.not_mem_nil⟩, rfl⟩
          have hsome := h.owners k _ hl
          rw [h.fresh _ (Nat.le_refl _)] at hsome
          cases hsome
        · simp only [Sys.launch, Function.update_of_ne hqn] at hq
          exact ⟨(h.procs q pq hq).locks, (h.procs q pq hq).pending⟩
      · have hsome := h.owners k q hl
        by_cases hqn : q = s.next
        · subst hqn
          rw [h.fresh _ (Nat.le_refl _)] at hsome
          cases hsome
        · simp only [Sys.launch, Function.update_of_ne hqn]
          exact hsome
      · have hlt : s.next < q := hq
        simp only [Sys.launch, Function.update_of_ne (Nat.ne_of_gt hlt)]
        exact h.fresh q (Nat.le_of_lt hlt)
  | accept hp hw hprog he =>
      obtain ⟨hlocks, hpending, hothers⟩ := (h.procs _ _ hp).reply he
      exact h.update hp rfl rfl ⟨hlocks, hpending⟩ hothers
  | draw v hp hw hprog =>
      have hx := h.procs _ _ hp
      exact h.update hp rfl rfl ⟨hx.locks, hx.pending⟩ (hsame _)
  | send hp hw hprog =>
      have hx := h.procs _ _ hp
      exact h.update hp rfl rfl ⟨hx.locks, hx.pending⟩ (hsame _)
  | answer a hp hw hprog =>
      have hx := h.procs _ _ hp
      exact h.update hp rfl rfl ⟨hx.locks, hx.pending⟩ (hsame _)
  | @kill dead p hp =>
      refine ⟨fun q pq hq => ?_, fun k q hl => ?_, fun q hq => ?_⟩
      · by_cases hqp : q = dead
        · subst hqp
          simp only [Sys.kill, Function.update_self, reduceCtorEq] at hq
        · simp only [Sys.kill, Function.update_of_ne hqp] at hq
          have hq' := h.procs q pq hq
          exact ⟨fun k => (release_iff q hqp k).trans (hq'.locks k), hq'.pending⟩
      · obtain ⟨hl, hqp⟩ := releaseLocks_eq_some.1 hl
        simp only [Sys.kill, Function.update_of_ne hqp]
        exact h.owners k q hl
      · by_cases hqp : q = dead
        · subst hqp
          simp only [Sys.kill, Function.update_self]
        · simp only [Sys.kill, Function.update_of_ne hqp]
          exact h.fresh q hq
  | tick d => exact ⟨fun q pq hq => ⟨(h.procs q pq hq).locks, (h.procs q pq hq).pending⟩,
      h.owners, h.fresh⟩

/-- In every reachable state the histories are exact. -/
theorem exact_of_reachable {code : O → Prog D X R} {allowed : O → Prop} {db : D.Store}
    (h : Sys.Reachable code allowed db s) : AllExact s :=
  h.invariant
    { procs := fun _ _ hp => by cases hp
      owners := fun _ _ hl => by cases hl
      fresh := fun _ _ => rfl }
    fun _ _ _ _ hs hJ => hJ.step hs

/-! ## Clocks -/

/-- Transactions have begun, and stores were shown, at times that have passed. -/
structure Timely (s : Sys D X R O) : Prop where
  begun : ∀ pid p b, s.procs pid = some p → p.session.begun = some b → b.2 ≤ s.clock
  shown : ∀ pid p σ t, s.procs pid = some p → (.did .select (σ, t) : Obs D) ∈ p.history →
    t ≤ s.clock

/-- The transaction that a reply leaves open began now, or it was open before. -/
theorem reply_begun {σ : Session D} {st : Stmt D} {e : Reply D st}
    (he : s.reply? pid σ st = some e) {b : D.Store × Instant} (hb : e.session.begun = some b) :
    b = σ.start s.db s.clock ∨ σ.begun = some b := by
  have hsome : ∀ {b'}, some b' = some b → b' = σ.start s.db s.clock →
      b = σ.start s.db s.clock ∨ σ.begun = some b := by
    intro b' h h'
    cases h
    exact Or.inl h'
  cases st with
  | draw o => cases he
  | call c => cases he
  | commit =>
      simp only [Sys.reply?, Option.some.injEq] at he
      subst he
      cases hb
  | rollback =>
      simp only [Sys.reply?, Option.some.injEq] at he
      subst he
      cases hb
  | mark m =>
      simp only [Sys.reply?, Option.some.injEq] at he
      subst he
      exact Or.inr hb
  | select =>
      simp only [Sys.reply?, Option.some.injEq] at he
      subst he
      exact hsome hb rfl
  | write w =>
      simp only [Sys.reply?, Option.some.injEq] at he
      subst he
      exact hsome hb rfl
  | lock k nowait =>
      simp only [Sys.reply?] at he
      repeat' split at he
      all_goals first
        | (simp only [Option.some.injEq] at he; subst he; exact hsome hb rfl)
        | cases he
  | insert k w =>
      simp only [Sys.reply?] at he
      repeat' split at he
      all_goals first
        | (simp only [Option.some.injEq] at he; subst he; exact hsome hb rfl)
        | cases he

theorem Timely.start {p : Proc D X R O} (h : Timely s) (hp : s.procs pid = some p) :
    (p.session.start s.db s.clock).2 ≤ s.clock := by
  unfold Session.start
  cases hb : p.session.begun with
  | none => exact Nat.le_refl _
  | some b => exact h.begun pid p b hp hb

/-- A change of one process that lets no time pass. -/
theorem Timely.update {p' : Proc D X R O} {s' : Sys D X R O} (h : Timely s)
    (hprocs : s'.procs = Function.update s.procs pid (some p')) (hclock : s'.clock = s.clock)
    (hbegun : ∀ b, p'.session.begun = some b → b.2 ≤ s.clock)
    (hshown : ∀ σ t, (.did .select (σ, t) : Obs D) ∈ p'.history → t ≤ s.clock) : Timely s' := by
  rw [← hclock] at hbegun hshown
  constructor
  · intro q pq b hq hb
    rw [hprocs] at hq
    by_cases hqp : q = pid
    · subst hqp
      rw [Function.update_self, Option.some.injEq] at hq
      exact hbegun b (hq ▸ hb)
    · rw [Function.update_of_ne hqp] at hq
      rw [hclock]
      exact h.begun q pq b hq hb
  · intro q pq σ t hq hmem
    rw [hprocs] at hq
    by_cases hqp : q = pid
    · subst hqp
      rw [Function.update_self, Option.some.injEq] at hq
      exact hshown σ t (hq ▸ hmem)
    · rw [Function.update_of_ne hqp] at hq
      rw [hclock]
      exact h.shown q pq σ t hq hmem

theorem Timely.step {code : O → Prog D X R} {allowed : O → Prop} {s' : Sys D X R O} (h : Timely s)
    (hs : Sys.Moves code allowed s s') : Timely s' := by
  cases hs with
  | launch op hop =>
      exact h.update rfl rfl (fun b hb => by cases hb) fun σ t hmem => absurd hmem List.not_mem_nil
  | @accept pid p st k e hp hw hprog he =>
      refine h.update rfl rfl (fun b hb => ?_) fun σ t hmem => ?_
      · rcases reply_begun he hb with rfl | hb
        · exact h.start hp
        · exact h.begun pid p b hp hb
      · rcases List.mem_cons.1 hmem with heq | hmem
        · cases st with
          | select =>
              simp only [Sys.reply?, Option.some.injEq] at he
              subst he
              simp only [Obs.did.injEq, heq_eq_eq, true_and, Prod.mk.injEq] at heq
              rw [heq.2]
              exact h.start hp
          | _ => cases heq
        · exact h.shown pid p σ t hp hmem
  | @draw pid p o k v hp hw hprog =>
      refine h.update rfl rfl (fun b hb => h.begun pid p b hp hb) fun σ t hmem => ?_
      rcases List.mem_cons.1 hmem with heq | hmem
      · cases heq
      · exact h.shown pid p σ t hp hmem
  | @send pid p c k hp hw hprog =>
      refine h.update rfl rfl (fun b hb => h.begun pid p b hp hb) fun σ t hmem => ?_
      rcases List.mem_cons.1 hmem with heq | hmem
      · cases heq
      · exact h.shown pid p σ t hp hmem
  | @answer pid p c k a hp hw hprog =>
      refine h.update rfl rfl (fun b hb => h.begun pid p b hp hb) fun σ t hmem => ?_
      rcases List.mem_cons.1 hmem with heq | hmem
      · cases heq
      · exact h.shown pid p σ t hp hmem
  | @kill dead p hp =>
      constructor
      · intro q pq b hq hb
        by_cases hqp : q = dead
        · subst hqp
          simp only [Sys.kill, Function.update_self, reduceCtorEq] at hq
        · simp only [Sys.kill, Function.update_of_ne hqp] at hq
          exact h.begun q pq b hq hb
      · intro q pq σ t hq hmem
        by_cases hqp : q = dead
        · subst hqp
          simp only [Sys.kill, Function.update_self, reduceCtorEq] at hq
        · simp only [Sys.kill, Function.update_of_ne hqp] at hq
          exact h.shown q pq σ t hq hmem
  | tick d =>
      have hlater : ∀ n : Nat, n ≤ s.clock → n ≤ s.clock + d := fun n hn => by omega
      exact ⟨fun q pq b hq hb => hlater _ (h.begun q pq b hq hb),
        fun q pq σ t hq hmem => hlater _ (h.shown q pq σ t hq hmem)⟩

/-- No time stamp of a process lies in the future. -/
theorem timely_of_reachable {code : O → Prog D X R} {allowed : O → Prop} {db : D.Store}
    (h : Sys.Reachable code allowed db s) : Timely s :=
  h.invariant
    { begun := fun _ _ _ hp => by cases hp
      shown := fun _ _ _ _ hp => by cases hp }
    fun _ _ _ _ hs hJ => hJ.step hs

/-! ## Stores that were shown -/

section Shown

variable {V : Type} {row : D.Store → V} {touches : D.Write → Bool}

/-- Writes that `touches` does not name leave the row alone. -/
def Untouching (row : D.Store → V) (touches : D.Write → Bool) : Prop :=
  ∀ db n w, touches w = false → row (D.apply db n w) = row db

theorem row_foldl_of_untouched (hrow : Untouching row touches) (pending : List (Nat × D.Write))
    (db : D.Store) (h : (pending.map Prod.snd).any touches = false) :
    row (pending.foldl (fun s e => D.apply s e.1 e.2) db) = row db := by
  induction pending generalizing db with
  | nil => rfl
  | cons e rest ih =>
      simp only [List.map_cons, List.any_cons, Bool.or_eq_false_iff] at h
      rw [List.foldl_cons, ih _ h.2]
      exact hrow db e.1 e.2 h.1

/-- A session that has not touched the row sees it as committed. -/
theorem Exact.row_view {p : Proc D X R O} (h : Exact s pid p) (hrow : Untouching row touches)
    (hw : (writes p.history).any touches = false) : row (p.session.view s.db) = row s.db :=
  row_foldl_of_untouched hrow _ _ (by rw [h.pending]; exact hw)

/-- Each store that a process was shown while it held the key `k` still shows the row. -/
def Current (row : D.Store → V) (touches : D.Write → Bool) (k : D.Key) (s : Sys D X R O) : Prop :=
  ∀ pid p, s.procs pid = some p → ∀ e ∈ reads touches p.history, k ∈ e.2 → row e.1 = row s.db

/-- The row is at least what it was in each store that a process was shown. -/
def Grown (row : D.Store → V) (touches : D.Write → Bool) (Le : V → V → Prop) (s : Sys D X R O) :
    Prop :=
  ∀ pid p, s.procs pid = some p → ∀ σ ∈ shown touches p.history, Le (row σ) (row s.db)

/-- A reply shows the view of its process. -/
theorem reply_shows {p : Proc D X R O} {st : Stmt D} {e : Reply D st}
    (he : s.reply? pid p.session st = some e) {σ : D.Store}
    (hσ : (Obs.did st e.resp).seen? = some σ) : σ = p.session.view s.db := by
  cases st with
  | select =>
      simp only [Sys.reply?, Option.some.injEq] at he
      subst he
      simp only [Obs.seen?, Option.some.injEq] at hσ
      exact hσ.symm
  | lock k nowait =>
      simp only [Sys.reply?] at he
      split at he
      · split at he
        · simp only [Option.some.injEq] at he
          subst he
          simp only [Obs.seen?, Option.map_some, Option.some.injEq] at hσ
          exact hσ.symm
        · split at he
          · simp only [Option.some.injEq] at he
            subst he
            simp only [Obs.seen?, Option.map_none, reduceCtorEq] at hσ
          · cases he
      · simp only [Option.some.injEq] at he
        subst he
        simp only [Obs.seen?, Option.map_some, Option.some.injEq] at hσ
        exact hσ.symm
  | insert k w => cases hσ
  | write w => cases hσ
  | commit => cases hσ
  | rollback => cases hσ
  | draw o => cases hσ
  | call c => cases hσ
  | mark m => cases hσ

/-- The stores of a longer history: what was shown before, or what the last observation showed. -/
theorem mem_reads_cons {o : Obs D} {h : List (Obs D)} {e : D.Store × List D.Key}
    (he : e ∈ reads touches (o :: h)) :
    (e ∈ reads touches h ∧ ∀ k, k ∈ held h → k ∈ held (o :: h)) ∨
      ((writes h).any touches = false ∧ o.seen? = some e.1 ∧ e.2 = held (o :: h)) := by
  have hcases : ∀ keeps : ∀ k, k ∈ held h → k ∈ held (o :: h),
      e ∈ (if (writes h).any touches = true then []
        else (o.seen?.map fun σ => (σ, held (o :: h))).toList) ++ reads touches h →
      (e ∈ reads touches h ∧ ∀ k, k ∈ held h → k ∈ held (o :: h)) ∨
        ((writes h).any touches = false ∧ o.seen? = some e.1 ∧ e.2 = held (o :: h)) := by
    intro keeps hmem
    rcases List.mem_append.1 hmem with hnew | hold
    · split at hnew
      · exact absurd hnew List.not_mem_nil
      · next hclean =>
          rw [Bool.not_eq_true] at hclean
          rw [Option.mem_toList, Option.map_eq_some_iff] at hnew
          obtain ⟨σ, hσ, rfl⟩ := hnew
          exact Or.inr ⟨hclean, hσ, rfl⟩
    · exact Or.inl ⟨hold, keeps⟩
  cases o with
  | sent c => exact hcases (fun _ hk => hk) he
  | did st r =>
      cases st with
      | commit => exact absurd he List.not_mem_nil
      | rollback => exact absurd he List.not_mem_nil
      | lock k nowait =>
          refine hcases (fun k' hk => ?_) he
          show k' ∈ if _ then k :: held h else held h
          split
          · exact List.mem_cons_of_mem _ hk
          · exact hk
      | insert k w =>
          refine hcases (fun k' hk => ?_) he
          show k' ∈ if _ then k :: held h else held h
          split
          · exact List.mem_cons_of_mem _ hk
          · exact hk
      | select => exact hcases (fun _ hk => hk) he
      | write w => exact hcases (fun _ hk => hk) he
      | draw o => exact hcases (fun _ hk => hk) he
      | call c => exact hcases (fun _ hk => hk) he
      | mark m => exact hcases (fun _ hk => hk) he

/-- A key that was held when a store was shown is still held. -/
theorem held_of_mem_reads {h : List (Obs D)} {e : D.Store × List D.Key} (he : e ∈ reads touches h)
    {k : D.Key} (hk : k ∈ e.2) : k ∈ held h := by
  induction h with
  | nil => exact absurd he List.not_mem_nil
  | cons o h ih =>
      rcases mem_reads_cons he with ⟨hold, hkeeps⟩ | ⟨-, -, hkeys⟩
      · exact hkeeps k (ih hold)
      · exact hkeys ▸ hk

variable {code : O → Prog D X R} {allowed : O → Prop} {s' : Sys D X R O}

/-- The stores of a longer history: what was shown before, or what the last observation showed. -/
theorem mem_shown_cons {o : Obs D} {h : List (Obs D)} {σ : D.Store}
    (hσ : σ ∈ shown touches (o :: h)) :
    σ ∈ shown touches h ∨ ((writes h).any touches = false ∧ o.seen? = some σ) := by
  rcases List.mem_append.1 hσ with hnew | hold
  · split at hnew
    · exact absurd hnew List.not_mem_nil
    · next hclean =>
        rw [Bool.not_eq_true] at hclean
        exact Or.inr ⟨hclean, Option.mem_toList.1 hnew⟩
  · exact Or.inl hold

variable {code : O → Prog D X R} {allowed : O → Prop} {s' : Sys D X R O}

/-- What a step does to one process: nothing, with the store moved by the commit of a process at
most, or one more observation. A store that this observation shows agrees with the committed one on
the rows that the process has not touched. -/
inductive Observes (row : D.Store → V) (touches : D.Write → Bool) (s s' : Sys D X R O) (q : Nat)
    (pq : Proc D X R O) : Prop
  | new (hh : pq.history = [])
  | same (p : Proc D X R O) (hp : s.procs q = some p) (hh : pq.history = p.history)
      (hdb : s'.db = s.db ∨ ∃ pid p', pid ≠ q ∧ s.procs pid = some p' ∧
        s'.trace = s.event pid p' .commit :: s.trace)
  | more (p : Proc D X R O) (o : Obs D) (hp : s.procs q = some p) (hh : pq.history = o :: p.history)
      (hdb : s'.db = s.db)
      (hσ : ∀ σ, o.seen? = some σ → (writes p.history).any touches = false → row σ = row s.db)
  | commit (p : Proc D X R O) (hp : s.procs q = some p)
      (hh : pq.history = .did .commit () :: p.history)
      (htrace : s'.trace = s.event q p .commit :: s.trace)

theorem observes_of_moves (hx : AllExact s) (hrow : Untouching row touches)
    (hs : Sys.Moves code allowed s s') {q : Nat} {pq : Proc D X R O} (hq : s'.procs q = some pq) :
    Observes row touches s s' q pq := by
  -- A step of the process `pid` that only adds an observation that shows no store.
  have hnoted : ∀ {pid : Nat} {p p' : Proc D X R O} {o : Obs D}, s.procs pid = some p →
      s'.procs = Function.update s.procs pid (some p') → p'.history = o :: p.history →
      o.seen? = none → s'.db = s.db → Observes row touches s s' q pq := by
    intro pid p p' o hp hprocs hh hseen hdb
    rw [hprocs] at hq
    by_cases hqp : q = pid
    · subst hqp
      rw [Function.update_self, Option.some.injEq] at hq
      refine .more p o hp (hq ▸ hh) hdb fun σ hσ => ?_
      rw [hseen] at hσ
      cases hσ
    · rw [Function.update_of_ne hqp] at hq
      exact .same pq hq rfl (Or.inl hdb)
  cases hs with
  | launch op hop =>
      by_cases hqn : q = s.next
      · subst hqn
        simp only [Sys.launch, Function.update_self, Option.some.injEq] at hq
        exact .new (hq ▸ rfl)
      · simp only [Sys.launch, Function.update_of_ne hqn] at hq
        exact .same pq hq rfl (Or.inl rfl)
  | @accept pid p st k rep hp hw hprog hrep =>
      by_cases hqp : q = pid
      · subst hqp
        simp only [Sys.accept, Function.update_self, Option.some.injEq] at hq
        subst hq
        by_cases hst : st = .commit
        · subst hst
          exact .commit p hp rfl rfl
        · refine .more p _ hp rfl (Sys.reply_db hrep hst) fun σ hσ hclean => ?_
          rw [reply_shows hrep hσ]
          exact (hx.procs q p hp).row_view hrow hclean
      · simp only [Sys.accept, Function.update_of_ne hqp] at hq
        refine .same pq hq rfl ?_
        by_cases hst : st = .commit
        · subst hst
          exact Or.inr ⟨pid, p, fun h => hqp h.symm, hp, rfl⟩
        · exact Or.inl (Sys.reply_db hrep hst)
  | draw v hp hw hprog => exact hnoted hp rfl rfl rfl rfl
  | send hp hw hprog => exact hnoted hp rfl rfl rfl rfl
  | answer a hp hw hprog => exact hnoted hp rfl rfl rfl rfl
  | @kill pid p hp =>
      by_cases hqp : q = pid
      · subst hqp
        simp only [Sys.kill, Function.update_self, reduceCtorEq] at hq
      · simp only [Sys.kill, Function.update_of_ne hqp] at hq
        exact .same pq hq rfl (Or.inl rfl)
  | tick d => exact .same pq hq rfl (Or.inl rfl)

/-- A step keeps what a lock protects, when a commit changes the row only under its lock. -/
theorem Current.step {k : D.Key} (hx : AllExact s) (hrow : Untouching row touches)
    (hs : Sys.Moves code allowed s s')
    (hcommit : ∀ pid p, s.procs pid = some p → s'.trace = s.event pid p .commit :: s.trace →
      row s'.db ≠ row s.db → s.locks k = some pid)
    (h : Current row touches k s) : Current row touches k s' := by
  intro q pq hq e he hk
  cases observes_of_moves hx hrow hs hq with
  | new hh =>
      rw [hh] at he
      exact absurd he List.not_mem_nil
  | same p hp hh hdb =>
      rw [hh] at he
      rw [h q p hp e he hk]
      rcases hdb with hdb | ⟨pid, p', hne, hp', htrace⟩
      · rw [hdb]
      · by_contra hchanged
        have hmine := ((hx.procs q p hp).locks k).2 (held_of_mem_reads he hk)
        rw [hcommit pid p' hp' htrace fun heq => hchanged heq.symm, Option.some.injEq] at hmine
        exact hne hmine
  | more p o hp hh hdb hσ =>
      rw [hh] at he
      rw [hdb]
      rcases mem_reads_cons he with ⟨hold, -⟩ | ⟨hclean, hseen, -⟩
      · exact h q p hp e hold hk
      · exact hσ _ hseen hclean
  | commit p hp hh htrace =>
      rw [hh] at he
      exact absurd he List.not_mem_nil

/-- A step keeps lower bounds, when it moves the row upwards. -/
theorem Grown.step {Le : V → V → Prop}
    (htrans : ∀ {u v w}, Le u v → Le v w → Le u w) (hx : AllExact s)
    (hrow : Untouching row touches) (hs : Sys.Moves code allowed s s')
    (hup : Le (row s.db) (row s'.db)) (h : Grown row touches Le s) : Grown row touches Le s' := by
  intro q pq hq σ hσ
  cases observes_of_moves hx hrow hs hq with
  | new hh =>
      rw [hh] at hσ
      exact absurd hσ List.not_mem_nil
  | same p hp hh hdb => exact htrans (h q p hp σ (hh ▸ hσ)) hup
  | more p o hp hh hdb hnew =>
      rw [hh] at hσ
      rcases mem_shown_cons hσ with hold | ⟨hclean, hseen⟩
      · exact htrans (h q p hp σ hold) hup
      · rw [hnew σ hseen hclean]
        exact hup
  | commit p hp hh htrace =>
      rw [hh] at hσ
      rcases mem_shown_cons hσ with hold | ⟨-, hseen⟩
      · exact htrans (h q p hp σ hold) hup
      · cases hseen

end Shown

end HitlOps.Transaction
