import HitlOps.Transaction.Paths

/-!
# Primary keys

A table whose rows are only added by `insert` under the lock key of their identifier holds each
identifier once, whatever the interleaving: an inserter holds the key until its transaction ends,
and it only inserts what its view does not have.
-/

set_option autoImplicit false

namespace HitlOps.Transaction

variable {D : Schema} {X R O I : Type}

/-- A table with a primary key: the identifiers of the stored rows, the identifier that a write
adds, and the lock key of an identifier. -/
structure PrimaryKey (D : Schema) (I : Type) where
  ids : D.Store → List I
  new? : D.Write → Option I
  key : I → D.Key
  key_injective : Function.Injective key
  ids_apply : ∀ db n w, ids (D.apply db n w) = ids db ++ (new? w).toList
  present_iff : ∀ db i, D.present db (key i) = true ↔ i ∈ ids db

namespace PrimaryKey

variable (pk : PrimaryKey D I)

/-- The statement adds rows through the primary key only. -/
def Respects : Stmt D → Prop
  | .write w => pk.new? w = none
  | .insert k w => ∀ i, pk.new? w = some i → k = pk.key i
  | _ => True

/-- The identifiers that the open transaction has inserted. -/
def inserted (h : List (Obs D)) : List I := (History.writes h).filterMap pk.new?

variable {pk}

theorem ids_foldl (pending : List (Nat × D.Write)) (db : D.Store) :
    pk.ids (pending.foldl (fun s e => D.apply s e.1 e.2) db) =
      pk.ids db ++ (pending.map Prod.snd).filterMap pk.new? := by
  induction pending generalizing db with
  | nil => exact (List.append_nil _).symm
  | cons e rest ih =>
      rw [List.foldl_cons, ih, pk.ids_apply, List.append_assoc]
      rw [List.map_cons, List.filterMap_cons]
      cases pk.new? e.2 with
      | none => rfl
      | some i => rfl

/-- The identifiers that a process sees. -/
theorem ids_view {s : Sys D X R O} {pid : Nat} {p : Proc D X R O} (hx : Exact s pid p) :
    pk.ids (p.session.view s.db) = pk.ids s.db ++ pk.inserted p.history := by
  rw [Session.view, ids_foldl, hx.pending]
  rfl

/-- The key of an inserted identifier is held. -/
theorem held_of_inserted {W : Watch D} (hmust : ∀ h st, W.must h st → pk.Respects st)
    {h : List (Obs D)} (hk : W.Kept h) {i : I} (hi : i ∈ pk.inserted h) :
    pk.key i ∈ History.held h := by
  induction h with
  | nil => exact absurd hi List.not_mem_nil
  | cons o h ih =>
      cases o with
      | sent c => exact ih hk.2 hi
      | did st r =>
          cases st with
          | commit => exact absurd hi List.not_mem_nil
          | rollback => exact absurd hi List.not_mem_nil
          | write w =>
              have hnone : pk.new? w = none := hmust h _ hk.1
              change i ∈ (History.writes h ++ [w]).filterMap pk.new? at hi
              rw [List.filterMap_append, List.filterMap_cons, hnone] at hi
              simp only [List.filterMap_nil, List.append_nil] at hi
              exact ih hk.2 hi
          | insert k w =>
              cases r with
              | false => exact ih hk.2 hi
              | true =>
                  change i ∈ (History.writes h ++ [w]).filterMap pk.new? at hi
                  rw [List.filterMap_append] at hi
                  show _ ∈ k :: History.held h
                  rcases List.mem_append.1 hi with hi | hi
                  · exact List.mem_cons_of_mem _ (ih hk.2 hi)
                  · obtain ⟨w', hw', hnew⟩ := List.mem_filterMap.1 hi
                    rw [List.mem_singleton] at hw'
                    subst hw'
                    rw [hmust h _ hk.1 i hnew]
                    exact List.mem_cons_self
          | lock k nowait =>
              show _ ∈ if _ then k :: History.held h else History.held h
              split
              · exact List.mem_cons_of_mem _ (ih hk.2 hi)
              · exact ih hk.2 hi
          | select => exact ih hk.2 hi
          | draw o => exact ih hk.2 hi
          | call c => exact ih hk hi
          | mark m => exact ih hk.2 hi

/-- A row is inserted only when its key is free in the view. -/
theorem absent_of_insert {s : Sys D X R O} {pid : Nat} {σ : Session D} {k : D.Key} {w : D.Write}
    {e : Reply D (.insert k w)} (he : s.reply? pid σ (.insert k w) = some e) (hr : e.resp = true) :
    D.present (σ.view s.db) k = false := by
  cases hp : D.present (σ.view s.db) k with
  | false => rfl
  | true =>
      simp only [Sys.reply?, hp, if_true] at he
      split at he
      · split at he
        · simp only [Option.some.injEq] at he
          subst he
          cases hr
        · cases he
      · simp only [Option.some.injEq] at he
        subst he
        cases hr

/-- Each process sees every identifier once. -/
structure Distinct (pk : PrimaryKey D I) (s : Sys D X R O) : Prop where
  store : (pk.ids s.db).Nodup
  views : ∀ pid p, s.procs pid = some p → (pk.ids s.db ++ pk.inserted p.history).Nodup

section Step

variable {W : Watch D} {Post : O → Except X R → List (Obs D) → Prop} {s s' : Sys D X R O}

theorem Distinct.update (h : pk.Distinct s) {pid : Nat} {p' : Proc D X R O}
    (hprocs : s'.procs = Function.update s.procs pid (some p')) (hdb : s'.db = s.db)
    (hp' : (pk.ids s.db ++ pk.inserted p'.history).Nodup) : pk.Distinct s' := by
  refine ⟨hdb ▸ h.store, fun q pq hq => ?_⟩
  rw [hdb]
  rw [hprocs] at hq
  by_cases hqp : q = pid
  · subst hqp
    rw [Function.update_self, Option.some.injEq] at hq
    exact hq ▸ hp'
  · rw [Function.update_of_ne hqp] at hq
    exact h.views q pq hq

/-- The commit of `pid` adds identifiers that no other process has inserted. -/
theorem Distinct.commit (hmust : ∀ h st, W.must h st → pk.Respects st) (hx : AllExact s)
    (hf : W.Followed Post s) (h : pk.Distinct s) {pid : Nat} {p p' : Proc D X R O}
    (hp : s.procs pid = some p) (hprocs : s'.procs = Function.update s.procs pid (some p'))
    (hdb : s'.db = p.session.view s.db) (hp' : pk.inserted p'.history = []) : pk.Distinct s' := by
  have hids : pk.ids s'.db = pk.ids s.db ++ pk.inserted p.history := by
    rw [hdb, ids_view (hx.procs pid p hp)]
  have hstore : (pk.ids s'.db).Nodup := hids ▸ h.views pid p hp
  refine ⟨hstore, fun q pq hq => ?_⟩
  rw [hprocs] at hq
  by_cases hqp : q = pid
  · subst hqp
    rw [Function.update_self, Option.some.injEq] at hq
    rw [← hq, hp', List.append_nil]
    exact hstore
  · rw [Function.update_of_ne hqp] at hq
    have hview := h.views q pq hq
    refine List.nodup_append.2 ⟨hstore, (List.nodup_append.1 hview).2.1, fun i hi j hj hij => ?_⟩
    subst hij
    rw [hids] at hi
    rcases List.mem_append.1 hi with hi | hi
    · exact (List.nodup_append.1 hview).2.2 i hi i hj rfl
    · -- Both processes would hold the key of the identifier.
      have hmine := ((hx.procs pid p hp).locks _).2
        (held_of_inserted hmust (hf.procs pid p hp).1 hi)
      have hother := ((hx.procs q pq hq).locks _).2
        (held_of_inserted hmust (hf.procs q pq hq).1 hj)
      rw [hmine, Option.some.injEq] at hother
      exact hqp hother.symm

theorem Distinct.step {code : O → Prog D X R} {allowed : O → Prop}
    (hmust : ∀ h st, W.must h st → pk.Respects st) (hx : AllExact s) (hf : W.Followed Post s)
    (hs : Sys.Moves code allowed s s') (hf' : W.Followed Post s') (h : pk.Distinct s) :
    pk.Distinct s' := by
  cases hs with
  | launch op hop =>
      refine h.update rfl rfl ?_
      show (pk.ids s.db ++ []).Nodup
      rw [List.append_nil]
      exact h.store
  | draw v hp hw hprog =>
      have hview := h.views _ _ hp
      exact h.update rfl rfl hview
  | send hp hw hprog =>
      have hview := h.views _ _ hp
      exact h.update rfl rfl hview
  | answer a hp hw hprog =>
      have hview := h.views _ _ hp
      exact h.update rfl rfl hview
  | @kill pid p hp =>
      refine ⟨h.store, fun q pq hq => ?_⟩
      by_cases hqp : q = pid
      · subst hqp
        simp only [Sys.kill, Function.update_self, reduceCtorEq] at hq
      · simp only [Sys.kill, Function.update_of_ne hqp] at hq
        exact h.views q pq hq
  | tick d => exact ⟨h.store, h.views⟩
  | @accept pid p st k e hp hw hprog he =>
      have hview := h.views pid p hp
      cases st with
      | commit =>
          simp only [Sys.reply?, Option.some.injEq] at he
          subst he
          exact h.commit hmust hx hf hp rfl rfl rfl
      | rollback =>
          refine h.update rfl (Sys.reply_db he (by rintro ⟨⟩)) ?_
          show (pk.ids s.db ++ []).Nodup
          rw [List.append_nil]
          exact h.store
      | write w =>
          refine h.update rfl (Sys.reply_db he (by rintro ⟨⟩)) ?_
          have hkept := (hf'.procs pid _ (Function.update_self _ _ _)).1
          have hnone : pk.new? w = none := hmust _ _ hkept.1
          show (pk.ids s.db ++ (History.writes p.history ++ [w]).filterMap pk.new?).Nodup
          rw [List.filterMap_append, List.filterMap_cons, hnone, List.filterMap_nil,
            List.append_nil]
          exact hview
      | insert key w =>
          refine h.update rfl (Sys.reply_db he (by rintro ⟨⟩)) ?_
          have hkept := (hf'.procs pid _ (Function.update_self _ _ _)).1
          cases hr : e.resp with
          | false => exact hview
          | true =>
              show (pk.ids s.db ++ (History.writes p.history ++ [w]).filterMap pk.new?).Nodup
              rw [List.filterMap_append, ← List.append_assoc]
              cases hnew : pk.new? w with
              | none =>
                  rw [List.filterMap_cons, hnew, List.filterMap_nil, List.append_nil]
                  exact hview
              | some i =>
                  -- The identifier was absent from the view, and the lock on it keeps the others out.
                  have habsent := absent_of_insert he hr
                  rw [show key = pk.key i from hmust _ _ hkept.1 i hnew] at habsent
                  have hfresh : i ∉ pk.ids s.db ++ pk.inserted p.history := by
                    rw [← ids_view (hx.procs pid p hp), ← pk.present_iff, habsent]
                    exact Bool.false_ne_true
                  rw [List.filterMap_cons, hnew, List.filterMap_nil]
                  refine List.nodup_append.2 ⟨hview, List.pairwise_singleton _ i, fun j hj i' hi' => ?_⟩
                  rw [List.mem_singleton] at hi'
                  rintro rfl
                  exact hfresh (hi' ▸ hj)
      | select => exact h.update rfl (Sys.reply_db he (by rintro ⟨⟩)) hview
      | lock key nowait => exact h.update rfl (Sys.reply_db he (by rintro ⟨⟩)) hview
      | mark m => exact h.update rfl (Sys.reply_db he (by rintro ⟨⟩)) hview
      | draw o => cases he
      | call c => cases he

/-- In every reachable state the stored identifiers are distinct. -/
theorem distinct_of_reachable {code : O → Prog D X R} {allowed : O → Prop} {db : D.Store}
    (hmust : ∀ h st, W.must h st → pk.Respects st)
    (hfollowed : ∀ s, Sys.Reachable code allowed db s → W.Followed Post s)
    (hdb : (pk.ids db).Nodup) (h : Sys.Reachable code allowed db s) : pk.Distinct s :=
  h.invariant ⟨hdb, fun _ _ hp => by cases hp⟩ fun s s' hr hr' hs hJ =>
    hJ.step hmust (exact_of_reachable hr) (hfollowed s hr) hs (hfollowed s' hr')

end Step

end PrimaryKey

end HitlOps.Transaction
