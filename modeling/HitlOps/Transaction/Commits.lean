import HitlOps.Transaction.Paths

/-!
# What a process has committed

`committed` collects the writes of the ended transactions of a process. `During` says that a history
continues another one within one transaction; `Kept.split` finds, for a pending write, the history
before which its obligation was met.

`Watch.growing` is a watch for stores that only move upwards: whatever a process is shown is at least
what it was shown before.
-/

set_option autoImplicit false

namespace HitlOps.Transaction

variable {D : Schema} {X R O : Type}

/-- The observation ends the open transaction. -/
def Obs.closes : Obs D → Bool
  | .did .commit _ => true
  | .did .rollback _ => true
  | _ => false

namespace History

/-- The writes that the process has committed, oldest first. -/
def committed : List (Obs D) → List D.Write
  | [] => []
  | .did .commit _ :: h => committed h ++ writes h
  | _ :: h => committed h

end History

open History

/-! ## Within one transaction -/

/-- The second history continues the first one within one transaction. -/
inductive During : List (Obs D) → List (Obs D) → Prop
  | refl (h : List (Obs D)) : During h h
  | more {h' h : List (Obs D)} (o : Obs D) (ho : o.closes = false) (hd : During h' h) :
      During h' (o :: h)

section During

variable {h h' : List (Obs D)} {touches : D.Write → Bool}

theorem writes_prefix_cons {o : Obs D} (ho : o.closes = false) : writes h <+: writes (o :: h) := by
  cases o with
  | sent c => exact List.prefix_refl _
  | did st r =>
      cases st with
      | commit => cases ho
      | rollback => cases ho
      | write w => exact List.prefix_append _ _
      | insert k w =>
          show writes h <+: if r = true then writes h ++ [w] else writes h
          split
          · exact List.prefix_append _ _
          · exact List.prefix_refl _
      | _ => exact List.prefix_refl _

theorem held_cons {o : Obs D} (ho : o.closes = false) {k : D.Key} (hk : k ∈ held h) :
    k ∈ held (o :: h) := by
  cases o with
  | sent c => exact hk
  | did st r =>
      cases st with
      | commit => cases ho
      | rollback => cases ho
      | lock k' nowait =>
          show k ∈ if _ then k' :: held h else held h
          split
          · exact List.mem_cons_of_mem _ hk
          · exact hk
      | insert k' w =>
          show k ∈ if _ then k' :: held h else held h
          split
          · exact List.mem_cons_of_mem _ hk
          · exact hk
      | _ => exact hk

theorem mem_reads_of_cons {o : Obs D} (ho : o.closes = false) {e : D.Store × List D.Key}
    (he : e ∈ reads touches h) : e ∈ reads touches (o :: h) := by
  cases o with
  | sent c => exact List.mem_append_right _ he
  | did st r =>
      cases st with
      | commit => cases ho
      | rollback => cases ho
      | _ => exact List.mem_append_right _ he

theorem committed_cons_of_open {o : Obs D} (ho : o.closes = false) :
    committed (o :: h) = committed h := by
  cases o with
  | sent c => rfl
  | did st r =>
      cases st with
      | commit => cases ho
      | rollback => cases ho
      | _ => rfl

theorem During.trans {h'' : List (Obs D)} (hd : During h' h) (hd' : During h h'') :
    During h' h'' := by
  induction hd' with
  | refl => exact hd
  | more o ho _ ih => exact ih.more o ho

theorem During.suffix (hd : During h' h) : h' <:+ h := by
  induction hd with
  | refl => exact List.suffix_refl h'
  | more o ho hd ih => exact ih.trans (List.suffix_cons _ _)

theorem During.writes (hd : During h' h) : History.writes h' <+: History.writes h := by
  induction hd with
  | refl => exact List.prefix_refl _
  | more o ho hd ih => exact ih.trans (writes_prefix_cons ho)

theorem During.held (hd : During h' h) {k : D.Key} (hk : k ∈ History.held h') :
    k ∈ History.held h := by
  induction hd with
  | refl => exact hk
  | more o ho hd ih => exact held_cons ho ih

theorem During.reads (hd : During h' h) {e : D.Store × List D.Key}
    (he : e ∈ History.reads touches h') : e ∈ History.reads touches h := by
  induction hd with
  | refl => exact he
  | more o ho hd ih => exact mem_reads_of_cons ho ih

theorem During.committed (hd : During h' h) :
    History.committed h = History.committed h' := by
  induction hd with
  | refl => rfl
  | more o ho hd ih => rw [committed_cons_of_open ho, ih]

/-- What was shown stays shown. -/
theorem mem_shown_of_suffix (hs : h' <:+ h) {σ : D.Store} (hσ : σ ∈ shown touches h') :
    σ ∈ shown touches h := by
  obtain ⟨t, rfl⟩ := hs
  induction t with
  | nil => exact hσ
  | cons o t ih => exact List.mem_append_right _ ih

/-- What was committed stays committed. -/
theorem committed_prefix_of_suffix (hs : h' <:+ h) : committed h' <+: committed h := by
  obtain ⟨t, rfl⟩ := hs
  induction t with
  | nil => exact List.prefix_refl _
  | cons o t ih =>
      cases ho : o.closes with
      | false =>
          rw [List.cons_append, committed_cons_of_open ho]
          exact ih
      | true =>
          cases o with
          | sent c => cases ho
          | did st r =>
              cases st with
              | commit => exact ih.trans (List.prefix_append _ _)
              | rollback => exact ih
              | _ => cases ho

/-- A store of the open transaction was shown. -/
theorem mem_shown_of_reads {e : D.Store × List D.Key} (he : e ∈ reads touches h) :
    e.1 ∈ shown touches h := by
  induction h with
  | nil => exact absurd he List.not_mem_nil
  | cons o h ih =>
      rcases mem_reads_cons he with ⟨hold, -⟩ | ⟨hclean, hseen, -⟩
      · exact List.mem_append_right _ (ih hold)
      · refine List.mem_append_left _ ?_
        rw [hclean, if_neg Bool.false_ne_true, Option.mem_toList]
        exact hseen

end During

/-- The obligation of a pending write was met after the writes before it. -/
theorem Watch.Kept.split {W : Watch D} {h : List (Obs D)} (hk : W.Kept h) :
    ∀ {l r : List D.Write} {w : D.Write}, History.writes h = l ++ w :: r →
      ∃ h', History.writes h' = l ∧ W.Kept h' ∧ During h' h ∧
        (W.must h' (.write w) ∨ ∃ k, W.must h' (.insert k w)) := by
  -- The write `v` is the last one, or it comes after the one in question.
  have hlast : ∀ {ws l r : List D.Write} {v w : D.Write}, ws ++ [v] = l ++ w :: r →
      (ws = l ∧ v = w) ∨ ∃ r', ws = l ++ w :: r' := by
    intro ws l r v w heq
    rcases List.eq_nil_or_concat r with rfl | ⟨r', u, rfl⟩
    · obtain ⟨hws, hv⟩ := List.append_inj' heq rfl
      exact Or.inl ⟨hws, List.singleton_inj.1 hv⟩
    · rw [List.concat_eq_append, ← List.cons_append, ← List.append_assoc] at heq
      exact Or.inr ⟨r', (List.append_inj' heq rfl).1⟩
  induction h with
  | nil =>
      intro l r w heq
      exact absurd (congrArg List.length heq) (by simp [History.writes])
  | cons o h ih =>
      -- An observation that adds no write.
      have hskip : W.Kept h → o.closes = false → History.writes (o :: h) = History.writes h →
          ∀ {l r : List D.Write} {w : D.Write}, History.writes (o :: h) = l ++ w :: r →
            ∃ h', History.writes h' = l ∧ W.Kept h' ∧ During h' (o :: h) ∧
              (W.must h' (.write w) ∨ ∃ k, W.must h' (.insert k w)) := by
        intro hk' ho hsame l r w heq
        obtain ⟨h', hl, hkept, hd, hmust⟩ := ih hk' (hsame ▸ heq)
        exact ⟨h', hl, hkept, hd.more o ho, hmust⟩
      -- An observation that adds the write `v`.
      have hadd : ∀ {v : D.Write}, W.Kept h → o.closes = false →
          History.writes (o :: h) = History.writes h ++ [v] →
          (W.must h (.write v) ∨ ∃ k, W.must h (.insert k v)) →
          ∀ {l r : List D.Write} {w : D.Write}, History.writes (o :: h) = l ++ w :: r →
            ∃ h', History.writes h' = l ∧ W.Kept h' ∧ During h' (o :: h) ∧
              (W.must h' (.write w) ∨ ∃ k, W.must h' (.insert k w)) := by
        intro v hk' ho hws hv l r w heq
        rw [hws] at heq
        rcases hlast heq with ⟨hl, rfl⟩ | ⟨r', hr'⟩
        · exact ⟨h, hl, hk', (During.refl h).more o ho, hv⟩
        · obtain ⟨h', hl, hkept, hd, hmust⟩ := ih hk' hr'
          exact ⟨h', hl, hkept, hd.more o ho, hmust⟩
      intro l r w heq
      cases o with
      | sent c => exact hskip hk.2 rfl rfl heq
      | did st res =>
          cases st with
          | commit => exact absurd (congrArg List.length heq) (by simp [History.writes])
          | rollback => exact absurd (congrArg List.length heq) (by simp [History.writes])
          | write v => exact hadd hk.2 rfl rfl (Or.inl hk.1) heq
          | insert key v =>
              cases res with
              | true => exact hadd hk.2 rfl rfl (Or.inr ⟨key, hk.1⟩) heq
              | false => exact hskip hk.2 rfl rfl heq
          | call c => exact hskip hk rfl rfl heq
          | select => exact hskip hk.2 rfl rfl heq
          | lock key nowait => exact hskip hk.2 rfl rfl heq
          | draw d => exact hskip hk.2 rfl rfl heq
          | mark m => exact hskip hk.2 rfl rfl heq

/-! ## Commits -/

/-- What a step does to the committed store: nothing, or a process commits its view. -/
theorem Sys.Moves.db_cases {code : O → Prog D X R} {allowed : O → Prop} {s s' : Sys D X R O}
    (hs : Sys.Moves code allowed s s') :
    (s'.db = s.db ∧ (s'.trace = s.trace ∨
      ∃ pid p c, s'.trace = s.event pid p (.call c) :: s.trace)) ∨
    ∃ pid p, s.procs pid = some p ∧ s'.db = p.session.view s.db ∧
      s'.trace = s.event pid p .commit :: s.trace := by
  cases hs with
  | @accept pid p st k e hp hw hprog he =>
      cases st with
      | commit =>
          simp only [Sys.reply?, Option.some.injEq] at he
          subst he
          exact Or.inr ⟨pid, p, hp, rfl, rfl⟩
      | _ => exact Or.inl ⟨Sys.reply_db he (by rintro ⟨⟩), Or.inl rfl⟩
  | launch op hop => exact Or.inl ⟨rfl, Or.inl rfl⟩
  | draw v hp hw hprog => exact Or.inl ⟨rfl, Or.inl rfl⟩
  | @send pid p c k hp hw hprog => exact Or.inl ⟨rfl, Or.inr ⟨pid, p, c, rfl⟩⟩
  | answer a hp hw hprog => exact Or.inl ⟨rfl, Or.inl rfl⟩
  | kill hp => exact Or.inl ⟨rfl, Or.inl rfl⟩
  | tick d => exact Or.inl ⟨rfl, Or.inl rfl⟩

/-- A commit of the trace leaves the view of its process. -/
theorem Sys.Moves.db_of_commit {code : O → Prog D X R} {allowed : O → Prop} {s s' : Sys D X R O}
    (hs : Sys.Moves code allowed s s') {pid : Nat} {p : Proc D X R O}
    (ht : s'.trace = s.event pid p .commit :: s.trace) : s'.db = p.session.view s.db := by
  rcases hs.db_cases with ⟨-, hsame | ⟨q, pq, c, hcall⟩⟩ | ⟨q, pq, -, hdb, htrace⟩
  · have hlength := congrArg List.length (ht.symm.trans hsame)
    rw [List.length_cons] at hlength
    omega
  · have hact : Act.commit = Act.call c :=
      congrArg Event.act (List.cons.inj (ht.symm.trans hcall)).1
    cases hact
  · have hsession : p.session = pq.session :=
      congrArg Event.session (List.cons.inj (ht.symm.trans htrace)).1
    rw [hsession]
    exact hdb

/-! ## Committed writes in the store -/

/-- The committed writes of every process left what `P` says in the store. -/
def Landed (P : D.Write → D.Store → Prop) (s : Sys D X R O) : Prop :=
  ∀ pid p, s.procs pid = some p → ∀ w ∈ committed p.history, P w s.db

variable {code : O → Prog D X R} {allowed : O → Prop} {s s' : Sys D X R O}

/-- A step keeps it, when `P` is stable and a commit leaves it for the writes at hand. -/
theorem Landed.step {P : D.Write → D.Store → Prop} (hs : Sys.Moves code allowed s s')
    (hstable : ∀ w, P w s.db → P w s'.db)
    (hcommit : ∀ pid p, s.procs pid = some p → s'.trace = s.event pid p .commit :: s.trace →
      ∀ w ∈ writes p.history, P w s'.db)
    (h : Landed P s) : Landed P s' := by
  -- A step of the process `pid` after which it has committed what it had before.
  have hupdate : ∀ {pid : Nat} {p p' : Proc D X R O}, s.procs pid = some p →
      s'.procs = Function.update s.procs pid (some p') →
      (∀ w ∈ committed p'.history, P w s'.db) → Landed P s' := by
    intro pid p p' hp hprocs hp' q pq hq
    rw [hprocs] at hq
    by_cases hqp : q = pid
    · subst hqp
      rw [Function.update_self, Option.some.injEq] at hq
      exact hq ▸ hp'
    · rw [Function.update_of_ne hqp] at hq
      exact fun w hw => hstable w (h q pq hq w hw)
  have hkeep : ∀ {pid : Nat} {p : Proc D X R O}, s.procs pid = some p →
      ∀ w ∈ committed p.history, P w s'.db := fun hp w hw => hstable w (h _ _ hp w hw)
  cases hs with
  | launch op hop =>
      intro q pq hq w hw
      by_cases hqn : q = s.next
      · subst hqn
        simp only [Sys.launch, Function.update_self, Option.some.injEq] at hq
        subst hq
        exact absurd hw List.not_mem_nil
      · simp only [Sys.launch, Function.update_of_ne hqn] at hq
        exact hstable w (h q pq hq w hw)
  | @accept pid p st k e hp hw hprog he =>
      refine hupdate hp rfl fun w hmem => ?_
      cases st with
      | commit =>
          rcases List.mem_append.1 hmem with hold | hnew
          · exact hkeep hp w hold
          · exact hcommit pid p hp rfl w hnew
      | draw o => cases he
      | call c => cases he
      | _ => exact hkeep hp w hmem
  | draw v hp hw hprog => exact hupdate hp rfl fun w hw' => hkeep hp w hw'
  | send hp hw hprog => exact hupdate hp rfl fun w hw' => hkeep hp w hw'
  | answer a hp hw hprog => exact hupdate hp rfl fun w hw' => hkeep hp w hw'
  | @kill pid p hp =>
      intro q pq hq w hw
      by_cases hqp : q = pid
      · subst hqp
        simp only [Sys.kill, Function.update_self, reduceCtorEq] at hq
      · simp only [Sys.kill, Function.update_of_ne hqp] at hq
        exact hstable w (h q pq hq w hw)
  | tick d => exact fun q pq hq w hw => hstable w (h q pq hq w hw)

/-! ## Events -/

section Events

variable {db : D.Store}

/-- What holds of every process holds of every event. -/
theorem event_of_procs {Q : O → List (Obs D) → D.Store → Prop}
    (hQ : ∀ s : Sys D X R O, Sys.Reachable code allowed db s → ∀ pid p, s.procs pid = some p →
      Q p.op p.history s.db)
    (h : Sys.Reachable code allowed db s) : ∀ e ∈ s.trace, Q e.op e.history e.db := by
  refine h.invariant (J := fun s => ∀ e ∈ s.trace, Q e.op e.history e.db)
    (fun e he => absurd he List.not_mem_nil) fun s s' hr _ hs hJ e he => ?_
  cases hs with
  | @accept pid p st k reply hp hw hprog hreply =>
      cases st with
      | commit =>
          rcases List.mem_cons.1 he with rfl | he
          · exact hQ s hr pid p hp
          · exact hJ e he
      | _ => exact hJ e he
  | @send pid p c k hp hw hprog =>
      rcases List.mem_cons.1 he with rfl | he
      · exact hQ s hr pid p hp
      · exact hJ e he
  | launch op hop => exact hJ e he
  | draw v hp hw hprog => exact hJ e he
  | answer a hp hw hprog => exact hJ e he
  | kill hp => exact hJ e he
  | tick d => exact hJ e he

/-- What the process of an event had been shown is below the store that the event found. -/
theorem shown_of_event {V : Type} {row : D.Store → V} {touches : D.Write → Bool} {Le : V → V → Prop}
    (hgrown : ∀ s : Sys D X R O, Sys.Reachable code allowed db s → Grown row touches Le s)
    (h : Sys.Reachable code allowed db s) :
    ∀ e ∈ s.trace, ∀ σ ∈ shown touches e.history, Le (row σ) (row e.db) :=
  event_of_procs (Q := fun _ h db => ∀ σ ∈ shown touches h, Le (row σ) (row db)) hgrown h

/-- What the process of an event had read under a lock is what the event found. -/
theorem read_of_event {V : Type} {row : D.Store → V} {touches : D.Write → Bool} {k : D.Key}
    (hcurrent : ∀ s : Sys D X R O, Sys.Reachable code allowed db s → Current row touches k s)
    (h : Sys.Reachable code allowed db s) :
    ∀ e ∈ s.trace, ∀ r ∈ reads touches e.history, k ∈ r.2 → row r.1 = row e.db :=
  event_of_procs (Q := fun _ h db => ∀ r ∈ reads touches h, k ∈ r.2 → row r.1 = row db) hcurrent h

/-- An order that every step respects relates the store of an event to the present one. -/
theorem event_le {L : D.Store → D.Store → Prop}
    (htrans : ∀ {u v w}, L u v → L v w → L u w)
    (hstep : ∀ s s' : Sys D X R O, Sys.Reachable code allowed db s →
      Sys.Reachable code allowed db s' → Sys.Moves code allowed s s' → L s.db s'.db)
    (h : Sys.Reachable code allowed db s) : ∀ e ∈ s.trace, L e.db s.db := by
  refine h.invariant (J := fun s => ∀ e ∈ s.trace, L e.db s.db)
    (fun e he => absurd he List.not_mem_nil) fun s s' hr hr' hs hJ e he => ?_
  have hle := hstep s s' hr hr' hs
  have hnew : e ∈ s.trace ∨ e.db = s.db := by
    rcases hs.db_cases with ⟨-, htrace | ⟨pid, p, c, htrace⟩⟩ | ⟨pid, p, -, -, htrace⟩
    · exact Or.inl (htrace ▸ he)
    · rw [htrace] at he
      exact (List.mem_cons.1 he).symm.imp_right (congrArg Event.db)
    · rw [htrace] at he
      exact (List.mem_cons.1 he).symm.imp_right (congrArg Event.db)
  rcases hnew with hold | hdb
  · exact htrans (hJ e hold) hle
  · rw [hdb]
    exact hle

end Events

/-! ## Stores that grow -/

/-- A lock statement that waits is granted. -/
def Granted : (st : Stmt D) → st.Resp → Prop
  | .lock _ false, none => False
  | _, _ => True

/-- The watch for stores with the property `G` that only move upwards. -/
def Watch.growing (G : D.Store → Prop) (Le : D.Store → D.Store → Prop)
    (must : List (Obs D) → Stmt D → Prop) : Watch D where
  may := fun h st r => Granted st r ∧ ∀ σ, (Obs.did st r).seen? = some σ →
    G σ ∧ ∀ σ₀ ∈ shown (fun _ => true) h, Le σ₀ σ
  must := must

theorem granted_of_reply {pid : Nat} {σ : Session D} {st : Stmt D} {e : Reply D st}
    (he : s.reply? pid σ st = some e) : Granted st e.resp := by
  cases st with
  | lock k nowait =>
      cases nowait with
      | true => trivial
      | false =>
          simp only [Sys.reply?] at he
          split at he
          · split at he
            · simp only [Option.some.injEq] at he
              subst he
              trivial
            · cases he
          · simp only [Option.some.injEq] at he
            subst he
            trivial
  | _ => trivial

section Growing

variable {Le : D.Store → D.Store → Prop} {db : D.Store}

theorem le_view (hrefl : ∀ σ, Le σ σ) (htrans : ∀ {u v w}, Le u v → Le v w → Le u w)
    (happly : ∀ σ n w, Le σ (D.apply σ n w)) (σ : Session D) (db : D.Store) :
    Le db (σ.view db) := by
  obtain ⟨begun, pending⟩ := σ
  show Le db (pending.foldl (fun s e => D.apply s e.1 e.2) db)
  induction pending generalizing db with
  | nil => exact hrefl db
  | cons e rest ih => exact htrans (happly db e.1 e.2) (ih (D.apply db e.1 e.2))

/-- A step moves the store upwards. -/
theorem Sys.Moves.le (hrefl : ∀ σ, Le σ σ) (htrans : ∀ {u v w}, Le u v → Le v w → Le u w)
    (happly : ∀ σ n w, Le σ (D.apply σ n w)) (hs : Sys.Moves code allowed s s') :
    Le s.db s'.db := by
  rcases hs.db_cases with ⟨hdb, -⟩ | ⟨pid, p, -, hdb, -⟩
  · rw [hdb]
    exact hrefl s.db
  · rw [hdb]
    exact le_view hrefl htrans happly p.session s.db

/-- Whatever a process was shown before it wrote is below the committed store. -/
theorem grown_of_reachable (hrefl : ∀ σ, Le σ σ) (htrans : ∀ {u v w}, Le u v → Le v w → Le u w)
    (happly : ∀ σ n w, Le σ (D.apply σ n w)) (h : Sys.Reachable code allowed db s) :
    Grown id (fun _ => true) Le s :=
  h.invariant (fun _ _ hp => by cases hp) fun s s' hr _ hs hJ =>
    hJ.step htrans (exact_of_reachable hr) (fun _ _ _ hw => by cases hw) hs
      (hs.le hrefl htrans happly)

/-- The programs that rely on growing stores meet their obligations along every run. -/
theorem Watch.followed_growing {G : D.Store → Prop} {must : List (Obs D) → Stmt D → Prop}
    {Post : O → Except X R → List (Obs D) → Prop}
    (hrefl : ∀ σ, Le σ σ) (htrans : ∀ {u v w}, Le u v → Le v w → Le u w)
    (happly : ∀ σ n w, Le σ (D.apply σ n w))
    (hview : ∀ s : Sys D X R O, Sys.Reachable code allowed db s → ∀ pid p, s.procs pid = some p →
      G (p.session.view s.db))
    (hcode : ∀ op, allowed op → (Watch.growing G Le must).wp (code op) (Post op) [])
    (h : Sys.Reachable code allowed db s) : (Watch.growing G Le must).Followed Post s := by
  refine h.invariant (Watch.followed_initial db) fun s s' hr _ hs hJ => ?_
  have hgrown := grown_of_reachable hrefl htrans happly hr
  refine hJ.step hcode ?_ ?_ ?_ hs
  · exact fun h o v => ⟨trivial, fun σ hσ => by cases hσ⟩
  · exact fun h c a => ⟨trivial, fun σ hσ => by cases hσ⟩
  · intro pid p st e hp he
    refine ⟨granted_of_reply he, fun σ hσ => ?_⟩
    rw [reply_shows he hσ]
    refine ⟨hview s hr pid p hp, fun σ₀ hσ₀ => ?_⟩
    exact htrans (hgrown pid p hp σ₀ hσ₀) (le_view hrefl htrans happly p.session s.db)

end Growing

end HitlOps.Transaction
