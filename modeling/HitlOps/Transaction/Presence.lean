import Mathlib.Logic.Relation
import HitlOps.Transaction.Commits
import HitlOps.Transaction.Unique

/-!
# What a process was shown first, and what it was refused

A process that starts after a commit is shown the rows of that commit by its first statement;
`opening` is the store that it was shown. A row whose insert was refused is there, and it stays.
`Watch.reading` is the watch of programs that rely on the refusals, and on a property of the
committed stores that every commit keeps.
-/

set_option autoImplicit false

namespace HitlOps.Transaction

variable {D : Schema} {X R O : Type}

namespace History

/-- The store that the first statement of the process was shown. -/
def opening (h : List (Obs D)) : Option D.Store := h.getLast?.bind Obs.seen?

/-- The keys whose insert was refused to the open transaction. -/
def refused : List (Obs D) → List D.Key
  | [] => []
  | .did (.insert k _) r :: h => if r = true then refused h else k :: refused h
  | .did .commit _ :: _ => []
  | .did .rollback _ :: _ => []
  | _ :: h => refused h

theorem opening_cons (o o' : Obs D) (h : List (Obs D)) : opening (o :: o' :: h) = opening (o' :: h) :=
  congrArg (fun l : Option (Obs D) => l.bind Obs.seen?) List.getLast?_cons_cons

theorem opening_cons_of_ne {o : Obs D} {h : List (Obs D)} (hh : h ≠ []) :
    opening (o :: h) = opening h := by
  cases h with
  | nil => exact absurd rfl hh
  | cons o' h => exact opening_cons o o' h

/-- The store that was shown first stays the same. -/
theorem opening_of_suffix {h h' : List (Obs D)} (hs : h <:+ h') (hh : h ≠ []) :
    opening h' = opening h := by
  obtain ⟨t, rfl⟩ := hs
  induction t with
  | nil => rfl
  | cons o t ih =>
      rw [List.cons_append, opening_cons_of_ne, ih]
      exact fun h => hh (List.append_eq_nil_iff.1 h).2

end History

open History

variable {code : O → Prog D X R} {allowed : O → Prop} {s s' : Sys D X R O} {db : D.Store}

/-- A session without writes sees the committed store. -/
theorem Session.view_of_no_writes {σ : Session D} (h : σ.pending.map Prod.snd = []) (db : D.Store) :
    σ.view db = db := by
  rw [List.map_eq_nil_iff] at h
  rw [Session.view, h, List.foldl_nil]

/-! ## Refusals -/

/-- The rows whose insert was refused to a process that has written nothing. -/
def Refusals (s : Sys D X R O) : Prop :=
  ∀ pid p, s.procs pid = some p → writes p.history = [] →
    ∀ k ∈ refused p.history, D.present s.db k = true

/-- An insert is refused when the row is there. -/
theorem present_of_refused {pid : Nat} {σ : Session D} {k : D.Key} {w : D.Write}
    {e : Reply D (.insert k w)} (he : s.reply? pid σ (.insert k w) = some e)
    (hr : e.resp = false) : D.present (σ.view s.db) k = true := by
  by_contra habsent
  rw [Bool.not_eq_true] at habsent
  simp only [Sys.reply?, habsent, Bool.false_eq_true, if_false] at he
  split at he
  · split at he
    · simp only [Option.some.injEq] at he
      subst he
      cases hr
    · cases he
  · simp only [Option.some.injEq] at he
    subst he
    cases hr

/-- No write takes a row away. -/
def Lasting (D : Schema) : Prop :=
  ∀ db n w k, D.present db k = true → D.present (D.apply db n w) k = true

theorem PrimaryKey.lasting {I : Type} (pk : PrimaryKey D I) {n : Nat} {w : D.Write} {i : I}
    (hi : D.present db (pk.key i) = true) : D.present (D.apply db n w) (pk.key i) = true := by
  rw [pk.present_iff] at hi ⊢
  rw [pk.ids_apply]
  exact List.mem_append_left _ hi

theorem Lasting.moves (h : Lasting D) (hs : Sys.Moves code allowed s s') :
    ∀ k, D.present s.db k = true → D.present s'.db k = true := by
  let T : D.Store → D.Store → Prop := fun a b => ∀ k, D.present a k = true → D.present b k = true
  have hT : T s.db s'.db :=
    hs.le (fun _ _ hk => hk) (fun hab hbc k hk => hbc k (hab k hk)) fun σ n w k hk => h σ n w k hk
  exact hT

theorem Refusals.update {pid : Nat} {p' : Proc D X R O} (h : Refusals s)
    (hle : ∀ k, D.present s.db k = true → D.present s'.db k = true)
    (hprocs : s'.procs = Function.update s.procs pid (some p'))
    (hp' : writes p'.history = [] → ∀ k ∈ refused p'.history, D.present s'.db k = true) :
    Refusals s' := by
  intro q pq hq hw k hk
  rw [hprocs] at hq
  by_cases hqp : q = pid
  · subst hqp
    rw [Function.update_self, Option.some.injEq] at hq
    subst hq
    exact hp' hw k hk
  · rw [Function.update_of_ne hqp] at hq
    exact hle k (h q pq hq hw k hk)

theorem Refusals.step (hlast : Lasting D) (hx : AllExact s) (hs : Sys.Moves code allowed s s')
    (h : Refusals s) : Refusals s' := by
  have hle := hlast.moves hs
  cases hs with
  | launch op hop => exact h.update hle rfl fun _ k hk => absurd hk List.not_mem_nil
  | @accept pid p st rest e hp hw hprog he =>
      refine h.update hle rfl ?_
      show writes (.did st e.resp :: p.history) = [] →
        ∀ k ∈ refused (.did st e.resp :: p.history), _
      cases st with
      | commit => exact fun _ k hk => absurd hk List.not_mem_nil
      | rollback => exact fun _ k hk => absurd hk List.not_mem_nil
      | write w => exact fun hnone => absurd (List.append_eq_nil_iff.1 hnone).2 (List.cons_ne_nil _ _)
      | insert key w =>
          cases hr : e.resp with
          | true =>
              exact fun hnone => absurd (List.append_eq_nil_iff.1 hnone).2 (List.cons_ne_nil _ _)
          | false =>
              intro hnone k hk
              -- A transaction without writes sees the committed store, where the row is that it met.
              rcases List.mem_cons.1 hk with rfl | hk
              · have hview := Session.view_of_no_writes
                  ((hx.procs pid p hp).pending.trans hnone) s.db
                exact hle k (hview ▸ present_of_refused he hr)
              · exact hle k (h pid p hp hnone k hk)
      | select => exact fun hnone k hk => hle k (h pid p hp hnone k hk)
      | lock key nowait => exact fun hnone k hk => hle k (h pid p hp hnone k hk)
      | mark m => exact fun hnone k hk => hle k (h pid p hp hnone k hk)
      | draw o => cases he
      | call c => cases he
  | draw v hp hw hprog =>
      exact h.update hle rfl fun hnone k hk => hle k (h _ _ hp hnone k hk)
  | send hp hw hprog =>
      exact h.update hle rfl fun hnone k hk => hle k (h _ _ hp hnone k hk)
  | answer a hp hw hprog =>
      exact h.update hle rfl fun hnone k hk => hle k (h _ _ hp hnone k hk)
  | @kill pid p hp =>
      intro q pq hq hw k hk
      by_cases hqp : q = pid
      · subst hqp
        simp only [Sys.kill, Function.update_self, reduceCtorEq] at hq
      · simp only [Sys.kill, Function.update_of_ne hqp] at hq
        exact h q pq hq hw k hk
  | tick d => exact h

/-! ## The watch -/

/-- The watch of programs that rely on the committed stores: what they are shown before they write
has the property `G` and the rows that they were refused. -/
def Watch.reading (G : D.Store → Prop) (must : List (Obs D) → Stmt D → Prop) : Watch D where
  may := fun h st r => ∀ σ, (Obs.did st r).seen? = some σ → writes h = [] →
    G σ ∧ ∀ k ∈ refused h, D.present σ k = true
  must := must

/-- Programs that rely on the committed stores meet their obligations along every run, when their
commits keep the property that they rely on. -/
theorem followedEach_reading {G : D.Store → Prop} {must : O → List (Obs D) → Stmt D → Prop}
    {Post : O → Except X R → List (Obs D) → Prop} (hlast : Lasting D)
    (hcommit : ∀ op h, must op h .commit → ∀ (σ : Session D) (db : D.Store),
      σ.pending.map Prod.snd = writes h → G db → G (σ.view db))
    (hcode : ∀ op, allowed op → (Watch.reading G (must op)).wp (code op) (Post op) [])
    (hdb : G db) (h : Sys.Reachable code allowed db s) :
    FollowedEach (fun op => Watch.reading G (must op)) Post s ∧ G s.db := by
  suffices hJ : (FollowedEach (fun op => Watch.reading G (must op)) Post s ∧ G s.db) ∧ Refusals s from
    hJ.1
  refine h.invariant (J := fun s => (FollowedEach (fun op => Watch.reading G (must op)) Post s ∧
    G s.db) ∧ Refusals s) ⟨⟨followedEach_initial db, hdb⟩, fun _ _ hp => (by cases hp)⟩
    fun s s' hr _ hs hJ => ?_
  obtain ⟨⟨hfollowed, hdb⟩, hrefused⟩ := hJ
  have hx := exact_of_reachable hr
  have hstep : FollowedEach (fun op => Watch.reading G (must op)) Post s' := by
    refine hfollowed.step hcode ?_ ?_ ?_ hs
    · exact fun op h o v σ hσ => by cases hσ
    · exact fun op h c a σ hσ => by cases hσ
    · intro pid p st e hp he σ hσ hnone
      rw [reply_shows he hσ, Session.view_of_no_writes ((hx.procs pid p hp).pending.trans hnone)]
      exact ⟨hdb, hrefused pid p hp hnone⟩
  refine ⟨⟨hstep, ?_⟩, hrefused.step hlast hx hs⟩
  rcases hs.db_cases with ⟨hsame, -⟩ | ⟨pid, p, hp, hview, htrace⟩
  · rw [hsame]
    exact hdb
  · have hmem : s.event pid p .commit ∈ s'.trace := by
      rw [htrace]
      exact List.mem_cons_self
    rw [hview]
    exact hcommit p.op p.history (hstep.trace _ hmem).2 p.session s.db (hx.procs pid p hp).pending
      hdb

/-! ## Openings -/

/-- The processes from `n` on were shown a store with the property `P` first. -/
structure Opened (P : D.Store → Prop) (n : Nat) (s : Sys D X R O) : Prop where
  db : P s.db
  next : n ≤ s.next
  procs : ∀ pid p, n ≤ pid → s.procs pid = some p → ∀ σ, opening p.history = some σ → P σ

section Opened

variable {P : D.Store → Prop} {n : Nat}

theorem Opened.update {pid : Nat} {p' : Proc D X R O} (h : Opened P n s) (hdb : P s'.db)
    (hnext : n ≤ s'.next) (hprocs : s'.procs = Function.update s.procs pid (some p'))
    (hp' : n ≤ pid → ∀ σ, opening p'.history = some σ → P σ) : Opened P n s' := by
  refine ⟨hdb, hnext, fun q pq hn hq => ?_⟩
  rw [hprocs] at hq
  by_cases hqp : q = pid
  · subst hqp
    rw [Function.update_self, Option.some.injEq] at hq
    exact hq ▸ hp' hn
  · rw [Function.update_of_ne hqp] at hq
    exact h.procs q pq hn hq

/-- Another observation shows the committed store, or it is not the first one. -/
theorem Opened.longer {pid : Nat} {p : Proc D X R O} (h : Opened P n s) (hp : s.procs pid = some p)
    (hn : n ≤ pid) {o : Obs D} (ho : ∀ σ, p.history = [] → o.seen? = some σ → P σ) (σ : D.Store)
    (hσ : opening (o :: p.history) = some σ) : P σ := by
  by_cases hnil : p.history = []
  · rw [hnil] at hσ
    exact ho σ hnil hσ
  · rw [opening_cons_of_ne hnil] at hσ
    exact h.procs pid p hn hp σ hσ

theorem Opened.step (hx : AllExact s) (hs : Sys.Moves code allowed s s') (hP : P s.db → P s'.db)
    (h : Opened P n s) : Opened P n s' := by
  have hdb := hP h.db
  cases hs with
  | launch op hop =>
      exact h.update hdb (Nat.le_succ_of_le h.next) rfl fun _ σ hσ => by cases hσ
  | @accept pid p st k e hp hw hprog he =>
      refine h.update hdb h.next rfl fun hn => h.longer hp hn fun σ hnil hσ => ?_
      have hnone : p.session.pending.map Prod.snd = [] := by
        rw [(hx.procs pid p hp).pending, hnil]
        rfl
      rw [reply_shows he hσ, Session.view_of_no_writes hnone]
      exact h.db
  | draw v hp hw hprog =>
      exact h.update hdb h.next rfl fun hn => h.longer hp hn fun σ _ hσ => by cases hσ
  | send hp hw hprog =>
      exact h.update hdb h.next rfl fun hn => h.longer hp hn fun σ _ hσ => by cases hσ
  | answer a hp hw hprog =>
      exact h.update hdb h.next rfl fun hn => h.longer hp hn fun σ _ hσ => by cases hσ
  | @kill pid p hp =>
      refine ⟨hdb, h.next, fun q pq hn hq => ?_⟩
      by_cases hqp : q = pid
      · subst hqp
        simp only [Sys.kill, Function.update_self, reduceCtorEq] at hq
      · simp only [Sys.kill, Function.update_of_ne hqp] at hq
        exact h.procs q pq hn hq
  | tick d => exact ⟨hdb, h.next, h.procs⟩

/-- A property that every step keeps holds of what a later process is shown first. -/
theorem opened_of_steps {s₀ : Sys D X R O}
    (hP : ∀ s s', Sys.Reachable code allowed db s → Sys.Step code allowed s s' → P s.db → P s'.db)
    (h₀ : Sys.Reachable code allowed db s₀) (hP₀ : P s₀.db)
    (h : Relation.ReflTransGen (Sys.Step code allowed) s₀ s) : Opened P s₀.next s := by
  suffices hJ : Sys.Reachable code allowed db s ∧ Opened P s₀.next s from hJ.2
  induction h with
  | refl =>
      refine ⟨h₀, hP₀, Nat.le_refl _, fun pid p hn hp => ?_⟩
      rw [(exact_of_reachable h₀).fresh pid hn] at hp
      cases hp
  | tail _ hstep ih =>
      exact ⟨ih.1.step hstep,
        ih.2.step (exact_of_reachable ih.1) (.of_step hstep) (hP _ _ ih.1 hstep)⟩

end Opened

/-! ## Commits of the trace -/

/-- The events of a trace stay. -/
theorem trace_suffix_of_steps (h : Relation.ReflTransGen (Sys.Step code allowed) s s') :
    s.trace <:+ s'.trace := by
  induction h with
  | refl => exact List.suffix_refl _
  | tail _ hstep ih =>
      apply ih.trans
      rcases (Sys.Moves.of_step hstep).db_cases with ⟨-, hsame | ⟨pid, p, c, hcall⟩⟩ |
        ⟨pid, p, -, -, hcommit⟩
      · exact hsame.symm ▸ List.suffix_refl _
      · rw [hcall]
        exact List.suffix_cons _ _
      · rw [hcommit]
        exact List.suffix_cons _ _

/-- A process that has committed goes on behind its commit. -/
def Continued (s : Sys D X R O) : Prop :=
  ∀ e ∈ s.trace, e.act = .commit → e.pid < s.next ∧
    ∀ p, s.procs e.pid = some p → p.op = e.op ∧ .did .commit () :: e.history <:+ p.history

theorem Continued.update {pid : Nat} {p p' : Proc D X R O} (h : Continued s)
    (hp : s.procs pid = some p) (hop : p'.op = p.op) (hs : p.history <:+ p'.history)
    (hprocs : s'.procs = Function.update s.procs pid (some p')) (hnext : s'.next = s.next)
    (htrace : ∀ e ∈ s'.trace, e.act = .commit → e ∈ s.trace ∨
      e.pid = pid ∧ pid < s.next ∧ p'.op = e.op ∧ .did .commit () :: e.history <:+ p'.history) :
    Continued s' := by
  intro e he hact
  rw [hnext, hprocs]
  rcases htrace e he hact with hold | ⟨hpid, hlt, hnew⟩
  · obtain ⟨hlt, hcont⟩ := h e hold hact
    refine ⟨hlt, fun q hq => ?_⟩
    by_cases heq : e.pid = pid
    · rw [heq, Function.update_self, Option.some.injEq] at hq
      obtain ⟨hop', hs'⟩ := hcont p (heq ▸ hp)
      exact hq ▸ ⟨hop.trans hop', hs'.trans hs⟩
    · rw [Function.update_of_ne heq] at hq
      exact hcont q hq
  · refine ⟨hpid ▸ hlt, fun q hq => ?_⟩
    rw [hpid, Function.update_self, Option.some.injEq] at hq
    exact hq ▸ hnew

theorem Continued.step (hx : AllExact s) (hs : Sys.Moves code allowed s s') (h : Continued s) :
    Continued s' := by
  cases hs with
  | launch op hop =>
      intro e he hact
      obtain ⟨hlt, hcont⟩ := h e he hact
      refine ⟨Nat.lt_succ_of_lt hlt, fun q hq => hcont q ?_⟩
      simpa only [Sys.launch, Function.update_of_ne (Nat.ne_of_lt hlt)] using hq
  | @accept pid p st k e hp hw hprog he =>
      have hlt : pid < s.next := by
        by_contra hnot
        rw [hx.fresh pid (Nat.le_of_not_lt hnot)] at hp
        cases hp
      refine h.update hp ?_ ?_ rfl rfl fun e' he' hact => ?_
      · rfl
      · exact List.suffix_cons _ _
      cases st with
      | commit =>
          rcases List.mem_cons.1 he' with rfl | he'
          · exact .inr ⟨rfl, hlt, rfl, List.suffix_refl _⟩
          · exact .inl he'
      | _ => exact .inl he'
  | draw v hp hw hprog =>
      refine h.update hp ?_ ?_ rfl rfl fun e he _ => .inl he
      · rfl
      · exact List.suffix_cons _ _
  | send hp hw hprog =>
      refine h.update hp ?_ ?_ rfl rfl fun e he hact => ?_
      · rfl
      · exact List.suffix_cons _ _
      rcases List.mem_cons.1 he with rfl | he
      · cases hact
      · exact .inl he
  | answer a hp hw hprog =>
      refine h.update hp ?_ ?_ rfl rfl fun e he _ => .inl he
      · rfl
      · exact List.suffix_cons _ _
  | @kill pid p hp =>
      intro e he hact
      obtain ⟨hlt, hcont⟩ := h e he hact
      refine ⟨hlt, fun q hq => hcont q ?_⟩
      by_cases heq : e.pid = pid
      · simp only [Sys.kill, heq, Function.update_self, reduceCtorEq] at hq
      · simpa only [Sys.kill, Function.update_of_ne heq] using hq
  | tick d => exact h

theorem continued_of_reachable (h : Sys.Reachable code allowed db s) : Continued s :=
  h.invariant (fun _ he => absurd he List.not_mem_nil) fun _ _ hr _ hs hJ =>
    hJ.step (exact_of_reachable hr) hs

end HitlOps.Transaction
