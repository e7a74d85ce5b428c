import HitlOps.Transaction.Contract
import HitlOps.Transaction.Steps

/-!
# Soundness of contracts

If every allowed operation meets a contract, then in every run each committed row satisfies the
invariant, each commit and call in the trace meets its obligation, and each finished process meets
its postcondition.

`Sound` is the invariant of the concurrent semantics: the lock table says which process holds which
row, a held row is unchanged in the store since it was locked, and each process still satisfies the
weakest precondition of the rest of its program. `sound_of_reachable` is the run theorem, and
`Progress` lists what one step can do to the store, the trace and the processes.
-/

set_option autoImplicit false

namespace HitlOps.Transaction

variable {D : Schema} {X R O : Type} {L : Slicing D} {E : Rely L}

/-! ## Rows of a view -/

namespace Slicing

variable (L)

/-- The pending writes to the row `i`, applied to `r`. -/
def puts (i : L.Idx) (pending : List (Nat × D.Write)) (r : L.Row) : L.Row :=
  pending.foldl (fun r e => if L.target e.2 = some i then L.put r e.1 e.2 else r) r

theorem row_foldl (i : L.Idx) (pending : List (Nat × D.Write)) (db : D.Store) :
    L.row (pending.foldl (fun s e => D.apply s e.1 e.2) db) i = L.puts i pending (L.row db i) := by
  induction pending generalizing db with
  | nil => rfl
  | cons e es ih =>
      show L.row (es.foldl _ (D.apply db e.1 e.2)) i = _
      rw [ih, L.row_apply]
      rfl

theorem puts_eq_self (i : L.Idx) (pending : List (Nat × D.Write)) (r : L.Row)
    (h : ∀ e ∈ pending, L.target e.2 ≠ some i) : L.puts i pending r = r := by
  induction pending generalizing r with
  | nil => rfl
  | cons e es ih =>
      have he : L.target e.2 ≠ some i := h e List.mem_cons_self
      have hes := fun e' he' => h e' (List.mem_cons_of_mem e he')
      show L.puts i es (if L.target e.2 = some i then L.put r e.1 e.2 else r) = r
      rw [if_neg he]
      exact ih r hes

theorem puts_append (i : L.Idx) (pending : List (Nat × D.Write)) (e : Nat × D.Write) (r : L.Row) :
    L.puts i (pending ++ [e]) r =
      if L.target e.2 = some i then L.put (L.puts i pending r) e.1 e.2
      else L.puts i pending r := by
  simp only [puts, List.foldl_append, List.foldl_cons, List.foldl_nil]

end Slicing

theorem row_view (σ : Session D) (db : D.Store) (i : L.Idx) :
    L.row (σ.view db) i = L.puts i σ.pending (L.row db i) :=
  L.row_foldl i σ.pending db

/-! ## Ownership of rows -/

/-- What the shared state says about the session `σ` of `pid` and the row it holds. -/
structure Owns (L : Slicing D) (db : D.Store) (locks : D.Key → Option Nat) (counter : Nat)
    (pid : Nat) (σ : Session D) (held : Option (L.Idx × L.Row × L.Row)) : Prop where
  pending : ∀ e ∈ σ.pending, ∀ i, L.target e.2 = some i → locks (L.key i) = some pid
  locked : ∀ i, locks (L.key i) = some pid ↔ ∃ base cur, held = some (i, base, cur)
  rows : ∀ i base cur, held = some (i, base, cur) →
    base = L.row db i ∧ cur = L.row (σ.view db) i ∧ L.below cur counter

namespace Owns

variable {db db' : D.Store} {locks locks' : D.Key → Option Nat} {counter counter' pid : Nat}
  {σ : Session D} {held : Option (L.Idx × L.Row × L.Row)}

/-- A row that the session does not hold looks as committed. -/
theorem row_view_eq (h : Owns L db locks counter pid σ held) {i : L.Idx}
    (hi : locks (L.key i) ≠ some pid) : L.row (σ.view db) i = L.row db i := by
  rw [row_view]
  exact L.puts_eq_self i σ.pending _ fun e he ht => hi (h.pending e he i ht)

/-- Steps of other processes keep what a process owns. -/
theorem frame (h : Owns L db locks counter pid σ held)
    (hl : ∀ i, locks' (L.key i) = some pid ↔ locks (L.key i) = some pid)
    (hr : ∀ i, locks (L.key i) = some pid → L.row db' i = L.row db i)
    (hc : counter ≤ counter') : Owns L db' locks' counter' pid σ held where
  pending := fun e he i ht => (hl i).2 (h.pending e he i ht)
  locked := fun i => (hl i).trans (h.locked i)
  rows := by
    intro i base cur hh
    have hi : locks (L.key i) = some pid := (h.locked i).2 ⟨base, cur, hh⟩
    obtain ⟨hb, hcur, hbel⟩ := h.rows i base cur hh
    refine ⟨hb.trans (hr i hi).symm, ?_, L.below_mono _ _ _ hbel hc⟩
    rw [hcur, row_view, row_view, hr i hi]

theorem closed (hl : ∀ i, locks (L.key i) ≠ some pid) :
    Owns L db locks counter pid .closed none where
  pending := fun e he => absurd he List.not_mem_nil
  locked := fun i => ⟨fun h => absurd h (hl i), fun ⟨_, _, h⟩ => by cases h⟩
  rows := fun _ _ _ h => by cases h

/-- Opening the transaction changes nothing else. -/
theorem begin (h : Owns L db locks counter pid σ held) (b : Option (D.Store × Instant)) :
    Owns L db locks counter pid ⟨b, σ.pending⟩ held :=
  ⟨h.pending, h.locked, h.rows⟩

end Owns

namespace Contract

variable (C : Contract D X R O E)

/-- The ghost value of a history. -/
def ghostOf (op : O) (history : List (Obs D)) : C.Ghost :=
  history.foldr (fun o g => C.observe g o) (C.start op)

@[simp] theorem ghostOf_nil (op : O) : C.ghostOf op [] = C.start op := rfl

@[simp] theorem ghostOf_cons (op : O) (o : Obs D) (h : List (Obs D)) :
    C.ghostOf op (o :: h) = C.observe (C.ghostOf op h) o := rfl

/-- The knowledge `τ` of a process agrees with the shared state. -/
structure Knows (s : Sys D X R O) (pid : Nat) (p : Proc D X R O) (τ : Local L C.Ghost) : Prop where
  begun : τ.begun = p.session.begun
  ghost : τ.ghost = C.ghostOf p.op p.history
  owns : Owns L s.db s.locks s.counter pid p.session τ.held
  seen : ∀ i r, τ.seen i r → E.Le r (L.row s.db i)

/-- The rest of the program of `p` meets the contract from the knowledge `τ`. -/
def Continues (p : Proc D X R O) (τ : Local L C.Ghost) : Prop :=
  let Q : Except X R → Local L C.Ghost → Prop := fun r τ' => C.Post p.op r τ'.ghost
  if p.waiting then
    ∃ c k, p.prog = .stmt (.call c) k ∧ ∀ a, C.wp (k a) Q (C.noted τ (.did (.call c) a))
  else C.wp p.prog Q τ

/-- The guarantee of the contract is what its rely assumes. -/
def Lawful : Prop := ∀ i base cur, C.Guar i base cur → E.Inv i cur ∧ E.Le base cur

/-- The invariant of the concurrent semantics. -/
structure Sound (s : Sys D X R O) : Prop where
  lawful : C.Lawful
  rows : ∀ i, E.Inv i (L.row s.db i)
  below : ∀ i, L.below (L.row s.db i) s.counter
  procs : ∀ pid p, s.procs pid = some p → ∃ τ, C.Knows s pid p τ ∧ C.Continues p τ
  owners : ∀ k pid, s.locks k = some pid → (s.procs pid).isSome
  fresh : ∀ pid, s.next ≤ pid → s.procs pid = none

/-- What the contract says about an event of the trace. -/
def EventOk (e : Event D O) : Prop :=
  match e.act with
  | .commit =>
      ∃ held, C.Commit (C.ghostOf e.op e.history) e.session.begun held ∧
        (∀ i base cur, held = some (i, base, cur) →
          e.locks (L.key i) = some e.pid ∧ base = L.row e.db i ∧ cur = L.row e.after i ∧
            C.Guar i base cur) ∧
        ∀ i, (∀ base cur, held ≠ some (i, base, cur)) → L.row e.after i = L.row e.db i
  | .call c =>
      ∃ held, C.Call (C.ghostOf e.op e.history) held c ∧
        ∀ i base cur, held = some (i, base, cur) →
          e.locks (L.key i) = some e.pid ∧ base = L.row e.db i

variable {C}

/-- A row that a process does not hold looks as committed. -/
theorem Knows.row_free {s : Sys D X R O} {pid : Nat} {p : Proc D X R O} {τ : Local L C.Ghost} (hk : C.Knows s pid p τ) {i : L.Idx}
    (hi : ¬ τ.Holds i) : L.row (p.session.view s.db) i = L.row s.db i := by
  refine hk.owns.row_view_eq fun hl => hi ?_
  exact (hk.owns.locked i).1 hl

/-- A sound state shows each process a view that its contract allows. -/
theorem Knows.view {s : Sys D X R O} (hs : ∀ i, E.Inv i (L.row s.db i)) {pid : Nat}
    {p : Proc D X R O} {τ : Local L C.Ghost} (hk : C.Knows s pid p τ) :
    E.View τ (p.session.view s.db) := by
  constructor
  · intro i base cur hh
    exact (hk.owns.rows i base cur hh).2.1.symm
  · intro i hi
    rw [hk.row_free hi]
    exact ⟨hs i, fun r hr => hk.seen i r hr⟩

/-- What a view shows of the other rows is committed. -/
theorem Knows.learn {s : Sys D X R O} {pid : Nat} {p : Proc D X R O} {τ : Local L C.Ghost}
    (hk : C.Knows s pid p τ) (i : L.Idx) (r : L.Row)
    (hr : τ.learn (p.session.view s.db) i r) : E.Le r (L.row s.db i) := by
  rcases hr with hr | ⟨hi, rfl⟩
  · exact hk.seen i r hr
  · rw [hk.row_free hi]
    exact E.le_refl _

/-- The effect of one statement on the shared state, as other processes see it. -/
structure Frame (C : Contract D X R O E) (s : Sys D X R O) (pid : Nat) (db : D.Store)
    (locks : D.Key → Option Nat) (counter : Nat) : Prop where
  locks_iff : ∀ q, q ≠ pid → ∀ k, locks k = some q ↔ s.locks k = some q
  rows_eq : ∀ q, q ≠ pid → ∀ i, s.locks (L.key i) = some q → L.row db i = L.row s.db i
  counter_le : s.counter ≤ counter
  mono : ∀ i, E.Le (L.row s.db i) (L.row db i)
  rows : ∀ i, E.Inv i (L.row db i)
  below : ∀ i, L.below (L.row db i) counter

theorem Frame.of_locks {s : Sys D X R O} (hs : C.Sound s) {pid : Nat}
    {locks : D.Key → Option Nat} {counter : Nat}
    (hl : ∀ q, q ≠ pid → ∀ k, locks k = some q ↔ s.locks k = some q)
    (hc : s.counter ≤ counter) : Frame C s pid s.db locks counter :=
  ⟨hl, fun _ _ _ _ => rfl, hc, fun _ => E.le_refl _, hs.rows, fun i => L.below_mono _ _ _ (hs.below i) hc⟩

theorem Frame.same {s : Sys D X R O} (hs : C.Sound s) (pid : Nat) {counter : Nat}
    (hc : s.counter ≤ counter) : Frame C s pid s.db s.locks counter :=
  Frame.of_locks hs (fun _ _ _ => Iff.rfl) hc

/-- Taking a lock on a key that guards no row of the slicing. -/
theorem owns_lock_other {db : D.Store} {locks : D.Key → Option Nat} {counter pid : Nat}
    {σ : Session D} {held : Option (L.Idx × L.Row × L.Row)}
    (h : Owns L db locks counter pid σ held) {k : D.Key} (hk : L.idx? k = none)
    {locks' : D.Key → Option Nat}
    (hl : locks' = Function.update locks k (some pid) ∨ locks' = locks) :
    Owns L db locks' counter pid σ held := by
  rcases hl with rfl | rfl
  · refine h.frame (fun i => ?_) (fun _ _ => rfl) (Nat.le_refl _)
    have hne : L.key i ≠ k := by
      intro he
      rw [(L.idx?_eq k i).2 he] at hk
      cases hk
    rw [Function.update_of_ne hne]
  · exact h

/-- Taking the lock of the row `i`. -/
theorem owns_lock_row {db : D.Store} {locks : D.Key → Option Nat} {counter pid : Nat}
    {σ : Session D} (h : Owns L db locks counter pid σ none) {k : D.Key} {i : L.Idx}
    (hk : L.idx? k = some i) (hb : L.below (L.row db i) counter) :
    Owns L db (Function.update locks k (some pid)) counter pid σ
      (some (i, L.row (σ.view db) i, L.row (σ.view db) i)) where
  pending := by
    intro e he j ht
    obtain ⟨base, cur, hh⟩ := (h.locked j).1 (h.pending e he j ht)
    cases hh
  locked := by
    intro j
    rw [update_locks_self]
    have hkey : L.key j = k ↔ j = i := by
      rw [← L.idx?_eq k j, hk]
      exact ⟨fun he => (Option.some.inj he).symm, fun he => by rw [he]⟩
    rw [hkey]
    constructor
    · rintro (rfl | hl)
      · exact ⟨_, _, rfl⟩
      · obtain ⟨base, cur, hh⟩ := (h.locked j).1 hl
        cases hh
    · rintro ⟨base, cur, hh⟩
      simp only [Option.some.injEq, Prod.mk.injEq] at hh
      exact Or.inl hh.1.symm
  rows := by
    intro j base cur hh
    simp only [Option.some.injEq, Prod.mk.injEq] at hh
    obtain ⟨rfl, rfl, rfl⟩ := hh
    have hfree : locks (L.key i) ≠ some pid := by
      intro hl
      obtain ⟨base, cur, hh⟩ := (h.locked i).1 hl
      cases hh
    have hrow := h.row_view_eq hfree
    exact ⟨hrow, rfl, by rw [hrow]; exact hb⟩

/-- One more pending write to the held row. -/
theorem owns_write_held {db : D.Store} {locks : D.Key → Option Nat} {counter pid : Nat}
    {σ : Session D} {i : L.Idx} {base cur : L.Row}
    (h : Owns L db locks counter pid σ (some (i, base, cur))) {w : D.Write}
    (hw : L.target w = some i) (b : Option (D.Store × Instant)) :
    Owns L db locks (counter + 1) pid ⟨b, σ.pending ++ [(counter, w)]⟩
      (some (i, base, L.put cur counter w)) where
  pending := by
    intro e he j ht
    rcases List.mem_append.1 he with he | he
    · exact h.pending e he j ht
    · simp only [List.mem_singleton] at he
      subst he
      have hij : j = i := by
        rw [hw] at ht
        exact (Option.some.inj ht).symm
      subst hij
      exact (h.locked j).2 ⟨base, cur, rfl⟩
  locked := by
    intro j
    rw [h.locked j]
    constructor
    · rintro ⟨b', c', hh⟩
      simp only [Option.some.injEq, Prod.mk.injEq] at hh
      exact ⟨base, _, by rw [hh.1]⟩
    · rintro ⟨b', c', hh⟩
      simp only [Option.some.injEq, Prod.mk.injEq] at hh
      exact ⟨base, cur, by rw [hh.1]⟩
  rows := by
    intro j base' cur' hh
    simp only [Option.some.injEq, Prod.mk.injEq] at hh
    obtain ⟨rfl, rfl, rfl⟩ := hh
    obtain ⟨hb, hc, hbel⟩ := h.rows i base cur rfl
    refine ⟨hb, ?_, L.below_put _ _ _ hbel⟩
    rw [row_view, L.puts_append, if_pos hw, hc, row_view]

/-- One more pending write outside the slicing. -/
theorem owns_write_free {db : D.Store} {locks : D.Key → Option Nat} {counter pid : Nat}
    {σ : Session D} {held : Option (L.Idx × L.Row × L.Row)}
    (h : Owns L db locks counter pid σ held) {w : D.Write} (hw : L.target w = none)
    (b : Option (D.Store × Instant)) :
    Owns L db locks (counter + 1) pid ⟨b, σ.pending ++ [(counter, w)]⟩ held where
  pending := by
    intro e he j ht
    rcases List.mem_append.1 he with he | he
    · exact h.pending e he j ht
    · simp only [List.mem_singleton] at he
      subst he
      rw [hw] at ht
      cases ht
  locked := h.locked
  rows := by
    intro j base cur hh
    obtain ⟨hb, hc, hbel⟩ := h.rows j base cur hh
    refine ⟨hb, ?_, L.below_mono _ _ _ hbel (Nat.le_succ _)⟩
    rw [row_view, L.puts_append, if_neg (by rw [hw]; exact fun h => by cases h), hc, row_view]

/-! ## One statement -/

/-- What the reply `e` to a statement leaves: the knowledge `τ'` of the process and the frame. -/
structure Replied (C : Contract D X R O E) (s : Sys D X R O) (pid : Nat) (τ : Local L C.Ghost)
    {st : Stmt D} (e : Reply D st) (τ' : Local L C.Ghost) : Prop where
  begun : τ'.begun = e.session.begun
  ghost : τ'.ghost = C.observe τ.ghost (.did st e.resp)
  owns : Owns L e.db e.locks e.counter pid e.session τ'.held
  seen : ∀ i r, τ'.seen i r → E.Le r (L.row e.db i)
  frame : Frame C s pid e.db e.locks e.counter

variable {s : Sys D X R O} {pid : Nat} {p : Proc D X R O} {τ : Local L C.Ghost}

theorem starts_start (hk : C.Knows s pid p τ) (db : D.Store) (now : Instant) :
    τ.Starts (p.session.start db now) := by
  intro b' hb'
  rw [hk.begun] at hb'
  simp only [Session.start, hb', Option.getD_some]

theorem select_replied (hs : C.Sound s) (hk : C.Knows s pid p τ)
    {K : Stmt.Resp (D := D) .select → Local L C.Ghost → Prop} (hpre : C.pre .select τ K)
    {e : Reply D .select} (he : s.reply? pid p.session .select = some e) :
    ∃ τ', K e.resp τ' ∧ Replied C s pid τ e τ' := by
  simp only [Sys.reply?, Option.some.injEq] at he
  subst he
  refine ⟨_, hpre _ _ (starts_start hk s.db s.clock) (hk.view hs.rows), rfl, rfl,
    hk.owns.begin _, hk.learn, Frame.same hs pid (Nat.le_refl _)⟩

theorem lock_replied (hs : C.Sound s) (hk : C.Knows s pid p τ) {k : D.Key} {nowait : Bool}
    {K : Stmt.Resp (.lock k nowait) → Local L C.Ghost → Prop} (hpre : C.pre (.lock k nowait) τ K)
    {e : Reply D (.lock k nowait)} (he : s.reply? pid p.session (.lock k nowait) = some e) :
    ∃ τ', K e.resp τ' ∧ Replied C s pid τ e τ' := by
  have hstart := starts_start hk s.db s.clock
  have hview := hk.view hs.rows
  have hgrant := hpre.2 _ _ hstart hview
  simp only [Sys.reply?] at he
  cases hq : s.locks k with
  | some q =>
      simp only [hq] at he
      -- The process holds the row already: it learns what it sees, and owns what it owned.
      by_cases hqp : q = pid
      · rw [if_pos hqp] at he
        simp only [Option.some.injEq] at he
        subst he
        subst hqp
        have hframe := Frame.same (C := C) hs q (Nat.le_refl s.counter)
        cases hi : L.idx? k with
        | none =>
            simp only [hi] at hgrant
            exact ⟨_, hgrant, rfl, rfl, hk.owns.begin _, hk.learn, hframe⟩
        | some i =>
            have hkey : L.key i = k := (L.idx?_eq k i).1 hi
            obtain ⟨base, cur, hh⟩ := (hk.owns.locked i).1 (by rw [hkey]; exact hq)
            simp only [hi, hh] at hgrant
            exact ⟨_, hgrant.2, rfl, rfl, hk.owns.begin _, hk.learn, hframe⟩
      · rw [if_neg hqp] at he
        by_cases hn : nowait = true
        · rw [if_pos hn, Option.some.injEq] at he
          subst he
          exact ⟨_, hpre.1 hn _ hstart, rfl, rfl, hk.owns.begin _, hk.seen,
            Frame.same hs pid (Nat.le_refl _)⟩
        · rw [if_neg hn] at he
          cases he
  | none =>
      simp only [hq, Option.some.injEq] at he
      subst he
      have hframe : Frame C s pid s.db
          (if D.present (p.session.view s.db) k then Function.update s.locks k (some pid)
            else s.locks) s.counter := by
        refine Frame.of_locks hs (fun q hqp k' => ?_) (Nat.le_refl _)
        split
        · exact update_locks_iff hq q hqp k'
        · exact Iff.rfl
      cases hi : L.idx? k with
      | none =>
          simp only [hi] at hgrant
          refine ⟨_, hgrant, rfl, rfl, (owns_lock_other hk.owns hi ?_).begin _, hk.learn, hframe⟩
          split
          · exact Or.inl rfl
          · exact Or.inr rfl
      | some i =>
          have hkey : L.key i = k := (L.idx?_eq k i).1 hi
          -- A process holds one place at a time, and this one is free.
          have hnone : τ.held = none := by
            cases hh : τ.held with
            | none => rfl
            | some h =>
                obtain ⟨j, base, cur⟩ := h
                simp only [hi, hh] at hgrant
                have hl := (hk.owns.locked j).2 ⟨base, cur, hh⟩
                rw [← hgrant.1, hkey, hq] at hl
                cases hl
          simp only [hi, hnone] at hgrant
          refine ⟨_, hgrant, rfl, rfl, ?_, hk.learn, hframe⟩
          have howns := hk.owns
          rw [hnone] at howns
          show Owns L s.db _ s.counter pid _
            (if D.present (p.session.view s.db) k then some _ else none)
          by_cases hp : D.present (p.session.view s.db) k = true
          · rw [if_pos hp, if_pos hp]
            exact (owns_lock_row howns hi (hs.below i)).begin _
          · rw [if_neg hp, if_neg hp]
            exact howns.begin _

theorem insert_replied (hs : C.Sound s) (hk : C.Knows s pid p τ) {k : D.Key} {w : D.Write}
    {K : Stmt.Resp (.insert k w) → Local L C.Ghost → Prop} (hpre : C.pre (.insert k w) τ K)
    {e : Reply D (.insert k w)} (he : s.reply? pid p.session (.insert k w) = some e) :
    ∃ τ', K e.resp τ' ∧ Replied C s pid τ e τ' := by
  have hstart := starts_start hk s.db s.clock
  have hview := hk.view hs.rows
  have hsucc := Nat.le_succ s.counter
  simp only [Contract.pre] at hpre
  simp only [Sys.reply?] at he
  cases hi : L.idx? k with
  | none =>
      simp only [hi] at hpre
      obtain ⟨hw, hpre⟩ := hpre
      cases hq : s.locks k with
      | some q =>
          simp only [hq] at he
          by_cases hqp : q = pid
          · rw [if_pos hqp] at he
            by_cases hp : D.present (p.session.view s.db) k = true
            · rw [if_pos hp, Option.some.injEq] at he
              subst he
              exact ⟨_, hpre _ _ hstart, rfl, rfl, hk.owns.begin _, hk.seen,
                Frame.same hs pid (Nat.le_refl _)⟩
            · rw [if_neg hp, Option.some.injEq] at he
              subst he
              exact ⟨_, hpre _ _ hstart, rfl, rfl, owns_write_free hk.owns hw _, hk.seen,
                Frame.same hs pid hsucc⟩
          · rw [if_neg hqp] at he
            cases he
      | none =>
          simp only [hq] at he
          by_cases hp : D.present (p.session.view s.db) k = true
          · rw [if_pos hp, Option.some.injEq] at he
            subst he
            exact ⟨_, hpre _ _ hstart, rfl, rfl, hk.owns.begin _, hk.seen,
              Frame.same hs pid (Nat.le_refl _)⟩
          · rw [if_neg hp, Option.some.injEq] at he
            subst he
            exact ⟨_, hpre _ _ hstart, rfl, rfl,
              owns_write_free (owns_lock_other hk.owns hi (Or.inl rfl)) hw _, hk.seen,
              Frame.of_locks hs (fun q hqp k' => update_locks_iff hq q hqp k') hsucc⟩
  | some i =>
      simp only [hi] at hpre
      obtain ⟨hw, hnone, hfalse, htrue⟩ := hpre
      have hkey : L.key i = k := (L.idx?_eq k i).1 hi
      have howns := hk.owns
      rw [hnone] at howns
      -- A place that is inserted is not held before, so the lock comes with the insert.
      have hfree : s.locks k ≠ some pid := by
        intro hl
        obtain ⟨base, cur, hh⟩ := (howns.locked i).1 (by rw [hkey]; exact hl)
        cases hh
      cases hq : s.locks k with
      | some q =>
          simp only [hq] at he
          have hqp : q ≠ pid := by
            rintro rfl
            exact hfree hq
          rw [if_neg hqp] at he
          cases he
      | none =>
          simp only [hq] at he
          by_cases hp : D.present (p.session.view s.db) k = true
          · rw [if_pos hp, Option.some.injEq] at he
            subst he
            exact ⟨_, hfalse _ _ hstart hview hp, rfl, rfl, hk.owns.begin _, hk.learn,
              Frame.same hs pid (Nat.le_refl _)⟩
          · rw [if_neg hp, Option.some.injEq] at he
            subst he
            have hrow := howns.row_view_eq (i := i) (by rw [hkey]; exact hfree)
            have hbel : L.below (L.row (p.session.view s.db) i) s.counter := by
              rw [hrow]
              exact hs.below i
            refine ⟨_, htrue _ _ s.counter hstart hview (by simpa using hp) hbel, rfl, rfl,
              owns_write_held (owns_lock_row howns hi (hs.below i)) hw _, hk.learn,
              Frame.of_locks hs (fun q hqp k' => update_locks_iff hq q hqp k') hsucc⟩

theorem write_replied (hs : C.Sound s) (hk : C.Knows s pid p τ) {w : D.Write}
    {K : Stmt.Resp (.write w) → Local L C.Ghost → Prop} (hpre : C.pre (.write w) τ K)
    {e : Reply D (.write w)} (he : s.reply? pid p.session (.write w) = some e) :
    ∃ τ', K e.resp τ' ∧ Replied C s pid τ e τ' := by
  have hstart := starts_start hk s.db s.clock
  have hframe := Frame.same (C := C) hs pid (Nat.le_succ s.counter)
  simp only [Sys.reply?, Option.some.injEq] at he
  subst he
  simp only [Contract.pre] at hpre
  cases hw : L.target w with
  | none =>
      simp only [hw] at hpre
      exact ⟨_, hpre _ hstart, rfl, rfl, owns_write_free hk.owns hw _, hk.seen, hframe⟩
  | some i =>
      cases hh : τ.held with
      | none => simp only [hw, hh] at hpre
      | some h =>
          obtain ⟨j, base, cur⟩ := h
          simp only [hw, hh] at hpre
          obtain ⟨rfl, hpre⟩ := hpre
          have howns := hk.owns
          rw [hh] at howns
          exact ⟨_, hpre _ s.counter hstart (howns.rows i base cur rfl).2.2, rfl, rfl,
            owns_write_held howns hw _, hk.seen, hframe⟩

theorem owns_released {db : D.Store} {counter : Nat} (locks : D.Key → Option Nat) :
    Owns L db (releaseLocks locks pid) counter pid .closed none := by
  refine Owns.closed fun i hi => ?_
  exact (releaseLocks_eq_some.1 hi).2 rfl

theorem rollback_replied (hs : C.Sound s) (hk : C.Knows s pid p τ)
    {K : Stmt.Resp (D := D) .rollback → Local L C.Ghost → Prop} (hpre : C.pre .rollback τ K)
    {e : Reply D .rollback} (he : s.reply? pid p.session .rollback = some e) :
    ∃ τ', K e.resp τ' ∧ Replied C s pid τ e τ' := by
  simp only [Sys.reply?, Option.some.injEq] at he
  subst he
  exact ⟨_, hpre, rfl, rfl, owns_released s.locks, hk.seen,
    Frame.of_locks hs (fun q hq k => release_iff q hq k) (Nat.le_refl _)⟩

/-- A commit publishes the held row and nothing else of the slicing. -/
theorem commit_rows (hk : C.Knows s pid p τ) (hok : C.CommitOk τ) :
    (∀ i base cur, τ.held = some (i, base, cur) → s.locks (L.key i) = some pid ∧
      base = L.row s.db i ∧ cur = L.row (p.session.view s.db) i ∧ C.Guar i base cur) ∧
    ∀ i, ¬ τ.Holds i → L.row (p.session.view s.db) i = L.row s.db i := by
  refine ⟨fun i base cur hh => ?_, fun i hi => hk.row_free hi⟩
  obtain ⟨hb, hc, -⟩ := hk.owns.rows i base cur hh
  exact ⟨(hk.owns.locked i).2 ⟨base, cur, hh⟩, hb, hc, hok.1 i base cur hh⟩

/-- A commit keeps the invariant of every row and moves it along the rely. -/
theorem commit_row (hs : C.Sound s) (hk : C.Knows s pid p τ) (hok : C.CommitOk τ) (i : L.Idx) :
    E.Inv i (L.row (p.session.view s.db) i) ∧
      E.Le (L.row s.db i) (L.row (p.session.view s.db) i) := by
  obtain ⟨hheld, hother⟩ := commit_rows hk hok
  by_cases hi : τ.Holds i
  · obtain ⟨base, cur, hh⟩ := hi
    obtain ⟨-, hb, hc, hguar⟩ := hheld i base cur hh
    rw [← hb, ← hc]
    exact hs.lawful i base cur hguar
  · rw [hother i hi]
    exact ⟨hs.rows i, E.le_refl _⟩

theorem commit_replied (hs : C.Sound s) (hk : C.Knows s pid p τ)
    {K : Stmt.Resp (D := D) .commit → Local L C.Ghost → Prop} (hpre : C.pre .commit τ K)
    {e : Reply D .commit} (he : s.reply? pid p.session .commit = some e) :
    ∃ τ', K e.resp τ' ∧ Replied C s pid τ e τ' := by
  simp only [Sys.reply?, Option.some.injEq] at he
  subst he
  obtain ⟨hheld, hother⟩ := commit_rows hk hpre.1
  refine ⟨_, hpre.2, rfl, rfl, owns_released s.locks, fun i r hr => ?_,
    fun q hq k => release_iff q hq k, fun q hq i hi => hother i ?_, Nat.le_refl _,
    fun i => (commit_row hs hk hpre.1 i).2, fun i => (commit_row hs hk hpre.1 i).1, fun i => ?_⟩
  · rcases hr with hr | ⟨base, hh⟩
    · exact E.le_trans (hk.seen i r hr) (commit_row hs hk hpre.1 i).2
    · obtain ⟨-, -, hc, -⟩ := hheld i base r hh
      rw [hc]
      exact E.le_refl _
  · intro hh
    rw [(hk.owns.locked i).2 hh] at hi
    exact hq (Option.some.inj hi).symm
  · show L.below (L.row (p.session.view s.db) i) s.counter
    by_cases hi : τ.Holds i
    · obtain ⟨base, cur, hh⟩ := hi
      obtain ⟨-, hc, hbel⟩ := hk.owns.rows i base cur hh
      rw [← hc]
      exact hbel
    · rw [hother i hi]
      exact hs.below i

/-- Each statement that the store answers keeps the knowledge of its process exact. -/
theorem reply_sound (hs : C.Sound s) (hk : C.Knows s pid p τ) {st : Stmt D}
    {K : st.Resp → Local L C.Ghost → Prop} (hpre : C.pre st τ K) {e : Reply D st}
    (he : s.reply? pid p.session st = some e) : ∃ τ', K e.resp τ' ∧ Replied C s pid τ e τ' := by
  cases st with
  | select => exact select_replied hs hk hpre he
  | lock k nowait => exact lock_replied hs hk hpre he
  | insert k w => exact insert_replied hs hk hpre he
  | write w => exact write_replied hs hk hpre he
  | commit => exact commit_replied hs hk hpre he
  | rollback => exact rollback_replied hs hk hpre he
  | draw o => cases he
  | call c => cases he
  | mark m =>
      simp only [Sys.reply?, Option.some.injEq] at he
      subst he
      exact ⟨_, hpre, hk.begun, rfl, hk.owns, hk.seen, Frame.same hs pid (Nat.le_refl _)⟩

end Contract

end HitlOps.Transaction
