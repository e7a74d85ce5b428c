import HitlOps.Transaction.System

/-!
# Contracts and weakest preconditions

A `Slicing` cuts the store into rows, one for each index, and says which lock protects which row. A
`Contract` over a slicing fixes an invariant of committed rows, a ghost value computed from the
history of a process, and the obligations of a commit, of a call and of the end of an operation.

`Contract.wp p Q τ` is the weakest precondition of a program: in every environment that keeps the
invariant, moves rows along the rely only and respects the row locks, each commit and call of `p`
meets its obligation and `Q` holds at the end. `τ` is what a process knows: the start of its
transaction, the row it has locked (as committed, and with its pending writes), the committed rows
it has seen, and its ghost value. A program may hold one row of the slicing at a time, and it may
write a row only while it holds it.
-/

set_option autoImplicit false

namespace HitlOps.Transaction

variable {D : Schema} {X R O α β : Type}

/-- Rows of the store and the locks that protect them.

`target w` is the row a write changes and `put` its effect there. `below r n` bounds the sequence
numbers stored in the row `r` by `n`. -/
structure Slicing (D : Schema) where
  Idx : Type
  Row : Type
  decIdx : DecidableEq Idx
  key : Idx → D.Key
  idx? : D.Key → Option Idx
  row : D.Store → Idx → Row
  target : D.Write → Option Idx
  put : Row → Nat → D.Write → Row
  below : Row → Nat → Prop
  idx?_eq : ∀ k i, idx? k = some i ↔ key i = k
  row_apply : ∀ s n w i,
    row (D.apply s n w) i = if target w = some i then put (row s i) n w else row s i
  below_mono : ∀ r n m, below r n → n ≤ m → below r m
  below_put : ∀ r n w, below r n → below (put r n w) (n + 1)

attribute [instance] Slicing.decIdx

/-- What the environment keeps: an invariant of committed rows, and the order along which any commit
may move a row, as the processes that do not hold it see it. -/
structure Rely (L : Slicing D) where
  Inv : L.Idx → L.Row → Prop
  Le : L.Row → L.Row → Prop
  le_refl : ∀ r, Le r r
  le_trans : ∀ {r r' r''}, Le r r' → Le r' r'' → Le r r''

/-- A ghost value and the obligations of the operations `O` under a rely. -/
structure Contract (D : Schema) (X R O : Type) {L : Slicing D} (E : Rely L) where
  Ghost : Type
  start : O → Ghost
  observe : Ghost → Obs D → Ghost
  /-- What a commit guarantees of the held row, as committed before and after. -/
  Guar : L.Idx → L.Row → L.Row → Prop
  /-- A commit, with the start of its transaction and the held row, if any. -/
  Commit : Ghost → Option (D.Store × Instant) → Option (L.Idx × L.Row × L.Row) → Prop
  /-- A call, with the held row, if any. -/
  Call : Ghost → Option (L.Idx × L.Row × L.Row) → D.Call → Prop
  /-- The end of an operation. -/
  Post : O → Except X R → Ghost → Prop

variable {L : Slicing D} {E : Rely L}

/-- What a process knows: the start of its transaction, the held row with its committed value and
its value under the pending writes, the committed rows it has seen, and the ghost value. -/
structure Local (L : Slicing D) (Γ : Type) where
  begun : Option (D.Store × Instant)
  held : Option (L.Idx × L.Row × L.Row)
  seen : L.Idx → L.Row → Prop
  ghost : Γ

namespace Local

variable {Γ : Type}

/-- `b` may be the start of the transaction in which the next statement runs. -/
def Starts (τ : Local L Γ) (b : D.Store × Instant) : Prop := ∀ b', τ.begun = some b' → b' = b

/-- The process holds the row `i`. -/
def Holds (τ : Local L Γ) (i : L.Idx) : Prop := ∃ base cur, τ.held = some (i, base, cur)

/-- The committed rows seen after a statement that showed the store `s`. -/
def learn (τ : Local L Γ) (s : D.Store) (i : L.Idx) (r : L.Row) : Prop :=
  τ.seen i r ∨ (¬ τ.Holds i ∧ r = L.row s i)

/-- The committed rows seen after a commit. -/
def publish (τ : Local L Γ) (i : L.Idx) (r : L.Row) : Prop :=
  τ.seen i r ∨ ∃ base, τ.held = some (i, base, r)

theorem publish_held {τ : Local L Γ} {i : L.Idx} {base cur : L.Row}
    (h : τ.held = some (i, base, cur)) : τ.publish i cur := Or.inr ⟨base, h⟩

end Local

namespace Rely

/-- A row that the environment may show to a process that has seen `seen`. -/
def Fits (E : Rely L) (seen : L.Idx → L.Row → Prop) (i : L.Idx) (r : L.Row) : Prop :=
  E.Inv i r ∧ ∀ r', seen i r' → E.Le r' r

/-- What a session may see: its own pending writes on the row it holds, and on the other rows
whatever the environment may commit. -/
def View {Γ : Type} (E : Rely L) (τ : Local L Γ) (s : D.Store) : Prop :=
  (∀ i base cur, τ.held = some (i, base, cur) → L.row s i = cur) ∧
    ∀ i, ¬ τ.Holds i → E.Fits τ.seen i (L.row s i)

end Rely

namespace Contract

variable (C : Contract D X R O E)

/-- The knowledge of a process that has just started. -/
def enter (op : O) : Local L C.Ghost := ⟨none, none, fun _ _ => False, C.start op⟩

/-- The knowledge after a statement of the transaction that began at `b`. -/
def saw (τ : Local L C.Ghost) (b : D.Store × Instant) (o : Obs D) : Local L C.Ghost :=
  ⟨some b, τ.held, τ.seen, C.observe τ.ghost o⟩

/-- The knowledge after a statement that showed the store `s`. -/
def read (τ : Local L C.Ghost) (b : D.Store × Instant) (s : D.Store) (o : Obs D) :
    Local L C.Ghost := ⟨some b, τ.held, τ.learn s, C.observe τ.ghost o⟩

/-- The knowledge after a statement that leaves the transaction as it is. -/
def noted (τ : Local L C.Ghost) (o : Obs D) : Local L C.Ghost :=
  ⟨τ.begun, τ.held, τ.seen, C.observe τ.ghost o⟩

/-- The knowledge after a commit. -/
def committed (τ : Local L C.Ghost) : Local L C.Ghost :=
  ⟨none, none, τ.publish, C.observe τ.ghost (.did .commit ())⟩

/-- The knowledge after a rollback. -/
def rolledBack (τ : Local L C.Ghost) : Local L C.Ghost :=
  ⟨none, none, τ.seen, C.observe τ.ghost (.did .rollback ())⟩

/-- The obligation of a commit. -/
def CommitOk (τ : Local L C.Ghost) : Prop :=
  (∀ i base cur, τ.held = some (i, base, cur) → C.Guar i base cur) ∧
    C.Commit τ.ghost τ.begun τ.held

/-- The precondition of one statement, for the continuation `K`. -/
def pre : (st : Stmt D) → Local L C.Ghost → (st.Resp → Local L C.Ghost → Prop) → Prop
  | .select, τ, K => ∀ b s, τ.Starts b → E.View τ s →
      K (s, b.2) (C.read τ b s (.did .select (s, b.2)))
  | .lock k nowait, τ, K =>
      (nowait = true → ∀ b, τ.Starts b → K none (C.saw τ b (.did (.lock k nowait) none))) ∧
      ∀ b s, τ.Starts b → E.View τ s →
        let τ' := C.read τ b s (.did (.lock k nowait) (some (s, b.2)))
        match L.idx? k, τ.held with
        | none, _ => K (some (s, b.2)) τ'
        | some i, some (j, _, _) => i = j ∧ K (some (s, b.2)) τ'
        | some i, none =>
            K (some (s, b.2)) { τ' with
              held := if D.present s k then some (i, L.row s i, L.row s i) else none }
  | .insert k w, τ, K =>
      match L.idx? k with
      | none => L.target w = none ∧ ∀ b r, τ.Starts b → K r (C.saw τ b (.did (.insert k w) r))
      | some i => L.target w = some i ∧ τ.held = none ∧
          (∀ b s, τ.Starts b → E.View τ s → D.present s k = true →
            K false (C.read τ b s (.did (.insert k w) false))) ∧
          ∀ b s n, τ.Starts b → E.View τ s → D.present s k = false → L.below (L.row s i) n →
            K true { C.read τ b s (.did (.insert k w) true) with
              held := some (i, L.row s i, L.put (L.row s i) n w) }
  | .write w, τ, K =>
      match L.target w, τ.held with
      | none, _ => ∀ b, τ.Starts b → K () (C.saw τ b (.did (.write w) ()))
      | some i, some (j, base, cur) => i = j ∧ ∀ b n, τ.Starts b → L.below cur n →
          K () { C.saw τ b (.did (.write w) ()) with held := some (j, base, L.put cur n w) }
      | some _, none => False
  | .commit, τ, K => C.CommitOk τ ∧ K () (C.committed τ)
  | .rollback, τ, K => K () (C.rolledBack τ)
  | .draw o, τ, K => ∀ a, K a (C.noted τ (.did (.draw o) a))
  | .call c, τ, K => C.Call τ.ghost τ.held c ∧
      ∀ a, K a (C.noted (C.noted τ (.sent c)) (.did (.call c) a))
  | .mark m, τ, K => K () (C.noted τ (.did (.mark m) ()))

/-- The weakest precondition of a program. -/
def wp : Prog D X α → (Except X α → Local L C.Ghost → Prop) → Local L C.Ghost → Prop
  | .ret a, Q, τ => Q (.ok a) τ
  | .raise x, Q, τ => Q (.error x) τ
  | .stmt st k, Q, τ => C.pre st τ fun r τ' => wp (k r) Q τ'

/-- The operation `op` meets the contract. -/
def Verifies (code : O → Prog D X R) (op : O) : Prop :=
  C.wp (code op) (fun r τ => C.Post op r τ.ghost) (C.enter op)

/-! ## Rules -/

theorem pre_mono {st : Stmt D} {τ : Local L C.Ghost} {K K' : st.Resp → Local L C.Ghost → Prop}
    (hK : ∀ r τ', K r τ' → K' r τ') (h : C.pre st τ K) : C.pre st τ K' := by
  cases st with
  | select => exact fun b s hb hs => hK _ _ (h b s hb hs)
  | lock k nowait =>
      refine ⟨fun hn b hb => hK _ _ (h.1 hn b hb), fun b s hb hs => ?_⟩
      have h' := h.2 b s hb hs
      revert h'
      cases L.idx? k with
      | none => exact hK _ _
      | some i =>
          cases τ.held with
          | none => exact hK _ _
          | some e => exact fun h' => ⟨h'.1, hK _ _ h'.2⟩
  | insert k w =>
      simp only [pre] at h ⊢
      cases hi : L.idx? k with
      | none =>
          simp only [hi] at h ⊢
          exact ⟨h.1, fun b r hb => hK _ _ (h.2 b r hb)⟩
      | some i =>
          simp only [hi] at h ⊢
          obtain ⟨ht, hh, hf, ho⟩ := h
          exact ⟨ht, hh, fun b s hb hs hp => hK _ _ (hf b s hb hs hp),
            fun b s n hb hs hp hn => hK _ _ (ho b s n hb hs hp hn)⟩
  | write w =>
      simp only [pre] at h ⊢
      cases ht : L.target w with
      | none =>
          simp only [ht] at h ⊢
          exact fun b hb => hK _ _ (h b hb)
      | some i =>
          cases hh : τ.held with
          | none => simp only [ht, hh] at h
          | some e =>
              simp only [ht, hh] at h ⊢
              exact ⟨h.1, fun b n hb hn => hK _ _ (h.2 b n hb hn)⟩
  | commit => exact ⟨h.1, hK _ _ h.2⟩
  | rollback => exact hK _ _ h
  | draw o => exact fun a => hK _ _ (h a)
  | call c => exact ⟨h.1, fun a => hK _ _ (h.2 a)⟩
  | mark m => exact hK _ _ h

theorem wp_mono {p : Prog D X α} {Q Q' : Except X α → Local L C.Ghost → Prop}
    {τ : Local L C.Ghost} (hQ : ∀ r τ', Q r τ' → Q' r τ') (h : C.wp p Q τ) : C.wp p Q' τ := by
  induction p generalizing τ with
  | ret a => exact hQ _ _ h
  | raise x => exact hQ _ _ h
  | stmt st k ih => exact C.pre_mono (fun r τ' h' => ih r h') h

/-- The postcondition of the first part of a sequence. -/
def andThen (f : α → Prog D X β) (Q : Except X β → Local L C.Ghost → Prop) :
    Except X α → Local L C.Ghost → Prop
  | .ok a, τ => C.wp (f a) Q τ
  | .error x, τ => Q (.error x) τ

/-- The postcondition of a body under a handler. -/
def orElse (h : X → Prog D X α) (Q : Except X α → Local L C.Ghost → Prop) :
    Except X α → Local L C.Ghost → Prop
  | .ok a, τ => Q (.ok a) τ
  | .error x, τ => C.wp (h x) Q τ

@[simp] theorem andThen_ok (f : α → Prog D X β) (Q : Except X β → Local L C.Ghost → Prop)
    (a : α) (τ : Local L C.Ghost) : C.andThen f Q (.ok a) τ = C.wp (f a) Q τ := rfl

@[simp] theorem andThen_error (f : α → Prog D X β) (Q : Except X β → Local L C.Ghost → Prop)
    (x : X) (τ : Local L C.Ghost) : C.andThen f Q (.error x) τ = Q (.error x) τ := rfl

@[simp] theorem orElse_ok (h : X → Prog D X α) (Q : Except X α → Local L C.Ghost → Prop)
    (a : α) (τ : Local L C.Ghost) : C.orElse h Q (.ok a) τ = Q (.ok a) τ := rfl

@[simp] theorem orElse_error (h : X → Prog D X α) (Q : Except X α → Local L C.Ghost → Prop)
    (x : X) (τ : Local L C.Ghost) : C.orElse h Q (.error x) τ = C.wp (h x) Q τ := rfl

variable {C}
variable {Q : Except X α → Local L C.Ghost → Prop} {τ : Local L C.Ghost}

@[simp] theorem wp_ret (a : α) : C.wp (.ret a) Q τ = Q (.ok a) τ := rfl

@[simp] theorem wp_pure (a : α) : C.wp (pure a : Prog D X α) Q τ = Q (.ok a) τ := rfl

@[simp] theorem wp_raise (x : X) : C.wp (.raise x) Q τ = Q (.error x) τ := rfl

theorem wp_bind_eq (p : Prog D X β) (f : β → Prog D X α) :
    C.wp (p.bind f) Q τ = C.wp p (C.andThen f Q) τ := by
  induction p generalizing τ with
  | ret a => rfl
  | raise x => rfl
  | stmt st k ih =>
      show C.pre st τ _ = C.pre st τ _
      simp only [ih]

@[simp] theorem wp_bind (p : Prog D X β) (f : β → Prog D X α) :
    C.wp (p >>= f) Q τ = C.wp p (C.andThen f Q) τ := wp_bind_eq p f

@[simp] theorem wp_handle (p : Prog D X α) (h : X → Prog D X α) :
    C.wp (p.handle h) Q τ = C.wp p (C.orElse h Q) τ := by
  induction p generalizing τ with
  | ret a => rfl
  | raise x => rfl
  | stmt st k ih =>
      show C.pre st τ _ = C.pre st τ _
      simp only [ih]

@[simp] theorem wp_ite (c : Prop) [Decidable c] (p q : Prog D X α) :
    C.wp (if c then p else q) Q τ = if c then C.wp p Q τ else C.wp q Q τ := by
  split <;> rfl

@[simp] theorem wp_raiseIf (c : Prop) [Decidable c] (x : X)
    (Q : Except X Unit → Local L C.Ghost → Prop) :
    C.wp (.raiseIf c x) Q τ = if c then Q (.error x) τ else Q (.ok ()) τ := by
  unfold Prog.raiseIf
  split <;> rfl

@[simp] theorem wp_orRaise_some (x : X) (a : α) :
    C.wp (.orRaise x (some a)) Q τ = Q (.ok a) τ := rfl

@[simp] theorem wp_orRaise_none (x : X) :
    C.wp (.orRaise x none) Q τ = Q (.error x) τ := rfl

theorem wp_orRaise (x : X) (o : Option α) (hn : o = none → Q (.error x) τ)
    (hs : ∀ a, o = some a → Q (.ok a) τ) : C.wp (.orRaise x o) Q τ := by
  cases o with
  | none => exact hn rfl
  | some a => exact hs a rfl

/-- A program whose statements all move the knowledge along `Rel`. -/
theorem wp_uses {S : Stmt D → Prop} {H : X → Prop} (Rel : Local L C.Ghost → Local L C.Ghost → Prop)
    (hrefl : ∀ τ, Rel τ τ) (htrans : ∀ {τ τ' τ''}, Rel τ τ' → Rel τ' τ'' → Rel τ τ'')
    (hS : ∀ st, S st → ∀ τ (K : st.Resp → Local L C.Ghost → Prop),
      (∀ r τ', Rel τ τ' → K r τ') → C.pre st τ K)
    {p : Prog D X α} (hp : p.Uses S H)
    (hQ : ∀ r τ', Rel τ τ' → (∀ x, r = .error x → H x) → Q r τ') : C.wp p Q τ := by
  induction p generalizing τ with
  | ret a => exact hQ _ _ (hrefl τ) fun x h => by cases h
  | raise x =>
      refine hQ _ _ (hrefl τ) fun y h => ?_
      cases h
      exact hp
  | stmt st k ih =>
      refine hS st hp.1 τ _ fun r τ' hr => ih r (hp.2 r) fun r' τ'' hr' hx => ?_
      exact hQ r' τ'' (htrans hr hr') hx

/-! ### Statements -/

theorem view_free {s : D.Store} (hh : τ.held = none) (hv : E.View τ s) (i : L.Idx) :
    E.Fits τ.seen i (L.row s i) := by
  refine hv.2 i ?_
  rintro ⟨base, cur, h⟩
  rw [hh] at h
  cases h

theorem wp_select (Q : Except X (D.Store × Instant) → Local L C.Ghost → Prop) :
    C.wp .select Q τ ↔ ∀ b s, τ.Starts b → E.View τ s →
      Q (.ok (s, b.2)) (C.read τ b s (.did .select (s, b.2))) := Iff.rfl

theorem wp_query (q : D.Store → α) :
    C.wp (.query q) Q τ ↔ ∀ b s, τ.Starts b → E.View τ s →
      Q (.ok (q s)) (C.read τ b s (.did .select (s, b.2))) := Iff.rfl

@[simp] theorem wp_commit (Q : Except X Unit → Local L C.Ghost → Prop) :
    C.wp .commit Q τ = (C.CommitOk τ ∧ Q (.ok ()) (C.committed τ)) := rfl

@[simp] theorem wp_rollback (Q : Except X Unit → Local L C.Ghost → Prop) :
    C.wp .rollback Q τ = Q (.ok ()) (C.rolledBack τ) := rfl

@[simp] theorem wp_mark (m : D.Mark) (Q : Except X Unit → Local L C.Ghost → Prop) :
    C.wp (.mark m) Q τ = Q (.ok ()) (C.noted τ (.did (.mark m) ())) := rfl

@[simp] theorem wp_draw (o : D.Source) (Q : Except X (D.Draw o) → Local L C.Ghost → Prop) :
    C.wp (.draw o) Q τ = ∀ a, Q (.ok a) (C.noted τ (.did (.draw o) a)) := rfl

@[simp] theorem wp_call (c : D.Call) (Q : Except X (D.Answer c) → Local L C.Ghost → Prop) :
    C.wp (.call c) Q τ = (C.Call τ.ghost τ.held c ∧
      ∀ a, Q (.ok a) (C.noted (C.noted τ (.sent c)) (.did (.call c) a))) := rfl

/-- A write to the held row. -/
theorem wp_write_held {w : D.Write} {i : L.Idx} {base cur : L.Row} (hw : L.target w = some i)
    (hh : τ.held = some (i, base, cur)) {Q : Except X Unit → Local L C.Ghost → Prop}
    (h : ∀ b n, τ.Starts b → L.below cur n → Q (.ok ()) ⟨some b,
      some (i, base, L.put cur n w), τ.seen, C.observe τ.ghost (.did (.write w) ())⟩) :
    C.wp (.write w) Q τ := by
  show C.pre (.write w) τ _
  simp only [pre, hw, hh]
  exact ⟨trivial, h⟩

/-- A lock statement of a process that holds no row. -/
theorem wp_lock_free {k : D.Key} {nowait : Bool} {i : L.Idx} (hk : L.idx? k = some i)
    (hh : τ.held = none) {Q : Except X (Option (D.Store × Instant)) → Local L C.Ghost → Prop}
    (hn : nowait = true → ∀ b, τ.Starts b →
      Q (.ok none) ⟨some b, none, τ.seen, C.observe τ.ghost (.did (.lock k nowait) none)⟩)
    (hs : ∀ b s, τ.Starts b → (∀ j, E.Fits τ.seen j (L.row s j)) →
      Q (.ok (some (s, b.2))) ⟨some b,
        if D.present s k then some (i, L.row s i, L.row s i) else none, τ.learn s,
        C.observe τ.ghost (.did (.lock k nowait) (some (s, b.2)))⟩) :
    C.wp (.lock k nowait) Q τ := by
  show C.pre (.lock k nowait) τ _
  simp only [pre, hk, hh]
  refine ⟨fun h b hb => ?_, fun b s hb hv => hs b s hb (view_free hh hv)⟩
  simpa only [saw, hh, wp_ret] using hn h b hb

/-- A lock statement on the row that is already held. -/
theorem wp_lock_held {k : D.Key} {nowait : Bool} {i : L.Idx} {base cur : L.Row}
    (hk : L.idx? k = some i) (hh : τ.held = some (i, base, cur))
    {Q : Except X (Option (D.Store × Instant)) → Local L C.Ghost → Prop}
    (hn : nowait = true → ∀ b, τ.Starts b →
      Q (.ok none) (C.saw τ b (.did (.lock k nowait) none)))
    (hs : ∀ b s, τ.Starts b → E.View τ s →
      Q (.ok (some (s, b.2))) (C.read τ b s (.did (.lock k nowait) (some (s, b.2))))) :
    C.wp (.lock k nowait) Q τ := by
  show C.pre (.lock k nowait) τ _
  simp only [pre, hk, hh]
  exact ⟨hn, fun b s hb hv => ⟨trivial, hs b s hb hv⟩⟩

/-- The insert of a row of the slicing. -/
theorem wp_insert_row {k : D.Key} {w : D.Write} {i : L.Idx} (hk : L.idx? k = some i)
    (hw : L.target w = some i) (hh : τ.held = none)
    {Q : Except X Bool → Local L C.Ghost → Prop}
    (hf : ∀ b s, τ.Starts b → (∀ j, E.Fits τ.seen j (L.row s j)) → D.present s k = true →
      Q (.ok false) ⟨some b, none, τ.learn s, C.observe τ.ghost (.did (.insert k w) false)⟩)
    (ht : ∀ b s n, τ.Starts b → (∀ j, E.Fits τ.seen j (L.row s j)) → D.present s k = false →
      L.below (L.row s i) n →
      Q (.ok true) ⟨some b, some (i, L.row s i, L.put (L.row s i) n w), τ.learn s,
        C.observe τ.ghost (.did (.insert k w) true)⟩) :
    C.wp (.insert k w) Q τ := by
  show C.pre (.insert k w) τ _
  simp only [pre, hk]
  refine ⟨hw, hh, fun b s hb hv hp => ?_,
    fun b s n hb hv hp hn => ht b s n hb (view_free hh hv) hp hn⟩
  simpa only [read, hh, wp_ret] using hf b s hb (view_free hh hv) hp

end Contract

end HitlOps.Transaction
