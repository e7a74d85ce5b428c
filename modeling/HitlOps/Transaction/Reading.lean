import HitlOps.Transaction.System

/-!
# Read-only programs

A program that only selects runs without a lock and without a write of its own, so each of its
selects sees the store as it is committed at that moment. `Reads` gives it one store for each
select, in order.
-/

set_option autoImplicit false

namespace HitlOps.Transaction.Prog

variable {D : Schema} {X α β : Type}

/-- The program reads the stores `views`, one for each select, and ends with `r`. -/
inductive Reads : Prog D X α → List D.Store → Except X α → Prop
  | ret (a : α) : Reads (ret a) [] (.ok a)
  | raise (x : X) : Reads (raise x) [] (.error x)
  | select {k : D.Store × Instant → Prog D X α} (db : D.Store) (now : Instant)
      {views : List D.Store} {r : Except X α} (h : Reads (k (db, now)) views r) :
      Reads (stmt .select k) (db :: views) r
  | draw {o : D.Source} {k : D.Draw o → Prog D X α} (v : D.Draw o) {views : List D.Store}
      {r : Except X α} (h : Reads (k v) views r) : Reads (stmt (.draw o) k) views r

/-- A query reads one store. -/
theorem reads_query_bind {q : D.Store → β} {f : β → Prog D X α} {views : List D.Store}
    {r : Except X α} : Reads (query q >>= f) views r ↔
      ∃ db rest, views = db :: rest ∧ Reads (f (q db)) rest r := by
  constructor
  · intro h
    cases h with
    | select db now h => exact ⟨db, _, rfl, h⟩
  · rintro ⟨db, rest, rfl, h⟩
    exact .select db 0 h

theorem reads_draw_bind {o : D.Source} {f : D.Draw o → Prog D X α} {views : List D.Store}
    {r : Except X α} : Reads (draw o >>= f) views r ↔ ∃ v, Reads (f v) views r := by
  constructor
  · intro h
    cases h with
    | draw v h => exact ⟨v, h⟩
  · rintro ⟨v, h⟩
    exact .draw v h

theorem reads_ret {a : α} {views : List D.Store} {r : Except X α} :
    Reads (ret a : Prog D X α) views r ↔ views = [] ∧ r = .ok a := by
  constructor
  · intro h
    cases h
    exact ⟨rfl, rfl⟩
  · rintro ⟨rfl, rfl⟩
    exact .ret a

/-- A `select` of a session without writes of its own reads the committed store, and leaves the
session without writes and the store as it is. -/
theorem reads_of_reply {R O : Type} {s : Sys D X R O} {pid : Nat} {σ : Session D}
    {e : Reply D .select} (hpending : σ.pending = []) (h : s.reply? pid σ .select = some e)
    {k : D.Store × Instant → Prog D X α} {views : List D.Store} {r : Except X α}
    (hrest : (k e.resp).Reads views r) :
    (stmt .select k).Reads (s.db :: views) r ∧ e.session.pending = [] ∧ e.db = s.db := by
  obtain rfl := Option.some.inj h
  have hview : σ.view s.db = s.db := by
    unfold Session.view
    rw [hpending, List.foldl_nil]
  have hseen : (k (s.db, (σ.start s.db s.clock).2)).Reads views r := by
    have hseen : (k (σ.view s.db, (σ.start s.db s.clock).2)).Reads views r := hrest
    rwa [hview] at hseen
  exact ⟨.select s.db _ hseen, hpending, rfl⟩

end HitlOps.Transaction.Prog
