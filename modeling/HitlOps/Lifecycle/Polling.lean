import HitlOps.Lifecycle.Dispatch
import HitlOps.Lifecycle.InStep

/-!
# Lookups and the attempts they cost

A lookup is sent under the row lock of a revision with an unknown outcome, but the execution row is
read before that lock is granted, and the due list is older still. `Careful` is the condition under
which this does no harm: what was read is still committed when the lookup is sent, and a transaction
that has sent one commits. In runs of careful steps each lookup costs exactly one attempt.
-/

set_option autoImplicit false

namespace HitlOps.Lifecycle

open HitlOps.Python HitlOps.Domain HitlOps.Infrastructure HitlOps.Application HitlOps.Adapters
open HitlOps.Transaction HitlOps.Worker

/-! ## Accounts -/

/-- The identifier and the attempts of each execution row of the revision `k`. -/
def tallyOf (k : RevisionKey) (db : Store) : List (UUID × Nat) :=
  (rowsOf db k).map fun x => (x.id, x.reconcileAttempts)

/-- The revision `k` and its attempts. -/
def accountOf (k : RevisionKey) (db : Store) : Revision × List (UUID × Nat) :=
  (revision db k, tallyOf k db)

theorem untouching_accountOf (k : RevisionKey) :
    Untouching (D := Db) (accountOf k) touchesBooks := by
  intro db n w hw
  have hpage := untouching_pageOf k db n w hw
  have hrevision : revision (db.apply n w) k = revision db k := congrArg Prod.fst hpage
  have hrows : rowsOf (db.apply n w) k = rowsOf db k := congrArg Prod.snd hpage
  show (revision (db.apply n w) k, tallyOf k (db.apply n w)) = _
  unfold tallyOf
  rw [hrevision, hrows]
  rfl

theorem mem_tallyOf {k : RevisionKey} {db : Store} {x : Execution} (hx : x ∈ db.executions)
    (hkey : x.key = k) : (x.id, x.reconcileAttempts) ∈ tallyOf k db :=
  List.mem_map_of_mem (mem_rowsOf.2 ⟨hx, hkey⟩)

theorem row_of_tallyOf {k : RevisionKey} {db : Store} {id : UUID} {n : Nat}
    (h : (id, n) ∈ tallyOf k db) : ∃ c ∈ db.executions, c.key = k ∧ c.id = id := by
  obtain ⟨c, hc, heq⟩ := List.mem_map.1 h
  obtain ⟨hcrow, hckey⟩ := mem_rowsOf.1 hc
  cases heq
  exact ⟨c, hcrow, hckey, rfl⟩

/-! ## Messages to the operators -/

/-- The message hands the revision `k` over to the operators. -/
def handsOver (k : RevisionKey) (m : OutboxMessage) : Bool :=
  decide (m.topic = exhaustedTopic ∧ payloadKey m.payload = k)

theorem handedOver_foldl (k : RevisionKey) (pending : List (Nat × Write)) (db : Store) :
    (pending.foldl (fun s e => Store.apply s e.1 e.2) db).outbox.countP (handsOver k) =
      db.outbox.countP (handsOver k) +
        ((pending.map Prod.snd).filterMap handOver?).countP fun d => decide (payloadKey d = k) := by
  induction pending generalizing db with
  | nil => rfl
  | cons e rest ih =>
      obtain ⟨n, w⟩ := e
      rw [List.foldl_cons, ih, List.map_cons, List.filterMap_cons]
      cases w with
      | insertOutbox topic payload =>
          by_cases ht : topic = exhaustedTopic
          · simp only [Store.apply, handOver?, List.countP_append, List.countP_cons, List.countP_nil,
              handsOver, ht, true_and, if_true]
            omega
          · simp only [Store.apply, handOver?, List.countP_append, List.countP_cons, List.countP_nil,
              handsOver, ht, false_and, decide_false, Bool.false_eq_true, if_false, Nat.add_zero]
      | _ => rfl

theorem payloadKey_exhausted (x : Execution) (attempts : Nat) (commandId : String) :
    payloadKey (exhaustedPayload x attempts commandId) = x.key :=
  Names.payloadKey ⟨rfl, rfl, rfl⟩

/-! ## Lookups of the open transaction -/

/-- A transaction that has looked something up had reason to, and still knows it. -/
theorem polls_of_asked {rt : Runtime} {h : List (Obs Db)}
    (hk : (filing rt fun _ _ => True).Kept h) {operationKey : String}
    (hasked : askedFor h = some operationKey) :
    ∃ h₀, Keeps h₀ h ∧ Polls (fun _ _ => True) h₀ operationKey := by
  induction h with
  | nil => cases hasked
  | cons o h ih =>
      have hlonger : Open o → Unasking o → (filing rt fun _ _ => True).Kept h →
          ∃ h₀, Keeps h₀ (o :: h) ∧ Polls (fun _ _ => True) h₀ operationKey := by
        intro hopen ho hk'
        rw [askedFor_cons hopen ho] at hasked
        obtain ⟨h₀, hkeeps, hpolls⟩ := ih hk' hasked
        exact ⟨h₀, hkeeps.trans (keeps_cons hopen h), hpolls⟩
      cases o with
      | sent c =>
          cases c with
          | lookupStatus tool key provider =>
              cases hasked
              exact ⟨h, keeps_cons (o := (.sent _ : Obs Db)) trivial h, hk.1⟩
          | _ => exact hlonger trivial trivial hk.2
      | did st r =>
          cases st with
          | commit => cases hasked
          | rollback => cases hasked
          | call c => exact hlonger trivial trivial hk
          | _ => exact hlonger trivial trivial hk.2

/-- It holds the row lock of the revision, which it has seen with an unknown outcome. -/
theorem lockedIn_of_asked {rt : Runtime} {h : List (Obs Db)}
    (hk : (filing rt fun _ _ => True).Kept h) {k : RevisionKey}
    (hasked : askedFor h = some (operationKeyFor k)) : LockedIn h k .executionUnknown := by
  obtain ⟨h₀, hkeeps, -, x, -, -, hop, hlocked, -⟩ := polls_of_asked hk hasked
  rw [operationKeyFor_injective hop]
  exact hlocked.keeps hkeeps

theorem LockedIn.held {h : List (Obs Db)} {k : RevisionKey} {state : IntentState}
    (hl : LockedIn h k state) : .intent k ∈ History.held h := by
  obtain ⟨e, he, hk, -⟩ := hl
  exact held_of_mem_reads he hk

/-! ## Careful steps -/

/-- What the process has read of the execution of `k` is what is committed, and so is the row that a
due list of its tick was drawn up from. -/
structure UpToDate (s : State) (p : Proc Db Error Result Op) (k : RevisionKey) : Prop where
  read : ∀ e ∈ booksRead p.history, rowsOf e.1 k = rowsOf s.db k
  listed : ∃ σ now, (.did .select (σ, now) : Obs Db) ∈ p.history ∧ rowsOf σ k = rowsOf s.db k ∧
    ∀ x ∈ rowsOf σ k, isDue x now = true

/-- A lookup is sent on what is committed, and a transaction that has sent one neither dies nor
rolls back. -/
structure Careful (s s' : State) : Prop where
  lookup : ∀ pid p tool provider k, s.procs pid = some p →
    s'.trace = s.event pid p (.call (.lookupStatus tool (operationKeyFor k) provider)) :: s.trace →
    UpToDate s p k
  finish : ∀ pid p, s.procs pid = some p → askedFor p.history ≠ none →
    ∃ p', s'.procs pid = some p' ∧ ∀ h, p'.history ≠ .did .rollback () :: h

/-! ## What a commit does to the accounts -/

section Commits

variable {rt : Runtime} {s : State} {pid : Nat} {p : Proc Db Error Result Op} {db' : Store}

theorem tallyOf_of_executions {k : RevisionKey} {db db' : Store}
    (h : db'.executions = db.executions) : tallyOf k db' = tallyOf k db := by
  unfold tallyOf rowsOf
  rw [h]

/-- An update that leaves the attempts alone. -/
theorem tallyOf_update {db : Store} {x new : Execution}
    (h : db'.executions = putExecution db.executions (.updateExecution x new))
    (hcount : new.reconcileAttempts = x.reconcileAttempts) (k : RevisionKey) :
    tallyOf k db' = tallyOf k db := by
  unfold tallyOf
  rw [rowsOf_update h, List.map_map]
  refine List.map_congr_left fun e _ => ?_
  simp only [Function.comp_apply]
  split
  · show (e.id, if new.reconcileAttempts = x.reconcileAttempts then e.reconcileAttempts else _) = _
    rw [if_pos hcount]
  · rfl

/-- The effect of a commit on the account of the revision `k`. -/
inductive Effect (s : State) (p : Proc Db Error Result Op) (db' : Store) (k : RevisionKey) : Prop
  | same (htally : tallyOf k db' = tallyOf k s.db)
      (hescalated : (escalated p.history).countP (fun d => decide (payloadKey d = k)) = 0)
      (hasked : askedFor p.history = some (operationKeyFor k) → entered p.history ≠ [])
  | first (id : UUID) (hold : tallyOf k s.db = []) (hnew : tallyOf k db' = [(id, 0)])
      (hescalated : escalated p.history = []) (hasked : askedFor p.history = none)
      (hheld : .intent k ∈ History.held p.history)
  | counted (id : UUID) (n : Nat) (hold : tallyOf k s.db = [(id, n)])
      (hnew : tallyOf k db' = [(id, n + 1)])
      (hescalated : (escalated p.history).countP (fun d => decide (payloadKey d = k)) =
        if maxReconcileAttempts ≤ n + 1 then 1 else 0)
      (hasked : askedFor p.history = some (operationKeyFor k)) (hentered : entered p.history = [])
      (hheld : .intent k ∈ History.held p.history)

/-- A revision has at most one execution row. -/
def Single (db : Store) : Prop := ∀ k, (tallyOf k db).length ≤ 1

theorem effect_of_keep (h : CommitOf rt s pid p db') (hids : (executionIds.ids s.db).Nodup)
    (hone : Single s.db) {k₀ : RevisionKey} {x new : Execution}
    (hfresh : ∀ e ∈ booksRead p.history, tallyOf k₀ e.1 = tallyOf k₀ s.db) (hkey : x.key = k₀)
    (hread : ReadRow p.history x) (hlocked : LockedIn p.history k₀ .executionUnknown)
    (hasked : askedFor p.history = some (operationKeyFor k₀)) (hentered : entered p.history = [])
    (hfiled : filed p.history = [.updateExecution x new])
    (hnew : new.reconcileAttempts = x.reconcileAttempts + 1)
    (hescalated : ∀ k, (escalated p.history).countP (fun d => decide (payloadKey d = k)) =
      if k = k₀ ∧ maxReconcileAttempts ≤ x.reconcileAttempts + 1 then 1 else 0)
    (k : RevisionKey) : Effect s p db' k := by
  have hexecutions := h.executions
  rw [hfiled] at hexecutions
  -- The row that was read is the committed one, up to columns that do not matter here.
  obtain ⟨e, he, hfound⟩ := hread
  have hmem := mem_tallyOf (id_of_execution? hfound).2 hkey
  rw [hfresh e he] at hmem
  obtain ⟨c, hc, hckey, hcid⟩ := row_of_tallyOf hmem
  by_cases hk : k = k₀
  · subst hk
    have hlength := hone k
    cases htally : tallyOf k s.db with
    | nil =>
        rw [htally] at hmem
        cases hmem
    | cons y rest =>
        cases rest with
        | cons z rest =>
            rw [htally] at hlength
            simp only [List.length_cons] at hlength
            omega
        | nil =>
            rw [htally, List.mem_singleton] at hmem
            subst hmem
            refine .counted x.id x.reconcileAttempts htally ?_ ?_ hasked hentered hlocked.held
            · obtain ⟨d, hrows, heq⟩ := List.map_eq_singleton_iff.1 htally
              obtain ⟨hdid, hdcount⟩ := Prod.mk.inj heq
              unfold tallyOf
              rw [rowsOf_update hexecutions, hrows, List.map_singleton, List.map_singleton,
                if_pos hdid]
              show [(d.id, if new.reconcileAttempts = x.reconcileAttempts then d.reconcileAttempts
                else new.reconcileAttempts)] = _
              rw [if_neg (by omega), hdid, hnew]
            · rw [hescalated]
              simp only [true_and]
  · refine .same ?_ ?_ fun heq => ?_
    · unfold tallyOf
      rw [rowsOf_update hexecutions, List.map_map]
      refine List.map_congr_left fun d hd => ?_
      obtain ⟨hdrow, hdkey⟩ := mem_rowsOf.1 hd
      rw [Function.comp_apply, if_neg]
      intro hdid
      have hdc := eq_of_id hids hdrow hc (hdid.trans hcid.symm)
      subst hdc
      exact hk (hdkey.symm.trans hckey)
    · rw [hescalated, if_neg fun hcond => hk hcond.1]
    · rw [hasked] at heq
      exact absurd (operationKeyFor_injective (Option.some.inj heq)).symm hk

theorem effect_of_claim (h : CommitOf rt s pid p db')
    (hcurrent : ∀ k, Current (D := Db) (accountOf k) touchesBooks (.intent k) s)
    {k₀ : RevisionKey} {σ : Store} {keys : List LockKey} (hσ : (σ, keys) ∈ booksRead p.history)
    (hk : .intent k₀ ∈ keys) (hfiled : Claims σ k₀ (filed p.history))
    (hescalated : escalated p.history = []) (hasked : askedFor p.history = none)
    (k : RevisionKey) : Effect s p db' k := by
  have hexecutions := h.executions
  have hsame : tallyOf k db' = tallyOf k s.db → Effect s p db' k := fun htally =>
    .same htally (by rw [hescalated]; rfl) fun heq => by rw [hasked] at heq; cases heq
  revert hexecutions
  generalize hws : filed p.history = ws at hfiled
  intro hexecutions
  cases hfiled with
  | again x new hx hcount => exact hsame (tallyOf_update hexecutions hcount k)
  | first id expires hnone =>
      have hinsert := rowsOf_insert hexecutions k
      by_cases hkk : k₀ = k
      · subst hkk
        -- The claim found no row, and what it found is still so, since it holds the lock.
        have hrows : rowsOf σ k₀ = [] := by
          refine List.filter_eq_nil_iff.2 fun x hx hxkey => ?_
          rw [decide_eq_true_eq] at hxkey
          have hmem : x ∈ σ.executionsOf k₀.intentId k₀.revision :=
            List.mem_filter.2 ⟨hx, decide_eq_true (by rw [hxkey]; exact ⟨rfl, rfl⟩)⟩
          rw [hnone] at hmem
          cases hmem
        have haccount := hcurrent k₀ pid p h.proc (σ, keys) hσ hk
        have htally : tallyOf k₀ σ = tallyOf k₀ s.db := congrArg Prod.snd haccount
        have hold : tallyOf k₀ s.db = [] := by
          rw [← htally, tallyOf, hrows]
          rfl
        refine .first id hold ?_ hescalated hasked (held_of_mem_reads hσ hk)
        rw [tallyOf, hinsert, if_pos (show (claimedExecution id k₀ expires).key = k₀ from rfl),
          List.map_append, show (rowsOf s.db k₀).map _ = [] from hold]
        rfl
      · refine hsame ?_
        unfold tallyOf
        rw [hinsert, if_neg (show ¬ (claimedExecution id k₀ expires).key = k from hkk)]

/-- The effect of every commit. -/
theorem effect_of_commit (h : CommitOf rt s pid p db') (hids : (executionIds.ids s.db).Nodup)
    (hone : Single s.db)
    (hcurrent : ∀ k, Current (D := Db) (accountOf k) touchesBooks (.intent k) s)
    (hfresh : ∀ k, askedFor p.history = some (operationKeyFor k) →
      ∀ e ∈ booksRead p.history, tallyOf k e.1 = tallyOf k s.db)
    (k : RevisionKey) : Effect s p db' k := by
  cases h.deed with
  | plain hfiled hentered hescalated hasked =>
      have hexecutions := h.executions
      rw [hfiled] at hexecutions
      exact .same (tallyOf_of_executions hexecutions) (by rw [hescalated]; rfl)
        fun heq => by rw [hasked] at heq; cases heq
  | claim k₀ t σ keys hσ hk hentered hkey hstate hescalated hfiled hasked =>
      exact effect_of_claim h hcurrent hσ hk hfiled hescalated hasked k
  | move k₀ t x new hx hentered hkey hstate hfiled hstatus hattempt hcount hevident hescalated
      hasked =>
      have hexecutions := h.executions
      rw [hfiled] at hexecutions
      refine .same (tallyOf_update hexecutions hcount k) (by rw [hescalated]; rfl) fun _ => ?_
      rw [hentered]
      exact List.cons_ne_nil _ _
  | keep k₀ x answer dbNow commandId hx hkey hread hlocked hasked hentered hfiled hescalated =>
      refine effect_of_keep h hids hone (hfresh k₀ hasked) hkey hread hlocked hasked hentered hfiled
        rfl (fun k' => ?_) k
      -- The last attempt hands the outcome over, the others do not.
      rw [hescalated]
      by_cases hmax : maxReconcileAttempts ≤ x.reconcileAttempts + 1
      · rw [if_pos hmax, List.countP_cons, List.countP_nil, payloadKey_exhausted, hkey]
        by_cases hk : k' = k₀
        · rw [if_pos (decide_eq_true hk.symm), if_pos ⟨hk, hmax⟩]
        · rw [if_neg (by simpa using fun heq : k₀ = k' => hk heq.symm),
            if_neg fun hcond => hk hcond.1]
      · rw [if_neg hmax, if_neg fun hcond => hmax hcond.2]
        rfl

end Commits

/-! ## Turns -/

/-- The event sends a lookup for the operation key. -/
def asks (operationKey : String) (e : Entry) : Bool :=
  match e.act with
  | .call (.lookupStatus _ key _) => decide (key = operationKey)
  | _ => false

/-- The event commits a transaction that has looked up the operation key. -/
def settles (operationKey : String) (e : Entry) : Bool :=
  match e.act with
  | .commit => decide (askedFor e.history = some operationKey)
  | _ => false

/-- Such a commit that resolved nothing. -/
def keeps (operationKey : String) (e : Entry) : Bool :=
  settles operationKey e && (entered e.history).isEmpty

/-- The operation key that the open transaction of a process has looked up. -/
def asking (s : State) (pid : Nat) : Option String := (s.procs pid).bind fun p => askedFor p.history

theorem asking_eq {s : State} {pid : Nat} {p : Proc Db Error Result Op} (hp : s.procs pid = some p) :
    asking s pid = askedFor p.history := by
  unfold asking
  rw [hp]
  rfl

theorem asking_eq_some {s : State} {pid : Nat} {operationKey : String}
    (h : asking s pid = some operationKey) :
    ∃ p, s.procs pid = some p ∧ askedFor p.history = some operationKey :=
  Option.bind_eq_some_iff.1 h

/-- What a careful step does to the lookups: nothing, or it sends one, or it commits. -/
inductive Turn (s s' : State) : Prop
  | quiet (hdb : s'.db = s.db) (hasking : ∀ pid, asking s' pid = asking s pid)
      (htrace : s'.trace = s.trace ∨ ∃ e, s'.trace = e :: s.trace ∧
        ∀ operationKey, asks operationKey e = false ∧ settles operationKey e = false)
  | lookup (pid : Nat) (p : Proc Db Error Result Op) (tool : ToolName) (operationKey : String)
      (provider : Option String) (hp : s.procs pid = some p) (hdb : s'.db = s.db)
      (hasking : ∀ q, asking s' q = if q = pid then some operationKey else asking s q)
      (htrace : s'.trace =
        s.event pid p (.call (.lookupStatus tool operationKey provider)) :: s.trace)
  | commit (pid : Nat) (p : Proc Db Error Result Op) (hp : s.procs pid = some p)
      (hdb : s'.db = p.session.view s.db)
      (hasking : ∀ q, asking s' q = if q = pid then none else asking s q)
      (htrace : s'.trace = s.event pid p .commit :: s.trace)

section Turns

variable {allowed : Op → Prop} {code : Op → M Result} {s s' : State}

theorem asking_update {pid : Nat} {p' : Proc Db Error Result Op}
    (hprocs : s'.procs = Function.update s.procs pid (some p')) {asked : Option String}
    (hasked : askedFor p'.history = asked) (q : Nat) :
    asking s' q = if q = pid then asked else asking s q := by
  unfold asking
  rw [hprocs]
  by_cases hq : q = pid
  · rw [if_pos hq, hq, Function.update_self]
    exact hasked
  · rw [if_neg hq, Function.update_of_ne hq]

/-- A step of one process that leaves its lookups alone. -/
theorem asking_same {pid : Nat} {p p' : Proc Db Error Result Op} (hp : s.procs pid = some p)
    (hprocs : s'.procs = Function.update s.procs pid (some p'))
    (hasked : askedFor p'.history = askedFor p.history) (q : Nat) : asking s' q = asking s q := by
  rw [asking_update hprocs hasked]
  split
  · next heq => rw [heq, asking_eq hp]
  · rfl

theorem turn_of_moves (hx : AllExact s) (hs : Sys.Moves code allowed s s') (hc : Careful s s') :
    Turn s s' := by
  cases hs with
  | launch op hop =>
      refine .quiet rfl (fun q => ?_) (Or.inl rfl)
      rw [asking_update (s := s) rfl rfl]
      split
      · next heq =>
          unfold asking
          rw [heq, hx.fresh _ (Nat.le_refl _)]
          rfl
      · rfl
  | @accept pid p st k e hp hw hprog he =>
      have hsame : askedFor (.did st e.resp :: p.history) = askedFor p.history → st ≠ .commit →
          Turn s (s.accept pid p st k e) := by
        intro hasked hst
        refine .quiet (Sys.reply_db he hst) (asking_same hp rfl hasked) (Or.inl ?_)
        cases st <;> first | rfl | exact absurd rfl hst
      cases st with
      | commit =>
          refine .commit pid p hp ?_ (asking_update rfl rfl) rfl
          simp only [Sys.reply?, Option.some.injEq] at he
          subst he
          rfl
      | rollback =>
          refine .quiet (Sys.reply_db he (by rintro ⟨⟩)) (asking_same hp rfl ?_) (Or.inl rfl)
          by_contra hasked
          -- A rollback would give up a lookup.
          obtain ⟨p', hp', hno⟩ := hc.finish pid p hp fun hnone => hasked hnone.symm
          rw [show (s.accept pid p .rollback k e).procs pid = some _ from Function.update_self ..,
            Option.some.injEq] at hp'
          exact hno p.history (hp' ▸ rfl)
      | draw o => cases he
      | call c => cases he
      | _ => exact hsame rfl (by rintro ⟨⟩)
  | @draw pid p o k v hp hw hprog => exact .quiet rfl (asking_same hp rfl rfl) (Or.inl rfl)
  | @answer pid p c k a hp hw hprog => exact .quiet rfl (asking_same hp rfl rfl) (Or.inl rfl)
  | @send pid p c k hp hw hprog =>
      have hother : askedFor (.sent c :: p.history) = askedFor p.history →
          (∀ operationKey, asks operationKey (s.event pid p (.call c)) = false) →
          Turn s (s.send pid p c k) := fun hasked hasks =>
        .quiet rfl (asking_same hp rfl hasked) (Or.inr ⟨_, rfl, fun key => ⟨hasks key, rfl⟩⟩)
      cases c with
      | lookupStatus tool key provider =>
          exact .lookup pid p tool key provider hp rfl (asking_update rfl rfl) rfl
      | _ => exact hother rfl fun _ => rfl
  | @kill pid p hp =>
      refine .quiet rfl (fun q => ?_) (Or.inl rfl)
      by_cases hq : q = pid
      · subst hq
        rw [asking_eq hp]
        by_contra hasked
        -- A process that has sent a lookup does not die.
        obtain ⟨p', hp', -⟩ := hc.finish q p hp fun hnone => hasked (by
          rw [hnone]
          unfold asking Sys.kill
          simp only [Function.update_self, Option.bind_none])
        simp only [Sys.kill, Function.update_self, reduceCtorEq] at hp'
      · unfold asking Sys.kill
        simp only [Function.update_of_ne hq]
  | tick d => exact .quiet rfl (fun _ => rfl) (Or.inl rfl)

end Turns

/-! ## Accounts of a run -/

/-- The lookups that were sent for `k`. -/
def calls (s : State) (k : RevisionKey) : Nat := s.trace.countP (asks (operationKeyFor k))

/-- The lookups for `k` whose transactions have committed. -/
def finished (s : State) (k : RevisionKey) : Nat := s.trace.countP (settles (operationKeyFor k))

/-- The lookups for `k` that have ended without resolving it. -/
def unresolved (s : State) (k : RevisionKey) : Nat := s.trace.countP (keeps (operationKeyFor k))

/-- The account of the revision `k`: what its lookups have cost. -/
structure Account (s : State) (k : RevisionKey) : Prop where
  tally : tallyOf k s.db = [] ∧ unresolved s k = 0 ∨
    ∃ id, tallyOf k s.db = [(id, unresolved s k)]
  idle : (∀ pid, asking s pid ≠ some (operationKeyFor k)) → calls s k = finished s k
  busy : ∀ pid, asking s pid = some (operationKeyFor k) →
    calls s k = finished s k + 1 ∧ unresolved s k < maxReconcileAttempts
  bounded : calls s k ≤ maxReconcileAttempts
  resolved : unresolved s k ≠ finished s k →
    ∃ t ∈ (revision s.db k).log, rank .executionUnknown < rank t.toState
  due : ∀ e ∈ s.trace, asks (operationKeyFor k) e = true → ∀ x ∈ rowsOf e.db k,
    x.nextReconcileAt.all (fun t => decide (t ≤ e.clock)) = true
  handed : s.db.outbox.countP (handsOver k) =
    if maxReconcileAttempts ≤ unresolved s k then 1 else 0

/-- The accounts of all revisions, and what the processes know of them. -/
structure Accounts (s : State) : Prop where
  current : ∀ k, Current (D := Db) (accountOf k) touchesBooks (.intent k) s
  fresh : ∀ k pid p, s.procs pid = some p → askedFor p.history = some (operationKeyFor k) →
    ∀ e ∈ booksRead p.history, tallyOf k e.1 = tallyOf k s.db
  account : ∀ k, Account s k

section Accounts

variable {rt : Runtime} {allowed : Op → Prop} {s s' : State} {k : RevisionKey}

theorem Accounts.single (h : Accounts s) : Single s.db := by
  intro k
  rcases (h.account k).tally with ⟨hnil, -⟩ | ⟨id, hone⟩
  · rw [hnil]
    exact Nat.zero_le _
  · rw [hone]
    exact Nat.le_refl _

/-- A process that has looked up `k` holds its row lock. -/
theorem held_of_asking (h : Run rt allowed s) {pid : Nat} {p : Proc Db Error Result Op}
    (hp : s.procs pid = some p) (hasked : askedFor p.history = some (operationKeyFor k)) :
    .intent k ∈ History.held p.history :=
  (lockedIn_of_asked ((filed_of_run h).procs pid p hp).1 hasked).held

/-- One process at a time has looked up `k` or holds its row lock. -/
theorem asking_unique (h : Run rt allowed s) (hx : AllExact s) {pid q : Nat}
    {p : Proc Db Error Result Op} (hp : s.procs pid = some p)
    (hheld : .intent k ∈ History.held p.history)
    (hasking : asking s q = some (operationKeyFor k)) : q = pid := by
  obtain ⟨pq, hpq, hasked⟩ := asking_eq_some hasking
  have hq := ((hx.procs q pq hpq).locks _).2 (held_of_asking h hpq hasked)
  have hpid := ((hx.procs pid p hp).locks _).2 hheld
  rw [hq] at hpid
  exact Option.some.inj hpid

/-- A transaction that has locked an unknown outcome still sees it. -/
theorem Accounts.state_of_locked (h : Accounts s) {pid : Nat} {p : Proc Db Error Result Op}
    (hp : s.procs pid = some p) {state : IntentState} (hl : LockedIn p.history k state) :
    ∃ a, s.db.intent? k = some a ∧ a.state = state := by
  obtain ⟨e, he, hk, a, ha, hstate⟩ := hl
  have haccount := h.current k pid p hp e he hk
  have hrevision : revision e.1 k = revision s.db k := congrArg Prod.fst haccount
  exact ⟨a, (congrArg Revision.intent hrevision).symm.trans ha, hstate⟩

/-! ### Quiet steps -/

theorem Account.quiet (h : Account s k) (hdb : s'.db = s.db)
    (hasking : ∀ pid, asking s' pid = some (operationKeyFor k) ↔
      asking s pid = some (operationKeyFor k))
    (htrace : s'.trace = s.trace ∨ ∃ e, s'.trace = e :: s.trace ∧
      asks (operationKeyFor k) e = false ∧ settles (operationKeyFor k) e = false) :
    Account s' k := by
  have hcounts : calls s' k = calls s k ∧ finished s' k = finished s k ∧
      unresolved s' k = unresolved s k := by
    unfold calls finished unresolved
    rcases htrace with heq | ⟨e, heq, hasks, hsettles⟩
    · rw [heq]
      exact ⟨rfl, rfl, rfl⟩
    · have hkeeps : keeps (operationKeyFor k) e = false := by
        unfold keeps
        rw [hsettles, Bool.false_and]
      rw [heq]
      simp only [List.countP_cons, hasks, hsettles, hkeeps, Bool.false_eq_true, if_false,
        Nat.add_zero, and_self]
  obtain ⟨hcalls, hfinished, hunresolved⟩ := hcounts
  refine ⟨?_, fun hidle => ?_, fun pid hbusy => ?_, ?_, ?_, fun e he hasks => ?_, ?_⟩
  · rw [hdb, hunresolved]
    exact h.tally
  · rw [hcalls, hfinished]
    exact h.idle fun pid hpid => hidle pid ((hasking pid).2 hpid)
  · rw [hcalls, hfinished, hunresolved]
    exact h.busy pid ((hasking pid).1 hbusy)
  · rw [hcalls]
    exact h.bounded
  · rw [hdb, hunresolved, hfinished]
    exact h.resolved
  · rcases htrace with heq | ⟨e', heq, hasks', -⟩
    · exact h.due e (heq ▸ he) hasks
    · rw [heq] at he
      rcases List.mem_cons.1 he with rfl | he
      · rw [hasks'] at hasks
        cases hasks
      · exact h.due e he hasks
  · rw [hdb, hunresolved]
    exact h.handed

/-! ### Lookups -/

theorem account_of_lookup (hrun : Run rt allowed s) (hrun' : Run rt allowed s') (hx : AllExact s)
    (htimely : Timely s) (hc : Careful s s') (h : Accounts s) {pid : Nat}
    {p : Proc Db Error Result Op} {tool : ToolName} {operationKey : String}
    {provider : Option String} (hp : s.procs pid = some p) (hdb : s'.db = s.db)
    (hasking : ∀ q, asking s' q = if q = pid then some operationKey else asking s q)
    (htrace : s'.trace = s.event pid p (.call (.lookupStatus tool operationKey provider)) :: s.trace)
    (k : RevisionKey) : Account s' k := by
  have hmem : s.event pid p (.call (.lookupStatus tool operationKey provider)) ∈ s'.trace := by
    rw [htrace]
    exact List.mem_cons_self
  have hpolls : Polls (fun _ _ => True) p.history operationKey :=
    ((filed_of_run hrun').trace _ hmem).2
  obtain ⟨hnone, x, -, hread, hop, hlocked, -⟩ := hpolls
  have hfree : asking s pid = none := (asking_eq hp).trans hnone
  have ha := h.account k
  by_cases hk : x.key = k
  · subst hk
    subst hop
    have hup := hc.lookup pid p tool provider x.key hp htrace
    have hidle : ∀ q, asking s q ≠ some (operationKeyFor x.key) := by
      intro q hq
      rw [asking_unique hrun hx hp hlocked.held hq, hfree] at hq
      cases hq
    -- The outcome is unknown, so no lookup has resolved it.
    have hopen : unresolved s x.key = finished s x.key := by
      by_contra hne
      obtain ⟨t, ht, hrank⟩ := ha.resolved hne
      obtain ⟨a, hintent, hstate⟩ := h.state_of_locked hp hlocked
      have hsound := sound_of_run (P := AnyPolicy) covers_any (fun op _ => admits_any op) hrun
      have hle := ((hsound.rows x.key).valid hintent).core.chain.rank_le t ht
      rw [hstate] at hle
      omega
    obtain ⟨e, he, hfound⟩ := hread
    obtain ⟨-, hmemx⟩ := id_of_execution? hfound
    have hxrow : x ∈ rowsOf s.db x.key := hup.read e he ▸ mem_rowsOf.2 ⟨hmemx, rfl⟩
    obtain ⟨σ, now, hselect, hrows, hdue⟩ := hup.listed
    have hnow : now ≤ s.clock := htimely.shown pid p σ now hp hselect
    -- The committed row is the one that was listed as due.
    have hcount : ∀ c ∈ rowsOf s.db x.key, c.reconcileAttempts = unresolved s x.key := by
      intro c hc'
      have hpair : (c.id, c.reconcileAttempts) ∈ tallyOf x.key s.db := List.mem_map_of_mem hc'
      rcases ha.tally with ⟨hnil, -⟩ | ⟨id, hone⟩
      · rw [hnil] at hpair
        cases hpair
      · rw [hone, List.mem_singleton] at hpair
        exact congrArg Prod.snd hpair
    have hlisted : ∀ c ∈ rowsOf s.db x.key, c.reconcileAttempts < maxReconcileAttempts ∧
        c.nextReconcileAt.all (fun t => decide (t ≤ s.clock)) = true := by
      intro c hc'
      have hd := hdue c (hrows ▸ hc')
      simp only [isDue, Bool.and_eq_true, decide_eq_true_eq] at hd
      refine ⟨hd.1.2, ?_⟩
      cases hnext : c.nextReconcileAt with
      | none => rfl
      | some t =>
          have ht := hd.2
          simp only [hnext, Option.all_some, decide_eq_true_eq] at ht ⊢
          exact Nat.le_trans ht hnow
    have hbudget : unresolved s x.key < maxReconcileAttempts :=
      hcount x hxrow ▸ (hlisted x hxrow).1
    have hasks : asks (operationKeyFor x.key)
        (s.event pid p (.call (.lookupStatus tool (operationKeyFor x.key) provider))) = true :=
      decide_eq_true rfl
    have hcalls : calls s' x.key = calls s x.key + 1 := by
      unfold calls
      rw [htrace, List.countP_cons_of_pos hasks]
    have hfinished : finished s' x.key = finished s x.key := by
      unfold finished
      rw [htrace]
      rfl
    have hunresolved : unresolved s' x.key = unresolved s x.key := by
      unfold unresolved
      rw [htrace]
      rfl
    have hbalance := ha.idle hidle
    refine ⟨?_, fun hno => ?_, fun q _ => ?_, ?_, ?_, fun e' he' hasks' => ?_, ?_⟩
    · rw [hdb, hunresolved]
      exact ha.tally
    · refine absurd ?_ (hno pid)
      rw [hasking, if_pos rfl]
    · rw [hcalls, hfinished, hunresolved]
      exact ⟨by omega, hbudget⟩
    · rw [hcalls]
      omega
    · rw [hdb, hunresolved, hfinished]
      exact ha.resolved
    · rw [htrace] at he'
      rcases List.mem_cons.1 he' with rfl | he'
      · exact fun c hc' => (hlisted c hc').2
      · exact ha.due e' he' hasks'
    · rw [hdb, hunresolved]
      exact ha.handed
  · have hne : operationKey ≠ operationKeyFor k := fun heq =>
      hk (operationKeyFor_injective (hop.symm.trans heq))
    refine ha.quiet hdb (fun q => ?_) (Or.inr ⟨_, htrace, decide_eq_false hne, rfl⟩)
    rw [hasking]
    split
    · next heq =>
        rw [heq, hfree]
        constructor
        · intro h'
          exact absurd (Option.some.inj h') hne
        · intro h'
          cases h'
    · exact Iff.rfl

/-! ### Commits -/

theorem account_of_commit (hrun : Run rt allowed s) (hx : AllExact s) (h : Accounts s) {pid : Nat}
    {p : Proc Db Error Result Op} (hcommit : CommitOf rt s pid p s'.db)
    (hasking : ∀ q, asking s' q = if q = pid then none else asking s q)
    (htrace : s'.trace = s.event pid p .commit :: s.trace)
    (heffect : Effect s p s'.db k) : Account s' k := by
  have hp := hcommit.proc
  have ha := h.account k
  have hlater := hcommit.later k
  have hhanded : s'.db.outbox.countP (handsOver k) = s.db.outbox.countP (handsOver k) +
      (escalated p.history).countP fun d => decide (payloadKey d = k) := by
    have hpending : p.session.pending.map Prod.snd = History.writes p.history :=
      hcommit.exactly.pending
    have hfold := handedOver_foldl k p.session.pending s.db
    rw [hpending] at hfold
    rw [hcommit.db]
    exact hfold
  have hcalls : calls s' k = calls s k := by
    unfold calls
    rw [htrace]
    rfl
  have hbounded : calls s' k ≤ maxReconcileAttempts := hcalls ▸ ha.bounded
  have hdue : ∀ e ∈ s'.trace, asks (operationKeyFor k) e = true → ∀ x ∈ rowsOf e.db k,
      x.nextReconcileAt.all (fun t => decide (t ≤ e.clock)) = true := by
    intro e he hasks
    rw [htrace] at he
    rcases List.mem_cons.1 he with rfl | he
    · cases hasks
    · exact ha.due e he hasks
  have hlog : ∀ t ∈ (revision s.db k).log, t ∈ (revision s'.db k).log :=
    fun t ht => hlater.log.subset ht
  by_cases hasked : askedFor p.history = some (operationKeyFor k)
  · have hmine : asking s pid = some (operationKeyFor k) := (asking_eq hp).trans hasked
    obtain ⟨hbusy, hbudget⟩ := ha.busy pid hmine
    have hsettles : settles (operationKeyFor k) (s.event pid p .commit) = true :=
      decide_eq_true hasked
    have hfinished : finished s' k = finished s k + 1 := by
      unfold finished
      rw [htrace, List.countP_cons_of_pos hsettles]
    -- No other process can have looked up the revision.
    have hfree : ∀ q, asking s' q ≠ some (operationKeyFor k) := by
      intro q hq
      rw [hasking] at hq
      split at hq
      · cases hq
      · next hne => exact hne (asking_unique hrun hx hp (held_of_asking hrun hp hasked) hq)
    cases heffect with
    | first id hold hnew hescalated hnone =>
        rw [hnone] at hasked
        cases hasked
    | same htally hescalated hentered =>
        have hne := hentered hasked
        have hunresolved : unresolved s' k = unresolved s k := by
          unfold unresolved
          rw [htrace, List.countP_cons_of_neg]
          unfold keeps
          rw [Bool.and_eq_true, not_and]
          exact fun _ hempty => hne (List.isEmpty_iff.1 hempty)
        refine ⟨?_, fun _ => by omega, fun q hq => absurd hq (hfree q), hbounded, fun _ => ?_, hdue,
          ?_⟩
        · rw [htally, hunresolved]
          exact ha.tally
        · -- A lookup ended with a transition, so it was resolved.
          obtain ⟨a, hintent, hstate⟩ := h.state_of_locked hp
            (lockedIn_of_asked ((filed_of_run hrun).procs pid p hp).1 hasked)
          have hmoved : ∃ t, entered p.history = [t] ∧ t.key = k ∧ t.toState ≠ .requested := by
            cases hcommit.deed with
            | plain _ _ _ hnone =>
                rw [hnone] at hasked
                cases hasked
            | claim _ _ _ _ _ _ _ _ _ _ _ hnone =>
                rw [hnone] at hasked
                cases hasked
            | keep _ _ _ _ _ _ _ _ _ _ hnil => exact absurd hnil hne
            | move k₀ t x new _ hentered' hkey _ _ hstatus _ _ _ _ hkeys =>
                refine ⟨t, hentered', ?_, ?_⟩
                · rcases hkeys with hnone | hkeys
                  · rw [hnone] at hasked
                    cases hasked
                  · rw [hasked] at hkeys
                    exact hkey.trans (operationKeyFor_injective (Option.some.inj hkeys)).symm
                · intro hreq
                  rw [hreq] at hstatus
                  cases hstatus
          obtain ⟨t, hentered', rfl, hreq⟩ := hmoved
          have henters := enters_of_commit hcommit hentered' hreq
          obtain ⟨a', hintent', hlegal⟩ := henters.legal
          rw [hintent, Option.some.injEq] at hintent'
          subst hintent'
          rw [hstate] at hlegal
          refine ⟨t, ?_, rank_lt_of_isLegal hlegal⟩
          rw [henters.log]
          exact List.mem_append_right _ (List.mem_singleton_self t)
        · rw [hhanded, hescalated, hunresolved, Nat.add_zero]
          exact ha.handed
    | counted id n hold hnew hescalated _ hentered =>
        have hunresolved : unresolved s' k = unresolved s k + 1 := by
          unfold unresolved
          rw [htrace, List.countP_cons_of_pos]
          unfold keeps
          rw [Bool.and_eq_true]
          exact ⟨decide_eq_true hasked, List.isEmpty_iff.2 hentered⟩
        have hn : n = unresolved s k := by
          rcases ha.tally with ⟨hnil, -⟩ | ⟨id', hone⟩
          · rw [hnil] at hold
            cases hold
          · rw [hone] at hold
            cases hold
            rfl
        subst hn
        refine ⟨Or.inr ⟨id, ?_⟩, fun _ => by omega, fun q hq => absurd hq (hfree q), hbounded,
          fun hne => ?_, hdue, ?_⟩
        · rw [hnew, hunresolved]
        · obtain ⟨t, ht, hrank⟩ := ha.resolved (by omega)
          exact ⟨t, hlog t ht, hrank⟩
        · rw [hhanded, hescalated, ha.handed, if_neg (by omega), Nat.zero_add, hunresolved]
  · have hsettles : settles (operationKeyFor k) (s.event pid p .commit) = false :=
      decide_eq_false hasked
    have hfinished : finished s' k = finished s k := by
      unfold finished
      rw [htrace, List.countP_cons_of_neg (by rw [hsettles]; exact Bool.false_ne_true)]
    have hunresolved : unresolved s' k = unresolved s k := by
      unfold unresolved
      rw [htrace, List.countP_cons_of_neg]
      unfold keeps
      rw [hsettles]
      exact Bool.false_ne_true
    have hothers : ∀ q, asking s' q = some (operationKeyFor k) ↔
        asking s q = some (operationKeyFor k) := by
      intro q
      rw [hasking]
      split
      · next heq =>
          rw [heq, asking_eq hp]
          constructor
          · intro h'
            cases h'
          · intro h'
            exact absurd h' hasked
      · exact Iff.rfl
    refine ⟨?_, fun hidle => ?_, fun q hq => ?_, hbounded, fun hne => ?_, hdue, ?_⟩
    · rw [hunresolved]
      cases heffect with
      | same htally => exact htally ▸ ha.tally
      | first id hold hnew =>
          rcases ha.tally with ⟨-, hzero⟩ | ⟨id', hone⟩
          · exact Or.inr ⟨id, hzero.symm ▸ hnew⟩
          · rw [hone] at hold
            cases hold
      | counted id n hold hnew hescalated hasked' => exact absurd hasked' hasked
    · rw [hcalls, hfinished]
      exact ha.idle fun q hq => hidle q ((hothers q).2 hq)
    · rw [hcalls, hfinished, hunresolved]
      exact ha.busy q ((hothers q).1 hq)
    · rw [hunresolved, hfinished] at hne
      obtain ⟨t, ht, hrank⟩ := ha.resolved hne
      exact ⟨t, hlog t ht, hrank⟩
    · have hnothing : (escalated p.history).countP (fun d => decide (payloadKey d = k)) = 0 := by
        cases heffect with
        | same htally hescalated => exact hescalated
        | first id hold hnew hescalated =>
            rw [hescalated]
            rfl
        | counted id n hold hnew hescalated hasked' => exact absurd hasked' hasked
      rw [hhanded, hnothing, hunresolved, Nat.add_zero]
      exact ha.handed

/-! ### Runs -/

/-- The step of what the processes know. -/
theorem fresh_step (hrun : Run rt allowed s) (hx : AllExact s)
    (hs : Sys.Moves (code rt) allowed s s') (hc : Careful s s') (hturn : Turn s s')
    (h : Accounts s)
    (hlocked : ∀ pid p, s.procs pid = some p → s'.trace = s.event pid p .commit :: s.trace →
      accountOf k s'.db ≠ accountOf k s.db → .intent k ∈ History.held p.history)
    {q : Nat} {pq : Proc Db Error Result Op} (hq : s'.procs q = some pq)
    (hasked : askedFor pq.history = some (operationKeyFor k)) :
    ∀ e ∈ booksRead pq.history, tallyOf k e.1 = tallyOf k s'.db := by
  have hasking : asking s' q = some (operationKeyFor k) := (asking_eq hq).trans hasked
  have hold : ∀ p, s.procs q = some p → ∀ e ∈ booksRead p.history,
      tallyOf k e.1 = tallyOf k s.db := by
    intro p hp e he
    have hbefore : asking s q = some (operationKeyFor k) → tallyOf k e.1 = tallyOf k s.db :=
      fun h' => h.fresh k q p hp ((asking_eq hp).symm.trans h') e he
    cases hturn with
    | quiet _ hasking' => exact hbefore ((hasking' q).symm.trans hasking)
    | commit pid p' _ _ hasking' =>
        rw [hasking'] at hasking
        split at hasking
        · cases hasking
        · exact hbefore hasking
    | lookup pid p' tool operationKey provider hp' _ hasking' htrace =>
        rw [hasking'] at hasking
        split at hasking
        · next heq =>
            -- The lookup is sent right now, on what is committed.
            subst heq
            rw [hp', Option.some.injEq] at hp
            subst hp
            cases hasking
            have hrows := (hc.lookup q p' tool provider k hp' htrace).read e he
            unfold tallyOf
            rw [hrows]
        · exact hbefore hasking
  intro e he
  cases observes_of_moves hx (untouching_accountOf k) hs hq with
  | new hh =>
      rw [hh] at hasked
      cases hasked
  | same p hp hh hdb =>
      rw [hh] at he hasked
      rw [hold p hp e he]
      rcases hdb with hdb | ⟨pid, p', hne, hp', htrace⟩
      · rw [hdb]
      · by_contra hchanged
        -- The committing process would have to hold the row lock of this one.
        have hheld := hlocked pid p' hp' htrace fun heq => hchanged (congrArg Prod.snd heq).symm
        exact hne (asking_unique hrun hx hp' hheld ((asking_eq hp).trans hasked)).symm
  | more p o hp hh hdb hσ =>
      rw [hh] at he
      rw [hdb]
      rcases mem_reads_cons he with ⟨hmem, -⟩ | ⟨hclean, hseen, -⟩
      · exact hold p hp e hmem
      · exact congrArg Prod.snd (hσ _ hseen hclean)
  | commit p hp hh htrace =>
      rw [hh] at hasked
      cases hasked

theorem accounts_step (hrun : Run rt allowed s) (hrun' : Run rt allowed s')
    (hs : Sys.Moves (code rt) allowed s s') (hc : Careful s s') (h : Accounts s) :
    Accounts s' := by
  have hreach := hrun
  obtain ⟨assignments, bundles, hreach⟩ := hreach
  have hx := exact_of_reachable hreach
  have hturn := turn_of_moves hx hs hc
  have hview : ∀ pid p, s.procs pid = some p → s'.trace = s.event pid p .commit :: s.trace →
      s'.db = p.session.view s.db → ∀ k, Effect s p s'.db k := by
    intro pid p hp htrace hdb
    exact effect_of_commit (commitOf_of_event hrun hrun' hp htrace hdb) (executionIds_nodup hrun)
      h.single h.current fun k hasked => h.fresh k pid p hp hasked
  -- A commit that changes the account of a revision holds the lock of its intent.
  have hlocked : ∀ k pid p, s.procs pid = some p → s'.trace = s.event pid p .commit :: s.trace →
      accountOf k s'.db ≠ accountOf k s.db → .intent k ∈ History.held p.history := by
    intro k pid p hp htrace hne
    rcases commitOf_of_moves hrun hrun' hs with hdb | ⟨pid', p', hcommit, htrace'⟩
    · rw [hdb] at hne
      exact absurd rfl hne
    · have hevents := (List.cons.inj (htrace.symm.trans htrace')).1
      have hpid : pid = pid' := congrArg Event.pid hevents
      subst hpid
      have hproc := hcommit.proc
      rw [hp, Option.some.injEq] at hproc
      subst hproc
      rcases hcommit.revision_cases k with hrevision | ⟨hlock, -⟩
      · cases hview pid p hp htrace hcommit.db k with
        | same htally => exact absurd (Prod.ext hrevision htally) hne
        | first id hold hnew hescalated hasked hheld => exact hheld
        | counted id n hold hnew hescalated hasked hentered hheld => exact hheld
      · exact (hcommit.exactly.locks _).1 hlock
  refine ⟨fun k => ?_, fun k q pq hq hasked => fresh_step hrun hx hs hc hturn h (hlocked k) hq hasked,
    fun k => ?_⟩
  · exact (h.current k).step hx (untouching_accountOf k) hs fun pid p hp htrace hne =>
      ((hx.procs pid p hp).locks _).2 (hlocked k pid p hp htrace hne)
  · cases hturn with
    | quiet hdb hasking htrace =>
        refine (h.account k).quiet hdb (fun pid => by rw [hasking]) ?_
        rcases htrace with heq | ⟨e, heq, hno⟩
        · exact Or.inl heq
        · exact Or.inr ⟨e, heq, hno _⟩
    | lookup pid p tool operationKey provider hp hdb hasking htrace =>
        exact account_of_lookup hrun hrun' hx (timely_of_reachable hreach) hc h hp hdb hasking htrace k
    | commit pid p hp hdb hasking htrace =>
        exact account_of_commit hrun hx h (commitOf_of_event hrun hrun' hp htrace hdb) hasking htrace
          (hview pid p hp htrace hdb k)

/-- A run whose steps are all careful. -/
inductive CarefulRun (rt : Runtime) (allowed : Op → Prop) (s : State) : Prop
  | of (assignments : List RoleAssignmentRow) (bundles : List PolicyBundleRow)
      (h : Sys.Guided (code rt) allowed Careful (initialStore assignments bundles) s)

theorem CarefulRun.run (h : CarefulRun rt allowed s) : Run rt allowed s := by
  obtain ⟨assignments, bundles, h⟩ := h
  exact .of assignments bundles h.reachable

/-- In a careful run every lookup is paid for. -/
theorem accounts_of_run (h : CarefulRun rt allowed s) : Accounts s := by
  obtain ⟨assignments, bundles, h⟩ := h
  refine h.invariant (J := Accounts) ?_ fun s s' hr hr' hs hc hJ =>
    accounts_step (.of assignments bundles hr) (.of assignments bundles hr') hs hc hJ
  exact
    { current := fun _ _ _ hp => by cases hp
      fresh := fun _ _ _ hp => by cases hp
      account := fun k =>
        { tally := Or.inl ⟨rfl, rfl⟩
          idle := fun _ => rfl
          busy := fun _ hbusy => by cases hbusy
          bounded := Nat.zero_le _
          resolved := fun hne => absurd rfl hne
          due := fun e he => absurd he List.not_mem_nil
          handed := rfl } }

end Accounts

end HitlOps.Lifecycle
