import HitlOps.Lifecycle.Runs

/-!
# At most one dispatch

A permit is used at most once, because it is credit that one process holds: the commit that enters
`EXECUTING` creates it, the call of `adapter.execute` spends it, and a log enters `EXECUTING` once.
`Exclusive` is the invariant over runs. Revisions are told apart in the trace by the operation key
that the adapter receives, which determines them.
-/

set_option autoImplicit false

namespace HitlOps.Lifecycle

open HitlOps.Python HitlOps.Domain HitlOps.Infrastructure HitlOps.Application HitlOps.Adapters
open HitlOps.Transaction

/-! ## Operation keys -/

/-- A list is cut in one way at the last occurrence of `c`. -/
theorem append_cons_inj_of_notMem {α : Type} {c : α} {l l' r r' : List α} (hr : c ∉ r)
    (hr' : c ∉ r') (h : l ++ c :: r = l' ++ c :: r') : l = l' ∧ r = r' := by
  rcases List.append_eq_append_iff.1 h with ⟨m, hl, hm⟩ | ⟨m, hl, hm⟩
  · cases m with
    | nil =>
        rw [List.append_nil] at hl
        rw [List.nil_append, List.cons.injEq] at hm
        exact ⟨hl.symm, hm.2⟩
    | cons x m =>
        rw [List.cons_append, List.cons.injEq] at hm
        rw [hm.2] at hr
        exact absurd (List.mem_append_right m List.mem_cons_self) hr
  · cases m with
    | nil =>
        rw [List.append_nil] at hl
        rw [List.nil_append, List.cons.injEq] at hm
        exact ⟨hl, hm.2.symm⟩
    | cons x m =>
        rw [List.cons_append, List.cons.injEq] at hm
        rw [hm.2] at hr'
        exact absurd (List.mem_append_right m List.mem_cons_self) hr'

theorem colon_notMem_uuid (u : UUID) : ':' ∉ u.text.toList := by
  intro hmem
  have hcanonical := u.canonical
  unfold isUuidText at hcanonical
  rw [Bool.and_eq_true, List.all_eq_true] at hcanonical
  obtain ⟨i, hi, hget⟩ := List.getElem_of_mem hmem
  have hpair : (':', i) ∈ u.text.toList.zipIdx := by
    rw [List.mem_zipIdx_iff_getElem?, List.getElem?_eq_getElem hi, hget]
  have hcolon := hcanonical.2 _ hpair
  -- A colon is neither a dash nor a hexadecimal digit.
  have hdash : (':' = '-') = False := by decide
  have hhex : isHexDigit ':' = false := by decide
  simp only [hdash, hhex, decide_false] at hcolon
  split at hcolon <;> cases hcolon

theorem colon_notMem_repr (n : Nat) : ':' ∉ (toString n).toList := by
  intro hmem
  have hdigit := Nat.isDigit_of_mem_toDigits (b := 10) (by decide) (by decide)
    (Nat.toList_repr ▸ hmem)
  revert hdigit
  decide

theorem toString_injective {m n : Nat} (h : toString m = toString n) : m = n := by
  have hdigits : Nat.toDigits 10 m = Nat.toDigits 10 n := by
    rw [← Nat.toList_repr, ← Nat.toList_repr]
    exact congrArg String.toList h
  rw [← Nat.ofDigitChars_toDigits (b := 10) (n := m) (by decide) (by decide), hdigits,
    Nat.ofDigitChars_toDigits (by decide) (by decide)]

theorem operationKeyFor_toList (k : RevisionKey) : (operationKeyFor k).toList =
    (k.tenantId.toList ++ ':' :: k.intentId.text.toList) ++ ':' :: (toString k.revision).toList := by
  have hcolon : ":".toList = [':'] := rfl
  simp only [operationKeyFor, String.toList_append, hcolon, List.append_assoc,
    List.cons_append, List.nil_append]

/-- The operation key determines the revision. -/
theorem operationKeyFor_injective {k k' : RevisionKey} (h : operationKeyFor k = operationKeyFor k') :
    k = k' := by
  have hlist := congrArg String.toList h
  rw [operationKeyFor_toList, operationKeyFor_toList] at hlist
  obtain ⟨hfront, hrev⟩ :=
    append_cons_inj_of_notMem (colon_notMem_repr _) (colon_notMem_repr _) hlist
  obtain ⟨htenant, huuid⟩ :=
    append_cons_inj_of_notMem (colon_notMem_uuid _) (colon_notMem_uuid _) hfront
  obtain ⟨tenantId, ⟨text, canonical⟩, revision⟩ := k
  obtain ⟨tenantId', ⟨text', canonical'⟩, revision'⟩ := k'
  obtain rfl : tenantId = tenantId' := String.toList_inj.1 htenant
  obtain rfl : text = text' := String.toList_inj.1 huuid
  obtain rfl : revision = revision' := toString_injective (String.toList_inj.1 hrev)
  rfl

/-! ## Credit -/

/-- The event sends the revision `k` to its adapter. -/
def Invokes (e : Entry) (k : RevisionKey) : Prop :=
  ∃ tool command, e.act = .call (.execute tool command) ∧ command.operationKey = operationKeyFor k

/-- The committed log of the revision has entered `EXECUTING`. -/
def Started (db : Store) (k : RevisionKey) : Prop :=
  ∃ t ∈ db.transitionsOf k, t.toState = .executing

theorem Started.mono {db db' : Store} {k : RevisionKey} (h : Started db k)
    (hl : Later (revision db k) (revision db' k)) : Started db' k := by
  obtain ⟨t, ht, hte⟩ := h
  exact ⟨t, hl.log.subset ht, hte⟩

/-- A log that is about to enter `EXECUTING` has not done so before. -/
theorem not_started {db : Store} {k : RevisionKey} {s s' : IntentState}
    {es : List StateTransition} (h : Chain (db.transitionsOf k) s)
    (h' : Chain (db.transitionsOf k ++ es) s') (hes : ∃ t ∈ es, t.toState = .executing) :
    ¬ Started db k := by
  rintro ⟨u, hu, hue⟩
  obtain ⟨t, ht, hte⟩ := hes
  have hlt := h'.rank_lt_of_append h es rfl t ht
  have hle := h.rank_le u hu
  rw [hue] at hle
  rw [hte] at hlt
  exact absurd hle (Nat.not_le_of_lt hlt)

section Credit

variable {rt : Runtime} {P : PolicyEvaluation → Prop} {allowed : Op → Prop} {s s' : State}

/-- The permit that a process may still use. -/
def creditOf (p : Proc Db Error Result Op) : Option ExecutionPermit :=
  (ghostAfter p.history).duty.credit

/-- Credit is exclusive, and a revision without an owner of its credit stays as it is. -/
structure Exclusive (s : State) : Prop where
  holders : ∀ pid p permit, s.procs pid = some p → creditOf p = some permit →
    Started s.db permit.key ∧ ∀ e ∈ s.trace, ¬ Invokes e permit.key
  unique : ∀ pid p pid' p' permit permit', s.procs pid = some p → creditOf p = some permit →
    s.procs pid' = some p' → creditOf p' = some permit' → permit.key = permit'.key → pid = pid'
  events : ∀ e ∈ s.trace, ∀ k, Invokes e k → Started s.db k
  once : s.trace.Pairwise fun e e' => ∀ k, Invokes e k → ¬ Invokes e' k

theorem exclusive_initial (db : Store) : Exclusive (Sys.initial db : State) where
  holders := fun pid p permit hp => by cases hp
  unique := fun pid p pid' p' permit permit' hp => by cases hp
  events := fun e he => by cases he
  once := .nil

/-- The credit of a process changes at commits and when a call is sent. -/
theorem credit_observe (g : Ghost) (o : Obs Db) (ho : ∀ r, o ≠ .did .commit r)
    (hc : ∀ c, o ≠ .sent c) : (g.observe o).duty.credit = g.duty.credit := by
  cases o with
  | sent c => exact absurd rfl (hc c)
  | did st r =>
      cases st with
      | commit => exact absurd rfl (ho r)
      | write w =>
          show (g.wrote w).duty.credit = _
          rw [(wrote_eq g w).2.2.1]
      | mark m => cases m <;> rfl
      | draw o => cases o <;> rfl
      | _ => rfl

/-- A step that leaves store and trace, and gives no process more credit. -/
theorem exclusive_procs (h : Exclusive s) (hdb : s'.db = s.db) (htrace : s'.trace = s.trace)
    (hprocs : ∀ pid p permit, s'.procs pid = some p → creditOf p = some permit →
      ∃ q, s.procs pid = some q ∧ creditOf q = some permit) : Exclusive s' where
  holders := fun pid p permit hp hcredit => by
    obtain ⟨q, hq, hcq⟩ := hprocs pid p permit hp hcredit
    rw [hdb, htrace]
    exact h.holders pid q permit hq hcq
  unique := fun pid p pid' p' permit permit' hp hcredit hp' hcredit' hkey => by
    obtain ⟨q, hq, hcq⟩ := hprocs pid p permit hp hcredit
    obtain ⟨q', hq', hcq'⟩ := hprocs pid' p' permit' hp' hcredit'
    exact h.unique pid q pid' q' permit permit' hq hcq hq' hcq' hkey
  events := by
    rw [hdb, htrace]
    exact h.events
  once := by
    rw [htrace]
    exact h.once

/-- Credit after a change of one process. -/
theorem credit_update {pid : Nat} {p' : Proc Db Error Result Op}
    (hprocs : s'.procs = Function.update s.procs pid (some p'))
    (hcredit : ∀ permit, creditOf p' = some permit →
      ∃ q, s.procs pid = some q ∧ creditOf q = some permit) :
    ∀ pid' p permit, s'.procs pid' = some p → creditOf p = some permit →
      ∃ q, s.procs pid' = some q ∧ creditOf q = some permit := by
  intro pid' p permit hp hc
  rw [hprocs] at hp
  by_cases hpid : pid' = pid
  · subst hpid
    rw [Function.update_self, Option.some.injEq] at hp
    subst hp
    exact hcredit permit hc
  · rw [Function.update_of_ne hpid] at hp
    exact ⟨p, hp, hc⟩

theorem not_invokes_commit {e : Entry} (hact : e.act = .commit) (k : RevisionKey) :
    ¬ Invokes e k := by
  rintro ⟨tool, command, hcall, _⟩
  rw [hact] at hcall
  cases hcall

/-- The permit of a commit is for a revision that enters `EXECUTING` now. -/
theorem started_of_permit {e : Entry} (hs : ∀ k, WellFormed P k (revision e.db k))
    (hs' : ∀ k, WellFormed P k (revision e.after k)) (hc : Committed rt P e)
    {permit : ExecutionPermit} (hp : (ghostAfter e.history).duty.permit = some permit) :
    ¬ Started e.db permit.key ∧ Started e.after permit.key := by
  cases hc with
  | untouched h same =>
      rw [h.permit] at hp
      cases hp
  | touched k b hb locked h valid later same =>
      obtain ⟨rfl, t, ht, hte⟩ := h.permit permit hp
      have hlog : e.after.transitionsOf permit.key = e.db.transitionsOf permit.key ++
        (ghostAfter e.history).entered := h.log
      refine ⟨?_, t, ?_, hte⟩
      · obtain ⟨a, row, bundle, ha, -⟩ := (h.executing ⟨t, ht, hte⟩).evidence
        have hv := (hs permit.key).valid ha
        obtain ⟨a', ha', -⟩ := later.identity a ha
        have hv' := (hs' permit.key).valid ha'
        have hchain : Chain (e.after.transitionsOf permit.key) a'.state := hv'.core.chain
        rw [hlog] at hchain
        exact not_started hv.core.chain hchain ⟨t, ht, hte⟩
      · rw [hlog]
        exact List.mem_append_right _ ht

theorem exclusive_commit (hs : (contract rt P).Sound s) (hs' : (contract rt P).Sound s')
    (h : Exclusive s) {pid : Nat} {p p' : Proc Db Error Result Op} (hp : s.procs pid = some p)
    (hp' : p'.op = p.op ∧ p'.history = .did .commit () :: p.history)
    (hok : (contract rt P).EventOk (s.event pid p .commit))
    (hprocs : s'.procs = Function.update s.procs pid (some p'))
    (hdb : s'.db = (s.event pid p .commit).after)
    (htrace : s'.trace = s.event pid p .commit :: s.trace) : Exclusive s' := by
  have hcom := committed_of_eventOk hok rfl
  have hlater : ∀ k, Later (revision s.db k) (revision s'.db k) := fun k => by
    rw [hdb]
    exact hcom.later k
  -- The credit of the committing process is its old credit or the permit of this transaction.
  have hcredit' : creditOf p' = (ghostAfter p.history).duty.permit.or (creditOf p) := by
    unfold creditOf
    rw [hp'.2]
    rfl
  have hsplit : ∀ q qp permit, s'.procs q = some qp → creditOf qp = some permit →
      (∃ q₀, s.procs q = some q₀ ∧ creditOf q₀ = some permit) ∨
        (q = pid ∧ (ghostAfter p.history).duty.permit = some permit) := by
    intro q qp permit hq hc
    rw [hprocs] at hq
    by_cases hqp : q = pid
    · subst hqp
      rw [Function.update_self, Option.some.injEq] at hq
      subst hq
      rw [hcredit'] at hc
      rcases Option.or_eq_some_iff.1 hc with hc | ⟨-, hc⟩
      · exact Or.inr ⟨rfl, hc⟩
      · exact Or.inl ⟨p, hp, hc⟩
    · rw [Function.update_of_ne hqp] at hq
      exact Or.inl ⟨qp, hq, hc⟩
  have hfresh : ∀ permit, (ghostAfter p.history).duty.permit = some permit →
      ¬ Started s.db permit.key ∧ Started s'.db permit.key := fun permit hperm => by
    have := started_of_permit (e := s.event pid p .commit) hs.rows (fun k => hdb ▸ hs'.rows k) hcom hperm
    rw [← hdb] at this
    exact this
  refine ⟨fun q qp permit hq hc => ?_, fun q qp q' qp' permit permit' hq hc hq' hc' hkey => ?_,
    fun e he k hk => ?_, ?_⟩
  · have hnone : ¬ Invokes (s.event pid p .commit) permit.key := not_invokes_commit rfl _
    rw [htrace]
    rcases hsplit q qp permit hq hc with ⟨q₀, hq₀, hc₀⟩ | ⟨rfl, hperm⟩
    · obtain ⟨hst, hno⟩ := h.holders q q₀ permit hq₀ hc₀
      refine ⟨hst.mono (hlater _), fun e he => ?_⟩
      rcases List.mem_cons.1 he with rfl | he
      · exact hnone
      · exact hno e he
    · obtain ⟨hnot, hst⟩ := hfresh permit hperm
      refine ⟨hst, fun e he => ?_⟩
      rcases List.mem_cons.1 he with rfl | he
      · exact hnone
      · exact fun hinv => hnot (h.events e he _ hinv)
  · rcases hsplit q qp permit hq hc with ⟨q₀, hq₀, hc₀⟩ | ⟨rfl, hperm⟩
    · rcases hsplit q' qp' permit' hq' hc' with ⟨q₀', hq₀', hc₀'⟩ | ⟨rfl, hperm'⟩
      · exact h.unique q q₀ q' q₀' permit permit' hq₀ hc₀ hq₀' hc₀' hkey
      · have hst := (h.holders q q₀ permit hq₀ hc₀).1
        rw [hkey] at hst
        exact absurd hst (hfresh permit' hperm').1
    · rcases hsplit q' qp' permit' hq' hc' with ⟨q₀', hq₀', hc₀'⟩ | ⟨rfl, hperm'⟩
      · have hst := (h.holders q' q₀' permit' hq₀' hc₀').1
        rw [← hkey] at hst
        exact absurd hst (hfresh permit hperm).1
      · rfl
  · rw [htrace] at he
    rcases List.mem_cons.1 he with rfl | he
    · exact absurd hk (not_invokes_commit rfl k)
    · exact (h.events e he k hk).mono (hlater k)
  · rw [htrace]
    exact List.pairwise_cons.2 ⟨fun e he k hk => absurd hk (not_invokes_commit rfl k), h.once⟩

/-- What a call of `adapter.execute` is backed by. -/
theorem executing_of_eventOk {e : Entry} {tool : ToolName} {command : AdapterCommand}
    (hact : e.act = .call (.execute tool command)) (hok : (contract rt P).EventOk e) :
    ∃ k a permit, e.locks (.intent k) = some e.pid ∧ e.db.intent? k = some a ∧
      a.state = .executing ∧ (ghostAfter e.history).duty.credit = some permit ∧ permit.key = k ∧
      command.operationKey = operationKeyFor k ∧ tool = a.tool ∧
      command.parameters = a.canonicalParameters ∧ recomputeDigest rt a = a.intentDigest := by
  simp only [Contract.EventOk, hact] at hok
  obtain ⟨held, ⟨k, base, a, permit, rfl, ha, hstate, hcredit, hkey, hop, htool, hparams, hdig⟩,
    hheld⟩ := hok
  obtain ⟨hlock, rfl⟩ := hheld k base base rfl
  exact ⟨k, a, permit, hlock, ha, hstate, hcredit, hkey, hop, htool, hparams, hdig⟩

theorem exclusive_call (h : Exclusive s) {pid : Nat}
    {p p' : Proc Db Error Result Op} {c : Call} (hp : s.procs pid = some p)
    (hp' : p'.op = p.op ∧ p'.history = .sent c :: p.history)
    (hok : (contract rt P).EventOk (s.event pid p (.call c)))
    (hprocs : s'.procs = Function.update s.procs pid (some p')) (hdb : s'.db = s.db)
    (htrace : s'.trace = s.event pid p (.call c) :: s.trace) : Exclusive s' := by
  by_cases hexec : ∃ tool command, c = .execute tool command
  · obtain ⟨tool, command, rfl⟩ := hexec
    obtain ⟨k, a, permit, -, ha, hstate, hcredit, rfl, hop, -⟩ := executing_of_eventOk rfl hok
    -- The call names one revision, and the process gives its credit away.
    have hkey : ∀ k', Invokes (s.event pid p (.call (.execute tool command))) k' →
        k' = permit.key := by
      rintro k' ⟨tool', command', hcall, hop'⟩
      cases hcall
      exact operationKeyFor_injective (hop'.symm.trans hop)
    have hnone : creditOf p' = none := by
      unfold creditOf
      rw [hp'.2]
      rfl
    obtain ⟨hst, hno⟩ := h.holders pid p permit hp hcredit
    have hsplit : ∀ q qp permit', s'.procs q = some qp → creditOf qp = some permit' →
        s.procs q = some qp ∧ q ≠ pid := by
      intro q qp permit' hq hc
      rw [hprocs] at hq
      by_cases hqp : q = pid
      · subst hqp
        rw [Function.update_self, Option.some.injEq] at hq
        subst hq
        rw [hnone] at hc
        cases hc
      · rw [Function.update_of_ne hqp] at hq
        exact ⟨hq, hqp⟩
    refine ⟨fun q qp permit' hq hc => ?_,
      fun q qp q' qp' permit₁ permit₂ hq hc hq' hc' hk => ?_, fun e he k' hk => ?_, ?_⟩
    · obtain ⟨hq₀, hqp⟩ := hsplit q qp permit' hq hc
      obtain ⟨hst', hno'⟩ := h.holders q qp permit' hq₀ hc
      rw [hdb, htrace]
      refine ⟨hst', fun e he => ?_⟩
      rcases List.mem_cons.1 he with rfl | he
      · intro hinv
        exact hqp (h.unique q qp pid p permit' permit hq₀ hc hp hcredit (hkey _ hinv))
      · exact hno' e he
    · exact h.unique q qp q' qp' permit₁ permit₂ (hsplit q qp permit₁ hq hc).1 hc
        (hsplit q' qp' permit₂ hq' hc').1 hc' hk
    · rw [hdb]
      rw [htrace] at he
      rcases List.mem_cons.1 he with rfl | he
      · rw [hkey k' hk]
        exact hst
      · exact h.events e he k' hk
    · rw [htrace]
      refine List.pairwise_cons.2 ⟨fun e he k' hk => ?_, h.once⟩
      rw [hkey k' hk]
      exact hno e he
  · -- Any other call keeps the credit.
    have hnot : ∀ k, ¬ Invokes (s.event pid p (.call c)) k := by
      rintro k ⟨tool, command, hcall, _⟩
      cases hcall
      exact hexec ⟨tool, command, rfl⟩
    have hcredit' : creditOf p' = creditOf p := by
      unfold creditOf
      rw [hp'.2, ghostAfter_cons]
      show ((ghostAfter p.history).sent c).duty.credit = _
      rw [sent_of_aside fun tool command hc => hexec ⟨tool, command, hc⟩]
    have hmid : Exclusive { s' with trace := s.trace } :=
      exclusive_procs h hdb rfl (credit_update hprocs fun permit hc =>
        ⟨p, hp, hcredit' ▸ hc⟩)
    refine ⟨fun q qp permit hq hc => ?_, hmid.unique, fun e he k hk => ?_, ?_⟩
    · obtain ⟨hst, hno⟩ := hmid.holders q qp permit hq hc
      rw [htrace]
      refine ⟨hst, fun e he => ?_⟩
      rcases List.mem_cons.1 he with rfl | he
      · exact hnot _
      · exact hno e he
    · rw [htrace] at he
      rcases List.mem_cons.1 he with rfl | he
      · exact absurd hk (hnot k)
      · exact hmid.events e he k hk
    · rw [htrace]
      exact List.pairwise_cons.2 ⟨fun e he k hk => absurd hk (hnot k), hmid.once⟩

/-- One step keeps credit exclusive. -/
theorem exclusive_step (hs : (contract rt P).Sound s) (hs' : (contract rt P).Sound s')
    (hstep : (contract rt P).Progress allowed s s') (h : Exclusive s) : Exclusive s' := by
  cases hstep with
  | spawn op p hop hp hprocs hnext hdb htrace =>
      refine exclusive_procs h hdb htrace (credit_update hprocs fun permit hc => ?_)
      unfold creditOf at hc
      rw [hp.2] at hc
      cases hc
  | quiet pid p p' o hp hp' hseen ho hc hprocs hnext hdb htrace =>
      refine exclusive_procs h hdb htrace (credit_update hprocs fun permit hc' => ⟨p, hp, ?_⟩)
      unfold creditOf at hc'
      rw [hp'.2, ghostAfter_cons, credit_observe _ o ho hc] at hc'
      exact hc'
  | commit pid p p' hp hp' hok hprocs hnext hdb htrace =>
      exact exclusive_commit hs hs' h hp hp' hok hprocs hdb htrace
  | call pid p p' c hp hp' hok hprocs hnext hdb htrace =>
      exact exclusive_call h hp hp' hok hprocs hdb htrace
  | crash pid hprocs hnext hdb htrace =>
      refine exclusive_procs h hdb htrace fun q p permit hq hc => ?_
      rw [hprocs] at hq
      by_cases hqp : q = pid
      · subst hqp
        rw [Function.update_self] at hq
        cases hq
      · rw [Function.update_of_ne hqp] at hq
        exact ⟨p, hq, hc⟩
  | tick hprocs hnext hdb htrace =>
      exact exclusive_procs h hdb htrace fun q p permit hq hc => ⟨p, hprocs ▸ hq, hc⟩

theorem exclusive_of_run (hP : Covers rt P) (hallowed : ∀ op, allowed op → Admits P op)
    (h : Run rt allowed s) : Exclusive s :=
  invariant_of_run hP hallowed (fun _ _ => exclusive_initial _)
    (fun _ _ hs hs' hp hJ => exclusive_step hs hs' hp hJ) h

end Credit

end HitlOps.Lifecycle
