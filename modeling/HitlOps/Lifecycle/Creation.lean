import HitlOps.Lifecycle.Rules

/-!
# Creation and evaluation

`create` and `record` meet the lifecycle contract. `record` is the writer that goes around the
common step: it writes three transition rows and the literal version 4. It may run under a lock of
its own or in the transaction that has just created the revision; `Place` covers both.
-/

set_option autoImplicit false

namespace HitlOps.Lifecycle

open HitlOps.Python HitlOps.Domain HitlOps.Infrastructure HitlOps.Application HitlOps.Transaction

section Rules

variable {rt : Runtime} {P : PolicyEvaluation → Prop} {α : Type} {τ : Know}
  {duty : Duty} {k : RevisionKey}

variable (rt P) in
/-- A postcondition that a body of a session can end with: on a benign error the session rolls
back, and otherwise it may commit. -/
structure Accepts (Q : Except Error α → Know → Prop) : Prop where
  benign : Safe Q
  error : ∀ x τ', (contract rt P).CommitOk τ' → Q (.error x) τ'
  ok : ∀ r τ', (contract rt P).CommitOk τ' → Q (.ok r) τ'

/-! ## Creation -/

theorem createdPayload_names (command : CreateIntentCommand) :
    Names command.key (createdPayload command) := ⟨rfl, rfl, rfl⟩

/-- The revision that `create` writes. -/
def createdRevision (rt : Runtime) (command : CreateIntentCommand) (now : Time) (n : Nat) :
    Revision :=
  { intent := some (createdIntent rt command)
    log := [createdTransition command now]
    policies := []
    decisions := []
    messages := [⟨n, "intent.created", createdPayload command⟩] }

theorem valid_created (command : CreateIntentCommand) (now : Time) (n : Nat) :
    Valid P command.key (createdIntent rt command) (createdRevision rt command now n) where
  core :=
    { intent := rfl
      key := rfl
      chain := .born rfl rfl rfl
      version := rfl
      announced := .cons
        ⟨createdPayload_names command, List.mem_cons_self, ⟨fun _ => rfl, fun _ => rfl⟩,
          fun h => absurd rfl h⟩ .nil
      ordered := List.pairwise_singleton _ _ }
  evidence :=
    { digests := fun _ h => by cases h
      distinct := fun _ h => by cases h
      policies := fun _ h => by cases h
      window := fun _ h => by cases h
      fresh := fun _ => ⟨rfl, rfl⟩
      evaluated := fun h => absurd rfl h
      asked := fun _ _ hrow => by cases hrow
      waiting := fun h => by cases h
      halfway := fun h => by cases h
      approved := by
        rintro ⟨t, ht, hta⟩
        rw [createdRevision, List.mem_singleton] at ht
        subst ht
        cases hta
      routed := by
        rintro ⟨t, ht, hta⟩
        rw [createdRevision, List.mem_singleton] at ht
        subst ht
        cases hta }

theorem lwp_insertIntent {row : ActionIntent} (hF : Free τ duty)
    {Q : Except Error Unit → Know → Prop} (hQ : Safe Q)
    (h : ∀ b n τ', Txn τ' b duty row.key .empty (Revision.empty.put n (.insertIntent row)) [] [] →
      Grows τ τ' → Q (.ok ()) τ') : lwp rt P (insertIntent row) Q τ := by
  unfold insertIntent
  rw [lwp, Contract.wp_bind]
  refine lwp_raiseIf rfl hQ fun _ => ?_
  rw [Contract.andThen_ok, Contract.wp_bind]
  refine Contract.wp_insert_row (i := row.key) rfl rfl hF.held (fun b s hb _ _ => ?_)
    fun b s n hb hfit hp hn => ?_
  · exact hQ _ _ rfl
  · show Q (.ok ()) _
    have hnone : s.intent? row.key = none := by
      cases hi : s.intent? row.key with
      | none => rfl
      | some a => rw [present_intent hi] at hp; cases hp
    have hempty : revision s row.key = .empty := (hfit row.key).1.eq_empty hnone
    refine h b n _ ⟨rfl, ?_, hF.duty, hF.entered, hF.decided⟩
      ⟨fun i r hr => Or.inl hr, fun σ hσ => hσ, fun t ht => ht⟩
    show some (row.key, revision s row.key, (revision s row.key).put n (.insertIntent row)) = _
    rw [hempty]

theorem lwp_create {command : CreateIntentCommand} (hF : Free τ duty)
    {Q : Except Error IntentSnapshot → Know → Prop} (hQ : Safe Q)
    (h : ∀ r b now n τ', Txn τ' b duty command.key .empty (createdRevision rt command now n)
      [createdTransition command now] [] → Q (.ok r) τ') :
    lwp rt P (create rt command) Q τ := by
  unfold create
  rw [lwp, Contract.wp_bind]
  refine lwp_now fun now τ₁ hr₁ _ => ?_
  rw [Contract.andThen_ok, Contract.wp_bind]
  refine lwp_insertIntent (hF.reads hr₁) hQ
    fun b n₁ τ₂ hT₂ _ => ?_
  rw [Contract.andThen_ok, Contract.wp_bind]
  refine lwp_flush (k := command.key) (w := .insertTransition (createdTransition command now)) rfl
    hT₂ hQ fun n₂ τ₃ _ hT₃ _ => ?_
  rw [Contract.andThen_ok, Contract.wp_bind]
  refine lwp_flush (k := command.key) (w := .insertOutbox "intent.created" (createdPayload command))
    ((createdPayload_names command).announced List.mem_cons_self) hT₃ hQ
    fun n₃ τ₄ _ hT₄ _ => ?_
  exact h _ b now n₃ τ₄ hT₄

/-- The transaction of a creation may commit. -/
theorem commitOk_created {command : CreateIntentCommand} {b : Store × Instant} {now : Time}
    {n : Nat} (hd : duty.Idle) (hT : Txn τ b duty command.key .empty
      (createdRevision rt command now n) [createdTransition command now] []) :
    (contract rt P).CommitOk τ := by
  refine hT.commitOk (valid_created command now n) ⟨rfl, rfl, fun a₀ ha₀ => by cases ha₀⟩ ?_
  exact
    { command := fun c hc => by rw [hd.command] at hc; cases hc
      owned := fun _ ha₀ => by cases ha₀
      permit := fun p hp => by rw [hd.permit] at hp; cases hp
      executing := by
        rintro ⟨t, ht, hte⟩
        rw [List.mem_singleton] at ht
        subst ht
        cases hte
      decided := fun _ hd => by cases hd }

/-! ## Evaluation -/

/-- Where `record` may run: without a lock, or in the transaction that created the revision. -/
inductive Place (rt : Runtime) (τ : Know) (duty : Duty) (k : RevisionKey) : Prop
  | free (h : Free τ duty)
  | created (command : CreateIntentCommand) (b : Store × Instant) (now : Time) (n : Nat)
      (hkey : command.key = k) (hT : Txn τ b duty k .empty (createdRevision rt command now n)
        [createdTransition command now] [])

theorem Place.reads {τ' : Know} (h : Place rt τ duty k) (h' : Reads τ τ') :
    Place rt τ' duty k := by
  cases h with
  | free h => exact .free (h.reads h')
  | created command b now n hkey hT => exact .created command b now n hkey (hT.reads h')

theorem Place.commitOk (h : Place rt τ duty k) (hd : duty.Idle) :
    (contract rt P).CommitOk τ := by
  cases h with
  | free h => exact h.commitOk hd
  | created command b now n hkey hT =>
      subst hkey
      exact commitOk_created hd hT

/-- The revision as `record` finds it under the lock. -/
structure Found (P : PolicyEvaluation → Prop) (τ : Know) (b : Store × Instant) (duty : Duty)
    (k : RevisionKey) (a : ActionIntent) (base cur : Revision) (es : List StateTransition) :
    Prop where
  txn : Txn τ b duty k base cur es []
  valid : Valid P k a cur
  continued : Continued base cur a es []
  state : ∀ a₀, base.intent = some a₀ → a₀.state = a.state
  entered : ∀ t ∈ es, t.toState ≠ .executing

theorem lwp_lockPlace (hp : Place rt τ duty k)
    {Q : Except Error (Option (Store × Instant)) → Know → Prop}
    (hmiss : ∀ σ t τ', σ.intent? k = none → Q (.ok (some (σ, t))) τ')
    (hlock : ∀ σ t a b base cur es τ', σ.intent? k = some a → Found P τ' b duty k a base cur es →
      Q (.ok (some (σ, t))) τ') : lwp rt P (Prog.lock (D := Db) (.intent k) false) Q τ := by
  cases hp with
  | free hF =>
      refine lwp_lock hF (fun h => by cases h) (fun σ t τ' hi _ _ => hmiss σ t τ' hi)
        fun σ b a τ' hi hl => hlock σ b.2 a b _ _ _ τ' hi ⟨hl.txn, hl.valid, ?_, ?_, ?_⟩
      · refine ⟨(List.append_nil _).symm, (List.append_nil _).symm, fun a₀ ha₀ => ?_⟩
        rw [hl.valid.core.intent] at ha₀
        cases ha₀
        exact .refl a
      · intro a₀ ha₀
        rw [hl.valid.core.intent] at ha₀
        cases ha₀
        rfl
      · exact fun t ht => by cases ht
  | created command b now n hkey hT =>
      subst hkey
      -- The transaction has inserted the intent itself and holds its lock.
      refine Contract.wp_lock_held (i := command.key) rfl hT.held (fun h => by cases h)
        fun b' σ hb hv => ?_
      have hrow : revision σ command.key = createdRevision rt command now n :=
        hv.1 _ _ _ hT.held
      have hi : σ.intent? command.key = some (createdIntent rt command) :=
        congrArg Revision.intent hrow
      have hbb : b = b' := hb b hT.begun
      refine hlock σ b'.2 (createdIntent rt command) b _ _ _ _ hi
        ⟨⟨?_, hT.held, hT.duty, hT.entered, hT.decided⟩, valid_created command now n,
          ⟨rfl, rfl, fun a₀ ha₀ => by cases ha₀⟩, fun a₀ ha₀ => (by cases ha₀), ?_⟩
      · rw [hbb]
        rfl
      · intro t ht hte
        rw [List.mem_singleton] at ht
        subst ht
        cases hte

theorem evaluationPayload_names (k : RevisionKey) (s s' : IntentState)
    (commandId correlationId : String) :
    Names k (evaluationPayload k s s' commandId correlationId) := ⟨rfl, rfl, rfl⟩

theorem target_evaluation (k : RevisionKey) (s s' : IntentState)
    (commandId correlationId : String) :
    target? (.insertOutbox "intent.transitioned"
      (evaluationPayload k s s' commandId correlationId)) = some k :=
  (evaluationPayload_names k s s' commandId correlationId).announced (by decide)

theorem announces_evaluation {s s' : IntentState} {commandId suffix correlationId : String}
    {sequence n : Nat} {now : Time} :
    Announces k (evaluationTransition k s s' commandId suffix correlationId sequence now)
      ⟨n, "intent.transitioned", evaluationPayload k s s' commandId correlationId⟩ where
  names := evaluationPayload_names k s s' commandId correlationId
  topic := by show "intent.transitioned" ∈ lifecycleTopics; decide
  created := ⟨fun h => absurd h (by show "intent.transitioned" ≠ "intent.created"; decide),
    fun h => by cases h⟩
  target := fun _ => rfl

/-- The intent after its evaluation. -/
def evaluatedIntent (a : ActionIntent) (policy : PolicyEvaluation) (now : Time) : ActionIntent :=
  a.patch ⟨routeStateByDisposition policy.disposition, 4,
    policy.approvalTtlSeconds.map fun ttl => now + seconds ttl⟩

/-- The three rows of an evaluation. -/
def evaluationRows (k : RevisionKey) (policy : PolicyEvaluation)
    (commandId correlationId : String) (now : Time) : List StateTransition :=
  [evaluationTransition k .requested .riskEvaluated commandId "risk" correlationId 2 now,
    evaluationTransition k .riskEvaluated .policyEvaluated commandId "policy" correlationId 3 now,
    evaluationTransition k .policyEvaluated (routeStateByDisposition policy.disposition) commandId
      "route" correlationId 4 now]

/-- The revision after its evaluation, with the sequence numbers of the three messages. -/
def evaluatedRevision (r : Revision) (a : ActionIntent) (policy : PolicyEvaluation)
    (commandId correlationId : String) (now : Time) (n₁ n₂ n₃ : Nat) : Revision :=
  { r with
    intent := some (evaluatedIntent a policy now)
    log := r.log ++ evaluationRows a.key policy commandId correlationId now
    policies := r.policies ++ [⟨a.key, policy, now⟩]
    messages := r.messages ++
      [⟨n₁, "intent.transitioned",
          evaluationPayload a.key .requested .riskEvaluated commandId correlationId⟩,
        ⟨n₂, "intent.transitioned",
          evaluationPayload a.key .riskEvaluated .policyEvaluated commandId correlationId⟩,
        ⟨n₃, "intent.transitioned",
          evaluationPayload a.key .policyEvaluated (routeStateByDisposition policy.disposition)
            commandId correlationId⟩] }

theorem isLegal_route (d : PolicyDisposition) :
    isLegal .policyEvaluated (routeStateByDisposition d) = true := by
  cases d <;> rfl

/-- The evaluation is three legal moves. -/
theorem core_evaluated {a : ActionIntent} {r : Revision} (policy : PolicyEvaluation)
    (commandId correlationId : String) (now : Time) {n₁ n₂ n₃ : Nat} (h : Core k a r)
    (hs : a.state = .requested) (h₁ : ∀ m ∈ r.messages, m.sequence < n₁) (h₂ : n₁ < n₂)
    (h₃ : n₂ < n₃) : Core k (evaluatedIntent a policy now)
      (evaluatedRevision r a policy commandId correlationId now n₁ n₂ n₃) := by
  have hkey := h.key
  subst hkey
  have hlen : r.log.length = 1 := Chain.of_requested (hs ▸ h.chain)
  -- To `RISK_EVALUATED`, to `POLICY_EVALUATED`, and to the state of the route.
  have hc₁ : Core a.key (moved a .riskEvaluated) _ := h.move
    (t := evaluationTransition a.key .requested .riskEvaluated commandId "risk" correlationId 2 now)
    (m := ⟨n₁, "intent.transitioned",
      evaluationPayload a.key .requested .riskEvaluated commandId correlationId⟩)
    (by rw [hs]; rfl) (by rw [hs]; rfl) rfl (by rw [hlen]; rfl) announces_evaluation h₁
  have hb₁ : ∀ m ∈ (r.messages ++ [(⟨n₁, "intent.transitioned",
      evaluationPayload a.key .requested .riskEvaluated commandId correlationId⟩ :
        OutboxMessage)]), m.sequence < n₂ := by
    intro m hm
    rcases List.mem_append.1 hm with hm | hm
    · exact Nat.lt_trans (h₁ m hm) h₂
    · rw [List.mem_singleton] at hm
      subst hm
      exact h₂
  have hc₂ : Core a.key (moved _ .policyEvaluated) _ := hc₁.move
    (t := evaluationTransition a.key .riskEvaluated .policyEvaluated commandId "policy"
      correlationId 3 now)
    (m := ⟨n₂, "intent.transitioned",
      evaluationPayload a.key .riskEvaluated .policyEvaluated commandId correlationId⟩)
    rfl rfl rfl (by simp only [Revision.move, List.length_append, hlen]; rfl)
    announces_evaluation hb₁
  have hc₃ : Core a.key (moved _ (routeStateByDisposition policy.disposition)) _ := hc₂.move
    (t := evaluationTransition a.key .policyEvaluated (routeStateByDisposition policy.disposition)
      commandId "route" correlationId 4 now)
    (m := ⟨n₃, "intent.transitioned", evaluationPayload a.key .policyEvaluated
      (routeStateByDisposition policy.disposition) commandId correlationId⟩)
    (isLegal_route policy.disposition) rfl rfl
    (by simp only [Revision.move, List.length_append, hlen]; rfl) announces_evaluation
    (by
      intro m hm
      rcases List.mem_append.1 hm with hm | hm
      · exact Nat.lt_trans (hb₁ m hm) h₃
      · rw [List.mem_singleton] at hm
        subst hm
        exact h₃)
  refine hc₃.of_eq rfl rfl rfl ?_ ?_ ?_
  · show 4 = a.stateVersion + 1 + 1 + 1
    rw [h.version, hlen]
  · simp only [evaluatedRevision, evaluationRows, Revision.move, List.append_assoc,
      List.cons_append, List.nil_append]
  · simp only [evaluatedRevision, Revision.move, List.append_assoc, List.cons_append,
      List.nil_append]

theorem route_ne (d : PolicyDisposition) :
    routeStateByDisposition d ≠ .requested ∧ routeStateByDisposition d ≠ .pendingApproval2 ∧
      routeStateByDisposition d ≠ .approved ∧ routeStateByDisposition d ≠ .executing ∧
      routeStateByDisposition d ≠ .revalidating := by
  cases d <;> decide

theorem requireApproval_of_route {d : PolicyDisposition}
    (h : routeStateByDisposition d = .pendingApproval1) : d = .requireApproval := by
  revert h
  cases d <;> decide

theorem evidence_evaluated {a : ActionIntent} {r : Revision} {policy : PolicyEvaluation}
    (commandId correlationId : String) (now : Time) (n₁ n₂ n₃ : Nat) (h : Evidence P a r)
    (hchain : Chain r.log a.state) (hs : a.state = .requested) (hP : P policy) :
    Evidence P (evaluatedIntent a policy now)
      (evaluatedRevision r a policy commandId correlationId now n₁ n₂ n₃) := by
  obtain ⟨hpol, hdec⟩ := h.fresh hs
  obtain ⟨hreq, hhalf, happ, -, -⟩ := route_ne policy.disposition
  have hpolicies : (evaluatedRevision r a policy commandId correlationId now n₁ n₂ n₃).policies =
      [⟨a.key, policy, now⟩] := by
    show r.policies ++ _ = _
    rw [hpol, List.nil_append]
  have hdecisions : (evaluatedRevision r a policy commandId correlationId now n₁ n₂ n₃).decisions
      = [] := hdec
  -- None of the rows written so far enters APPROVED.
  have hlog : ¬ ∃ t ∈ (evaluatedRevision r a policy commandId correlationId now n₁ n₂ n₃).log,
      t.toState = .approved := by
    rintro ⟨t, ht, hta⟩
    rcases List.mem_append.1 ht with ht | ht
    · have hno := hchain.not_approved (by rw [hs]; decide) t ht
      exact absurd hta hno
    · simp only [evaluationRows, List.mem_cons, List.not_mem_nil, or_false] at ht
      rcases ht with rfl | rfl | rfl
      · cases hta
      · cases hta
      · exact absurd hta happ
  refine
    { digests := fun d hd => by rw [hdecisions] at hd; cases hd
      distinct := fun d hd => by rw [hdecisions] at hd; cases hd
      policies := fun row hrow => ?_
      window := fun row hrow httl => ?_
      fresh := fun h => absurd h hreq
      evaluated := fun _ _ => ⟨_, hpolicies⟩
      asked := ?_
      waiting := fun _ => hdecisions
      halfway := fun h => absurd h hhalf
      approved := fun h => absurd h hlog
      routed := fun _ => ⟨_, hpolicies, _, List.mem_append_right _
        (List.mem_cons_of_mem _ (List.mem_cons_of_mem _ List.mem_cons_self)), rfl, rfl⟩ }
  · rw [hpolicies, List.mem_singleton] at hrow
    subst hrow
    exact hP
  · rw [hpolicies, List.mem_singleton] at hrow
    subst hrow
    obtain ⟨ttl, httl⟩ := Option.isSome_iff_exists.1 httl
    show ((policy.approvalTtlSeconds.map _).or _).isSome = true
    rw [show policy.approvalTtlSeconds = some ttl from httl]
    rfl
  · rintro (h | h | h)
    · intro row hrow
      rw [hpolicies, List.mem_singleton] at hrow
      subst hrow
      exact requireApproval_of_route h
    · exact absurd h hhalf
    · exact absurd h hlog

theorem lwp_writeEvaluation {a : ActionIntent} {b : Store × Instant} {base cur : Revision}
    {es : List StateTransition} {risk : RiskEvaluation} {policy : PolicyEvaluation}
    {commandId correlationId : String} {now : Time} (hf : Found P τ b duty k a base cur es)
    (hd : duty.Idle) (hs : a.state = .requested) (hP : P policy)
    {Q : Except Error Unit → Know → Prop} (hQ : Accepts rt P Q) :
    lwp rt P (writeEvaluation a risk policy commandId correlationId now) Q τ := by
  have hkey : a.key = k := hf.valid.core.key
  subst hkey
  unfold writeEvaluation
  rw [lwp, Contract.wp_bind]
  refine lwp_flush_aside (w := .insertRisk _) rfl hQ.benign fun τ₁ _ hr₁ => ?_
  rw [Contract.andThen_ok, Contract.wp_bind]
  refine lwp_flush rfl (hf.txn.reads hr₁) hQ.benign
    fun n₁ τ₂ _ hT₂ _ => ?_
  rw [Contract.andThen_ok, Contract.wp_bind]
  refine lwp_flush rfl hT₂ hQ.benign fun n₂ τ₃ _ hT₃ _ => ?_
  rw [Contract.andThen_ok, Contract.wp_bind]
  refine lwp_flush rfl hT₃ hQ.benign fun n₃ τ₄ _ hT₄ _ => ?_
  rw [Contract.andThen_ok, Contract.wp_bind]
  refine lwp_flush rfl hT₄ hQ.benign fun n₄ τ₅ _ hT₅ _ => ?_
  rw [Contract.andThen_ok, Contract.wp_bind]
  refine lwp_flush_aside (w := .insertOutbox "risk.evaluated" _) rfl hQ.benign fun τ₆ _ hr₆ => ?_
  rw [Contract.andThen_ok, Contract.wp_bind]
  refine lwp_flush_aside (w := .insertOutbox "policy.evaluated" _) rfl hQ.benign
    fun τ₇ _ hr₇ => ?_
  rw [Contract.andThen_ok, Contract.wp_bind]
  refine lwp_flush (target_evaluation _ _ _ _ _)
    (hT₅.reads (hr₆.trans hr₇)) hQ.benign fun m₁ τ₈ hm₁ hT₈ _ => ?_
  rw [Contract.andThen_ok, Contract.wp_bind]
  refine lwp_flush (target_evaluation _ _ _ _ _)
    hT₈ hQ.benign fun m₂ τ₉ hm₂ hT₉ _ => ?_
  rw [Contract.andThen_ok, Contract.wp_bind]
  refine lwp_flush (target_evaluation _ _ _ _ _)
    hT₉ hQ.benign fun m₃ τ₁₀ hm₃ hT₁₀ _ => ?_
  rw [Contract.andThen_ok]
  refine lwp_flush rfl hT₁₀ hQ.benign fun n₅ τ₁₁ _ hT₁₁ _ => ?_
  -- The messages of the three moves are numbered in their order.
  have hlt₂ : m₁ < m₂ := hm₂ _ (List.mem_append_right _ List.mem_cons_self)
  have hlt₃ : m₂ < m₃ := hm₃ _ (List.mem_append_right _ List.mem_cons_self)
  have hcore := core_evaluated policy commandId correlationId now hf.valid.core hs hm₁ hlt₂ hlt₃
  have hev := evidence_evaluated commandId correlationId now m₁ m₂ m₃ hf.valid.evidence
    hf.valid.core.chain hs hP
  refine hQ.ok _ _ ?_
  have hT : Txn τ₁₁ b duty a.key base
      (evaluatedRevision cur a policy commandId correlationId now m₁ m₂ m₃)
      (es ++ evaluationRows a.key policy commandId correlationId now) [] := by
    refine ⟨hT₁₁.begun, ?_, hT₁₁.duty, ?_, hT₁₁.decided⟩
    · rw [hT₁₁.held]
      simp only [Revision.put, evaluatedRevision, evaluationRows, evaluatedIntent,
        hf.valid.core.intent, Option.map_some, List.append_assoc, List.cons_append,
        List.nil_append]
    · rw [hT₁₁.entered]
      simp only [enteredBy, evaluationRows, List.append_nil, List.append_assoc, List.cons_append,
        List.nil_append]
  obtain ⟨hreq, hhalf, happ, hexec, hreval⟩ := route_ne policy.disposition
  refine hT.commitOk ⟨hcore, hev⟩ ⟨?_, hf.continued.decisions, fun a₀ ha₀ =>
    (hf.continued.identity a₀ ha₀).trans (sameIdentity_patch a _)⟩ ?_
  · show cur.log ++ _ = _
    rw [hf.continued.log, List.append_assoc]
  · refine
      { command := fun c hc => by rw [hd.command] at hc; cases hc
        owned := fun a₀ ha₀ hs₀ _ => ?_
        permit := fun p hp => by rw [hd.permit] at hp; cases hp
        executing := ?_
        decided := fun _ hd => by cases hd }
    · rw [hf.state a₀ ha₀, hs] at hs₀
      cases hs₀
    · rintro ⟨t, ht, hte⟩
      rcases List.mem_append.1 ht with ht | ht
      · exact absurd hte (hf.entered t ht)
      · simp only [evaluationRows, List.mem_cons, List.not_mem_nil, or_false] at ht
        rcases ht with rfl | rfl | rfl
        · cases hte
        · cases hte
        · exact absurd hte hexec

theorem currentRecord_aside (key : RevisionKey) (risk : RiskEvaluationRow) :
    (currentRecord key risk).Uses Aside Benign := by
  unfold currentRecord
  refine (Prog.uses_query trivial).bind fun s => (Prog.uses_orRaise (E := Benign) rfl).bind fun i => ?_
  refine (Prog.uses_query trivial).bind fun policies => ?_
  match policies with
  | [] => exact rfl
  | [_] => exact trivial
  | _ :: _ :: _ => exact rfl

/-- `record` may commit, from both places. -/
theorem lwp_record {risk : RiskEvaluation} {policy : PolicyEvaluation}
    {commandId correlationId : String} (hp : Place rt τ duty k) (hd : duty.Idle) (hP : P policy)
    {Q : Except Error EvaluationRecorded → Know → Prop} (hQ : Accepts rt P Q) :
    lwp rt P (record k risk policy commandId correlationId) Q τ := by
  unfold record
  rw [lwp, Contract.wp_bind]
  refine lwp_query fun σ τ₁ hr₁ _ _ => ?_
  rw [Contract.andThen_ok, Contract.wp_bind]
  refine lwp_scalarOneOrNone hQ.benign (fun _ => ?_) fun existing _ => ?_
  -- No risk row yet: the intent is locked, and it must still be in `REQUESTED`.
  · rw [Contract.andThen_ok]
    show (contract rt P).wp (_ >>= _) Q τ₁
    rw [Contract.wp_bind]
    refine lwp_lockPlace (hp.reads hr₁) (fun σ t τ' hi => ?_)
      fun σ t a b base cur es τ₂ hi hf => ?_
    · rw [Contract.andThen_ok]
      simp only [hi]
      exact hQ.benign _ _ rfl
    · rw [Contract.andThen_ok]
      simp only [hi]
      rw [Contract.wp_ite]
      split
      · exact hQ.benign _ _ rfl
      · next hs =>
          rw [Decidable.not_not] at hs
          rw [Contract.wp_bind]
          refine lwp_now fun now τ₃ hr₃ _ => ?_
          rw [Contract.andThen_ok, Contract.wp_bind]
          have hf' : Found P τ₃ b duty k a base cur es :=
            ⟨hf.txn.reads hr₃, hf.valid, hf.continued, hf.state, hf.entered⟩
          exact lwp_writeEvaluation hf' hd hs hP
            ⟨hQ.benign, fun x τ' h => hQ.error x τ' h, fun r τ' h => hQ.ok _ τ' h⟩
  -- A second evaluation answers with the rows of the first one.
  · rw [Contract.andThen_ok]
    refine lwp_aside (currentRecord_aside k existing) fun r τ' hr hx => ?_
    have hcommit : (contract rt P).CommitOk τ' :=
      commitOk_reads ((hp.reads hr₁).commitOk hd) hr
    cases r with
    | ok r => exact hQ.ok r τ' hcommit
    | error x => exact hQ.benign x τ' (hx x rfl)

end Rules

end HitlOps.Lifecycle
