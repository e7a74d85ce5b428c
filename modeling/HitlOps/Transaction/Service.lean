import HitlOps.Transaction.History
import HitlOps.Transaction.Replay

/-!
# A system beside a service

The calls of a system go to a service with a state of its own. A request that was sent is performed at
most once, at any time: before its caller has an answer, after the caller gave up or died, or never. A
caller hears what the service answered, or that the connection broke. The log of the performances is kept
for the proofs.

`Joint.Reachable.sys` projects the runs of the pair to runs of the system, and `accounted_of_reachable`
says that every answer a process has heard is in the log, or is one of a broken connection.
-/

set_option autoImplicit false

namespace HitlOps.Transaction

variable {D : Schema} {X R O : Type}

/-! ## Requests -/

/-- A call that was sent: by which process, and at which place of its history. -/
structure Sent (D : Schema) where
  pid : Nat
  place : Nat
  call : D.Call

/-- The request that an event records. -/
def Event.request? (e : Event D O) : Option (Sent D) :=
  match e.act with
  | .call c => some ⟨e.pid, e.history.length, c⟩
  | .commit => none

/-- The requests of a run so far. -/
def Sys.requests (s : Sys D X R O) : List (Sent D) := s.trace.filterMap Event.request?

/-! ## Services -/

/-- A service behind the calls of a system.

`perform` is what it does with a request, when such calls go to it; `Broken` are the answers that a
caller may get although the service did not give them, and `Drifts` the changes of the service on its
own. -/
structure Service (D : Schema) where
  State : Type
  perform : (c : D.Call) → Option (State → State × D.Answer c)
  Broken : (c : D.Call) → D.Answer c → Prop
  Drifts : State → State → Prop

/-- One request as the service performed it. -/
structure Performance (S : Service D) where
  request : Sent D
  answer : D.Answer request.call
  before : S.State
  after : S.State
  performed : (S.perform request.call).map (· before) = some (after, answer)

/-- The call of a performance, with its answer. -/
def Performance.reply {S : Service D} (q : Performance S) : Σ c : D.Call, D.Answer c :=
  ⟨q.request.call, q.answer⟩

/-- A caller of the request may hear this answer, when the service has performed what the log says. -/
inductive Heard {S : Service D} (log : List (Performance S)) (r : Sent D) (a : D.Answer r.call) : Prop
  | performed (q : Performance S) (hq : q ∈ log) (hr : q.request = r) (ha : q.reply = ⟨r.call, a⟩)
  | broken (h : S.Broken r.call a)
  | elsewhere (h : S.perform r.call = none)

theorem Heard.mono {S : Service D} {log log' : List (Performance S)} {r : Sent D}
    {a : D.Answer r.call} (h : Heard log r a) (hsub : ∀ q ∈ log, q ∈ log') : Heard log' r a := by
  cases h with
  | performed q hq hr ha => exact .performed q (hsub q hq) hr ha
  | broken h => exact .broken h
  | elsewhere h => exact .elsewhere h

/-! ## The pair -/

/-- A system, its service, and what the service has performed, newest first. -/
structure Joint (S : Service D) (X R O : Type) where
  sys : Sys D X R O
  service : S.State
  log : List (Performance S)

namespace Joint

variable {S : Service D} {code : O → Prog D X R} {allowed : O → Prop}

/-- What one step of the pair does. -/
inductive Moves (code : O → Prog D X R) (allowed : O → Prop) (j : Joint S X R O) :
    Joint S X R O → Prop
  /-- The system moves without an answer. -/
  | own (l : Label D O) {s' : Sys D X R O} (hl : ∀ pid a, l ≠ .answer pid a)
      (hs : j.sys.step code l = some s') (hop : ∀ op, l = .spawn op → allowed op) :
      Moves code allowed j { j with sys := s' }
  /-- The service performs a request that it has not performed before. -/
  | perform (r : Sent D) {v' : S.State} {a : D.Answer r.call} (hr : r ∈ j.sys.requests)
      (hnew : ∀ q ∈ j.log, q.request ≠ r)
      (hv : (S.perform r.call).map (· j.service) = some (v', a)) :
      Moves code allowed j ⟨j.sys, v', ⟨r, a, j.service, v', hv⟩ :: j.log⟩
  /-- A process hears the answer to its call. -/
  | answer {pid : Nat} {p : Proc D X R O} {c : D.Call} {k : D.Answer c → Prog D X R}
      {h : List (Obs D)} (a : ∀ c, D.Answer c) (hp : j.sys.procs pid = some p) (hw : p.waiting = true)
      (hprog : p.prog = .stmt (.call c) k) (hh : p.history = .sent c :: h)
      (ha : Heard j.log ⟨pid, h.length, c⟩ (a c)) :
      Moves code allowed j { j with sys := j.sys.resume pid p (.call c) k (a c) }
  | drift {v' : S.State} (h : S.Drifts j.service v') :
      Moves code allowed j { j with service := v' }

/-- The states of the runs of the pair. -/
inductive Reachable (code : O → Prog D X R) (allowed : O → Prop) (db : D.Store) (v : S.State) :
    Joint S X R O → Prop
  | initial : Reachable code allowed db v ⟨Sys.initial db, v, []⟩
  | step {j j' : Joint S X R O} (h : Reachable code allowed db v j) (hm : Moves code allowed j j') :
      Reachable code allowed db v j'

variable {j j' : Joint S X R O} {db : D.Store} {v : S.State}

/-- A step of the pair is a step of the system, or leaves the system alone. -/
theorem Moves.sys (h : Moves code allowed j j') :
    Sys.Step code allowed j.sys j'.sys ∨ j'.sys = j.sys := by
  cases h with
  | own l hl hs hop => exact .inl ⟨l, hs, hop⟩
  | perform r hr hnew hv => exact .inr rfl
  | @answer pid p c k h a hp hw hprog hh ha =>
      left
      refine ⟨.answer pid a, ?_, fun op hop => by cases hop⟩
      simp only [Sys.step, hp, hw, if_true, hprog]
  | drift h => exact .inr rfl

/-- The system of a run of the pair is in a run of its own. -/
theorem Reachable.sys (h : Reachable code allowed db v j) : Sys.Reachable code allowed db j.sys := by
  induction h with
  | initial => exact .initial
  | step _ hm ih =>
      rcases hm.sys with hstep | hsame
      · exact ih.step hstep
      · rw [hsame]
        exact ih

/-- An invariant of the steps of the pair. -/
theorem Reachable.invariant {J : Joint S X R O → Prop} (hinit : J ⟨Sys.initial db, v, []⟩)
    (hstep : ∀ j j', Reachable code allowed db v j → Moves code allowed j j' → J j → J j')
    (h : Reachable code allowed db v j) : J j := by
  induction h with
  | initial => exact hinit
  | step hr hm ih => exact hstep _ _ hr hm ih

/-- An invariant of the service and its log: performances and drifts keep it. -/
theorem Reachable.service_invariant {I : S.State → List (Performance S) → Prop} (hinit : I v [])
    (hperform : ∀ log (q : Performance S), I q.before log → I q.after (q :: log))
    (hdrift : ∀ log u u', S.Drifts u u' → I u log → I u' log)
    (h : Reachable code allowed db v j) : I j.service j.log := by
  refine h.invariant (J := fun j => I j.service j.log) hinit fun j j' _ hm hJ => ?_
  cases hm with
  | own l hl hs hop => exact hJ
  | perform r hr hnew hv => exact hperform _ ⟨r, _, j.service, _, hv⟩ hJ
  | answer a hp hw hprog hh ha => exact hJ
  | drift h => exact hdrift _ _ _ h hJ

/-! ## Requests are performed at most once -/

/-- A trace only grows. -/
theorem trace_of_moves {s s' : Sys D X R O} (h : Sys.Moves code allowed s s') :
    ∀ e ∈ s.trace, e ∈ s'.trace := by
  intro e he
  cases h with
  | launch op hop => exact he
  | @accept pid p st k e' hp hw hprog he' =>
      cases st with
      | commit => exact List.mem_cons_of_mem _ he
      | _ => exact he
  | draw v hp hw hprog => exact he
  | send hp hw hprog => exact List.mem_cons_of_mem _ he
  | answer a hp hw hprog => exact he
  | kill hp => exact he
  | tick d => exact he

theorem requests_of_moves {s s' : Sys D X R O} (h : Sys.Moves code allowed s s') :
    ∀ r ∈ s.requests, r ∈ s'.requests := by
  intro r hr
  obtain ⟨e, he, her⟩ := List.mem_filterMap.1 hr
  exact List.mem_filterMap.2 ⟨e, trace_of_moves h e he, her⟩

/-- What a request is recorded by. -/
theorem of_request {e : Event D O} {r : Sent D} (h : e.request? = some r) :
    e.act = .call r.call ∧ e.pid = r.pid := by
  unfold Event.request? at h
  split at h
  · next c hc =>
      cases h
      exact ⟨hc, rfl⟩
  · cases h

/-- The service performs what was sent, each request once. -/
structure Faithful (j : Joint S X R O) : Prop where
  sent : ∀ q ∈ j.log, q.request ∈ j.sys.requests
  once : j.log.Pairwise fun q q' => q.request ≠ q'.request

theorem faithful_of_reachable (h : Reachable code allowed db v j) : Faithful j := by
  refine h.invariant ⟨fun q hq => absurd hq List.not_mem_nil, List.Pairwise.nil⟩ ?_
  intro j j' _ hm hJ
  have hkeep : ∀ {s' : Sys D X R O}, Sys.Step code allowed j.sys s' →
      ∀ q ∈ j.log, q.request ∈ s'.requests :=
    fun hs q hq => requests_of_moves (.of_step hs) _ (hJ.sent q hq)
  cases hm with
  | own l hl hs hop => exact ⟨hkeep ⟨l, hs, hop⟩, hJ.once⟩
  | perform r hr hnew hv =>
      constructor
      · intro q hq
        rcases List.mem_cons.1 hq with rfl | hq
        · exact hr
        · exact hJ.sent q hq
      · exact List.pairwise_cons.2 ⟨fun q hq heq => hnew q hq heq.symm, hJ.once⟩
  | @answer pid p c k h a hp hw hprog hh ha =>
      refine ⟨hkeep ⟨.answer pid a, ?_, fun op hop => by cases hop⟩, hJ.once⟩
      simp only [Sys.step, hp, hw, if_true, hprog]
  | drift h => exact ⟨hJ.sent, hJ.once⟩

/-- Two performances of one request are the same. -/
theorem Faithful.unique (h : Faithful j) {q q' : Performance S} (hq : q ∈ j.log) (hq' : q' ∈ j.log)
    (hr : q.request = q'.request) : q = q' := by
  by_contra hne
  rcases List.pairwise_iff_getElem.1 h.once with hpair
  obtain ⟨n, hn, rfl⟩ := List.mem_iff_getElem.1 hq
  obtain ⟨m, hm, rfl⟩ := List.mem_iff_getElem.1 hq'
  rcases Nat.lt_trichotomy n m with hlt | heq | hgt
  · exact hpair n m hn hm hlt hr
  · subst heq
    exact hne rfl
  · exact hpair m n hm hn hgt hr.symm

/-! ## Answers come from the log -/

/-- Every answered call of the history was heard. -/
def Accounted (log : List (Performance S)) (pid : Nat) (h : List (Obs D)) : Prop :=
  ∀ c a pre, .did (.call c) a :: pre <:+ h →
    ∃ rest, pre = .sent c :: rest ∧ Heard log ⟨pid, rest.length, c⟩ a

theorem Accounted.mono {log log' : List (Performance S)} {pid : Nat} {h : List (Obs D)}
    (ha : Accounted log pid h) (hsub : ∀ q ∈ log, q ∈ log') : Accounted log' pid h := by
  intro c a pre hpre
  obtain ⟨rest, hrest, hheard⟩ := ha c a pre hpre
  exact ⟨rest, hrest, hheard.mono hsub⟩

/-- An observation other than an answer. -/
theorem Accounted.cons {log : List (Performance S)} {pid : Nat} {h : List (Obs D)} {o : Obs D}
    (ha : Accounted log pid h) (ho : ∀ c a, o ≠ .did (.call c) a) : Accounted log pid (o :: h) := by
  intro c a pre hpre
  rcases List.suffix_cons_iff.1 hpre with heq | hsuffix
  · rw [List.cons.injEq] at heq
    exact absurd heq.1.symm (ho c a)
  · exact ha c a pre hsuffix

theorem Accounted.answered {log : List (Performance S)} {pid : Nat} {h : List (Obs D)} {c : D.Call}
    {a : D.Answer c} (ha : Accounted log pid (.sent c :: h)) (hh : Heard log ⟨pid, h.length, c⟩ a) :
    Accounted log pid (.did (.call c) a :: .sent c :: h) := by
  intro c' a' pre hpre
  rcases List.suffix_cons_iff.1 hpre with heq | hsuffix
  · rw [List.cons.injEq] at heq
    obtain ⟨hobs, rfl⟩ := heq
    cases hobs
    exact ⟨h, rfl, hh⟩
  · exact ha c' a' pre hsuffix

/-- Every process and every event has heard only what the log and the connections say. -/
structure AllAccounted (j : Joint S X R O) : Prop where
  procs : ∀ pid p, j.sys.procs pid = some p → Accounted j.log pid p.history
  trace : ∀ e ∈ j.sys.trace, Accounted j.log e.pid e.history

theorem AllAccounted.mono {log : List (Performance S)} {v : S.State}
    (h : AllAccounted j) (hsub : ∀ q ∈ j.log, q ∈ log) : AllAccounted ⟨j.sys, v, log⟩ :=
  ⟨fun pid p hp => (h.procs pid p hp).mono hsub, fun e he => (h.trace e he).mono hsub⟩

/-- A process goes on, and the trace gets its event at most. -/
theorem AllAccounted.update {s' : Sys D X R O} {pid : Nat} {p' : Proc D X R O} (h : AllAccounted j)
    (hprocs : s'.procs = Function.update j.sys.procs pid (some p'))
    (htrace : ∀ e ∈ s'.trace, e ∈ j.sys.trace ∨ Accounted j.log e.pid e.history)
    (hp' : Accounted j.log pid p'.history) : AllAccounted { j with sys := s' } where
  procs := by
    intro q pq hq
    change s'.procs q = some pq at hq
    rw [hprocs] at hq
    by_cases hqp : q = pid
    · subst hqp
      rw [Function.update_self, Option.some.injEq] at hq
      exact hq ▸ hp'
    · rw [Function.update_of_ne hqp] at hq
      exact h.procs q pq hq
  trace := fun e he => (htrace e he).elim (h.trace e) id

theorem accounted_nil (log : List (Performance S)) (pid : Nat) :
    Accounted log pid ([] : List (Obs D)) := by
  intro c a pre hpre
  exact absurd (List.suffix_nil.1 hpre) (List.cons_ne_nil _ _)

/-- A statement of a process that is not a call. -/
theorem accounted_accept {pid : Nat} {p : Proc D X R O} {st : Stmt D} {k : st.Resp → Prog D X R}
    {e : Reply D st} (hp : j.sys.procs pid = some p) (hst : ∀ c, st ≠ .call c) (h : AllAccounted j) :
    AllAccounted { j with sys := j.sys.accept pid p st k e } := by
  have hown := h.procs pid p hp
  refine h.update rfl (fun e' he' => ?_) (hown.cons fun c a heq => ?_)
  · cases st with
    | commit =>
        rcases List.mem_cons.1 he' with rfl | he'
        · exact .inr hown
        · exact .inl he'
    | _ => exact .inl he'
  · rw [Obs.did.injEq] at heq
    exact hst c heq.1

theorem accounted_own {l : Label D O} {s' : Sys D X R O} (hl : ∀ pid a, l ≠ .answer pid a)
    (hs : j.sys.step code l = some s') (h : AllAccounted j) : AllAccounted { j with sys := s' } := by
  cases l with
  | answer pid a => exact absurd rfl (hl pid a)
  | spawn op =>
      cases hs
      exact h.update rfl (fun e he => .inl he) (accounted_nil _ _)
  | tick d =>
      cases hs
      exact ⟨h.procs, h.trace⟩
  | crash pid =>
      simp only [Sys.step] at hs
      split at hs
      · cases hs
      · cases hs
        refine ⟨fun q pq hq => ?_, h.trace⟩
        by_cases hqp : q = pid
        · subst hqp
          simp only [Function.update_self, reduceCtorEq] at hq
        · simp only [Function.update_of_ne hqp] at hq
          exact h.procs q pq hq
  | draw pid v =>
      simp only [Sys.step] at hs
      split at hs
      · cases hs
      · next p hp =>
          split at hs
          · cases hs
          · split at hs
            · cases hs
              refine h.update rfl (fun e he => .inl he) ((h.procs pid p hp).cons fun c a heq => ?_)
              cases heq
            · cases hs
  | run pid =>
      simp only [Sys.step] at hs
      split at hs
      · cases hs
      · next p hp =>
          split at hs
          · cases hs
          · split at hs
            · next st k hprog =>
                by_cases hcall : ∃ c, st = .call c
                · obtain ⟨c, rfl⟩ := hcall
                  cases hs
                  refine h.update rfl (fun e he => ?_) ((h.procs pid p hp).cons fun c a heq => ?_)
                  · rcases List.mem_cons.1 he with rfl | he
                    · exact .inr (h.procs pid p hp)
                    · exact .inl he
                  · cases heq
                · have haccept : (j.sys.reply? pid p.session st).map (j.sys.accept pid p st k) =
                      some s' := by
                    cases st with
                    | call c => exact absurd ⟨c, rfl⟩ hcall
                    | _ => exact hs
                  obtain ⟨e, -, rfl⟩ := Option.map_eq_some_iff.1 haccept
                  exact accounted_accept hp (fun c hc => hcall ⟨c, hc⟩) h
            · cases hs

/-- In every run of the pair each answer was heard from the service or from a broken connection. -/
theorem accounted_of_reachable (h : Reachable code allowed db v j) : AllAccounted j := by
  refine h.invariant ⟨fun pid p hp => (by cases hp), fun e he => absurd he List.not_mem_nil⟩ ?_
  intro j j' _ hm hJ
  cases hm with
  | own l hl hs hop => exact accounted_own hl hs hJ
  | perform r hr hnew hv => exact hJ.mono fun q hq => List.mem_cons_of_mem _ hq
  | @answer pid p c k h a hp hw hprog hh ha =>
      refine hJ.update rfl (fun e he => .inl he) ?_
      have hown := hJ.procs pid p hp
      rw [hh] at hown
      show Accounted _ _ (.did (.call c) (a c) :: p.history)
      rw [hh]
      exact hown.answered ha
  | drift h => exact ⟨hJ.procs, hJ.trace⟩

/-- Each performance was asked for by a process that had heard only what the log said before. -/
theorem prompted_of_reachable (h : Reachable code allowed db v j) :
    ∀ newer q older, j.log = newer ++ q :: older →
      ∃ e ∈ j.sys.trace, e.request? = some q.request ∧ Accounted older e.pid e.history := by
  refine h.invariant (J := fun j => ∀ newer q older, j.log = newer ++ q :: older →
    ∃ e ∈ j.sys.trace, e.request? = some q.request ∧ Accounted older e.pid e.history) ?_ ?_
  · intro newer q older hlog
    exact absurd hlog.symm (List.append_ne_nil_of_right_ne_nil _ (List.cons_ne_nil _ _))
  · intro j j' hreach hm hJ newer q older hlog
    -- The trace grows, and only a performance makes the log longer.
    have hgrow : j'.log = j.log → (∀ e ∈ j.sys.trace, e ∈ j'.sys.trace) →
        ∃ e ∈ j'.sys.trace, e.request? = some q.request ∧ Accounted older e.pid e.history := by
      intro heq htrace
      obtain ⟨e, he, hrest⟩ := hJ newer q older (heq ▸ hlog)
      exact ⟨e, htrace e he, hrest⟩
    cases hm with
    | own l hl hs hop => exact hgrow rfl (trace_of_moves (.of_step ⟨l, hs, hop⟩))
    | perform r hr hnew hv =>
        cases newer with
        | nil =>
            rw [List.nil_append, List.cons.injEq] at hlog
            obtain ⟨rfl, rfl⟩ := hlog
            obtain ⟨e, he, her⟩ := List.mem_filterMap.1 hr
            exact ⟨e, he, her, (accounted_of_reachable hreach).trace e he⟩
        | cons q' newer =>
            rw [List.cons_append, List.cons.injEq] at hlog
            exact hJ newer q older hlog.2
    | answer a hp hw hprog hh ha =>
        refine hgrow rfl fun e he => ?_
        exact he
    | drift h => exact hgrow rfl fun e he => he

/-! ## Scripts -/

section Scripts

variable [DecidableEq D.Call]

instance : DecidableEq (Sent D) := fun a b =>
  decidable_of_iff (a.pid = b.pid ∧ a.place = b.place ∧ a.call = b.call) <| by
    cases a
    cases b
    simp only [Sent.mk.injEq]

/-- The service performs a request that waits for it. -/
def serve (j : Joint S X R O) (r : Sent D) : Joint S X R O :=
  if r ∈ j.sys.requests ∧ ∀ q ∈ j.log, q.request ≠ r then
    match hv : (S.perform r.call).map (· j.service) with
    | some (v', a) => ⟨j.sys, v', ⟨r, a, j.service, v', hv⟩ :: j.log⟩
    | none => j
  else j

/-- The answer that the log has for a request. -/
def reply? (log : List (Performance S)) (r : Sent D) : Option (D.Answer r.call) :=
  log.findSome? fun q => if h : q.request = r then some (h ▸ q.answer) else none

/-- An answer for the call `c`; other calls get those of the environment. -/
def answering (env : Environment D) (c : D.Call) (a : D.Answer c) (c' : D.Call) : D.Answer c' :=
  if h : c = c' then h ▸ a else env.answer c'

/-- The answer to a call: from the service, or from the environment for a call elsewhere. -/
def answer? (env : Environment D) (log : List (Performance S)) (r : Sent D) :
    Option (D.Answer r.call) :=
  match S.perform r.call with
  | none => some (env.answer r.call)
  | some _ => reply? log r

/-- A process waits for the answer to its call. -/
def resumed (j : Joint S X R O) (pid : Nat) (p : Proc D X R O) (env : Environment D) :
    Option (Joint S X R O) :=
  match p.prog, p.history with
  | .stmt (.call c) k, .sent c' :: h =>
      if c = c' then
        let served := j.serve ⟨pid, h.length, c⟩
        (answer? env served.log ⟨pid, h.length, c⟩).map fun a =>
          { served with sys := served.sys.resume pid p (.call c) k a }
      else none
  | _, _ => none

/-- One step of a process of the pair; its call is performed and answered at once. -/
def next (code : O → Prog D X R) (j : Joint S X R O) (pid : Nat) (env : Environment D) :
    Option (Joint S X R O) :=
  match j.sys.procs pid with
  | none => none
  | some p =>
      if p.waiting then j.resumed pid p env
      else (j.sys.step code (j.sys.labelOf pid env)).map fun s' => { j with sys := s' }

/-- Up to `n` steps of a process. -/
def go (code : O → Prog D X R) (pid : Nat) (env : Environment D) : Nat → Joint S X R O →
    Joint S X R O
  | 0, j => j
  | n + 1, j =>
      match j.next code pid env with
      | none => j
      | some j' => go code pid env n j'

/-- The operations, started one after the other and each run for up to `n` steps. -/
def playAll (code : O → Prog D X R) (env : Environment D) (n : Nat) :
    List O → Joint S X R O → Joint S X R O
  | [], j => j
  | op :: rest, j =>
      playAll code env n rest
        (go code j.sys.next env n { j with sys := j.sys.launch code op })

theorem reachable_serve (h : Reachable code allowed db v j) (r : Sent D) :
    Reachable code allowed db v (j.serve r) := by
  unfold serve
  split
  · next hcan =>
      split
      · next v' a hv => exact h.step (.perform r hcan.1 hcan.2 hv)
      · exact h
  · exact h

theorem serve_sys (j : Joint S X R O) (r : Sent D) : (j.serve r).sys = j.sys := by
  unfold serve
  split
  · split <;> rfl
  · rfl

theorem heard_of_answer {env : Environment D} {log : List (Performance S)} {r : Sent D}
    {a : D.Answer r.call} (h : answer? env log r = some a) : Heard log r a := by
  unfold answer? at h
  split at h
  · next hnone => exact .elsewhere hnone
  · obtain ⟨q, hq, hfound⟩ := List.exists_of_findSome?_eq_some h
    split at hfound
    · next hr =>
        subst hr
        cases hfound
        exact .performed q hq rfl rfl
    · cases hfound

theorem reachable_resumed {pid : Nat} {p : Proc D X R O} {env : Environment D}
    (h : Reachable code allowed db v j) (hp : j.sys.procs pid = some p) (hw : p.waiting = true)
    (hj : j.resumed pid p env = some j') : Reachable code allowed db v j' := by
  unfold resumed at hj
  split at hj
  · next c k c' rest hprog hh =>
      split at hj
      · next hc =>
          subst hc
          obtain ⟨a, ha, rfl⟩ := Option.map_eq_some_iff.1 hj
          have hserved := reachable_serve h ⟨pid, rest.length, c⟩
          have hp' : (j.serve ⟨pid, rest.length, c⟩).sys.procs pid = some p := by
            rw [serve_sys]
            exact hp
          have hsame : answering env c a c = a := dif_pos rfl
          have hheard := heard_of_answer ha
          have hmove : Moves code allowed (j.serve ⟨pid, rest.length, c⟩) _ :=
            .answer (answering env c a) hp' hw hprog hh (hsame.symm ▸ hheard)
          rw [hsame] at hmove
          exact hserved.step hmove
      · cases hj
  · cases hj

theorem reachable_next {pid : Nat} {env : Environment D} (h : Reachable code allowed db v j)
    (hj : j.next code pid env = some j') : Reachable code allowed db v j' := by
  unfold next at hj
  split at hj
  · cases hj
  · next p hp =>
      split at hj
      · next hw => exact reachable_resumed h hp hw hj
      · next hw =>
          obtain ⟨s', hs', rfl⟩ := Option.map_eq_some_iff.1 hj
          refine h.step (.own _ (fun q a hl => ?_) hs' fun op hl => ?_)
          · -- A process that does not wait is not given an answer.
            unfold Sys.labelOf at hl
            rw [hp] at hl
            simp only [hw, Bool.false_eq_true, if_false] at hl
            split at hl <;> cases hl
          · exact absurd hl (Sys.labelOf_ne_spawn _ _ _ _)

theorem reachable_go {pid : Nat} {env : Environment D} (n : Nat)
    (h : Reachable code allowed db v j) : Reachable code allowed db v (go code pid env n j) := by
  induction n generalizing j with
  | zero => exact h
  | succ n ih =>
      unfold go
      split
      · exact h
      · next j' hj => exact ih (reachable_next h hj)

/-- Operations that are played one after the other are a run of the pair. -/
theorem reachable_playAll {env : Environment D} {n : Nat} (ops : List O)
    (hops : ∀ op ∈ ops, allowed op) (h : Reachable code allowed db v j) :
    Reachable code allowed db v (playAll code env n ops j) := by
  induction ops generalizing j with
  | nil => exact h
  | cons op rest ih =>
      refine ih (fun op' hop' => hops op' (List.mem_cons_of_mem _ hop')) (reachable_go n ?_)
      refine h.step (.own (.spawn op) (fun q a hl => by cases hl) rfl fun op' hop' => ?_)
      cases hop'
      exact hops op List.mem_cons_self

end Scripts

end Joint

end HitlOps.Transaction
