import RpcStateIndexer.Census.System

/-!
# The runner is an attempt of the system

`run_token` and `run_pool` as the code writes them, against the coroutine that the system runs.  What
others do to the store between two operations is left open.
-/

namespace RpcStateIndexer

open Reasoning Program CensusRunner

section Simulation

variable (others : CensusStore → CensusStore → Prop)

/-- An operation of the runner is answered from the store, after what others did to it. -/
def storeEnv (op : CensusOp) (s : CensusStore) (answer : CensusAns op) (s' : CensusStore) : Prop :=
  ∃ s₁, others s s₁ ∧ Answered op s₁ answer s'

/-- A move of the attempt, or one of the others. -/
inductive AttemptMove : CensusStore × Attempt → CensusStore × Attempt → Prop where
  | own {s s' : CensusStore} {a a' : Attempt} (step : AttemptStep s a s' a') : AttemptMove (s, a) (s', a')
  | other {s s' : CensusStore} {a : Attempt} (moved : others s s') : AttemptMove (s, a) (s', a)

/-- The attempt of the plan, begun in `s₀`, has come to `a` in `s`. -/
def AttemptReaches (s₀ : CensusStore) (plan : AttemptPlan) (s : CensusStore) (a : Attempt) : Prop :=
  Relation.ReflTransGen (AttemptMove others) (s₀, { plan }) (s, a)

variable {others} {s₀ s s' : CensusStore} {plan : AttemptPlan} {a a' : Attempt}

theorem AttemptReaches.step (h : AttemptReaches others s₀ plan s a) (hstep : AttemptStep s a s' a') :
    AttemptReaches others s₀ plan s' a' := h.tail (.own hstep)

theorem AttemptReaches.moved (h : AttemptReaches others s₀ plan s a) (hmoved : others s s') :
    AttemptReaches others s₀ plan s' a := h.tail (.other hmoved)

/-- A thread of the attempt that runs to its end: `thread` says where it stands in an attempt, and every
operation it asks for is a step. -/
theorem safe_thread {thread : CensusProgram Unit → Attempt → Prop}
    (hcall : ∀ {op k a s answer s'}, thread (.call op k) a → Answered op s answer s' →
      ∃ a', thread (k answer) a' ∧ AttemptStep s a s' a')
    {p : CensusProgram Unit} (hthread : thread p a) (h : AttemptReaches others s₀ plan s a) :
    Safe (storeEnv others) (fun s => ∃ a, AttemptReaches others s₀ plan s a)
      (fun r s => ∃ a, AttemptReaches others s₀ plan s a ∧ thread (ended r) a) p s := by
  induction p generalizing a s with
  | ret u => exact ⟨a, h, hthread⟩
  | raise e => exact ⟨a, h, hthread⟩
  | call op k ih =>
    rintro answer s' ⟨s₁, hmoved, hanswered⟩
    obtain ⟨a', hthread', hstep⟩ := hcall hthread hanswered
    have h' := (h.moved hmoved).step hstep
    exact ⟨⟨a', h'⟩, ih answer hthread' h'⟩

/-! ## The guarded part and its handler -/

/-- How an attempt of the plan stands when the runner has ended. -/
def AttemptEnded (others : CensusStore → CensusStore → Prop) (s₀ : CensusStore) (plan : AttemptPlan)
    (r : Except CensusException Unit) (s : CensusStore) : Prop :=
  ∃ a, AttemptReaches others s₀ plan s a ∧
    match r with
    | .ok _ => a.phase = .returned
    | .error _ => a.phase = .raised

/-- The attempt awaits the insert of its started state. -/
def Opens (plan : AttemptPlan) (p : CensusProgram Unit) (a : Attempt) : Prop :=
  a.plan = plan ∧ a.phase = .opening ∧ a.opening = p

/-- The attempt awaits the call that persists and publishes. -/
def Publishes (plan : AttemptPlan) (p : CensusProgram Unit) (a : Attempt) : Prop :=
  a.plan = plan ∧ a.phase = .publishing ∧ a.worker = p

/-- The handler awaits the insert of the failed state. -/
def Closes (plan : AttemptPlan) (p : CensusProgram Unit) (a : Attempt) : Prop :=
  a.plan = plan ∧ a.phase = .closing ∧ a.closing = p

theorem Opens.call {op : CensusOp} {k : CensusAns op → CensusProgram Unit} {answer : CensusAns op}
    (h : Opens plan (.call op k) a) (hanswered : Answered op s answer s') :
    ∃ a', Opens plan (k answer) a' ∧ AttemptStep s a s' a' :=
  ⟨{ a with opening := k answer }, ⟨h.1, h.2.1, rfl⟩, .openingCall h.2.2 hanswered⟩

theorem Publishes.call {op : CensusOp} {k : CensusAns op → CensusProgram Unit} {answer : CensusAns op}
    (h : Publishes plan (.call op k) a) (hanswered : Answered op s answer s') :
    ∃ a', Publishes plan (k answer) a' ∧ AttemptStep s a s' a' :=
  ⟨{ a with worker := k answer, log := a.log ++ [⟨op, answer⟩] }, ⟨h.1, h.2.1, rfl⟩,
    .workerCall h.2.2 hanswered⟩

theorem Closes.call {op : CensusOp} {k : CensusAns op → CensusProgram Unit} {answer : CensusAns op}
    (h : Closes plan (.call op k) a) (hanswered : Answered op s answer s') :
    ∃ a', Closes plan (k answer) a' ∧ AttemptStep s a s' a' :=
  ⟨{ a with closing := k answer }, ⟨h.1, h.2.1, rfl⟩, .closingCall h.2.2 hanswered⟩

/-- A guarded part that raised leads to the insert of the failed state. -/
theorem closes_interrupt (hplan : a.plan = plan) (hphase : a.phase = .collecting ∨ a.phase = .publishing) :
    Closes plan (RpcStateIndexer.insert (.attemptState plan.base.failed)) a.interrupt := by
  subst hplan
  unfold Attempt.interrupt
  rcases hphase with hphase | hphase <;> rw [hphase] <;> exact ⟨rfl, rfl, rfl⟩

theorem safe_handler {e : CensusException} (hplan : a.plan = plan)
    (hphase : a.phase = .collecting ∨ a.phase = .publishing)
    (h : AttemptReaches others s₀ plan s a) :
    Safe (storeEnv others) (fun s => ∃ a, AttemptReaches others s₀ plan s a)
      (AttemptEnded others s₀ plan)
      (do
        RpcStateIndexer.insert (.attemptState plan.base.failed)
        throw e) s := by
  rw [safe_bind]
  refine Safe.mono (safe_thread Closes.call (closes_interrupt hplan hphase) (h.step .interrupted))
    (fun _ hc => hc) ?_
  rintro (e' | u) s' ⟨a', h', hplan', hphase', hclosing⟩
  · refine ⟨a'.interrupt, h'.step .interrupted, ?_⟩
    unfold Attempt.interrupt
    rw [hphase']
  · exact ⟨_, h'.step (.closed hphase' hclosing), rfl⟩

/-- What the runner does once an attempt is named is what an attempt of the system may do. -/
theorem safe_runAttempt (plan : AttemptPlan) (x : Except CensusException (Collected plan.job plan.target))
    {guarded : CensusProgram Unit} (hguarded : guarded = ofExcept x >>= plan.worker) (s : CensusStore) :
    Safe (storeEnv others) (fun s' => ∃ a, AttemptReaches others s plan s' a) (AttemptEnded others s plan)
      (runAttempt plan.base guarded) s := by
  subst hguarded
  have hbegun : AttemptReaches others s plan s { plan } := .refl
  rw [runAttempt, safe_bind]
  refine Safe.mono (safe_thread Opens.call ⟨rfl, rfl, rfl⟩ hbegun) (fun _ hc => hc) ?_
  rintro (e | u) s₁ ⟨a, h, hplan, hphase, hopening⟩
  · refine ⟨a.interrupt, h.step .interrupted, ?_⟩
    unfold Attempt.interrupt
    rw [hphase]
  · have hcollecting : ∃ a₁, AttemptReaches others s plan s₁ a₁ ∧ a₁.plan = plan ∧
        a₁.phase = .collecting := ⟨_, h.step (.opened hphase hopening), hplan, rfl⟩
    obtain ⟨a₁, hcollecting, rfl, hphase₁⟩ := hcollecting
    rw [andThen_ok, safe_tryCatch]
    cases x with
    | error e => exact safe_handler rfl (.inl hphase₁) hcollecting
    | ok c =>
      have hpublishing : ∃ a₂, AttemptReaches others s a₁.plan s₁ a₂ ∧
          Publishes a₁.plan (a₁.plan.worker c) a₂ :=
        ⟨_, hcollecting.step (.collected hphase₁ c), rfl, rfl, rfl⟩
      obtain ⟨a₂, hpublishing, hworker⟩ := hpublishing
      show Safe _ _ _ (a₁.plan.worker c) s₁
      refine Safe.mono (safe_thread Publishes.call hworker hpublishing) (fun _ hc => hc) ?_
      rintro (e | u) s₂ ⟨a₃, h₃, hplan₃, hphase₃, hworker₃⟩
      · exact safe_handler hplan₃ (.inr hphase₃) h₃
      · exact ⟨_, h₃.step (.published hphase₃ hworker₃), rfl⟩

/-! ## The runner -/

/-- The plan is that of a target which the runner was called with. -/
structure AttemptPlan.For (plan : AttemptPlan) (runner : CensusRunner) (job : JobConfig)
    (target : CensusTarget) (snapshotDate : Nat) (anchor : BlockRef) : Prop where
  runner_eq : plan.runner = runner
  job_eq : plan.job = job
  target_eq : plan.target = target
  snapshotDate_eq : plan.snapshotDate = snapshotDate
  anchor_eq : plan.anchor = anchor

/-- Wherever the runner stops, it has done nothing, or an attempt of the target stands there. -/
def StopsAsAttempt (others : CensusStore → CensusStore → Prop) (P : AttemptPlan → Prop)
    (s s' : CensusStore) : Prop :=
  s' = s ∨ ∃ plan s₁ a, P plan ∧ others s s₁ ∧ AttemptReaches others s₁ plan s' a

/-- A runner that returns is an attempt that returned, under the identifier that it returns; one that
raises has begun no attempt, or is an attempt that raised. -/
def EndsAsAttempt (others : CensusStore → CensusStore → Prop) (P : AttemptPlan → Prop) (s : CensusStore)
    (r : Except CensusException Uuid) (s' : CensusStore) : Prop :=
  match r with
  | .ok attemptId => ∃ plan s₁, P plan ∧ plan.attemptId = attemptId ∧ others s s₁ ∧
      AttemptEnded others s₁ plan (.ok ()) s'
  | .error e => s' = s ∨ ∃ plan s₁, P plan ∧ others s s₁ ∧ AttemptEnded others s₁ plan (.error e) s'

/-- A runner that draws an identifier and attempts what is planned under it. -/
theorem safe_attempt {P : AttemptPlan → Prop} {attempt : Uuid → CensusProgram Unit}
    (hattempt : ∀ attemptId, ∃ plan : AttemptPlan, P plan ∧ plan.attemptId = attemptId ∧
      ∃ (x : Except CensusException (Collected plan.job plan.target)) (guarded : CensusProgram Unit),
        guarded = ofExcept x >>= plan.worker ∧ attempt attemptId = runAttempt plan.base guarded)
    (s : CensusStore) :
    Safe (storeEnv others) (StopsAsAttempt others P s) (EndsAsAttempt others P s) (do
      let attemptId ← perform .uuid4
      attempt attemptId
      return attemptId) s := by
  rintro attemptId s₁ ⟨s₂, hmoved, hanswered⟩
  cases hanswered
  obtain ⟨plan, hplan, hid, x, guarded, hguarded, heq⟩ := hattempt attemptId
  refine ⟨.inr ⟨plan, s₁, _, hplan, hmoved, .refl⟩, ?_⟩
  show Safe _ _ _ (attempt attemptId >>= fun _ => .ret attemptId) s₁
  rw [safe_bind, heq]
  refine Safe.mono (safe_runAttempt plan x hguarded s₁)
    (fun s' ⟨a, h⟩ => .inr ⟨plan, s₁, a, hplan, hmoved, h⟩) ?_
  rintro (e | u) s' hended
  · exact .inr ⟨plan, s₁, hplan, hmoved, hended⟩
  · exact ⟨plan, s₁, hplan, hid, hmoved, hended⟩

/-- `run_token` is an attempt of the system, whatever others do to the store between its operations. -/
theorem runToken_attempt (others : CensusStore → CensusStore → Prop) (runner : CensusRunner)
    (job : JobConfig) (token : TokenConfig) (snapshotDate : Nat) (anchor : BlockRef)
    (resolved : Except Failure FrozenUniverse) (verified : Except Failure Unit)
    (collected : FrozenUniverse → Except Failure TokenCollectionResult) (s : CensusStore) :
    Safe (storeEnv others)
      (StopsAsAttempt others (fun plan => plan.For runner job (.token token) snapshotDate anchor ∧
        resolved = .ok plan.frozen) s)
      (EndsAsAttempt others (fun plan => plan.For runner job (.token token) snapshotDate anchor ∧
        resolved = .ok plan.frozen) s)
      (runner.runToken job token snapshotDate anchor resolved verified collected) s := by
  unfold runToken
  split
  · exact .inl rfl
  · cases hdates : checkDateWindow token.dateStart token.dateEnd snapshotDate with
    | error e => exact .inl rfl
    | ok u =>
      cases resolved with
      | error f => exact .inl rfl
      | ok frozen =>
        refine safe_attempt (fun attemptId => ?_) s
        refine ⟨⟨runner, job, .token token, snapshotDate, anchor, frozen, attemptId, nofun⟩,
          ⟨⟨rfl, rfl, rfl, rfl, rfl⟩, rfl⟩, rfl,
          verified.mapError .environment >>= fun _ =>
            ((collected frozen).mapError .environment).map Collected.token, _, ?_, rfl⟩
        cases verified with
        | error f => rfl
        | ok u => cases collected frozen <;> rfl

/-- `run_pool` is an attempt of the system. -/
theorem runPool_attempt (others : CensusStore → CensusStore → Prop) (runner : CensusRunner)
    (job : JobConfig) (pool : PoolConfig) (snapshotDate : Nat) (anchor : BlockRef)
    (verified : Except Failure Unit) (collected : Except Failure PoolCollectionResult)
    (collectedCl : Except Failure PoolClCollectionResult) (s : CensusStore) :
    Safe (storeEnv others)
      (StopsAsAttempt others (fun plan => plan.For runner job (.pool pool) snapshotDate anchor) s)
      (EndsAsAttempt others (fun plan => plan.For runner job (.pool pool) snapshotDate anchor) s)
      (runner.runPool job pool snapshotDate anchor verified collected collectedCl) s := by
  unfold runPool
  cases hdates : checkDateWindow pool.dateStart pool.dateEnd snapshotDate with
  | error e => exact .inl rfl
  | ok u =>
    cases hdigest : (digestUniverse []).mapError CensusException.digest with
    | error e => exact .inl rfl
    | ok universeHash =>
      refine safe_attempt (fun attemptId => ?_) s
      refine ⟨⟨runner, job, .pool pool, snapshotDate, anchor, emptyUniverse universeHash, attemptId,
        fun _ _ => rfl⟩, ⟨rfl, rfl, rfl, rfl, rfl⟩, rfl,
        verified.mapError .environment >>= fun _ =>
          if mode : job.integrityMode = .clLiquidity then
            (collectedCl.mapError .environment).map fun r => Collected.poolCl r mode
          else (collected.mapError .environment).map fun r => Collected.pool r mode, _, ?_, rfl⟩
      cases verified with
      | error f => rfl
      | ok u =>
        by_cases mode : job.integrityMode = .clLiquidity
        · simp only [dif_pos mode, if_pos mode]
          cases collectedCl <;> rfl
        · simp only [dif_neg mode, if_neg mode]
          cases collected <;> rfl

end Simulation

end RpcStateIndexer
