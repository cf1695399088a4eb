import RpcStateIndexer.Census.System

/-!
# The gate in every reachable state

An attempt sees the steps of the others, and the insert of its own failed state, as interference that
the worker's gate tolerates.  So the gate holds of every attempt in every state of every run.
-/

namespace RpcStateIndexer

open Reasoning Program CensusRunner

/-! ## Interference -/

theorem Interferes.of_eq {id : Uuid} {s s' : CensusStore} (h : s'.ofAttempt id = s.ofAttempt id) :
    Interferes id s s' := by
  refine ⟨by rw [h], [], by simp, ?_⟩
  rw [h, List.append_nil]

theorem Interferes.trans {id : Uuid} {s₁ s₂ s₃ : CensusStore} (h : Interferes id s₁ s₂)
    (h' : Interferes id s₂ s₃) : Interferes id s₁ s₃ := by
  obtain ⟨failed, hfailed, hattempts⟩ := h.attempts
  obtain ⟨failed', hfailed', hattempts'⟩ := h'.attempts
  refine ⟨h'.observed.trans h.observed, failed ++ failed', ?_, ?_⟩
  · intro row hrow
    rcases List.mem_append.mp hrow with hrow | hrow
    · exact hfailed row hrow
    · exact hfailed' row hrow
  · rw [hattempts', hattempts, List.append_assoc]

/-- The failed state of the attempt itself. -/
theorem interferes_failed (base : AttemptBase) (s : CensusStore) :
    Interferes base.attemptId s (s.write (.attemptState base.failed)) := by
  have hown : (CensusWrite.attemptState base.failed).Owned base.attemptId := rfl
  refine ⟨?_, [base.failed], ?_, ?_⟩
  · rw [ofAttempt_write hown]
    rfl
  · intro row hrow
    rw [List.mem_singleton.mp hrow]
    rfl
  · rw [ofAttempt_write hown]
    rfl

theorem GateInvariant.interferes {base : AttemptBase} {frozen : FrozenUniverse}
    {result : CollectionResult} {s s' : CensusStore} {log : List (Sigma CensusAns)}
    (h : GateInvariant base frozen result ⟨s, log⟩) (hs : Interferes base.attemptId s s') :
    GateInvariant base frozen result ⟨s', log⟩ := by
  obtain ⟨hlog, hgate⟩ := h
  have hpublications : (s'.ofAttempt base.attemptId).publications =
      (s.ofAttempt base.attemptId).publications := by
    show (s'.ofAttempt base.attemptId).observed.publications = _
    rw [hs.observed]
    rfl
  refine ⟨hlog, ?_⟩
  rcases hgate with hnone | ⟨tables, p, hp⟩
  · exact .inl (hpublications.trans hnone)
  · obtain ⟨failed, -, hattempts⟩ := hs.attempts
    obtain ⟨t, ht, hbase, hmatch⟩ := hp.verifiedState
    refine .inr ⟨tables, p, { hp with rows := hs.observed.trans hp.rows, verifiedState := ?_ }⟩
    refine ⟨t, ?_, hbase, hmatch⟩
    rw [hattempts]
    exact List.mem_append_left _ ht

/-- What a program guarantees is guaranteed after interference too. -/
theorem safe_interferes {id : Uuid} {C : AttemptWorld → Prop} {p : CensusProgram Unit}
    {s s' : CensusStore} {log : List (Sigma CensusAns)}
    (hC : C ⟨s, log⟩ → C ⟨s', log⟩)
    (h : Safe (censusEnv id) C (fun _ w => C w) p ⟨s, log⟩) (hs : Interferes id s s') :
    Safe (censusEnv id) C (fun _ w => C w) p ⟨s', log⟩ := by
  cases p with
  | ret a => exact hC h
  | raise e => exact hC h
  | call op k =>
    rintro a w' ⟨s'', hs'', hanswer, hlog⟩
    exact h a w' ⟨s'', hs.trans hs'', hanswer, hlog⟩

/-! ## One attempt -/

/-- The thread has ended, or was never started. -/
def Finished (p : CensusProgram Unit) : Prop := ∀ op k, p ≠ .call op k

theorem finished_ret : Finished (.ret ()) := fun _ _ => nofun

/-- An insert is waiting for its answer, or over. -/
theorem finished_insert_answer {x : CensusWrite} {op : CensusOp}
    {k : CensusAns op → CensusProgram Unit} (call : insert x = .call op k) (ans : CensusAns op) :
    Finished (k ans) := by
  cases call
  cases ans with
  | error f => exact fun _ _ => nofun
  | ok a => exact finished_ret

/-- What is known of an attempt from its phase, its threads and its rows. -/
structure AttemptInvariant (s : CensusStore) (a : Attempt) : Prop where
  opening : a.opening = insert (.attemptState a.plan.base.started) ∨ Finished a.opening
  opened : a.phase = .opening ∨ a.phase = .raised ∨ Finished a.opening
  handedOver : a.collected ≠ none → Finished a.opening
  early : a.phase = .opening ∨ a.phase = .collecting → a.collected = none
  closing : a.closing = insert (.attemptState a.plan.base.failed) ∨ Finished a.closing
  idle : a.collected = none →
    (s.ofAttempt a.plan.attemptId).observed = {} ∧ Finished a.worker ∧ a.log = []
  gate : ∀ c, a.collected = some c →
    GateInvariant a.plan.base a.plan.frozen c.result ⟨s, a.log⟩ ∧
      Safe (censusEnv a.plan.attemptId) (GateInvariant a.plan.base a.plan.frozen c.result)
        (fun _ w => GateInvariant a.plan.base a.plan.frozen c.result w) a.worker ⟨s, a.log⟩

namespace AttemptInvariant

variable {s s' : CensusStore} {a a' : Attempt}

theorem interferes (h : AttemptInvariant s a) (hs : Interferes a.plan.attemptId s s') :
    AttemptInvariant s' a where
  opening := h.opening
  opened := h.opened
  handedOver := h.handedOver
  early := h.early
  closing := h.closing
  idle hc := by
    obtain ⟨hrows, hrest⟩ := h.idle hc
    exact ⟨hs.observed.trans hrows, hrest⟩
  gate c hc := by
    obtain ⟨hgate, hsafe⟩ := h.gate c hc
    exact ⟨hgate.interferes hs, safe_interferes (fun hw => hw.interferes hs) hsafe hs⟩

/-- A fresh attempt has no rows. -/
theorem start (plan : AttemptPlan) (hrows : s.ofAttempt plan.attemptId = {}) :
    AttemptInvariant s { plan } where
  opening := .inl rfl
  opened := .inl rfl
  handedOver := fun hc => absurd rfl hc
  early _ := rfl
  closing := .inr finished_ret
  idle _ := ⟨by rw [hrows]; rfl, finished_ret, rfl⟩
  gate _ := nofun

end AttemptInvariant

/-- The worker keeps the gate, from an attempt without observations. -/
theorem safe_worker (plan : AttemptPlan) (c : Collected plan.job plan.target) {w : AttemptWorld}
    (h : At plan.attemptId {} [] [] w) :
    Safe (censusEnv plan.attemptId) (GateInvariant plan.base plan.frozen c.result)
      (fun _ w' => GateInvariant plan.base plan.frozen c.result w') (plan.worker c) w := by
  obtain ⟨runner, job, target, snapshotDate, anchor, frozen, attemptId, hpool⟩ := plan
  apply Returns.safe
  cases c with
  | token r => exact returns_persistAndPublishToken _ r h
  | pool r mode => exact returns_persistAndPublishPool _ r (hpool _ rfl) h
  | poolCl r mode => exact returns_persistAndPublishPoolCl _ r (hpool _ rfl) h

/-! ## One step of an attempt -/

theorem Answered.store_eq {op : CensusOp} {s s' : CensusStore} {ans : CensusAns op}
    (h : Answered op s ans s') : s' = s ∨ ∃ x, op = .write x ∧ s' = s.write x := by
  cases h with
  | written x => exact .inr ⟨x, rfl, rfl⟩
  | lost x s f => exact .inl rfl
  | unacknowledged x s f => exact .inr ⟨x, rfl, rfl⟩
  | consistent q scope => exact .inl rfl
  | fast q scope s rows => exact .inl rfl
  | unread q scope c s f => exact .inl rfl
  | uuid4 s id => exact .inl rfl
  | now s time => exact .inl rfl

theorem Answered.other {op : CensusOp} {s s' : CensusStore} {ans : CensusAns op}
    (h : Answered op s ans s') {id : Uuid} (other : Uuid) (hop : op.Owned other) (hne : other ≠ id) :
    s'.ofAttempt id = s.ofAttempt id := by
  rcases h.store_eq with rfl | ⟨x, rfl, rfl⟩
  · rfl
  · exact ofAttempt_write_other hop hne s

/-- What a step of an attempt keeps, and what it leaves of the others. -/
structure AttemptStepped (s : CensusStore) (a : Attempt) (s' : CensusStore) (a' : Attempt) :
    Prop where
  plan : a'.plan = a.plan
  invariant : AttemptInvariant s' a'
  other : ∀ id, a.plan.attemptId ≠ id → s'.ofAttempt id = s.ofAttempt id

namespace AttemptInvariant

variable {s s' : CensusStore} {a a' : Attempt}

/-- The insert of the failed state is over, or it is stored as interference of its own attempt. -/
theorem closingCall (h : AttemptInvariant s a) {op : CensusOp}
    {k : CensusAns op → CensusProgram Unit} {ans : CensusAns op} (call : a.closing = .call op k)
    (answered : Answered op s ans s') : AttemptStepped s a s' { a with closing := k ans } := by
  rcases h.closing with hclosing | hdone
  · have hop : op = .write (.attemptState a.plan.base.failed) := by
      rw [hclosing] at call
      cases call
      rfl
    have hinterferes : Interferes a.plan.attemptId s s' := by
      rcases answered.store_eq with rfl | ⟨x, hx, rfl⟩
      · exact .refl _ _
      · obtain rfl : x = .attemptState a.plan.base.failed := by simpa [hop] using hx.symm
        exact interferes_failed a.plan.base s
    refine ⟨rfl, { h.interferes hinterferes with closing := .inr ?_ }, fun id hne => ?_⟩
    · exact finished_insert_answer (hclosing.symm.trans call) ans
    · subst hop
      exact answered.other a.plan.attemptId rfl hne
  · exact absurd call (hdone op k)

theorem openingCall (h : AttemptInvariant s a) {op : CensusOp}
    {k : CensusAns op → CensusProgram Unit} {ans : CensusAns op} (call : a.opening = .call op k)
    (answered : Answered op s ans s') : AttemptStepped s a s' { a with opening := k ans } := by
  rcases h.opening with hopening | hdone
  · have hop : op = .write (.attemptState a.plan.base.started) := by
      rw [hopening] at call
      cases call
      rfl
    -- Nothing was handed over: the worker starts after this insert has returned.
    have hnone : a.collected = none := by
      by_contra hsome
      exact h.handedOver hsome op k call
    have hfinished := finished_insert_answer (hopening.symm.trans call) ans
    obtain ⟨hrows, hworker⟩ := h.idle hnone
    have hobserved : (s'.ofAttempt a.plan.attemptId).observed = {} := by
      rcases answered.store_eq with rfl | ⟨x, hx, rfl⟩
      · exact hrows
      · obtain rfl : x = .attemptState a.plan.base.started := by simpa [hop] using hx.symm
        have hown : (CensusWrite.attemptState a.plan.base.started).Owned a.plan.attemptId := rfl
        rw [ofAttempt_write hown, ← hrows]
        rfl
    refine ⟨rfl, { h with
      opening := .inr hfinished
      opened := .inr (.inr hfinished)
      handedOver := fun _ => hfinished
      idle := fun _ => ⟨hobserved, hworker⟩
      gate := fun c hc => absurd (hnone.symm.trans hc) nofun }, fun id hne => ?_⟩
    subst hop
    exact answered.other a.plan.attemptId rfl hne
  · exact absurd call (hdone op k)

theorem workerCall (h : AttemptInvariant s a) {op : CensusOp}
    {k : CensusAns op → CensusProgram Unit} {ans : CensusAns op} (call : a.worker = .call op k)
    (answered : Answered op s ans s') :
    AttemptStepped s a s' { a with worker := k ans, log := a.log ++ [⟨op, ans⟩] } := by
  rcases Option.eq_none_or_eq_some a.collected with hc | ⟨c, hc⟩
  · exact absurd call ((h.idle hc).2.1 op k)
  · obtain ⟨hgate, hsafe⟩ := h.gate c hc
    rw [call] at hsafe
    obtain ⟨hgate', hsafe'⟩ := hsafe ans ⟨s', a.log ++ [⟨op, ans⟩]⟩
      ⟨s, .refl _ _, answered, rfl⟩
    refine ⟨rfl, { h with idle := ?_, gate := ?_ }, fun id hne => ?_⟩
    · exact fun hnone => absurd (hnone.symm.trans hc) nofun
    · intro c' hc'
      obtain rfl : c = c' := Option.some.inj (hc.symm.trans hc')
      exact ⟨hgate', hsafe'⟩
    · exact answered.other _ (hgate'.1 ⟨op, ans⟩ (by simp)) hne

/-- What the collector returned is handed to the worker. -/
theorem collected (h : AttemptInvariant s a) (phase : a.phase = .collecting)
    (c : Collected a.plan.job a.plan.target) :
    AttemptInvariant s
      { a with phase := .publishing, collected := some c, worker := a.plan.worker c } := by
  have hopened : Finished a.opening := by
    rcases h.opened with hphase | hphase | hdone
    · exact absurd (phase.symm.trans hphase) nofun
    · exact absurd (phase.symm.trans hphase) nofun
    · exact hdone
  obtain ⟨hrows, -, hlog⟩ := h.idle (h.early (.inr phase))
  have hat : At a.plan.base.attemptId {} [] [] ⟨s, a.log⟩ := by
    refine ⟨hrows, List.forall_mem_nil _, List.forall_mem_nil _, fun e he => ?_⟩
    rw [hlog] at he
    exact absurd he List.not_mem_nil
  refine { h with
    opened := .inr (.inr hopened)
    handedOver := fun _ => hopened
    early := fun hphase => absurd hphase (by simp)
    idle := fun hnone => absurd hnone (Option.some_ne_none c)
    gate := ?_ }
  intro c' hc'
  obtain rfl := Option.some.inj hc'
  exact ⟨hat.gateInvariant rfl, safe_worker a.plan c hat⟩

theorem interrupt (h : AttemptInvariant s a) : AttemptInvariant s a.interrupt := by
  have hhandled : a.phase = .collecting ∨ a.phase = .publishing →
      AttemptInvariant s a.handle := by
    intro hphase
    refine { h with opened := .inr (.inr ?_), early := ?_, closing := .inl rfl }
    · rcases h.opened with hp | hp | hdone
      · rcases hphase with hq | hq <;> exact absurd (hq.symm.trans hp) nofun
      · rcases hphase with hq | hq <;> exact absurd (hq.symm.trans hp) nofun
      · exact hdone
    · exact fun hp => absurd hp (by simp [Attempt.handle])
  have hraised : AttemptInvariant s { a with phase := .raised } :=
    { h with opened := .inr (.inl rfl), early := fun hp => absurd hp (by simp) }
  cases hphase : a.phase <;> simp only [Attempt.interrupt, hphase]
  case collecting => exact hhandled (.inl hphase)
  case publishing => exact hhandled (.inr hphase)
  case returned => exact h
  case raised => exact h
  all_goals exact hraised

theorem step (h : AttemptInvariant s a) (hs : AttemptStep s a s' a') :
    AttemptStepped s a s' a' := by
  cases hs with
  | openingCall call answered => exact h.openingCall call answered
  | workerCall call answered => exact h.workerCall call answered
  | closingCall call answered => exact h.closingCall call answered
  | collected phase c => exact ⟨rfl, h.collected phase c, fun _ _ => rfl⟩
  | opened phase returned =>
    refine ⟨rfl, { h with opened := .inr (.inr ?_), early := fun _ => h.early (.inl phase) },
      fun _ _ => rfl⟩
    rw [returned]
    exact finished_ret
  | published phase returned =>
    refine ⟨rfl, { h with opened := .inr (.inr ?_), early := fun hp => absurd hp (by simp) },
      fun _ _ => rfl⟩
    rcases h.opened with hp | hp | hdone
    · exact absurd (phase.symm.trans hp) nofun
    · exact absurd (phase.symm.trans hp) nofun
    · exact hdone
  | closed phase returned =>
    exact ⟨rfl, { h with opened := .inr (.inl rfl), early := fun hp => absurd hp (by simp) },
      fun _ _ => rfl⟩
  | interrupted =>
    refine ⟨?_, h.interrupt, fun _ _ => rfl⟩
    cases hphase : a.phase <;> simp [Attempt.interrupt, Attempt.handle, hphase]

end AttemptInvariant

/-! ## Every reachable state -/

/-- The invariant of a run that started with the rows of `s₀`. -/
structure WorldInvariant (s₀ : CensusStore) (w : CensusWorld) : Prop where
  attempts : ∀ a ∈ w.attempts, AttemptInvariant w.store a
  nodup : (w.attempts.map fun a => a.plan.attemptId).Nodup
  used : ∀ a ∈ w.attempts, a.plan.attemptId ∈ w.used
  rows : ∀ id, id ∉ w.used → w.store.ofAttempt id = {}
  foreign : ∀ id, (∀ a ∈ w.attempts, a.plan.attemptId ≠ id) →
    (w.store.ofAttempt id).publications = (s₀.ofAttempt id).publications

namespace WorldInvariant

variable {s₀ : CensusStore} {w w' : CensusWorld}

theorem initial (h : w.Initial) : WorldInvariant w.store w where
  attempts a ha := absurd (h.attempts ▸ ha) List.not_mem_nil
  nodup := by simp [h.attempts]
  used a ha := absurd (h.attempts ▸ ha) List.not_mem_nil
  rows := h.rows
  foreign _ _ := rfl

/-- A step that leaves the rows of every attempt alone. -/
theorem of_ofAttempt_eq (h : WorldInvariant s₀ w) {s : CensusStore}
    (hs : ∀ id, s.ofAttempt id = w.store.ofAttempt id) :
    WorldInvariant s₀ { w with store := s } where
  attempts a ha := (h.attempts a ha).interferes (.of_eq (hs _))
  nodup := h.nodup
  used := h.used
  rows id hid := (hs id).trans (h.rows id hid)
  foreign id hid := by
    rw [show (CensusWorld.mk s w.used w.attempts).store = s from rfl, hs]
    exact h.foreign id hid

theorem start (h : WorldInvariant s₀ w) (plan : AttemptPlan) (fresh : plan.attemptId ∉ w.used) :
    WorldInvariant s₀
      { w with used := plan.attemptId :: w.used, attempts := w.attempts ++ [{ plan }] } where
  attempts a ha := by
    rcases List.mem_append.mp ha with ha | ha
    · exact h.attempts a ha
    · rw [List.mem_singleton.mp ha]
      exact .start plan (h.rows _ fresh)
  nodup := by
    rw [List.map_append, List.nodup_append]
    refine ⟨h.nodup, by simp, ?_⟩
    intro id hid id' hid' heq
    obtain ⟨a, ha, rfl⟩ := List.mem_map.mp hid
    obtain rfl : id' = plan.attemptId := by simpa using hid'
    exact fresh (heq ▸ h.used a ha)
  used a ha := by
    rcases List.mem_append.mp ha with ha | ha
    · exact List.mem_cons_of_mem _ (h.used a ha)
    · rw [List.mem_singleton.mp ha]
      exact List.mem_cons_self
  rows id hid := h.rows id fun hmem => hid (List.mem_cons_of_mem _ hmem)
  foreign id hid := h.foreign id fun a ha => hid a (List.mem_append_left _ ha)

theorem targetFailure (h : WorldInvariant s₀ w) (row : ErrorRow)
    (fresh : row.scope.attemptId ∉ w.used) :
    WorldInvariant s₀
      { w with store := w.store.write (.terminalErrors [row])
               used := row.scope.attemptId :: w.used } := by
  have hown : (CensusWrite.terminalErrors [row]).Owned row.scope.attemptId := by
    intro r hr
    rw [List.mem_singleton.mp hr]
  have hother : ∀ id, id ∉ row.scope.attemptId :: w.used →
      (w.store.write (.terminalErrors [row])).ofAttempt id = w.store.ofAttempt id := fun id hid =>
    ofAttempt_write_other hown (fun heq => hid (heq ▸ List.mem_cons_self)) _
  refine ⟨fun a ha => ?_, h.nodup, fun a ha => List.mem_cons_of_mem _ (h.used a ha), ?_, ?_⟩
  · refine (h.attempts a ha).interferes (.of_eq ?_)
    exact ofAttempt_write_other hown (fun heq => fresh (heq ▸ h.used a ha)) _
  · exact fun id hid => (hother id hid).trans (h.rows id fun hmem => hid (List.mem_cons_of_mem _ hmem))
  · exact fun id hid => h.foreign id hid

theorem attempt (h : WorldInvariant s₀ w) {before after : List Attempt} {a a' : Attempt}
    {s : CensusStore} (split : w.attempts = before ++ a :: after)
    (step : AttemptStep w.store a s a') :
    WorldInvariant s₀ { w with store := s, attempts := before ++ a' :: after } := by
  have ha : a ∈ w.attempts := by simp [split]
  obtain ⟨hplan, hinvariant, hother⟩ := (h.attempts a ha).step step
  have hids : (before ++ a' :: after).map (fun a => a.plan.attemptId) =
      w.attempts.map fun a => a.plan.attemptId := by
    simp [split, hplan]
  have hmem : ∀ b ∈ before ++ a' :: after, b = a' ∨
      b ∈ w.attempts ∧ a.plan.attemptId ≠ b.plan.attemptId := by
    intro b hb
    have hnodup := h.nodup
    rw [split, List.map_append, List.map_cons, List.nodup_append] at hnodup
    obtain ⟨-, hafter, hbefore⟩ := hnodup
    rw [List.mem_append, List.mem_cons] at hb
    rcases hb with hb | rfl | hb
    · exact .inr ⟨by simp [split, hb],
        (hbefore _ (List.mem_map_of_mem hb) _ List.mem_cons_self).symm⟩
    · exact .inl rfl
    · refine .inr ⟨by simp [split, hb], fun heq => (List.nodup_cons.mp hafter).1 ?_⟩
      rw [heq]
      exact List.mem_map_of_mem (f := fun a => a.plan.attemptId) hb
  refine ⟨fun b hb => ?_, hids ▸ h.nodup, fun b hb => ?_, fun id hid => ?_, fun id hid => ?_⟩
  · rcases hmem b hb with rfl | ⟨hb, hne⟩
    · exact hinvariant
    · exact (h.attempts b hb).interferes (.of_eq (hother _ hne))
  · rcases hmem b hb with rfl | ⟨hb, -⟩
    · exact hplan ▸ h.used a ha
    · exact h.used b hb
  · exact (hother id fun heq => hid (heq ▸ h.used a ha)).trans (h.rows id hid)
  · have hne : a.plan.attemptId ≠ id := hplan ▸ hid a' (by simp)
    refine (congrArg CensusStore.publications (hother id hne)).trans (h.foreign id ?_)
    intro b hb
    rw [split, List.mem_append, List.mem_cons] at hb
    rcases hb with hb | rfl | hb
    · exact hid b (by simp [hb])
    · exact hne
    · exact hid b (by simp [hb])

theorem step (h : WorldInvariant s₀ w) (hs : CensusStep w w') : WorldInvariant s₀ w' := by
  cases hs with
  | start plan fresh => exact h.start plan fresh
  | attempt split step => exact h.attempt split step
  | registerConfigs rows => exact h.of_ofAttempt_eq fun _ => rfl
  | insertAnchor row => exact h.of_ofAttempt_eq fun _ => rfl
  | targetFailure row fresh => exact h.targetFailure row fresh

theorem reachable (h : WorldInvariant s₀ w) (hr : Relation.ReflTransGen CensusStep w w') :
    WorldInvariant s₀ w' := by
  induction hr with
  | refl => exact h
  | tail _ hs ih => exact ih.step hs

end WorldInvariant

end RpcStateIndexer
