import RpcStateIndexer.Census.ViewsCorrect

/-!
# Cancelled attempts

Cancelling a coroutine does not stop its worker, which may store the verified state after the handler
stored the failed one: the attempt has raised and its publication is eligible.  As long as that does
not happen, and the handler of an attempt whose verified state is stored re-raises only once the failed
one is, an attempt that raised is never eligible.
-/

namespace RpcStateIndexer

open Reasoning Program CensusRunner

/-! ## An attempt that raised and is eligible -/

/-- The attempt cancelled after four operations of its worker, when its handler has stored the failed
state and re-raised. -/
def cancelled (plan : AttemptPlan) (c : CensusProgram Unit × AttemptWorld)
    (result : Collected plan.job plan.target) : Attempt :=
  { handedOver plan result with
    phase := .raised, closing := .ret (), worker := c.1, log := c.2.log }

/-- The same attempt while its worker is at `c` and nothing is cancelled. -/
def running (plan : AttemptPlan) (c : CensusProgram Unit × AttemptWorld)
    (result : Collected plan.job plan.target) : Attempt :=
  { handedOver plan result with worker := c.1, log := c.2.log }

section Cancel

variable (used : List Uuid) (plan : AttemptPlan) (result : Collected plan.job plan.target)
  (c : CensusProgram Unit × AttemptWorld)

theorem step_interrupt : CensusStep ⟨c.2.store, used, [running plan c result]⟩
    ⟨c.2.store, used, [(running plan c result).handle]⟩ :=
  solo_step (@AttemptStep.interrupted (running plan c result) _)

theorem step_failed : CensusStep ⟨c.2.store, used, [(running plan c result).handle]⟩
    ⟨c.2.store.write (.attemptState plan.base.failed), used,
      [{ (running plan c result).handle with closing := .ret () }]⟩ :=
  solo_step (@AttemptStep.closingCall (running plan c result).handle (.write _) _ _ _ (Except.ok ())
    rfl (.written _ _))

theorem step_closed (s : CensusStore) :
    CensusStep ⟨s, used, [{ (running plan c result).handle with closing := .ret () }]⟩
      ⟨s, used, [cancelled plan c result]⟩ :=
  solo_step (@AttemptStep.closed { (running plan c result).handle with closing := .ret () } _ rfl rfl)

theorem reaches_cancelled : Relation.ReflTransGen CensusStep
    ⟨c.2.store, used, [running plan c result]⟩
    ⟨c.2.store.write (.attemptState plan.base.failed), used, [cancelled plan c result]⟩ :=
  .head (step_interrupt used plan result c) (.head (step_failed used plan result c)
    (.single (step_closed used plan result c _)))

end Cancel

/-- The sample cancelled after four operations: its worker has read everything back. -/
def sampleCancelled : CensusWorld :=
  ⟨(sampleWorker 4).2.store.write (.attemptState samplePlan.base.failed), ["attempt"],
    [cancelled samplePlan (sampleWorker 4) sampleCollected]⟩

/-- And once its worker has ended. -/
def sampleCancelledAfter : CensusWorld :=
  soloAfter "publication" ["attempt"] (cancelled samplePlan (sampleWorker 4) sampleCollected)
    sampleCancelled.store 3

theorem sampleCancelledAfter_store : sampleCancelledAfter.store =
    ((samplePersisted.write (.attemptState samplePlan.base.failed)).write
      (.attemptState sampleVerified)).write (.publication samplePublication) := by
  decide +kernel

theorem raised_eligible :
    Relation.ReflTransGen CensusStep ⟨sampleCensusStore, [], []⟩ sampleCancelled ∧
      Relation.ReflTransGen CensusStep sampleCancelled sampleCancelledAfter ∧
      (∀ a ∈ sampleCancelled.attempts, a.phase = .raised ∧ a.plan.attemptId = "attempt") ∧
      ∃ p ∈ sampleCancelledAfter.store.publications, p.attemptId = "attempt" ∧
        sampleCancelledAfter.store.Eligible p := by
  refine ⟨?_, soloAfter_reaches _ _ _ _ 3, ?_, ?_⟩
  · exact (sampleWorld_reaches 4).trans
      (reaches_cancelled ["attempt"] samplePlan sampleCollected (sampleWorker 4))
  · intro a ha
    obtain rfl := List.mem_singleton.mp ha
    exact ⟨rfl, rfl⟩
  · rw [sampleCancelledAfter_store]
    decide +kernel

/-! ## When an attempt that raised stays ineligible -/

/-- A verified state of the attempt is stored. -/
def CensusStore.HasVerified (s : CensusStore) (attemptId : Uuid) : Prop :=
  ∃ t ∈ s.attempts, t.attemptId = attemptId ∧ t.status = .verified

/-- No verified state is stored over a failed one or once the attempt has raised, and an attempt whose
verified state is stored raises once the failed one is.  Both are conditions on the state before the
step. -/
structure Orderly (w w' : CensusWorld) : Prop where
  verified : ∀ row, w'.store.attempts = w.store.attempts ++ [row] → row.status = .verified →
    (∀ t ∈ w.store.attempts, t.attemptId = row.attemptId → t.status ≠ .failed) ∧
      ∀ a ∈ w.attempts, a.plan.attemptId = row.attemptId → a.phase ≠ .raised
  raised : ∀ before after a a', w.attempts = before ++ a :: after →
    w'.attempts = before ++ a' :: after → a.phase ≠ .raised → a'.phase = .raised →
      w.store.HasVerified a.plan.attemptId → a.plan.base.failed ∈ w.store.attempts

/-- A step that meets the condition. -/
def OrderlyStep (w w' : CensusWorld) : Prop := CensusStep w w' ∧ Orderly w w'

/-- A later state of an attempt does not follow a failed one with a verified one. -/
def FailedLast (x y : AttemptRow) : Prop := x.status = .failed → y.status ≠ .verified

structure OrderlyInvariant (w : CensusWorld) : Prop where
  raised : ∀ a ∈ w.attempts, a.phase = .raised → w.store.HasVerified a.plan.attemptId →
    a.plan.base.failed ∈ w.store.attempts
  ordered : ∀ a ∈ w.attempts,
    (w.store.ofAttempt a.plan.attemptId).attempts.Pairwise FailedLast

theorem AttemptStep.plan_eq {s s' : CensusStore} {a a' : Attempt} (h : AttemptStep s a s' a') :
    a'.plan = a.plan := by
  cases h with
  | interrupted => cases hphase : a.phase <;> simp [Attempt.interrupt, Attempt.handle, hphase]
  | _ => rfl

/-- An attempt that raises stores nothing by it. -/
theorem AttemptStep.store_eq_of_raises {s s' : CensusStore} {a a' : Attempt}
    (h : AttemptStep s a s' a') (hbefore : a.phase ≠ .raised) (hraised : a'.phase = .raised) :
    s' = s := by
  cases h with
  | openingCall call answered => exact absurd hraised hbefore
  | workerCall call answered => exact absurd hraised hbefore
  | closingCall call answered => exact absurd hraised hbefore
  | _ => rfl

theorem AttemptStep.raised_stays {s s' : CensusStore} {a a' : Attempt} (h : AttemptStep s a s' a')
    (hraised : a.phase = .raised) : a'.phase = .raised := by
  cases h with
  | openingCall call answered => exact hraised
  | workerCall call answered => exact hraised
  | closingCall call answered => exact hraised
  | opened phase returned => exact absurd (hraised.symm.trans phase) (by simp)
  | collected phase c => exact absurd (hraised.symm.trans phase) (by simp)
  | published phase returned => exact absurd (hraised.symm.trans phase) (by simp)
  | closed phase returned => rfl
  | interrupted =>
    rw [Attempt.interrupt, hraised]
    exact hraised

/-- One insert, under the condition on verified states. -/
theorem failedLast_write {w : CensusWorld} {x : CensusWrite} {id : Uuid}
    (hid : (w.store.ofAttempt id).attempts.Pairwise FailedLast) (hx : ∃ other, x.Owned other)
    (hverified : ∀ row, (w.store.write x).attempts = w.store.attempts ++ [row] →
      row.status = .verified → ∀ t ∈ w.store.attempts, t.attemptId = row.attemptId →
        t.status ≠ .failed) :
    ((w.store.write x).ofAttempt id).attempts.Pairwise FailedLast := by
  obtain ⟨other, hx⟩ := hx
  by_cases hother : other = id
  · subst hother
    rw [ofAttempt_write hx]
    cases x with
    | attemptState row =>
      show ((w.store.ofAttempt other).attempts ++ [row]).Pairwise FailedLast
      rw [List.pairwise_append]
      refine ⟨hid, List.pairwise_singleton _ _, ?_⟩
      intro t ht y hy hfailed hstatus
      obtain rfl := List.mem_singleton.mp hy
      obtain ⟨hmem, hattempt⟩ := List.mem_filter.mp ht
      have hsame : t.attemptId = y.attemptId :=
        (of_decide_eq_true hattempt).trans (show y.attemptId = other from hx).symm
      exact hverified y rfl hstatus t hmem hsame hfailed
    | _ => exact hid
  · rw [ofAttempt_write_other hx hother]
    exact hid

namespace OrderlyInvariant

variable {s₀ : CensusStore} {w w' : CensusWorld}

theorem initial (h : w.Initial) : OrderlyInvariant w where
  raised _ ha := absurd (h.attempts ▸ ha) List.not_mem_nil
  ordered _ ha := absurd (h.attempts ▸ ha) List.not_mem_nil

/-- A step that leaves the attempts and the rows of each alone. -/
theorem of_eq (h : OrderlyInvariant w) (hattempts : w'.attempts = w.attempts)
    (hstates : w'.store.attempts = w.store.attempts) : OrderlyInvariant w' where
  raised a ha hphase hverified := by
    rw [hstates]
    obtain ⟨t, ht, hkind⟩ := hverified
    exact h.raised a (hattempts ▸ ha) hphase ⟨t, hstates ▸ ht, hkind⟩
  ordered a ha := by
    show (w'.store.attempts.filter _).Pairwise FailedLast
    rw [hstates]
    exact h.ordered a (hattempts ▸ ha)

theorem attempt (h : OrderlyInvariant w) (hw : WorldInvariant s₀ w)
    {before after : List Attempt} {a a' : Attempt} {s : CensusStore}
    (split : w.attempts = before ++ a :: after) (step : AttemptStep w.store a s a')
    (horderly : Orderly w { w with store := s, attempts := before ++ a' :: after }) :
    OrderlyInvariant { w with store := s, attempts := before ++ a' :: after } := by
  have ha : a ∈ w.attempts := by simp [split]
  have hplan := step.plan_eq
  have hstore := step.store_eq (hw.attempts a ha)
  have hmem : ∀ b ∈ before ++ a' :: after, b = a' ∨ b ∈ w.attempts := by
    intro b hb
    rw [List.mem_append, List.mem_cons] at hb
    rcases hb with hb | rfl | hb
    · exact .inr (by simp [split, hb])
    · exact .inl rfl
    · exact .inr (by simp [split, hb])
  -- States are never taken back.
  have hgrows : ∀ row ∈ w.store.attempts, row ∈ s.attempts := by
    intro row hrow
    rcases hstore with rfl | ⟨x, -, rfl⟩
    · exact hrow
    · cases x with
      | attemptState new => exact List.mem_append_left _ hrow
      | _ => exact hrow
  -- An attempt that has raised gets no verified state.
  have hold : ∀ b ∈ w.attempts, b.phase = .raised → s.HasVerified b.plan.attemptId →
      w.store.HasVerified b.plan.attemptId := by
    rintro b hb hraised ⟨t, ht, hid, hstatus⟩
    rcases hstore with rfl | ⟨x, -, rfl⟩
    · exact ⟨t, ht, hid, hstatus⟩
    · cases x with
      | attemptState new =>
        rcases List.mem_append.mp ht with ht | ht
        · exact ⟨t, ht, hid, hstatus⟩
        · obtain rfl := List.mem_singleton.mp ht
          exact absurd hraised ((horderly.verified t rfl hstatus).2 b hb hid.symm)
      | _ => exact ⟨t, ht, hid, hstatus⟩
  constructor
  · intro b hb hraised hverified
    rcases hmem b hb with rfl | hb
    · rw [hplan] at hverified ⊢
      by_cases hbefore : a.phase = .raised
      · exact hgrows _ (h.raised a ha hbefore (hold a ha hbefore hverified))
      -- It raises by this very step, which stores nothing.
      · obtain rfl := step.store_eq_of_raises hbefore hraised
        exact horderly.raised before after a b split rfl hbefore hraised hverified
    · exact hgrows _ (h.raised b hb hraised (hold b hb hraised hverified))
  · intro b hb
    have hid : (w.store.ofAttempt b.plan.attemptId).attempts.Pairwise FailedLast := by
      rcases hmem b hb with rfl | hb
      · rw [hplan]
        exact h.ordered a ha
      · exact h.ordered b hb
    rcases hstore with rfl | ⟨x, hown, rfl⟩
    · exact hid
    · exact failedLast_write hid ⟨_, hown⟩ fun row hrow hstatus => (horderly.verified row hrow hstatus).1

theorem step (h : OrderlyInvariant w) (hw : WorldInvariant s₀ w) (hs : OrderlyStep w w') :
    OrderlyInvariant w' := by
  obtain ⟨hs, horderly⟩ := hs
  cases hs with
  | registerConfigs rows => exact h.of_eq rfl rfl
  | insertAnchor row => exact h.of_eq rfl rfl
  | targetFailure row fresh => exact h.of_eq rfl rfl
  | attempt split step => exact h.attempt hw split step horderly
  | start plan fresh =>
    refine ⟨fun a ha hraised hverified => ?_, fun a ha => ?_⟩
    · rcases List.mem_append.mp ha with ha | ha
      · exact h.raised a ha hraised hverified
      · obtain rfl := List.mem_singleton.mp ha
        exact absurd hraised nofun
    · rcases List.mem_append.mp ha with ha | ha
      · exact h.ordered a ha
      · obtain rfl := List.mem_singleton.mp ha
        show (w.store.ofAttempt plan.attemptId).attempts.Pairwise FailedLast
        rw [hw.rows _ fresh]
        exact List.Pairwise.nil

/-- An attempt that raised in an orderly run is not eligible. -/
theorem not_eligible (h : OrderlyInvariant w) (hw : WorldInvariant s₀ w) {a : Attempt}
    (ha : a ∈ w.attempts) (hraised : a.phase = .raised) {p : PublicationRow}
    (hp : p ∈ w.store.publications) (hid : p.attemptId = a.plan.attemptId) :
    ¬ w.store.Eligible p := by
  intro heligible
  have hmem : p ∈ (w.store.ofAttempt a.plan.attemptId).publications :=
    List.mem_filter.mpr ⟨hp, by simpa using hid⟩
  obtain ⟨c, tables, q, -, hgated⟩ := (hw.attempts a ha).gated (List.ne_nil_of_mem hmem)
  obtain rfl : p = q := List.mem_singleton.mp (hgated.publications ▸ hmem)
  obtain ⟨t, ht, hmatch⟩ := heligible.attempt
  have hkey : AttemptRow.key a.plan.base.failed = AttemptRow.key t := by
    show (a.plan.base.target, a.plan.attemptId) = (t.target, t.attemptId)
    rw [← hmatch.target, ← hmatch.attemptId, hgated.target, hid]
  -- The failed state has the key of the verified one, so it was stored before it.
  obtain ⟨earlier, later, hrows, hlater⟩ := mem_final_iff.mp ht
  have hfailed := h.raised a ha hraised
    ⟨t, by simp [hrows], hmatch.attemptId.symm.trans hid, hmatch.status⟩
  have hearlier : a.plan.base.failed ∈ earlier := by
    rw [hrows, List.mem_append, List.mem_cons] at hfailed
    rcases hfailed with hmem | heq | hmem
    · exact hmem
    · exact absurd (heq ▸ hmatch.status) nofun
    · exact absurd hkey (hlater _ hmem)
  have hordered := h.ordered a ha
  rw [CensusStore.ofAttempt, hrows, List.filter_append, List.pairwise_append] at hordered
  refine hordered.2.2 a.plan.base.failed ?_ t ?_ rfl hmatch.status
  · exact List.mem_filter.mpr ⟨hearlier, decide_eq_true rfl⟩
  · refine List.mem_filter.mpr ⟨List.mem_cons_self, decide_eq_true ?_⟩
    rw [← hmatch.attemptId, hid]

end OrderlyInvariant

/-- An attempt that raised has raised in every later state. -/
theorem CensusStep.raised_stays {w w' : CensusWorld} (h : CensusStep w w') {a : Attempt}
    (ha : a ∈ w.attempts) (hraised : a.phase = .raised) :
    ∃ a' ∈ w'.attempts, a'.plan = a.plan ∧ a'.phase = .raised := by
  cases h with
  | registerConfigs rows => exact ⟨a, ha, rfl, hraised⟩
  | insertAnchor row => exact ⟨a, ha, rfl, hraised⟩
  | targetFailure row fresh => exact ⟨a, ha, rfl, hraised⟩
  | start plan fresh => exact ⟨a, List.mem_append_left _ ha, rfl, hraised⟩
  | @attempt before after b b' s split step =>
    rw [split, List.mem_append, List.mem_cons] at ha
    rcases ha with ha | rfl | ha
    · exact ⟨a, by simp [ha], rfl, hraised⟩
    · exact ⟨b', by simp, step.plan_eq, step.raised_stays hraised⟩
    · exact ⟨a, by simp [ha], rfl, hraised⟩

/-- What holds of a state of an orderly run. -/
theorem orderly_reachable {w₀ w : CensusWorld} (init : w₀.Initial)
    (reach : Relation.ReflTransGen OrderlyStep w₀ w) :
    WorldInvariant w₀.store w ∧ OrderlyInvariant w := by
  induction reach with
  | refl => exact ⟨.initial init, .initial init⟩
  | tail _ hs ih => exact ⟨ih.1.step hs.1, ih.2.step ih.1 hs⟩

theorem raised_never_eligible {w₀ w w' : CensusWorld} (init : w₀.Initial)
    (reach : Relation.ReflTransGen OrderlyStep w₀ w)
    (later : Relation.ReflTransGen OrderlyStep w w') {a : Attempt} (ha : a ∈ w.attempts)
    (hraised : a.phase = .raised) {p : PublicationRow} (hp : p ∈ w'.store.publications)
    (hid : p.attemptId = a.plan.attemptId) : ¬ w'.store.Eligible p := by
  have hstays : ∃ a' ∈ w'.attempts, a'.plan = a.plan ∧ a'.phase = .raised := by
    clear hp
    induction later with
    | refl => exact ⟨a, ha, rfl, hraised⟩
    | tail _ hs ih =>
      obtain ⟨b, hb, hplan, hphase⟩ := ih
      obtain ⟨b', hb', hplan', hphase'⟩ := hs.1.raised_stays hb hphase
      exact ⟨b', hb', hplan'.trans hplan, hphase'⟩
  obtain ⟨b, hb, hplan, hphase⟩ := hstays
  obtain ⟨hw, horderly⟩ := orderly_reachable init (reach.trans later)
  exact horderly.not_eligible hw hb hphase hp (hplan ▸ hid)

/-! ## The sample pool, cancelled after it was published -/

theorem CensusStep.grows {w w' : CensusWorld} (h : CensusStep w w')
    (hw : ∀ a ∈ w.attempts, AttemptInvariant w.store a) {row : AttemptRow}
    (hrow : row ∈ w.store.attempts) : row ∈ w'.store.attempts := by
  cases h with
  | @attempt before after a a' s split step =>
    rcases step.store_eq (hw a (by simp [split])) with rfl | ⟨x, -, rfl⟩
    · exact hrow
    · cases x with
      | attemptState new => exact List.mem_append_left _ hrow
      | _ => exact hrow
  | _ => exact hrow

/-- A run that ends without a failed state and without an attempt that raised is orderly. -/
theorem orderly_of_quiet {s₀ : CensusStore} {w w' : CensusWorld} (hw : WorldInvariant s₀ w)
    (reach : Relation.ReflTransGen CensusStep w w')
    (hstates : ∀ t ∈ w'.store.attempts, t.status ≠ .failed)
    (hphases : ∀ a ∈ w'.attempts, a.phase ≠ .raised) :
    Relation.ReflTransGen OrderlyStep w w' := by
  suffices aux : Relation.ReflTransGen OrderlyStep w w' ∧
      (∀ t ∈ w.store.attempts, t ∈ w'.store.attempts) ∧
      ((∃ a ∈ w.attempts, a.phase = .raised) → ∃ a ∈ w'.attempts, a.phase = .raised) from aux.1
  induction reach using Relation.ReflTransGen.head_induction_on with
  | refl => exact ⟨.refl, fun _ ht => ht, fun h => h⟩
  | head hstep _ ih =>
    obtain ⟨hrun, hrows, hraised⟩ := ih (hw.step hstep)
    refine ⟨.head ⟨hstep, ?_, ?_⟩ hrun, fun t ht => hrows t (hstep.grows hw.attempts ht), ?_⟩
    · intro row hrow hverified
      refine ⟨fun t ht _ hfailed => hstates t (hrows t (hstep.grows hw.attempts ht)) hfailed, ?_⟩
      intro a ha _ hphase
      obtain ⟨a', ha', -, hphase'⟩ := hstep.raised_stays ha hphase
      obtain ⟨b, hb, hraised⟩ := hraised ⟨a', ha', hphase'⟩
      exact hphases b hb hraised
    · intro before after a a' _ hafter _ hphase _
      obtain ⟨b, hb, hraised⟩ := hraised ⟨a', by simp [hafter], hphase⟩
      exact absurd hraised (hphases b hb)
    · rintro ⟨a, ha, hphase⟩
      obtain ⟨a', ha', -, hphase'⟩ := hstep.raised_stays ha hphase
      exact hraised ⟨a', ha', hphase'⟩

/-- The condition on a step of an attempt that is alone. -/
theorem orderly_solo {s s' : CensusStore} {used : List Uuid} {a a' : Attempt}
    (hverified : ∀ row, s'.attempts = s.attempts ++ [row] → row.status ≠ .verified)
    (hraises : a.phase ≠ .raised → a'.phase = .raised → a.plan.base.failed ∈ s.attempts) :
    Orderly ⟨s, used, [a]⟩ ⟨s', used, [a']⟩ := by
  refine ⟨fun row hrow hstatus => absurd hstatus (hverified row hrow), ?_⟩
  intro before after b b' hbefore hafter hphase hraised _
  obtain ⟨rfl, hb⟩ | ⟨-, hb⟩ := List.singleton_eq_append_iff.mp hbefore
  · obtain ⟨rfl, rfl⟩ := List.cons.inj hb
    obtain ⟨rfl, -⟩ := List.cons.inj hafter
    exact hraises hphase hraised
  · exact absurd hb (by simp)

/-- An attempt cancelled while it publishes, after a run without failed states: the failed state
follows the verified one. -/
theorem orderly_cancelled {w₀ : CensusWorld} {used : List Uuid} (plan : AttemptPlan)
    (result : Collected plan.job plan.target) (c : CensusProgram Unit × AttemptWorld)
    (hrun : Relation.ReflTransGen OrderlyStep w₀ ⟨c.2.store, used, [running plan c result]⟩) :
    Relation.ReflTransGen OrderlyStep w₀
      ⟨c.2.store.write (.attemptState plan.base.failed), used, [cancelled plan c result]⟩ := by
  have hsame : ∀ row : AttemptRow, ∀ s : CensusStore,
      s.attempts = s.attempts ++ [row] → row.status ≠ .verified := by
    intro row s hrow
    exact absurd hrow (by simp)
  have hverified : ∀ row, (c.2.store.write (.attemptState plan.base.failed)).attempts =
      c.2.store.attempts ++ [row] → row.status ≠ .verified := by
    intro row hrow
    obtain rfl : plan.base.failed = row := by simpa [CensusStore.write] using hrow
    simp [AttemptBase.failed]
  have hclosing : (running plan c result).handle.phase ≠ .raised := by
    simp [Attempt.handle]
  have hinterrupt : OrderlyStep _ _ :=
    ⟨step_interrupt used plan result c, orderly_solo (fun row => hsame row _) fun _ hraised => absurd hraised hclosing⟩
  have hfailed : OrderlyStep _ _ :=
    ⟨step_failed used plan result c, orderly_solo hverified fun _ hraised => absurd hraised hclosing⟩
  have hclosed : OrderlyStep _ _ :=
    ⟨step_closed used plan result c (c.2.store.write (.attemptState plan.base.failed)),
      orderly_solo (fun row => hsame row _) fun _ _ =>
        List.mem_append_right _ (List.mem_singleton.mpr rfl)⟩
  exact ((hrun.tail hinterrupt).tail hfailed).tail hclosed

/-- Cancelled when its worker has ended, the sample has a publication that is not eligible. -/
theorem raised_never_eligible_sample :
    samplePublication ∈ (sampleWorker 7).2.store.publications ∧
      ¬ ((sampleWorker 7).2.store.write (.attemptState samplePlan.base.failed)).Eligible
        samplePublication := by
  have hmem : samplePublication ∈ (sampleWorker 7).2.store.publications := by
    rw [sampleWorker_store]
    exact List.mem_singleton.mpr rfl
  have hstates : ∀ t ∈ (sampleWorker 7).2.store.attempts, t.status ≠ .failed := by
    rw [sampleWorker_store]
    decide
  -- Nothing but this is needed of the worker's run.
  obtain ⟨c, hc, hmem, hstates, hrun⟩ : ∃ c, sampleWorker 7 = c ∧
      samplePublication ∈ c.2.store.publications ∧ (∀ t ∈ c.2.store.attempts, t.status ≠ .failed) ∧
      Relation.ReflTransGen CensusStep ⟨sampleCensusStore, [], []⟩
        (solo ["attempt"] (handedOver samplePlan sampleCollected) c) :=
    ⟨_, rfl, hmem, hstates, sampleWorld_reaches 7⟩
  rw [hc]
  have hquiet := orderly_of_quiet (.initial sampleCensusStore_initial) hrun hstates
    (by simp [solo, handedOver])
  have hcancelled := orderly_cancelled samplePlan sampleCollected c hquiet
  exact ⟨hmem, raised_never_eligible sampleCensusStore_initial hcancelled .refl List.mem_cons_self
    rfl hmem rfl⟩

end RpcStateIndexer
