import RpcStateIndexer.Operations.CensusCallCorrect
import RpcStateIndexer.Operations.CensusPrepare

/-!
# A census call that is made again

What a call that returned has published is reported for good, so a later call for the same date and jobs
finds no work in them and leaves the discovery tables alone.
-/

namespace RpcStateIndexer

open Reasoning Program

/-! ## The targets of a static job -/

section Static

variable {self : CensusService} {job : JobConfig} {targets : List CensusTarget} {target : CensusTarget}

theorem kind_of_staticTargets (h : self.staticTargets job = .ok targets) (hmem : target ∈ targets) :
    target.kind = job.targetKind.kind := by
  unfold CensusService.staticTargets at h
  split at h
  · rename_i hkind
    obtain ⟨tokens, -, hpure⟩ := except_bind_eq_ok_iff.mp h
    obtain rfl := except_pure_eq_ok_iff.mp hpure
    obtain ⟨token, -, rfl⟩ := List.mem_map.mp hmem
    rw [hkind]
    rfl
  · rename_i hkind
    obtain ⟨pools, -, hpure⟩ := except_bind_eq_ok_iff.mp h
    obtain rfl := except_pure_eq_ok_iff.mp hpure
    obtain ⟨pool, -, rfl⟩ := List.mem_map.mp hmem
    rw [hkind]
    rfl

theorem staticTargets_congr {service : CensusService} (h : service.catalog = self.catalog)
    (job : JobConfig) : service.staticTargets job = self.staticTargets job := by
  unfold CensusService.staticTargets
  rw [h]

theorem jobs_congr {service : CensusService} (h : service.catalog = self.catalog)
    (jobName : Option String) : service.jobs jobName = self.jobs jobName := by
  unfold CensusService.jobs
  rw [h]

end Static

/-! ## What a call has published -/

theorem dayAnchors_reachable {w₀ w w' : CensusWorld} (init : w₀.Initial)
    (reach : Relation.ReflTransGen CensusStep w₀ w) (later : Relation.ReflTransGen CensusStep w w') :
    w.store.dayAnchors ⊆ w'.store.dayAnchors := by
  induction later with
  | refl => exact fun _ ha => ha
  | tail hrun hs ih =>
    have hw := (WorldInvariant.initial init).reachable (reach.trans hrun)
    exact fun a ha => hs.dayAnchors hw.attempts (ih ha)

/-- A world without attempts in progress that is reached from one is initial again. -/
theorem Planning.initial {w w' : ServiceWorld} (h : Planning w w') (init : w.census.Initial) :
    w'.census.Initial where
  attempts := h.idle init.attempts
  rows := ((WorldInvariant.initial init).reachable h.reach).rows

section Returned

variable {self : CensusService} {lists : String → Except String (List String)} {snapshotDate : Nat}
  {jobName : Option String} {w begun : ServiceWorld} {plan : CensusPlan} {g : GatherState}
  {attempts : List Uuid}

/-- The key of the attempts of a target. -/
def CensusService.keyOf (self : CensusService) (snapshotDate : Nat) (job : JobConfig)
    (target : CensusTarget) : TargetKey :=
  ⟨self.chainId, job.name, target.kind, target.address, snapshotDate⟩

theorem AttemptPlan.Of.target_eq {job : JobConfig} {target : CensusTarget} {frozen : FrozenUniverse}
    {attempt : AttemptPlan} (h : attempt.Of self plan snapshotDate job target frozen) :
    attempt.base.target = self.keyOf snapshotDate job target := by
  unfold AttemptPlan.base CensusRunner.attemptBase AttemptBase.target CensusService.keyOf
  rw [h.runner, h.job, h.target, h.snapshotDate]
  rfl

theorem Attempt.anchored_of {a : Attempt} {c : CensusWorld} {job : JobConfig} {target : CensusTarget}
    {frozen : FrozenUniverse} (h : a.plan.Of self plan snapshotDate job target frozen)
    (hholds : ∃ row ∈ c.store.resolutionsOf self.chainId snapshotDate, row.block = plan.anchor) :
    a.Anchored c.store := by
  obtain ⟨row, hrow, hblock⟩ := hholds
  have hchain : a.plan.base.chainId = self.chainId := by
    show a.plan.runner.chain.chainId = _
    rw [h.runner]
    rfl
  have hdate : a.plan.base.snapshotDate = snapshotDate := h.snapshotDate
  have hanchor : a.plan.anchor = row.block := h.anchor.trans hblock.symm
  refine ⟨row, by rwa [hchain, hdate], ?_, ?_⟩
  · exact congrArg BlockRef.number hanchor
  · exact congrArg BlockRef.blockHash hanchor

/-- After a call that returned, the report of each active target of a static job lasts. -/
theorem lasts_of_call (init : w.census.Initial) (sound : plan.Sound self snapshotDate jobName w begun)
    (gathered : Relation.ReflTransGen (GatherStep self lists plan snapshotDate) (.begin begun plan) g)
    (ended : g.Ended) (returned : g.outcome = .ok attempts) {jobs : List JobConfig}
    (hjobs : self.jobs jobName = .ok jobs) {job : JobConfig} (hjob : job ∈ jobs)
    (hstatic : job.isDiscovered = false) {targets : List CensusTarget}
    (htargets : self.staticTargets job = .ok targets) {target : CensusTarget} (hmem : target ∈ targets)
    (hactive : target.isActive snapshotDate plan.anchor.number = true) :
    ∃ c key, c.Initial ∧ Relation.ReflTransGen CensusStep c g.world.census ∧ Lasts c g.world.census key ∧
      CensusStore.InScope self.chainId job.name job.targetKind.kind snapshotDate key ∧
      key.targetAddress.toLower = target.address.toLower := by
  have hgather := GatherInvariant.run init sound.planning.reach gathered
  obtain ⟨jobs', hjobs', hplan⟩ := sound.jobs
  obtain rfl := Except.ok.inj (hjobs.symm.trans hjobs')
  obtain ⟨entry, hentry, rfl, w₁, hbefore, hafter, hgate⟩ := forall₂_left hplan hjob
  obtain ⟨targets', htargets', hwork⟩ := hgate hstatic
  obtain rfl := Except.ok.inj (htargets.symm.trans htargets')
  by_cases hwaiting : target ∈ entry.work
  · -- the call has made an attempt of it
    have hplanned : (entry.job, target) ∈ plan.entries :=
      List.mem_flatMap.mpr ⟨entry, hentry, List.mem_map.mpr ⟨target, hwaiting, rfl⟩⟩
    obtain ⟨attemptId, -, a, ha, -, ⟨frozen, hof⟩, hphase⟩ :=
      forall₂_left (hgather.completed ended returned) hplanned
    have hanchors := dayAnchors_reachable init sound.planning.reach hgather.reach
    have hholds : g.world.Holds self.chainId snapshotDate plan.anchor := sound.holds.mono hanchors
    refine ⟨w.census, _, init, sound.planning.reach.trans hgather.reach,
      .inr ⟨a, ha, hphase, hof.target_eq, Attempt.anchored_of hof hholds⟩, ?_, rfl⟩
    exact ⟨rfl, rfl, kind_of_staticTargets htargets hmem, rfl⟩
  · -- it was reported when the gate was read
    have hreported : target.address.toLower ∈ w₁.census.store.publishedTargetAddresses self.chainId
        entry.job.name entry.job.targetKind.kind snapshotDate true := by
      rw [hwork, List.mem_filter, hactive] at hwaiting
      have hgated : target.address.toLower ∈ w₁.census.store.publishedTargetAddresses self.chainId
          entry.job.name entry.job.targetKind.kind snapshotDate self.skipPublishedAnyConfigHash := by
        by_contra hnone
        exact hwaiting ⟨hmem, by simpa using hnone⟩
      cases hskip : self.skipPublishedAnyConfigHash with
      | true => rwa [hskip] at hgated
      | false =>
        rw [hskip] at hgated
        exact CensusStore.publishedTargetAddresses_current_subset _ _ _ _ _ hgated
    obtain ⟨key, hscope, hkey, haddress⟩ :=
      (CensusStore.mem_publishedTargetAddresses hbefore.agreed).mp hreported
    exact ⟨w₁.census, key, hbefore.initial init, hafter.reach.trans hgather.reach, .inl hkey, hscope,
      haddress.symm⟩

/-! ## The same call later -/

/-- No static job of the plan has work left. -/
def Idle (plan : List JobWork) : Prop := ∀ entry ∈ plan, entry.job.isDiscovered = false → entry.work = []

theorem addPending_idle {service : CensusService} {pending pending' : Dict String TokenConfig}
    {entry : JobWork} (h : entry.job.isDiscovered = false → entry.work = [])
    (hadd : service.addPending pending entry = .ok pending') : pending' = pending := by
  unfold CensusService.addPending at hadd
  obtain ⟨needed, hneeded, hrest⟩ := except_bind_eq_ok_iff.mp hadd
  cases hdiscovered : entry.job.isDiscovered with
  | false =>
    rw [h hdiscovered] at hrest
    split at hrest <;> exact (except_pure_eq_ok_iff.mp hrest).symm
  | true =>
    obtain rfl := Except.ok.inj ((needsHolderDiscovery_discovered hdiscovered).symm.trans hneeded)
    exact (except_pure_eq_ok_iff.mp hrest).symm

theorem pending_idle {service : CensusService} {plan : List JobWork} (h : Idle plan)
    {pending pending' : Dict String TokenConfig}
    (hfold : plan.foldlM service.addPending pending = .ok pending') : pending' = pending := by
  induction plan generalizing pending with
  | nil => exact (except_pure_eq_ok_iff.mp hfold).symm
  | cons entry plan ih =>
    rw [List.foldlM_cons] at hfold
    obtain ⟨next, hnext, hrest⟩ := except_bind_eq_ok_iff.mp hfold
    obtain rfl := addPending_idle (h entry List.mem_cons_self) hnext
    exact ih (fun other hother => h other (List.mem_cons_of_mem _ hother)) hrest

/-- Without work there is nothing to discover. -/
theorem asks_discoverPending_idle {service : CensusService} {plan : List JobWork} (h : Idle plan)
    {P : ServiceOp → Prop} (anchor : BlockRef) :
    Asks P (service.discoverPending snapshotDate anchor plan) := by
  refine .ofExcept_bind fun pending hpending => ?_
  obtain rfl := pending_idle h hpending
  exact trivial

/-- The plan of the later call. -/
theorem idle_of_reported {service : CensusService} (hcatalog : service.catalog = self.catalog)
    (hskip : service.skipPublishedAnyConfigHash = true) {again w' : ServiceWorld}
    (init : w.census.Initial) (sound : plan.Sound self snapshotDate jobName w begun)
    (gathered : Relation.ReflTransGen (GatherStep self lists plan snapshotDate) (.begin begun plan) g)
    (ended : g.Ended) (returned : g.outcome = .ok attempts)
    (later : Relation.ReflTransGen CensusStep g.world.census again.census)
    {planned : BlockRef × List JobWork} (hplanning : Planning again w')
    (hholds : w'.Holds service.chainId snapshotDate planned.1)
    (hplan : ∃ jobs, service.jobs jobName = .ok jobs ∧ List.Forall₂ (fun job entry => entry.job = job ∧
      entry.Gated service snapshotDate planned.1 again w') jobs planned.2) : Idle planned.2 := by
  have hchain : service.chainId = self.chainId := by
    unfold CensusService.chainId
    rw [hcatalog]
  have hgather := GatherInvariant.run init sound.planning.reach gathered
  obtain ⟨jobs, hjobs, hentries⟩ := hplan
  intro entry hentry hstatic
  obtain ⟨job, hjob, rfl, w₁, hbefore, -, hgate⟩ := forall₂_right hentries hentry
  obtain ⟨targets, htargets, hwork⟩ := hgate hstatic
  rw [jobs_congr hcatalog] at hjobs
  rw [staticTargets_congr hcatalog] at htargets
  -- the date resolves to the anchor that it had
  have hanchor : planned.1 = plan.anchor := by
    refine ServiceWorld.Holds.unique hplanning.agreed hholds (hchain ▸ sound.holds.mono ?_)
    intro row hrow
    have hkept := dayAnchors_reachable init sound.planning.reach (hgather.reach.trans later)
    exact hplanning.anchors (hkept hrow)
  rw [hwork, List.filter_eq_nil_iff]
  intro target hmem
  rw [Bool.and_eq_true, decide_eq_true_eq, not_and_not_right]
  intro hactive
  rw [hanchor] at hactive
  -- an active target was reported by the first call, and the report lasts to the gate of the second
  obtain ⟨c, key, hinit, hreach, hlasts, hscope, haddress⟩ := lasts_of_call init sound gathered ended
    returned hjobs hjob hstatic htargets hmem hactive
  have hkey := (hlasts.later hinit hreach (later.trans hbefore.reach)).reported hinit
    (hreach.trans (later.trans hbefore.reach))
  rw [hskip, hchain, ← haddress]
  exact (CensusStore.mem_publishedTargetAddresses hbefore.agreed).mpr ⟨key, hscope, hkey, rfl⟩

/-- A call that returned leaves nothing to do: whatever the census does afterwards, as long as the rows of
each date agree when the next call begins, a later call with the same catalog for the same date and jobs
plans no work for a static job and, as far as it runs, leaves the discovery tables alone. -/
theorem repeated_call_idle {chain chain' : Set NormalizedLog} (init : w.census.Initial)
    (agreed : Agreed w.census.store)
    (prepared : Reaches (callEnv self chain) (self.prepare snapshotDate jobName, w) (.ret plan, begun))
    (gathered : Relation.ReflTransGen (GatherStep self lists plan snapshotDate) (.begin begun plan) g)
    (ended : g.Ended) (returned : g.outcome = .ok attempts) {again : ServiceWorld}
    (later : Relation.ReflTransGen CensusStep g.world.census again.census)
    (agreed' : Agreed again.census.store) {service : CensusService}
    (hcatalog : service.catalog = self.catalog) (hskip : service.skipPublishedAnyConfigHash = true)
    {p : ServiceProgram CensusPlan} {w' : ServiceWorld}
    (repeated : Reaches (callEnv service chain') (service.prepare snapshotDate jobName, again) (p, w')) :
    w'.discovery = again.discovery ∧
      ∀ plan', p = .ret plan' → ∀ entry ∈ plan'.jobs, entry.job.isDiscovered = false → entry.work = [] := by
  have sound := Safe.returns (returns_prepare agreed snapshotDate jobName) (.refl agreed) prepared
  have hprepare : Returns (callEnv service chain') (fun w => w.discovery = again.discovery)
      (fun plan' _ => Idle plan'.jobs) (service.prepare snapshotDate jobName) again := by
    refine .bind (returns_planJobs_undisturbed agreed' snapshotDate jobName) ?_
    rintro ⟨anchor, plan'⟩ w₁ ⟨hsame, hplanning, hholds, hplan⟩
    have hidle : Idle plan' :=
      idle_of_reported hcatalog hskip init sound gathered ended returned later hplanning hholds hplan
    refine .bind (asks_undisturbed (asks_discoverPending_idle hidle anchor) hsame) fun _ w₂ h₂ => ?_
    refine .bind (asks_undisturbed asks_resolveMetadataOnce h₂) fun _ w₃ h₃ => ?_
    exact .ofExcept_bind h₃ fun universes _ => hidle
  -- what holds wherever the prologue stops, and what it returns
  refine ⟨hprepare.crash rfl repeated, ?_⟩
  rintro plan' rfl
  exact Safe.returns hprepare rfl repeated

end Returned

/-! ## The pool again -/

def sampleResolved : ResolvedAnchor where
  snapshotDate := 0
  anchor := sampleAnchor
  nextBlock := ⟨11, hexText (List.replicate 64 '3'), sampleAnchor.blockHash, 105⟩
  safeTip := ⟨11, hexText (List.replicate 64 '3'), sampleAnchor.blockHash, 105⟩
  finalitySource := "tag:finalized"
  endpointFingerprints := []

/-- What the gate leaves of the one pool. -/
def sampleWork (c : CensusWorld) : List CensusTarget :=
  [CensusTarget.pool samplePool].filter fun target => target.isActive 0 sampleAnchor.number &&
    decide (target.address.toLower ∉ c.store.publishedTargetAddresses 100 "pool_reserves" .pool 0 true)

/-- The prologue of a call in a store that has the anchor of the date. -/
theorem samplePrepare_returns (chain : Set NormalizedLog) {c : CensusWorld}
    (h : c.store.dayAnchors = sampleCensusStore.dayAnchors) :
    Reaches (callEnv sampleCensusService chain)
      (sampleCensusService.prepare 0 none, sampleServiceWorld c)
      (.ret ⟨sampleAnchor, [⟨samplePoolJob, sampleWork c⟩], sampleCensusPlan.universes⟩,
        sampleServiceWorld c) := by
  have hcanonical : c.store.canonicalAnchor 100 0 = some (sampleResolved.row 100 "resolution" 0) := by
    unfold CensusStore.canonicalAnchor CensusStore.resolutionsOf
    rw [h]
    decide
  have hresolve := @reaches_resolveAnchor sampleCensusService chain (sampleServiceWorld c) sampleResolved _
    hcanonical rfl
  have hplan : Reaches (callEnv sampleCensusService chain)
      (sampleCensusService.planJobs 0 none, sampleServiceWorld c)
      (.ret (sampleAnchor, [⟨samplePoolJob, sampleWork c⟩]), sampleServiceWorld c) := by
    unfold CensusService.planJobs
    refine (reaches_bind hresolve).trans ?_
    exact .head (.call (callEnv_still (.publishedTargetAddresses 100 "pool_reserves" .pool 0 true)
      (.ok (c.store.publishedTargetAddresses 100 "pool_reserves" .pool 0 true)) ⟨rfl, .inl rfl⟩)) .refl
  unfold CensusService.prepare
  refine (reaches_bind hplan).trans ?_
  exact .head (.call (callEnv_still .metadataPassDone true ⟨rfl, rfl⟩)) .refl

theorem sampleCensusStore_agreed : Agreed sampleCensusStore where
  same a ha b hb _ _ := by rw [List.mem_singleton.mp ha, List.mem_singleton.mp hb]
  finalized a ha := by
    obtain rfl := List.mem_singleton.mp ha
    rfl

theorem repeated_call_idle_sample : ∃ c : CensusWorld,
    Reaches (callEnv sampleCensusService ∅) (sampleCensusService.prepare 0 none, sampleServiceWorld c)
      (.ret ⟨sampleAnchor, [⟨samplePoolJob, []⟩], sampleCensusPlan.universes⟩, sampleServiceWorld c) := by
  obtain ⟨c, hanchors, hrun⟩ := sampleGathering_returns
  have hfirst : sampleWork ⟨sampleCensusStore, [], []⟩ = [.pool samplePool] := rfl
  have hprepared := samplePrepare_returns ∅ (c := ⟨sampleCensusStore, [], []⟩) rfl
  rw [hfirst] at hprepared
  have hended : (sampleGathering c (.finished (.ok "attempt"))).Ended := by
    refine ⟨rfl, fun task htask => ?_⟩
    obtain rfl := List.mem_singleton.mp htask
    rfl
  have hagain := samplePrepare_returns ∅ hanchors
  have hagreed := sampleCensusStore_agreed.of_dayAnchors_eq hanchors
  have hidle : sampleWork c = [] :=
    (repeated_call_idle sampleCensusStore_initial sampleCensusStore_agreed hprepared hrun hended
      rfl .refl hagreed rfl rfl hagain).2 _ rfl _ (List.mem_singleton_self _) rfl
  rw [hidle] at hagain
  exact ⟨c, hagain⟩

end RpcStateIndexer
