import RpcStateIndexer.Operations.CensusCall

/-!
# The plan of a census call

The prologue writes anchors and registrations only, keeps the anchors of a date in agreement, and leaves
the discovery tables alone until the plan is known.  The work of a job is what the skip gate lets through.
-/

namespace RpcStateIndexer

open Reasoning Program

/-! ## What is in progress keeps the anchors -/

theorem Answered.dayAnchors {op : CensusOp} {s s' : CensusStore} {ans : CensusAns op}
    (h : Answered op s ans s') : s'.dayAnchors = s.dayAnchors := by
  cases h with
  | written x s => exact write_dayAnchors s x
  | unacknowledged x s f => exact write_dayAnchors s x
  | _ => rfl

theorem AttemptStep.dayAnchors {s s' : CensusStore} {a a' : Attempt} (h : AttemptStep s a s' a') :
    s'.dayAnchors = s.dayAnchors := by
  cases h with
  | openingCall call answered => exact answered.dayAnchors
  | workerCall call answered => exact answered.dayAnchors
  | closingCall call answered => exact answered.dayAnchors
  | _ => rfl

/-- The census has moved by its own steps, made no attempt and kept its anchors. -/
structure Progressed (w w' : CensusWorld) : Prop where
  reach : Relation.ReflTransGen CensusStep w w'
  idle : w.attempts = [] → w'.attempts = []
  dayAnchors : w'.store.dayAnchors = w.store.dayAnchors

theorem Progressed.refl (w : CensusWorld) : Progressed w w := ⟨.refl, id, rfl⟩

theorem Progressed.ofProgress {w w' : CensusWorld} (h : Relation.ReflTransGen Progress w w') :
    Progressed w w' := by
  induction h with
  | refl => exact .refl w
  | tail _ hs ih =>
    obtain ⟨before, after, a, a', s, split, step, rfl⟩ := hs
    refine ⟨ih.reach.tail (.attempt split step), fun hnone => ?_, step.dayAnchors.trans ih.dayAnchors⟩
    rw [ih.idle hnone] at split
    simp at split

theorem Agreed.of_dayAnchors_eq {s s' : CensusStore} (h : Agreed s) (heq : s'.dayAnchors = s.dayAnchors) :
    Agreed s' where
  same a ha b hb := h.same a (heq ▸ ha) b (heq ▸ hb)
  finalized a ha := h.finalized a (heq ▸ ha)

/-! ## The operations of the prologue -/

/-- Between the worlds nothing but anchors and registrations was added to what was in progress, and the
anchors of a date agree. -/
structure Planning (w w' : ServiceWorld) : Prop where
  reach : Relation.ReflTransGen CensusStep w.census w'.census
  idle : w.census.attempts = [] → w'.census.attempts = []
  anchors : w.census.store.dayAnchors ⊆ w'.census.store.dayAnchors
  agreed : Agreed w'.census.store

namespace Planning

variable {w w' w'' : ServiceWorld}

theorem refl (h : Agreed w.census.store) : Planning w w := ⟨.refl, id, fun _ ha => ha, h⟩

theorem trans (h : Planning w w') (h' : Planning w' w'') : Planning w w'' where
  reach := h.reach.trans h'.reach
  idle hnone := h'.idle (h.idle hnone)
  anchors _ ha := h'.anchors (h.anchors ha)
  agreed := h'.agreed

theorem progressed {c : CensusWorld} (h : Planning w w') (hc : Progressed w'.census c) :
    Planning w { w' with census := c } where
  reach := h.reach.trans hc.reach
  idle hnone := hc.idle (h.idle hnone)
  anchors _ ha := hc.dayAnchors ▸ h.anchors ha
  agreed := h.agreed.of_dayAnchors_eq hc.dayAnchors

/-- The world is the same but for what the census does not hold. -/
theorem census_eq (h : Planning w w') (heq : w''.census = w'.census) : Planning w w'' where
  reach := heq ▸ h.reach
  idle := heq ▸ h.idle
  anchors := heq ▸ h.anchors
  agreed := heq ▸ h.agreed

theorem withConfigs (h : Planning w w') (rows : List ConfigRegistryRow) (version : Nat) :
    Planning w (w'.withConfigs rows version) where
  reach := h.reach.tail (.registerConfigs _)
  idle := h.idle
  anchors := h.anchors
  agreed := h.agreed.of_dayAnchors_eq rfl

theorem insertAnchor (h : Planning w w') (row : DayAnchorRow)
    (hagreed : Agreed { w'.census.store with dayAnchors := w'.census.store.dayAnchors ++ [row] }) :
    Planning w (w'.withStore { w'.census.store with
      dayAnchors := w'.census.store.dayAnchors ++ [row] }) where
  reach := h.reach.tail (.insertAnchor row)
  idle := h.idle
  anchors _ ha := List.mem_append_left _ (h.anchors ha)
  agreed := hagreed

end Planning

/-- The operation inserts an anchor. -/
def ServiceOp.Anchors : ServiceOp → Prop
  | .anchor (.insertAnchor _) => True
  | _ => False

/-- The operation is one of discovery. -/
def ServiceOp.Discovers : ServiceOp → Prop
  | .discovery _ => True
  | _ => False

def ServiceOp.Plain (op : ServiceOp) : Prop := ¬ op.Anchors ∧ ¬ op.Discovers

section Calls

variable {self : CensusService} {chain : Set NormalizedLog} {op : ServiceOp} {w w' w₀ : ServiceWorld}
  {answer : ServiceAns op}

/-- What an operation does to the census and to the discovery tables. -/
theorem serviceEnv_effect (henv : serviceEnv self chain op w answer w') :
    (¬ op.Discovers → w'.discovery = w.discovery) ∧ (¬ op.Anchors → w'.census = w.census ∨
      ∃ rows version, w'.census = (w.withConfigs rows version).census) := by
  cases op with
  | anchor op =>
    obtain ⟨s, hanswered, rfl⟩ := henv
    refine ⟨fun _ => rfl, fun hop => .inl ?_⟩
    cases op with
    | canonicalAnchor chainId snapshotDate => cases hanswered <;> rfl
    | insertAnchor row => exact absurd trivial hop
  | registerConfigs rows =>
    rcases henv with ⟨version, rfl⟩ | ⟨rfl, -⟩
    · exact ⟨fun _ => rfl, fun _ => .inr ⟨rows, version, rfl⟩⟩
    · exact ⟨fun _ => rfl, fun _ => .inl rfl⟩
  | discovery op =>
    obtain ⟨d, -, rfl⟩ := henv
    exact ⟨fun hop => absurd trivial hop, fun _ => .inl rfl⟩
  | setDiscovered jobName targets =>
    obtain rfl : w' = _ := henv
    exact ⟨fun _ => rfl, fun _ => .inl rfl⟩
  | setMetadataPassDone =>
    obtain rfl : w' = _ := henv
    exact ⟨fun _ => rfl, fun _ => .inl rfl⟩
  | resolveAnchor _ => exact ⟨fun _ => henv.1 ▸ rfl, fun _ => .inl (henv.1 ▸ rfl)⟩
  | publishedTargetAddresses _ _ _ _ _ => exact ⟨fun _ => henv.1 ▸ rfl, fun _ => .inl (henv.1 ▸ rfl)⟩
  | discovered _ => exact ⟨fun _ => henv.1 ▸ rfl, fun _ => .inl (henv.1 ▸ rfl)⟩
  | metadataPassDone => exact ⟨fun _ => henv.1 ▸ rfl, fun _ => .inl (henv.1 ▸ rfl)⟩
  | _ =>
    obtain rfl : w' = w := henv
    exact ⟨fun _ => rfl, fun _ => .inl rfl⟩

theorem callEnv_planning (hcall : callEnv self chain op w answer w') (hop : ¬ op.Anchors)
    (h : Planning w₀ w) : Planning w₀ w' := by
  obtain ⟨c, hprogress, henv⟩ := hcall
  have hmoved := h.progressed (.ofProgress hprogress)
  rcases (serviceEnv_effect henv).2 hop with hsame | ⟨rows, version, hregistered⟩
  · exact hmoved.census_eq hsame
  · exact (hmoved.withConfigs rows version).census_eq hregistered

theorem callEnv_discovery (hop : ¬ op.Discovers) (hcall : callEnv self chain op w answer w') :
    w'.discovery = w.discovery := by
  obtain ⟨c, -, henv⟩ := hcall
  exact (serviceEnv_effect henv).1 hop

theorem asks_planning {α : Type} {p : ServiceProgram α} (hp : Asks (fun op => ¬ op.Anchors) p)
    (h : Planning w₀ w) : Safe (callEnv self chain) (Planning w₀) (fun _ => Planning w₀) p w :=
  hp.safe (fun _ _ _ _ hop hc hcall => callEnv_planning hcall hop hc) h

/-! ## The anchor -/

/-- The anchor is a stored row of the date. -/
def ServiceWorld.Holds (w : ServiceWorld) (chainId snapshotDate : Nat) (anchor : BlockRef) : Prop :=
  ∃ row ∈ w.census.store.resolutionsOf chainId snapshotDate, row.block = anchor

theorem ServiceWorld.Holds.mono {chainId snapshotDate : Nat} {anchor : BlockRef}
    (h : w.Holds chainId snapshotDate anchor)
    (hsub : w.census.store.dayAnchors ⊆ w'.census.store.dayAnchors) :
    w'.Holds chainId snapshotDate anchor := by
  obtain ⟨row, hrow, hblock⟩ := h
  obtain ⟨hmem, hscope⟩ := mem_resolutionsOf.mp hrow
  exact ⟨row, mem_resolutionsOf.mpr ⟨hsub hmem, hscope⟩, hblock⟩

/-- A date has one anchor. -/
theorem ServiceWorld.Holds.unique {chainId snapshotDate : Nat} {anchor anchor' : BlockRef}
    (hagreed : Agreed w.census.store) (h : w.Holds chainId snapshotDate anchor)
    (h' : w.Holds chainId snapshotDate anchor') : anchor = anchor' := by
  obtain ⟨row, hrow, rfl⟩ := h
  obtain ⟨row', hrow', rfl⟩ := h'
  obtain ⟨hmem, hchain, hdate⟩ := mem_resolutionsOf.mp hrow
  obtain ⟨hmem', hchain', hdate'⟩ := mem_resolutionsOf.mp hrow'
  exact block_eq_of_resolution
    (hagreed.same row hmem row' hmem' (hchain.trans hchain'.symm) (hdate.trans hdate'.symm))

theorem returns_persist (h : Planning w₀ w) (resolved : ResolvedAnchor) (resolutionId : Uuid)
    (resolvedAt : Nat) :
    Returns (callEnv self chain) (Planning w₀)
      (fun anchor w' => Planning w₀ w' ∧ w'.Holds self.chainId resolved.snapshotDate anchor)
      ((AnchorStoreService.persist ⟨self.chainId⟩ resolved resolutionId resolvedAt).lift .anchor
        (fun _ answer => answer) PersistException.toService) w := by
  rintro answer w₁ ⟨c, hprogress, s, hanswered, rfl⟩
  have hmoved := h.progressed (.ofProgress hprogress)
  cases hanswered with
  | unread _ _ _ f => exact ⟨hmoved, hmoved⟩
  | read _ _ _ =>
    refine ⟨hmoved, ?_⟩
    cases hcanonical : c.store.canonicalAnchor self.chainId resolved.snapshotDate with
    | some existing =>
      obtain ⟨hstored, hscope⟩ := mem_of_canonicalAnchor hcanonical
      have hholds : (({ w with census := c } : ServiceWorld).withStore c.store).Holds self.chainId
          resolved.snapshotDate existing.block :=
        ⟨existing, mem_resolutionsOf.mpr ⟨hstored, hscope⟩, rfl⟩
      cases hblock : assertAnchorImmutable existing.block resolved.anchor with
      | error e =>
        simp only [hblock]
        exact hmoved
      | ok u =>
        simp only [hblock]
        exact ⟨hmoved, hholds⟩
    | none =>
      -- nothing has been stored for the date when the row is inserted
      rintro answer' w₂ ⟨c', hprogress', s', hanswered', rfl⟩
      have hmoved' := hmoved.progressed (.ofProgress hprogress')
      have hnone : ∀ a ∈ c'.store.dayAnchors, a.chainId = self.chainId →
          a.snapshotDate = resolved.snapshotDate → False := by
        intro a ha hchain hdate
        rw [(Progressed.ofProgress hprogress').dayAnchors] at ha
        exact hmoved.agreed.canonicalAnchor_isSome ha (hchain ▸ hdate ▸ hcanonical)
      have hinserted := hmoved'.insertAnchor (resolved.row self.chainId resolutionId resolvedAt)
        (hmoved'.agreed.insert rfl fun a ha hchain hdate => (hnone a ha hchain hdate).elim)
      cases hanswered' with
      | inserted _ _ =>
        refine ⟨hinserted, hinserted, _, mem_resolutionsOf.mpr ⟨?_, rfl, rfl⟩,
          block_row resolved self.chainId resolutionId resolvedAt⟩
        exact List.mem_append_right _ (List.mem_singleton_self _)
      | lost _ _ f => exact ⟨hmoved', hmoved'⟩
      | unacknowledged _ _ f => exact ⟨hinserted, hinserted⟩

theorem returns_resolveAnchor (h : Planning w₀ w) (snapshotDate : Nat) :
    Returns (callEnv self chain) (Planning w₀)
      (fun anchor w' => Planning w₀ w' ∧ w'.Holds self.chainId snapshotDate anchor)
      (self.resolveAnchor snapshotDate) w := by
  intro answer w₁ hcall
  have h₁ := callEnv_planning hcall id h
  refine ⟨h₁, ?_⟩
  obtain ⟨c, -, -, hdate⟩ := hcall
  cases answer with
  | error e => exact h₁
  | ok resolved =>
    obtain rfl := hdate resolved rfl
    intro resolutionId w₂ hcall₂
    have h₂ := callEnv_planning hcall₂ id h₁
    refine ⟨h₂, fun resolvedAt w₃ hcall₃ => ?_⟩
    have h₃ := callEnv_planning hcall₃ id h₂
    exact ⟨h₃, returns_persist h₃ resolved resolutionId resolvedAt⟩

/-- Nothing need have moved before an operation. -/
theorem callEnv_still (op : ServiceOp) (answer : ServiceAns op)
    (h : serviceEnv self chain op w answer w') : callEnv self chain op w answer w' :=
  ⟨w.census, .refl, h⟩

/-- A date whose anchor is stored resolves to it again. -/
theorem reaches_resolveAnchor {resolved : ResolvedAnchor} {row : DayAnchorRow}
    (hstored : w.census.store.canonicalAnchor self.chainId resolved.snapshotDate = some row)
    (hblock : row.block = resolved.anchor) :
    Reaches (callEnv self chain) (self.resolveAnchor resolved.snapshotDate, w)
      (.ret resolved.anchor, w) := by
  have hdate : ∀ other, (.ok resolved : Except AnchorException ResolvedAnchor) = .ok other →
      other.snapshotDate = resolved.snapshotDate := by
    rintro other h
    obtain rfl := Except.ok.inj h
    rfl
  refine .head (.call (callEnv_still (.resolveAnchor _) (.ok resolved) ⟨rfl, hdate⟩)) ?_
  refine .head (.call (callEnv_still .uuid4 "resolution" rfl)) ?_
  refine .head (.call (callEnv_still .now (0 : Nat) rfl)) ?_
  refine .head (.call (callEnv_still (.anchor (.canonicalAnchor self.chainId resolved.snapshotDate))
    (.ok (some row)) ⟨w.census.store, hstored ▸ .read _ _ _, rfl⟩)) ?_
  simp only [hblock, assertAnchorImmutable_self]
  exact .refl

/-! ## The work of a job -/

/-- The selector is resolved when the job runs. -/
def JobConfig.isDiscovered (job : JobConfig) : Bool := job.tokenSelector.any TokenSelector.discovered

/-- Discovery never covers a selector that is resolved when the job runs. -/
theorem needsHolderDiscovery_discovered {service : CensusService} {job : JobConfig}
    (h : job.isDiscovered = true) : service.needsHolderDiscovery job = .ok false := by
  unfold JobConfig.isDiscovered at h
  unfold CensusService.needsHolderDiscovery
  split
  · rename_i hselector _
    rw [hselector] at h
    exact if_pos h
  · rfl

/-- The targets that the catalog alone selects. -/
def CensusService.staticTargets (self : CensusService) (job : JobConfig) :
    Except ServiceException (List CensusTarget) :=
  match job.targetKind with
  | .tokens => do return (← (self.catalog.tokenTargets job).mapError .config).map .token
  | .pools => do return (← (self.catalog.poolTargets job).mapError .config).map .pool

theorem targets_eq_static {job : JobConfig} (h : job.isDiscovered = false) :
    self.targets job = ofExcept (self.staticTargets job) := by
  unfold CensusService.targets CensusService.staticTargets
  cases job.targetKind with
  | pools =>
    cases self.catalog.poolTargets job <;> rfl
  | tokens =>
    have htargets : self.tokenTargets job = ofExcept ((self.catalog.tokenTargets job).mapError .config) := by
      unfold JobConfig.isDiscovered at h
      unfold CensusService.tokenTargets Catalog.tokenTargets
      cases hselector : job.tokenSelector with
      | none => rfl
      | some selector =>
        have hstatic : selector.discovered = false := by rwa [hselector] at h
        simp only [hstatic, Bool.not_false, if_true]
    simp only [htargets]
    cases self.catalog.tokenTargets job <;> rfl

theorem asks_orRaise {α : Type} {P : ServiceOp → Prop} (x : Except Failure α) : Asks P (orRaise x) := by
  cases x <;> trivial

theorem asks_registerTargets (job : JobConfig) (targets : List CensusTarget) :
    Asks ServiceOp.Plain (self.registerTargets job targets) := by
  refine .bind (.ofExcept _) fun rows => ?_
  split
  · exact ⟨⟨id, id⟩, asks_orRaise⟩
  · trivial

theorem asks_discoveredTargets (job : JobConfig) : Asks ServiceOp.Plain (self.discoveredTargets job) := by
  refine ⟨⟨id, id⟩, fun cached => ?_⟩
  cases cached with
  | some targets => trivial
  | none =>
    refine .bind ⟨⟨id, id⟩, asks_orRaise⟩ fun candidates => .bind (.ofExcept _) fun targets => ?_
    have hcached : ∀ resolved : List TokenConfig, Asks ServiceOp.Plain (do
        setDiscovered job.name resolved
        return resolved) := fun resolved => .bind ⟨⟨id, id⟩, fun _ => trivial⟩ fun _ => trivial
    dsimp only
    split
    · exact .bind (asks_registerTargets job _) fun _ => hcached _
    · exact hcached _

theorem asks_targets (job : JobConfig) : Asks ServiceOp.Plain (self.targets job) := by
  unfold CensusService.targets
  split
  · refine .bind ?_ fun _ => trivial
    unfold CensusService.tokenTargets
    split
    · trivial
    · split
      · exact .ofExcept _
      · exact .bind (asks_discoveredTargets job) fun _ => .bind ⟨⟨id, id⟩, asks_orRaise⟩ fun _ => trivial
  · exact .bind (.ofExcept _) fun _ => trivial

/-- The work is what the gate let through in the census. -/
def JobWork.LetThrough (entry : JobWork) (self : CensusService) (snapshotDate : Nat) (anchor : BlockRef)
    (c : CensusWorld) : Prop :=
  entry.job.isDiscovered = false → ∃ targets, self.staticTargets entry.job = .ok targets ∧
    entry.work = targets.filter fun target => target.isActive snapshotDate anchor.number &&
      decide (target.address.toLower ∉ c.store.publishedTargetAddresses self.chainId entry.job.name
        entry.job.targetKind.kind snapshotDate self.skipPublishedAnyConfigHash)

/-- The gate of the entry was read between the worlds. -/
def JobWork.Gated (entry : JobWork) (self : CensusService) (snapshotDate : Nat) (anchor : BlockRef)
    (w w' : ServiceWorld) : Prop :=
  ∃ w₁, Planning w w₁ ∧ Planning w₁ w' ∧ entry.LetThrough self snapshotDate anchor w₁.census

theorem returns_jobWork (h : Planning w₀ w) (snapshotDate : Nat) (anchor : BlockRef) (job : JobConfig) :
    Returns (callEnv self chain) (Planning w₀)
      (fun entry w' => (Planning w₀ w' ∧ Planning w w') ∧ entry.job = job ∧
        entry.Gated self snapshotDate anchor w w')
      (self.jobWork snapshotDate anchor job) w := by
  intro answer w₁ hcall
  have h₁ := callEnv_planning hcall id h
  have h₁' := callEnv_planning hcall id (.refl h.agreed)
  refine ⟨h₁, ?_⟩
  obtain ⟨c, -, rfl, rfl | ⟨f, rfl⟩⟩ := hcall
  case inr => exact h₁
  have hmoved : ∀ w', Planning { w with census := c } w' → Planning w₀ w' ∧ Planning w w' :=
    fun w' h' => ⟨h₁.trans h', h₁'.trans h'⟩
  show Returns _ _ _ (self.targets job >>= _) _
  cases hdiscovered : job.isDiscovered with
  | false =>
    rw [targets_eq_static hdiscovered]
    refine .ofExcept_bind h₁ fun targets htargets => ?_
    refine ⟨hmoved _ (.refl h₁.agreed), rfl, _, h₁', .refl h₁.agreed, fun _ => ⟨targets, htargets, rfl⟩⟩
  | true =>
    have htargets : Safe (callEnv self chain) (Planning { w with census := c })
        (fun _ => Planning { w with census := c }) (self.targets job) { w with census := c } :=
      asks_planning ((asks_targets job).mono fun _ hop => hop.1) (.refl h₁.agreed)
    refine .bind (P := fun _ => Planning { w with census := c })
      (Safe.mono htargets (fun w' h' => (hmoved w' h').1) fun r w' h' => ?_) ?_
    · cases r with
      | ok targets => exact h'
      | error e => exact (hmoved w' h').1
    · intro targets w' h'
      refine ⟨hmoved w' h', rfl, _, h₁', h', fun hstatic => ?_⟩
      exact absurd (hdiscovered.symm.trans hstatic) Bool.noConfusion

theorem returns_planJobs (h : Planning w₀ w) (snapshotDate : Nat) (jobName : Option String) :
    Returns (callEnv self chain) (Planning w₀)
      (fun plan w' => Planning w₀ w' ∧ w'.Holds self.chainId snapshotDate plan.1 ∧
        ∃ jobs, self.jobs jobName = .ok jobs ∧
          List.Forall₂ (fun job entry => entry.job = job ∧
            entry.Gated self snapshotDate plan.1 w₀ w') jobs plan.2)
      (self.planJobs snapshotDate jobName) w := by
  refine .bind (returns_resolveAnchor h snapshotDate) fun anchor w₁ h₁ => ?_
  refine .ofExcept_bind h₁.1 fun jobs hjobs => ?_
  have hplan : Returns (callEnv self chain) (Planning w₀) _
      (jobs.mapM (self.jobWork snapshotDate anchor)) w₁ :=
    Returns.mapM (fun _ w' => Planning w₀ w' ∧ w'.Holds self.chainId snapshotDate anchor)
      (fun job entry w' => entry.job = job ∧ entry.Gated self snapshotDate anchor w₀ w') h₁
      fun job rest w₂ h₂ => ?_
  · exact .bind hplan fun plan w' h' => ⟨h'.1.1, h'.1.2, jobs, hjobs, h'.2.1⟩
  · refine (returns_jobWork h₂.1 snapshotDate anchor job).mono fun entry w₃ h₃ => ?_
    obtain ⟨⟨h₀₃, h₂₃⟩, hjob, w', hbefore, hafter, hgate⟩ := h₃
    refine ⟨⟨h₀₃, h₂.2.mono h₂₃.anchors⟩, ⟨hjob, w', h₂.1.trans hbefore, hafter, hgate⟩, ?_⟩
    rintro other entry' ⟨hother, w'', hbefore', hafter', hgate'⟩
    exact ⟨hother, w'', hbefore', hafter'.trans h₂₃, hgate'⟩

/-! ## The rest of the prologue -/

theorem asks_resolveAnchor (snapshotDate : Nat) :
    Asks (fun op => ¬ op.Discovers) (self.resolveAnchor snapshotDate) := by
  refine ⟨id, fun answer => ?_⟩
  cases answer with
  | error e => trivial
  | ok resolved => exact ⟨id, fun _ => ⟨id, fun _ => .lift (fun _ _ => id) (.all (fun _ => trivial) _)⟩⟩

theorem asks_planJobs (snapshotDate : Nat) (jobName : Option String) :
    Asks (fun op => ¬ op.Discovers) (self.planJobs snapshotDate jobName) := by
  refine .bind (asks_resolveAnchor snapshotDate) fun anchor => .bind (.ofExcept _) fun jobs => ?_
  refine .bind (.mapM fun job _ => .bind ⟨id, asks_orRaise⟩ fun published => ?_) fun _ => trivial
  exact .bind ((asks_targets job).mono fun _ hop => hop.2) fun _ => trivial

theorem asks_advanceToken (anchor : BlockRef) (failures : List String) (token : TokenConfig) :
    Asks (fun op => ¬ op.Anchors) (self.advanceToken anchor failures token) := by
  refine .tryCatch (.bind (.lift (fun _ _ => id) (.all (fun _ => trivial) _)) fun _ => trivial) fun e => ?_
  cases e <;> trivial

theorem asks_discoverPending (snapshotDate : Nat) (anchor : BlockRef) (plan : List JobWork) :
    Asks (fun op => ¬ op.Anchors) (self.discoverPending snapshotDate anchor plan) := by
  refine .bind (.ofExcept _) fun pending => ?_
  split
  · refine .bind (.ofExcept _) fun tokens => .bind (.foldlM (fun failures token _ => ?_) _) fun failures => ?_
    · exact asks_advanceToken anchor failures token
    · split <;> trivial
  · trivial

theorem asks_resolveTokenMetadata (anchor : BlockRef) :
    Asks ServiceOp.Plain (self.resolveTokenMetadata anchor) := by
  refine .bind ⟨⟨id, id⟩, asks_orRaise⟩ fun candidates => ?_
  split
  · trivial
  refine .bind ⟨⟨id, id⟩, asks_orRaise⟩ fun pending => .foldlM (fun written chunk _ => ?_) _
  refine ⟨⟨id, id⟩, fun answer => ?_⟩
  cases answer with
  | error f => trivial
  | ok observed =>
    dsimp only
    split
    · exact .bind ⟨⟨id, id⟩, asks_orRaise⟩ fun _ => trivial
    · trivial

theorem asks_metadataPass : Asks (fun op => ¬ op.Discovers) self.metadataPass := by
  refine ⟨id, fun date => .bind (asks_resolveAnchor date) fun recent => ?_⟩
  exact .bind ((asks_resolveTokenMetadata recent).mono fun _ hop => hop.2) fun _ => trivial

theorem asks_setMetadataPassDone {P : ServiceOp → Prop} (h : P .setMetadataPassDone) :
    Asks P setMetadataPassDone := ⟨h, fun _ => trivial⟩

theorem asks_resolveMetadataOnce : Asks (fun op => ¬ op.Discovers) self.resolveMetadataOnce := by
  refine ⟨id, fun finished => ?_⟩
  dsimp only
  split
  · trivial
  split
  · refine .bind (.tryCatch asks_metadataPass fun e => ?_) fun _ => asks_setMetadataPassDone id
    cases e with
    | cancelled => exact .bind (asks_setMetadataPassDone id) fun _ => trivial
    | _ => trivial
  · exact asks_setMetadataPassDone id

theorem safe_metadataPass (h : Planning w₀ w) :
    Safe (callEnv self chain) (Planning w₀) (fun _ => Planning w₀) self.metadataPass w := by
  intro date w₁ hcall
  have h₁ := callEnv_planning hcall id h
  refine ⟨h₁, safe_bind.mpr ?_⟩
  refine Safe.mono (returns_resolveAnchor h₁ date) (fun _ hc => hc) fun r w₂ hr => ?_
  cases r with
  | error e => exact hr
  | ok recent =>
    refine asks_planning (.bind ((asks_resolveTokenMetadata recent).mono fun _ hop => hop.1) ?_) hr.1
    exact fun _ => trivial

theorem safe_resolveMetadataOnce (h : Planning w₀ w) :
    Safe (callEnv self chain) (Planning w₀) (fun _ => Planning w₀) self.resolveMetadataOnce w := by
  intro finished w₁ hcall
  have h₁ := callEnv_planning hcall id h
  refine ⟨h₁, ?_⟩
  dsimp only
  split
  · exact h₁
  split
  · rw [safe_bind, safe_tryCatch]
    refine Safe.mono (safe_metadataPass h₁) (fun _ hc => hc) fun r w₂ h₂ => ?_
    cases r with
    | ok u => exact asks_planning (asks_setMetadataPassDone id) h₂
    | error e =>
      cases e with
      | cancelled =>
        rw [orElse_error]
        refine Safe.mono (asks_planning (p := do
          setMetadataPassDone
          throw .cancelled) ?_ h₂) (fun _ hc => hc) fun r w₃ h₃ => ?_
        · exact .bind (asks_setMetadataPassDone id) fun _ => trivial
        · cases r with
          | ok u => exact asks_planning (asks_setMetadataPassDone id) h₃
          | error e => exact h₃
      | _ => exact asks_planning (asks_setMetadataPassDone id) h₂
  · exact asks_planning (asks_setMetadataPassDone id) h₁

/-- What the plan of a call that began in `w₀` says. -/
structure CensusPlan.Sound (plan : CensusPlan) (service : CensusService) (snapshotDate : Nat)
    (jobName : Option String) (w₀ w : ServiceWorld) : Prop where
  planning : Planning w₀ w
  holds : w.Holds service.chainId snapshotDate plan.anchor
  jobs : ∃ jobs, service.jobs jobName = .ok jobs ∧ List.Forall₂ (fun job entry => entry.job = job ∧
    entry.Gated service snapshotDate plan.anchor w₀ w) jobs plan.jobs
  universes : service.universeResolver = .ok plan.universes

theorem JobWork.Gated.later {entry : JobWork} {snapshotDate : Nat} {anchor : BlockRef}
    (h : entry.Gated self snapshotDate anchor w₀ w) (h' : Planning w w') :
    entry.Gated self snapshotDate anchor w₀ w' := by
  obtain ⟨w₁, hbefore, hafter, hgate⟩ := h
  exact ⟨w₁, hbefore, hafter.trans h', hgate⟩

/-- The end of the prologue, once the jobs are planned. -/
theorem returns_prepare (h : Agreed w₀.census.store) (snapshotDate : Nat) (jobName : Option String) :
    Returns (callEnv self chain) (Planning w₀)
      (fun plan w' => plan.Sound self snapshotDate jobName w₀ w') (self.prepare snapshotDate jobName) w₀ := by
  refine .bind (returns_planJobs (.refl h) snapshotDate jobName) fun planned w₁ h₁ => ?_
  obtain ⟨anchor, plan⟩ := planned
  obtain ⟨hplanning, hholds, jobs, hjobs, hplan⟩ := h₁
  have hpass : ∀ {p : ServiceProgram PUnit} {w : ServiceWorld}, Planning w₀ w ∧ Planning w₁ w →
      Safe (callEnv self chain) (Planning w₀) (fun _ => Planning w₀) p w →
      Safe (callEnv self chain) (Planning w₁) (fun _ => Planning w₁) p w →
      Returns (callEnv self chain) (Planning w₀) (fun _ w' => Planning w₀ w' ∧ Planning w₁ w') p w := by
    intro p w hw h₀ h₁
    refine Safe.mono (h₀.and h₁) (fun _ hc => hc.1) fun r w' hr => ?_
    cases r with
    | ok u => exact hr
    | error e => exact hr.1
  refine .bind (hpass ⟨hplanning, .refl hplanning.agreed⟩
    (asks_planning (asks_discoverPending snapshotDate anchor plan) hplanning)
    (asks_planning (asks_discoverPending snapshotDate anchor plan) (.refl hplanning.agreed))) ?_
  rintro - w₂ ⟨h₂, h₂'⟩
  refine .bind (hpass ⟨h₂, h₂'⟩ (safe_resolveMetadataOnce h₂) (safe_resolveMetadataOnce h₂')) ?_
  rintro - w₃ ⟨h₃, h₃'⟩
  refine .ofExcept_bind h₃ fun universes huniverses => ?_
  refine ⟨h₃, hholds.mono h₃'.anchors, ⟨jobs, hjobs, ?_⟩, except_mapError_eq_ok_iff.mp huniverses⟩
  exact hplan.imp fun job entry hentry => ⟨hentry.1, hentry.2.later h₃'⟩

/-- A program without operations of discovery leaves its tables alone. -/
theorem asks_undisturbed {α : Type} {p : ServiceProgram α} (hp : Asks (fun op => ¬ op.Discovers) p)
    {d : DiscoveryStore} (h : w.discovery = d) :
    Returns (callEnv self chain) (fun w => w.discovery = d) (fun _ w => w.discovery = d) p w := by
  have hsafe : Safe (callEnv self chain) (fun w => w.discovery = d) (fun _ w => w.discovery = d) p w := by
    refine hp.safe (fun op w a w' hop hc hcall => ?_) h
    exact (callEnv_discovery hop hcall).trans hc
  refine Safe.mono hsafe (fun _ hc => hc) fun r w' hr => ?_
  cases r with
  | ok a => exact hr
  | error e => exact hr

/-- The jobs are planned before the tables of discovery are touched. -/
theorem returns_planJobs_undisturbed (h : Agreed w.census.store) (snapshotDate : Nat)
    (jobName : Option String) :
    Returns (callEnv self chain) (fun w' => w'.discovery = w.discovery)
      (fun plan w' => w'.discovery = w.discovery ∧ Planning w w' ∧
        w'.Holds self.chainId snapshotDate plan.1 ∧ ∃ jobs, self.jobs jobName = .ok jobs ∧
          List.Forall₂ (fun job entry => entry.job = job ∧
            entry.Gated self snapshotDate plan.1 w w') jobs plan.2)
      (self.planJobs snapshotDate jobName) w := by
  have hsame : Safe (callEnv self chain) (fun w' => w'.discovery = w.discovery)
      (fun _ w' => w'.discovery = w.discovery) (self.planJobs snapshotDate jobName) w :=
    (asks_undisturbed (asks_planJobs snapshotDate jobName) rfl).safe
  refine Safe.mono (Safe.and (returns_planJobs (.refl h) snapshotDate jobName) hsame)
    (fun _ hc => hc.2) fun r w' hr => ?_
  cases r with
  | ok plan => exact ⟨hr.2, hr.1⟩
  | error e => exact hr.2

end Calls

end RpcStateIndexer
