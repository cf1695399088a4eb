import RpcStateIndexer.Census.SystemCorrect

/-!
# Publications

What is known of an attempt at the moment its publication is appended, and of every publication in
every later state.
-/

namespace RpcStateIndexer

open Reasoning Program CensusRunner

/-! ## Rows of an attempt that passed the gate -/

theorem tablesOf_publications {scope : AttemptScope} {frozen : FrozenUniverse}
    {result : CollectionResult} {tables : CensusStore}
    (h : tablesOf scope frozen result = .ok tables) : tables.publications = [] := by
  cases result with
  | token r => exact tokenTables_publications h
  | pool r => exact poolTables_publications h
  | poolCl r => exact poolClTables_publications h

/-- Without terminal errors no error row is persisted. -/
theorem tablesOf_errors {scope : AttemptScope} {frozen : FrozenUniverse}
    {result : CollectionResult} {tables : CensusStore}
    (h : tablesOf scope frozen result = .ok tables) (herrors : result.outcome.errors = []) :
    tables.errors = [] := by
  cases result with
  | token r =>
    replace herrors : r.errors = [] := herrors
    simp only [tablesOf, tokenTables, except_bind_eq_ok_iff, except_pure_eq_ok_iff] at h
    obtain ⟨members, -, balances, -, scalars, -, rfl⟩ := h
    simp [CensusStore.write, errorRows, herrors]
  | pool r =>
    replace herrors : r.errors = [] := herrors
    simp only [tablesOf, poolTables, except_bind_eq_ok_iff, except_pure_eq_ok_iff] at h
    obtain ⟨balances, -, rfl⟩ := h
    simp [CensusStore.write, errorRows, herrors]
  | poolCl r =>
    replace herrors : r.errors = [] := herrors
    simp only [tablesOf, poolClTables, except_bind_eq_ok_iff, except_pure_eq_ok_iff] at h
    obtain ⟨state, -, ticks, -, rfl⟩ := h
    simp [CensusStore.write, errorRows, herrors]

section Gated

variable {base : AttemptBase} {frozen : FrozenUniverse} {result : CollectionResult}
  {tables : CensusStore} {w : AttemptWorld} {p : PublicationRow}

theorem Gated.publications (h : Gated base frozen result tables w p) :
    (w.store.ofAttempt base.attemptId).publications = [p] := by
  show (w.store.ofAttempt base.attemptId).observed.publications = [p]
  rw [h.rows]
  show tables.publications ++ [p] = [p]
  rw [tablesOf_publications h.persisted, List.nil_append]

theorem Gated.errors (h : Gated base frozen result tables w p) :
    ∀ e ∈ w.store.errors, e.scope.attemptId ≠ base.attemptId := by
  have hnone : (w.store.ofAttempt base.attemptId).errors = [] := by
    show (w.store.ofAttempt base.attemptId).observed.errors = []
    rw [h.rows]
    show tables.errors = []
    exact tablesOf_errors h.persisted (CollectionOutcome.verified_iff.mp h.outcome).1
  intro e he heq
  have hmem : e ∈ (w.store.ofAttempt base.attemptId).errors :=
    List.mem_filter.mpr ⟨he, by simpa using heq⟩
  rw [hnone] at hmem
  exact List.not_mem_nil hmem

theorem Gated.attemptId (h : Gated base frozen result tables w p) : p.attemptId = base.attemptId := by
  obtain ⟨t, -, hbase, hmatch⟩ := h.verifiedState
  rw [hmatch.attemptId, ← hbase]

theorem Gated.target (h : Gated base frozen result tables w p) : p.target = base.target := by
  obtain ⟨t, -, hbase, hmatch⟩ := h.verifiedState
  rw [hmatch.target, ← hbase]

end Gated

/-! ## Appending a publication -/

/-- The attempt `a` whose collector returned `c` appends `p` to the store `s`. -/
structure PublicationAppended (s s' : CensusStore) (a : Attempt)
    (c : Collected a.plan.job a.plan.target) (p : PublicationRow) : Prop where
  appended : s'.publications = s.publications ++ [p]
  only : (s'.ofAttempt a.plan.attemptId).publications = [p]
  verifiedState : ∃ t ∈ s.attempts, t.toAttemptBase = a.plan.base ∧ AttemptMatches p t
  errors : ∀ e ∈ s'.errors, e.scope.attemptId ≠ p.attemptId
  batches : ∀ batch ∈ c.result.outcome.batches, batch.evidence.verified = true
  integrity : ∀ check ∈ c.result.outcome.integrityChecks, check.passed = true
  terminalErrors : c.result.outcome.errors = []
  checks : p.checksPassed = checkNames c.result
  digest : c.result.resultDigest = .ok p.resultDigest
  readback : ∃ tables, tablesOf a.plan.base.scope a.plan.frozen c.result = .ok tables ∧
    ObservationEvidence a.plan.base.scope tables c.result p.resultDigest a.log ∧
      ∀ r, c.result = .token r →
        UniverseEvidence a.plan.base.scope tables a.plan.frozen.universeHash a.log

/-- A step writes at most one insert, of its own attempt. -/
theorem AttemptStep.store_eq {s s' : CensusStore} {a a' : Attempt} (h : AttemptInvariant s a)
    (hs : AttemptStep s a s' a') :
    s' = s ∨ ∃ x : CensusWrite, x.Owned a.plan.attemptId ∧ s' = s.write x := by
  cases hs with
  | openingCall call answered =>
    rcases answered.store_eq with rfl | ⟨x, rfl, rfl⟩
    · exact .inl rfl
    · refine .inr ⟨x, ?_, rfl⟩
      rcases h.opening with hopening | hdone
      · rw [hopening] at call
        cases call
        rfl
      · exact absurd call (hdone _ _)
  | closingCall call answered =>
    rcases answered.store_eq with rfl | ⟨x, rfl, rfl⟩
    · exact .inl rfl
    · refine .inr ⟨x, ?_, rfl⟩
      rcases h.closing with hclosing | hdone
      · rw [hclosing] at call
        cases call
        rfl
      · exact absurd call (hdone _ _)
  | @workerCall _ op k _ _ ans call answered =>
    rcases answered.store_eq with rfl | ⟨x, rfl, rfl⟩
    · exact .inl rfl
    · refine .inr ⟨x, ?_, rfl⟩
      rcases Option.eq_none_or_eq_some a.collected with hc | ⟨c, hc⟩
      · exact absurd call ((h.idle hc).2.1 _ _)
      · have hinvariant := (h.workerCall call answered).invariant
        exact (hinvariant.gate c hc).1.1 ⟨.write x, ans⟩ (by simp)
  | _ => exact .inl rfl

/-- The publication of an attempt in a state where one is stored. -/
theorem AttemptInvariant.gated {s : CensusStore} {a : Attempt} (h : AttemptInvariant s a)
    (hp : (s.ofAttempt a.plan.attemptId).publications ≠ []) :
    ∃ c tables p, a.collected = some c ∧
      Gated a.plan.base a.plan.frozen c.result tables ⟨s, a.log⟩ p := by
  rcases Option.eq_none_or_eq_some a.collected with hc | ⟨c, hc⟩
  · refine absurd ?_ hp
    show (s.ofAttempt a.plan.attemptId).observed.publications = []
    rw [(h.idle hc).1]
  · rcases (h.gate c hc).1.2 with hnone | ⟨tables, p, hgated⟩
    · exact absurd hnone hp
    · exact ⟨c, tables, p, hc, hgated⟩

theorem publication_gate {w₀ w w' : CensusWorld} (init : w₀.Initial)
    (reach : Relation.ReflTransGen CensusStep w₀ w) (step : CensusStep w w') :
    w'.store.publications = w.store.publications ∨
      ∃ a ∈ w'.attempts, ∃ c p, a.collected = some c ∧
        PublicationAppended w.store w'.store a c p := by
  have hw := (WorldInvariant.initial init).reachable reach
  cases step with
  | start plan fresh => exact .inl rfl
  | registerConfigs rows => exact .inl rfl
  | insertAnchor row => exact .inl rfl
  | targetFailure row fresh => exact .inl rfl
  | @attempt before after a a' s split step =>
    have ha : a ∈ w.attempts := by simp [split]
    rcases step.store_eq (hw.attempts a ha) with rfl | ⟨x, hown, rfl⟩
    · exact .inl rfl
    -- Of all inserts only one of a publication adds to the publications.
    cases x with
    | publication p =>
      obtain ⟨hplan, hinvariant, -⟩ := (hw.attempts a ha).step step
      have hown' : p.attemptId = a'.plan.attemptId := by
        rw [hplan]
        exact hown
      have hmem : p ∈ ((w.store.write (.publication p)).ofAttempt
          a'.plan.attemptId).publications := by
        refine List.mem_filter.mpr ⟨?_, by simpa using hown'⟩
        simp [CensusStore.write]
      obtain ⟨c, tables, q, hc, hgated⟩ := hinvariant.gated (List.ne_nil_of_mem hmem)
      obtain rfl : p = q := by
        have honly := hgated.publications
        exact List.mem_singleton.mp (honly ▸ hmem)
      obtain ⟨herrors, hbatches, hintegrity⟩ := CollectionOutcome.verified_iff.mp hgated.outcome
      obtain ⟨t, ht, hbase, hmatch⟩ := hgated.verifiedState
      refine .inr ⟨a', by simp, c, p, hc, ?_⟩
      exact {
        appended := rfl
        only := hgated.publications
        verifiedState := ⟨t, List.mem_of_mem_filter ht, hbase, hmatch⟩
        errors := fun e he => hgated.attemptId ▸ hgated.errors e he
        batches := hbatches
        integrity := hintegrity
        terminalErrors := herrors
        checks := hgated.checks
        digest := hgated.digest
        readback := ⟨tables, hgated.persisted, hgated.readback, hgated.frozenReadback⟩ }
    | _ => exact .inl rfl

/-! ## An attempt that runs alone -/

/-- A store that answers every operation, and every read with what is stored. -/
def CensusStore.answer (publicationId : Uuid) : (op : CensusOp) → CensusStore →
    CensusAns op × CensusStore
  | .write x, s => (.ok (), s.write x)
  | .select q scope _, s => (.ok (s.select scope q), s)
  | .uuid4, s => (publicationId, s)
  | .now, s => (0, s)

theorem answered_answer (publicationId : Uuid) (op : CensusOp) (s : CensusStore) :
    Answered op s (s.answer publicationId op).1 (s.answer publicationId op).2 := by
  cases op with
  | write x => exact .written x s
  | select q scope c =>
    cases c with
    | false => exact .fast q scope s _
    | true => exact .consistent q scope s
  | uuid4 => exact .uuid4 s _
  | now => exact .now s 0

/-- The answers of the store, put on record. -/
def record (publicationId : Uuid) (op : CensusOp) (w : AttemptWorld) :
    CensusAns op × AttemptWorld :=
  let answer := w.store.answer publicationId op
  (answer.1, ⟨answer.2, w.log ++ [⟨op, answer.1⟩]⟩)

/-- The attempt `a` with its worker at `c.1` and the store and record of `c.2`. -/
def solo (used : List Uuid) (a : Attempt) (c : CensusProgram Unit × AttemptWorld) : CensusWorld :=
  ⟨c.2.store, used, [{ a with worker := c.1, log := c.2.log }]⟩

theorem solo_step {s s' : CensusStore} {used : List Uuid} {a a' : Attempt}
    (h : AttemptStep s a s' a') : CensusStep ⟨s, used, [a]⟩ ⟨s', used, [a']⟩ :=
  @CensusStep.attempt ⟨s, used, [a]⟩ [] [] a a' s' rfl h

theorem solo_store (used : List Uuid) (a : Attempt) (c : CensusProgram Unit × AttemptWorld) :
    (solo used a c).store = c.2.store := rfl

/-- One operation of the worker, of which only the store and the record are seen. -/
def workerEnv (op : CensusOp) (w : AttemptWorld) (ans : CensusAns op) (w' : AttemptWorld) : Prop :=
  Answered op w.store ans w'.store ∧ w'.log = w.log ++ [⟨op, ans⟩]

theorem workerEnv_record (publicationId : Uuid) (op : CensusOp) (w : AttemptWorld) :
    workerEnv op w (record publicationId op w).1 (record publicationId op w).2 :=
  ⟨answered_answer publicationId op w.store, rfl⟩

theorem solo_workerStep {used : List Uuid} (a : Attempt) {c c' : CensusProgram Unit × AttemptWorld}
    (h : Step workerEnv c c') : CensusStep (solo used a c) (solo used a c') := by
  cases h with
  | call answer =>
    rw [solo, solo, answer.2]
    exact solo_step (.workerCall rfl answer.1)

/-- The world after `n` operations of the worker. -/
def soloAfter (publicationId : Uuid) (used : List Uuid) (a : Attempt) (s : CensusStore)
    (n : Nat) : CensusWorld :=
  solo used a (advance (record publicationId) n (a.worker, ⟨s, a.log⟩))

theorem soloAfter_reaches (publicationId : Uuid) (used : List Uuid) (a : Attempt)
    (s : CensusStore) (n : Nat) :
    Relation.ReflTransGen CensusStep ⟨s, used, [a]⟩ (soloAfter publicationId used a s n) := by
  have hreaches := reaches_advance (workerEnv_record publicationId) n (a.worker, ⟨s, a.log⟩)
  exact hreaches.lift (solo used a) fun _ _ => solo_workerStep a

theorem soloAfter_succ (publicationId : Uuid) (used : List Uuid) (a : Attempt) (s : CensusStore)
    (n : Nat) :
    soloAfter publicationId used a s (n + 1) = soloAfter publicationId used a s n ∨
      CensusStep (soloAfter publicationId used a s n)
        (soloAfter publicationId used a s (n + 1)) := by
  rcases advance_succ (workerEnv_record publicationId) n (a.worker, ⟨s, a.log⟩) with h | h
  · exact .inl (congrArg (solo used a) h)
  · exact .inr (solo_workerStep a h)

/-- The attempt when its result has just been handed to the worker. -/
def handedOver (plan : AttemptPlan) (c : Collected plan.job plan.target) : Attempt :=
  { plan, phase := .publishing, collected := some c, opening := .ret (), worker := plan.worker c }

/-- An attempt that is alone gets there. -/
theorem reaches_handedOver (s : CensusStore) (plan : AttemptPlan)
    (c : Collected plan.job plan.target) :
    Relation.ReflTransGen CensusStep ⟨s, [], []⟩
      ⟨s.write (.attemptState plan.base.started), [plan.attemptId], [handedOver plan c]⟩ := by
  have hstart : CensusStep ⟨s, [], []⟩ ⟨s, [plan.attemptId], [{ plan }]⟩ :=
    .start plan List.not_mem_nil
  have hopening : AttemptStep s { plan } (s.write (.attemptState plan.base.started))
      { plan, opening := .ret () } :=
    @AttemptStep.openingCall { plan } (.write _) _ s _ (Except.ok ()) rfl (.written _ s)
  have hopened : AttemptStep (s.write (.attemptState plan.base.started)) { plan, opening := .ret () }
      (s.write (.attemptState plan.base.started))
      { plan, phase := .collecting, opening := .ret () } := .opened rfl rfl
  have hcollected : AttemptStep (s.write (.attemptState plan.base.started))
      { plan, phase := .collecting, opening := .ret () }
      (s.write (.attemptState plan.base.started)) (handedOver plan c) :=
    @AttemptStep.collected { plan, phase := .collecting, opening := .ret () } _ rfl c
  exact .head hstart (.head (solo_step hopening) (.head (solo_step hopened)
    (.single (solo_step hcollected))))

/-! ## A pool of two assets -/

def sampleChain : ChainConfig where
  name := "gnosis"
  chainId := 100
  finalityTag := "finalized"
  fallbackConfirmationDepth := 64
  expectedBlockTimeSeconds := "5"
  multicall3 := ⟨digitAddress 'c', 1, some (hexText (List.replicate 64 'd')), 100⟩
  legacyExecution := ⟨true, 20, ⟨false, 2, true, true⟩⟩
  discovery := ⟨1000, 10000, by decide, by decide⟩
  balancer := ⟨none, none⟩
  chain_pos := by decide

theorem undated : ∀ first ∈ (none : Option Nat), ∀ last ∈ (none : Option Nat), first < last := nofun

def samplePool : PoolConfig where
  address := digitAddress 'e'
  name := "pool"
  poolClass := "uniswap_v3"
  deploymentBlock := 1
  dateStart := none
  dateEnd := none
  enabled := true
  assets := [digitAddress 'a', digitAddress 'b']
  poolId := none
  tickSpacing := none
  fee := none
  address_ok := isAddress_hexText (by decide) (by decide)
  assets_nonempty := by decide
  assets_ok := by
    intro asset hasset
    simp only [List.mem_cons, List.not_mem_nil, or_false] at hasset
    rcases hasset with rfl | rfl
    · exact isAddress_hexText (by decide) (by decide)
    · exact isAddress_hexText (by decide) (by decide)
  dates_ok := undated
  pool_id_ok := by decide
  cl_ok := fun h => absurd (by decide) h

def samplePoolJob : JobConfig where
  name := "pool_reserves"
  targetKind := .pools
  tokenSelector := none
  poolSelector := some ⟨[], [], true, by decide⟩
  universeName := none
  cadence := .daily
  integrityMode := .poolAssets
  coverageStart := none
  tokens_ok := nofun
  pools_ok _ := ⟨rfl, rfl, rfl, .inl rfl⟩

def sampleAnchor : BlockRef :=
  ⟨10, hexText (List.replicate 64 '1'), hexText (List.replicate 64 '2'), 100⟩

/-- A configuration hash that does not depend on anything. -/
def sampleRunner : CensusRunner := ⟨sampleChain, fun _ _ => hexText (List.replicate 64 'f')⟩

def samplePlan : AttemptPlan where
  runner := sampleRunner
  job := samplePoolJob
  target := .pool samplePool
  snapshotDate := 0
  anchor := sampleAnchor
  frozen := emptyUniverse (hexdigest (sha256 []))
  attemptId := "attempt"
  pool_frozen _ _ := rfl

/-- One verified batch with the balances of both assets. -/
def samplePoolResult : PoolCollectionResult where
  integrityMode := .poolAssets
  expectedCalls := 2
  errors := []
  batches := [⟨0, 2, ⟨.multicall3, "eip1898", sampleAnchor.blockHash, ["p"], "d", true⟩⟩]
  integrityChecks := [⟨true, "pool_asset_observations_complete", some 2, some 2⟩]
  poolAddress := samplePool.address
  balances := [⟨samplePool.address, digitAddress 'a', 5, 0⟩,
    ⟨samplePool.address, digitAddress 'b', 7, 0⟩]

def sampleCollected : Collected samplePlan.job samplePlan.target := .pool samplePoolResult nofun

/-- The anchor of the date, finalized, and the current registration of the pool. -/
def sampleCensusStore : CensusStore where
  configRegistry := [⟨100, "pool_reserves", .pool, samplePool.address, "daily", .poolAssets, none,
    none, hexText (List.replicate 64 'f'), "", true, 1⟩]
  dayAnchors := [⟨100, 0, "resolution", 10, sampleAnchor.blockHash, sampleAnchor.parentHash, 100, 11,
    hexText (List.replicate 64 '3'), 105, true, 0⟩]

def sampleOpened : CensusStore :=
  sampleCensusStore.write (.attemptState samplePlan.base.started)

/-- The worker of the sample, and its store, after `n` operations. -/
@[irreducible] def sampleWorker (n : Nat) : CensusProgram Unit × AttemptWorld :=
  advance (record "publication") n
    ((handedOver samplePlan sampleCollected).worker, ⟨sampleOpened, []⟩)

def sampleWorld (n : Nat) : CensusWorld :=
  solo ["attempt"] (handedOver samplePlan sampleCollected) (sampleWorker n)

theorem sampleWorld_eq (n : Nat) : sampleWorld n =
    soloAfter "publication" ["attempt"] (handedOver samplePlan sampleCollected) sampleOpened n := by
  rw [sampleWorld, sampleWorker, soloAfter]
  rfl

theorem sampleWorld_reaches (n : Nat) :
    Relation.ReflTransGen CensusStep ⟨sampleCensusStore, [], []⟩ (sampleWorld n) := by
  rw [sampleWorld_eq]
  exact (reaches_handedOver sampleCensusStore samplePlan sampleCollected).trans
    (soloAfter_reaches "publication" ["attempt"] (handedOver samplePlan sampleCollected)
      sampleOpened n)

theorem sampleCensusStore_initial : CensusWorld.Initial ⟨sampleCensusStore, [], []⟩ :=
  ⟨rfl, fun _ _ => rfl⟩

/-- The digest of the two balances. -/
def sampleDigest : String := "80aeeda6c108fba61a699e44468e11451783be7e04a4efd8994e8eb49edf3299"

/-- What the worker stores before it reads back. -/
def samplePersisted : CensusStore :=
  sampleOpened.write (.poolBalances (samplePoolResult.balances.map fun row =>
    ⟨samplePlan.base.scope, row, "multicall3"⟩))

def sampleVerified : AttemptRow := verifiedState samplePlan.base (.pool samplePoolResult) sampleDigest

def samplePublication : PublicationRow :=
  sampleRunner.publicationRow samplePlan.base "attempt" samplePoolJob
    ⟨.pool, samplePool.address, 0, none, none⟩ 0 samplePlan.frozen (.pool samplePoolResult)
    sampleDigest (checkNames (.pool samplePoolResult)) "publication" 0

theorem sampleWorker_store : (sampleWorker 7).2.store =
    (samplePersisted.write (.attemptState sampleVerified)).write (.publication samplePublication) := by
  decide +kernel

/-- One of the worker's operations appends the publication. -/
theorem publication_gate_sample : ∃ n, ∃ a ∈ (sampleWorld (n + 1)).attempts, ∃ c p,
    a.collected = some c ∧
      PublicationAppended (sampleWorld n).store (sampleWorld (n + 1)).store a c p := by
  by_contra hnone
  have hstays : ∀ n, (sampleWorld n).store.publications = [] := by
    intro n
    induction n with
    | zero =>
      rw [sampleWorld_eq]
      rfl
    | succ n ih =>
      rcases soloAfter_succ "publication" ["attempt"] (handedOver samplePlan sampleCollected)
        sampleOpened n with hsame | hstep
      · rw [sampleWorld_eq, hsame, ← sampleWorld_eq, ih]
      · rw [← sampleWorld_eq, ← sampleWorld_eq] at hstep
        rcases publication_gate sampleCensusStore_initial (sampleWorld_reaches n) hstep with
          hsame | happended
        · exact hsame.trans ih
        · exact absurd ⟨n, happended⟩ hnone
  have hlast := hstays 7
  rw [sampleWorld, solo_store, sampleWorker_store] at hlast
  exact absurd hlast (by decide)

end RpcStateIndexer
