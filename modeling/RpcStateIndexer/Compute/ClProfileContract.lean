import RpcStateIndexer.Census.Publication
import RpcStateIndexer.Collectors.ClLiquidityCorrect
import RpcStateIndexer.Collectors.CommonCorrect
import RpcStateIndexer.Compute.ClProfileCorrect

/-!
# When published ticks have a profile

The gate checks two sums of the net liquidities, not every partial sum.  Ticks that passed it have a
profile exactly when their net liquidities are those of open positions.
-/

namespace RpcStateIndexer

open Reasoning Program

/-- The net liquidities are those of some open positions: each adds an amount at its lower tick, takes
it back at its upper tick, and the amount is not negative. -/
def FromPositions (ticks : List PoolTickRow) : Prop :=
  ∃ positions : List (Span Int Int), (∀ p ∈ positions, p.lower < p.upper ∧ 0 ≤ p.level) ∧
    ∀ tick, jumpAt (netJumps (ticks.map PoolTickRow.source)) tick =
      jumpAt (positions.flatMap Span.jumps) tick

/-- A result that passed the gate is verified. -/
theorem verified_of_publicationChecks {scope : AttemptScope} {frozen : FrozenUniverse}
    {r : PoolClCollectionResult} {digest readback : String} {t : List (Sigma CensusAns)}
    {names : List String}
    (h : Runs (publicationChecks scope frozen (.poolCl r) digest readback) t (.ok names)) :
    r.verified = true := by
  obtain ⟨count, t₁, t₂, rfl, -, h₂⟩ := runs_bind_ok_iff.mp h
  dsimp only [pure_eq, ret_bind, CollectionResult.outcome] at h₂
  by_cases hfailed :
      failedNames (gateChecks r.toCollectionOutcome count (decide (readback = digest))) = []
  · cases hverified : r.verified with
    | true => rfl
    | false =>
      simp only [hfailed, ne_eq, not_true_eq_false, if_false, hverified, Bool.not_false, if_true] at h₂
      exact absurd h₂ not_runs_raise_ok
  · simp only [ne_eq, hfailed, not_false_eq_true, if_true] at h₂
    exact absurd h₂ not_runs_raise_ok

/-- A verified result passes the gate when its digest is read back. -/
theorem publicationChecks_of_verified {r : PoolClCollectionResult} (h : r.verified = true)
    (scope : AttemptScope) (frozen : FrozenUniverse) (digest : String) :
    ∃ t names, Runs (publicationChecks scope frozen (.poolCl r) digest digest) t (.ok names) := by
  have hparts := h
  rw [CollectionOutcome.verified, Bool.and_eq_true, Bool.and_eq_true] at hparts
  obtain ⟨⟨hempty, hbatches⟩, hchecks⟩ := hparts
  have hpassed : ∀ check ∈ gateChecks r.toCollectionOutcome 0 true, check.passed = true := by
    intro check hcheck
    simp only [gateChecks, List.mem_append, List.mem_cons, List.not_mem_nil, or_false,
      List.mem_map] at hcheck
    rcases hcheck with ((rfl | rfl) | ⟨result, hresult, rfl⟩) | rfl
    · rfl
    · exact hbatches
    · exact List.all_eq_true.mp hchecks result hresult
    · rfl
  have hfailed := failedNames_eq_nil_iff.mpr hpassed
  have hcount : Runs (terminalErrorCount scope r.errors.length)
      [⟨.select .terminalErrors scope false, .ok 0⟩] (.ok 0) := by
    rw [List.isEmpty_iff.mp hempty]
    exact .call (.ret 0)
  refine ⟨[⟨.select .terminalErrors scope false, .ok 0⟩],
    "historical_code_verified" :: passedNames (gateChecks r.toCollectionOutcome 0 true), ?_⟩
  apply runs_bind_ok_iff.mpr
  refine ⟨0, _, [], rfl, hcount, ?_⟩
  dsimp only [pure_eq, ret_bind, CollectionResult.outcome]
  rw [decide_eq_true rfl]
  simp only [hfailed, ne_eq, not_true_eq_false, if_false, h, Bool.not_true, Bool.false_eq_true]
  exact .ret _

theorem passed_of_verified {r : PoolClCollectionResult} (h : r.verified = true) :
    ∀ check ∈ r.integrityChecks, check.passed = true := by
  rw [CollectionOutcome.verified, Bool.and_eq_true, List.all_eq_true] at h
  exact h.2

/-- The profile of ticks that were enumerated and published exists exactly when they come from open
positions. -/
theorem segments_return_iff {self : ClLiquidityCollector} {pool : PoolConfig} {anchor : BlockRef}
    {integrityMode : IntegrityMode} {t : List (Sigma ExecuteAns)} {r : PoolClCollectionResult}
    (hcollect : Runs (self.collect pool anchor integrityMode) t (.ok r))
    (henumerated : self.minActiveLiquidity ≤ r.state.liquidity) {scope : AttemptScope}
    {frozen : FrozenUniverse} {digest readback : String} {u : List (Sigma CensusAns)}
    {names : List String}
    (hgate : Runs (publicationChecks scope frozen (.poolCl r) digest readback) u (.ok names))
    (chainId snapshotDate : Nat) (source : ClStateSource) :
    (∃ rows, segments chainId snapshotDate source (r.ticks.map PoolTickRow.source) = .ok rows) ↔
      FromPositions r.ticks := by
  have henum := ClLiquidityCollector.enumerated_of_collect hcollect henumerated
  have hpassed := passed_of_verified (verified_of_publicationChecks hgate)
  obtain ⟨hzero, -⟩ := reconcile_passed_iff.mp fun check hcheck =>
    hpassed check (henum.reconciled check hcheck)
  have hascending : Ascending (netJumps (r.ticks.map PoolTickRow.source)) :=
    ascending_netJumps (List.pairwise_map.mpr henum.ascending)
  rw [FromPositions, ← spans_nonneg_iff hascending hzero]
  constructor
  · rintro ⟨rows, hrows⟩
    exact (segments_eq_ok_iff.mp hrows).1
  · intro hlevels
    exact ⟨_, segments_eq_ok_iff.mpr ⟨hlevels, rfl⟩⟩

/-! ## A pool that answers -/

/-- The selectors of the functions of a pool. -/
def sampleKeccak (signature : String) : List UInt8 :=
  match signature with
  | "slot0()" => [0x38, 0x50, 0xc7, 0xbd]
  | "fee()" => [0xdd, 0xca, 0x3f, 0x43]
  | "liquidity()" => [0x1a, 0x68, 0x65, 0x02]
  | "tickSpacing()" => [0xd0, 0xc9, 0x3a, 0x7c]
  | "feeGrowthGlobal0X128()" => [0xf3, 0x05, 0x83, 0x99]
  | "feeGrowthGlobal1X128()" => [0x46, 0x14, 0x13, 0x19]
  | "ticks(int24)" => [0xf3, 0x0d, 0xba, 0x93]
  | "tickBitmap(int16)" => [0x53, 0x39, 0xc2, 0x96]
  | _ => []

def sampleClCollector : ClLiquidityCollector := ⟨sampleKeccak, 0⟩

/-- A number as a word of two's complement. -/
def wordBytes (value : Int) : List UInt8 := bytesBE 32 (value % 2 ^ 256).toNat

/-- The structure of an initialized tick. -/
def tickBytes (gross net : Int) : List UInt8 :=
  wordBytes gross ++ wordBytes net ++ List.replicate (5 * 32) 0 ++ wordBytes 1

/-- Two initialized ticks above the current one, whose net liquidities are `first` and `-first`. -/
def samplePoolAnswer (first : Int) (key : String) : List UInt8 :=
  match key with
  | "slot0" => wordBytes (2 ^ 96) ++ wordBytes (-1)
  | "tickSpacing" => wordBytes 16383
  | "bm/0" => wordBytes 3
  | "tk/0" => tickBytes 1 first
  | "tk/16383" => tickBytes 1 (-first)
  | _ => wordBytes 0

def sampleClState : PoolClStateRow where
  poolAddress := samplePool.address
  poolClass := samplePool.poolClass
  sqrtPriceX96 := 2 ^ 96
  currentTick := -1
  liquidity := 0
  feeGrowthGlobal0X128 := 0
  feeGrowthGlobal1X128 := 0
  tickSpacing := 16383
  fee := 0
  tickCount := 0

def sampleTickRow (tick net : Int) : PoolTickRow where
  poolAddress := samplePool.address
  tick := tick
  liquidityGross := 1
  liquidityNet := net
  feeGrowthOutside0X128 := 0
  feeGrowthOutside1X128 := 0
  batchSequence := 2

/-- The collection of that pool, with the evidence of its three batches. -/
def sampleClResult (first : Int) (batches : List CollectionBatchEvidence) : PoolClCollectionResult where
  integrityMode := .clLiquidity
  expectedCalls := 10
  errors := []
  batches := batches
  integrityChecks := ⟨true, "cl_state_observed", none, none⟩ ::
    reconcile sampleClState [sampleTickRow 0 first, sampleTickRow 16383 (-first)]
  poolAddress := samplePool.address
  state := { sampleClState with tickCount := 2 }
  ticks := [sampleTickRow 0 first, sampleTickRow 16383 (-first)]

/-- The answers to the calls of a round. -/
def sampleRound (first : Int) (calls : List ContractCall) (sequence : Nat) : List NumberedResult :=
  calls.map fun call => ⟨answered (samplePoolAnswer first) call, sequence⟩

def sampleBitmapCalls : List ContractCall :=
  [⟨"bm/-1", samplePool.address, [0x53, 0x39, 0xc2, 0x96] ++ wordBytes (-1), true⟩,
    ⟨"bm/0", samplePool.address, [0x53, 0x39, 0xc2, 0x96] ++ wordBytes 0, true⟩]

def sampleTickCalls : List ContractCall :=
  [⟨"tk/0", samplePool.address, [0xf3, 0x0d, 0xba, 0x93] ++ wordBytes 0, true⟩,
    ⟨"tk/16383", samplePool.address, [0xf3, 0x0d, 0xba, 0x93] ++ wordBytes 16383, true⟩]

theorem sample_bitmapCalls : bitmapCalls sampleClCollector samplePool 16383 = .ok sampleBitmapCalls :=
  ok_of_toOption (by decide +kernel)

theorem sample_tickCalls : tickCalls sampleClCollector samplePool [0, 16383] = .ok sampleTickCalls :=
  ok_of_toOption (by decide +kernel)

theorem sample_collectible :
    ClLiquidityCollector.assertCollectible samplePool sampleAnchor .clLiquidity = .ok () := rfl

theorem sample_calls {calls : List ContractCall} (h : calls ∈ [sampleClCollector.stateCalls samplePool,
    sampleBitmapCalls, sampleTickCalls]) : (calls.map ContractCall.key).Nodup ∧
      ∀ call ∈ calls, (utf8 call.key).length < 256 ^ 4 := by
  revert calls
  decide +kernel

theorem length_samplePoolAnswer (first : Int) (key : String) :
    (samplePoolAnswer first key).length < 256 ^ 4 := by
  unfold samplePoolAnswer
  split <;> simp [wordBytes, tickBytes]

/-- A round of the sample returns the answers, from verified batches. -/
theorem sample_round (first : Int) {calls : List ContractCall}
    (h : calls ∈ [sampleClCollector.stateCalls samplePool, sampleBitmapCalls, sampleTickCalls])
    (log : RoundLog) :
    ∃ batches : List CollectionBatchEvidence, (∀ batch ∈ batches, batch.evidence.verified = true) ∧
      answeredBy (answerCalls (samplePoolAnswer first)) (runRound sampleAnchor calls log) =
        .ok (sampleRound first calls log.sequence, ⟨log.evidence ++ batches, log.sequence + 1⟩) :=
  answeredBy_runRound (sample_calls h).1
    (fun call hcall => ⟨(sample_calls h).2 call hcall, length_samplePoolAnswer first call.key⟩) log

/-- What the pool answers decodes to its state and its ticks. -/
structure SampleDecodes (first : Int) : Prop where
  state : decodeState samplePool (sampleRound first (sampleClCollector.stateCalls samplePool) 0) =
    .ok sampleClState
  discovered : discoverTicks samplePool 16383 (sampleRound first sampleBitmapCalls 1) = ([0, 16383], [])
  ticks : materializeTicks samplePool [0, 16383] (sampleRound first sampleTickCalls 2) =
    .ok ([sampleTickRow 0 first, sampleTickRow 16383 (-first)], [])
  verified : (sampleClResult first []).verified = true

theorem sampleDecodes_one : SampleDecodes 1 :=
  ⟨ok_of_toOption (by decide +kernel), by decide +kernel, ok_of_toOption (by decide +kernel),
    by decide +kernel⟩

theorem sampleDecodes_neg_one : SampleDecodes (-1) :=
  ⟨ok_of_toOption (by decide +kernel), by decide +kernel, ok_of_toOption (by decide +kernel),
    by decide +kernel⟩

/-- The pool is collected in three rounds: its state, its bitmap and its two ticks. -/
theorem sampleClResult_collected {first : Int} (h : SampleDecodes first) :
    ∃ t batches,
      Runs (sampleClCollector.collect samplePool sampleAnchor .clLiquidity) t
        (.ok (sampleClResult first batches)) ∧ (sampleClResult first batches).verified = true := by
  obtain ⟨b₁, hb₁, h₁⟩ := sample_round first List.mem_cons_self ⟨[], 0⟩
  obtain ⟨b₂, hb₂, h₂⟩ := sample_round first
    (List.mem_cons_of_mem _ List.mem_cons_self) ⟨[] ++ b₁, 0 + 1⟩
  obtain ⟨b₃, hb₃, h₃⟩ := sample_round first
    (List.mem_cons_of_mem _ (List.mem_cons_of_mem _ List.mem_cons_self)) ⟨[] ++ b₁ ++ b₂, 0 + 1 + 1⟩
  have hread := ClLiquidityCollector.answeredBy_readTicks sample_tickCalls h₃ h.ticks
  have hsweep := ClLiquidityCollector.answeredBy_sweepTicks sample_bitmapCalls h₂ h.discovered hread
  have hcollect := ClLiquidityCollector.answeredBy_collect sample_collectible h₁ h.state
    (by decide) hsweep
  have hrun := runs_answeredBy (answerCalls (samplePoolAnswer first))
    (sampleClCollector.collect samplePool sampleAnchor .clLiquidity)
  rw [hcollect] at hrun
  refine ⟨_, [] ++ b₁ ++ b₂ ++ b₃, hrun, ?_⟩
  have hbatches : ∀ batch ∈ [] ++ b₁ ++ b₂ ++ b₃, batch.evidence.verified = true := by
    simp only [List.nil_append, List.forall_mem_append]
    exact ⟨⟨hb₁, hb₂⟩, hb₃⟩
  rw [CollectionOutcome.verified, Bool.and_eq_true, Bool.and_eq_true]
  have hchecks : ∀ check ∈ (sampleClResult first []).integrityChecks, check.passed = true :=
    passed_of_verified h.verified
  exact ⟨⟨rfl, List.all_eq_true.mpr hbatches⟩, List.all_eq_true.mpr hchecks⟩

theorem sampleClResult_digest : ∃ digest, ∀ batches,
    (sampleClResult (-1) batches).resultDigest = .ok digest := by
  have hsome : (sampleClResult (-1) []).resultDigest.toOption.isSome = true := by decide +kernel
  obtain ⟨digest, hdigest⟩ := Option.isSome_iff_exists.mp hsome
  exact ⟨digest, fun _ => ok_of_toOption hdigest⟩

/-- The pool whose first net liquidity is 1 has a profile: it is that of one position. -/
theorem segments_return_iff_sample : ∃ batches, ∃ rows,
    segments 100 0 ⟨samplePool.address, "attempt", "digest"⟩
      ((sampleClResult 1 batches).ticks.map PoolTickRow.source) = .ok rows := by
  obtain ⟨t, batches, hcollect, hverified⟩ := sampleClResult_collected sampleDecodes_one
  obtain ⟨u, names, hgate⟩ := publicationChecks_of_verified hverified samplePlan.base.scope
    samplePlan.frozen "digest"
  refine ⟨batches, (segments_return_iff hcollect (le_refl (0 : Int)) hgate 100 0 _).mpr ?_⟩
  refine ⟨[⟨0, 16383, 1⟩], by decide, fun tick => ?_⟩
  rfl

/-- The pool whose first net liquidity is -1 is collected and passes the gate, and its profile raises. -/
theorem negative_ticks_published : ∃ t r digest u names,
    Runs (sampleClCollector.collect samplePool sampleAnchor .clLiquidity) t (.ok r) ∧
      sampleClCollector.minActiveLiquidity ≤ r.state.liquidity ∧
      r.ticks = [sampleTickRow 0 (-1), sampleTickRow 16383 1] ∧
      r.resultDigest = .ok digest ∧
      Runs (publicationChecks samplePlan.base.scope samplePlan.frozen (.poolCl r) digest digest) u
        (.ok names) ∧
      segments 100 0 ⟨"pool", "attempt", digest⟩ (r.ticks.map PoolTickRow.source) =
        .error "reconstructed liquidity went negative for pool at tick 0: -1" := by
  obtain ⟨t, batches, hcollect, hverified⟩ := sampleClResult_collected sampleDecodes_neg_one
  obtain ⟨digest, hdigest⟩ := sampleClResult_digest
  obtain ⟨u, names, hgate⟩ := publicationChecks_of_verified hverified samplePlan.base.scope
    samplePlan.frozen digest
  exact ⟨t, _, digest, u, names, hcollect, le_refl (0 : Int), rfl, hdigest batches, hgate, rfl⟩

end RpcStateIndexer
