import RpcStateIndexer.Collectors.ClLiquidity
import RpcStateIndexer.Collectors.CommonCorrect

/-!
# What a collection of ticks has established

The ticks of a result ascend strictly, and where they were enumerated the result carries both sums.
-/

namespace RpcStateIndexer

open Reasoning Program

/-- A tick has a row when its call returned an initialized structure, and then it is that of the
structure. -/
theorem tickOfResult_eq_ok {pool : PoolConfig} {tick : Int} {result : NumberedResult}
    {row : PoolTickRow} (h : tickOfResult pool tick result = .ok row) :
    result.raw.success = true ∧ ∃ decoded, decodeTicks result.raw.returndata = .ok decoded ∧
      decoded.initialized = true ∧ decoded.liquidityGross ≠ 0 ∧ row = {
        poolAddress := pool.address
        tick := tick
        liquidityGross := decoded.liquidityGross
        liquidityNet := decoded.liquidityNet
        feeGrowthOutside0X128 := decoded.feeGrowthOutside0X128
        feeGrowthOutside1X128 := decoded.feeGrowthOutside1X128
        batchSequence := result.batchSequence } := by
  unfold tickOfResult at h
  by_cases hfailed : result.raw.success = false
  · rw [if_pos hfailed] at h
    cases h
  · rw [if_neg hfailed] at h
    cases hdecode : decodeTicks result.raw.returndata with
    | error message =>
      rw [hdecode] at h
      cases h
    | ok decoded =>
      rw [hdecode] at h
      dsimp only at h
      by_cases hempty : decoded.initialized = false ∨ decoded.liquidityGross = 0
      · rw [if_pos hempty] at h
        cases h
      · rw [if_neg hempty] at h
        rw [not_or, Bool.not_eq_false] at hempty
        exact ⟨(Bool.not_eq_false _).mp hfailed, decoded, rfl, hempty.1, hempty.2,
          (Except.ok.inj h).symm⟩

theorem tick_of_tickOfResult {pool : PoolConfig} {tick : Int} {result : NumberedResult}
    {row : PoolTickRow} (h : tickOfResult pool tick result = .ok row) : row.tick = tick := by
  obtain ⟨-, decoded, -, -, -, rfl⟩ := tickOfResult_eq_ok h
  rfl

/-- The rows are those of some of the ticks, in their order. -/
theorem ticks_sublist {pool : PoolConfig} {discovered : List Int} {raw : List NumberedResult}
    {ticks : List PoolTickRow} {errors : List CollectionError}
    (h : materializeTicks pool discovered raw = .ok (ticks, errors)) :
    (ticks.map PoolTickRow.tick).Sublist discovered := by
  simp only [materializeTicks, except_bind_eq_ok_iff, except_pure_eq_ok_iff] at h
  obtain ⟨results, hresults, hpartition⟩ := h
  obtain rfl : (partition results).1 = ticks := congrArg Prod.fst hpartition
  clear hpartition
  have hall := mapM_eq_ok_iff.mp hresults
  clear hresults
  induction hall with
  | nil => exact .slnil
  | @cons tick row discovered results hrow _ ih =>
    cases row with
    | error e => exact ih.cons tick
    | ok row =>
      have htick : row.tick = tick := by
        cases hresult : resultOf raw (tickKey tick) with
        | none =>
          rw [hresult] at hrow
          cases hrow
        | some result =>
          rw [hresult] at hrow
          exact tick_of_tickOfResult (Except.ok.inj hrow)
      show (row.tick :: (partition results).1.map PoolTickRow.tick).Sublist (tick :: discovered)
      rw [htick]
      exact ih.cons_cons tick

namespace ClLiquidityCollector

variable {self : ClLiquidityCollector} {pool : PoolConfig} {anchor : BlockRef}

theorem readTicks_ascending {discovered : List Int} (h : discovered.Pairwise (· < ·)) {log : RoundLog}
    {t : List (Sigma ExecuteAns)} {ticks : List PoolTickRow} {errors : List CollectionError}
    {log' : RoundLog}
    (hrun : Runs (self.readTicks pool anchor discovered log) t (.ok (ticks, errors, log'))) :
    ticks.Pairwise fun a b => a.tick < b.tick := by
  obtain ⟨calls, t₁, t₂, rfl, -, h₂⟩ := runs_bind_ok_iff.mp hrun
  cases calls with
  | nil =>
    obtain ⟨-, hret⟩ := runs_ret_iff.mp h₂
    cases hret
    exact .nil
  | cons call calls =>
    obtain ⟨⟨raw, log₁⟩, t₃, t₄, rfl, -, h₄⟩ := runs_bind_ok_iff.mp h₂
    obtain ⟨⟨rows, errors₁⟩, t₅, t₆, rfl, h₅, h₆⟩ := runs_bind_ok_iff.mp h₄
    obtain ⟨-, hrows⟩ := runs_ofExcept_iff.mp h₅
    obtain ⟨-, hret⟩ := runs_ret_iff.mp h₆
    cases hret
    exact List.pairwise_map.mp (h.sublist (ticks_sublist hrows.symm))

theorem sweepTicks_ascending {tickSpacing : Int} {log : RoundLog} {t : List (Sigma ExecuteAns)}
    {sweep : TickSweep} (hrun : Runs (self.sweepTicks pool anchor tickSpacing log) t (.ok sweep)) :
    sweep.ticks.Pairwise fun a b => a.tick < b.tick := by
  obtain ⟨calls, t₁, t₂, rfl, -, h₂⟩ := runs_bind_ok_iff.mp hrun
  obtain ⟨⟨raw, log₁⟩, t₃, t₄, rfl, -, h₄⟩ := runs_bind_ok_iff.mp h₂
  obtain ⟨⟨ticks, errors, log₂⟩, t₅, t₆, rfl, h₅, h₆⟩ := runs_bind_ok_iff.mp h₄
  obtain ⟨-, hret⟩ := runs_ret_iff.mp h₆
  cases hret
  exact readTicks_ascending (sortedSet_pairwise _) h₅

/-- What a collection that enumerated the ticks returns. -/
structure Enumerated (r : PoolClCollectionResult) : Prop where
  ascending : r.ticks.Pairwise fun a b => a.tick < b.tick
  reconciled : ∀ check ∈ reconcile r.state r.ticks, check ∈ r.integrityChecks

theorem enumerated_of_collect {integrityMode : IntegrityMode} {t : List (Sigma ExecuteAns)}
    {r : PoolClCollectionResult} (hrun : Runs (self.collect pool anchor integrityMode) t (.ok r))
    (h : self.minActiveLiquidity ≤ r.state.liquidity) : Enumerated r := by
  obtain ⟨-, t₁, t₂, rfl, -, h₂⟩ := runs_bind_ok_iff.mp hrun
  obtain ⟨⟨raw, log⟩, t₃, t₄, rfl, -, h₄⟩ := runs_bind_ok_iff.mp h₂
  obtain ⟨state, t₅, t₆, rfl, -, h₆⟩ := runs_bind_ok_iff.mp h₄
  by_cases hbelow : state.liquidity < self.minActiveLiquidity
  · rw [collectTicks, if_pos hbelow] at h₆
    obtain ⟨-, hret⟩ := runs_ret_iff.mp h₆
    cases hret
    exact absurd hbelow (not_lt.mpr h)
  · rw [collectTicks, if_neg hbelow] at h₆
    obtain ⟨sweep, t₇, t₈, rfl, h₇, h₈⟩ := runs_bind_ok_iff.mp h₆
    obtain ⟨-, hret⟩ := runs_ret_iff.mp h₈
    cases hret
    exact ⟨sweepTicks_ascending h₇, fun check hcheck => List.mem_cons_of_mem _ hcheck⟩

end ClLiquidityCollector

/-! ## Against an executor that answers -/

/-- A round of calls with different keys returns their answers, in order. -/
theorem answeredBy_runRound {answer : String → List UInt8} {calls : List ContractCall}
    {anchor : BlockRef} (hkeys : (calls.map ContractCall.key).Nodup)
    (hsize : ∀ call ∈ calls, (utf8 call.key).length < 256 ^ 4 ∧ (answer call.key).length < 256 ^ 4)
    (log : RoundLog) :
    ∃ batches : List CollectionBatchEvidence, (∀ batch ∈ batches, batch.evidence.verified = true) ∧
      answeredBy (answerCalls answer) (runRound anchor calls log) =
        .ok (calls.map fun call => ⟨answered answer call, log.sequence⟩,
          ⟨log.evidence ++ batches, log.sequence + 1⟩) := by
  obtain ⟨batches, hanswer, hverified, hlength, haccept⟩ :=
    acceptRound_answerCalls anchor hkeys hsize
  refine ⟨batchEvidence log.sequence batches, verified_batchEvidence hverified log.sequence, ?_⟩
  rw [runRound, decide_eq_true hkeys]
  simp only [answeredBy_bind, answeredBy_execute hanswer, answeredBy_ofExcept, except_ok_bind]
  show (acceptRound clMessages (calls.map ContractCall.key) anchor log.sequence batches >>= _) = _
  rw [haccept clMessages log.sequence, hlength]
  rfl

namespace ClLiquidityCollector

variable {self : ClLiquidityCollector} {pool : PoolConfig} {anchor : BlockRef}
  {env : (op : ExecuteOp) → ExecuteAns op} {raw : List NumberedResult} {log log' : RoundLog}

theorem answeredBy_readTicks {discovered : List Int} {call : ContractCall} {calls : List ContractCall}
    {ticks : List PoolTickRow} {errors : List CollectionError}
    (hcalls : tickCalls self pool discovered = .ok (call :: calls))
    (hround : answeredBy env (runRound anchor (call :: calls) log) = .ok (raw, log'))
    (hticks : materializeTicks pool discovered raw = .ok (ticks, errors)) :
    answeredBy env (self.readTicks pool anchor discovered log) = .ok (ticks, errors, log') := by
  rw [readTicks, hcalls, answeredBy_bind, answeredBy_ofExcept]
  show answeredBy env (runRound anchor (call :: calls) log >>= _) = _
  rw [answeredBy_bind, hround, except_ok_bind, answeredBy_bind, answeredBy_ofExcept, hticks]
  rfl

theorem answeredBy_sweepTicks {tickSpacing : Int} {calls : List ContractCall}
    {discovered : List Int} {discoveryErrors errors : List CollectionError} {ticks : List PoolTickRow}
    {log'' : RoundLog} (hcalls : bitmapCalls self pool tickSpacing = .ok calls)
    (hround : answeredBy env (runRound anchor calls log) = .ok (raw, log'))
    (hdiscovered : discoverTicks pool tickSpacing raw = (discovered, discoveryErrors))
    (hread : answeredBy env (self.readTicks pool anchor discovered log') =
      .ok (ticks, errors, log'')) :
    answeredBy env (self.sweepTicks pool anchor tickSpacing log) =
      .ok ⟨calls.length + discovered.length, ticks, discoveryErrors ++ errors, log''⟩ := by
  rw [sweepTicks, hcalls, answeredBy_bind, answeredBy_ofExcept]
  show answeredBy env (runRound anchor calls log >>= _) = _
  rw [answeredBy_bind, hround, except_ok_bind]
  dsimp only
  rw [hdiscovered, answeredBy_bind, hread]
  rfl

theorem answeredBy_collect {integrityMode : IntegrityMode} {state : PoolClStateRow} {sweep : TickSweep}
    (hassert : assertCollectible pool anchor integrityMode = .ok ())
    (hround : answeredBy env (runRound anchor (self.stateCalls pool) ⟨[], 0⟩) = .ok (raw, log))
    (hstate : decodeState pool raw = .ok state)
    (henumerated : ¬ state.liquidity < self.minActiveLiquidity)
    (hsweep : answeredBy env (self.sweepTicks pool anchor state.tickSpacing log) = .ok sweep) :
    answeredBy env (self.collect pool anchor integrityMode) =
      .ok (clResult pool state (self.stateCalls pool).length sweep (reconcile state sweep.ticks)) := by
  rw [collect, hassert, answeredBy_bind, answeredBy_ofExcept]
  show answeredBy env (runRound anchor (self.stateCalls pool) ⟨[], 0⟩ >>= _) = _
  rw [answeredBy_bind, hround, except_ok_bind]
  dsimp only
  rw [answeredBy_bind, answeredBy_ofExcept, hstate, except_ok_bind, collectTicks, if_neg henumerated,
    answeredBy_bind, hsweep]
  rfl

end ClLiquidityCollector

end RpcStateIndexer
