import RpcStateIndexer.Collectors.Common
import RpcStateIndexer.Config.Catalog
import RpcStateIndexer.Evm.Calldata

/-!
# Concentrated-liquidity primitives

Raw primitives of a pool at an anchor: its state and every initialized tick, validated against the
sums of the net liquidities.  Failures become errors or failing checks, never a zero or an empty set of
ticks.
-/

namespace RpcStateIndexer

open Reasoning Program

/-- `minActiveLiquidity` gates the enumeration of the ticks. -/
structure ClLiquidityCollector where
  keccak : String → List UInt8
  minActiveLiquidity : Nat

def clMessages : RoundMessages where
  unexpected _ key := s!"unexpected result key '{key}'"
  duplicate key := s!"duplicate result for '{key}'"
  missing keys := s!"round is missing result keys: {keys}"

/-! ## Rounds -/

/-- What the rounds of a collection leave behind. -/
structure RoundLog where
  evidence : List CollectionBatchEvidence
  sequence : Nat

/-- One verified round: the results by key, and the log with the batches of the round. -/
def runRound (anchor : BlockRef) (calls : List ContractCall) (log : RoundLog) :
    CollectorProgram (List NumberedResult × RoundLog) := do
  ofExcept (check (decide (calls.map (·.key)).Nodup) (.valueError "CL round has duplicate call keys"))
  let batches ← execute calls anchor
  let results ← ofExcept (acceptRound clMessages (calls.map (·.key)) anchor log.sequence batches)
  return (results, ⟨log.evidence ++ batchEvidence log.sequence batches, log.sequence + batches.length⟩)

def clError (pool : PoolConfig) (callKind : String) (result : NumberedResult) (detail : String)
    (status : Option ObservationStatus) : CollectionError where
  subjectAddress := pool.address
  callKind := callKind
  status := status.getD (failureStatus result.raw)
  batchSequence := result.batchSequence
  message := match result.raw.errorMessage with
    | some message => if message = "" then detail else s!"{detail}: {message}"
    | none => detail
  rpcCode := result.raw.errorCode
  returnData := result.raw.returndata

/-! ## The state -/

namespace ClLiquidityCollector

/-- Uniswap reads its fee apart; Algebra has it in the global state. -/
def stateCalls (self : ClLiquidityCollector) (pool : PoolConfig) : List ContractCall :=
  let call (key signature : String) : ContractCall :=
    { key := key
      target := pool.address
      calldata := functionSelector self.keccak signature }
  let common := [call "liquidity" "liquidity()", call "tickSpacing" "tickSpacing()"]
  if pool.poolClass = uniswapV3Class then
    [call "slot0" "slot0()", call "fee" "fee()", call "feeGrowth0" "feeGrowthGlobal0X128()",
      call "feeGrowth1" "feeGrowthGlobal1X128()"] ++ common
  else
    [call "globalState" "globalState()", call "feeGrowth0" "totalFeeGrowth0Token()",
      call "feeGrowth1" "totalFeeGrowth1Token()"] ++ common

end ClLiquidityCollector

/-- A result of the state round; one that failed is a hard failure. -/
def stateValue (pool : PoolConfig) (raw : List NumberedResult) (key : String) :
    Except CollectorFault NumberedResult :=
  match resultOf raw key with
  | none => .error (.keyError key)
  | some result =>
    if result.raw.success then .ok result
    else
      let reason := orDefault result.raw.errorMessage "reverted"
      .error (.valueError s!"CL state read '{key}' failed for {pool.address}: {reason}")

/-- A decode error of the state round. -/
def orStateError {α : Type} (pool : PoolConfig) : Except String α → Except CollectorFault α
  | .ok a => .ok a
  | .error message => .error (.valueError s!"CL state decode failed for {pool.address}: {message}")

/-- The price, the tick, the fee and the batch of the head of the state. -/
structure StateHead where
  sqrtPriceX96 : Nat
  tick : Int
  fee : Nat
  batchSequence : Nat

def decodeHead (pool : PoolConfig) (raw : List NumberedResult) : Except CollectorFault StateHead :=
  if pool.poolClass = uniswapV3Class then do
    let head ← stateValue pool raw "slot0"
    let slot0 ← orStateError pool (decodeSlot0 head.raw.returndata)
    let result ← stateValue pool raw "fee"
    let fee ← orStateError pool (decodeUintReturn result.raw.returndata 24)
    return ⟨slot0.sqrtPriceX96, slot0.tick, fee, head.batchSequence⟩
  else do
    let head ← stateValue pool raw "globalState"
    let global ← orStateError pool (decodeGlobalState head.raw.returndata)
    return ⟨global.sqrtPriceX96, global.tick, global.fee, head.batchSequence⟩

def decodeState (pool : PoolConfig) (raw : List NumberedResult) :
    Except CollectorFault PoolClStateRow := do
  let head ← decodeHead pool raw
  let liquidityResult ← stateValue pool raw "liquidity"
  let liquidity ← orStateError pool (decodeUintReturn liquidityResult.raw.returndata 128)
  let spacingResult ← stateValue pool raw "tickSpacing"
  let tickSpacing ← orStateError pool (decodeIntReturn spacingResult.raw.returndata 24)
  let feeGrowth0Result ← stateValue pool raw "feeGrowth0"
  let feeGrowth0 ← orStateError pool (decodeUintReturn feeGrowth0Result.raw.returndata 256)
  let feeGrowth1Result ← stateValue pool raw "feeGrowth1"
  let feeGrowth1 ← orStateError pool (decodeUintReturn feeGrowth1Result.raw.returndata 256)
  check (0 < tickSpacing)
    (.valueError s!"CL pool {pool.address} reported non-positive tickSpacing")
  return {
    poolAddress := pool.address
    poolClass := pool.poolClass
    sqrtPriceX96 := head.sqrtPriceX96
    currentTick := head.tick
    liquidity := liquidity
    feeGrowthGlobal0X128 := feeGrowth0
    feeGrowthGlobal1X128 := feeGrowth1
    tickSpacing := tickSpacing
    fee := head.fee
    tickCount := 0
    batchSequence := head.batchSequence }

/-! ## Tick discovery -/

/-- The positions of the bitmap words: Algebra keys its table by the tick, Uniswap by the compressed
tick. -/
def wordPositions (pool : PoolConfig) (tickSpacing : Int) : List Int :=
  let wordMin := if pool.poolClass = uniswapV3Class then minTick / tickSpacing / 256 else minTick / 256
  let wordMax := if pool.poolClass = uniswapV3Class then maxTick / tickSpacing / 256 else maxTick / 256
  (List.range (wordMax + 1 - wordMin).toNat).map fun i => wordMin + i

def bitmapKey (wordPosition : Int) : String := s!"bm/{wordPosition}"

def tickKey (tick : Int) : String := s!"tk/{tick}"

def bitmapCalls (self : ClLiquidityCollector) (pool : PoolConfig) (tickSpacing : Int) :
    Except String (List ContractCall) :=
  let builder := if pool.poolClass = uniswapV3Class then tickBitmapCalldata self.keccak
    else tickTableCalldata self.keccak
  (wordPositions pool tickSpacing).mapM fun wordPosition => do
    return { key := bitmapKey wordPosition
             target := pool.address
             calldata := ← builder wordPosition }

/-- The ticks of a word, by the bits that are set in it. -/
def ticksOfWord (pool : PoolConfig) (tickSpacing wordPosition : Int) (bits : List Nat) : List Int :=
  (bits.map fun bit =>
    if pool.poolClass = uniswapV3Class then (wordPosition * 256 + bit) * tickSpacing
    else wordPosition * 256 + bit).filter fun tick => minTick ≤ tick ∧ tick ≤ maxTick

/-- The ticks that one bitmap result names, or the error of the call. -/
def ticksOfResult (pool : PoolConfig) (tickSpacing wordPosition : Int) (result : NumberedResult) :
    Except CollectionError (List Int) :=
  if result.raw.success = false then
    .error (clError pool "tickBitmap" result s!"word {wordPosition}" none)
  else match decodeBitmapWord result.raw.returndata with
    | .error message =>
      .error (clError pool "tickBitmap" result message (some .malformedReturn))
    | .ok bits => .ok (ticksOfWord pool tickSpacing wordPosition bits)

/-- `int(key.split("/", 1)[1])` -/
def wordPositionOf (key : String) : Int :=
  let value (digits : List Char) : Nat := digits.foldl (fun acc c => 10 * acc + (c.toNat - '0'.toNat)) 0
  match (key.toList.dropWhile fun c => c ≠ '/').drop 1 with
  | '-' :: digits => -value digits
  | digits => value digits

def discoverTicks (pool : PoolConfig) (tickSpacing : Int) (raw : List NumberedResult) :
    List Int × List CollectionError :=
  let found := partition (raw.map fun result =>
    ticksOfResult pool tickSpacing (wordPositionOf result.raw.key) result)
  (sortedSet found.1.flatten, found.2)

/-! ## Ticks -/

def tickCalls (self : ClLiquidityCollector) (pool : PoolConfig) (discovered : List Int) :
    Except String (List ContractCall) :=
  discovered.mapM fun tick => do
    return { key := tickKey tick
             target := pool.address
             calldata := ← ticksCalldata self.keccak tick }

/-- The row of one tick, or its error; the bitmap and the structure must agree. -/
def tickOfResult (pool : PoolConfig) (tick : Int) (result : NumberedResult) :
    Except CollectionError PoolTickRow :=
  if result.raw.success = false then .error (clError pool "ticks" result s!"tick {tick}" none)
  else match decodeTicks result.raw.returndata with
    | .error message =>
      .error (clError pool "ticks" result s!"tick {tick}: {message}" (some .malformedReturn))
    | .ok decoded =>
      if decoded.initialized = false ∨ decoded.liquidityGross = 0 then
        .error (clError pool "ticks" result s!"tick {tick} flagged in bitmap but not initialized"
          (some .malformedReturn))
      else .ok {
        poolAddress := pool.address
        tick := tick
        liquidityGross := decoded.liquidityGross
        liquidityNet := decoded.liquidityNet
        feeGrowthOutside0X128 := decoded.feeGrowthOutside0X128
        feeGrowthOutside1X128 := decoded.feeGrowthOutside1X128
        batchSequence := result.batchSequence }

def materializeTicks (pool : PoolConfig) (discovered : List Int) (raw : List NumberedResult) :
    Except CollectorFault (List PoolTickRow × List CollectionError) := do
  let results ← discovered.mapM fun tick =>
    match resultOf raw (tickKey tick) with
    | some result => .ok (tickOfResult pool tick result)
    | none => .error (.keyError (tickKey tick))
  return partition results

/-- The sums of the net liquidities: over all ticks, and over those at or below the current one. -/
def reconcile (state : PoolClStateRow) (ticks : List PoolTickRow) : List IntegrityResult :=
  let netSum := (ticks.map PoolTickRow.liquidityNet).sum
  let active := ((ticks.filter fun row => row.tick ≤ state.currentTick).map
    PoolTickRow.liquidityNet).sum
  [{ passed := netSum = 0
     check := "cl_liquidity_net_sum_zero"
     observed := some netSum
     expected := some 0 },
   { passed := active = state.liquidity
     check := "cl_active_liquidity_reconciles"
     observed := some active
     expected := some state.liquidity }]

/-! ## The collection -/

/-- What the rounds after the state give. -/
structure TickSweep where
  expectedCalls : Nat
  ticks : List PoolTickRow
  errors : List CollectionError
  log : RoundLog

namespace ClLiquidityCollector

/-- The round over the ticks, unless none was discovered. -/
def readTicks (self : ClLiquidityCollector) (pool : PoolConfig) (anchor : BlockRef)
    (discovered : List Int) (log : RoundLog) :
    CollectorProgram (List PoolTickRow × List CollectionError × RoundLog) := do
  let calls ← ofExcept (orValueError (tickCalls self pool discovered))
  match calls with
  | [] => return ([], [], log)
  | calls => do
    let (raw, log) ← runRound anchor calls log
    let (ticks, errors) ← ofExcept (materializeTicks pool discovered raw)
    return (ticks, errors, log)

/-- The rounds over the bitmap and the ticks. -/
def sweepTicks (self : ClLiquidityCollector) (pool : PoolConfig) (anchor : BlockRef)
    (tickSpacing : Int) (log : RoundLog) : CollectorProgram TickSweep := do
  let calls ← ofExcept (orValueError (bitmapCalls self pool tickSpacing))
  let (raw, log) ← runRound anchor calls log
  let (discovered, discoveryErrors) := discoverTicks pool tickSpacing raw
  let (ticks, tickErrors, log) ← self.readTicks pool anchor discovered log
  return ⟨calls.length + discovered.length, ticks, discoveryErrors ++ tickErrors, log⟩

def clResult (pool : PoolConfig) (state : PoolClStateRow) (stateCalls : Nat) (sweep : TickSweep)
    (checks : List IntegrityResult) : PoolClCollectionResult where
  integrityMode := .clLiquidity
  expectedCalls := stateCalls + sweep.expectedCalls
  errors := sweep.errors
  batches := sweep.log.evidence
  integrityChecks :=
    { passed := true
      check := "cl_state_observed" } :: checks
  poolAddress := pool.address
  state := { state with tickCount := sweep.ticks.length }
  ticks := sweep.ticks

/-- Below the threshold only the state is published. -/
def belowThreshold (self : ClLiquidityCollector) (state : PoolClStateRow) : IntegrityResult where
  passed := true
  check := "cl_below_active_threshold"
  observed := some state.liquidity
  expected := some self.minActiveLiquidity

def collectTicks (self : ClLiquidityCollector) (pool : PoolConfig) (anchor : BlockRef)
    (state : PoolClStateRow) (stateCalls : Nat) (log : RoundLog) :
    CollectorProgram PoolClCollectionResult :=
  if state.liquidity < self.minActiveLiquidity then
    return clResult pool state stateCalls ⟨0, [], [], log⟩ [self.belowThreshold state]
  else do
    let sweep ← self.sweepTicks pool anchor state.tickSpacing log
    return clResult pool state stateCalls sweep (reconcile state sweep.ticks)

/-- What a request must meet before anything is read. -/
def assertCollectible (pool : PoolConfig) (anchor : BlockRef) (integrityMode : IntegrityMode) :
    Except String Unit := do
  check (integrityMode = .clLiquidity) "CL collection requires cl_liquidity integrity"
  check pool.isCl s!"ClLiquidityCollector cannot handle pool_class '{pool.poolClass}'"
  check (pool.deploymentBlock ≤ anchor.number) "pool is not deployed at the requested anchor"

def collect (self : ClLiquidityCollector) (pool : PoolConfig) (anchor : BlockRef)
    (integrityMode : IntegrityMode) : CollectorProgram PoolClCollectionResult := do
  ofExcept (orValueError (assertCollectible pool anchor integrityMode))
  let (raw, log) ← runRound anchor (self.stateCalls pool) ⟨[], 0⟩
  let state ← ofExcept (decodeState pool raw)
  self.collectTicks pool anchor state (self.stateCalls pool).length log

end ClLiquidityCollector

end RpcStateIndexer
