import RpcStateIndexer.Storage.Digests

/-!
# What a collector returns

The rows a collector observed, the evidence of the batches they came in, the calls that failed and
the integrity checks.  The result digest is computed from the rows, never stored beside them.
-/

namespace RpcStateIndexer

inductive IntegrityMode where
  | fullSupply
  | scaledFullSupply
  | scoped
  | poolAssets
  | clLiquidity
  deriving DecidableEq, Repr

inductive ExecutorKind where
  | multicall3
  | legacyRpcBatch
  deriving DecidableEq, Repr

/-- The value of the enumeration, as it is stored. -/
def ExecutorKind.value : ExecutorKind → String
  | .multicall3 => "multicall3"
  | .legacyRpcBatch => "legacy_rpc_batch"

inductive ObservationStatus where
  | ok
  | reverted
  | emptyReturn
  | malformedReturn
  | noCode
  | rpcError
  | anchorMismatch
  deriving DecidableEq, Repr

structure BlockRef where
  number : Nat
  blockHash : String
  parentHash : String
  timestamp : Nat
  deriving DecidableEq

structure BalanceRow where
  holderAddress : String
  balanceRaw : Int
  scaledBalanceRaw : Option Int := none
  valueKind : String := "direct"
  batchSequence : Nat := 0
  deriving DecidableEq

structure ScalarRow where
  scalarName : String
  scalarRaw : Int
  batchSequence : Nat := 0
  deriving DecidableEq

structure PoolBalanceRow where
  poolAddress : String
  tokenAddress : String
  balanceRaw : Int
  batchSequence : Nat := 0
  deriving DecidableEq

structure PoolClStateRow where
  poolAddress : String
  poolClass : String
  sqrtPriceX96 : Int
  currentTick : Int
  liquidity : Int
  feeGrowthGlobal0X128 : Int
  feeGrowthGlobal1X128 : Int
  tickSpacing : Int
  fee : Int
  tickCount : Int
  batchSequence : Nat := 0
  deriving DecidableEq

/-- One initialized tick; `liquidityNet` is signed. -/
structure PoolTickRow where
  poolAddress : String
  tick : Int
  liquidityGross : Int
  liquidityNet : Int
  feeGrowthOutside0X128 : Int
  feeGrowthOutside1X128 : Int
  batchSequence : Nat := 0
  deriving DecidableEq

/-- The holders of an attempt, with the sources that named each. -/
structure FrozenUniverse where
  addresses : List String
  sources : List (String × List String)
  universeHash : String
  deriving DecidableEq

def FrozenUniverse.size (u : FrozenUniverse) : Nat := u.addresses.length

structure IntegrityResult where
  passed : Bool
  check : String
  observed : Option Int := none
  expected : Option Int := none
  deriving DecidableEq

structure VerificationEvidence where
  executorKind : ExecutorKind
  blockReferenceKind : String
  anchorHash : String
  providerGroups : List String
  resultDigest : String
  verified : Bool
  deriving DecidableEq

structure CollectionBatchEvidence where
  batchSequence : Nat
  bodyCallCount : Nat
  evidence : VerificationEvidence
  deriving DecidableEq

/-- A terminal call or decode failure; it never carries a numeric value. -/
structure CollectionError where
  subjectAddress : String
  callKind : String
  status : ObservationStatus
  batchSequence : Nat
  message : String
  rpcCode : Option Int := none
  returnData : List UInt8 := []
  deriving DecidableEq

/-- What the results of every kind of target share. -/
structure CollectionOutcome where
  integrityMode : IntegrityMode
  expectedCalls : Nat
  errors : List CollectionError
  batches : List CollectionBatchEvidence
  integrityChecks : List IntegrityResult
  deriving DecidableEq

def CollectionOutcome.verified (r : CollectionOutcome) : Bool :=
  r.errors.isEmpty && r.batches.all (fun batch => batch.evidence.verified) &&
    r.integrityChecks.all (fun check => check.passed)

theorem CollectionOutcome.verified_iff {outcome : CollectionOutcome} :
    outcome.verified = true ↔ outcome.errors = [] ∧
      (∀ batch ∈ outcome.batches, batch.evidence.verified = true) ∧
        ∀ check ∈ outcome.integrityChecks, check.passed = true := by
  simp only [CollectionOutcome.verified, Bool.and_eq_true, List.isEmpty_iff, List.all_eq_true,
    and_assoc]

structure TokenCollectionResult extends CollectionOutcome where
  tokenAddress : String
  universeHash : String
  balances : List BalanceRow
  scalars : List ScalarRow
  deriving DecidableEq

structure PoolCollectionResult extends CollectionOutcome where
  poolAddress : String
  balances : List PoolBalanceRow
  deriving DecidableEq

structure PoolClCollectionResult extends CollectionOutcome where
  poolAddress : String
  state : PoolClStateRow
  ticks : List PoolTickRow
  deriving DecidableEq

/-! ## The part of a row its digest covers -/

def BalanceRow.digestRow (row : BalanceRow) : BalanceDigestRow where
  holderAddress := row.holderAddress
  balanceRaw := row.balanceRaw
  scaledBalanceRaw := row.scaledBalanceRaw
  valueKind := row.valueKind

def ScalarRow.digestRow (row : ScalarRow) : ScalarDigestRow where
  scalarName := row.scalarName
  scalarRaw := row.scalarRaw

def PoolBalanceRow.digestRow (row : PoolBalanceRow) : PoolBalanceDigestRow where
  poolAddress := row.poolAddress
  tokenAddress := row.tokenAddress
  balanceRaw := row.balanceRaw

def PoolClStateRow.digestRow (row : PoolClStateRow) : PoolClStateDigestRow where
  poolAddress := row.poolAddress
  sqrtPriceX96 := row.sqrtPriceX96
  currentTick := row.currentTick
  liquidity := row.liquidity
  feeGrowthGlobal0X128 := row.feeGrowthGlobal0X128
  feeGrowthGlobal1X128 := row.feeGrowthGlobal1X128
  tickSpacing := row.tickSpacing
  fee := row.fee
  tickCount := row.tickCount

def PoolTickRow.digestRow (row : PoolTickRow) : PoolTickDigestRow where
  poolAddress := row.poolAddress
  tick := row.tick
  liquidityGross := row.liquidityGross
  liquidityNet := row.liquidityNet
  feeGrowthOutside0X128 := row.feeGrowthOutside0X128
  feeGrowthOutside1X128 := row.feeGrowthOutside1X128

namespace TokenCollectionResult

def successfulCalls (r : TokenCollectionResult) : Nat := r.balances.length + r.scalars.length

def resultDigest (r : TokenCollectionResult) : Except DigestException String :=
  digestTokenObservations (r.balances.map BalanceRow.digestRow) (r.scalars.map ScalarRow.digestRow)

end TokenCollectionResult

namespace PoolCollectionResult

def successfulCalls (r : PoolCollectionResult) : Nat := r.balances.length

def resultDigest (r : PoolCollectionResult) : Except DigestException String :=
  digestPoolObservations (r.balances.map PoolBalanceRow.digestRow)

end PoolCollectionResult

namespace PoolClCollectionResult

def successfulCalls (r : PoolClCollectionResult) : Nat := 1 + r.ticks.length

def resultDigest (r : PoolClCollectionResult) : Except DigestException String :=
  digestClObservations r.state.digestRow (r.ticks.map PoolTickRow.digestRow)

end PoolClCollectionResult

end RpcStateIndexer
