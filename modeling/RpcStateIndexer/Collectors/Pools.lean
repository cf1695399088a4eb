import RpcStateIndexer.Collectors.Common
import RpcStateIndexer.Config.Catalog
import RpcStateIndexer.Evm.Calldata

/-!
# Pool reserves

The reserve of an asset is the balance that the asset's token has of the pool.
-/

namespace RpcStateIndexer

open Reasoning Program

namespace PoolReserveCollector

def assertCollectible (pool : PoolConfig) (anchor : BlockRef) (integrityMode : IntegrityMode) :
    Except String Unit := do
  check (integrityMode = .poolAssets) "pool reserve collection requires pool_assets integrity"
  check (pool.deploymentBlock ≤ anchor.number) "pool is not deployed at the requested anchor"
  check (decide pool.assets.Nodup) "pool asset list contains duplicate token addresses"

def reserveSpec (pool : PoolConfig) (tokenAddress : String) : Except String (String × UIntCallSpec) := do
  let call : ContractCall :=
    { key := s!"reserve/{pool.address}/{tokenAddress}"
      target := tokenAddress
      calldata := ← balanceOfCalldata pool.address }
  return (tokenAddress, ⟨call, tokenAddress, "balanceOf(pool)"⟩)

/-- The assets in order, each with its call. -/
def request (pool : PoolConfig) (anchor : BlockRef) (integrityMode : IntegrityMode) :
    Except String (List (String × UIntCallSpec)) := do
  assertCollectible pool anchor integrityMode
  (sortBy id pool.assets).mapM (reserveSpec pool)

def reserveRow (pool : PoolConfig) (x : String × Nat × Nat) : PoolBalanceRow where
  poolAddress := pool.address
  tokenAddress := x.1
  balanceRaw := x.2.1
  batchSequence := x.2.2

def materialize (pool : PoolConfig) (integrityMode : IntegrityMode)
    (request : List (String × UIntCallSpec)) (decoded : DecodedExecution) :
    Except CollectorFault PoolCollectionResult := do
  let (balances, errors) ← splitCalls decoded request
  let (complete, successful) := completenessCheck request.length decoded
  return {
    integrityMode := integrityMode
    expectedCalls := request.length
    errors := errors
    batches := decoded.batches
    integrityChecks :=
      [{ passed := complete
         check := "pool_asset_observations_complete"
         observed := some successful
         expected := some request.length }]
    poolAddress := pool.address
    balances := balances.map (reserveRow pool) }

def collect (pool : PoolConfig) (anchor : BlockRef) (integrityMode : IntegrityMode) :
    CollectorProgram PoolCollectionResult := do
  let request ← ofExcept (orValueError (request pool anchor integrityMode))
  let decoded ← executeUintCalls (request.map Prod.snd) anchor
  ofExcept (materialize pool integrityMode request decoded)

end PoolReserveCollector

end RpcStateIndexer
