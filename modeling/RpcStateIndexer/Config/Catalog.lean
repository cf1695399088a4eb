import RpcStateIndexer.Config.Token
import RpcStateIndexer.Census.Results

/-!
# The catalog

Chains, pools, universes and jobs as their validators accept them, and the targets a job selects.
-/

namespace RpcStateIndexer

open Reasoning

/-! ## Chains -/

structure MulticallConfig where
  address : String
  deploymentBlock : Nat
  runtimeCodeHash : Option String
  defaultBatchSize : Nat
  deriving DecidableEq

structure NumberFallbackConfig where
  enabled : Bool
  requiredProviderQuorum : Nat
  requireDistinctProviderGroups : Bool
  hashSandwich : Bool
  deriving DecidableEq

structure LegacyExecutionConfig where
  enabled : Bool
  defaultBatchSize : Nat
  numberFallback : NumberFallbackConfig
  deriving DecidableEq

structure DiscoveryConfig where
  initialChunkSize : Nat
  providerResultCap : Nat
  chunk_pos : 1 ≤ initialChunkSize
  cap_pos : 1 ≤ providerResultCap
  deriving DecidableEq

structure BalancerConfig where
  v2Vault : Option String
  v3Vault : Option String
  deriving DecidableEq

/-- `expectedBlockTimeSeconds` keeps the text of its decimal. -/
structure ChainConfig where
  name : String
  chainId : Nat
  finalityTag : String
  fallbackConfirmationDepth : Nat
  expectedBlockTimeSeconds : String
  multicall3 : MulticallConfig
  legacyExecution : LegacyExecutionConfig
  discovery : DiscoveryConfig
  balancer : BalancerConfig
  chain_pos : 1 ≤ chainId
  deriving DecidableEq

/-! ## Pools -/

def balancerV2Class : String := "balancer_v2"
def balancerV3Class : String := "balancer_v3"
def uniswapV3Class : String := "uniswap_v3"
def swaprV3AlgebraClass : String := "swapr_v3_algebra"

def clPoolClasses : List String := [uniswapV3Class, swaprV3AlgebraClass]

structure PoolConfig where
  address : String
  name : String
  poolClass : String
  deploymentBlock : Nat
  dateStart : Option Nat
  dateEnd : Option Nat
  enabled : Bool
  assets : List String
  poolId : Option String
  tickSpacing : Option Nat
  fee : Option Nat
  address_ok : isAddress address = true
  assets_nonempty : assets ≠ []
  assets_ok : ∀ asset ∈ assets, isAddress asset = true
  dates_ok : ∀ first ∈ dateStart, ∀ last ∈ dateEnd, first < last
  pool_id_ok : poolClass = balancerV2Class ↔ poolId.isSome = true
  cl_ok : poolClass ∉ clPoolClasses → tickSpacing = none ∧ fee = none

namespace PoolConfig

def isCl (pool : PoolConfig) : Bool := pool.poolClass ∈ clPoolClasses

end PoolConfig

/-! ## Universes -/

inductive UniverseKind where
  | fullHolders
  | explicitList
  | union
  | intersect
  deriving DecidableEq, Repr

/-- `explicit_addresses`: the address column of a vendored list, normalized. -/
def explicitAddresses (column : List String) : Except String (List String) := do
  let values ← column.mapM normalizeAddress
  return sortedSet values

structure UniverseConfig where
  kind : UniverseKind
  source : Option String
  addressColumn : String
  of : List String
  source_ok : kind = .explicitList → source.isSome = true
  of_ok : kind = .union ∨ kind = .intersect → 2 ≤ of.length
  deriving DecidableEq

namespace UniverseConfig

def isComposed (selector : UniverseConfig) : Bool :=
  selector.kind = .union || selector.kind = .intersect

/-- The members of a composed universe; the list of any other is not looked at. -/
def composedOf (selector : UniverseConfig) : List String :=
  if selector.isComposed then selector.of else []

end UniverseConfig

/-! ## Jobs -/

structure TokenSelector where
  addresses : List String
  classIn : List String
  allEnabled : Bool
  discovered : Bool
  one_choice : (!addresses.isEmpty).toNat + (!classIn.isEmpty).toNat + allEnabled.toNat +
    discovered.toNat = 1
  deriving DecidableEq

structure PoolSelector where
  addresses : List String
  classIn : List String
  allEnabled : Bool
  one_choice : (!addresses.isEmpty).toNat + (!classIn.isEmpty).toNat + allEnabled.toNat = 1
  deriving DecidableEq

inductive JobTargetKind where
  | tokens
  | pools
  deriving DecidableEq, Repr

inductive Cadence where
  | daily
  | manual
  deriving DecidableEq, Repr

structure JobConfig where
  name : String
  targetKind : JobTargetKind
  tokenSelector : Option TokenSelector
  poolSelector : Option PoolSelector
  universeName : Option String
  cadence : Cadence
  integrityMode : IntegrityMode
  coverageStart : Option Nat
  tokens_ok : targetKind = .tokens → tokenSelector.isSome = true ∧ poolSelector = none ∧
    universeName.isSome = true ∧ integrityMode ≠ .poolAssets ∧
    (∀ selector ∈ tokenSelector, selector.discovered = true → integrityMode = .scoped)
  pools_ok : targetKind = .pools → poolSelector.isSome = true ∧ tokenSelector = none ∧
    universeName = none ∧ (integrityMode = .poolAssets ∨ integrityMode = .clLiquidity)
  deriving DecidableEq

end RpcStateIndexer
