import RpcStateIndexer.Reasoning.Dict
import RpcStateIndexer.Reasoning.Sorting
import RpcStateIndexer.Evm.Json

/-!
# Assembling the catalog

`assemble` merges the enumerated and the curated entries into the catalog's documents.  A document is
the value its YAML or JSON file holds; an entry's fields that nothing here reads are kept as they are.
-/

namespace RpcStateIndexer

open Reasoning

/-! ## The documents -/

structure TokenEntry where
  address : String
  tokenClass : String
  deploymentBlock : Int
  rest : List (String × Json)

structure PoolEntry where
  address : String
  rest : List (String × Json)

/-- The key of an entry: `address.lower()`, over hexadecimal text. -/
def TokenEntry.key (entry : TokenEntry) : String := entry.address.toLower

def PoolEntry.key (entry : PoolEntry) : String := entry.address.toLower

/-- The configuration directory.  `files` are the others under it, by their path. -/
structure CatalogDir where
  tokens : List TokenEntry
  pools : List PoolEntry
  jobs : Dict String Json
  universes : Dict String Json
  files : Dict String String

structure CuratedMeta where
  symbol : Option String
  decimals : Json
  deploymentBlock : Int

/-- The output directory of the enumeration; a file that is absent stands for an empty document. -/
structure EnumerationOutput where
  tokens : List TokenEntry
  pools : List PoolEntry
  curated : Dict String CuratedMeta

structure AssembleSummary where
  tokens : Nat
  pools : Nat
  jobs : Nat
  curatedBalances : Nat
  deriving DecidableEq, Repr

/-! ## The generated entries -/

/-- `TRANSFER` -/
def transferEvents : Json :=
  .arr [.obj [("abi", .str "erc20"), ("event", .str "Transfer"),
    ("holder_topics", .arr [.int 1, .int 2])]]

/-- A throwaway sentinel holder. -/
def supplyProbe : String := "0x000000000000000000000000000000000000dead"

/-- `meta["symbol"] or "?"` -/
def CuratedMeta.symbolText (curated : CuratedMeta) : String :=
  match curated.symbol with
  | some symbol => if symbol = "" then "?" else symbol
  | none => "?"

def curatedToken (address : String) (curated : CuratedMeta) : TokenEntry where
  address := address
  tokenClass := "standard_erc20"
  deploymentBlock := curated.deploymentBlock
  rest := [("symbol", .str curated.symbolText), ("decimals", curated.decimals),
    ("discovery_events", transferEvents)]

def classIn (classes : List String) : Json := .obj [("class_in", .arr (classes.map .str))]

def allEnabled : Json := .obj [("all_enabled", .bool true)]

def tokenJob (selector : Json) (universeName integrityMode : String) : Json :=
  .obj [("target_kind", .str "tokens"), ("token_selector", selector), ("universe", .str universeName),
    ("cadence", .str "daily"), ("integrity_mode", .str integrityMode), ("coverage_start", .null)]

def poolJob (selector : Json) (integrityMode : String) : Json :=
  .obj [("target_kind", .str "pools"), ("pool_selector", selector), ("cadence", .str "daily"),
    ("integrity_mode", .str integrityMode), ("coverage_start", .null)]

/-- The curated balances are a job of their own only when the curated set is known. -/
def standardJobs (curatedAddrs : List String) : List (String × Json) :=
  [("daily_pool_reserves", poolJob allEnabled "pool_assets"),
    ("daily_token_supply", tokenJob (classIn ["standard_erc20", "weth9_fork"]) "supply_probe" "scoped"),
    ("daily_atokens_full",
      tokenJob (classIn ["aave_v3_atoken", "spark_atoken"]) "full_holders" "scaled_full_supply"),
    ("daily_treasury", tokenJob allEnabled "treasury" "scoped"),
    ("daily_cl_liquidity", poolJob (classIn ["uniswap_v3", "swapr_v3_algebra"]) "cl_liquidity")] ++
  if curatedAddrs = [] then []
  else [("daily_curated_balances",
    tokenJob (.obj [("addresses", .arr ((sortBy id curatedAddrs).map .str))]) "full_holders"
      "full_supply")]

def supplyProbeUniverse : Json :=
  .obj [("kind", .str "explicit_list"), ("source", .str "vendored/supply_probe.csv"),
    ("address_column", .str "address")]

def supplyProbeCsv : String := s!"address\n{supplyProbe}\n"

/-! ## The merge -/

/-- One entry of the curated set: only the deployment block of a token that is there is lowered. -/
def mergeCurated (tokens : Dict String TokenEntry) (entry : String × CuratedMeta) :
    Dict String TokenEntry :=
  let addr := entry.1.toLower
  if addr ∈ tokens.keys then
    tokens.modify addr fun token =>
      { token with deploymentBlock := min token.deploymentBlock entry.2.deploymentBlock }
  else tokens.set addr (curatedToken addr entry.2)

/-- Existing tokens, then enumerated ones, then curated ones. -/
def mergeTokens (existing enumerated : List TokenEntry) (curated : Dict String CuratedMeta) :
    Dict String TokenEntry :=
  let tokens := enumerated.foldl (fun tokens token => tokens.setdefault token.key token)
    (.ofValues TokenEntry.key existing)
  curated.entries.foldl mergeCurated tokens

def mergePools (existing enumerated : List PoolEntry) : Dict String PoolEntry :=
  enumerated.foldl (fun pools pool => pools.setdefault pool.key pool) (.ofValues PoolEntry.key existing)

/-- The curated addresses whose token has a class that the full supply is taken of. -/
def curatedAddrs (tokens : Dict String TokenEntry) (curated : Dict String CuratedMeta) : List String :=
  (curated.keys.map String.toLower).filter fun addr =>
    (tokens.get? addr).any fun token => token.tokenClass ∈ ["standard_erc20", "weth9_fork"]

def seedJobs (existing : Dict String Json) (standard : List (String × Json)) : Dict String Json :=
  standard.foldl (fun jobs entry => jobs.setdefault entry.1 entry.2) existing

def assemble (cfg : CatalogDir) (out : EnumerationOutput) : AssembleSummary × CatalogDir :=
  let tokens := mergeTokens cfg.tokens out.tokens out.curated
  let pools := mergePools cfg.pools out.pools
  let addrs := curatedAddrs tokens out.curated
  let jobs := seedJobs cfg.jobs (standardJobs addrs)
  (⟨tokens.values.length, pools.values.length, jobs.keys.length, addrs.length⟩,
    { tokens := tokens.values
      pools := pools.values
      jobs := jobs
      universes := cfg.universes.setdefault "supply_probe" supplyProbeUniverse
      files := cfg.files.setdefault "vendored/supply_probe.csv" supplyProbeCsv })

end RpcStateIndexer
