import RpcStateIndexer.Config.Catalog
import RpcStateIndexer.Reasoning.Descent

/-!
# The loaded catalog

A chain with its tokens, pools, universes and jobs, the targets that a job selects, and what
`load_catalog` checks before it hands a catalog out.
-/

namespace RpcStateIndexer

open Reasoning

inductive ConfigFault where
  /-- universe reference cycle at {name} -/
  | referenceCycle (name : String)
  /-- unknown universe selector: {name} -/
  | unknownSelector (name : String)
  | configError (message : String)
  | valueError (message : String)
  | keyError (key : String)
  | fileNotFound (source : String)
  deriving DecidableEq

/-- A vendored list: its columns by their names, and the hash of the file. -/
structure VendoredList where
  columns : List (String × List String)
  fileHash : String

/-- What the catalog reads of a sweep. -/
structure SweepEntry where
  name : String
  universeName : String

/-- The names and addresses are the keys of the catalog's mappings. -/
structure Catalog where
  chain : ChainConfig
  tokens : List TokenConfig
  pools : List PoolConfig
  universes : List (String × UniverseConfig)
  jobs : List JobConfig
  sweeps : List SweepEntry
  vendored : String → Option VendoredList
  tokens_unique : (tokens.map TokenConfig.address).Nodup
  pools_unique : (pools.map PoolConfig.address).Nodup
  universes_unique : (universes.map Prod.fst).Nodup
  jobs_unique : (jobs.map JobConfig.name).Nodup

namespace Catalog

/-! ## Targets -/

def token (self : Catalog) (address : String) : Except ConfigFault TokenConfig :=
  match self.tokens.find? fun token => token.address = address with
  | some token => .ok token
  | none => .error (.keyError address)

def pool (self : Catalog) (address : String) : Except ConfigFault PoolConfig :=
  match self.pools.find? fun pool => pool.address = address with
  | some pool => .ok pool
  | none => .error (.keyError address)

/-- An explicit list is still subject to `enabled`; discovered targets are resolved at run time. -/
def tokenTargets (self : Catalog) (job : JobConfig) : Except ConfigFault (List TokenConfig) :=
  match job.tokenSelector with
  | none => .ok []
  | some selector =>
    if selector.discovered then .ok []
    else if selector.allEnabled then
      .ok (sortBy TokenConfig.address (self.tokens.filter TokenConfig.enabled))
    else if selector.addresses ≠ [] then do
      let values ← selector.addresses.mapM self.token
      return sortBy TokenConfig.address (values.filter TokenConfig.enabled)
    else .ok (sortBy TokenConfig.address (self.tokens.filter fun token =>
      token.enabled && decide (token.tokenClass.value ∈ selector.classIn)))

def poolTargets (self : Catalog) (job : JobConfig) : Except ConfigFault (List PoolConfig) :=
  match job.poolSelector with
  | none => .ok []
  | some selector =>
    if selector.allEnabled then
      .ok (sortBy PoolConfig.address (self.pools.filter PoolConfig.enabled))
    else if selector.addresses ≠ [] then do
      let values ← selector.addresses.mapM self.pool
      return sortBy PoolConfig.address (values.filter PoolConfig.enabled)
    else .ok (sortBy PoolConfig.address (self.pools.filter fun pool =>
      pool.enabled && decide (pool.poolClass ∈ selector.classIn)))

/-! ## Universes -/

def vendoredList (self : Catalog) (source : String) : Except ConfigFault VendoredList :=
  match self.vendored source with
  | some file => .ok file
  | none => .error (.fileNotFound source)

def universeNamed (self : Catalog) (name : String) : Except ConfigFault UniverseConfig :=
  match self.universes.lookup name with
  | some selector => .ok selector
  | none => .error (.keyError name)

/-- The source of an explicit list. -/
def explicitSource (name : String) (selector : UniverseConfig) : Except ConfigFault String :=
  match selector.kind, selector.source with
  | .explicitList, some source => .ok source
  | _, _ => .error (.configError s!"{name} is not an explicit_list")

/-- `explicit_addresses` -/
def listAddresses (self : Catalog) (universeName : String) : Except ConfigFault (List String) := do
  let selector ← self.universeNamed universeName
  let source ← explicitSource universeName selector
  let file ← self.vendoredList source
  match file.columns.lookup selector.addressColumn with
  | some column => (explicitAddresses column).mapError .valueError
  | none => throw (.configError s!"missing '{selector.addressColumn}' in {source}")

/-- The document of a universe, with the members of a composed one in the place of their names. -/
inductive ExpandedUniverse where
  | leaf (selector : UniverseConfig)
  | composed (kind : UniverseKind) (of : List ExpandedUniverse)

def expand (_ : String) (selector : UniverseConfig)
    (children : List (Except ConfigFault ExpandedUniverse)) : Except ConfigFault ExpandedUniverse :=
  if selector.isComposed then do return .composed selector.kind (← children.mapM id)
  else .ok (.leaf selector)

/-- `_expanded_universe`: only a composed universe is expanded. -/
def expandedUniverse (self : Catalog) (stack : List String) (name : String) :
    Except ConfigFault ExpandedUniverse :=
  descend self.universes UniverseConfig.of (fun _ name => .error (.referenceCycle name))
    (fun name => .error (.unknownSelector name)) expand stack name

/-- The hash of the list that a universe is read from. -/
def vendorHash (self : Catalog) (selector : UniverseConfig) :
    Except ConfigFault (List (String × String)) :=
  match selector.kind, selector.source with
  | .explicitList, some source => do return [(source, (← self.vendoredList source).fileHash)]
  | _, _ => .ok []

def collect (self : Catalog) (_ : String) (selector : UniverseConfig)
    (children : List (Except ConfigFault (List (String × String)))) :
    Except ConfigFault (List (String × String)) := do
  let own ← self.vendorHash selector
  return own ++ (← children.mapM id).flatten

/-- `_collect_vendor_hashes`: the children of every kind of universe are visited. -/
def collectVendorHashes (self : Catalog) (stack : List String) (name : String) :
    Except ConfigFault (List (String × String)) :=
  descend self.universes UniverseConfig.of (fun _ name => .error (.referenceCycle name))
    (fun name => .error (.unknownSelector name)) self.collect stack name

/-! ## Validation -/

def validateAliases (self : Catalog) (token : TokenConfig) : Except ConfigFault Unit :=
  let unknown := token.universeAliases.filter fun other => other ∉ self.tokens.map TokenConfig.address
  check (unknown = [])
    (.configError s!"token {token.address} universe_aliases reference unknown tokens: {unknown}")

def validatePool (self : Catalog) (pool : PoolConfig) : Except ConfigFault Unit := do
  let missing := pool.assets.filter fun asset => asset ∉ self.tokens.map TokenConfig.address
  check (missing = []) (.configError s!"pool {pool.address} references unknown tokens: {missing}")
  check (!(decide (pool.poolClass = balancerV2Class) && self.chain.balancer.v2Vault.isNone))
    (.configError s!"pool {pool.address} is balancer_v2 but chain defines no balancer.v2_vault")
  check (!(decide (pool.poolClass = balancerV3Class) && self.chain.balancer.v3Vault.isNone))
    (.configError s!"pool {pool.address} is balancer_v3 but chain defines no balancer.v3_vault")

def isExplicitList (self : Catalog) (universeName : Option String) : Bool :=
  match self.universes.lookup (universeName.getD "") with
  | some selector => selector.kind = .explicitList
  | none => false

def validateTarget (job : JobConfig) (token : TokenConfig) : Except ConfigFault Unit := do
  check (!(decide (job.integrityMode = .scaledFullSupply) && !token.isAtoken))
    (.configError s!"job {job.name}: {token.symbol} is not an aToken")
  check (!(decide (job.integrityMode = .fullSupply) && token.isAtoken))
    (.configError s!"job {job.name}: aToken requires scaled_full_supply")

/-- A discovered token has no deployment block to scan from, so its holders come from a list. -/
def validateTokenJob (self : Catalog) (job : JobConfig) : Except ConfigFault Unit :=
  if job.tokenSelector.any TokenSelector.discovered then do
    check (job.integrityMode = .scoped)
      (.configError s!"job {job.name}: discovered targets require scoped integrity")
    check (self.isExplicitList job.universeName)
      (.configError s!"job {job.name}: discovered targets require an explicit_list universe")
  else do
    let targets ← self.tokenTargets job
    check (targets ≠ []) (.configError s!"job {job.name} selects no tokens")
    check (!(decide (job.integrityMode = .fullSupply ∨ job.integrityMode = .scaledFullSupply) &&
        decide (job.universeName ≠ some "full_holders")))
      (.configError s!"job {job.name}: exact supply requires full_holders")
    targets.forM (validateTarget job)

def validatePoolJob (self : Catalog) (job : JobConfig) : Except ConfigFault Unit := do
  let targets ← self.poolTargets job
  check (targets ≠ []) (.configError s!"job {job.name} selects no pools")

def validateJob (self : Catalog) (job : JobConfig) : Except ConfigFault Unit := do
  let universeName := job.universeName.getD ""
  check (job.universeName.all fun name => name ∈ self.universes.map Prod.fst)
    (.configError s!"job {job.name} references unknown universe {universeName}")
  match job.targetKind with
  | .tokens => self.validateTokenJob job
  | .pools => self.validatePoolJob job

/-- A sweep scans by wallet topics, so its universe must be a closed list. -/
def validateSweep (self : Catalog) (sweep : SweepEntry) : Except ConfigFault Unit := do
  check (sweep.universeName ∈ self.universes.map Prod.fst)
    (.configError s!"sweep {sweep.name} references unknown universe {sweep.universeName}")
  check (self.isExplicitList (some sweep.universeName))
    (.configError s!"sweep {sweep.name}: universe {sweep.universeName} must be an explicit_list")
  let addresses ← self.listAddresses sweep.universeName
  check (addresses ≠ [])
    (.configError s!"sweep {sweep.name}: universe {sweep.universeName} is empty")

def validateUniverse (self : Catalog) (name : String) : Except ConfigFault Unit := do
  let _ ← self.expandedUniverse [] name

/-- `validate_catalog` -/
def validate (self : Catalog) : Except ConfigFault Unit := do
  self.tokens.forM self.validateAliases
  self.pools.forM self.validatePool
  self.jobs.forM self.validateJob
  self.sweeps.forM self.validateSweep
  (self.universes.map Prod.fst).forM self.validateUniverse

end Catalog

end RpcStateIndexer
