import RpcStateIndexer.Anchors.Store
import RpcStateIndexer.Census.System
import RpcStateIndexer.Collectors.Metadata
import RpcStateIndexer.Config.EffectiveConfig
import RpcStateIndexer.Discovery.Service
import RpcStateIndexer.Reasoning.Dict
import RpcStateIndexer.Universes.Walkers

/-!
# What a census call does first

`IndexerService.census` up to its attempts, and `IndexerService.discover`: the anchor, the targets of
each job that are not published yet, the discovery they need, and the metadata pass.
-/

namespace RpcStateIndexer

open Reasoning Program

/-! ## Operations -/

/-- What the service asks of the RPC pool, the store, the clock and its own attributes. -/
inductive ServiceOp where
  /-- `AnchorResolver.resolve` -/
  | resolveAnchor (snapshotDate : Nat)
  | anchor (op : AnchorOp)
  | uuid4
  | now
  | yesterday
  | publishedTargetAddresses (chainId : Nat) (jobName : String) (targetKind : TargetKind)
      (snapshotDate : Nat) (anyConfigHash : Bool)
  | discoveredTokenCandidates (chainId : Nat)
  | registerConfigs (rows : List ConfigRegistryRow)
  | quarantinedTokenTargets (chainId : Nat) (jobName : String) (threshold : Nat)
  | discovery (op : DiscoveryOp)
  /-- `self._discovered.get` -/
  | discovered (jobName : String)
  | setDiscovered (jobName : String) (targets : List TokenConfig)
  | metadataPassDone
  | setMetadataPassDone
  | unresolvedMetadataAddresses (chainId : Nat) (addresses : List String)
  /-- `TokenMetadataCollector.resolve` -/
  | resolveMetadata (addresses : List String) (anchor : BlockRef)
  | insertTokenMetadata (rows : List TokenMetadata)

abbrev ServiceAns : ServiceOp → Type
  | .resolveAnchor _ => Except AnchorException ResolvedAnchor
  | .anchor op => AnchorAns op
  | .uuid4 => Uuid
  | .now => Nat
  | .yesterday => Nat
  | .publishedTargetAddresses .. => Except Failure (List String)
  | .discoveredTokenCandidates _ => Except Failure (List (String × Nat))
  | .registerConfigs _ => Except Failure Unit
  | .quarantinedTokenTargets .. => Except Failure (List String)
  | .discovery op => DiscoveryAns op
  | .discovered _ => Option (List TokenConfig)
  | .setDiscovered .. => Unit
  | .metadataPassDone => Bool
  | .setMetadataPassDone => Unit
  | .unresolvedMetadataAddresses .. => Except Failure (List String)
  | .resolveMetadata .. => Except Failure (List TokenMetadata)
  | .insertTokenMetadata _ => Except Failure Unit

inductive ServiceException where
  /-- `ServiceError` -/
  | service (message : String)
  /-- `JobRunError` -/
  | jobRun (failures : List String)
  | config (e : ConfigFault)
  | holders (e : HolderFault)
  | universe (e : UniverseFault)
  | anchor (e : AnchorException)
  | advance (e : AdvanceException)
  | keyError (key : String)
  | valueError (message : String)
  | environment (f : Failure)
  /-- not an `Exception` -/
  | cancelled

abbrev ServiceProgram (α : Type) : Type := Program ServiceOp ServiceAns ServiceException α

/-- The value, or what the environment raised. -/
def orRaise {α : Type} : Except Failure α → ServiceProgram α
  | .ok a => .ret a
  | .error f => .raise (.environment f)

def publishedTargetAddresses (chainId : Nat) (jobName : String) (targetKind : TargetKind)
    (snapshotDate : Nat) (anyConfigHash : Bool) : ServiceProgram (List String) :=
  .call (.publishedTargetAddresses chainId jobName targetKind snapshotDate anyConfigHash) orRaise

def discoveredTokenCandidates (chainId : Nat) : ServiceProgram (List (String × Nat)) :=
  .call (.discoveredTokenCandidates chainId) orRaise

def registerConfigs (rows : List ConfigRegistryRow) : ServiceProgram Unit :=
  .call (.registerConfigs rows) orRaise

def quarantinedTokenTargets (chainId : Nat) (jobName : String) (threshold : Nat) :
    ServiceProgram (List String) :=
  .call (.quarantinedTokenTargets chainId jobName threshold) orRaise

def unresolvedMetadataAddresses (chainId : Nat) (addresses : List String) :
    ServiceProgram (List String) :=
  .call (.unresolvedMetadataAddresses chainId addresses) orRaise

def insertTokenMetadata (rows : List TokenMetadata) : ServiceProgram Unit :=
  .call (.insertTokenMetadata rows) orRaise

def setDiscovered (jobName : String) (targets : List TokenConfig) : ServiceProgram Unit :=
  .call (.setDiscovered jobName targets) .ret

def setMetadataPassDone : ServiceProgram Unit := .call .setMetadataPassDone .ret

def PersistException.toService : PersistException → ServiceException
  | .environment f => .environment f
  | .anchor e => .anchor e

def AdvanceException.toService : AdvanceException → ServiceException
  | .discovery .cancelled => .cancelled
  | e => .advance e

/-! ## Targets -/

/-- `_active` -/
def isActive (dateStart dateEnd : Option Nat) (deploymentBlock snapshotDate : Nat)
    (anchorBlock : Option Nat) : Bool :=
  if dateStart.any fun first => snapshotDate < first then false
  else if dateEnd.any fun last => last ≤ snapshotDate then false
  -- not yet deployed at the anchor: reading its state would be a hard failure
  else if anchorBlock.any fun block => block < deploymentBlock then false
  else true

def TokenConfig.isActive (token : TokenConfig) (snapshotDate anchorBlock : Nat) : Bool :=
  RpcStateIndexer.isActive token.dateStart token.dateEnd token.deploymentBlock snapshotDate
    (some anchorBlock)

def PoolConfig.isActive (pool : PoolConfig) (snapshotDate anchorBlock : Nat) : Bool :=
  RpcStateIndexer.isActive pool.dateStart pool.dateEnd pool.deploymentBlock snapshotDate (some anchorBlock)

namespace CensusTarget

def isActive (target : CensusTarget) (snapshotDate anchorBlock : Nat) : Bool :=
  match target with
  | .token config => config.isActive snapshotDate anchorBlock
  | .pool config => config.isActive snapshotDate anchorBlock

def label : CensusTarget → String
  | .token config => config.symbol
  | .pool config => config.name

def config : CensusTarget → TargetConfig
  | .token config => .token config
  | .pool config => .pool config

end CensusTarget

theorem transferTopics_nonempty : [1, 2] ≠ [] := by decide

theorem transferTopics_range : ∀ topic ∈ [1, 2], topic ∈ [1, 2, 3] := by decide

theorem transferTopics_nodup : [1, 2].Nodup := by decide

/-- The event that a discovered token would be scanned for. -/
def discoveredTransfer : EventConfig where
  abi := "erc20"
  event := "Transfer"
  holderTopics := [1, 2]
  topics_nonempty := transferTopics_nonempty
  topics_range := transferTopics_range
  topics_nodup := transferTopics_nodup

theorem noAddresses_ok : ∀ address ∈ ([] : List String), isAddress address = true := nofun

theorem noDates_ok : ∀ first ∈ (none : Option Nat), ∀ last ∈ (none : Option Nat), first < last := nofun

theorem standardErc20_ok :
    TokenClass.standardErc20 = .aaveV3Atoken ∨ TokenClass.standardErc20 = .sparkAtoken →
      BalanceFunction.balanceOf = .scaledBalanceOf ∧ "scaledTotalSupply" ∈ ["totalSupply"] ∧
        (none : Option IndexSourceConfig).isSome = true := nofun

/-- `discovered_token_config`: the symbol is the address, and nothing else is known. -/
def discoveredTokenConfig (address : String) (firstSeenBlock : Nat) : Except String TokenConfig :=
  match h : normalizeAddress address with
  | .error message => .error message
  | .ok normal => .ok {
      address := normal
      symbol := address
      decimals := 0
      tokenClass := .standardErc20
      deploymentBlock := firstSeenBlock
      dateStart := none
      dateEnd := none
      enabled := true
      zeroAddressRole := .eventSentinel
      balanceFunction := .balanceOf
      supplyFunctions := ["totalSupply"]
      discoveryEvents := [discoveredTransfer]
      seedHolders := []
      universeAliases := []
      indexSource := none
      address_ok := isAddress_of_normalizeAddress h
      decimals_ok := by decide
      seeds_ok := noAddresses_ok
      aliases_ok := noAddresses_ok
      not_own_alias := List.not_mem_nil
      aliases_nodup := List.nodup_nil
      dates_ok := noDates_ok
      atoken_ok := standardErc20_ok
      index_source_ok := nofun
      zero_seed_ok := fun _ => List.not_mem_nil }

def JobTargetKind.kind : JobTargetKind → TargetKind
  | .tokens => .token
  | .pools => .pool

def Cadence.value : Cadence → String
  | .daily => "daily"
  | .manual => "manual"

/-! ## The service -/

/-- The collaborators of the service that are functions, and the settings it reads.  `errorName` is the
class name of an exception of discovery. -/
structure CensusService where
  catalog : Catalog
  abiRegistry : AbiRegistry
  canonicalHash : EffectiveConfig → String
  canonicalJson : EffectiveConfig → String
  errorName : AdvanceException → String
  discoveredQuarantineThreshold : Nat
  censusTargetConcurrency : Nat
  skipPublishedAnyConfigHash : Bool
  threshold_pos : 1 ≤ discoveredQuarantineThreshold
  concurrency_pos : 1 ≤ censusTargetConcurrency

/-- The targets of a job that still need an attempt. -/
structure JobWork where
  job : JobConfig
  work : List CensusTarget

/-- What a call has found out when its first attempt may start. -/
structure CensusPlan where
  anchor : BlockRef
  jobs : List JobWork
  universes : UniverseResolver

namespace CensusService

variable (self : CensusService)

def chainId : Nat := self.catalog.chain.chainId

/-- `_discovery_service` -/
def discoveryService : DiscoveryService where
  chainId := self.chainId
  abiRegistry := self.abiRegistry
  scanner := ⟨self.catalog.chain.discovery.initialChunkSize, self.catalog.chain.discovery.providerResultCap,
    self.catalog.chain.discovery.chunk_pos, self.catalog.chain.discovery.cap_pos⟩

def resolveAnchor (snapshotDate : Nat) : ServiceProgram BlockRef :=
  .call (.resolveAnchor snapshotDate) fun
    | .error e => .raise (.anchor e)
    | .ok resolved =>
      .call .uuid4 fun resolutionId => .call .now fun resolvedAt =>
        (AnchorStoreService.persist ⟨self.chainId⟩ resolved resolutionId resolvedAt).lift .anchor
          (fun _ answer => answer) PersistException.toService

/-- `_jobs` -/
def jobs (jobName : Option String) : Except ServiceException (List JobConfig) :=
  match jobName with
  | none => .ok (sortBy JobConfig.name self.catalog.jobs)
  | some name =>
    match self.catalog.jobs.find? fun job => job.name = name with
    | some job => .ok [job]
    | none => .error (.service s!"unknown job: {name}")

/-! ### Discovered targets -/

/-- Curated metadata wins over synthesis; a disabled entry is the operator's kill switch. -/
def addCandidate (targets : Dict String TokenConfig) (candidate : String × Nat) :
    Except ServiceException (Dict String TokenConfig) :=
  match self.catalog.tokens.find? fun token => token.address = candidate.1 with
  | some curated => .ok (if curated.enabled then targets.set candidate.1 curated else targets)
  | none =>
    match discoveredTokenConfig candidate.1 candidate.2 with
    | .ok token => .ok (targets.set candidate.1 token)
    | .error message => .error (.valueError message)

/-- One row of `CatalogRegistrar._rows`; the store sets the version when it inserts. -/
def configRow (job : JobConfig) (target : CensusTarget) : Except ConfigFault ConfigRegistryRow := do
  let effective ← self.catalog.targetEffectiveConfig job target.config
  let dates := match target with
    | .token token => (token.dateStart, token.dateEnd, token.enabled)
    | .pool pool => (pool.dateStart, pool.dateEnd, pool.enabled)
  return {
    chainId := self.chainId
    jobName := job.name
    targetKind := job.targetKind.kind
    targetAddress := target.address
    cadence := job.cadence.value
    integrityMode := job.integrityMode
    coverageStart := (job.coverageStart.toList ++ dates.1.toList).max?
    coverageEnd := dates.2.1
    configHash := self.canonicalHash effective
    canonicalConfigJson := self.canonicalJson effective
    enabled := dates.2.2
    insertVersion := 0 }

/-- `register_targets` -/
def registerTargets (job : JobConfig) (targets : List CensusTarget) : ServiceProgram Unit := do
  let rows ← ofExcept ((targets.mapM (self.configRow job)).mapError .config)
  if rows ≠ [] then registerConfigs rows

/-- `_discovered_targets`: resolved and registered once per process. -/
def discoveredTargets (job : JobConfig) : ServiceProgram (List TokenConfig) :=
  .call (.discovered job.name) fun
    | some cached => .ret cached
    | none => do
      let candidates ← discoveredTokenCandidates self.chainId
      let targets ← ofExcept (candidates.foldlM self.addCandidate .empty)
      let resolved := (sortBy Prod.fst targets.entries).map Prod.snd
      if resolved ≠ [] then self.registerTargets job (resolved.map .token)
      setDiscovered job.name resolved
      return resolved

/-- `_token_targets`: the quarantine is read on every call. -/
def tokenTargets (job : JobConfig) : ServiceProgram (List TokenConfig) :=
  match job.tokenSelector with
  | none => .ret []
  | some selector =>
    if !selector.discovered then ofExcept ((self.catalog.tokenTargets job).mapError .config)
    else do
      let resolved ← self.discoveredTargets job
      let quarantined ← quarantinedTokenTargets self.chainId job.name self.discoveredQuarantineThreshold
      return resolved.filter fun token => token.address ∉ quarantined

/-- The targets of a job, published or not. -/
def targets (job : JobConfig) : ServiceProgram (List CensusTarget) :=
  match job.targetKind with
  | .tokens => do return (← self.tokenTargets job).map .token
  | .pools => do return (← ofExcept ((self.catalog.poolTargets job).mapError .config)).map .pool

/-- The skip gate of one job. -/
def jobWork (snapshotDate : Nat) (anchor : BlockRef) (job : JobConfig) : ServiceProgram JobWork := do
  let published ← publishedTargetAddresses self.chainId job.name job.targetKind.kind snapshotDate
    self.skipPublishedAnyConfigHash
  let targets ← self.targets job
  return ⟨job, targets.filter fun target =>
    target.isActive snapshotDate anchor.number && decide (target.address.toLower ∉ published)⟩

/-! ### Discovery -/

/-- A discovered selector has no static targets, so discovery never covered it. -/
def needsHolderDiscovery (job : JobConfig) : Except ServiceException Bool :=
  match job.targetKind, job.tokenSelector, job.universeName with
  | .tokens, some selector, some universeName =>
    if selector.discovered then .ok false
    else (self.catalog.usesFullHolders universeName).mapError .holders
  | _, _, _ => .ok false

def tokensOf (work : List CensusTarget) : List TokenConfig :=
  work.filterMap fun
    | .token token => some token
    | .pool _ => none

/-- The tokens of `pending`, in the order they came. -/
def addPending (pending : Dict String TokenConfig) (entry : JobWork) :
    Except ServiceException (Dict String TokenConfig) := do
  if ← self.needsHolderDiscovery entry.job then
    return (tokensOf entry.work).foldl (fun pending token => pending.set token.address token) pending
  return pending

def addAlias (snapshotDate : Nat) (anchor : BlockRef) (selected : Dict String TokenConfig)
    (aliasAddress : String) : Except ServiceException (Dict String TokenConfig) :=
  match self.catalog.tokens.find? fun token => token.address = aliasAddress with
  | none => .error (.keyError aliasAddress)
  | some token =>
    .ok (if token.isActive snapshotDate anchor.number then selected.setdefault aliasAddress token
      else selected)

/-- `_with_active_aliases`: a ledger is discovered under its own address. -/
def withActiveAliases (tokens : List TokenConfig) (snapshotDate : Nat) (anchor : BlockRef) :
    Except ServiceException (List TokenConfig) := do
  let selected := Dict.ofValues TokenConfig.address tokens
  let selected ← (selected.values.flatMap TokenConfig.universeAliases).foldlM
    (self.addAlias snapshotDate anchor) selected
  return sortBy TokenConfig.address selected.values

/-- One token of `_advance_discovery`; its failure does not stop the others. -/
def advanceToken (anchor : BlockRef) (failures : List String) (token : TokenConfig) :
    ServiceProgram (List String) :=
  tryCatch (do
    (self.discoveryService.advance token anchor.number anchor.blockHash).lift .discovery
      (fun _ answer => answer) AdvanceException.toService
    return failures) fun
    | .advance e => return failures ++ [s!"{token.symbol}: {self.errorName e}"]
    | exc => throw exc

/-- `_advance_discovery` -/
def advanceDiscovery (tokens : List TokenConfig) (anchor : BlockRef) : ServiceProgram Unit := do
  let failures ← tokens.foldlM (self.advanceToken anchor) []
  if failures ≠ [] then throw (.jobRun failures)

/-- `discover` -/
def discover (snapshotDate : Nat) (jobName : Option String) : ServiceProgram BlockRef := do
  let anchor ← self.resolveAnchor snapshotDate
  let jobs ← ofExcept (self.jobs jobName)
  let selected ← jobs.foldlM (fun selected job => do
    if ← ofExcept (self.needsHolderDiscovery job) then
      let targets ← ofExcept ((self.catalog.tokenTargets job).mapError .config)
      let active := targets.filter fun token => token.isActive snapshotDate anchor.number
      return active.foldl (fun selected token => selected.set token.address token) selected
    else return selected) (Dict.empty : Dict String TokenConfig)
  let tokens ← ofExcept (self.withActiveAliases selected.values snapshotDate anchor)
  self.advanceDiscovery tokens anchor
  return anchor

/-! ### Metadata -/

def metadataChunkSize : Nat := 80

/-- A chunk that cannot be read is skipped. -/
def resolveChunk (anchor : BlockRef) (written : Nat) (chunk : List String) : ServiceProgram Nat :=
  .call (.resolveMetadata chunk anchor) fun
    | .error _ => .ret written
    | .ok observed => do
      if observed ≠ [] then insertTokenMetadata observed
      return written + observed.length

/-- `resolve_token_metadata` -/
def resolveTokenMetadata (anchor : BlockRef) : ServiceProgram Nat := do
  let candidates ← discoveredTokenCandidates self.chainId
  if candidates = [] then return 0
  let pending ← unresolvedMetadataAddresses self.chainId (candidates.map Prod.fst)
  (chunked metadataChunkSize (by decide) pending).foldlM (resolveChunk anchor) 0

/-- Labels are read at the latest finalized anchor. -/
def metadataPass : ServiceProgram Unit :=
  .call .yesterday fun snapshotDate => do
    let recent ← self.resolveAnchor snapshotDate
    let _ ← self.resolveTokenMetadata recent

/-- `_resolve_metadata_once`: what the pass raises never breaks the call. -/
def resolveMetadataOnce : ServiceProgram Unit :=
  .call .metadataPassDone fun finished => do
    if finished then return
    if self.catalog.jobs.any fun job => job.tokenSelector.any TokenSelector.discovered then
      tryCatch self.metadataPass fun
        | .cancelled => do
          setMetadataPassDone
          throw .cancelled
        | _ => return
    setMetadataPassDone

/-! ### The whole -/

/-- The resolver of `_runner`. -/
def universeResolver : Except UniverseFault UniverseResolver :=
  UniverseResolver.make self.chainId self.catalog.universes
    ((self.catalog.tokens.filter fun token => token.seedHolders ≠ []).map fun token =>
      (token.address, token.seedHolders))
    ((self.catalog.tokens.filter fun token => token.universeAliases ≠ []).map fun token =>
      (token.address, token.universeAliases))

/-- The skip gate runs for every selected job before discovery. -/
def planJobs (snapshotDate : Nat) (jobName : Option String) :
    ServiceProgram (BlockRef × List JobWork) := do
  let anchor ← self.resolveAnchor snapshotDate
  let jobs ← ofExcept (self.jobs jobName)
  let plan ← jobs.mapM (self.jobWork snapshotDate anchor)
  return (anchor, plan)

/-- Discovery covers only the targets that still need an attempt. -/
def discoverPending (snapshotDate : Nat) (anchor : BlockRef) (plan : List JobWork) :
    ServiceProgram Unit := do
  let pending ← ofExcept (plan.foldlM self.addPending .empty)
  if pending.values ≠ [] then
    let tokens ← ofExcept (self.withActiveAliases pending.values snapshotDate anchor)
    self.advanceDiscovery tokens anchor

/-- Everything a census call does before its first attempt. -/
def prepare (snapshotDate : Nat) (jobName : Option String) : ServiceProgram CensusPlan := do
  let (anchor, plan) ← self.planJobs snapshotDate jobName
  self.discoverPending snapshotDate anchor plan
  self.resolveMetadataOnce
  let universes ← ofExcept (self.universeResolver.mapError .universe)
  return ⟨anchor, plan, universes⟩

end CensusService

end RpcStateIndexer
