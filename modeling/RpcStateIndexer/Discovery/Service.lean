import RpcStateIndexer.Discovery.Scanner
import RpcStateIndexer.Discovery.Store
import RpcStateIndexer.Evm.Events

/-!
# The discovery service

`DiscoveryService.advance` and `_scan_gap` as programs over the RPC pool, the store and the clock.
Holder observations are inserted before the completed ranges that claim them.
-/

namespace RpcStateIndexer

open Reasoning Program

/-- What the service asks of its environment.  `origin` is not sent: it tags the rows of a scan. -/
inductive DiscoveryOp where
  | rpc (request : RpcRequest)
  | completedRanges (chainId : Nat) (tokenAddress topic0 : String)
  | insertRanges (rows : List DiscoveryRangeRow) (origin : ScanOrigin)
  | insertHolders (rows : List HolderRow)
  | uuid4
  | now

/-- A store call may fail with a message. -/
abbrev DiscoveryAns : DiscoveryOp → Type
  | .rpc request => RpcReply request
  | .completedRanges _ _ _ => Except String (List (Nat × Nat))
  | .insertRanges _ _ => Except String Unit
  | .insertHolders _ => Except String Unit
  | .uuid4 => Nat
  | .now => Nat

inductive AdvanceException where
  | discovery (e : DiscoveryException)
  | abi (message : String)
  | store (message : String)

abbrev DiscoveryProgram (α : Type) : Type := Program DiscoveryOp DiscoveryAns AdvanceException α

def runRpc {α : Type} (p : RpcProgram DiscoveryException α) : DiscoveryProgram α :=
  p.lift .rpc (fun _ reply => reply) .discovery

def completedDiscoveryRanges (chainId : Nat) (tokenAddress topic0 : String) :
    DiscoveryProgram (List (Nat × Nat)) :=
  .call (.completedRanges chainId tokenAddress topic0) fun
    | .ok rows => .ret rows
    | .error e => .raise (.store e)

def insertDiscoveryRanges (rows : List DiscoveryRangeRow) (origin : ScanOrigin) :
    DiscoveryProgram Unit :=
  .call (.insertRanges rows origin) fun
    | .ok _ => .ret ()
    | .error e => .raise (.store e)

def insertHolderObservations (rows : List HolderRow) : DiscoveryProgram Unit :=
  .call (.insertHolders rows) fun
    | .ok _ => .ret ()
    | .error e => .raise (.store e)

def uuid4 : DiscoveryProgram Nat := .call .uuid4 .ret

def now : DiscoveryProgram Nat := .call .now .ret

structure DiscoveryService where
  chainId : Nat
  abiRegistry : AbiRegistry
  scanner : StrictLogScanner

/-- The arguments of `_scan_gap`, resolved from one configured event. -/
structure GapScan where
  tokenAddress : String
  topic0 : String
  origin : ScanOrigin
  gap : BlockRange
  anchorBlock : Nat
  anchorHash : String

namespace DiscoveryService

/-- The row of a gap that could not be scanned. -/
def failedRow (svc : DiscoveryService) (g : GapScan) (scanId startedAt failedAt : Nat)
    (exc : DiscoveryException) : DiscoveryRangeRow where
  chainId := svc.chainId
  tokenAddress := g.tokenAddress
  topic0 := g.topic0
  rangeStartBlock := g.gap.start
  rangeEndBlockExclusive := g.gap.endExclusive
  scanId := scanId
  status := .failed
  anchorBlock := g.anchorBlock
  anchorHash := g.anchorHash
  logCount := 0
  holderCount := 0
  attemptCount := 1
  endpointFingerprint := String.ofList (List.replicate 64 '0')
  errorClass := exc.className
  errorMessage := slice (match exc.cause with
    | none => exc.message
    | some cause => s!"{exc.message} | cause: {cause.className}: {cause.message}") 0 4096
  startedAt := startedAt
  heartbeatAt := failedAt
  finishedAt := failedAt

/-- The row of one completed range of a scan. -/
def completedRow (svc : DiscoveryService) (g : GapScan) (scanId startedAt finishedAt : Nat)
    (scan : DiscoveryScan) (completed : CompletedRange) :
    Except DiscoveryException DiscoveryRangeRow := do
  let logs := scan.logs.filter fun log => completed.blockRange.Contains log.blockNumber
  let holders ← extractHolders logs g.origin.holderTopics g.origin.includeZero
  return {
    chainId := svc.chainId
    tokenAddress := g.tokenAddress
    topic0 := g.topic0
    rangeStartBlock := completed.blockRange.start
    rangeEndBlockExclusive := completed.blockRange.endExclusive
    scanId := scanId
    status := .completed
    anchorBlock := g.anchorBlock
    anchorHash := g.anchorHash
    logCount := completed.logCount
    holderCount := holders.length
    attemptCount := 1
    endpointFingerprint := completed.endpointFingerprint
    errorClass := ""
    errorMessage := ""
    startedAt := startedAt
    heartbeatAt := finishedAt
    finishedAt := finishedAt }

/-- The holders a list of logs names, each with the block of its log. -/
def observations (origin : ScanOrigin) (logs : List NormalizedLog) :
    Except DiscoveryException (List (String × Nat)) := do
  let observed ← logs.mapM fun log => do
    let holders ← log.holders origin.holderTopics origin.includeZero
    return holders.map fun holder => (holder, log.blockNumber)
  return observed.flatten

/-- One row for each observed holder, in address order. -/
def holderRows (svc : DiscoveryService) (g : GapScan) (observed : List (String × Nat)) :
    List HolderRow :=
  (sortedSet (observed.map Prod.fst)).map fun holder =>
    let blocks := (observed.filter fun x => x.1 = holder).map Prod.snd
    { chainId := svc.chainId
      tokenAddress := g.tokenAddress
      holderAddress := holder
      source := "own_scan"
      sourceDetail := g.origin.eventName
      firstSeenBlock := blocks.min?.getD 0
      lastSeenBlock := blocks.max?.getD 0
      observations := blocks.length }

/-- The handler of a failed scan; a cancellation is not an `Exception` and passes through. -/
def recordFailure (svc : DiscoveryService) (g : GapScan) (scanId startedAt : Nat) :
    AdvanceException → DiscoveryProgram DiscoveryScan
  | .discovery .cancelled => .raise (.discovery .cancelled)
  | .discovery exc => do
    let failedAt ← now
    insertDiscoveryRanges [svc.failedRow g scanId startedAt failedAt exc] g.origin
    throw (.discovery exc)
  | exc => .raise exc

/-- What a finished scan persists: observations first, then the ranges that depend on them. -/
def persistScan (svc : DiscoveryService) (g : GapScan) (scanId startedAt finishedAt : Nat)
    (scan : DiscoveryScan) : DiscoveryProgram Unit := do
  let rangeRows ← ofExcept ((scan.completedRanges.mapM
    (svc.completedRow g scanId startedAt finishedAt scan)).mapError .discovery)
  let observed ← ofExcept ((observations g.origin scan.logs).mapError .discovery)
  let rows := svc.holderRows g observed
  if rows ≠ [] then insertHolderObservations rows
  insertDiscoveryRanges rangeRows g.origin

def scanGap (svc : DiscoveryService) (g : GapScan) : DiscoveryProgram Unit := do
  let scanId ← uuid4
  let startedAt ← now
  let scan ← tryCatch
    (runRpc (svc.scanner.scan g.tokenAddress g.topic0 g.gap.start g.gap.endExclusive))
    (svc.recordFailure g scanId startedAt)
  let finishedAt ← now
  svc.persistScan g scanId startedAt finishedAt scan

/-- What one configured event of a token extracts. -/
def originOf (token : TokenConfig) (event : EventConfig) : ScanOrigin where
  eventName := event.event
  holderTopics := event.holderTopics
  includeZero := token.includeZero

/-- The gaps of one event are scanned one after another. -/
def advanceEvent (svc : DiscoveryService) (token : TokenConfig) (required : BlockRange)
    (anchorBlock : Nat) (anchorHash : String) (eventConfig : EventConfig) :
    DiscoveryProgram Unit := do
  let event ← ofExcept ((svc.abiRegistry.validateHolderTopics eventConfig.abi eventConfig.event
    eventConfig.holderTopics).mapError .abi)
  let rows ← completedDiscoveryRanges svc.chainId token.address event.topic0
  let completed ← ofExcept ((rows.mapM fun range =>
    BlockRange.make range.1 range.2).mapError .discovery)
  (coverageGaps required completed).forM fun gap =>
    svc.scanGap ⟨token.address, event.topic0, originOf token eventConfig, gap, anchorBlock,
      anchorHash⟩

def advance (svc : DiscoveryService) (token : TokenConfig) (anchorBlock : Nat)
    (anchorHash : String) : DiscoveryProgram Unit := do
  let required ← ofExcept ((BlockRange.make token.deploymentBlock (anchorBlock + 1)).mapError
    .discovery)
  token.discoveryEvents.forM (svc.advanceEvent token required anchorBlock anchorHash)

theorem advance_eq (svc : DiscoveryService) (token : TokenConfig) {anchorBlock : Nat}
    (h : token.deploymentBlock < anchorBlock + 1) (anchorHash : String) :
    svc.advance token anchorBlock anchorHash = token.discoveryEvents.forM
      (svc.advanceEvent token ⟨token.deploymentBlock, anchorBlock + 1, h⟩ anchorBlock
        anchorHash) := by
  rw [advance, BlockRange.make, dif_pos h]
  rfl

end DiscoveryService

end RpcStateIndexer
