import Mathlib.Data.List.Lex
import RpcStateIndexer.Config.Catalog
import RpcStateIndexer.Discovery.Scanner
import RpcStateIndexer.Sweep.Store

/-!
# The sweep service

`SweepService.advance` and `_scan_gap` as programs over the RPC pool, the store and the clock.
Coverage is read and kept for each wallet and topic position; wallets whose gaps coincide share the
scans of those gaps, and every window of a gap is committed before the next one starts.
-/

namespace RpcStateIndexer

open Reasoning Program

/-! ## Configuration -/

structure SweepConfig where
  name : String
  topicPositions : List Nat
  startBlock : Nat
  checkpointBlocks : Nat
  topicPositions_nonempty : topicPositions ≠ []
  topicPositions_ok : ∀ position ∈ topicPositions, position = 1 ∨ position = 2 ∨ position = 3
  topicPositions_unique : topicPositions.Nodup
  checkpointBlocks_pos : 1 ≤ checkpointBlocks

/-! ## Filters and windows -/

/-- Left-pad a 20-byte address to the 32-byte indexed-topic word. -/
def walletTopic (address : String) : String :=
  "0x" ++ String.ofList (List.replicate 24 '0') ++ String.ofList (address.toList.drop 2)

/-- The message for the first constraint that a filter rejects. -/
def topicError (topics : List (Option (List String))) : String :=
  match topics.find? fun constraint => constraint.any fun words =>
      words.isEmpty || !words.all isTopicWord with
  | some (some []) => "a topic constraint cannot be empty"
  | _ => "topic constraints must be lowercase 32-byte words"

/-- The constructor's checks. -/
def LogFilter.make (address : Option String) (topics : List (Option (List String))) :
    Except DiscoveryException LogFilter :=
  if haddress : ∀ a ∈ address, isAddress a = true then
    if hlength : topics.length ≤ 4 then
      if hconstrained : ∃ constraint ∈ topics, constraint.isSome = true then
        if hwords : ∀ constraint ∈ topics, ∀ words ∈ constraint,
            words ≠ [] ∧ ∀ word ∈ words, isTopicWord word = true then
          .ok ⟨address, topics, haddress, hlength, hconstrained, hwords⟩
        else .error (.valueError (topicError topics))
      else .error (.valueError "filter must constrain at least one topic position")
    else .error (.valueError "a log has at most four topics")
  else .error (.valueError "filter address must be normalized lowercase 0x hex")

/-- The constraints of a sweep: the wallets' words at one position, nothing before it. -/
def sweepTopics (position : Nat) (wallets : List String) : List (Option (List String)) :=
  List.replicate position none ++ [some (sortedSet (wallets.map walletTopic))]

/-- The loop of `scan_windows`. -/
def windowsFrom (size : Nat) (hsize : 1 ≤ size) (cursor stop : Nat) : List BlockRange :=
  if h : cursor < stop then
    ⟨cursor, min (cursor + size) stop, by omega⟩ ::
      windowsFrom size hsize (min (cursor + size) stop) stop
  else []
termination_by stop - cursor

/-- Split a range into commit-sized windows, in ascending order. -/
def scanWindows (blockRange : BlockRange) (size : Nat) :
    Except DiscoveryException (List BlockRange) :=
  if h : 1 ≤ size then .ok (windowsFrom size h blockRange.start blockRange.endExclusive)
  else .error (.valueError "checkpoint window must be positive")

/-! ## The environment -/

inductive SweepOp where
  | rpc (request : RpcRequest)
  | completedRanges (chainId : Nat) (walletAddress : String) (topicPosition : Nat)
  | insertRanges (rows : List SweepRangeRow)
  | insertLogs (rows : List WalletInteractionRow)
  | uuid4
  | now

/-- A store call may fail with a message. -/
abbrev SweepAns : SweepOp → Type
  | .rpc request => RpcReply request
  | .completedRanges _ _ _ => Except String (List (Nat × Nat))
  | .insertRanges _ => Except String Unit
  | .insertLogs _ => Except String Unit
  | .uuid4 => Nat
  | .now => Nat

inductive SweepException where
  | discovery (e : DiscoveryException)
  | valueError (message : String)
  | indexError
  | store (message : String)

abbrev SweepProgram (α : Type) : Type := Program SweepOp SweepAns SweepException α

namespace SweepProgram

def runRpc {α : Type} (p : RpcProgram DiscoveryException α) : SweepProgram α :=
  p.lift .rpc (fun _ reply => reply) .discovery

def completedSweepRanges (chainId : Nat) (walletAddress : String) (topicPosition : Nat) :
    SweepProgram (List (Nat × Nat)) :=
  .call (.completedRanges chainId walletAddress topicPosition) fun
    | .ok rows => .ret rows
    | .error e => .raise (.store e)

def insertSweepRanges (rows : List SweepRangeRow) : SweepProgram Unit :=
  .call (.insertRanges rows) fun
    | .ok _ => .ret ()
    | .error e => .raise (.store e)

def insertWalletInteractionLogs (rows : List WalletInteractionRow) : SweepProgram Unit :=
  .call (.insertLogs rows) fun
    | .ok _ => .ret ()
    | .error e => .raise (.store e)

def uuid4 : SweepProgram Nat := .call .uuid4 .ret

def now : SweepProgram Nat := .call .now .ret

end SweepProgram

open SweepProgram

/-! ## One window -/

structure SweepService where
  chainId : Nat
  scanner : StrictLogScanner

/-- The arguments of `_scan_gap`. -/
structure SweepScan where
  position : Nat
  wallets : List String
  gap : BlockRange
  anchorBlock : Nat
  anchorHash : String

/-- `wallet_by_topic.get`: of two wallets with one word the later is kept. -/
def walletByTopic (wallets : List String) (topic : String) : Option String :=
  wallets.reverse.find? fun wallet => walletTopic wallet = topic

namespace SweepService

/-- The row of a wallet whose window could not be scanned. -/
def failedRow (svc : SweepService) (g : SweepScan) (scanId startedAt failedAt : Nat)
    (exc : DiscoveryException) (wallet : String) : SweepRangeRow where
  chainId := svc.chainId
  walletAddress := wallet
  topicPosition := g.position
  rangeStartBlock := g.gap.start
  rangeEndBlockExclusive := g.gap.endExclusive
  scanId := scanId
  status := .failed
  anchorBlock := g.anchorBlock
  anchorHash := g.anchorHash
  logCount := 0
  attemptCount := 1
  endpointFingerprint := String.ofList (List.replicate 64 '0')
  errorClass := exc.className
  errorMessage := slice (match exc.cause with
    | none => exc.message
    | some cause => s!"{exc.message} | cause: {cause.className}: {cause.message}") 0 4096
  startedAt := startedAt
  heartbeatAt := failedAt
  finishedAt := failedAt

/-- The row of one log, attributed by the word at the scanned position. -/
def logRow (svc : SweepService) (g : SweepScan) (finishedAt : Nat) (log : NormalizedLog) :
    Except SweepException WalletInteractionRow :=
  match log.topics[g.position]? with
  | none => .error .indexError
  | some topic =>
    match walletByTopic g.wallets topic with
    | none => .error (.discovery
        (.responseError "sweep log topic does not match a requested wallet"))
    | some wallet => .ok {
        chainId := svc.chainId
        walletAddress := wallet
        topicPosition := g.position
        contractAddress := log.address
        topic0 := log.topic0
        topicCount := log.topics.length
        blockNumber := log.blockNumber
        blockHash := log.blockHash
        transactionHash := log.transactionHash
        logIndex := log.logIndex
        topics := log.topics
        observedAt := finishedAt }

/-- The row of one completed range of a scan for one of its wallets. -/
def completedRow (svc : SweepService) (g : SweepScan) (scanId startedAt finishedAt : Nat)
    (logRows : List WalletInteractionRow) (completed : CompletedRange) (wallet : String) :
    SweepRangeRow where
  chainId := svc.chainId
  walletAddress := wallet
  topicPosition := g.position
  rangeStartBlock := completed.blockRange.start
  rangeEndBlockExclusive := completed.blockRange.endExclusive
  scanId := scanId
  status := .completed
  anchorBlock := g.anchorBlock
  anchorHash := g.anchorHash
  logCount := (logRows.filter fun row => row.walletAddress = wallet &&
    completed.blockRange.Contains row.blockNumber).length
  attemptCount := 1
  endpointFingerprint := completed.endpointFingerprint
  errorClass := ""
  errorMessage := ""
  startedAt := startedAt
  heartbeatAt := finishedAt
  finishedAt := finishedAt

def completedRowsOf (svc : SweepService) (g : SweepScan) (scanId startedAt finishedAt : Nat)
    (logRows : List WalletInteractionRow) (scan : DiscoveryScan) : List SweepRangeRow :=
  scan.completedRanges.flatMap fun completed =>
    g.wallets.map (svc.completedRow g scanId startedAt finishedAt logRows completed)

/-- The handler of a failed scan; a cancellation is not an `Exception` and passes through. -/
def recordFailure (svc : SweepService) (g : SweepScan) (scanId startedAt : Nat) :
    SweepException → SweepProgram DiscoveryScan
  | .discovery .cancelled => .raise (.discovery .cancelled)
  | .discovery exc => do
    let failedAt ← SweepProgram.now
    insertSweepRanges (g.wallets.map (svc.failedRow g scanId startedAt failedAt exc))
    throw (.discovery exc)
  | exc => .raise exc

/-- Evidence is inserted before the coverage that depends on it. -/
def persist (logRows : List WalletInteractionRow) (rangeRows : List SweepRangeRow) :
    SweepProgram Unit := do
  if logRows ≠ [] then insertWalletInteractionLogs logRows
  insertSweepRanges rangeRows

def scanGap (svc : SweepService) (g : SweepScan) : SweepProgram Nat := do
  let scanId ← SweepProgram.uuid4
  let startedAt ← SweepProgram.now
  -- a filter that cannot be built raises before the guarded part
  let logFilter ← ofExcept ((LogFilter.make none (sweepTopics g.position g.wallets)).mapError
    .discovery)
  let scan ← tryCatch
    (SweepProgram.runRpc (svc.scanner.scanFilter logFilter g.gap.start g.gap.endExclusive))
    (svc.recordFailure g scanId startedAt)
  let finishedAt ← SweepProgram.now
  let logRows ← ofExcept (scan.logs.mapM (svc.logRow g finishedAt))
  persist logRows (svc.completedRowsOf g scanId startedAt finishedAt logRows scan)
  return logRows.length

/-! ## Grouping and advancing -/

/-- The gaps of one wallet at one position. -/
def walletGaps (svc : SweepService) (required : BlockRange) (position : Nat) (wallet : String) :
    SweepProgram (String × List BlockRange) := do
  let rows ← completedSweepRanges svc.chainId wallet position
  let completed ← ofExcept ((rows.mapM fun range =>
    BlockRange.make range.1 range.2).mapError .discovery)
  return (wallet, coverageGaps required completed)

/-- `sorted(gap_groups.items())`: the wallets that share each tuple of gaps. -/
def gapGroups (gapsOf : List (String × List BlockRange)) : List (List BlockRange × List String) :=
  let missing := gapsOf.filter fun x => x.2 ≠ []
  let groups := (missing.map Prod.snd).dedup.map fun gaps =>
    (gaps, (missing.filter fun x => x.2 = gaps).map Prod.fst)
  sortBy (fun group => group.1.map BlockRange.key) groups

/-- The windows of a group of wallets, scanned and committed one after another. -/
def scanGroup (svc : SweepService) (sweep : SweepConfig) (anchorBlock : Nat) (anchorHash : String)
    (position : Nat) (group : List BlockRange × List String) : SweepProgram Unit := do
  let windows ← ofExcept ((group.1.mapM fun gap =>
    scanWindows gap sweep.checkpointBlocks).mapError .discovery)
  windows.flatten.forM fun window => do
    let _logs ← svc.scanGap ⟨position, group.2, window, anchorBlock, anchorHash⟩

/-- All coverage of a position is read before any of its scans starts. -/
def advancePosition (svc : SweepService) (sweep : SweepConfig) (required : BlockRange)
    (wallets : List String) (anchorBlock : Nat) (anchorHash : String) (position : Nat) :
    SweepProgram Unit := do
  let gapsOf ← (sortedSet wallets).mapM (svc.walletGaps required position)
  (gapGroups gapsOf).forM (svc.scanGroup sweep anchorBlock anchorHash position)

def advance (svc : SweepService) (sweep : SweepConfig) (wallets : List String)
    (anchorBlock : Nat) (anchorHash : String) : SweepProgram Unit :=
  if wallets = [] then
    .raise (.valueError s!"sweep {sweep.name} resolved an empty wallet universe")
  else do
    let required ← ofExcept ((BlockRange.make sweep.startBlock (anchorBlock + 1)).mapError
      .discovery)
    (sortBy id sweep.topicPositions).forM
      (svc.advancePosition sweep required wallets anchorBlock anchorHash)

end SweepService

end RpcStateIndexer
