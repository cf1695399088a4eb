import Mathlib.Data.Prod.Lex
import RpcStateIndexer.Discovery.Log
import RpcStateIndexer.Discovery.Store

/-!
# The sweep tables

`sweep_ranges` keeps the last row of each range of a wallet and topic position and each scan,
`wallet_interaction_logs` the last row of each log of a wallet and position.  Both are append-only.
-/

namespace RpcStateIndexer

open Reasoning

/-- A row of `sweep_ranges`. -/
structure SweepRangeRow where
  chainId : Nat
  walletAddress : String
  topicPosition : Nat
  rangeStartBlock : Nat
  rangeEndBlockExclusive : Nat
  scanId : Nat
  status : RangeStatus
  anchorBlock : Nat
  anchorHash : String
  logCount : Nat
  attemptCount : Nat
  endpointFingerprint : String
  errorClass : String
  errorMessage : String
  startedAt : Nat
  heartbeatAt : Nat
  finishedAt : Nat
  deriving DecidableEq

namespace SweepRangeRow

/-- The sort key of the table. -/
def key (row : SweepRangeRow) : Nat × String × Nat × Nat × Nat × Nat :=
  (row.chainId, row.walletAddress, row.topicPosition, row.rangeStartBlock,
    row.rangeEndBlockExclusive, row.scanId)

def Contains (row : SweepRangeRow) (block : Nat) : Prop :=
  row.rangeStartBlock ≤ block ∧ block < row.rangeEndBlockExclusive

/-- The range is one of the wallet at the position. -/
def IsOf (row : SweepRangeRow) (chainId : Nat) (walletAddress : String) (topicPosition : Nat) :
    Prop :=
  row.chainId = chainId ∧ row.walletAddress = walletAddress ∧ row.topicPosition = topicPosition

end SweepRangeRow

/-- A row of `wallet_interaction_logs`. -/
structure WalletInteractionRow where
  chainId : Nat
  walletAddress : String
  topicPosition : Nat
  contractAddress : String
  topic0 : String
  topicCount : Nat
  blockNumber : Nat
  blockHash : String
  transactionHash : String
  logIndex : Nat
  topics : List String
  observedAt : Nat
  deriving DecidableEq

namespace WalletInteractionRow

/-- The sort key of the table. -/
def key (row : WalletInteractionRow) :
    (Nat × String × Nat) × String × String × Nat × String × Nat :=
  ((row.chainId, row.walletAddress, row.topicPosition), row.contractAddress, row.topic0,
    row.blockNumber, row.transactionHash, row.logIndex)

/-- The row attributes the log to the wallet at the position. -/
structure Records (row : WalletInteractionRow) (chainId : Nat) (walletAddress : String)
    (topicPosition : Nat) (l : NormalizedLog) : Prop where
  chainId_eq : row.chainId = chainId
  walletAddress_eq : row.walletAddress = walletAddress
  topicPosition_eq : row.topicPosition = topicPosition
  contractAddress_eq : row.contractAddress = l.address
  topic0_eq : row.topic0 = l.topic0
  topicCount_eq : row.topicCount = l.topics.length
  blockNumber_eq : row.blockNumber = l.blockNumber
  blockHash_eq : row.blockHash = l.blockHash
  transactionHash_eq : row.transactionHash = l.transactionHash
  logIndex_eq : row.logIndex = l.logIndex
  topics_eq : row.topics = l.topics

end WalletInteractionRow

/-- Both tables in insertion order. -/
structure SweepStore where
  ranges : List SweepRangeRow
  logs : List WalletInteractionRow

namespace SweepStore

def empty : SweepStore := ⟨[], []⟩

def addRanges (store : SweepStore) (rows : List SweepRangeRow) : SweepStore :=
  { store with ranges := store.ranges ++ rows }

def addLogs (store : SweepStore) (rows : List WalletInteractionRow) : SweepStore :=
  { store with logs := store.logs ++ rows }

@[simp] theorem addRanges_ranges (store : SweepStore) (rows : List SweepRangeRow) :
    (store.addRanges rows).ranges = store.ranges ++ rows := rfl

@[simp] theorem addRanges_logs (store : SweepStore) (rows : List SweepRangeRow) :
    (store.addRanges rows).logs = store.logs := rfl

@[simp] theorem addLogs_ranges (store : SweepStore) (rows : List WalletInteractionRow) :
    (store.addLogs rows).ranges = store.ranges := rfl

@[simp] theorem addLogs_logs (store : SweepStore) (rows : List WalletInteractionRow) :
    (store.addLogs rows).logs = store.logs ++ rows := rfl

@[simp] theorem addLogs_nil (store : SweepStore) : store.addLogs [] = store := by
  rw [addLogs, List.append_nil]

/-- The completed rows of the wallet at the position, once merged. -/
def completedRows (store : SweepStore) (chainId : Nat) (walletAddress : String)
    (topicPosition : Nat) : List SweepRangeRow :=
  (final SweepRangeRow.key store.ranges).filter fun row =>
    row.chainId = chainId && row.walletAddress = walletAddress &&
      row.topicPosition = topicPosition && row.status = .completed

/-- `completed_sweep_ranges` -/
def completedSweepRanges (store : SweepStore) (chainId : Nat) (walletAddress : String)
    (topicPosition : Nat) : List (Nat × Nat) :=
  sortBy (fun range => toLex range) ((store.completedRows chainId walletAddress topicPosition).map
    fun row => (row.rangeStartBlock, row.rangeEndBlockExclusive))

/-- `wallet_interaction_logs` once merged. -/
def walletInteractionLogs (store : SweepStore) : List WalletInteractionRow :=
  final WalletInteractionRow.key store.logs

theorem mem_completedRows {store : SweepStore} {chainId : Nat} {walletAddress : String}
    {topicPosition : Nat} {row : SweepRangeRow} :
    row ∈ store.completedRows chainId walletAddress topicPosition ↔
      row ∈ final SweepRangeRow.key store.ranges ∧ row.IsOf chainId walletAddress topicPosition ∧
        row.status = .completed := by
  rw [completedRows, List.mem_filter]
  simp only [Bool.and_eq_true, decide_eq_true_eq, SweepRangeRow.IsOf, and_assoc]

theorem mem_completedSweepRanges {store : SweepStore} {chainId : Nat} {walletAddress : String}
    {topicPosition : Nat} {range : Nat × Nat} :
    range ∈ store.completedSweepRanges chainId walletAddress topicPosition ↔
      ∃ row ∈ store.completedRows chainId walletAddress topicPosition,
        (row.rangeStartBlock, row.rangeEndBlockExclusive) = range := by
  rw [completedSweepRanges, mem_sortBy, List.mem_map]

/-- A completed range, as a reader of the table sees it, holds the block. -/
def Covers (store : SweepStore) (chainId : Nat) (walletAddress : String) (topicPosition : Nat)
    (block : Nat) : Prop :=
  ∃ range ∈ store.completedSweepRanges chainId walletAddress topicPosition,
    range.1 ≤ block ∧ block < range.2

theorem covers_iff {store : SweepStore} {chainId : Nat} {walletAddress : String}
    {topicPosition block : Nat} : store.Covers chainId walletAddress topicPosition block ↔
      ∃ row ∈ store.completedRows chainId walletAddress topicPosition, row.Contains block := by
  constructor
  · rintro ⟨range, hrange, hblock⟩
    obtain ⟨row, hrow, rfl⟩ := mem_completedSweepRanges.mp hrange
    exact ⟨row, hrow, hblock⟩
  · rintro ⟨row, hrow, hblock⟩
    exact ⟨_, mem_completedSweepRanges.mpr ⟨row, hrow, rfl⟩, hblock⟩

/-- The scans of the table are told apart by their identifiers: rows of one scan share a status. -/
def ScansAgree (store : SweepStore) : Prop :=
  ∀ row ∈ store.ranges, ∀ other ∈ store.ranges, row.scanId = other.scanId →
    row.status = other.status

/-- Then no completed row is hidden by a failed one. -/
theorem covers_of_mem_ranges {store : SweepStore} (h : store.ScansAgree) {row : SweepRangeRow}
    (hrow : row ∈ store.ranges) (hstatus : row.status = .completed) {block : Nat}
    (hblock : row.Contains block) :
    store.Covers row.chainId row.walletAddress row.topicPosition block := by
  obtain ⟨last, hlast, hkey⟩ : ∃ last ∈ final SweepRangeRow.key store.ranges, last.key = row.key :=
    exists_final hrow
  simp only [SweepRangeRow.key, Prod.mk.injEq] at hkey
  obtain ⟨hchain, hwallet, hposition, hstart, hend, hscan⟩ := hkey
  have hcompleted : last.status = .completed :=
    (h last (mem_of_mem_final hlast) row hrow hscan).trans hstatus
  refine covers_iff.mpr ⟨last, mem_completedRows.mpr ⟨hlast, ⟨hchain, hwallet, hposition⟩,
    hcompleted⟩, ?_⟩
  rw [SweepRangeRow.Contains, hstart, hend]
  exact hblock

/-- The log is on file, attributed to the wallet at the position, with all its columns; and the
merged table shows a row of its key. -/
def Attributes (store : SweepStore) (chainId : Nat) (walletAddress : String) (topicPosition : Nat)
    (l : NormalizedLog) : Prop :=
  ∃ row ∈ store.logs, row.Records chainId walletAddress topicPosition l ∧
    ∃ shown ∈ store.walletInteractionLogs, shown.key = row.key

theorem Attributes.of_mem {store : SweepStore} {chainId : Nat} {walletAddress : String}
    {topicPosition : Nat} {l : NormalizedLog} {row : WalletInteractionRow} (hrow : row ∈ store.logs)
    (h : row.Records chainId walletAddress topicPosition l) :
    store.Attributes chainId walletAddress topicPosition l :=
  ⟨row, hrow, h, exists_final hrow⟩

theorem Attributes.mono {store store' : SweepStore} {chainId : Nat} {walletAddress : String}
    {topicPosition : Nat} {l : NormalizedLog}
    (h : store.Attributes chainId walletAddress topicPosition l)
    (hsub : store.logs ⊆ store'.logs) :
    store'.Attributes chainId walletAddress topicPosition l := by
  obtain ⟨row, hrow, hrecords, -⟩ := h
  exact .of_mem (hsub hrow) hrecords

end SweepStore

end RpcStateIndexer
