import Mathlib.Data.Prod.Lex
import RpcStateIndexer.Reasoning.Sorting
import RpcStateIndexer.Reasoning.Table

/-!
# The discovery tables

`discovery_ranges` keeps the last row of each range and scan, `holder_universe` aggregates the
observations of each holder and source.  Both are append-only; a read sees every row inserted
before it.
-/

namespace RpcStateIndexer

open Reasoning

inductive RangeStatus where
  | completed
  | failed
  deriving DecidableEq, Repr

/-- A row of `discovery_ranges`. -/
structure DiscoveryRangeRow where
  chainId : Nat
  tokenAddress : String
  topic0 : String
  rangeStartBlock : Nat
  rangeEndBlockExclusive : Nat
  scanId : Nat
  status : RangeStatus
  anchorBlock : Nat
  anchorHash : String
  logCount : Nat
  holderCount : Nat
  attemptCount : Nat
  endpointFingerprint : String
  errorClass : String
  errorMessage : String
  startedAt : Nat
  heartbeatAt : Nat
  finishedAt : Nat
  deriving DecidableEq

/-- The sort key of the table: a range of an event of a token, and the scan that covered it. -/
def DiscoveryRangeRow.key (row : DiscoveryRangeRow) : Nat × String × String × Nat × Nat × Nat :=
  (row.chainId, row.tokenAddress, row.topic0, row.rangeStartBlock, row.rangeEndBlockExclusive,
    row.scanId)

def DiscoveryRangeRow.Contains (row : DiscoveryRangeRow) (block : Nat) : Prop :=
  row.rangeStartBlock ≤ block ∧ block < row.rangeEndBlockExclusive

/-- A row of `holder_universe`. -/
structure HolderRow where
  chainId : Nat
  tokenAddress : String
  holderAddress : String
  source : String
  sourceDetail : String
  firstSeenBlock : Nat
  lastSeenBlock : Nat
  observations : Nat
  deriving DecidableEq

namespace HolderRow

def key (row : HolderRow) : Nat × String × String × String × String :=
  (row.chainId, row.tokenAddress, row.holderAddress, row.source, row.sourceDetail)

/-- The aggregate functions of the columns: `min`, `max` and `sum`. -/
def merge (a b : HolderRow) : HolderRow :=
  { a with
    firstSeenBlock := min a.firstSeenBlock b.firstSeenBlock
    lastSeenBlock := max a.lastSeenBlock b.lastSeenBlock
    observations := a.observations + b.observations }

@[simp] theorem key_merge (a b : HolderRow) : (a.merge b).key = a.key := rfl

@[simp] theorem firstSeenBlock_merge (a b : HolderRow) :
    (a.merge b).firstSeenBlock = min a.firstSeenBlock b.firstSeenBlock := rfl

end HolderRow

/-- What a scan extracted: the columns do not say, so it is kept beside each row it wrote. -/
structure ScanOrigin where
  eventName : String
  holderTopics : List Nat
  includeZero : Bool
  deriving DecidableEq

/-- Both tables in insertion order. -/
structure DiscoveryStore where
  ranges : List (DiscoveryRangeRow × ScanOrigin)
  holders : List HolderRow

namespace DiscoveryStore

def empty : DiscoveryStore := ⟨[], []⟩

def addRanges (store : DiscoveryStore) (rows : List DiscoveryRangeRow) (origin : ScanOrigin) :
    DiscoveryStore :=
  { store with ranges := store.ranges ++ rows.map fun row => (row, origin) }

def addHolders (store : DiscoveryStore) (rows : List HolderRow) : DiscoveryStore :=
  { store with holders := store.holders ++ rows }

@[simp] theorem addRanges_holders (store : DiscoveryStore) (rows : List DiscoveryRangeRow)
    (origin : ScanOrigin) : (store.addRanges rows origin).holders = store.holders := rfl

@[simp] theorem addHolders_ranges (store : DiscoveryStore) (rows : List HolderRow) :
    (store.addHolders rows).ranges = store.ranges := rfl

@[simp] theorem mem_addHolders {store : DiscoveryStore} {rows : List HolderRow} {row : HolderRow} :
    row ∈ (store.addHolders rows).holders ↔ row ∈ store.holders ∨ row ∈ rows := by
  simp [addHolders]

@[simp] theorem mem_addRanges {store : DiscoveryStore} {rows : List DiscoveryRangeRow}
    {origin : ScanOrigin} {x : DiscoveryRangeRow × ScanOrigin} :
    x ∈ (store.addRanges rows origin).ranges ↔
      x ∈ store.ranges ∨ x.1 ∈ rows ∧ x.2 = origin := by
  obtain ⟨row, origin'⟩ := x
  simp [addRanges, eq_comm]

/-- `completed_discovery_ranges`, with the origins of the rows. -/
def completedRows (store : DiscoveryStore) (chainId : Nat) (tokenAddress topic0 : String) :
    List (DiscoveryRangeRow × ScanOrigin) :=
  (final (fun x => x.1.key) store.ranges).filter fun x =>
    x.1.chainId = chainId && x.1.tokenAddress = tokenAddress && x.1.topic0 = topic0 &&
      x.1.status = .completed

def completedDiscoveryRanges (store : DiscoveryStore) (chainId : Nat)
    (tokenAddress topic0 : String) : List (Nat × Nat) :=
  sortBy (fun range => toLex range) ((store.completedRows chainId tokenAddress topic0).map
    fun x => (x.1.rangeStartBlock, x.1.rangeEndBlockExclusive))

/-- `holder_universe` once merged. -/
def holderUniverse (store : DiscoveryStore) : List HolderRow :=
  aggregate HolderRow.key HolderRow.merge store.holders

theorem mem_completedRows {store : DiscoveryStore} {chainId : Nat} {tokenAddress topic0 : String}
    {x : DiscoveryRangeRow × ScanOrigin}
    (h : x ∈ store.completedRows chainId tokenAddress topic0) :
    x ∈ store.ranges ∧ x.1.chainId = chainId ∧ x.1.tokenAddress = tokenAddress ∧
      x.1.topic0 = topic0 ∧ x.1.status = .completed := by
  obtain ⟨hfinal, hcols⟩ := List.mem_filter.mp h
  simp only [Bool.and_eq_true, decide_eq_true_eq] at hcols
  exact ⟨mem_of_mem_final hfinal, hcols.1.1.1, hcols.1.1.2, hcols.1.2, hcols.2⟩

/-- New rows show up, or hide old ones; nothing else becomes visible. -/
theorem mem_completedRows_addRanges {store : DiscoveryStore} {rows : List DiscoveryRangeRow}
    {origin : ScanOrigin} {chainId : Nat} {tokenAddress topic0 : String}
    {x : DiscoveryRangeRow × ScanOrigin}
    (h : x ∈ (store.addRanges rows origin).completedRows chainId tokenAddress topic0) :
    x ∈ store.completedRows chainId tokenAddress topic0 ∨ x.1 ∈ rows ∧ x.2 = origin := by
  obtain ⟨hfinal, hcols⟩ := List.mem_filter.mp h
  rcases mem_final_append.mp hfinal with hnew | ⟨hold, -⟩
  · obtain ⟨row, hrow, rfl⟩ := List.mem_map.mp (mem_of_mem_final hnew)
    exact .inr ⟨hrow, rfl⟩
  · exact .inl (List.mem_filter.mpr ⟨hold, hcols⟩)

/-- A completed range of the event that is visible holds the block. -/
def Shows (store : DiscoveryStore) (chainId : Nat) (tokenAddress topic0 : String) (block : Nat) :
    Prop :=
  ∃ x ∈ store.completedRows chainId tokenAddress topic0, x.1.Contains block

section Shows

variable {store : DiscoveryStore} {rows : List DiscoveryRangeRow} {chainId : Nat}
  {tokenAddress topic0 : String} {block : Nat}

/-- A completed row that is inserted with others like it is visible, or one with its key is. -/
theorem shows_addRanges (hall : ∀ row ∈ rows, row.status = .completed) (origin : ScanOrigin)
    {row : DiscoveryRangeRow} (hrow : row ∈ rows) (hchain : row.chainId = chainId)
    (htoken : row.tokenAddress = tokenAddress) (htopic : row.topic0 = topic0)
    (hin : row.Contains block) :
    (store.addRanges rows origin).Shows chainId tokenAddress topic0 block := by
  obtain ⟨y, hy, hkey⟩ : ∃ y ∈ final (fun x : DiscoveryRangeRow × ScanOrigin => x.1.key)
      (rows.map fun row => (row, origin)), y.1.key = row.key :=
    exists_final (List.mem_map.mpr ⟨row, hrow, rfl⟩)
  obtain ⟨new, hnew, rfl⟩ := List.mem_map.mp (mem_of_mem_final hy)
  simp only [DiscoveryRangeRow.key, Prod.mk.injEq] at hkey
  obtain ⟨hchain', htoken', htopic', hstart, hend, -⟩ := hkey
  refine ⟨(new, origin), List.mem_filter.mpr ⟨mem_final_append.mpr (.inl hy), ?_⟩, ?_⟩
  · simp [hchain', htoken', htopic', hchain, htoken, htopic, hall new hnew]
  · rw [DiscoveryRangeRow.Contains, hstart, hend]
    exact hin

/-- Completed rows hide a visible one only behind its own range. -/
theorem Shows.addRanges (h : store.Shows chainId tokenAddress topic0 block)
    (hall : ∀ row ∈ rows, row.status = .completed) (origin : ScanOrigin) :
    (store.addRanges rows origin).Shows chainId tokenAddress topic0 block := by
  obtain ⟨x, hx, hin⟩ := h
  obtain ⟨hfinal, hcols⟩ := List.mem_filter.mp hx
  by_cases hnew : ∃ row ∈ rows, row.key = x.1.key
  · obtain ⟨row, hrow, hkey⟩ := hnew
    obtain ⟨-, hchain, htoken, htopic, -⟩ := mem_completedRows hx
    simp only [DiscoveryRangeRow.key, Prod.mk.injEq] at hkey
    obtain ⟨hchain', htoken', htopic', hstart, hend, -⟩ := hkey
    refine shows_addRanges hall origin hrow (hchain'.trans hchain) (htoken'.trans htoken)
      (htopic'.trans htopic) ?_
    rw [DiscoveryRangeRow.Contains, hstart, hend]
    exact hin
  · refine ⟨x, List.mem_filter.mpr ⟨mem_final_append.mpr (.inr ⟨hfinal, ?_⟩), hcols⟩, hin⟩
    intro later hlater hkey
    obtain ⟨row, hrow, rfl⟩ := List.mem_map.mp hlater
    exact hnew ⟨row, hrow, hkey⟩

end Shows

/-- What a store shows the other one shows. -/
def ShownIn (store store' : DiscoveryStore) : Prop :=
  ∀ chainId tokenAddress topic0 block, store.Shows chainId tokenAddress topic0 block →
    store'.Shows chainId tokenAddress topic0 block

theorem ShownIn.refl (store : DiscoveryStore) : store.ShownIn store := fun _ _ _ _ h => h

theorem ShownIn.trans {store store' store'' : DiscoveryStore} (h : store.ShownIn store')
    (h' : store'.ShownIn store'') : store.ShownIn store'' :=
  fun chainId tokenAddress topic0 block hshows => h' _ _ _ _ (h chainId tokenAddress topic0 block hshows)

/-- The holder is on file for the token by the block. -/
def HasHolder (store : DiscoveryStore) (chainId : Nat) (tokenAddress holder : String)
    (block : Nat) : Prop :=
  ∃ row ∈ store.holderUniverse, row.chainId = chainId ∧ row.tokenAddress = tokenAddress ∧
    row.holderAddress = holder ∧ row.firstSeenBlock ≤ block

/-- One observation by the block puts the holder on file by the block. -/
theorem hasHolder_iff {store : DiscoveryStore} {chainId : Nat} {tokenAddress holder : String}
    {block : Nat} : store.HasHolder chainId tokenAddress holder block ↔
      ∃ row ∈ store.holders, row.chainId = chainId ∧ row.tokenAddress = tokenAddress ∧
        row.holderAddress = holder ∧ row.firstSeenBlock ≤ block := by
  have haggregate := exists_aggregate_le_iff HolderRow.key_merge HolderRow.firstSeenBlock_merge
    store.holders
  constructor
  · rintro ⟨row, hrow, rfl, rfl, rfl, hle⟩
    obtain ⟨r, hr, hkey, hle⟩ := (haggregate row.key block).mp ⟨row, hrow, rfl, hle⟩
    simp only [HolderRow.key, Prod.mk.injEq] at hkey
    exact ⟨r, hr, hkey.1, hkey.2.1, hkey.2.2.1, hle⟩
  · rintro ⟨r, hr, rfl, rfl, rfl, hle⟩
    obtain ⟨row, hrow, hkey, hle⟩ := (haggregate r.key block).mpr ⟨r, hr, rfl, hle⟩
    simp only [HolderRow.key, Prod.mk.injEq] at hkey
    exact ⟨row, hrow, hkey.1, hkey.2.1, hkey.2.2.1, hle⟩

theorem HasHolder.mono {store store' : DiscoveryStore} {chainId : Nat}
    {tokenAddress holder : String} {block : Nat}
    (h : store.HasHolder chainId tokenAddress holder block)
    (hsub : ∀ row ∈ store.holders, row ∈ store'.holders) :
    store'.HasHolder chainId tokenAddress holder block := by
  rw [hasHolder_iff] at h ⊢
  obtain ⟨row, hrow, hrest⟩ := h
  exact ⟨row, hsub row hrow, hrest⟩

end DiscoveryStore

end RpcStateIndexer
