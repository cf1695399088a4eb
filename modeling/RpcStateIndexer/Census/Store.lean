import RpcStateIndexer.Census.Results
import RpcStateIndexer.Reasoning.Table

/-!
# The census tables

Every table is append-only and kept in insertion order.  A replacing table is read through `final`,
which keeps the last row of a sort key: inserts are synchronous, so a later insert has the higher
version.  The rows of an attempt carry its identifier in every table.
-/

namespace RpcStateIndexer

open Reasoning

/-- A UUID, by its canonical text. -/
abbrev Uuid := String

inductive TargetKind where
  | token
  | pool
  deriving DecidableEq, Repr

/-- One target of a job on one date. -/
structure TargetKey where
  chainId : Nat
  jobName : String
  targetKind : TargetKind
  targetAddress : String
  snapshotDate : Nat
  deriving DecidableEq

/-- Sort-key prefix identifying one attempt's rows. -/
structure AttemptScope where
  chainId : Nat
  jobName : String
  targetAddress : String
  snapshotDate : Nat
  attemptId : Uuid
  deriving DecidableEq

/-! ## Rows -/

structure ConfigRegistryRow where
  chainId : Nat
  jobName : String
  targetKind : TargetKind
  targetAddress : String
  cadence : String
  integrityMode : IntegrityMode
  coverageStart : Option Nat
  coverageEnd : Option Nat
  configHash : String
  canonicalConfigJson : String
  enabled : Bool
  insertVersion : Nat
  deriving DecidableEq

/-- `finalizedAtResolution` as the writer's flag; `resolvedAt` and `resolutionId` order the rows. -/
structure DayAnchorRow where
  chainId : Nat
  snapshotDate : Nat
  resolutionId : Uuid
  blockNumber : Nat
  blockHash : String
  parentHash : String
  blockTimestamp : Nat
  nextBlockNumber : Nat
  nextBlockHash : String
  nextBlockTimestamp : Nat
  finalizedAtResolution : Bool
  resolvedAt : Nat
  deriving DecidableEq

inductive AttemptStatus where
  | started
  | verified
  | failed
  deriving DecidableEq, Repr

/-- The columns of an attempt that its state rows share: `_attempt_base`. -/
structure AttemptBase where
  chainId : Nat
  jobName : String
  targetKind : TargetKind
  targetAddress : String
  snapshotDate : Nat
  attemptId : Uuid
  integrityMode : IntegrityMode
  configHash : String
  anchorBlock : Nat
  anchorHash : String
  executorKind : ExecutorKind
  universeHash : String
  universeSize : Nat
  deriving DecidableEq

/-- A row of `census_attempts`; the defaults are those of `_attempt_base`. -/
structure AttemptRow extends AttemptBase where
  status : AttemptStatus
  blockReferenceKind : String := "pending"
  batchesTotal : Nat := 0
  batchesVerified : Nat := 0
  observationsOk : Nat := 0
  observationsFailed : Nat := 0
  resultDigest : Option String := none
  deriving DecidableEq

structure UniverseMemberRow where
  scope : AttemptScope
  targetKind : TargetKind
  holderAddress : String
  memberSources : List String
  memberOrdinal : Nat
  deriving DecidableEq

structure ErrorRow where
  scope : AttemptScope
  targetKind : TargetKind
  subjectAddress : String
  callKind : String
  batchSequence : Nat
  errorClass : ObservationStatus
  errorMessage : String
  deriving DecidableEq

/-- An observation as it is stored: whose it is, what was observed, and in which batch. -/
structure Stored (α : Type) where
  scope : AttemptScope
  row : α
  probeSource : String
  deriving DecidableEq

structure PublicationRow where
  chainId : Nat
  jobName : String
  targetKind : TargetKind
  targetAddress : String
  snapshotDate : Nat
  publicationId : Uuid
  attemptId : Uuid
  executorKind : String
  blockReferenceKind : String
  integrityMode : IntegrityMode
  configHash : String
  anchorBlock : Nat
  anchorHash : String
  universeHash : String
  universeSize : Nat
  resultDigest : String
  observedSumRaw : Option Int
  referenceSupplyRaw : Option Int
  batchesTotal : Nat
  observationsTotal : Nat
  providerGroups : List String
  checksPassed : List String
  publishedAt : Nat
  deriving DecidableEq

def ConfigRegistryRow.key (r : ConfigRegistryRow) : Nat × String × TargetKind × String :=
  (r.chainId, r.jobName, r.targetKind, r.targetAddress)

def AttemptBase.target (r : AttemptBase) : TargetKey :=
  ⟨r.chainId, r.jobName, r.targetKind, r.targetAddress, r.snapshotDate⟩

def AttemptBase.scope (r : AttemptBase) : AttemptScope :=
  ⟨r.chainId, r.jobName, r.targetAddress, r.snapshotDate, r.attemptId⟩

def PublicationRow.target (p : PublicationRow) : TargetKey :=
  ⟨p.chainId, p.jobName, p.targetKind, p.targetAddress, p.snapshotDate⟩

/-! ## Sort keys of the replacing tables -/

def AttemptRow.key (r : AttemptRow) : TargetKey × Uuid := (r.target, r.attemptId)

def UniverseMemberRow.key (r : UniverseMemberRow) : AttemptScope × TargetKind × String :=
  (r.scope, r.targetKind, r.holderAddress)

def ErrorRow.key (r : ErrorRow) : AttemptScope × TargetKind × String × String :=
  (r.scope, r.targetKind, r.subjectAddress, r.callKind)

/-- The sort key of an observation: the attempt, and the column that tells its rows apart. -/
def Stored.key {α κ : Type} (column : α → κ) (r : Stored α) : AttemptScope × κ :=
  (r.scope, column r.row)

/-- A concentrated-liquidity state has no column of its own: an attempt has one. -/
def PoolClStateRow.column (_ : PoolClStateRow) : Unit := ()

/-! ## The store -/

structure CensusStore where
  configRegistry : List ConfigRegistryRow := []
  dayAnchors : List DayAnchorRow := []
  attempts : List AttemptRow := []
  universeMembers : List UniverseMemberRow := []
  errors : List ErrorRow := []
  tokenBalances : List (Stored BalanceRow) := []
  tokenScalars : List (Stored ScalarRow) := []
  poolBalances : List (Stored PoolBalanceRow) := []
  poolClState : List (Stored PoolClStateRow) := []
  poolTicks : List (Stored PoolTickRow) := []
  publications : List PublicationRow := []
  deriving DecidableEq

/-- One insert of an attempt. -/
inductive CensusWrite where
  | attemptState (row : AttemptRow)
  | universeMembers (rows : List UniverseMemberRow)
  | terminalErrors (rows : List ErrorRow)
  | tokenBalances (rows : List (Stored BalanceRow))
  | tokenScalars (rows : List (Stored ScalarRow))
  | poolBalances (rows : List (Stored PoolBalanceRow))
  | poolClState (rows : List (Stored PoolClStateRow))
  | poolTicks (rows : List (Stored PoolTickRow))
  | publication (row : PublicationRow)
  deriving DecidableEq

namespace CensusStore

def write (s : CensusStore) : CensusWrite → CensusStore
  | .attemptState row => { s with attempts := s.attempts ++ [row] }
  | .universeMembers rows => { s with universeMembers := s.universeMembers ++ rows }
  | .terminalErrors rows => { s with errors := s.errors ++ rows }
  | .tokenBalances rows => { s with tokenBalances := s.tokenBalances ++ rows }
  | .tokenScalars rows => { s with tokenScalars := s.tokenScalars ++ rows }
  | .poolBalances rows => { s with poolBalances := s.poolBalances ++ rows }
  | .poolClState rows => { s with poolClState := s.poolClState ++ rows }
  | .poolTicks rows => { s with poolTicks := s.poolTicks ++ rows }
  | .publication row => { s with publications := s.publications ++ [row] }

/-! ## Queries scoped to one attempt -/

def finalOf {α κ : Type} [DecidableEq κ] (column : α → κ) (rows : List (Stored α)) :
    List (Stored α) := final (Stored.key column) rows

/-- The observations of an attempt in a replacing table. -/
def observationsOf {α κ : Type} [DecidableEq κ] (column : α → κ) (rows : List (Stored α))
    (scope : AttemptScope) : List α :=
  ((finalOf column rows).filter fun r => r.scope = scope).map Stored.row

def terminalErrorCount (s : CensusStore) (scope : AttemptScope) : Nat :=
  ((final ErrorRow.key s.errors).filter fun r => r.scope = scope).length

def universeRows (s : CensusStore) (scope : AttemptScope) : List (String × List String) :=
  sortBy Prod.fst (((final UniverseMemberRow.key s.universeMembers).filter fun r =>
    r.scope = scope).map fun r => (r.holderAddress, r.memberSources))

def balanceRows (s : CensusStore) (scope : AttemptScope) : List BalanceRow :=
  sortBy BalanceRow.holderAddress (observationsOf BalanceRow.holderAddress s.tokenBalances scope)

def scalarRows (s : CensusStore) (scope : AttemptScope) : List ScalarRow :=
  sortBy ScalarRow.scalarName (observationsOf ScalarRow.scalarName s.tokenScalars scope)

def poolBalanceRows (s : CensusStore) (scope : AttemptScope) : List PoolBalanceRow :=
  sortBy PoolBalanceRow.tokenAddress
    (observationsOf PoolBalanceRow.tokenAddress s.poolBalances scope)

def clStateRows (s : CensusStore) (scope : AttemptScope) : List PoolClStateRow :=
  (observationsOf PoolClStateRow.column s.poolClState scope).take 1

def tickRows (s : CensusStore) (scope : AttemptScope) : List PoolTickRow :=
  sortBy PoolTickRow.tick (observationsOf PoolTickRow.tick s.poolTicks scope)

end CensusStore

end RpcStateIndexer
