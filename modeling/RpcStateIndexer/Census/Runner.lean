import RpcStateIndexer.Census.Readback
import RpcStateIndexer.Config.Catalog
import RpcStateIndexer.Reasoning.Program

/-!
# The census runner

`CensusRunner` as programs over the store.  What the collectors, the code verifier and the universe
resolver answered is an argument: they do not touch the tables of an attempt.  Persisting and
publishing are one program, which the coroutine hands to a worker thread.
-/

namespace RpcStateIndexer

open Reasoning Program

/-- An exception of the environment, by its class and text. -/
structure Failure where
  className : String
  message : String
  deriving DecidableEq

inductive CensusQuery where
  | terminalErrors
  | universeRows
  | balanceRows
  | scalarRows
  | poolBalanceRows
  | clStateRows
  | tickRows
  deriving DecidableEq

abbrev CensusQuery.Rows : CensusQuery → Type
  | .terminalErrors => Nat
  | .universeRows => List (String × List String)
  | .balanceRows => List BalanceRow
  | .scalarRows => List ScalarRow
  | .poolBalanceRows => List PoolBalanceRow
  | .clStateRows => List PoolClStateRow
  | .tickRows => List PoolTickRow

def CensusStore.select (s : CensusStore) (scope : AttemptScope) : (q : CensusQuery) → q.Rows
  | .terminalErrors => s.terminalErrorCount scope
  | .universeRows => s.universeRows scope
  | .balanceRows => s.balanceRows scope
  | .scalarRows => s.scalarRows scope
  | .poolBalanceRows => s.poolBalanceRows scope
  | .clStateRows => s.clStateRows scope
  | .tickRows => s.tickRows scope

/-- A read is `consistent` when it waits for every replica. -/
inductive CensusOp where
  | write (w : CensusWrite)
  | select (q : CensusQuery) (scope : AttemptScope) (consistent : Bool)
  | uuid4
  | now

abbrev CensusAns : CensusOp → Type
  | .write _ => Except Failure Unit
  | .select q _ _ => Except Failure q.Rows
  | .uuid4 => Uuid
  | .now => Nat

inductive CensusException where
  | environment (f : Failure)
  | readback (e : ReadbackException)
  | digest (e : DigestException)
  | blocked (checks : List String)
  | keyError (key : String)
  | indexError
  | valueError (message : String)
  | cancelled

abbrev CensusProgram (α : Type) : Type := Program CensusOp CensusAns CensusException α

def insert (w : CensusWrite) : CensusProgram Unit :=
  .call (.write w) fun
    | .ok _ => .ret ()
    | .error f => .raise (.environment f)

def query (q : CensusQuery) (scope : AttemptScope) (consistent : Bool) : CensusProgram q.Rows :=
  .call (.select q scope consistent) fun
    | .ok rows => .ret rows
    | .error f => .raise (.environment f)

/-! ## Read-backs -/

def readbackUniverseDigest (scope : AttemptScope) (consistent : Bool) : CensusProgram String := do
  let rows ← query .universeRows scope consistent
  ofExcept ((universeDigestOf rows).mapError .readback)

def readbackTokenDigest (scope : AttemptScope) (consistent : Bool) : CensusProgram String := do
  let balances ← query .balanceRows scope consistent
  let scalars ← query .scalarRows scope consistent
  ofExcept ((tokenDigestOf balances scalars).mapError .readback)

def readbackPoolDigest (scope : AttemptScope) (consistent : Bool) : CensusProgram String := do
  let rows ← query .poolBalanceRows scope consistent
  ofExcept ((poolDigestOf rows).mapError .readback)

def readbackClDigest (scope : AttemptScope) (consistent : Bool) : CensusProgram String := do
  let states ← query .clStateRows scope consistent
  if states.isEmpty then throw (.readback (.noClState scope.attemptId))
  let ticks ← query .tickRows scope consistent
  ofExcept ((clDigestOf scope states ticks).mapError .readback)

/-! ## Attempts -/

inductive CensusTarget where
  | token (token : TokenConfig)
  | pool (pool : PoolConfig)

/-- `targetConfigHash` is the catalog's `target_config_hash`. -/
structure CensusRunner where
  chain : ChainConfig
  targetConfigHash : JobConfig → CensusTarget → String

/-- A frozen universe without members; every pool attempt has it. -/
def emptyUniverse (universeHash : String) : FrozenUniverse := ⟨[], [], universeHash⟩

def AttemptBase.started (base : AttemptBase) : AttemptRow := { base with status := .started }

def AttemptBase.failed (base : AttemptBase) : AttemptRow := { base with status := .failed }

/-- What the collector of a target returned. -/
inductive CollectionResult where
  | token (r : TokenCollectionResult)
  | pool (r : PoolCollectionResult)
  | poolCl (r : PoolClCollectionResult)

namespace CollectionResult

def outcome : CollectionResult → CollectionOutcome
  | .token r => r.toCollectionOutcome
  | .pool r => r.toCollectionOutcome
  | .poolCl r => r.toCollectionOutcome

def successfulCalls : CollectionResult → Nat
  | .token r => r.successfulCalls
  | .pool r => r.successfulCalls
  | .poolCl r => r.successfulCalls

def resultDigest : CollectionResult → Except DigestException String
  | .token r => r.resultDigest
  | .pool r => r.resultDigest
  | .poolCl r => r.resultDigest

end CollectionResult

/-! ## Publication checks -/

/-- One check of the gate, under the name it fails by and the name it passes by. -/
structure GateCheck where
  passed : Bool
  failName : String
  passName : String

def failedNames (checks : List GateCheck) : List String :=
  (checks.filter fun check => !check.passed).map GateCheck.failName

def passedNames (checks : List GateCheck) : List String :=
  (checks.filter fun check => check.passed).map GateCheck.passName

def gateChecks (outcome : CollectionOutcome) (errorCount : Nat) (observationsMatch : Bool) :
    List GateCheck :=
  [⟨errorCount = 0, "terminal_errors_present", "zero_terminal_errors"⟩,
    ⟨outcome.batches.all fun batch => batch.evidence.verified, "unverified_batch",
      "all_batches_verified"⟩] ++
  outcome.integrityChecks.map (fun check => ⟨check.passed, check.check, check.check⟩) ++
  [⟨observationsMatch, "observation_readback_digest", "observation_readback_digest"⟩]

def universeCheck (universeMatches : Bool) : GateCheck :=
  ⟨universeMatches, "universe_readback_digest", "universe_readback_digest"⟩

/-- The terminal errors of the attempt, re-read with consistency unless they are as many as the
collector reported. -/
def terminalErrorCount (scope : AttemptScope) (expected : Nat) : CensusProgram Nat := do
  let count ← query .terminalErrors scope false
  if count = expected then return count
  query .terminalErrors scope true

def publicationChecks (scope : AttemptScope) (frozen : FrozenUniverse) (result : CollectionResult)
    (resultDigest readback : String) : CensusProgram (List String) := do
  let errorCount ← terminalErrorCount scope result.outcome.errors.length
  let checks := gateChecks result.outcome errorCount (readback = resultDigest)
  let checks ← match result with
    | .token _ => do
      let digest ← verifiedReadback (readbackUniverseDigest scope) frozen.universeHash
      pure (checks ++ [universeCheck (digest = frozen.universeHash)])
    | _ => pure checks
  if failedNames checks ≠ [] then throw (.blocked (failedNames checks))
  if !result.outcome.verified then throw (.blocked ["collector_not_verified"])
  return "historical_code_verified" :: passedNames checks

/-! ## The rows of an attempt -/

/-- Observation rows per synchronous insert. -/
def insertChunkRows : Nat := 200000

/-- `rows[start : start + INSERT_CHUNK_ROWS]` for each start. -/
def chunks {α : Type} (rows : List α) : List (List α) :=
  (List.range ((rows.length + insertChunkRows - 1) / insertChunkRows)).map fun i =>
    (rows.drop (i * insertChunkRows)).take insertChunkRows

def insertChunked {α : Type} (table : List α → CensusWrite) (rows : List α) : CensusProgram Unit :=
  (chunks rows).forM fun chunk => insert (table chunk)

/-- The executor of the batch an observation came in. -/
def probeSource (outcome : CollectionOutcome) (batchSequence : Nat) :
    Except CensusException String :=
  match outcome.batches[batchSequence]? with
  | some batch => .ok batch.evidence.executorKind.value
  | none => .error .indexError

def storedRow {α : Type} (scope : AttemptScope) (outcome : CollectionOutcome)
    (batchSequence : α → Nat) (row : α) : Except CensusException (Stored α) := do
  let source ← probeSource outcome (batchSequence row)
  return ⟨scope, row, source⟩

namespace CensusRunner

def scopeOf (runner : CensusRunner) (job : JobConfig) (targetAddress : String)
    (snapshotDate : Nat) (attemptId : Uuid) : AttemptScope :=
  ⟨runner.chain.chainId, job.name, targetAddress, snapshotDate, attemptId⟩

def universeMemberRows (scope : AttemptScope) (frozen : FrozenUniverse) :
    Except CensusException (List UniverseMemberRow) :=
  frozen.addresses.zipIdx.mapM fun (holder, ordinal) =>
    match frozen.sources.lookup holder with
    | some sources => .ok ⟨scope, .token, holder, sources, ordinal⟩
    | none => .error (.keyError holder)

def persistUniverse (scope : AttemptScope) (frozen : FrozenUniverse) : CensusProgram Unit := do
  let rows ← ofExcept (universeMemberRows scope frozen)
  if rows ≠ [] then insert (.universeMembers rows)

def errorRows (scope : AttemptScope) (targetKind : TargetKind) (errors : List CollectionError) :
    List ErrorRow :=
  errors.map fun error =>
    { scope, targetKind
      subjectAddress := error.subjectAddress
      callKind := error.callKind
      batchSequence := error.batchSequence
      errorClass := error.status
      errorMessage := slice error.message 0 4096 }

def insertErrors (rows : List ErrorRow) : CensusProgram Unit :=
  if rows ≠ [] then insert (.terminalErrors rows) else pure ()

/-- `scalars_by_batch`: the scalars of each batch, in the order the batches are first named. -/
def scalarGroups (r : TokenCollectionResult) (scalars : List (Stored ScalarRow)) :
    List (List (Stored ScalarRow)) :=
  (r.scalars.map ScalarRow.batchSequence).eraseDups.map fun sequence =>
    scalars.filter fun row => row.row.batchSequence = sequence

def persistTokenResult (scope : AttemptScope) (r : TokenCollectionResult) :
    CensusProgram Unit := do
  let balances ← ofExcept
    (r.balances.mapM (storedRow scope r.toCollectionOutcome BalanceRow.batchSequence))
  insertChunked .tokenBalances balances
  let scalars ← ofExcept
    (r.scalars.mapM (storedRow scope r.toCollectionOutcome ScalarRow.batchSequence))
  (scalarGroups r scalars).forM fun group => insert (.tokenScalars group)
  insertErrors (errorRows scope .token r.errors)

/-- The stored row carries the address of the configured pool. -/
def persistPoolResult (scope : AttemptScope) (r : PoolCollectionResult) : CensusProgram Unit := do
  let balances ← ofExcept
    ((r.balances.map fun row => { row with poolAddress := scope.targetAddress }).mapM
      (storedRow scope r.toCollectionOutcome PoolBalanceRow.batchSequence))
  insertChunked .poolBalances balances
  insertErrors (errorRows scope .pool r.errors)

def persistPoolClResult (scope : AttemptScope) (r : PoolClCollectionResult) :
    CensusProgram Unit := do
  let state ← ofExcept (storedRow scope r.toCollectionOutcome PoolClStateRow.batchSequence
    { r.state with poolAddress := scope.targetAddress })
  insert (.poolClState [state])
  let ticks ← ofExcept
    ((r.ticks.map fun row => { row with poolAddress := scope.targetAddress }).mapM
      (storedRow scope r.toCollectionOutcome PoolTickRow.batchSequence))
  insertChunked .poolTicks ticks
  insertErrors (errorRows scope .pool r.errors)

/-! ## Publishing -/

/-- `_publication_context`: executors, block references and provider groups of the batches. -/
def executorKinds (batches : List CollectionBatchEvidence) : String :=
  "+".intercalate (sortedSet (batches.map fun batch => batch.evidence.executorKind.value))

def referenceKinds (batches : List CollectionBatchEvidence) : String :=
  "+".intercalate (sortedSet (batches.map fun batch => batch.evidence.blockReferenceKind))

def providers (batches : List CollectionBatchEvidence) : List String :=
  sortedSet (batches.flatMap fun batch => batch.evidence.providerGroups)

def verifiedBatches (batches : List CollectionBatchEvidence) : Nat :=
  batches.countP fun batch => batch.evidence.verified

/-- The attempt's state once it is verified. -/
def verifiedState (base : AttemptBase) (result : CollectionResult) (resultDigest : String) :
    AttemptRow :=
  { base with
    status := .verified
    blockReferenceKind := referenceKinds result.outcome.batches
    batchesTotal := result.outcome.batches.length
    batchesVerified := verifiedBatches result.outcome.batches
    observationsOk := result.successfulCalls
    observationsFailed := result.outcome.errors.length
    resultDigest := some resultDigest }

/-- The columns of a publication that the target's kind decides. -/
structure PublishedTarget where
  targetKind : TargetKind
  targetAddress : String
  universeSize : Nat
  observedSumRaw : Option Int
  referenceSupplyRaw : Option Int

def publicationRow (runner : CensusRunner) (base : AttemptBase) (attemptId : Uuid)
    (job : JobConfig) (target : PublishedTarget) (snapshotDate : Nat) (frozen : FrozenUniverse)
    (result : CollectionResult) (resultDigest : String) (checks : List String)
    (publicationId : Uuid) (publishedAt : Nat) : PublicationRow where
  chainId := runner.chain.chainId
  jobName := job.name
  targetKind := target.targetKind
  targetAddress := target.targetAddress
  snapshotDate := snapshotDate
  publicationId := publicationId
  attemptId := attemptId
  executorKind := executorKinds result.outcome.batches
  blockReferenceKind := referenceKinds result.outcome.batches
  integrityMode := job.integrityMode
  configHash := base.configHash
  anchorBlock := base.anchorBlock
  anchorHash := base.anchorHash
  universeHash := frozen.universeHash
  universeSize := target.universeSize
  resultDigest := resultDigest
  observedSumRaw := target.observedSumRaw
  referenceSupplyRaw := target.referenceSupplyRaw
  batchesTotal := result.outcome.batches.length
  observationsTotal := result.successfulCalls
  providerGroups := providers result.outcome.batches
  checksPassed := checks
  publishedAt := publishedAt

/-- `scalar_values.get(name)`: the last scalar of a name counts. -/
def scalarValue (scalars : List ScalarRow) (name : String) : Option Int :=
  (scalars.reverse.find? fun row => row.scalarName = name).map ScalarRow.scalarRaw

/-- The observed sum and the supply it is compared with. -/
def observedSupply (job : JobConfig) (r : TokenCollectionResult) :
    Except CensusException (Int × Option Int) := do
  let supply ← if job.integrityMode = .scaledFullSupply then
      if r.balances.any fun row => row.scaledBalanceRaw.isNone then
        .error (.blocked ["scaled_balance_missing"])
      else
        .ok ((r.balances.filterMap BalanceRow.scaledBalanceRaw).sum,
          scalarValue r.scalars "scaledTotalSupply")
    else .ok ((r.balances.map BalanceRow.balanceRaw).sum, scalarValue r.scalars "totalSupply")
  check (supply.1 ≤ uint256Max) (.blocked ["observed_sum_overflow"])
  return supply

/-- The verified state, and then the publication that depends on it. -/
def appendVerified (runner : CensusRunner) (base : AttemptBase) (attemptId : Uuid)
    (job : JobConfig) (target : PublishedTarget) (snapshotDate : Nat) (frozen : FrozenUniverse)
    (result : CollectionResult) (resultDigest : String) (checks : List String) :
    CensusProgram Unit := do
  let finished ← perform .now
  insert (.attemptState (verifiedState base result resultDigest))
  let publicationId ← perform .uuid4
  insert (.publication (runner.publicationRow base attemptId job target snapshotDate frozen result
    resultDigest checks publicationId finished))

def publishToken (runner : CensusRunner) (base : AttemptBase) (attemptId : Uuid)
    (job : JobConfig) (token : TokenConfig) (snapshotDate : Nat) (frozen : FrozenUniverse)
    (r : TokenCollectionResult) : CensusProgram Unit := do
  let resultDigest ← ofExcept (r.resultDigest.mapError .digest)
  let readback ← verifiedReadback (readbackTokenDigest base.scope) resultDigest
  let checks ← publicationChecks base.scope frozen (.token r) resultDigest readback
  let supply ← ofExcept (observedSupply job r)
  runner.appendVerified base attemptId job ⟨.token, token.address, frozen.size, supply.1, supply.2⟩
    snapshotDate frozen (.token r) resultDigest checks

/-- What the two pool publications share; they read different tables back. -/
def publishPoolResult (runner : CensusRunner) (base : AttemptBase) (attemptId : Uuid)
    (job : JobConfig) (pool : PoolConfig) (snapshotDate : Nat) (frozen : FrozenUniverse)
    (result : CollectionResult) (read : Bool → CensusProgram String) : CensusProgram Unit := do
  let resultDigest ← ofExcept (result.resultDigest.mapError .digest)
  let readback ← verifiedReadback read resultDigest
  let checks ← publicationChecks base.scope frozen result resultDigest readback
  runner.appendVerified base attemptId job ⟨.pool, pool.address, 0, none, none⟩ snapshotDate frozen
    result resultDigest checks

def publishPool (runner : CensusRunner) (base : AttemptBase) (attemptId : Uuid) (job : JobConfig)
    (pool : PoolConfig) (snapshotDate : Nat) (frozen : FrozenUniverse)
    (r : PoolCollectionResult) : CensusProgram Unit :=
  runner.publishPoolResult base attemptId job pool snapshotDate frozen (.pool r)
    (readbackPoolDigest base.scope)

def publishPoolCl (runner : CensusRunner) (base : AttemptBase) (attemptId : Uuid) (job : JobConfig)
    (pool : PoolConfig) (snapshotDate : Nat) (frozen : FrozenUniverse)
    (r : PoolClCollectionResult) : CensusProgram Unit :=
  runner.publishPoolResult base attemptId job pool snapshotDate frozen (.poolCl r)
    (readbackClDigest base.scope)

/-! ## The worker's part of an attempt -/

def persistAndPublishToken (runner : CensusRunner) (base : AttemptBase) (attemptId : Uuid)
    (job : JobConfig) (token : TokenConfig) (snapshotDate : Nat) (frozen : FrozenUniverse)
    (r : TokenCollectionResult) : CensusProgram Unit := do
  let scope := runner.scopeOf job token.address snapshotDate attemptId
  persistUniverse scope frozen
  persistTokenResult scope r
  runner.publishToken base attemptId job token snapshotDate frozen r

def persistAndPublishPool (runner : CensusRunner) (base : AttemptBase) (attemptId : Uuid)
    (job : JobConfig) (pool : PoolConfig) (snapshotDate : Nat) (frozen : FrozenUniverse)
    (r : PoolCollectionResult) : CensusProgram Unit := do
  persistPoolResult (runner.scopeOf job pool.address snapshotDate attemptId) r
  runner.publishPool base attemptId job pool snapshotDate frozen r

def persistAndPublishPoolCl (runner : CensusRunner) (base : AttemptBase) (attemptId : Uuid)
    (job : JobConfig) (pool : PoolConfig) (snapshotDate : Nat) (frozen : FrozenUniverse)
    (r : PoolClCollectionResult) : CensusProgram Unit := do
  persistPoolClResult (runner.scopeOf job pool.address snapshotDate attemptId) r
  runner.publishPoolCl base attemptId job pool snapshotDate frozen r

/-! ## Running an attempt -/

def executorKindForAnchor (runner : CensusRunner) (anchor : BlockRef) : ExecutorKind :=
  if runner.chain.multicall3.deploymentBlock ≤ anchor.number then .multicall3
  else .legacyRpcBatch

def attemptBase (runner : CensusRunner) (attemptId : Uuid) (job : JobConfig)
    (targetKind : TargetKind) (targetAddress : String) (snapshotDate : Nat) (anchor : BlockRef)
    (configHash : String) (frozen : FrozenUniverse) : AttemptBase where
  chainId := runner.chain.chainId
  jobName := job.name
  targetKind := targetKind
  targetAddress := targetAddress
  snapshotDate := snapshotDate
  attemptId := attemptId
  integrityMode := job.integrityMode
  configHash := configHash
  anchorBlock := anchor.number
  anchorHash := anchor.blockHash
  executorKind := runner.executorKindForAnchor anchor
  universeHash := frozen.universeHash
  universeSize := frozen.size

def checkDateWindow (dateStart dateEnd : Option Nat) (value : Nat) :
    Except CensusException Unit := do
  check (dateStart.all fun first => first ≤ value)
    (.valueError "snapshot is before the entity date_start")
  check (dateEnd.all fun last => value < last)
    (.valueError "snapshot is outside the entity date_end")

/-- An attempt once its base is known: the started state, the guarded part, and the failed state when
that raised. -/
def runAttempt (base : AttemptBase) (guarded : CensusProgram Unit) : CensusProgram Unit := do
  insert (.attemptState base.started)
  tryCatch guarded fun exc => do
    insert (.attemptState base.failed)
    throw exc

/-- `run_token`, given what the resolver, the code verifier and the collector answer. -/
def runToken (runner : CensusRunner) (job : JobConfig) (token : TokenConfig) (snapshotDate : Nat)
    (anchor : BlockRef) (resolved : Except Failure FrozenUniverse) (verified : Except Failure Unit)
    (collected : FrozenUniverse → Except Failure TokenCollectionResult) : CensusProgram Uuid := do
  if job.universeName.isNone then
    throw (.valueError "token census requires a universe selector")
  ofExcept (checkDateWindow token.dateStart token.dateEnd snapshotDate)
  let frozen ← ofExcept (resolved.mapError .environment)
  let attemptId ← perform .uuid4
  let base := runner.attemptBase attemptId job .token token.address snapshotDate anchor
    (runner.targetConfigHash job (.token token)) frozen
  runAttempt base do
    ofExcept (verified.mapError .environment)
    let r ← ofExcept ((collected frozen).mapError .environment)
    runner.persistAndPublishToken base attemptId job token snapshotDate frozen r
  return attemptId

/-- `run_pool`; a Balancer pool differs in its collector only. -/
def runPool (runner : CensusRunner) (job : JobConfig) (pool : PoolConfig) (snapshotDate : Nat)
    (anchor : BlockRef) (verified : Except Failure Unit)
    (collected : Except Failure PoolCollectionResult)
    (collectedCl : Except Failure PoolClCollectionResult) : CensusProgram Uuid := do
  ofExcept (checkDateWindow pool.dateStart pool.dateEnd snapshotDate)
  let universeHash ← ofExcept ((digestUniverse []).mapError .digest)
  let frozen := emptyUniverse universeHash
  let attemptId ← perform .uuid4
  let base := runner.attemptBase attemptId job .pool pool.address snapshotDate anchor
    (runner.targetConfigHash job (.pool pool)) frozen
  runAttempt base do
    ofExcept (verified.mapError .environment)
    if job.integrityMode = .clLiquidity then
      let r ← ofExcept (collectedCl.mapError .environment)
      runner.persistAndPublishPoolCl base attemptId job pool snapshotDate frozen r
    else
      let r ← ofExcept (collected.mapError .environment)
      runner.persistAndPublishPool base attemptId job pool snapshotDate frozen r
  return attemptId

end CensusRunner

end RpcStateIndexer
