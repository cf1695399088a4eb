import RpcStateIndexer.Execution.Base
import RpcStateIndexer.Reasoning.Sorting

/-!
# The Multicall3 executor

A batch is one `aggregate3` call with three sentinels at each end.  A batch the provider finds too large
is halved, a response that does not prove the anchor is read from another endpoint, and a subcall that
failed is read again alone.  Batches run as the tasks of one group.
-/

namespace RpcStateIndexer

open Reasoning Program

/-- The ABI codec of `aggregate3`: its arguments, and the list its return data holds. -/
structure Aggregate3Codec where
  encode : List (String × Bool × List UInt8) → Except RpcFault (List UInt8)
  decode : List UInt8 → Option (List (Bool × List UInt8))

structure Multicall3Executor where
  codec : Aggregate3Codec
  address : String
  deploymentBlock : Nat
  batchSize : Nat
  maxParallelBatches : Nat
  maxRetries : Nat
  batchSize_pos : 1 ≤ batchSize
  maxParallelBatches_pos : 1 ≤ maxParallelBatches
  maxRetries_pos : 1 ≤ maxRetries

/-! ## Calldata -/

def aggregate3Selector : List UInt8 := [0x82, 0xad, 0x56, 0xcb]
def getBlockNumberSelector : List UInt8 := [0x42, 0xcb, 0xb1, 0x5c]
def getCurrentBlockTimestampSelector : List UInt8 := [0x0f, 0x28, 0xc9, 0x7d]
def getBlockHashSelector : List UInt8 := [0xee, 0x82, 0xac, 0x5e]

def uint256Word (value : Nat) : Except RpcFault (List UInt8) :=
  if value < 2 ^ 256 then .ok (bytesBE 32 value)
  else .error (.valueError "value is outside uint256")

def getBlockHashCalldata (blockNumber : Nat) : Except RpcFault (List UInt8) := do
  return getBlockHashSelector ++ (← uint256Word blockNumber)

/-- The word of a return of 32 bytes. -/
def decodeUint256 (returndata : List UInt8) : Option Nat :=
  if returndata.length = 32 then some (ofBytesBE returndata) else none

/-! ## What a response is served by -/

/-- The data of an `eth_call`, who served it, and the kind of reference it was pinned by. -/
structure ServedCall where
  encoded : String
  endpoint : EndpointConfig
  referenceKind : String
  deriving DecidableEq

/-- Bookkeeping of the proofs: the call at `position` of the aggregate of `calls` that was `served`. -/
structure Origin where
  calls : List ContractCall
  position : Nat
  served : ServedCall
  deriving DecidableEq

structure Obtained where
  result : RawCallResult
  origin : Origin
  deriving DecidableEq

/-- A verified batch, with the origin of each result and of the batch's main call. -/
structure ExecutedBatch where
  obtained : List Obtained
  evidence : VerificationEvidence
  main : ServedCall
  deriving DecidableEq

def ExecutedBatch.batch (b : ExecutedBatch) : VerifiedBatchResult where
  results := b.obtained.map Obtained.result
  evidence := b.evidence

/-- How an endpoint is asked for the state of the anchor. -/
def referenceKind (endpoint : EndpointConfig) : String :=
  if endpoint.supportsEip1898 then "eip1898" else "number_hash_sandwich"

def anchorReference (endpoint : EndpointConfig) (anchor : BlockRef) : Except RpcFault Json :=
  if endpoint.supportsEip1898 then eip1898Reference anchor else .ok (numberReference anchor)

namespace Multicall3Executor

/-! ## One `eth_call` -/

def select (anchor : BlockRef) (excluded : List String) : ClientProgram EndpointConfig :=
  tryCatch (selectEndpoint (some anchor.number) true excluded) fun
    | .noHealthyEndpoint _ => selectEndpoint (some anchor.number) false excluded
    | e => throw e

def exhausted : RpcFault := .noHealthyEndpoint "Multicall3 exhausted endpoints"

/-- Nothing is selectable: the endpoint that failed last is busy, not broken, when its failure may be
retried. -/
def reselect (last : Option (EndpointConfig × RpcFailure)) (e : RpcFault) :
    Except RpcFault EndpointConfig :=
  match e, last with
  | .noHealthyEndpoint _, some (endpoint, failure) =>
    if failure.retryable then .ok endpoint else .error exhausted
  | _, _ => .error exhausted

/-- An endpoint that takes no hash is checked by number against the anchor's. -/
def confirmNumber (endpoint : EndpointConfig) (anchor : BlockRef) : ClientProgram Unit :=
  if endpoint.supportsEip1898 then return () else assertAnchorHash endpoint anchor 0

/-- The call on one endpoint; a number is checked before and after. -/
def callPinned (executor : Multicall3Executor) (endpoint : EndpointConfig) (calldata : List UInt8)
    (anchor : BlockRef) (reference : Json) : ClientProgram String := do
  confirmNumber endpoint anchor
  let result ← callOnEndpoint endpoint "eth_call"
    (ethCallParams executor.address calldata reference) 0
  confirmNumber endpoint anchor
  match result with
  | .str encoded => return encoded
  | _ => throw (.valueError "eth_call result must be hex data")

/-- `attempts` are left; `last` is the endpoint that failed last. -/
def ethCallAttempts (executor : Multicall3Executor) (calldata : List UInt8) (anchor : BlockRef) :
    Nat → List String → Option (EndpointConfig × RpcFailure) → ClientProgram ServedCall
  | 0, _, _ => throw exhausted
  | attempts + 1, excluded, last => do
    let endpoint ← tryCatch (select anchor excluded) fun e => ofExcept (reselect last e)
    let reference ← ofExcept (anchorReference endpoint anchor)
    let result ← (executor.callPinned endpoint calldata anchor reference).outcome
    match result with
    | .ok encoded =>
      recordSuccess endpoint
      return ⟨encoded, endpoint, referenceKind endpoint⟩
    | .error e =>
      let normalized := normalizeRpcError e
      let failure := classifyRpcFailure normalized
      recordCallFailure endpoint failure anchor.number
      if failure.kind = .providerLimit then throw (.providerLimit normalized.text)
      if !failure.retryable && !failure.failover then throw normalized
      ethCallAttempts executor calldata anchor attempts
        (if failure.failover then endpoint.name :: excluded else excluded) (some (endpoint, failure))

def ethCall (executor : Multicall3Executor) (calldata : List UInt8) (anchor : BlockRef)
    (exclude : List String) : ClientProgram ServedCall :=
  executor.ethCallAttempts calldata anchor executor.maxRetries exclude none

/-! ## The sentinels -/

def sentinels (executor : Multicall3Executor) (position : String) (anchor : BlockRef) :
    Except RpcFault (List ContractCall) := do
  let parent ← getBlockHashCalldata (anchor.number - 1)
  return [
    ⟨s!"__sentinel_{position}_block", executor.address, getBlockNumberSelector, false⟩,
    ⟨s!"__sentinel_{position}_timestamp", executor.address, getCurrentBlockTimestampSelector, false⟩,
    ⟨s!"__sentinel_{position}_parent", executor.address, parent, false⟩]

def verifySentinels (results : List (Bool × List UInt8)) (anchor : BlockRef) (position : String) :
    Except RpcFault Unit :=
  match results with
  | [(true, block), (true, timestamp), (true, parent)] => do
    check (decodeUint256 block = some anchor.number)
      (.verification "SentinelMismatch" s!"{position} block sentinel mismatch")
    check (decodeUint256 timestamp = some anchor.timestamp)
      (.verification "SentinelMismatch" s!"{position} timestamp sentinel mismatch")
    check (parent.length = 32)
      (.verification "SentinelMismatch" s!"{position} parent-hash sentinel mismatch")
    let expected ← normalizeHash (.str anchor.parentHash)
    check (hexData parent = expected)
      (.verification "SentinelMismatch" s!"{position} parent-hash sentinel mismatch")
  | _ => .error (.verification "SentinelMismatch" s!"{position} sentinel reverted")

def encodeAggregate3 (executor : Multicall3Executor) (calls : List ContractCall) :
    Except RpcFault (List UInt8) := do
  let encoded ← executor.codec.encode (calls.map fun c => (c.target, c.allowFailure, c.calldata))
  return aggregate3Selector ++ encoded

def decodeAggregate3 (executor : Multicall3Executor) (returndata : List UInt8) :
    Except RpcFault (List (Bool × List UInt8)) :=
  if returndata.isEmpty then .error (.valueError "aggregate3 returned empty data")
  else match executor.codec.decode returndata with
    | some decoded => .ok decoded
    | none => .error (.valueError "malformed aggregate3 return data")

/-- The calldata of an aggregate: the calls between the sentinels. -/
def packedCalldata (executor : Multicall3Executor) (calls : List ContractCall) (anchor : BlockRef) :
    Except RpcFault (List UInt8) := do
  let head ← executor.sentinels "head" anchor
  let tail ← executor.sentinels "tail" anchor
  executor.encodeAggregate3 (head ++ calls ++ tail)

/-- The results of a response that proves the anchor.  Every exception of it is a verification error or
a `ValueError`, which the caller catches. -/
def verifiedResults (executor : Multicall3Executor) (encoded : String) (count : Nat)
    (anchor : BlockRef) : Except RpcFault (List (Bool × List UInt8)) := do
  let bytes ← hexDataToBytes encoded
  let decoded ← executor.decodeAggregate3 bytes
  check (decoded.length = count) (.verification "BatchResultCountMismatch"
    s!"expected {count} results, got {decoded.length}")
  verifySentinels (decoded.take 3) anchor "head"
  verifySentinels (decoded.drop (decoded.length - 3)) anchor "tail"
  return decoded

/-! ## One batch -/

/-- The results between the sentinels, in the order of the calls. -/
def body (calls : List ContractCall) (decoded : List (Bool × List UInt8)) (served : ServedCall) :
    List Obtained :=
  (calls.zip ((decoded.drop 3).take (decoded.length - 6))).mapIdx fun position (c, success, data) =>
    ⟨{ key := c.key, success, returndata := data }, ⟨calls, position, served⟩⟩

/-- The batch of the results that are final, which come with the provider groups of their reads. -/
def verifiedBatch (anchor : BlockRef) (served : ServedCall) (pieces : List (Obtained × List String)) :
    Except RpcFault ExecutedBatch := do
  let anchorHash ← normalizeHash (.str anchor.blockHash)
  let resultDigest ← digestRawResults (pieces.map fun x => x.1.result)
  return {
    obtained := pieces.map Prod.fst
    evidence :=
      { executorKind := .multicall3
        blockReferenceKind := served.referenceKind
        anchorHash
        providerGroups := sortedSet (served.endpoint.providerGroup :: pieces.flatMap Prod.snd)
        resultDigest
        verified := true }
    main := served }

/-- A subcall that failed is read again alone, and what that read returned replaces it. -/
def escalate (single : ContractCall → ClientProgram ExecutedBatch) (x : ContractCall × Obtained) :
    ClientProgram (Obtained × List String) :=
  if x.2.result.success then return (x.2, [])
  else do
    let retry ← single x.1
    match retry.obtained with
    | [only] => return (only, retry.evidence.providerGroups)
    | _ => throw (.verification "BatchResultCountMismatch"
        "single-call escalation returned the wrong result count")

/-- `attempts` are left; `finish` decides what becomes of the subcalls that failed. -/
def executeAttempts (executor : Multicall3Executor) (calls : List ContractCall) (anchor : BlockRef)
    (calldata : List UInt8)
    (finish : List (ContractCall × Obtained) → ClientProgram (List (Obtained × List String))) :
    Nat → List String → ClientProgram ExecutedBatch
  | 0, _ => throw (.verification "BatchVerificationError"
      "Multicall3 could not verify the pinned anchor on any endpoint")
  | attempts + 1, excluded => do
    let served ← executor.ethCall calldata anchor excluded
    match executor.verifiedResults served.encoded (calls.length + 6) anchor with
    | .ok decoded =>
      let pieces ← finish (calls.zip (body calls decoded served))
      ofExcept (verifiedBatch anchor served pieces)
    | .error _ =>
      perform (RpcOp.recordFailure served.endpoint true none false)
      executeAttempts executor calls anchor calldata finish attempts
        (served.endpoint.name :: excluded)

/-- `_execute_once` without escalation, of one call. -/
def executeSingle (executor : Multicall3Executor) (anchor : BlockRef) (call : ContractCall) :
    ClientProgram ExecutedBatch := do
  let calldata ← ofExcept (executor.packedCalldata [call] anchor)
  executor.executeAttempts [call] anchor calldata
    (fun pairs => return pairs.map fun x => (x.2, [])) executor.maxRetries []

def executeOnce (executor : Multicall3Executor) (calls : List ContractCall) (anchor : BlockRef) :
    ClientProgram ExecutedBatch := do
  let calldata ← ofExcept (executor.packedCalldata calls anchor)
  executor.executeAttempts calls anchor calldata
    (fun pairs => pairs.mapM (escalate (executor.executeSingle anchor))) executor.maxRetries []

/-- A batch that exceeds a provider limit is halved; no batch is empty to begin with. -/
def executeAdaptive (executor : Multicall3Executor) (calls : List ContractCall) (anchor : BlockRef) :
    ClientProgram (List ExecutedBatch) := do
  let result ← (executor.executeOnce calls anchor).outcome
  match result with
  | .ok batch => return [batch]
  | .error (.providerLimit message) =>
    if _h : calls.length ≤ 1 then throw (.providerLimit message)
    else do
      let midpoint := calls.length / 2
      let first ← executeAdaptive executor (calls.take midpoint) anchor
      let second ← executeAdaptive executor (calls.drop midpoint) anchor
      return first ++ second
  | .error e => throw e
termination_by calls.length
decreasing_by
  · rw [List.length_take]
    omega
  · rw [List.length_drop]
    omega

/-! ## All batches -/

def groups (executor : Multicall3Executor) (calls : List ContractCall) : List (List ContractCall) :=
  chunked executor.batchSize executor.batchSize_pos calls

/-- The runs of `execute`.  A single batch takes the direct path; the results of a group stand at the
places of their batches, whatever the order in which they came. -/
def Executes (executor : Multicall3Executor) (calls : List ContractCall) (anchor : BlockRef)
    (t : List (Sigma RpcAns)) (r : Except RpcFault (List ExecutedBatch)) : Prop :=
  if anchor.number < executor.deploymentBlock then
    t = [] ∧ r = .error (.unsupportedRange "Multicall3 is not deployed at the anchor")
  else if anchor.number = 0 then
    t = [] ∧ r = .error (.unsupportedRange "Multicall sentinels require anchor block > 0")
  else match executor.groups calls with
    | [group] => Runs (executor.executeAdaptive group anchor) t r
    | groups => ∃ slots, GroupRuns executor.maxParallelBatches
        (groups.map fun group => .waiting (executor.executeAdaptive group anchor)) t slots ∧
        r = slots.map List.flatten

end Multicall3Executor

end RpcStateIndexer
