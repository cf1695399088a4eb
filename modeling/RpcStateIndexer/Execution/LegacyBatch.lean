import RpcStateIndexer.Execution.Base

/-!
# Calls before Multicall3

A batch of `eth_call`s goes to one endpoint that takes block hashes, or to endpoints of distinct
provider groups that must agree.  An endpoint gets it as one HTTP batch or as individual calls.
-/

namespace RpcStateIndexer

open Reasoning Program

/-! ## The HTTP batch -/

def callReference (anchor : BlockRef) (eip1898 : Bool) : Except RpcFault Json :=
  if eip1898 then eip1898Reference anchor else .ok (numberReference anchor)

/-- The requests, numbered from 1. -/
def buildBatchRequests (calls : List ContractCall) (reference : Json) : List Json :=
  (calls.zipIdx 1).map fun (c, requestId) =>
    requestObject requestId "eth_call" (ethCallParams c.target c.calldata reference)

/-- `calls_by_id` has the numbers from 1 to `count`. -/
def knownId (count : Nat) : Json → Option Nat
  | .int value => if 1 ≤ value ∧ value ≤ count then some value.toNat else none
  | _ => none

def malformed (message : String) : RpcFault := .verification "MalformedBatchResponse" message

/-- `by_id`, from the responses in the order in which they came. -/
def collectResponses (count : Nat) : List (List (String × Json)) → List (Nat × List (String × Json)) →
    Except RpcFault (List (Nat × List (String × Json)))
  | [], byId => .ok byId
  | response :: responses, byId =>
    match knownId count (Json.get response "id") with
    | none =>
      let requestId := (Json.get response "id").repr
      .error (.verification "UnknownBatchResponseId" s!"unknown response ID {requestId}")
    | some requestId =>
      if (byId.lookup requestId).isSome then
        .error (.verification "DuplicateBatchResponseId" s!"duplicate response ID {requestId}")
      else do
        checkVersion (malformed "unexpected JSON-RPC version") (Json.get response "jsonrpc")
        collectResponses count responses (byId ++ [(requestId, response)])

/-- The result of a call that failed. -/
def failedResult (call : ContractCall) (code : Int) (message : String) : RawCallResult where
  key := call.key
  success := false
  returndata := []
  errorCode := some code
  errorMessage := some message

/-- The data of a call that succeeded; `e` says what is wrong with a text that is no data. -/
def decodedResult (call : ContractCall) (encoded : String) (e : RpcFault) :
    Except RpcFault RawCallResult :=
  match hexDataToBytes encoded with
  | .ok raw => .ok { key := call.key, success := true, returndata := raw }
  | .error _ => .error e

/-- One response of a batch: it has either a result or an error. -/
def decodeResponse (call : ContractCall) (requestId : Nat) (response : List (String × Json)) :
    Except RpcFault RawCallResult :=
  match response.lookup "result", response.lookup "error" with
  | none, some (.obj error) =>
    match parseError (.obj error) with
    | some (code, message) => .ok (failedResult call code message)
    | none => .error (malformed s!"response {requestId} has malformed error")
  | none, some _ => .error (malformed s!"response {requestId} error is not an object")
  | some (.str encoded), none =>
    decodedResult call encoded (malformed s!"response {requestId} result is malformed")
  | some _, none => .error (malformed s!"response {requestId} result is not hex")
  | _, _ => .error (malformed s!"response {requestId} must contain exactly one of result/error")

def decodeBatchResponses (responses : List (List (String × Json))) (calls : List ContractCall) :
    Except RpcFault (List RawCallResult) := do
  let byId ← collectResponses calls.length responses []
  let missing := (List.range' 1 calls.length).filter fun requestId => (byId.lookup requestId).isNone
  let listed := ", ".intercalate (missing.map toString)
  check missing.isEmpty (.verification "MissingBatchResponses" s!"missing response IDs: [{listed}]")
  (calls.zipIdx 1).mapM fun (c, requestId) =>
    decodeResponse c requestId ((byId.lookup requestId).getD [])

/-! ## Individual calls -/

/-- What becomes of one call: an error that the node reports is a result. -/
def individualResult (call : ContractCall) : Except RpcFault Json → Except RpcFault RawCallResult
  | .error (.response code message _) => .ok (failedResult call code message)
  | .error e => .error e
  | .ok (.str value) =>
    decodedResult call value (malformed "individual eth_call result is malformed")
  | .ok _ => .error (malformed "individual eth_call result is not hex")

def one (endpoint : EndpointConfig) (reference : Json) (call : ContractCall) (exchange : Nat) :
    ClientProgram RawCallResult := do
  let value ← (callOnEndpoint endpoint "eth_call"
    (ethCallParams call.target call.calldata reference) exchange).outcome
  ofExcept (individualResult call value)

/-! ## One endpoint -/

/-- A failed call as the classification sees it; a code of 0 counts as none. -/
def probe (result : RawCallResult) : RpcFault :=
  let code := result.errorCode.getD 0
  .response (if code = 0 then -1 else code) (result.errorMessage.getD "") .null

def isLimit (result : RawCallResult) : Bool :=
  !result.success && (classifyRpcFailure (probe result)).kind = .providerLimit

/-- A limit of the provider that is reported for one call is raised. -/
def raiseLimits (results : List RawCallResult) : Except RpcFault (List RawCallResult) :=
  match results.find? isLimit with
  | some result => .error (.providerLimit (probe result).text)
  | none => .ok results

/-- The calls in one HTTP batch, or each on its own at the same time. -/
def sendCalls (endpoint : EndpointConfig) (calls : List ContractCall) (reference : Json) :
    ClientProgram (List RawCallResult) :=
  if endpoint.supportsHttpBatch then do
    let responses ← batchOnEndpoint endpoint (buildBatchRequests calls reference)
    ofExcept (decodeBatchResponses responses calls)
  else gatherCalls (calls.zipIdx.map fun (c, exchange) => one endpoint reference c exchange)

def runOnEndpoint (endpoint : EndpointConfig) (calls : List ContractCall) (anchor : BlockRef)
    (eip1898 : Bool) : ClientProgram (List RawCallResult) := do
  let reference ← ofExcept (callReference anchor eip1898)
  let results ← sendCalls endpoint calls reference
  ofExcept (raiseLimits results)

/-! ## The executor -/

structure LegacyRpcBatchExecutor where
  batchSize : Nat
  requiredProviderQuorum : Nat
  maxRetries : Nat
  batchSize_pos : 1 ≤ batchSize
  requiredProviderQuorum_ge : 2 ≤ requiredProviderQuorum
  maxRetries_pos : 1 ≤ maxRetries

namespace LegacyRpcBatchExecutor

/-- The results of a batch and the evidence for them. -/
def verifiedBatch (anchor : BlockRef) (referenceKind : String) (providerGroups : List String)
    (results : List RawCallResult) : Except RpcFault VerifiedBatchResult := do
  let resultDigest ← digestRawResults results
  let anchorHash ← normalizeHash (.str anchor.blockHash)
  return {
    results
    evidence :=
      { executorKind := .legacyRpcBatch
        blockReferenceKind := referenceKind
        anchorHash
        providerGroups
        resultDigest
        verified := true } }

def executeEip1898 (endpoint : EndpointConfig) (calls : List ContractCall) (anchor : BlockRef) :
    ClientProgram VerifiedBatchResult := do
  let results ← runOnEndpoint endpoint calls anchor true
  ofExcept (verifiedBatch anchor "eip1898" [endpoint.providerGroup] results)

def runNumberSandwich (calls : List ContractCall) (anchor : BlockRef) (endpoint : EndpointConfig) :
    ClientProgram (List RawCallResult) := do
  assertAnchorHash endpoint anchor 0
  let results ← runOnEndpoint endpoint calls anchor false
  assertAnchorHash endpoint anchor 0
  return results

/-- The results of the first provider, when the digests of all are the same. -/
def agreedResults (executions : List (List RawCallResult)) :
    Except RpcFault (List RawCallResult) := do
  let digests ← executions.mapM digestRawResults
  check (digests.dedup.length = 1)
    (.verification "ProviderQuorumMismatch" "legacy providers returned different state")
  return executions.headD []

def executeNumberQuorum (executor : LegacyRpcBatchExecutor) (calls : List ContractCall)
    (anchor : BlockRef) : ClientProgram VerifiedBatchResult := do
  let endpoints ← selectDistinctGroups executor.requiredProviderQuorum (some anchor.number)
  let executions ← gatherCalls (endpoints.map (runNumberSandwich calls anchor))
  let first ← ofExcept (agreedResults executions)
  ofExcept (verifiedBatch anchor "number_quorum" (endpoints.map EndpointConfig.providerGroup) first)

/-- `failed` says whether an endpoint was tried before. -/
def quorumFallback (executor : LegacyRpcBatchExecutor) (calls : List ContractCall)
    (anchor : BlockRef) (failed : Bool) : ClientProgram VerifiedBatchResult :=
  tryCatch (executor.executeNumberQuorum calls anchor) fun
    | .noHealthyEndpoint message =>
      throw (.noHealthyEndpoint
        (if failed then "no verified legacy execution path is available" else message))
    | e => throw e

/-- `attempts` are left. -/
def executeAttempts (executor : LegacyRpcBatchExecutor) (calls : List ContractCall)
    (anchor : BlockRef) : Nat → List String → Bool → ClientProgram VerifiedBatchResult
  | 0, _, failed => executor.quorumFallback calls anchor failed
  | attempts + 1, excluded, failed => do
    let selected ← (selectEndpoint (some anchor.number) true excluded).outcome
    match selected with
    | .error (.noHealthyEndpoint _) => executor.quorumFallback calls anchor failed
    | .error e => throw e
    | .ok endpoint => do
      let result ← (executeEip1898 endpoint calls anchor).outcome
      match result with
      | .ok batch =>
        recordSuccess endpoint
        return batch
      | .error e =>
        let normalized := normalizeRpcError e
        let failure := classifyRpcFailure normalized
        recordCallFailure endpoint failure anchor.number
        if failure.kind = .providerLimit then throw (.providerLimit normalized.text)
        if !failure.failover && !failure.retryable then throw normalized
        executeAttempts executor calls anchor attempts (endpoint.name :: excluded) true

def executeOnce (executor : LegacyRpcBatchExecutor) (calls : List ContractCall) (anchor : BlockRef) :
    ClientProgram VerifiedBatchResult :=
  executor.executeAttempts calls anchor executor.maxRetries [] false

/-- A batch that exceeds a provider limit is halved; no batch is empty to begin with. -/
def executeAdaptive (executor : LegacyRpcBatchExecutor) (calls : List ContractCall)
    (anchor : BlockRef) : ClientProgram (List VerifiedBatchResult) := do
  let result ← (executor.executeOnce calls anchor).outcome
  match result with
  | .ok batch => return [batch]
  | .error e =>
    let normalized := normalizeRpcError e
    if (classifyRpcFailure normalized).kind ≠ .providerLimit then throw normalized
    else if _h : calls.length ≤ 1 then throw (.providerLimit normalized.text)
    else do
      let midpoint := calls.length / 2
      let first ← executeAdaptive executor (calls.take midpoint) anchor
      let second ← executeAdaptive executor (calls.drop midpoint) anchor
      return first ++ second
termination_by calls.length
decreasing_by
  · rw [List.length_take]
    omega
  · rw [List.length_drop]
    omega

def execute (executor : LegacyRpcBatchExecutor) (calls : List ContractCall) (anchor : BlockRef) :
    ClientProgram (List VerifiedBatchResult) := do
  let parts ← (chunked executor.batchSize executor.batchSize_pos calls).mapM
    fun group => executor.executeAdaptive group anchor
  return parts.flatten

end LegacyRpcBatchExecutor

end RpcStateIndexer
