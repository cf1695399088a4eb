import RpcStateIndexer.Execution.Base

/-!
# Historical bytecode

`HistoricalCodeVerifier` reads the runtime code of a contract at an anchor, by the anchor's hash or from a
quorum of provider groups, and keeps what it has verified.  The cache is a dictionary that is replaced as a
whole when an anchor has no entry yet, so a call may still hold a bucket that is no longer in it.
-/

namespace RpcStateIndexer

open Reasoning Program

structure CodeEvidence where
  address : String
  codeHash : String
  providerGroups : List String
  referenceKind : String
  deriving DecidableEq

/-- What a verification raises. -/
inductive CodeFault where
  | rpc (e : RpcFault)
  /-- `HistoricalCodeError` or the named subclass of it -/
  | historical (className message : String)
  | archiveStateUnavailable (message : String)
  | indexError

/-- The arguments of `verify`. -/
structure CodeRequest where
  address : String
  anchor : BlockRef
  expectedCodeHash : Option String

structure HistoricalCodeVerifier where
  numberProviderQuorum : Nat
  numberProviderQuorum_ge : 2 ≤ numberProviderQuorum

abbrev CodeProgram (α : Type) : Type := Program RpcOp RpcAns CodeFault α

/-- Code that talks to the client, where its exceptions pass through. -/
def onClient {α : Type} (p : ClientProgram α) : CodeProgram α :=
  p.lift (fun op => op) (fun _ a => a) .rpc

/-! ## Reading the code -/

def decodeCode (encoded : Json) (address : String) : Except CodeFault (List UInt8) :=
  match encoded with
  | .str text =>
    match hexDataToBytes text with
    | .error _ => .error (.historical "HistoricalCodeError"
        s!"eth_getCode for {address} returned malformed hex")
    | .ok [] => .error (.historical "ContractNotDeployed" s!"no code at {address}")
    | .ok code => .ok code
  | _ => .error (.historical "HistoricalCodeError" s!"eth_getCode for {address} was not hex data")

/-- The first of the values, when the others are equal to it. -/
def agreedCode (address : String) : List (List UInt8) → Except CodeFault (List UInt8)
  | [] => .error .indexError
  | code :: rest =>
    if rest.any fun value => value ≠ code then
      .error (.archiveStateUnavailable s!"providers disagree on historical code for {address}")
    else .ok code

namespace HistoricalCodeVerifier

variable (keccak : List UInt8 → Word) (v : HistoricalCodeVerifier)

def checkHash (code : List UInt8) (address : String) (expectedCodeHash : Option String) :
    Except CodeFault String :=
  let actual := hexData (keccak code).toList
  if expectedCodeHash.any fun expected => actual ≠ expected.toLower then
    .error (.historical "RuntimeCodeHashMismatch"
      s!"runtime code hash mismatch for {address}: {actual}")
  else .ok actual

/-- What one endpoint of the quorum says, between two looks at the anchor. -/
def read (address : String) (anchor : BlockRef) (endpoint : EndpointConfig) :
    CodeProgram (List UInt8) := do
  onClient (assertAnchorHash endpoint anchor 0)
  let encoded ← onClient
    (callOnEndpoint endpoint "eth_getCode" [.str address, numberReference anchor] 0)
  onClient (assertAnchorHash endpoint anchor 0)
  ofExcept (decodeCode encoded address)

def verifyNumberQuorum (address : String) (anchor : BlockRef) (expectedCodeHash : Option String) :
    CodeProgram CodeEvidence := do
  let endpoints ← onClient (selectDistinctGroups v.numberProviderQuorum (some anchor.number))
  let values ← gather .turn id (endpoints.map (read address anchor))
  let code ← ofExcept (agreedCode address values)
  let codeHash ← ofExcept (checkHash keccak code address expectedCodeHash)
  return ⟨address, codeHash, endpoints.map EndpointConfig.providerGroup, "number_quorum"⟩

def verifyUncached (normalized : String) (anchor : BlockRef) (expectedCodeHash : Option String) :
    CodeProgram CodeEvidence := do
  let selected ← (onClient (selectEndpoint (some anchor.number) true [])).outcome
  match selected with
  | .error (.rpc (.noHealthyEndpoint _)) => v.verifyNumberQuorum keccak normalized anchor expectedCodeHash
  | .error e => throw e
  | .ok endpoint => do
    let reference ← ofExcept ((eip1898Reference anchor).mapError .rpc)
    let encoded ← onClient (callOnEndpoint endpoint "eth_getCode" [.str normalized, reference] 0)
    let code ← ofExcept (decodeCode encoded normalized)
    let codeHash ← ofExcept (checkHash keccak code normalized expectedCodeHash)
    return ⟨normalized, codeHash, [endpoint.providerGroup], "eip1898"⟩

end HistoricalCodeVerifier

/-! ## The cache -/

abbrev CodeKey : Type := String × Option String

abbrev CodeBucket : Type := List (CodeKey × CodeEvidence)

/-- The dictionary of the verifier, and all the buckets that were ever made for it. -/
structure CodeMemory where
  cache : List (String × Nat)
  buckets : List CodeBucket

namespace CodeMemory

def empty : CodeMemory := ⟨[], []⟩

def get (w : CodeMemory) (bucket : Nat) (key : CodeKey) : Option CodeEvidence :=
  w.buckets[bucket]?.bind fun entries => entries.lookup key

/-- `self._cache = {block_hash: {}}` -/
def replace (w : CodeMemory) (blockHash : String) : CodeMemory :=
  ⟨[(blockHash, w.buckets.length)], w.buckets ++ [[]]⟩

/-- `bucket[key] = evidence` -/
def set (w : CodeMemory) (bucket : Nat) (key : CodeKey) (evidence : CodeEvidence) : CodeMemory where
  cache := w.cache
  buckets := w.buckets.modify bucket fun entries =>
    (key, evidence) :: entries.filter fun entry => entry.1 ≠ key

end CodeMemory

inductive VerifierOp where
  | rpc (op : RpcOp)
  | cacheGet (blockHash : String)
  | bucketGet (bucket : Nat) (key : CodeKey)
  | replaceCache (blockHash : String)
  | bucketSet (bucket : Nat) (key : CodeKey) (evidence : CodeEvidence)

abbrev VerifierAns : VerifierOp → Type
  | .rpc op => RpcAns op
  | .cacheGet _ => Option Nat
  | .bucketGet _ _ => Option CodeEvidence
  | .replaceCache _ => Nat
  | .bucketSet _ _ _ => Unit

abbrev VerifierProgram (α : Type) : Type := Program VerifierOp VerifierAns CodeFault α

/-- The client may answer anything; the memory answers as it is. -/
def verifierEnv : (op : VerifierOp) → CodeMemory → VerifierAns op → CodeMemory → Prop
  | .rpc _, w, _, w' => w' = w
  | .cacheGet blockHash, w, bucket, w' => bucket = w.cache.lookup blockHash ∧ w' = w
  | .bucketGet bucket key, w, evidence, w' => evidence = w.get bucket key ∧ w' = w
  | .replaceCache blockHash, w, bucket, w' => bucket = w.buckets.length ∧ w' = w.replace blockHash
  | .bucketSet bucket key evidence, w, _, w' => w' = w.set bucket key evidence

namespace VerifierProgram

def onWire {α : Type} (p : CodeProgram α) : VerifierProgram α :=
  p.lift .rpc (fun _ a => a) (fun e => e)

def cacheGet (blockHash : String) : VerifierProgram (Option Nat) := .call (.cacheGet blockHash) .ret

def bucketGet (bucket : Nat) (key : CodeKey) : VerifierProgram (Option CodeEvidence) :=
  .call (.bucketGet bucket key) .ret

def replaceCache (blockHash : String) : VerifierProgram Nat := .call (.replaceCache blockHash) .ret

def bucketSet (bucket : Nat) (key : CodeKey) (evidence : CodeEvidence) : VerifierProgram Unit :=
  .call (.bucketSet bucket key evidence) .ret

end VerifierProgram

open VerifierProgram

namespace CodeRequest

def normalized (request : CodeRequest) : String := request.address.toLower

def cacheKey (request : CodeRequest) : CodeKey := (request.normalized, request.expectedCodeHash)

end CodeRequest

namespace HistoricalCodeVerifier

variable (keccak : List UInt8 → Word) (v : HistoricalCodeVerifier)

/-- The verification of a request, past the cache. -/
def uncached (request : CodeRequest) : CodeProgram CodeEvidence :=
  v.verifyUncached keccak request.normalized request.anchor request.expectedCodeHash

/-- What follows a miss; `bucket` was looked up before the verification began. -/
def verifyMissing (request : CodeRequest) (bucket : Option Nat) : VerifierProgram CodeEvidence := do
  let evidence ← onWire (v.uncached keccak request)
  let bucket ← match bucket with
    | some bucket => pure bucket
    | none => replaceCache request.anchor.blockHash
  bucketSet bucket request.cacheKey evidence
  return evidence

def verify (request : CodeRequest) : VerifierProgram CodeEvidence := do
  let bucket ← cacheGet request.anchor.blockHash
  let hit ← match bucket with
    | some bucket => bucketGet bucket request.cacheKey
    | none => pure none
  match hit with
  | some evidence => return evidence
  | none => v.verifyMissing keccak request bucket

end HistoricalCodeVerifier

end RpcStateIndexer
