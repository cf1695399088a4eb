import RpcStateIndexer.Evm.Decoding
import RpcStateIndexer.Execution.Base
import RpcStateIndexer.Reasoning.Sorting

/-!
# What the collectors share

A collector is a program that asks the executor for batches of results.  A round accepts the batches
of one request: every batch verified and pinned to the anchor, every requested key answered once.
-/

namespace RpcStateIndexer

open Reasoning Program

inductive CollectorFault where
  | valueError (message : String)
  /-- A verified executor violated its all-results/exact-anchor contract. -/
  | collectionProtocol (message : String)
  | keyError (key : String)
  /-- What the executor or the digest of its results raised. -/
  | executor (fault : RpcFault)

/-- `execute` of a historical call executor. -/
structure ExecuteOp where
  calls : List ContractCall
  anchor : BlockRef
  deriving DecidableEq

abbrev ExecuteAns (_ : ExecuteOp) := Except RpcFault (List VerifiedBatchResult)

abbrev CollectorProgram := Program ExecuteOp ExecuteAns CollectorFault

/-- A `ValueError` of the layers below. -/
def orValueError {α : Type} : Except String α → Except CollectorFault α
  | .ok a => .ok a
  | .error message => .error (.valueError message)

@[simp] theorem orValueError_eq_ok_iff {α : Type} {x : Except String α} {a : α} :
    orValueError x = .ok a ↔ x = .ok a := by
  cases x <;> simp [orValueError]

def execute (calls : List ContractCall) (anchor : BlockRef) :
    CollectorProgram (List VerifiedBatchResult) := do
  match ← perform ⟨calls, anchor⟩ with
  | .ok batches => return batches
  | .error fault => throw (.executor fault)

/-! ## A round of calls -/

/-- A result with the sequence number of the batch it came in. -/
structure NumberedResult where
  raw : RawCallResult
  batchSequence : Nat
  deriving DecidableEq

/-- The texts of a round's protocol errors. -/
structure RoundMessages where
  unexpected : Nat → String → String
  duplicate : String → String
  missing : List String → String

def acceptResult (messages : RoundMessages) (expected : List String) (sequence : Nat)
    (results : List NumberedResult) (raw : RawCallResult) :
    Except CollectorFault (List NumberedResult) :=
  if raw.key ∉ expected then .error (.collectionProtocol (messages.unexpected sequence raw.key))
  else if raw.key ∈ results.map (·.raw.key) then
    .error (.collectionProtocol (messages.duplicate raw.key))
  else .ok (results ++ [⟨raw, sequence⟩])

def acceptBatch (messages : RoundMessages) (expected : List String) (anchor : BlockRef) (sequence : Nat)
    (results : List NumberedResult) (batch : VerifiedBatchResult) :
    Except CollectorFault (List NumberedResult) :=
  if batch.evidence.verified = false then
    .error (.collectionProtocol s!"batch {sequence} is not verified")
  else if batch.evidence.anchorHash.toLower ≠ anchor.blockHash.toLower then
    .error (.collectionProtocol s!"batch {sequence} anchor hash mismatch")
  else match digestRawResults batch.results with
    | .error fault => .error (.executor fault)
    | .ok digest =>
      if batch.evidence.resultDigest ≠ digest then
        .error (.collectionProtocol s!"batch {sequence} result digest mismatch")
      else batch.results.foldlM (acceptResult messages expected sequence) results

def acceptBatches (messages : RoundMessages) (expected : List String) (anchor : BlockRef) :
    Nat → List NumberedResult → List VerifiedBatchResult → Except CollectorFault (List NumberedResult)
  | _, results, [] => .ok results
  | sequence, results, batch :: rest => do
    let results ← acceptBatch messages expected anchor sequence results batch
    acceptBatches messages expected anchor (sequence + 1) results rest

/-- The evidence of the batches of a round, numbered from `sequence`. -/
def batchEvidence (sequence : Nat) (batches : List VerifiedBatchResult) :
    List CollectionBatchEvidence :=
  (batches.zipIdx sequence).map fun x => ⟨x.2, x.1.results.length, x.1.evidence⟩

/-- The results of a round by their keys, in the order they came. -/
def acceptRound (messages : RoundMessages) (expected : List String) (anchor : BlockRef)
    (sequence : Nat) (batches : List VerifiedBatchResult) :
    Except CollectorFault (List NumberedResult) := do
  let results ← acceptBatches messages expected anchor sequence [] batches
  let missing := sortedSet (expected.filter fun key => key ∉ results.map (·.raw.key))
  if missing = [] then return results
  else throw (.collectionProtocol (messages.missing missing))

/-- `results[key]`; a key of the round is always there. -/
def resultOf (results : List NumberedResult) (key : String) : Option NumberedResult :=
  results.find? fun result => result.raw.key = key

/-- The results that succeeded and the errors of the others, each in order. -/
def partition {α ε : Type} : List (Except ε α) → List α × List ε
  | [] => ([], [])
  | .ok a :: rest => (a :: (partition rest).1, (partition rest).2)
  | .error e :: rest => ((partition rest).1, e :: (partition rest).2)

/-! ## Uint calls -/

structure UIntCallSpec where
  call : ContractCall
  subjectAddress : String
  callKind : String
  deriving DecidableEq

structure DecodedUIntCall where
  spec : UIntCallSpec
  observation : UIntObservation
  batchSequence : Nat
  rpcCode : Option Int
  rpcMessage : Option String

/-- `text or default`: an empty text counts as none. -/
def orDefault (text : Option String) (default : String) : String :=
  match text with
  | some text => if text = "" then default else text
  | none => default

/-- The error of a call that has no value. -/
def DecodedUIntCall.asError (call : DecodedUIntCall) : CollectionError where
  subjectAddress := call.spec.subjectAddress
  callKind := call.spec.callKind
  status := call.observation.status
  batchSequence := call.batchSequence
  message := orDefault call.observation.detail
    (orDefault call.rpcMessage call.observation.status.value)
  rpcCode := call.rpcCode
  returnData := call.observation.raw

/-- A revert is told apart from a failure of the provider; a code of zero counts as none. -/
def failureStatus (raw : RawCallResult) : ObservationStatus :=
  let code := if raw.errorCode = some 0 then -1 else raw.errorCode.getD (-1)
  let message := orDefault raw.errorMessage "call failed"
  match (classifyRpcFailure (.response code message .null)).kind with
  | .executionRevert => .reverted
  | _ => .rpcError

theorem failureStatus_ne_ok (raw : RawCallResult) : failureStatus raw ≠ .ok := by
  unfold failureStatus
  dsimp only
  split <;> exact ObservationStatus.noConfusion

def decodeRaw (spec : UIntCallSpec) (result : NumberedResult) : DecodedUIntCall where
  spec := spec
  observation :=
    if result.raw.success then .decodeUint256 result.raw.returndata
    else .failed (failureStatus result.raw) result.raw.returndata
      (some (orDefault result.raw.errorMessage "contract call failed")) (failureStatus_ne_ok result.raw)
  batchSequence := result.batchSequence
  rpcCode := result.raw.errorCode
  rpcMessage := result.raw.errorMessage

/-- The decoded calls in the order their results came. -/
structure DecodedExecution where
  calls : List DecodedUIntCall
  batches : List CollectionBatchEvidence

/-- `calls[key]` -/
def DecodedExecution.call (decoded : DecodedExecution) (key : String) :
    Except CollectorFault DecodedUIntCall :=
  match decoded.calls.find? fun call => call.spec.call.key = key with
  | some call => .ok call
  | none => .error (.keyError key)

def uintMessages : RoundMessages where
  unexpected sequence key := s!"batch {sequence} returned unexpected key '{key}'"
  duplicate key := s!"collector received duplicate result for '{key}'"
  missing keys := s!"collector results are missing keys: {keys}"

/-- The first key that an earlier spec has already. -/
def duplicateKey : List String → List String → Option String
  | _, [] => none
  | seen, key :: keys => if key ∈ seen then some key else duplicateKey (key :: seen) keys

def decodeResult (specs : List UIntCallSpec) (result : NumberedResult) : Option DecodedUIntCall :=
  (specs.find? fun spec => spec.call.key = result.raw.key).map fun spec => decodeRaw spec result

/-- What the answer of the executor decodes to, rejecting structural partial results. -/
def decodeBatches (specs : List UIntCallSpec) (anchor : BlockRef)
    (batches : List VerifiedBatchResult) : Except CollectorFault DecodedExecution := do
  let results ← acceptRound uintMessages (specs.map (·.call.key)) anchor 0 batches
  return ⟨results.filterMap (decodeResult specs), batchEvidence 0 batches⟩

/-- Execute and decode all specs. -/
def executeUintCalls (specs : List UIntCallSpec) (anchor : BlockRef) :
    CollectorProgram DecodedExecution := do
  ofExcept (match duplicateKey [] (specs.map (·.call.key)) with
    | some key => .error (.valueError s!"duplicate collector call key: {key}")
    | none => .ok ())
  let batches ← execute (specs.map (·.call)) anchor
  ofExcept (decodeBatches specs anchor batches)

/-- Whether every expected call succeeded, and how many did. -/
def completenessCheck (expectedCalls : Nat) (decoded : DecodedExecution) : Bool × Nat :=
  let successful := decoded.calls.countP fun call => call.observation.ok
  (successful = expectedCalls, successful)

/-- The values of the calls that succeeded, each with its batch, and the errors of the others. -/
def splitCalls {α : Type} (decoded : DecodedExecution) :
    List (α × UIntCallSpec) → Except CollectorFault (List (α × Nat × Nat) × List CollectionError)
  | [] => .ok ([], [])
  | (subject, spec) :: rest => do
    let call ← decoded.call spec.call.key
    let (values, errors) ← splitCalls decoded rest
    return match call.observation.value with
      | some value => ((subject, value, call.batchSequence) :: values, errors)
      | none => (values, call.asError :: errors)

end RpcStateIndexer
