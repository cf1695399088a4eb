import RpcStateIndexer.Census.Results
import RpcStateIndexer.Discovery.Scanner

/-!
# The anchor resolver

`AnchorResolver.resolve` bisects the blocks below a safe tip and re-reads the two proof blocks.  Every
read goes to the RPC pool, so a resolution is a program; the cache and the fingerprints are its state.
-/

namespace RpcStateIndexer

open Reasoning Program

inductive AnchorException where
  | notFinalized (message : String)
  | conflict (message : String)
  | validation (message : String)
  /-- the endpoint understood JSON-RPC but has no value for the configured tag -/
  | finalityTagUnavailable (tag : String)
  /-- the day after the date is not a date -/
  | dateOverflow
  | rpc (e : RpcException)
  deriving DecidableEq

abbrev AnchorProgram (α : Type) : Type := RpcProgram AnchorException α

/-! ## Dates -/

/-- The ordinal of the last date; a date is its proleptic ordinal. -/
def lastDate : Nat := 3652059

/-- The ordinal of 1970-01-01. -/
def epochDate : Nat := 719163

/-- Midnight immediately after the date, as a UTC epoch. -/
def utcDayEndTimestamp (snapshotDate : Nat) : Except AnchorException Int := do
  check (snapshotDate < lastDate) .dateOverflow
  return ((snapshotDate : Int) + 1 - epochDate) * 86400

/-! ## Blocks -/

def parseBlockQuantity (value : Json) (field : String) : Except AnchorException Nat :=
  match value with
  | .str text =>
    if isHexQuantity text then .ok (hexValue text)
    else .error (.validation s!"block {field} is not a canonical hex quantity")
  | _ => .error (.validation s!"block {field} is not a canonical hex quantity")

def parseBlockHash (value : Json) (field : String) : Except AnchorException String :=
  match value with
  | .str text =>
    if isHash text then .ok text.toLower
    else .error (.validation s!"block {field} is not a 32-byte hash")
  | _ => .error (.validation s!"block {field} is not a 32-byte hash")

/-- The subset of a block that anchoring needs, strictly decoded. -/
def parseBlock (value : Json) (expectedNumber : Option Nat) : Except AnchorException BlockRef :=
  match value with
  | .obj fields => do
    let number ← parseBlockQuantity (Json.get fields "number") "number"
    let timestamp ← parseBlockQuantity (Json.get fields "timestamp") "timestamp"
    let blockHash ← parseBlockHash (Json.get fields "hash") "hash"
    let parentHash ← parseBlockHash (Json.get fields "parentHash") "parentHash"
    check (expectedNumber.all fun expected => number = expected)
      (.validation s!"requested block {expectedNumber.getD 0}, endpoint returned block {number}")
    return ⟨number, blockHash, parentHash, timestamp⟩
  | _ => .error (.validation "block lookup returned no block object")

/-! ## A resolution -/

/-- A day boundary proven by two adjacent canonical blocks. -/
structure ResolvedAnchor where
  snapshotDate : Nat
  anchor : BlockRef
  nextBlock : BlockRef
  safeTip : BlockRef
  finalitySource : String
  endpointFingerprints : List String
  deriving DecidableEq

/-- The complete immutable boundary proof. -/
def validateResolvedAnchor (resolved : ResolvedAnchor) : Except AnchorException Unit := do
  let boundary ← utcDayEndTimestamp resolved.snapshotDate
  let anchor := resolved.anchor
  let nextBlock := resolved.nextBlock
  check ((anchor.timestamp : Int) < boundary)
    (.validation "anchor timestamp is not before the UTC boundary")
  check (boundary ≤ (nextBlock.timestamp : Int))
    (.validation "block after anchor is still before the UTC boundary")
  check (nextBlock.number = anchor.number + 1) (.validation "anchor proof blocks are not adjacent")
  check (nextBlock.parentHash = anchor.blockHash)
    (.validation "block after anchor does not reference anchor hash")
  check (nextBlock.number ≤ resolved.safeTip.number)
    (.notFinalized "UTC boundary is newer than the safe block tip")

/-- Reject a second resolution that changes an already stored day anchor. -/
def assertAnchorImmutable (existing candidate : BlockRef) : Except AnchorException Unit :=
  check (existing = candidate) (.conflict
    "stored day anchor differs from newly resolved block; manual reorg review required")

/-- The blocks read so far, and who served them. -/
structure ReadState where
  cache : List (Nat × BlockRef)
  fingerprints : List String

namespace ReadState

/-- `if endpoint.fingerprint not in fingerprints` -/
def served (st : ReadState) (fingerprint : String) : ReadState :=
  { st with fingerprints :=
      if fingerprint ∈ st.fingerprints then st.fingerprints
      else st.fingerprints ++ [fingerprint] }

end ReadState

structure AnchorResolver where
  finalityTag : String
  confirmationDepth : Nat
  finalityTag_nonempty : finalityTag ≠ ""
  confirmationDepth_pos : 1 ≤ confirmationDepth

/-- The `eth_getBlockByNumber` call of a number or tag; headers are not gated by archive state. -/
def getBlock (parameter : String) : RpcRequest where
  method := "eth_getBlockByNumber"
  params := .arr [.str parameter, .bool false]
  historicalBlock := none
  requireEip1898 := false

/-- One call and the parse of its reply. -/
def readBlock (parameter : String) (parse : Json → Except AnchorException BlockRef) :
    AnchorProgram (BlockRef × String) :=
  .call (getBlock parameter) fun
    | .error e => .raise (.rpc e)
    | .ok (raw, endpoint) => do
      let block ← ofExcept (parse raw)
      return (block, endpoint.fingerprint)

namespace AnchorResolver

/-- A tag other than `latest` may be answered by null. -/
def parseTagged (tag : String) (raw : Json) : Except AnchorException BlockRef :=
  match raw with
  | .null =>
    if tag ≠ "latest" then .error (.finalityTagUnavailable tag) else parseBlock .null none
  | raw => parseBlock raw none

def readByTag (tag : String) : AnchorProgram (BlockRef × String) := readBlock tag (parseTagged tag)

def readByNumber (number : Nat) : AnchorProgram (BlockRef × String) :=
  readBlock (hex number) fun raw => parseBlock raw (some number)

/-- `except (RpcResponseError, _FinalityTagUnavailable)` -/
def tagUnsupported : AnchorException → Bool
  | .finalityTagUnavailable _ => true
  | .rpc (.failure className _) => className = "RpcResponseError"
  | _ => false

/-- The block that is `confirmationDepth` below the latest one. -/
def depthTip (resolver : AnchorResolver) : AnchorProgram (BlockRef × String × List String) := do
  let latest ← readByTag "latest"
  if latest.1.number < resolver.confirmationDepth then
    throw (.notFinalized "chain height is below configured confirmation depth")
  let safe ← readByNumber (latest.1.number - resolver.confirmationDepth)
  return (safe.1, s!"confirmations:{resolver.confirmationDepth}", [latest.2, safe.2].eraseDups)

/-- Prefer a consensus finality tag; use depth only when the tag is unsupported. -/
def safeTip (resolver : AnchorResolver) : AnchorProgram (BlockRef × String × List String) :=
  tryCatch
    (do
      let finalized ← readByTag resolver.finalityTag
      return (finalized.1, s!"tag:{resolver.finalityTag}", [finalized.2]))
    fun exc => if tagUnsupported exc then resolver.depthTip else throw exc

/-- The cached block, or the one the pool answers. -/
def read (st : ReadState) (number : Nat) : AnchorProgram (BlockRef × ReadState) :=
  match st.cache.lookup number with
  | some block => return (block, st)
  | none => do
    let served ← readByNumber number
    return (served.1, { st with cache := (number, served.1) :: st.cache }.served served.2)

/-- Invariant: the timestamp at `low` is before the boundary, the one at `high` is not. -/
def search (boundary : Int) (low high : Nat) (st : ReadState) :
    AnchorProgram (Nat × Nat × ReadState) :=
  if 1 < high - low then do
    let (candidate, st) ← read st (low + (high - low) / 2)
    if (candidate.timestamp : Int) < boundary then
      search boundary (low + (high - low) / 2) high st
    else search boundary low (low + (high - low) / 2) st
  else return (low, high, st)
termination_by high - low

/-- The re-read of the two proof blocks, and the boundary proof. -/
def confirm (snapshotDate : Nat) (tip : BlockRef) (source : String) (anchor nextBlock : BlockRef)
    (fingerprints : List String) : AnchorProgram ResolvedAnchor := do
  let confirmedAnchor ← readByNumber anchor.number
  let confirmedNext ← readByNumber nextBlock.number
  ofExcept (check (confirmedAnchor.1 = anchor ∧ confirmedNext.1 = nextBlock)
    (.conflict "canonical blocks changed during anchor resolution"))
  let st := ((⟨[], fingerprints⟩ : ReadState).served confirmedAnchor.2).served confirmedNext.2
  let resolved : ResolvedAnchor :=
    ⟨snapshotDate, confirmedAnchor.1, confirmedNext.1, tip, source, st.fingerprints⟩
  ofExcept (validateResolvedAnchor resolved)
  return resolved

def resolve (resolver : AnchorResolver) (snapshotDate : Nat) : AnchorProgram ResolvedAnchor := do
  let boundary ← ofExcept (utcDayEndTimestamp snapshotDate)
  let (tip, source, endpoints) ← resolver.safeTip
  if (tip.timestamp : Int) < boundary then
    throw (.notFinalized "safe chain tip has not reached the end of the requested UTC day")
  let (genesis, st) ← read ⟨[(tip.number, tip)], endpoints⟩ 0
  if boundary ≤ (genesis.timestamp : Int) then
    throw (.validation "requested UTC day ends before chain genesis")
  let (low, high, st) ← search boundary 0 tip.number st
  let (anchor, st) ← read st low
  let (nextBlock, st) ← read st high
  confirm snapshotDate tip source anchor nextBlock st.fingerprints

end AnchorResolver

end RpcStateIndexer
