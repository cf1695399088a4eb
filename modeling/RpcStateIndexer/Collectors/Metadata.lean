import RpcStateIndexer.Collectors.CommonCorrect
import RpcStateIndexer.Evm.Calldata
import RpcStateIndexer.Evm.MetadataDecoding

/-!
# The metadata of tokens

`TokenMetadataCollector` reads three calls of each token.  A token whose calls fail has a record that
says so, and the records of the others do not depend on it.
-/

namespace RpcStateIndexer

open Reasoning Program

inductive ResolutionStatus where
  | resolved
  /-- `partial` -/
  | someObserved
  | failed
  deriving DecidableEq, Repr

structure TokenMetadata where
  chainId : Nat
  tokenAddress : String
  symbol : Option String
  name : Option String
  decimals : Option Nat
  resolutionStatus : ResolutionStatus
  symbolEncoding : TextEncoding
  nameEncoding : TextEncoding
  anchorBlock : Nat
  anchorHash : String
  errorClass : String := ""
  errorMessage : String := ""
  deriving DecidableEq

/-- `_status` -/
def resolutionStatus (symbol name : Option String) (decimals : Option Nat) : ResolutionStatus :=
  let observed := symbol.isSome.toNat + name.isSome.toNat + decimals.isSome.toNat
  if observed = 3 then .resolved else if observed ≠ 0 then .someObserved else .failed

structure TokenMetadataCollector where
  chainId : Nat
  keccak : String → List UInt8

namespace TokenMetadataCollector

variable (self : TokenMetadataCollector)

/-- A token that does not implement a call must not fail the batch of the others. -/
def callsOf (address : String) : List ContractCall :=
  [⟨s!"{address}:symbol", address, functionSelector self.keccak "symbol()", true⟩,
    ⟨s!"{address}:name", address, functionSelector self.keccak "name()", true⟩,
    ⟨s!"{address}:decimals", address, functionSelector self.keccak "decimals()", true⟩]

/-- What is recorded when the executor left out a call: the next pass retries the token. -/
def missingRecord (anchor : BlockRef) (address : String) : TokenMetadata where
  chainId := self.chainId
  tokenAddress := address
  symbol := none
  name := none
  decimals := none
  resolutionStatus := .failed
  symbolEncoding := .absent
  nameEncoding := .absent
  anchorBlock := anchor.number
  anchorHash := anchor.blockHash
  errorClass := "MissingCallResult"
  errorMessage := "executor returned no result for one or more calls"

/-- What of the metadata could not be observed. -/
def unresolvedDetail (symbol name : TextObservation) (decimals : Option Nat) : String :=
  let parts := [if symbol.resolved then "" else s!"symbol: {symbol.detail}",
    if name.resolved then "" else s!"name: {name.detail}",
    if decimals.isNone then "decimals: not a canonical uint8 word" else ""]
  "; ".intercalate (parts.filter fun part => part ≠ "")

def decodedRecord (anchor : BlockRef) (address : String) (symbolResult nameResult decimalsResult :
    RawCallResult) : TokenMetadata :=
  let symbol := decodeTextReturn symbolResult.success (.bytes symbolResult.returndata)
  let name := decodeTextReturn nameResult.success (.bytes nameResult.returndata)
  let decimals := decodeDecimalsReturn decimalsResult.success (.bytes decimalsResult.returndata)
  let status := resolutionStatus symbol.value name.value decimals
  let detail := if status = .resolved then "" else unresolvedDetail symbol name decimals
  { chainId := self.chainId
    tokenAddress := address
    symbol := symbol.value
    name := name.value
    decimals
    resolutionStatus := status
    symbolEncoding := symbol.encoding
    nameEncoding := name.encoding
    anchorBlock := anchor.number
    anchorHash := anchor.blockHash
    errorClass := if status = .resolved then "" else "UnresolvedMetadata"
    errorMessage := slice detail 0 4096 }

/-- `results[result.key] = result`: the last result of a key counts. -/
def resultOf (results : List RawCallResult) (key : String) : Option RawCallResult :=
  results.reverse.find? fun raw => raw.key = key

/-- The record of one address. -/
def record (anchor : BlockRef) (results : List RawCallResult) (address : String) : TokenMetadata :=
  match resultOf results s!"{address}:symbol", resultOf results s!"{address}:name",
    resultOf results s!"{address}:decimals" with
  | some symbol, some name, some decimals => self.decodedRecord anchor address symbol name decimals
  | _, _, _ => self.missingRecord anchor address

/-- Read metadata for every address at the anchor. -/
def resolve (addresses : List String) (anchor : BlockRef) : CollectorProgram (List TokenMetadata) :=
  if addresses = [] then .ret []
  else do
    let ordered := sortedSet addresses
    let batches ← execute (ordered.flatMap self.callsOf) anchor
    return ordered.map (self.record anchor (rawResults batches))

end TokenMetadataCollector

end RpcStateIndexer
