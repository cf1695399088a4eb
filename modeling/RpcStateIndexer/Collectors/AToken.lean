import RpcStateIndexer.Collectors.Erc20

/-!
# aToken balances

The scaled balances of the holders and the liquidity index of one block; the balance of a holder is
reconstructed from both, or is an error.
-/

namespace RpcStateIndexer

open Reasoning Program

/-! ## Ray arithmetic -/

def ray : Nat := 10 ^ 27
def halfRay : Nat := 5 * 10 ^ 26

/-- `rayMul`: the nearest integer, ties rounded up.  The text of the exception is the error. -/
def rayMulHalfUp (value rayFactor : Nat) : Except String Nat :=
  let output := (value * rayFactor + halfRay) / ray
  if uint256Max < value ∨ uint256Max < rayFactor then .error "rayMul operand is outside uint256"
  else if uint256Max < output then .error "rayMul result is outside uint256"
  else .ok output

/-! ## The collector -/

structure ATokenCollector where
  keccak : String → List UInt8

/-- The scalar that an index source gives. -/
def indexOutputName : String := "liquidity_index_ray"

def indexFunction : String := "getReserveNormalizedIncome(address)"

def scaledBalanceOfCalldata (keccak : String → List UInt8) (holder : String) :
    Except String (List UInt8) := do
  return functionSelector keccak "scaledBalanceOf(address)" ++ (← addressWord holder)

def indexSpec (keccak : String → List UInt8) (index : IndexSourceConfig) :
    Except String (String × UIntCallSpec) := do
  let call : ContractCall :=
    { key := s!"scalar/{indexOutputName}"
      target := index.contract
      calldata := functionSelector keccak indexFunction ++ (← addressWord index.argument) }
  return (indexOutputName, ⟨call, index.contract, indexFunction⟩)

/-- A scaled balance without an index to multiply it by. -/
def indexUnavailable (x : String × Nat × Nat) : CollectionError where
  subjectAddress := x.1
  callKind := "ray_reconstruct"
  status := .rpcError
  batchSequence := x.2.2
  message := s!"{indexOutputName} is unavailable"

/-- The balance of a holder, or why it cannot be reconstructed. -/
def reconstruct (liquidityIndex : Option Nat) (x : String × Nat × Nat) :
    Except CollectionError BalanceRow :=
  match liquidityIndex with
  | none => .error (indexUnavailable x)
  | some index =>
    match rayMulHalfUp x.2.1 index with
    | .error message =>
      .error { indexUnavailable x with
        status := .malformedReturn
        message := message }
    | .ok reconstructed =>
      .ok { holderAddress := x.1
            balanceRaw := reconstructed
            scaledBalanceRaw := some (x.2.1 : Int)
            valueKind := "ray_reconstructed"
            batchSequence := x.2.2 }

namespace ATokenCollector

def supplyCheck (integrityMode : IntegrityMode) (complete : Bool) (scaled : List (String × Nat × Nat))
    (expected : Option Nat) : IntegrityResult :=
  if integrityMode = .scaledFullSupply then
    let observed := (scaled.map fun x => x.2.1).sum
    { passed := complete && expected = some observed
      check := "scaled_holder_sum_equals_scaled_total_supply"
      observed := some (observed : Int)
      expected := expected.map fun supply => (supply : Int) }
  else .complete "scoped_coverage_no_supply_invariant"

def assertCollectible (token : TokenConfig) (frozen : FrozenUniverse) (anchor : BlockRef)
    (integrityMode : IntegrityMode) : Except String Unit := do
  check token.isAtoken "ATokenCollector requires an aToken config"
  check (token.balanceFunction = .scaledBalanceOf) "aToken collector requires scaledBalanceOf"
  check token.indexSource.isSome "aToken config has no index source"
  check (integrityMode = .scaledFullSupply || integrityMode = .scoped)
    s!"unsupported aToken integrity mode: {integrityMode.value}"
  check (token.deploymentBlock ≤ anchor.number) "token is not deployed at the requested anchor"
  assertUniverse frozen

/-- The index of the reserve is read after the supply functions. -/
def request (self : ATokenCollector) (token : TokenConfig) (frozen : FrozenUniverse)
    (anchor : BlockRef) (integrityMode : IntegrityMode) : Except String TokenRequest := do
  assertCollectible token frozen anchor integrityMode
  let holders ← frozen.addresses.mapM
    (holderSpec token "scaledBalanceOf" (scaledBalanceOfCalldata self.keccak))
  let scalars ← scalarSpecs self.keccak token [] token.supplyFunctions
  let index ← token.indexSource.toList.mapM (indexSpec self.keccak)
  return ⟨holders, scalars ++ index, none⟩

def materialize (token : TokenConfig) (frozen : FrozenUniverse) (integrityMode : IntegrityMode)
    (request : TokenRequest) (decoded : DecodedExecution) :
    Except CollectorFault TokenCollectionResult := do
  let (scaled, balanceErrors) ← splitCalls decoded request.holders
  let (scalars, scalarErrors) ← splitCalls decoded request.scalars
  let rows := partition (scaled.map (reconstruct (scalarValue scalars indexOutputName)))
  let errors := balanceErrors ++ scalarErrors ++ rows.2
  let (callsComplete, successful) := completenessCheck request.specs.length decoded
  let complete := callsComplete && decide (rows.1.length = frozen.size) && errors.isEmpty
  return {
    integrityMode := integrityMode
    expectedCalls := request.specs.length
    errors := errors
    batches := decoded.batches
    integrityChecks :=
      [{ passed := complete
         check := "observations_complete"
         observed := some successful
         expected := some request.specs.length },
       supplyCheck integrityMode complete scaled (scalarValue scalars "scaledTotalSupply")]
    tokenAddress := token.address
    universeHash := frozen.universeHash
    balances := rows.1
    scalars := scalars.map scalarRow }

def collect (self : ATokenCollector) (token : TokenConfig) (frozen : FrozenUniverse)
    (anchor : BlockRef) (integrityMode : IntegrityMode) : CollectorProgram TokenCollectionResult := do
  let request ← ofExcept (orValueError (self.request token frozen anchor integrityMode))
  let decoded ← executeUintCalls request.specs anchor
  ofExcept (materialize token frozen integrityMode request decoded)

end ATokenCollector

end RpcStateIndexer
