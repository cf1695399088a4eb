import RpcStateIndexer.Collectors.Common
import RpcStateIndexer.Config.Token
import RpcStateIndexer.Evm.Calldata
import RpcStateIndexer.Reasoning.Binary64

/-!
# ERC-20 balances and supplies

One call for every holder of a frozen universe and one for every supply function.  An observed zero is
a row; a call that failed is an error.
-/

namespace RpcStateIndexer

open Reasoning Program

/-- The value of the enumeration, as it is stored. -/
def IntegrityMode.value : IntegrityMode → String
  | .fullSupply => "full_supply"
  | .scaledFullSupply => "scaled_full_supply"
  | .scoped => "scoped"
  | .poolAssets => "pool_assets"
  | .clLiquidity => "cl_liquidity"

/-! ## The calls of a token -/

def scalarCalldata (keccak : String → List UInt8) (functionName : String) :
    Except String (List UInt8) :=
  if functionName = "totalSupply" then .ok totalSupplySelector
  else if functionName = "scaledTotalSupply" then .ok (functionSelector keccak "scaledTotalSupply()")
  else .error s!"unsupported uint256 scalar function: {functionName}"

def assertUniverse (frozen : FrozenUniverse) : Except String Unit := do
  check (frozen.addresses = sortedSet frozen.addresses)
    "frozen universe addresses must be unique and sorted"
  check (sortedSet (frozen.sources.map Prod.fst) = sortedSet frozen.addresses)
    "frozen universe provenance must cover every address exactly"

/-- The call that reads a holder's balance through a function of the token. -/
def holderSpec (token : TokenConfig) (functionName : String)
    (calldata : String → Except String (List UInt8)) (holder : String) :
    Except String (String × UIntCallSpec) := do
  let call : ContractCall :=
    { key := s!"{functionName}/{holder}"
      target := token.address
      calldata := ← calldata holder }
  return (holder, ⟨call, holder, functionName⟩)

/-- The call that reads a supply function of the token. -/
def scalarSpec (keccak : String → List UInt8) (token : TokenConfig) (name : String) :
    Except String (String × UIntCallSpec) := do
  let call : ContractCall :=
    { key := s!"scalar/{name}"
      target := token.address
      calldata := ← scalarCalldata keccak name }
  return (name, ⟨call, token.address, name⟩)

/-- The calls of the supply functions that come after `seen`. -/
def scalarSpecs (keccak : String → List UInt8) (token : TokenConfig) :
    List String → List String → Except String (List (String × UIntCallSpec))
  | _, [] => .ok []
  | seen, name :: names => do
    check (decide (name ∉ seen)) s!"duplicate supply function: {name}"
    let spec ← scalarSpec keccak token name
    return spec :: (← scalarSpecs keccak token (name :: seen) names)

/-! ## The holder sum -/

/-- A relative tolerance as it is written: `coefficient` in units of the last of `scale` decimals. -/
structure Tolerance where
  coefficient : Nat
  scale : Nat
  deriving DecidableEq

/-- The digits of a product of decimals; further ones are rounded away. -/
def decimalPrecision : Nat := 28

/-- `int(Decimal(expected) * tolerance)` -/
def toleranceAllowance (expected : Int) (tolerance : Tolerance) : Int :=
  let product := expected.natAbs * tolerance.coefficient
  let unit := 10 ^ ((Nat.toDigits 10 product).length - decimalPrecision)
  let magnitude := divHalfEven product unit * unit / 10 ^ tolerance.scale
  if expected < 0 then -magnitude else magnitude

def holderSumWithinTolerance (observed expected : Int) (tolerance : Tolerance) : Bool :=
  (observed - expected).natAbs ≤ toleranceAllowance expected tolerance

/-- A tolerance of 0 restores the strict equality. -/
theorem holderSumWithinTolerance_zero {observed expected : Int} {tolerance : Tolerance}
    (h : tolerance.coefficient = 0) :
    holderSumWithinTolerance observed expected tolerance = true ↔ observed = expected := by
  have hallowance : toleranceAllowance expected tolerance = 0 := by
    unfold toleranceAllowance
    rw [h, Nat.mul_zero]
    simp [divHalfEven_zero]
  unfold holderSumWithinTolerance
  rw [hallowance, decide_eq_true_eq]
  omega

/-! ## The collector -/

structure Erc20Collector where
  keccak : String → List UInt8
  holderSumRelativeTolerance : Tolerance

/-- What a collection of a token asks: its holders, its scalars and further calls. -/
structure TokenRequest where
  holders : List (String × UIntCallSpec)
  scalars : List (String × UIntCallSpec)
  sentinel : Option UIntCallSpec

/-- The calls in the order they are sent. -/
def TokenRequest.specs (request : TokenRequest) : List UIntCallSpec :=
  request.holders.map Prod.snd ++ request.scalars.map Prod.snd ++ request.sentinel.toList

namespace TokenRequest

variable {request : TokenRequest}

theorem mem_specs_of_holder {x : String × UIntCallSpec} (hx : x ∈ request.holders) :
    x.2 ∈ request.specs :=
  List.mem_append_left _ (List.mem_append_left _ (List.mem_map_of_mem hx))

theorem mem_specs_of_scalar {x : String × UIntCallSpec} (hx : x ∈ request.scalars) :
    x.2 ∈ request.specs :=
  List.mem_append_left _ (List.mem_append_right _ (List.mem_map_of_mem hx))

theorem mem_specs_of_sentinel {spec : UIntCallSpec} (hspec : spec ∈ request.sentinel) :
    spec ∈ request.specs :=
  List.mem_append_right _ (Option.mem_toList.mpr hspec)

end TokenRequest

/-- The total supply counts the zero address, which a sentinel keeps out of the holders. -/
def sentinelSpec (token : TokenConfig) (integrityMode : IntegrityMode) :
    Except String (Option UIntCallSpec) :=
  if integrityMode = .fullSupply ∧ token.zeroAddressRole = .eventSentinel then do
    let call : ContractCall :=
      { key := s!"sentinel/{zeroAddress}"
        target := token.address
        calldata := ← balanceOfCalldata zeroAddress }
    return some ⟨call, zeroAddress, "balanceOf_sentinel"⟩
  else .ok none

def balanceRow (x : String × Nat × Nat) : BalanceRow where
  holderAddress := x.1
  balanceRaw := x.2.1
  batchSequence := x.2.2

def scalarRow (x : String × Nat × Nat) : ScalarRow where
  scalarName := x.1
  scalarRaw := x.2.1
  batchSequence := x.2.2

/-- The value of a supply function, when it was read. -/
def scalarValue (scalars : List (String × Nat × Nat)) (name : String) : Option Nat :=
  (scalars.lookup name).map Prod.fst

/-- The balance of the sentinel and the error of its call. -/
def readSentinel (decoded : DecodedExecution) : Option UIntCallSpec →
    Except CollectorFault (Option Nat × List CollectionError)
  | none => .ok (none, [])
  | some spec => do
    let call ← decoded.call spec.call.key
    return match call.observation.value with
      | some value => (some value, [])
      | none => (none, [call.asError])

/-- `IntegrityResult.complete` -/
def IntegrityResult.complete (check : String) : IntegrityResult where
  passed := true
  check := check

/-- The supply that the holders are to add up to. -/
def expectedSupply (supply sentinelBalance : Option Nat) : Option Int :=
  supply.map fun supply => (supply : Int) - (sentinelBalance.getD 0 : Nat)

namespace Erc20Collector

def supplyCheck (self : Erc20Collector) (integrityMode : IntegrityMode) (complete : Bool)
    (balances : List (String × Nat × Nat)) (expected : Option Int) : IntegrityResult :=
  if integrityMode = .fullSupply then
    let observed : Int := ((balances.map fun x => x.2.1).sum : Nat)
    { passed := complete && expected.any fun expected =>
        holderSumWithinTolerance observed expected self.holderSumRelativeTolerance
      check := "holder_sum_equals_total_supply"
      observed := some observed
      expected := expected }
  else .complete "scoped_coverage_no_supply_invariant"

def assertCollectible (token : TokenConfig) (frozen : FrozenUniverse) (anchor : BlockRef)
    (integrityMode : IntegrityMode) : Except String Unit := do
  check (!token.isAtoken) "aTokens must use ATokenCollector"
  check (token.balanceFunction = .balanceOf) "ERC-20 collector requires balanceOf"
  check (integrityMode = .fullSupply || integrityMode = .scoped)
    s!"unsupported ERC-20 integrity mode: {integrityMode.value}"
  check (token.deploymentBlock ≤ anchor.number) "token is not deployed at the requested anchor"
  assertUniverse frozen

def request (self : Erc20Collector) (token : TokenConfig) (frozen : FrozenUniverse)
    (anchor : BlockRef) (integrityMode : IntegrityMode) : Except String TokenRequest := do
  assertCollectible token frozen anchor integrityMode
  let holders ← frozen.addresses.mapM (holderSpec token "balanceOf" balanceOfCalldata)
  let scalars ← scalarSpecs self.keccak token [] token.supplyFunctions
  let sentinel ← sentinelSpec token integrityMode
  return ⟨holders, scalars, sentinel⟩

/-- The rows and the checks of the decoded calls of a request. -/
def materialize (self : Erc20Collector) (token : TokenConfig) (frozen : FrozenUniverse)
    (integrityMode : IntegrityMode) (request : TokenRequest) (decoded : DecodedExecution) :
    Except CollectorFault TokenCollectionResult := do
  let (balances, balanceErrors) ← splitCalls decoded request.holders
  let (scalars, scalarErrors) ← splitCalls decoded request.scalars
  let (complete, successful) := completenessCheck request.specs.length decoded
  let (sentinelBalance, sentinelErrors) ← readSentinel decoded request.sentinel
  let expected := expectedSupply (scalarValue scalars "totalSupply") sentinelBalance
  return {
    integrityMode := integrityMode
    expectedCalls := request.specs.length
    errors := balanceErrors ++ scalarErrors ++ sentinelErrors
    batches := decoded.batches
    integrityChecks :=
      [{ passed := complete
         check := "observations_complete"
         observed := some successful
         expected := some request.specs.length },
       self.supplyCheck integrityMode complete balances expected]
    tokenAddress := token.address
    universeHash := frozen.universeHash
    balances := balances.map balanceRow
    scalars := scalars.map scalarRow }

def collect (self : Erc20Collector) (token : TokenConfig) (frozen : FrozenUniverse)
    (anchor : BlockRef) (integrityMode : IntegrityMode) : CollectorProgram TokenCollectionResult := do
  let request ← ofExcept (orValueError (self.request token frozen anchor integrityMode))
  let decoded ← executeUintCalls request.specs anchor
  ofExcept (self.materialize token frozen integrityMode request decoded)

end Erc20Collector

end RpcStateIndexer
