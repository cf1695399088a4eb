import RpcStateIndexer.Evm.Bytes
import RpcStateIndexer.Reasoning.Sha256
import RpcStateIndexer.Reasoning.Sorting
import Mathlib.Data.Prod.Lex

/-!
# Canonical digests

Four SHA-256 digests of what an attempt observed.  Each sorts its rows by a key of its own and writes
them one after another, every record under a one-byte tag; the stream it hashes is a definition of
its own here, so that what a digest covers can be stated without the hash.
-/

namespace RpcStateIndexer

open Reasoning

structure BalanceDigestRow where
  holderAddress : String
  balanceRaw : Int
  scaledBalanceRaw : Option Int := none
  valueKind : String := "direct"
  deriving DecidableEq

structure ScalarDigestRow where
  scalarName : String
  scalarRaw : Int
  deriving DecidableEq

structure PoolBalanceDigestRow where
  poolAddress : String
  tokenAddress : String
  balanceRaw : Int
  deriving DecidableEq

structure PoolClStateDigestRow where
  poolAddress : String
  sqrtPriceX96 : Int
  currentTick : Int
  liquidity : Int
  feeGrowthGlobal0X128 : Int
  feeGrowthGlobal1X128 : Int
  tickSpacing : Int
  fee : Int
  tickCount : Int
  deriving DecidableEq

structure PoolTickDigestRow where
  poolAddress : String
  tick : Int
  liquidityGross : Int
  liquidityNet : Int
  feeGrowthOutside0X128 : Int
  feeGrowthOutside1X128 : Int
  deriving DecidableEq

/-- What a digest raises on a row it cannot encode. -/
inductive DigestException where
  /-- address must be normalized lowercase 0x hex -/
  | address (value : String)
  /-- value is outside UInt256 -/
  | uint256
  /-- value is outside Int256 -/
  | int256
  /-- digest text field is too large -/
  | text
  /-- duplicate universe member -/
  | duplicate (address : String)
  /-- int too big to convert -/
  | overflow
  /-- tick row pool address does not match the state row -/
  | tickPool
  deriving DecidableEq

abbrev Encoded := Except DigestException (List UInt8)

/-! ## Fields -/

def uint256Max : Int := 2 ^ 256 - 1
def int256Min : Int := -2 ^ 255
def int256Max : Int := 2 ^ 255 - 1

abbrev AddressBytes := List.Vector UInt8 20

theorem length_fromHex_drop {value : String} (h : isAddress value = true) :
    (fromHex (value.toList.drop 2)).length = 20 := by
  obtain ⟨body, htext, hlen, -⟩ := isAddress_iff.mp h
  rw [length_fromHex, htext]
  show body.length / 2 = 20
  rw [hlen]

def addressBytes (value : String) : Except DigestException AddressBytes :=
  if h : isAddress value then .ok ⟨fromHex (value.toList.drop 2), length_fromHex_drop h⟩
  else .error (.address value)

def addressField (value : String) : Encoded := do
  return (← addressBytes value).toList

def uint256Bytes (value : Int) : Encoded :=
  if 0 ≤ value ∧ value ≤ uint256Max then .ok (bytesBE 32 value.toNat) else .error .uint256

/-- Signed two's-complement encoding for the fields that are genuinely signed. -/
def int256Bytes (value : Int) : Encoded :=
  if int256Min ≤ value ∧ value ≤ int256Max then .ok (bytesBE 32 (value % 2 ^ 256).toNat)
  else .error .int256

/-- `length.to_bytes(4, "big")` -/
def countBytes (length : Nat) : Encoded :=
  if length < 256 ^ 4 then .ok (bytesBE 4 length) else .error .overflow

/-- `value.encode("utf-8")` -/
def utf8 (value : String) : List UInt8 := value.toByteArray.data.toList

def textBytes (value : String) : Encoded :=
  if (utf8 value).length > 0xFFFFFFFF then .error .text
  else updates [countBytes (utf8 value).length, .ok (utf8 value)]

/-- A presence byte, and the value when there is one. -/
def scaledBytes : Option Int → Encoded
  | none => .ok [0]
  | some value => updates [.ok [1], uint256Bytes value]

/-- The address bytes as they compare. -/
def addressKey (value : String) : Except DigestException (List Nat) := do
  return (← addressBytes value).toList.map UInt8.toNat

/-! ## Universe -/

def universeHeader : List UInt8 := utf8 "rpc-state-indexer/universe/v1\x00"

/-- The members in input order, each with its distinct sources sorted. -/
def canonicalMembers : List (String × List String) → List String →
    Except DigestException (List (AddressBytes × List String))
  | [], _ => .ok []
  | (address, sources) :: rest, seen =>
    if address ∈ seen then .error (.duplicate address)
    else do
      let bytes ← addressBytes address
      let canonical ← canonicalMembers rest (address :: seen)
      return (bytes, sortedSet sources) :: canonical

def memberUpdates (member : AddressBytes × List String) : Encoded :=
  updates [.ok (utf8 "U"), .ok member.1.toList,
    updates (countBytes member.2.length :: member.2.map textBytes)]

def universeStream (members : List (String × List String)) : Encoded := do
  let canonical ← canonicalMembers members []
  let ordered := sortBy (fun member => member.1.toList.map UInt8.toNat) canonical
  updates [.ok universeHeader, updates (ordered.map memberUpdates)]

def digestUniverse (members : List (String × List String)) : Except DigestException String := do
  return hexdigest (sha256 (← universeStream members))

/-! ## Token observations -/

def tokenHeader : List UInt8 := utf8 "rpc-state-indexer/token-observations/v1\x00"

def BalanceDigestRow.key (row : BalanceDigestRow) :
    Except DigestException (List Nat ×ₗ String ×ₗ Int ×ₗ Int) := do
  let address ← addressKey row.holderAddress
  return toLex (address, toLex (row.valueKind,
    toLex (row.balanceRaw, row.scaledBalanceRaw.getD (-1))))

def BalanceDigestRow.updates (row : BalanceDigestRow) : Encoded :=
  Reasoning.updates [.ok (utf8 "B"), addressField row.holderAddress, textBytes row.valueKind,
    uint256Bytes row.balanceRaw, scaledBytes row.scaledBalanceRaw]

def ScalarDigestRow.key (row : ScalarDigestRow) : String ×ₗ Int :=
  toLex (row.scalarName, row.scalarRaw)

def ScalarDigestRow.updates (row : ScalarDigestRow) : Encoded :=
  Reasoning.updates [.ok (utf8 "S"), textBytes row.scalarName, uint256Bytes row.scalarRaw]

def tokenStream (balances : List BalanceDigestRow) (scalars : List ScalarDigestRow) : Encoded := do
  let balanceRows ← sortByM BalanceDigestRow.key balances
  let scalarRows := sortBy ScalarDigestRow.key scalars
  updates [.ok tokenHeader, updates (balanceRows.map BalanceDigestRow.updates),
    updates (scalarRows.map ScalarDigestRow.updates)]

def digestTokenObservations (balances : List BalanceDigestRow) (scalars : List ScalarDigestRow) :
    Except DigestException String := do
  return hexdigest (sha256 (← tokenStream balances scalars))

/-! ## Pool observations -/

def poolHeader : List UInt8 := utf8 "rpc-state-indexer/pool-observations/v1\x00"

def PoolBalanceDigestRow.key (row : PoolBalanceDigestRow) :
    Except DigestException (List Nat ×ₗ List Nat ×ₗ Int) := do
  let pool ← addressKey row.poolAddress
  let token ← addressKey row.tokenAddress
  return toLex (pool, toLex (token, row.balanceRaw))

def PoolBalanceDigestRow.updates (row : PoolBalanceDigestRow) : Encoded :=
  Reasoning.updates [.ok (utf8 "P"), addressField row.poolAddress, addressField row.tokenAddress,
    uint256Bytes row.balanceRaw]

def poolStream (rows : List PoolBalanceDigestRow) : Encoded := do
  let canonical ← sortByM PoolBalanceDigestRow.key rows
  updates [.ok poolHeader, updates (canonical.map PoolBalanceDigestRow.updates)]

def digestPoolObservations (rows : List PoolBalanceDigestRow) : Except DigestException String := do
  return hexdigest (sha256 (← poolStream rows))

/-! ## Concentrated-liquidity observations -/

def clHeader : List UInt8 := utf8 "rpc-state-indexer/cl-observations/v1\x00"

def PoolClStateDigestRow.updates (state : PoolClStateDigestRow) : Encoded :=
  Reasoning.updates [.ok (utf8 "C"), addressField state.poolAddress,
    uint256Bytes state.sqrtPriceX96, int256Bytes state.currentTick, uint256Bytes state.liquidity,
    uint256Bytes state.feeGrowthGlobal0X128, uint256Bytes state.feeGrowthGlobal1X128,
    int256Bytes state.tickSpacing, uint256Bytes state.fee, uint256Bytes state.tickCount]

/-- The pool address of a tick row is compared with the state's, not written. -/
def PoolTickDigestRow.updates (poolAddress : String) (row : PoolTickDigestRow) : Encoded :=
  if row.poolAddress ≠ poolAddress then .error .tickPool
  else Reasoning.updates [.ok (utf8 "T"), int256Bytes row.tick, uint256Bytes row.liquidityGross,
    int256Bytes row.liquidityNet, uint256Bytes row.feeGrowthOutside0X128,
    uint256Bytes row.feeGrowthOutside1X128]

def clStream (state : PoolClStateDigestRow) (ticks : List PoolTickDigestRow) : Encoded :=
  updates [.ok clHeader, state.updates,
    updates ((sortBy PoolTickDigestRow.tick ticks).map (PoolTickDigestRow.updates state.poolAddress))]

def digestClObservations (state : PoolClStateDigestRow) (ticks : List PoolTickDigestRow) :
    Except DigestException String := do
  return hexdigest (sha256 (← clStream state ticks))

end RpcStateIndexer
