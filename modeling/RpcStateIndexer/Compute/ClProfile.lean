import RpcStateIndexer.Census.Views
import RpcStateIndexer.Census.Runner

/-!
# The liquidity profile of a concentrated-liquidity pool

Between two adjacent initialized ticks the active liquidity is the running sum of `liquidityNet` over
the ticks at or below the lower bound; below the lowest and above the highest tick it is zero, and no
row is written.  The module reads the published views and appends to its own table.
-/

namespace RpcStateIndexer

open Reasoning Program

/-- A row of `pool_liquidity_profile`. -/
structure ProfileRow where
  chainId : Nat
  poolAddress : String
  snapshotDate : Nat
  tickLower : Int
  tickUpper : Int
  activeLiquidity : Int
  sourceAttemptId : Uuid
  sourceResultDigest : String
  deriving DecidableEq

/-- The sort key of the table. -/
def ProfileRow.key (row : ProfileRow) : Nat × String × Nat × Int :=
  (row.chainId, row.poolAddress, row.snapshotDate, row.tickLower)

/-- `v_pool_liquidity_profile` -/
def profileView (table : List ProfileRow) : List ProfileRow := final ProfileRow.key table

/-- What the module reads of a published state. -/
structure ClStateSource where
  poolAddress : String
  attemptId : Uuid
  resultDigest : String
  deriving DecidableEq

/-- What the module reads of a published tick. -/
structure TickSource where
  tick : Int
  liquidityNet : Int
  deriving DecidableEq

def PoolTickRow.source (row : PoolTickRow) : TickSource := ⟨row.tick, row.liquidityNet⟩

namespace CensusStore

def clStateSources (s : CensusStore) (chainId snapshotDate : Nat) : List ClStateSource :=
  (s.poolClStatePublished.filter fun x =>
    x.1.scope.chainId = chainId && x.1.scope.snapshotDate = snapshotDate).map fun x =>
      ⟨x.1.scope.targetAddress, x.1.scope.attemptId, x.2.resultDigest⟩

def tickSources (s : CensusStore) (chainId snapshotDate : Nat) (pool : String) (attempt : Uuid) :
    List TickSource :=
  sortBy TickSource.tick ((s.poolTicksPublished.filter fun x =>
    x.1.scope.chainId = chainId && x.1.scope.snapshotDate = snapshotDate &&
      x.1.scope.targetAddress = pool && x.1.scope.attemptId = attempt).map fun x => x.1.row.source)

end CensusStore

/-! ## The segments of one state -/

/-- The walk over adjacent ticks, with the sum that was reached before the first of them. -/
def segmentsFrom (chainId snapshotDate : Nat) (state : ClStateSource) (cumulative : Int) :
    List TickSource → Except String (List ProfileRow)
  | [] => .ok []
  | [_] => .ok []
  | lower :: upper :: rest => do
    let reached := cumulative + lower.liquidityNet
    check (0 ≤ reached)
      s!"reconstructed liquidity went negative for {state.poolAddress} at tick {lower.tick}: {reached}"
    let rows ← segmentsFrom chainId snapshotDate state reached (upper :: rest)
    return {
      chainId := chainId
      poolAddress := state.poolAddress
      snapshotDate := snapshotDate
      tickLower := lower.tick
      tickUpper := upper.tick
      activeLiquidity := reached
      sourceAttemptId := state.attemptId
      sourceResultDigest := state.resultDigest } :: rows

/-- `_segments` -/
def segments (chainId snapshotDate : Nat) (state : ClStateSource) (ticks : List TickSource) :
    Except String (List ProfileRow) :=
  segmentsFrom chainId snapshotDate state 0 ticks

/-! ## The module -/

inductive ComputeOp where
  | clStates (chainId snapshotDate : Nat)
  | ticks (chainId snapshotDate : Nat) (pool : String) (attempt : Uuid)
  | insertProfile (rows : List ProfileRow)
  deriving DecidableEq

abbrev ComputeValue : ComputeOp → Type
  | .clStates _ _ => List ClStateSource
  | .ticks _ _ _ _ => List TickSource
  | .insertProfile _ => Unit

abbrev ComputeAns (op : ComputeOp) := Except Failure (ComputeValue op)

abbrev ComputeProgram := Program ComputeOp ComputeAns Failure

namespace ClProfileModule

/-- One request to the store. -/
def request (op : ComputeOp) : ComputeProgram (ComputeValue op) :=
  .call op fun answer => ofExcept answer

/-- Nothing is inserted for a state without segments. -/
def insertRows (rows : List ProfileRow) : ComputeProgram Unit :=
  match rows with
  | [] => return ()
  | rows => request (.insertProfile rows)

/-- The rows of one state, and how many were written. -/
def computeState (chainId snapshotDate : Nat) (state : ClStateSource) : ComputeProgram Nat := do
  let ticks ← request (.ticks chainId snapshotDate state.poolAddress state.attemptId)
  let rows ← ofExcept ((segments chainId snapshotDate state ticks).mapError fun message =>
    ⟨"ValueError", message⟩)
  insertRows rows
  return rows.length

/-- The loop over the states, with the number of rows written before. -/
def computeStates (chainId snapshotDate : Nat) : Nat → List ClStateSource → ComputeProgram Nat
  | written, [] => return written
  | written, state :: rest => do
    let count ← computeState chainId snapshotDate state
    computeStates chainId snapshotDate (written + count) rest

def compute (chainId snapshotDate : Nat) : ComputeProgram Nat := do
  let states ← request (.clStates chainId snapshotDate)
  computeStates chainId snapshotDate 0 states

end ClProfileModule

end RpcStateIndexer
