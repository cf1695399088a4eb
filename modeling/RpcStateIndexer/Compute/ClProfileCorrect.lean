import RpcStateIndexer.Collectors.ClLiquidity
import RpcStateIndexer.Compute.ClProfile
import RpcStateIndexer.Reasoning.StepFunction

/-!
# The profile against the collector's sums

The walk over adjacent ticks is the step function whose jumps are the net liquidities.  What the
collector reconciled is the value of the same function at the current tick, so the profile meets the
liquidity of the pool there.
-/

namespace RpcStateIndexer

open Reasoning Program

/-- The jumps of the active liquidity. -/
def netJumps (ticks : List TickSource) : List (Int × Int) :=
  ticks.map fun source => (source.tick, source.liquidityNet)

/-- The row of a span of the active liquidity. -/
def spanRow (chainId snapshotDate : Nat) (state : ClStateSource) (s : Span Int Int) : ProfileRow where
  chainId := chainId
  poolAddress := state.poolAddress
  snapshotDate := snapshotDate
  tickLower := s.lower
  tickUpper := s.upper
  activeLiquidity := s.level
  sourceAttemptId := state.attemptId
  sourceResultDigest := state.resultDigest

/-- The active liquidity that rows give at a tick: zero where no row reaches. -/
def profileAt (rows : List ProfileRow) (tick : Int) : Int :=
  match rows.find? fun row => row.tickLower ≤ tick ∧ tick < row.tickUpper with
  | some row => row.activeLiquidity
  | none => 0

/-! ## The walk -/

section Walk

variable {chainId snapshotDate : Nat} {state : ClStateSource}

/-- The walk returns the spans, unless one of them is negative. -/
theorem segmentsFrom_eq_ok_iff {cumulative : Int} {ticks : List TickSource} {rows : List ProfileRow} :
    segmentsFrom chainId snapshotDate state cumulative ticks = .ok rows ↔
      (∀ s ∈ spans cumulative (netJumps ticks), 0 ≤ s.level) ∧
        rows = (spans cumulative (netJumps ticks)).map (spanRow chainId snapshotDate state) := by
  induction ticks generalizing cumulative rows with
  | nil => simp [segmentsFrom, netJumps, spans, eq_comm]
  | cons lower ticks ih =>
    cases ticks with
    | nil => simp [segmentsFrom, netJumps, spans, eq_comm]
    | cons upper rest =>
      have hspans : spans cumulative (netJumps (lower :: upper :: rest)) =
          ⟨lower.tick, upper.tick, cumulative + lower.liquidityNet⟩ ::
            spans (cumulative + lower.liquidityNet) (netJumps (upper :: rest)) := rfl
      rw [segmentsFrom, hspans]
      simp only [except_bind_eq_ok_iff, check_eq_ok_iff, decide_eq_true_eq, except_pure_eq_ok_iff,
        List.forall_mem_cons, List.map_cons]
      constructor
      · rintro ⟨-, hreached, walked, hwalked, rfl⟩
        obtain ⟨hlevels, rfl⟩ := ih.mp hwalked
        exact ⟨⟨hreached, hlevels⟩, rfl⟩
      · rintro ⟨⟨hreached, hlevels⟩, rfl⟩
        exact ⟨(), hreached, _, ih.mpr ⟨hlevels, rfl⟩, rfl⟩

theorem segments_eq_ok_iff {ticks : List TickSource} {rows : List ProfileRow} :
    segments chainId snapshotDate state ticks = .ok rows ↔
      (∀ s ∈ spans 0 (netJumps ticks), 0 ≤ s.level) ∧
        rows = (spans 0 (netJumps ticks)).map (spanRow chainId snapshotDate state) :=
  segmentsFrom_eq_ok_iff

theorem profileAt_spanRow (pieces : List (Span Int Int)) (tick : Int) :
    profileAt (pieces.map (spanRow chainId snapshotDate state)) tick = valueAt pieces tick := by
  rw [profileAt, valueAt, List.find?_map]
  show (match Option.map _ (pieces.find? fun s => s.lower ≤ tick ∧ tick < s.upper) with
    | some (row : ProfileRow) => row.activeLiquidity
    | none => 0) = _
  cases pieces.find? fun s => s.lower ≤ tick ∧ tick < s.upper <;> rfl

end Walk

/-! ## The collector's sums -/

theorem netJumps_source (ticks : List PoolTickRow) :
    netJumps (ticks.map PoolTickRow.source) =
      ticks.map fun row => (row.tick, row.liquidityNet) := by
  rw [netJumps, List.map_map]
  rfl

theorem total_netJumps (ticks : List PoolTickRow) :
    total (netJumps (ticks.map PoolTickRow.source)) = (ticks.map PoolTickRow.liquidityNet).sum := by
  rw [total, netJumps_source, List.map_map]
  rfl

theorem height_netJumps (ticks : List PoolTickRow) (tick : Int) :
    height (netJumps (ticks.map PoolTickRow.source)) tick =
      ((ticks.filter fun row => row.tick ≤ tick).map PoolTickRow.liquidityNet).sum := by
  induction ticks with
  | nil => rfl
  | cons row ticks ih =>
    have hcons : netJumps ((row :: ticks).map PoolTickRow.source) =
        (row.tick, row.liquidityNet) :: netJumps (ticks.map PoolTickRow.source) := rfl
    rw [hcons, height_cons, ih]
    by_cases h : row.tick ≤ tick
    · simp [h]
    · simp [h]

theorem ascending_netJumps {ticks : List TickSource}
    (h : ticks.Pairwise fun a b => a.tick < b.tick) : Ascending (netJumps ticks) := by
  rw [Ascending, netJumps, List.pairwise_map]
  exact h

/-- What the two checks of the collector say. -/
theorem reconcile_passed_iff {state : PoolClStateRow} {ticks : List PoolTickRow} :
    (∀ check ∈ reconcile state ticks, check.passed = true) ↔
      total (netJumps (ticks.map PoolTickRow.source)) = 0 ∧
        height (netJumps (ticks.map PoolTickRow.source)) state.currentTick = state.liquidity := by
  rw [total_netJumps, height_netJumps]
  simp [reconcile]

/-- What the rows of a published state are worth. -/
structure ProfileReconstructs (state : PoolClStateRow) (ticks : List PoolTickRow)
    (rows : List ProfileRow) : Prop where
  /-- without ticks there are no rows -/
  empty : ticks = [] → rows = []
  /-- the rows abut from the lowest tick to the highest -/
  tiling : ∀ h : ticks ≠ [], Tiles ProfileRow.tickLower ProfileRow.tickUpper (ticks.head h).tick
    (ticks.getLast h).tick rows
  nonempty : ∀ row ∈ rows, row.tickLower < row.tickUpper
  /-- the active liquidity is the sum over the ticks at or below the lower bound -/
  active : ∀ row ∈ rows, row.activeLiquidity =
    ((ticks.filter fun tick => tick.tick ≤ row.tickLower).map PoolTickRow.liquidityNet).sum
  current : profileAt rows state.currentTick = state.liquidity

/-- The profile of ticks that the collector reconciled tiles their range and meets the liquidity of the
pool at its current tick. -/
theorem profile_reconstructs {chainId snapshotDate : Nat} {source : ClStateSource}
    {state : PoolClStateRow} {ticks : List PoolTickRow} {rows : List ProfileRow}
    (hascending : ticks.Pairwise fun a b => a.tick < b.tick)
    (hpassed : ∀ check ∈ reconcile state ticks, check.passed = true)
    (h : segments chainId snapshotDate source (ticks.map PoolTickRow.source) = .ok rows) :
    ProfileReconstructs state ticks rows := by
  obtain ⟨hzero, hactive⟩ := reconcile_passed_iff.mp hpassed
  obtain ⟨-, rfl⟩ := segments_eq_ok_iff.mp h
  have hjumps : Ascending (netJumps (ticks.map PoolTickRow.source)) :=
    ascending_netJumps (List.pairwise_map.mpr hascending)
  refine ⟨?_, ?_, ?_, ?_, ?_⟩
  · rintro rfl
    rfl
  · intro hne
    have hmap : ticks.map (fun row => (row.tick, row.liquidityNet)) ≠ [] :=
      fun hnil => hne (List.map_eq_nil_iff.mp hnil)
    have htiles := spans_tiles 0 hmap
    rw [List.head_map, List.getLast_map] at htiles
    rw [Tiles.map_iff, netJumps_source]
    exact htiles
  · intro row hrow
    obtain ⟨s, hs, rfl⟩ := List.mem_map.mp hrow
    exact lower_lt_upper hjumps s hs
  · intro row hrow
    obtain ⟨s, hs, rfl⟩ := List.mem_map.mp hrow
    rw [← height_netJumps]
    show s.level = _
    rw [level_eq_height hjumps hs le_rfl (lower_lt_upper hjumps s hs), zero_add]
    rfl
  · rw [profileAt_spanRow, valueAt_spans hjumps hzero, hactive]

/-- A pool between its second tick and its third. -/
def sampleReconciled : PoolClStateRow := ⟨"pool", "uniswap_v3", 2 ^ 96, 5, 8, 0, 0, 10, 3000, 3, 0⟩

def sampleReconciledTicks : List PoolTickRow :=
  [⟨"pool", -10, 5, 5, 0, 0, 0⟩, ⟨"pool", 0, 3, 3, 0, 0, 0⟩, ⟨"pool", 20, 8, -8, 0, 0, 0⟩]

/-- Its profile has two rows, and 8 is the active liquidity at tick 5. -/
theorem profile_reconstructs_sample : ∃ rows,
    segments 100 0 ⟨"pool", "attempt", "digest"⟩ (sampleReconciledTicks.map PoolTickRow.source) =
      .ok rows ∧ rows.length = 2 ∧ ProfileReconstructs sampleReconciled sampleReconciledTicks rows :=
  ⟨_, rfl, rfl, profile_reconstructs (by decide) (by decide) rfl⟩

end RpcStateIndexer
