import RpcStateIndexer.Collectors.TickDiscovery

/-!
# What a verified enumeration leaves out

A verified collection that swept the ticks read every word, and every tick it discovered has its row.
It leaves out a bit that is set exactly when its tick lies outside the range: such a bit is no error.
-/

namespace RpcStateIndexer

open Reasoning Program

/-! ## Rounds -/

theorem runs_execute_ok {calls : List ContractCall} {anchor : BlockRef} {t : List (Sigma ExecuteAns)}
    {batches : List VerifiedBatchResult} (h : Runs (execute calls anchor) t (.ok batches)) :
    t = [⟨⟨calls, anchor⟩, .ok batches⟩] := by
  rw [execute, perform_bind] at h
  obtain ⟨answer, t', rfl, hanswer⟩ := runs_call_iff.mp h
  cases answer with
  | error fault => exact absurd hanswer not_runs_raise_ok
  | ok other =>
    obtain ⟨rfl, hret⟩ := runs_ret_iff.mp hanswer
    obtain rfl := Except.ok.inj hret
    rfl

/-- A round that returns asked once, and was answered with batches that are accepted. -/
theorem runs_runRound_ok {calls : List ContractCall} {anchor : BlockRef} {log log' : RoundLog}
    {t : List (Sigma ExecuteAns)} {raw : List NumberedResult}
    (h : Runs (runRound anchor calls log) t (.ok (raw, log'))) :
    ∃ batches, t = [⟨⟨calls, anchor⟩, .ok batches⟩] ∧
      Accepted (calls.map ContractCall.key) anchor batches ∧ raw = numbered log.sequence batches := by
  obtain ⟨_, t₁, t₂, rfl, h₁, h₂⟩ := runs_bind_ok_iff.mp h
  obtain ⟨rfl, -⟩ := runs_ofExcept_iff.mp h₁
  obtain ⟨batches, t₃, t₄, rfl, h₃, h₄⟩ := runs_bind_ok_iff.mp h₂
  obtain ⟨results, t₅, t₆, rfl, h₅, h₆⟩ := runs_bind_ok_iff.mp h₄
  obtain ⟨rfl, hresults⟩ := runs_ofExcept_iff.mp h₅
  obtain ⟨rfl, hret⟩ := runs_ret_iff.mp h₆
  cases hret
  obtain ⟨haccepted, rfl⟩ := acceptRound_eq_ok_iff.mp hresults.symm
  exact ⟨batches, by rw [runs_execute_ok h₃]; rfl, haccepted, rfl⟩

/-- The results that the executor returned to a round of a run. -/
def roundResults (t : List (Sigma ExecuteAns)) (round : Nat) : List RawCallResult :=
  match t[round]? with
  | some ⟨_, .ok batches⟩ => rawResults batches
  | _ => []

@[simp] theorem roundResults_zero (op : ExecuteOp) (batches : List VerifiedBatchResult)
    (t : List (Sigma ExecuteAns)) : roundResults (⟨op, .ok batches⟩ :: t) 0 = rawResults batches := rfl

@[simp] theorem roundResults_succ (x : Sigma ExecuteAns) (t : List (Sigma ExecuteAns)) (round : Nat) :
    roundResults (x :: t) (round + 1) = roundResults t round := by
  rw [roundResults, List.getElem?_cons_succ]
  rfl

/-! ## Rows -/

/-- The row of a tick is that of the initialized structure that its call returned. -/
structure RowOf (row : PoolTickRow) (raw : RawCallResult) : Prop where
  key : raw.key = tickKey row.tick
  success : raw.success = true
  decodes : ∃ decoded, decodeTicks raw.returndata = .ok decoded ∧ decoded.initialized = true ∧
    row.liquidityGross = decoded.liquidityGross ∧ row.liquidityNet = decoded.liquidityNet
  gross : row.liquidityGross ≠ 0
  /-- the second word is the net liquidity, extended by its sign -/
  net : -2 ^ 127 ≤ row.liquidityNet ∧ row.liquidityNet < 2 ^ 127 ∧
    (ofBytesBE ((raw.returndata.drop 32).take 32) : Int) = row.liquidityNet % 2 ^ 256

theorem rowOf_of_tickOfResult {pool : PoolConfig} {tick : Int} {result : NumberedResult}
    {row : PoolTickRow} (hkey : result.raw.key = tickKey tick)
    (h : tickOfResult pool tick result = .ok row) : RowOf row result.raw := by
  obtain ⟨hsuccess, decoded, hdecoded, hinitialized, hgross, rfl⟩ := tickOfResult_eq_ok h
  exact ⟨hkey, hsuccess, ⟨decoded, hdecoded, hinitialized, rfl, rfl⟩,
    Int.natCast_ne_zero.mpr hgross, liquidityNet_of_decodeTicks hdecoded⟩

/-- Without errors every discovered tick has its row. -/
theorem rows_of_materializeTicks {pool : PoolConfig} {discovered : List Int} {raw : List NumberedResult}
    {ticks : List PoolTickRow} (h : materializeTicks pool discovered raw = .ok (ticks, [])) :
    ticks.map PoolTickRow.tick = discovered ∧
      ∀ row ∈ ticks, ∃ result ∈ raw, RowOf row result.raw := by
  simp only [materializeTicks, except_bind_eq_ok_iff, except_pure_eq_ok_iff] at h
  obtain ⟨results, hresults, hpartition⟩ := h
  obtain rfl : results = ticks.map .ok := by
    rw [eq_map_ok_of_partition (congrArg Prod.snd hpartition), congrArg Prod.fst hpartition]
  have hall := mapM_eq_ok_iff.mp hresults
  rw [List.forall₂_map_right_iff] at hall
  clear hresults hpartition
  induction hall with
  | nil => exact ⟨rfl, fun row hrow => absurd hrow List.not_mem_nil⟩
  | @cons tick row discovered ticks hrow _ ih =>
    cases hresult : resultOf raw (tickKey tick) with
    | none =>
      rw [hresult] at hrow
      cases hrow
    | some result =>
      rw [hresult] at hrow
      have hticks := Except.ok.inj hrow
      obtain ⟨hmem, hkey⟩ := of_resultOf hresult
      obtain ⟨hmap, hrest⟩ := ih
      refine ⟨?_, List.forall_mem_cons.mpr ⟨⟨result, hmem, rowOf_of_tickOfResult hkey hticks⟩, hrest⟩⟩
      rw [List.map_cons, tick_of_tickOfResult hticks, hmap]

/-! ## The rounds of a collection -/

namespace ClLiquidityCollector

variable {self : ClLiquidityCollector} {pool : PoolConfig} {anchor : BlockRef}

/-- Without errors the round over the ticks reads a row for each. -/
theorem readTicks_rows {discovered : List Int} {log log' : RoundLog} {t : List (Sigma ExecuteAns)}
    {ticks : List PoolTickRow}
    (hrun : Runs (self.readTicks pool anchor discovered log) t (.ok (ticks, [], log'))) :
    ticks.map PoolTickRow.tick = discovered ∧
      ∀ row ∈ ticks, ∃ raw ∈ roundResults t 0, RowOf row raw := by
  obtain ⟨calls, t₁, t₂, rfl, h₁, h₂⟩ := runs_bind_ok_iff.mp hrun
  obtain ⟨rfl, hcalls⟩ := runs_ofExcept_iff.mp h₁
  rw [List.nil_append]
  cases calls with
  | nil =>
    obtain ⟨-, hret⟩ := runs_ret_iff.mp h₂
    cases hret
    have hlength := mapM_eq_ok_length (orValueError_eq_ok_iff.mp hcalls.symm)
    exact ⟨(List.length_eq_zero_iff.mp hlength.symm).symm, fun row hrow => absurd hrow List.not_mem_nil⟩
  | cons call calls =>
    obtain ⟨⟨raw, log₁⟩, t₃, t₄, rfl, h₃, h₄⟩ := runs_bind_ok_iff.mp h₂
    obtain ⟨⟨rows, errors₁⟩, t₅, t₆, rfl, h₅, h₆⟩ := runs_bind_ok_iff.mp h₄
    obtain ⟨-, hrows⟩ := runs_ofExcept_iff.mp h₅
    obtain ⟨-, hret⟩ := runs_ret_iff.mp h₆
    cases hret
    obtain ⟨batches, rfl, -, rfl⟩ := runs_runRound_ok h₃
    obtain ⟨hmap, hrow⟩ := rows_of_materializeTicks hrows.symm
    refine ⟨hmap, fun row hmem => ?_⟩
    obtain ⟨result, hresult, hof⟩ := hrow row hmem
    refine ⟨result.raw, ?_, hof⟩
    show result.raw ∈ rawResults batches
    rw [← raw_numbered log.sequence]
    exact List.mem_map_of_mem hresult

/-- Without errors every word was read, and the rows are those of the ticks discovered in them. -/
theorem sweepTicks_rows {tickSpacing : Int} (hspacing : 0 < tickSpacing) {log : RoundLog}
    {t : List (Sigma ExecuteAns)} {sweep : TickSweep}
    (hrun : Runs (self.sweepTicks pool anchor tickSpacing log) t (.ok sweep))
    (herrors : sweep.errors = []) :
    ∃ batches t', t = ⟨⟨(wordPositions pool tickSpacing).map (bitmapCall self pool), anchor⟩,
        .ok batches⟩ :: t' ∧
      Accepted ((wordPositions pool tickSpacing).map bitmapKey) anchor batches ∧
      (∀ raw ∈ rawResults batches, WordRead raw) ∧
      sweep.ticks.map PoolTickRow.tick =
        (discoverTicks pool tickSpacing (numbered log.sequence batches)).1 ∧
      ∀ row ∈ sweep.ticks, ∃ raw ∈ roundResults t' 0, RowOf row raw := by
  obtain ⟨calls, t₁, t₂, rfl, h₁, h₂⟩ := runs_bind_ok_iff.mp hrun
  obtain ⟨rfl, hcalls⟩ := runs_ofExcept_iff.mp h₁
  rw [bitmapCalls_eq_ok self pool hspacing] at hcalls
  obtain rfl := Except.ok.inj hcalls
  obtain ⟨⟨raw, log₁⟩, t₃, t₄, rfl, h₃, h₄⟩ := runs_bind_ok_iff.mp h₂
  obtain ⟨⟨ticks, errors, log₂⟩, t₅, t₆, rfl, h₅, h₆⟩ := runs_bind_ok_iff.mp h₄
  obtain ⟨rfl, hret⟩ := runs_ret_iff.mp h₆
  cases hret
  obtain ⟨batches, rfl, haccepted, rfl⟩ := runs_runRound_ok h₃
  obtain ⟨hdiscovery, rfl⟩ := List.append_eq_nil_iff.mp herrors
  have hkeys : ((wordPositions pool tickSpacing).map (bitmapCall self pool)).map ContractCall.key =
      (wordPositions pool tickSpacing).map bitmapKey := List.map_map
  rw [hkeys] at haccepted
  obtain ⟨hmap, hrow⟩ := readTicks_rows h₅
  refine ⟨batches, t₅, by simp, haccepted, ?_, hmap, hrow⟩
  intro raw hraw
  rw [← raw_numbered log.sequence] at hraw
  obtain ⟨result, hresult, rfl⟩ := List.mem_map.mp hraw
  exact discoverTicks_errors_iff.mp hdiscovery result hresult

end ClLiquidityCollector

/-- A state that decodes has a positive spacing, and counts no ticks yet. -/
theorem decodeState_eq_ok {pool : PoolConfig} {raw : List NumberedResult} {state : PoolClStateRow}
    (h : decodeState pool raw = .ok state) : 0 < state.tickSpacing ∧ state.tickCount = 0 := by
  simp only [decodeState, except_bind_eq_ok_iff, except_pure_eq_ok_iff] at h
  obtain ⟨_, -, _, -, _, -, _, -, spacing, -, _, -, _, -, _, -, _, -, _, hcheck, rfl⟩ := h
  exact ⟨of_decide_eq_true (check_eq_ok_iff.mp hcheck), rfl⟩

/-! ## What is left out -/

/-- The ticks that the set bits of the words name. -/
def setTicks (pool : PoolConfig) (tickSpacing : Int) (words : List RawCallResult) : List Int :=
  (indicesOf 256 (bitmapWords words)).map (tickAt pool tickSpacing)

/-- Each bit that is set names another tick. -/
theorem nodup_setTicks {pool : PoolConfig} {tickSpacing : Int} (hspacing : 0 < tickSpacing)
    {anchor : BlockRef} {batches : List VerifiedBatchResult}
    (haccepted : Accepted ((wordPositions pool tickSpacing).map bitmapKey) anchor batches) :
    (setTicks pool tickSpacing (rawResults batches)).Nodup := by
  refine List.Nodup.map (tickAt_injective hspacing) (nodup_indicesOf ?_ ?_)
  · rw [bitmapWords, List.map_map]
    refine List.Nodup.map_on ?_ (List.Nodup.of_map _ haccepted.nodup)
    intro a ha b hb heq
    obtain ⟨word, -, hword⟩ := List.mem_map.mp ((haccepted.keys a.key).mp (List.mem_map_of_mem ha))
    obtain ⟨other, -, hother⟩ := List.mem_map.mp ((haccepted.keys b.key).mp (List.mem_map_of_mem hb))
    refine List.inj_on_of_nodup_map haccepted.nodup ha hb ?_
    simp only [Function.comp_apply, ← hword, ← hother, wordPositionOf_bitmapKey] at heq
    rw [← hword, ← hother, heq]
  · intro word hword
    obtain ⟨raw, -, rfl⟩ := List.mem_map.mp hword
    exact ⟨nodup_setBits raw, fun bit hbit => (mem_setBits_iff.mp hbit).2.1⟩

/-- The state is that of the first round, every word of the range was read, the rows are one for each
bit that is set, each of an initialized structure, and their net liquidities sum to nothing in all and
to the liquidity of the pool up to the current tick. -/
structure NothingLost (pool : PoolConfig) (t : List (Sigma ExecuteAns)) (r : PoolClCollectionResult) :
    Prop where
  state : ∃ raw, raw.map NumberedResult.raw = roundResults t 0 ∧
    decodeState pool raw = .ok { r.state with tickCount := 0 }
  asked : ∀ wordPosition ∈ wordPositions pool r.state.tickSpacing,
    ∃ raw ∈ roundResults t 1, raw.key = bitmapKey wordPosition
  words : ∀ raw ∈ roundResults t 1, WordRead raw
  rows : (r.ticks.map PoolTickRow.tick).Perm (setTicks pool r.state.tickSpacing (roundResults t 1))
  structures : ∀ row ∈ r.ticks, ∃ raw ∈ roundResults t 2, RowOf row raw
  netSum : (r.ticks.map PoolTickRow.liquidityNet).sum = 0
  active : ((r.ticks.filter fun row => row.tick ≤ r.state.currentTick).map
    PoolTickRow.liquidityNet).sum = r.state.liquidity

/-- The rounds of a verified collection that swept the ticks, whatever the words say. -/
structure Swept (collector : ClLiquidityCollector) (pool : PoolConfig) (anchor : BlockRef)
    (t : List (Sigma ExecuteAns)) (r : PoolClCollectionResult) (batches : List VerifiedBatchResult)
    (sequence : Nat) : Prop where
  state : ∃ raw state, raw.map NumberedResult.raw = roundResults t 0 ∧
    decodeState pool raw = .ok state ∧ r.state = { state with tickCount := r.ticks.length }
  answer : ⟨⟨(wordPositions pool r.state.tickSpacing).map (bitmapCall collector pool), anchor⟩,
    .ok batches⟩ ∈ t
  words : roundResults t 1 = rawResults batches
  accepted : Accepted ((wordPositions pool r.state.tickSpacing).map bitmapKey) anchor batches
  read : ∀ raw ∈ rawResults batches, WordRead raw
  ticks : r.ticks.map PoolTickRow.tick =
    (discoverTicks pool r.state.tickSpacing (numbered sequence batches)).1
  rows : ∀ row ∈ r.ticks, ∃ raw ∈ roundResults t 2, RowOf row raw
  passed : ∀ check ∈ reconcile r.state r.ticks, check.passed = true

section Verified

variable {self : ClLiquidityCollector} {pool : PoolConfig} {anchor : BlockRef}
  {integrityMode : IntegrityMode} {t : List (Sigma ExecuteAns)} {r : PoolClCollectionResult}

theorem swept_of_verified (hrun : Runs (self.collect pool anchor integrityMode) t (.ok r))
    (hverified : r.verified = true) (hactive : ¬ r.state.liquidity < self.minActiveLiquidity) :
    ∃ batches sequence, Swept self pool anchor t r batches sequence := by
  obtain ⟨_, t₁, t₂, rfl, h₁, h₂⟩ := runs_bind_ok_iff.mp hrun
  obtain ⟨rfl, -⟩ := runs_ofExcept_iff.mp h₁
  obtain ⟨⟨raw, log⟩, t₃, t₄, rfl, h₃, h₄⟩ := runs_bind_ok_iff.mp h₂
  obtain ⟨stateBatches, rfl, -, rfl⟩ := runs_runRound_ok h₃
  obtain ⟨state, t₅, t₆, rfl, h₅, h₆⟩ := runs_bind_ok_iff.mp h₄
  obtain ⟨rfl, hstate⟩ := runs_ofExcept_iff.mp h₅
  by_cases hbelow : state.liquidity < self.minActiveLiquidity
  · rw [ClLiquidityCollector.collectTicks, if_pos hbelow] at h₆
    obtain ⟨-, hret⟩ := runs_ret_iff.mp h₆
    cases hret
    exact absurd hbelow hactive
  · rw [ClLiquidityCollector.collectTicks, if_neg hbelow] at h₆
    obtain ⟨sweep, t₇, t₈, rfl, h₇, h₈⟩ := runs_bind_ok_iff.mp h₆
    obtain ⟨rfl, hret⟩ := runs_ret_iff.mp h₈
    cases hret
    obtain ⟨herrors, -, hchecks⟩ := CollectionOutcome.verified_iff.mp hverified
    obtain ⟨batches, t', rfl, haccepted, hread, hticks, hrows⟩ :=
      ClLiquidityCollector.sweepTicks_rows (decodeState_eq_ok hstate.symm).1 h₇ herrors
    refine ⟨batches, log.sequence, ⟨_, state, raw_numbered 0 stateBatches, hstate.symm, rfl⟩,
      List.mem_cons_of_mem _ List.mem_cons_self, rfl, haccepted, hread, hticks, ?_, ?_⟩
    · simp only [List.cons_append, List.nil_append, List.append_nil, roundResults_succ]
      exact hrows
    · exact fun check hcheck => hchecks check (List.mem_cons_of_mem _ hcheck)

/-- The ticks that have a row are those of the set bits, as far as they lie in the range. -/
theorem Swept.mem_ticks_iff {batches : List VerifiedBatchResult} {sequence : Nat}
    (h : Swept self pool anchor t r batches sequence) {tick : Int} :
    tick ∈ r.ticks.map PoolTickRow.tick ↔
      tick ∈ setTicks pool r.state.tickSpacing (roundResults t 1) ∧ minTick ≤ tick ∧ tick ≤ maxTick := by
  rw [h.ticks, mem_discoverTicks_iff, raw_numbered, h.words, setTicks, List.mem_map]

/-- Where every set bit names a tick of the range, each has its row. -/
theorem Swept.rows_perm {batches : List VerifiedBatchResult} {sequence : Nat}
    (h : Swept self pool anchor t r batches sequence) (hspacing : 0 < r.state.tickSpacing)
    (hrange : ∀ tick ∈ setTicks pool r.state.tickSpacing (roundResults t 1),
      minTick ≤ tick ∧ tick ≤ maxTick) :
    (r.ticks.map PoolTickRow.tick).Perm (setTicks pool r.state.tickSpacing (roundResults t 1)) := by
  have hrows : (r.ticks.map PoolTickRow.tick).Nodup := by
    rw [h.ticks]
    exact nodup_sortedSet _
  have hset : (setTicks pool r.state.tickSpacing (roundResults t 1)).Nodup := by
    rw [h.words]
    exact nodup_setTicks hspacing h.accepted
  rw [List.perm_ext_iff_of_nodup hrows hset]
  intro tick
  rw [h.mem_ticks_iff]
  exact and_iff_left_of_imp (hrange tick)

/-- In a verified result that swept the ticks nothing was lost exactly when no bit that is set names a
tick outside the range. -/
theorem nothing_lost_iff (hrun : Runs (self.collect pool anchor integrityMode) t (.ok r))
    (hverified : r.verified = true) (hactive : ¬ r.state.liquidity < self.minActiveLiquidity) :
    NothingLost pool t r ↔ ∀ tick ∈ setTicks pool r.state.tickSpacing (roundResults t 1),
      minTick ≤ tick ∧ tick ≤ maxTick := by
  obtain ⟨batches, sequence, h⟩ := swept_of_verified hrun hverified hactive
  obtain ⟨raw, state, hraw, hstate, hrstate⟩ := h.state
  obtain ⟨hspacing, hcount⟩ := decodeState_eq_ok hstate
  constructor
  · intro hlost tick htick
    exact (h.mem_ticks_iff.mp (hlost.rows.mem_iff.mpr htick)).2
  · intro hrange
    have hsums : (r.ticks.map PoolTickRow.liquidityNet).sum = 0 ∧
        ((r.ticks.filter fun row => row.tick ≤ r.state.currentTick).map
          PoolTickRow.liquidityNet).sum = r.state.liquidity := by
      simpa [reconcile] using h.passed
    refine ⟨⟨raw, hraw, ?_⟩, ?_, ?_, h.rows_perm (by rwa [hrstate]) hrange, h.rows, hsums.1, hsums.2⟩
    · rw [hstate, hrstate, ← hcount]
    · intro wordPosition hword
      rw [h.words]
      exact List.mem_map.mp ((h.accepted.keys _).mpr (List.mem_map_of_mem hword))
    · rw [h.words]
      exact h.read

end Verified

/-! ## A pool that answers -/

def sampleTickAnchor : BlockRef := ⟨10, "", "", 100⟩

/-- One position between the ticks 0 and 887272, above the current one. -/
def sampleTickReply (key : String) : List UInt8 :=
  match key with
  | "slot0" => bytesBE 32 (2 ^ 96) ++ bytesBE 32 (2 ^ 256 - 1)
  | "tickSpacing" => bytesBE 32 887272
  | "tk/0" => bytesBE 32 1 ++ bytesBE 32 1 ++ List.replicate 160 0 ++ bytesBE 32 1
  | "tk/887272" => bytesBE 32 1 ++ bytesBE 32 (2 ^ 256 - 1) ++ List.replicate 160 0 ++ bytesBE 32 1
  | _ => bytesBE 32 0

/-- The bits of word 0 are those of the number. -/
def sampleTickAnswer (word : Nat) (key : String) : List UInt8 :=
  if key = "bm/0" then bytesBE 32 word else sampleTickReply key

def sampleTickCollector : ClLiquidityCollector := ⟨fun _ => [], 0⟩

def sampleTickState : PoolClStateRow where
  poolAddress := sampleTickPool.address
  poolClass := sampleTickPool.poolClass
  sqrtPriceX96 := 2 ^ 96
  currentTick := -1
  liquidity := 0
  feeGrowthGlobal0X128 := 0
  feeGrowthGlobal1X128 := 0
  tickSpacing := 887272
  fee := 0
  tickCount := 0

def sampleTickRows : List PoolTickRow :=
  [⟨sampleTickPool.address, 0, 1, 1, 0, 0, 2⟩, ⟨sampleTickPool.address, 887272, 1, -1, 0, 0, 2⟩]

/-- The words of that pool. -/
def sampleTickWords (word : Nat) : List RawCallResult :=
  ([-1, 0].map (bitmapCall sampleTickCollector sampleTickPool)).map (answered (sampleTickAnswer word))

def samplePositionCalls : List ContractCall :=
  [⟨"tk/0", sampleTickPool.address, bytesBE 32 0, true⟩,
    ⟨"tk/887272", sampleTickPool.address, bytesBE 32 887272, true⟩]

theorem length_sampleTickAnswer (word : Nat) (key : String) :
    (sampleTickAnswer word key).length < 256 ^ 4 := by
  unfold sampleTickAnswer
  split
  · simp
  · unfold sampleTickReply
    split <;> simp

theorem sampleTick_calls {calls : List ContractCall}
    (h : calls ∈ [sampleTickCollector.stateCalls sampleTickPool,
      [-1, 0].map (bitmapCall sampleTickCollector sampleTickPool), samplePositionCalls]) :
    (calls.map ContractCall.key).Nodup ∧ ∀ call ∈ calls, (utf8 call.key).length < 256 ^ 4 := by
  revert calls
  decide

theorem sampleTick_round (word : Nat) {calls : List ContractCall}
    (h : calls ∈ [sampleTickCollector.stateCalls sampleTickPool,
      [-1, 0].map (bitmapCall sampleTickCollector sampleTickPool), samplePositionCalls]) (log : RoundLog) :
    ∃ batches : List CollectionBatchEvidence, (∀ batch ∈ batches, batch.evidence.verified = true) ∧
      answeredBy (answerCalls (sampleTickAnswer word)) (runRound sampleTickAnchor calls log) =
        .ok (calls.map fun call => ⟨answered (sampleTickAnswer word) call, log.sequence⟩,
          ⟨log.evidence ++ batches, log.sequence + 1⟩) :=
  answeredBy_runRound (sampleTick_calls h).1
    (fun call hcall => ⟨(sampleTick_calls h).2 call hcall, length_sampleTickAnswer word call.key⟩) log

/-- Calls that do not ask for word 0 are answered whatever it is. -/
theorem map_answered_sampleTick (word sequence : Nat) {calls : List ContractCall}
    (h : ∀ call ∈ calls, call.key ≠ "bm/0") :
    (calls.map fun call => (⟨answered (sampleTickAnswer word) call, sequence⟩ : NumberedResult)) =
      calls.map fun call => ⟨answered sampleTickReply call, sequence⟩ := by
  refine List.map_congr_left fun call hcall => ?_
  rw [answered, sampleTickAnswer, if_neg (h call hcall)]
  rfl

theorem sampleTick_state (word : Nat) : decodeState sampleTickPool
    ((sampleTickCollector.stateCalls sampleTickPool).map fun call =>
      ⟨answered (sampleTickAnswer word) call, 0⟩) = .ok sampleTickState := by
  rw [map_answered_sampleTick word 0 (by decide)]
  exact ok_of_toOption (by decide)

theorem sampleTick_rows (word : Nat) : materializeTicks sampleTickPool [0, 887272]
    (samplePositionCalls.map fun call => ⟨answered (sampleTickAnswer word) call, 2⟩) =
      .ok (sampleTickRows, []) := by
  rw [map_answered_sampleTick word 2 (by decide)]
  exact ok_of_toOption (by decide +kernel)

theorem sampleTick_tickCalls :
    tickCalls sampleTickCollector sampleTickPool [0, 887272] = .ok samplePositionCalls :=
  ok_of_toOption (by decide)

/-- Where the ticks of the position are discovered, they are collected and verified. -/
theorem sampleTick_collected {word : Nat} (hdiscovered : discoverTicks sampleTickPool 887272
      ((sampleTickWords word).map fun raw => ⟨raw, 1⟩) = ([0, 887272], [])) :
    ∃ t r, Runs (sampleTickCollector.collect sampleTickPool sampleTickAnchor .clLiquidity) t (.ok r) ∧
      r.verified = true ∧ ¬ r.state.liquidity < sampleTickCollector.minActiveLiquidity ∧
        r.state.tickSpacing = 887272 ∧ roundResults t 1 = sampleTickWords word := by
  obtain ⟨b₁, hb₁, h₁⟩ := sampleTick_round word List.mem_cons_self ⟨[], 0⟩
  obtain ⟨b₂, hb₂, h₂⟩ := sampleTick_round word
    (List.mem_cons_of_mem _ List.mem_cons_self) ⟨[] ++ b₁, 0 + 1⟩
  obtain ⟨b₃, hb₃, h₃⟩ := sampleTick_round word
    (List.mem_cons_of_mem _ (List.mem_cons_of_mem _ List.mem_cons_self)) ⟨[] ++ b₁ ++ b₂, 0 + 1 + 1⟩
  have hpositions : wordPositions sampleTickPool 887272 = [-1, 0] := by decide
  have hbitmap := bitmapCalls_eq_ok sampleTickCollector sampleTickPool (by decide : (0 : Int) < 887272)
  rw [hpositions] at hbitmap
  rw [sampleTickWords, List.map_map] at hdiscovered
  have hread := ClLiquidityCollector.answeredBy_readTicks sampleTick_tickCalls h₃ (sampleTick_rows word)
  have hsweep := ClLiquidityCollector.answeredBy_sweepTicks hbitmap h₂ hdiscovered hread
  have hassert : ClLiquidityCollector.assertCollectible sampleTickPool sampleTickAnchor .clLiquidity =
      .ok () := rfl
  have hcollect := ClLiquidityCollector.answeredBy_collect hassert h₁ (sampleTick_state word)
    (by decide) hsweep
  have hrun := runs_answeredBy (answerCalls (sampleTickAnswer word))
    (sampleTickCollector.collect sampleTickPool sampleTickAnchor .clLiquidity)
  rw [hcollect] at hrun
  have hactive : ¬ sampleTickState.liquidity < sampleTickCollector.minActiveLiquidity := by decide
  have hverified : (ClLiquidityCollector.clResult sampleTickPool sampleTickState
      (sampleTickCollector.stateCalls sampleTickPool).length
      ⟨2 + 2, sampleTickRows, [] ++ [], ⟨[] ++ b₁ ++ b₂ ++ b₃, 0 + 1 + 1 + 1⟩⟩
      (reconcile sampleTickState sampleTickRows)).verified = true := by
    refine CollectionOutcome.verified_iff.mpr ⟨rfl, ?_, ?_⟩
    · show ∀ batch ∈ [] ++ b₁ ++ b₂ ++ b₃, batch.evidence.verified = true
      simp only [List.nil_append, List.forall_mem_append]
      exact ⟨⟨hb₁, hb₂⟩, hb₃⟩
    · show ∀ check ∈ (⟨true, "cl_state_observed", none, none⟩ : IntegrityResult) ::
        reconcile sampleTickState sampleTickRows, check.passed = true
      decide
  refine ⟨_, _, hrun, hverified, hactive, rfl, ?_⟩
  -- The second answer of the run is what the pool answers to the calls for its words.
  obtain ⟨batches, sequence, hswept⟩ := swept_of_verified hrun hverified hactive
  have hanswer := rawResults_answerCalls (answer_of_mem_traceOf hswept.answer).symm
  rw [hswept.words, hanswer]
  show ((wordPositions sampleTickPool 887272).map _).map _ = _
  rw [hpositions]
  rfl

/-- With the bits of its two ticks only, nothing of the pool is lost. -/
theorem nothing_lost_iff_position : ∃ t r,
    Runs (sampleTickCollector.collect sampleTickPool sampleTickAnchor .clLiquidity) t (.ok r) ∧
      r.verified = true ∧ NothingLost sampleTickPool t r := by
  obtain ⟨t, r, hrun, hverified, hactive, hspacing, hwords⟩ :=
    sampleTick_collected (by decide : discoverTicks sampleTickPool 887272
      ((sampleTickWords 3).map fun raw => ⟨raw, 1⟩) = ([0, 887272], []))
  refine ⟨t, r, hrun, hverified, (nothing_lost_iff hrun hverified hactive).mpr ?_⟩
  rw [hspacing, hwords]
  decide

/-- A set bit of a tick above the range is left out, and the collection is verified. -/
theorem stray_bit_is_dropped : ∃ t r,
    Runs (sampleTickCollector.collect sampleTickPool sampleTickAnchor .clLiquidity) t (.ok r) ∧
      r.verified = true ∧ ¬ r.state.liquidity < sampleTickCollector.minActiveLiquidity ∧
        1774544 ∈ setTicks sampleTickPool r.state.tickSpacing (roundResults t 1) ∧
          r.errors = [] ∧ ¬ NothingLost sampleTickPool t r := by
  obtain ⟨t, r, hrun, hverified, hactive, hspacing, hwords⟩ :=
    sampleTick_collected (by decide : discoverTicks sampleTickPool 887272
      ((sampleTickWords 7).map fun raw => ⟨raw, 1⟩) = ([0, 887272], []))
  have hstray : 1774544 ∈ setTicks sampleTickPool r.state.tickSpacing (roundResults t 1) := by
    rw [hspacing, hwords]
    decide
  refine ⟨t, r, hrun, hverified, hactive, hstray, (CollectionOutcome.verified_iff.mp hverified).1, ?_⟩
  intro hlost
  obtain ⟨batches, sequence, hswept⟩ := swept_of_verified hrun hverified hactive
  exact absurd (hswept.mem_ticks_iff.mp (hlost.rows.mem_iff.mpr hstray)).2.2 (by decide)

end RpcStateIndexer
