import Mathlib.Data.Finset.Insert
import RpcStateIndexer.Collectors.ClLiquidityCorrect
import RpcStateIndexer.Reasoning.Bitmap

/-!
# The ticks that a bitmap names

A pool keeps its initialized ticks as bits of words.  The words that are asked for cover every tick of
the range, and what is discovered in them is read off the bits that are set.
-/

namespace RpcStateIndexer

open Reasoning

/-! ## The keys of the words -/

/-- The digits of a number are read back. -/
theorem foldl_digits (n : Nat) :
    (Nat.toDigits 10 n).foldl (fun acc c => 10 * acc + (c.toNat - '0'.toNat)) 0 = n := by
  rw [← Nat.ofDigitChars_eq_foldl]
  exact Nat.ofDigitChars_ten_toDigits

theorem wordPositionOf_bitmapKey (wordPosition : Int) :
    wordPositionOf (bitmapKey wordPosition) = wordPosition := by
  have htext : (bitmapKey wordPosition).toList = "bm/".toList ++ wordPosition.repr.toList :=
    String.toList_append
  have hdrop : ((bitmapKey wordPosition).toList.dropWhile fun c => c ≠ '/').drop 1 =
      wordPosition.repr.toList := by
    rw [htext]
    rfl
  rw [wordPositionOf, hdrop]
  cases wordPosition with
  | ofNat n =>
    rw [Int.repr, Nat.toList_repr]
    dsimp only
    split
    · next digits hdigits =>
      -- The text of a natural number has no sign.
      have hsign := Nat.isDigit_of_mem_toDigits (by decide) (by decide)
        (hdigits ▸ List.mem_cons_self : '-' ∈ Nat.toDigits 10 n)
      exact absurd hsign (by decide)
    · exact congrArg Int.ofNat (foldl_digits n)
  | negSucc n =>
    have hrepr : (Int.negSucc n).repr.toList = '-' :: Nat.toDigits 10 (n + 1) := by
      rw [Int.repr, ← Nat.toList_repr]
      exact String.toList_append
    rw [hrepr]
    exact congrArg (fun k : Nat => -(k : Int)) (foldl_digits (n + 1))

/-! ## The two conventions -/

/-- The index of a tick in the bitmap: Uniswap keys it by the compressed tick, Algebra by the tick. -/
def bitmapIndex (pool : PoolConfig) (tickSpacing tick : Int) : Int :=
  if pool.poolClass = uniswapV3Class then tick / tickSpacing else tick

/-- The tick of an index. -/
def tickAt (pool : PoolConfig) (tickSpacing index : Int) : Int :=
  if pool.poolClass = uniswapV3Class then index * tickSpacing else index

/-- Numbers are cast where they are used. -/
theorem map_cast {β : Type} (f : Int → β) (l : List Nat) :
    (List.map f do let a ← l; pure (a : Int)) = l.map fun a : Nat => f a := by
  rw [List.bind_eq_flatMap, List.map_flatMap]
  exact List.flatMap_pure_eq_map _ l

section Convention

variable {pool : PoolConfig} {tickSpacing : Int}

theorem tickAt_bitmapIndex {tick : Int} (h : tickSpacing ∣ tick) :
    tickAt pool tickSpacing (bitmapIndex pool tickSpacing tick) = tick := by
  unfold tickAt bitmapIndex
  by_cases hclass : pool.poolClass = uniswapV3Class
  · rw [if_pos hclass, if_pos hclass]
    exact Int.ediv_mul_cancel h
  · rw [if_neg hclass, if_neg hclass]

theorem tickAt_injective (h : 0 < tickSpacing) : Function.Injective (tickAt pool tickSpacing) := by
  intro i j heq
  unfold tickAt at heq
  by_cases hclass : pool.poolClass = uniswapV3Class
  · rw [if_pos hclass, if_pos hclass] at heq
    exact Int.eq_of_mul_eq_mul_right h.ne' heq
  · rwa [if_neg hclass, if_neg hclass] at heq

theorem bitmapIndex_mono (h : 0 < tickSpacing) {a b : Int} (hab : a ≤ b) :
    bitmapIndex pool tickSpacing a ≤ bitmapIndex pool tickSpacing b := by
  unfold bitmapIndex
  by_cases hclass : pool.poolClass = uniswapV3Class
  · rw [if_pos hclass, if_pos hclass]
    exact Int.ediv_le_ediv h hab
  · rwa [if_neg hclass, if_neg hclass]

/-! ## The words that are asked for -/

theorem mem_wordPositions_iff {wordPosition : Int} :
    wordPosition ∈ wordPositions pool tickSpacing ↔
      bitmapIndex pool tickSpacing minTick / 256 ≤ wordPosition ∧
        wordPosition ≤ bitmapIndex pool tickSpacing maxTick / 256 := by
  have hpositions : wordPositions pool tickSpacing =
      (List.range (bitmapIndex pool tickSpacing maxTick / 256 + 1 -
        bitmapIndex pool tickSpacing minTick / 256).toNat).map fun i : Nat =>
          bitmapIndex pool tickSpacing minTick / 256 + i := by
    unfold wordPositions bitmapIndex
    by_cases hclass : pool.poolClass = uniswapV3Class
    · simp only [if_pos hclass, map_cast]
    · simp only [if_neg hclass, map_cast]
  rw [hpositions, List.mem_map]
  constructor
  · rintro ⟨i, hi, rfl⟩
    have hlt := List.mem_range.mp hi
    omega
  · rintro ⟨hlow, hhigh⟩
    refine ⟨(wordPosition - bitmapIndex pool tickSpacing minTick / 256).toNat, ?_, by omega⟩
    rw [List.mem_range]
    omega

/-- The words fit the `int16` that they are asked for by. -/
theorem int16_of_mem_wordPositions (h : 0 < tickSpacing) {wordPosition : Int}
    (hmem : wordPosition ∈ wordPositions pool tickSpacing) :
    -2 ^ 15 ≤ wordPosition ∧ wordPosition ≤ 2 ^ 15 - 1 := by
  obtain ⟨hlow, hhigh⟩ := mem_wordPositions_iff.mp hmem
  have hmin : minTick ≤ bitmapIndex pool tickSpacing minTick := by
    unfold bitmapIndex
    split
    · exact (Int.le_ediv_iff_mul_le h).mpr (by unfold minTick; omega)
    · exact le_rfl
  have hmax : bitmapIndex pool tickSpacing maxTick ≤ maxTick := by
    unfold bitmapIndex
    split
    · exact Int.ediv_le_self _ (by decide)
    · exact le_rfl
  unfold minTick at hmin
  unfold maxTick at hmax
  unfold minTick at hlow
  unfold maxTick at hhigh
  omega

/-- The word of a tick of the range is asked for. -/
theorem word_mem_wordPositions (h : 0 < tickSpacing) {tick : Int} (hmin : minTick ≤ tick)
    (hmax : tick ≤ maxTick) :
    bitmapIndex pool tickSpacing tick / 256 ∈ wordPositions pool tickSpacing :=
  mem_wordPositions_iff.mpr
    ⟨Int.ediv_le_ediv (by decide) (bitmapIndex_mono h hmin),
      Int.ediv_le_ediv (by decide) (bitmapIndex_mono h hmax)⟩

end Convention

/-- The signature of the words of a pool. -/
def bitmapSignature (pool : PoolConfig) : String :=
  if pool.poolClass = uniswapV3Class then "tickBitmap(int16)" else "tickTable(int16)"

/-- The call for one word. -/
def bitmapCall (self : ClLiquidityCollector) (pool : PoolConfig) (wordPosition : Int) : ContractCall where
  key := bitmapKey wordPosition
  target := pool.address
  calldata := functionSelector self.keccak (bitmapSignature pool) ++
    bytesBE 32 (wordPosition % 2 ^ 256).toNat

theorem bitmapCalls_eq_ok (self : ClLiquidityCollector) (pool : PoolConfig) {tickSpacing : Int}
    (h : 0 < tickSpacing) : bitmapCalls self pool tickSpacing =
      .ok ((wordPositions pool tickSpacing).map (bitmapCall self pool)) := by
  rw [bitmapCalls, mapM_eq_ok_iff, List.forall₂_map_right_iff, List.forall₂_same]
  intro wordPosition hmem
  obtain ⟨hlow, hhigh⟩ := int16_of_mem_wordPositions h hmem
  have hword : signedWord wordPosition 16 = .ok (bytesBE 32 (wordPosition % 2 ^ 256).toNat) :=
    signedWord_eq_ok (by decide) hlow hhigh
  by_cases hclass : pool.poolClass = uniswapV3Class
  · rw [if_pos hclass, tickBitmapCalldata, hword, bitmapCall, bitmapSignature, if_pos hclass]
    rfl
  · rw [if_neg hclass, tickTableCalldata, hword, bitmapCall, bitmapSignature, if_neg hclass]
    rfl

/-! ## The bits that are set -/

/-- The word was read: the call succeeded and returned one word. -/
def WordRead (raw : RawCallResult) : Prop := raw.success = true ∧ raw.returndata.length = 32

/-- The bits that are set in a word that was read. -/
def setBits (raw : RawCallResult) : List Nat :=
  if raw.success = true ∧ raw.returndata.length = 32 then
    (List.range 256).filter fun bit => (ofBytesBE raw.returndata).testBit bit
  else []

theorem mem_setBits_iff {raw : RawCallResult} {bit : Nat} : bit ∈ setBits raw ↔
    WordRead raw ∧ bit < 256 ∧ (ofBytesBE raw.returndata).testBit bit = true := by
  unfold setBits WordRead
  by_cases hread : raw.success = true ∧ raw.returndata.length = 32
  · rw [if_pos hread, List.mem_filter, List.mem_range]
    exact (and_iff_right hread).symm
  · rw [if_neg hread]
    exact iff_of_false List.not_mem_nil fun h => hread h.1

theorem nodup_setBits (raw : RawCallResult) : (setBits raw).Nodup := by
  unfold setBits
  split
  · exact List.nodup_range.filter _
  · exact List.nodup_nil

section Discovery

variable {pool : PoolConfig} {tickSpacing : Int}

theorem ticksOfWord_eq {wordPosition : Int} {bits : List Nat} :
    ticksOfWord pool tickSpacing wordPosition bits =
      (bits.map fun bit : Nat => tickAt pool tickSpacing (wordPosition * 256 + bit)).filter
        fun tick => minTick ≤ tick ∧ tick ≤ maxTick := by
  rw [ticksOfWord, map_cast]
  rfl

/-- A word that was read gives the ticks of its bits, and one that was not an error. -/
theorem ticksOfResult_of_read {wordPosition : Int} {result : NumberedResult}
    (h : WordRead result.raw) : ticksOfResult pool tickSpacing wordPosition result =
      .ok (ticksOfWord pool tickSpacing wordPosition (setBits result.raw)) := by
  obtain ⟨hsuccess, hlength⟩ := h
  rw [ticksOfResult, if_neg (by rw [hsuccess]; decide), decodeBitmapWord, if_neg (not_not.mpr hlength),
    setBits, if_pos ⟨hsuccess, hlength⟩]

theorem ticksOfResult_of_not_read (pool : PoolConfig) (tickSpacing wordPosition : Int)
    {result : NumberedResult} (h : ¬ WordRead result.raw) :
    ∃ e, ticksOfResult pool tickSpacing wordPosition result = .error e := by
  unfold ticksOfResult
  by_cases hfailed : result.raw.success = false
  · exact ⟨_, if_pos hfailed⟩
  · have hlength : result.raw.returndata.length ≠ 32 := fun hlength =>
      h ⟨(Bool.not_eq_false _).mp hfailed, hlength⟩
    rw [if_neg hfailed, decodeBitmapWord, if_pos hlength]
    exact ⟨_, rfl⟩

/-- The words of a round, by their positions. -/
def bitmapWords (raws : List RawCallResult) : List (Int × List Nat) :=
  raws.map fun raw => (wordPositionOf raw.key, setBits raw)

/-- There are no errors exactly when every word was read. -/
theorem discoverTicks_errors_iff {raw : List NumberedResult} :
    (discoverTicks pool tickSpacing raw).2 = [] ↔ ∀ result ∈ raw, WordRead result.raw := by
  rw [discoverTicks, List.eq_nil_iff_forall_not_mem]
  constructor
  · intro hnone result hresult
    by_contra hread
    obtain ⟨e, he⟩ := ticksOfResult_of_not_read pool tickSpacing (wordPositionOf result.raw.key) hread
    exact hnone e (mem_partition_snd.mpr (List.mem_map.mpr ⟨result, hresult, he⟩))
  · intro hread e he
    obtain ⟨result, hresult, herror⟩ := List.mem_map.mp (mem_partition_snd.mp he)
    rw [ticksOfResult_of_read (hread result hresult)] at herror
    cases herror

/-- The discovered ticks are those of the set bits, as far as they lie in the range. -/
theorem mem_discoverTicks_iff {raw : List NumberedResult} {tick : Int} :
    tick ∈ (discoverTicks pool tickSpacing raw).1 ↔
      (∃ index ∈ indicesOf 256 (bitmapWords (raw.map NumberedResult.raw)),
        tickAt pool tickSpacing index = tick) ∧ minTick ≤ tick ∧ tick ≤ maxTick := by
  rw [discoverTicks, mem_sortedSet, partition_fst, List.mem_flatten, bitmapWords, List.map_map]
  simp only [List.mem_filterMap, List.mem_map, mem_indicesOf, Function.comp_apply]
  constructor
  · rintro ⟨ticks, ⟨_, ⟨result, hresult, rfl⟩, hticks⟩, htick⟩
    by_cases hread : WordRead result.raw
    · rw [ticksOfResult_of_read hread] at hticks
      obtain rfl := Option.some.inj hticks
      rw [ticksOfWord_eq, List.mem_filter, decide_eq_true_iff] at htick
      obtain ⟨hmem, hrange⟩ := htick
      obtain ⟨bit, hbit, rfl⟩ := List.mem_map.mp hmem
      exact ⟨⟨_, ⟨_, ⟨result, hresult, rfl⟩, bit, hbit, rfl⟩, rfl⟩, hrange⟩
    · obtain ⟨e, he⟩ :=
        ticksOfResult_of_not_read pool tickSpacing (wordPositionOf result.raw.key) hread
      rw [he] at hticks
      cases hticks
  · rintro ⟨⟨_, ⟨_, ⟨result, hresult, rfl⟩, bit, hbit, rfl⟩, rfl⟩, hrange⟩
    have hread := (mem_setBits_iff.mp hbit).1
    refine ⟨_, ⟨_, ⟨result, hresult, rfl⟩, by rw [ticksOfResult_of_read hread]; rfl⟩, ?_⟩
    rw [ticksOfWord_eq, List.mem_filter, decide_eq_true_iff]
    exact ⟨List.mem_map.mpr ⟨bit, hbit, rfl⟩, hrange⟩

end Discovery

/-! ## Discovery is exact -/

/-- A word has exactly the bits that the convention of the pool gives to the ticks. -/
def HasBits (pool : PoolConfig) (tickSpacing : Int) (ticks : Finset Int) (wordPosition : Int)
    (returndata : List UInt8) : Prop :=
  returndata.length = 32 ∧ ∀ bit < 256, ((ofBytesBE returndata).testBit bit = true ↔
    ∃ tick ∈ ticks, bitmapIndex pool tickSpacing tick = wordPosition * 256 + bit)

/-- The round over the bitmap returned each of its words, as the convention writes the ticks. -/
structure BitmapOf (pool : PoolConfig) (tickSpacing : Int) (ticks : Finset Int)
    (calls : List ContractCall) (raw : List NumberedResult) : Prop where
  keys : (raw.map fun result => result.raw.key).Perm (calls.map ContractCall.key)
  words : ∀ wordPosition ∈ wordPositions pool tickSpacing, ∀ result ∈ raw,
    result.raw.key = bitmapKey wordPosition → result.raw.success = true ∧
      HasBits pool tickSpacing ticks wordPosition result.raw.returndata

section Exact

variable {self : ClLiquidityCollector} {pool : PoolConfig} {tickSpacing : Int} {ticks : Finset Int}
  {raw : List NumberedResult}

/-- A result is that of one of the words that were asked for. -/
theorem BitmapOf.exists_word
    (h : BitmapOf pool tickSpacing ticks ((wordPositions pool tickSpacing).map (bitmapCall self pool)) raw)
    {result : NumberedResult} (hresult : result ∈ raw) :
    ∃ wordPosition ∈ wordPositions pool tickSpacing, result.raw.key = bitmapKey wordPosition := by
  have hkey := h.keys.mem_iff.mp (List.mem_map_of_mem hresult)
  rw [List.map_map] at hkey
  obtain ⟨wordPosition, hword, heq⟩ := List.mem_map.mp hkey
  exact ⟨wordPosition, hword, heq.symm⟩

/-- Each word that was asked for has its result. -/
theorem BitmapOf.exists_result
    (h : BitmapOf pool tickSpacing ticks ((wordPositions pool tickSpacing).map (bitmapCall self pool)) raw)
    {wordPosition : Int} (hword : wordPosition ∈ wordPositions pool tickSpacing) :
    ∃ result ∈ raw, result.raw.key = bitmapKey wordPosition := by
  have hkey : bitmapKey wordPosition ∈ raw.map fun result => result.raw.key := by
    rw [h.keys.mem_iff, List.map_map]
    exact List.mem_map.mpr ⟨wordPosition, hword, rfl⟩
  exact List.mem_map.mp hkey

theorem BitmapOf.mem_setBits_iff
    (h : BitmapOf pool tickSpacing ticks ((wordPositions pool tickSpacing).map (bitmapCall self pool)) raw)
    {result : NumberedResult} (hresult : result ∈ raw) {bit : Nat} : bit ∈ setBits result.raw ↔
      bit ∈ bitsIn 256 (bitmapIndex pool tickSpacing '' ticks) (wordPositionOf result.raw.key) := by
  obtain ⟨wordPosition, hword, hkey⟩ := h.exists_word hresult
  obtain ⟨hsuccess, hlength, hbits⟩ := h.words wordPosition hword result hresult hkey
  rw [RpcStateIndexer.mem_setBits_iff, hkey, wordPositionOf_bitmapKey]
  constructor
  · rintro ⟨-, hlt, hset⟩
    exact ⟨hlt, (hbits bit hlt).mp hset⟩
  · rintro ⟨hlt, hset⟩
    exact ⟨⟨hsuccess, hlength⟩, hlt, (hbits bit hlt).mpr hset⟩

/-- The words that were returned name the indices of the ticks. -/
theorem BitmapOf.mem_indicesOf_iff
    (h : BitmapOf pool tickSpacing ticks ((wordPositions pool tickSpacing).map (bitmapCall self pool)) raw)
    (hspacing : 0 < tickSpacing) (hrange : ∀ tick ∈ ticks, minTick ≤ tick ∧ tick ≤ maxTick)
    {index : Int} : index ∈ indicesOf 256 (bitmapWords (raw.map NumberedResult.raw)) ↔
      index ∈ bitmapIndex pool tickSpacing '' ticks := by
  refine Reasoning.mem_indicesOf_iff (by decide) ?_ ?_
  · rintro _ ⟨tick, htick, rfl⟩
    obtain ⟨hmin, hmax⟩ := hrange tick htick
    obtain ⟨result, hresult, hkey⟩ := h.exists_result (word_mem_wordPositions hspacing hmin hmax)
    refine List.mem_map.mpr ⟨_, List.mem_map_of_mem (List.mem_map_of_mem hresult), ?_⟩
    show wordPositionOf result.raw.key = _
    rw [hkey, wordPositionOf_bitmapKey]
    rfl
  · intro word hword bit
    obtain ⟨_, hraw, rfl⟩ := List.mem_map.mp hword
    obtain ⟨result, hresult, rfl⟩ := List.mem_map.mp hraw
    exact h.mem_setBits_iff hresult

end Exact

/-- Under either convention the words cover every tick and fit their type, and from words that hold the
ticks of a pool exactly these are discovered. -/
theorem tick_discovery_exact (self : ClLiquidityCollector) (pool : PoolConfig) {tickSpacing : Int}
    (hspacing : 1 ≤ tickSpacing ∧ tickSpacing ≤ 2 ^ 23 - 1) {ticks : Finset Int}
    (hticks : ∀ tick ∈ ticks, tickSpacing ∣ tick ∧ minTick ≤ tick ∧ tick ≤ maxTick) :
    ∃ calls, bitmapCalls self pool tickSpacing = .ok calls ∧
      calls = (wordPositions pool tickSpacing).map (bitmapCall self pool) ∧
      (∀ wordPosition ∈ wordPositions pool tickSpacing,
        -2 ^ 15 ≤ wordPosition ∧ wordPosition ≤ 2 ^ 15 - 1) ∧
      (∀ tick ∈ ticks, ∃ wordPosition ∈ wordPositions pool tickSpacing, ∃ bit : Nat, bit < 256 ∧
        bitmapIndex pool tickSpacing tick = wordPosition * 256 + bit) ∧
      ∀ raw, BitmapOf pool tickSpacing ticks calls raw →
        ∃ found, discoverTicks pool tickSpacing raw = (found, []) ∧ found.Pairwise (· < ·) ∧
          ∀ tick, tick ∈ found ↔ tick ∈ ticks := by
  have hpos : 0 < tickSpacing := by omega
  refine ⟨_, bitmapCalls_eq_ok self pool hpos, rfl, fun _ => int16_of_mem_wordPositions hpos, ?_, ?_⟩
  · intro tick htick
    obtain ⟨-, hmin, hmax⟩ := hticks tick htick
    obtain ⟨bit, hbit, hplace⟩ := @exists_place 256 (by decide) (bitmapIndex pool tickSpacing tick)
    exact ⟨_, word_mem_wordPositions hpos hmin hmax, bit, hbit, hplace.symm⟩
  · intro raw hraw
    have hmem : ∀ tick, tick ∈ (discoverTicks pool tickSpacing raw).1 ↔ tick ∈ ticks := by
      intro tick
      rw [mem_discoverTicks_iff]
      simp only [hraw.mem_indicesOf_iff hpos fun tick htick => (hticks tick htick).2]
      constructor
      · rintro ⟨⟨_, ⟨found, hfound, rfl⟩, rfl⟩, -⟩
        rwa [tickAt_bitmapIndex (hticks found hfound).1]
      · intro htick
        exact ⟨⟨_, ⟨tick, htick, rfl⟩, tickAt_bitmapIndex (hticks tick htick).1⟩, (hticks tick htick).2⟩
    have hread : ∀ result ∈ raw, WordRead result.raw := by
      intro result hresult
      obtain ⟨wordPosition, hword, hkey⟩ := hraw.exists_word hresult
      obtain ⟨hsuccess, hlength, -⟩ := hraw.words wordPosition hword result hresult hkey
      exact ⟨hsuccess, hlength⟩
    exact ⟨_, Prod.ext rfl (discoverTicks_errors_iff.mpr hread), sortedSet_pairwise _, hmem⟩

theorem sampleTickAssets_nonempty : [zeroAddress] ≠ [] := List.cons_ne_nil _ _

theorem sampleTickAssets_ok : ∀ asset ∈ [zeroAddress], isAddress asset = true :=
  fun _ hasset => List.mem_singleton.mp hasset ▸ zeroAddress_isAddress

theorem sampleTick_dates : ∀ first ∈ (none : Option Nat), ∀ last ∈ (none : Option Nat), first < last :=
  fun _ hfirst => absurd hfirst (Option.not_mem_none _)

theorem sampleTick_poolId : uniswapV3Class = balancerV2Class ↔ (none : Option String).isSome = true :=
  iff_of_false (by decide) Bool.false_ne_true

theorem sampleTick_cl : uniswapV3Class ∉ clPoolClasses → (none : Option Nat) = none ∧
    (none : Option Nat) = none :=
  fun _ => ⟨rfl, rfl⟩

/-- A pool whose spacing leaves the ticks at the ends of the range and the one between them. -/
def sampleTickPool : PoolConfig where
  address := zeroAddress
  name := "pool"
  poolClass := uniswapV3Class
  deploymentBlock := 1
  dateStart := none
  dateEnd := none
  enabled := true
  assets := [zeroAddress]
  poolId := none
  tickSpacing := none
  fee := none
  address_ok := zeroAddress_isAddress
  assets_nonempty := sampleTickAssets_nonempty
  assets_ok := sampleTickAssets_ok
  dates_ok := sampleTick_dates
  pool_id_ok := sampleTick_poolId
  cl_ok := sampleTick_cl

theorem algebraPool_poolId : swaprV3AlgebraClass = balancerV2Class ↔ (none : Option String).isSome = true :=
  iff_of_false (by decide) Bool.false_ne_true

theorem algebraPool_cl : swaprV3AlgebraClass ∉ clPoolClasses → (none : Option Nat) = none ∧
    (none : Option Nat) = none :=
  fun _ => ⟨rfl, rfl⟩

/-- The same pool under the other convention. -/
def sampleAlgebraPool : PoolConfig := { sampleTickPool with
  poolClass := swaprV3AlgebraClass
  pool_id_ok := algebraPool_poolId
  cl_ok := algebraPool_cl }

/-- The word that the convention gives to the ticks. -/
def bitmapWord (pool : PoolConfig) (tickSpacing : Int) (ticks : Finset Int) (wordPosition : Int) : Nat :=
  Nat.ofBits fun bit : Fin 256 => decide (∃ tick ∈ ticks,
    bitmapIndex pool tickSpacing tick = wordPosition * 256 + bit)

theorem hasBits_bitmapWord (pool : PoolConfig) (tickSpacing : Int) (ticks : Finset Int) (wordPosition : Int) :
    HasBits pool tickSpacing ticks wordPosition
      (bytesBE 32 (bitmapWord pool tickSpacing ticks wordPosition)) := by
  refine ⟨length_bytesBE 32 _, fun bit hbit => ?_⟩
  have hlt : bitmapWord pool tickSpacing ticks wordPosition < 256 ^ 32 := Nat.ofBits_lt_two_pow _
  rw [ofBytesBE_bytesBE hlt, bitmapWord, Nat.testBit_ofBits_lt _ _ hbit, decide_eq_true_iff]

/-- An honest round over the bitmap. -/
def bitmapRound (pool : PoolConfig) (tickSpacing : Int) (ticks : Finset Int) : List NumberedResult :=
  (wordPositions pool tickSpacing).map fun wordPosition =>
    ⟨⟨bitmapKey wordPosition, true, bytesBE 32 (bitmapWord pool tickSpacing ticks wordPosition), none, none⟩, 1⟩

theorem bitmapOf_bitmapRound (self : ClLiquidityCollector) (pool : PoolConfig) (tickSpacing : Int)
    (ticks : Finset Int) :
    BitmapOf pool tickSpacing ticks ((wordPositions pool tickSpacing).map (bitmapCall self pool))
      (bitmapRound pool tickSpacing ticks) := by
  constructor
  · rw [bitmapRound, List.map_map, List.map_map]
    exact .of_eq rfl
  · intro wordPosition _ result hresult hkey
    obtain ⟨asked, -, rfl⟩ := List.mem_map.mp hresult
    have hposition := congrArg wordPositionOf hkey
    rw [wordPositionOf_bitmapKey, wordPositionOf_bitmapKey] at hposition
    subst hposition
    exact ⟨rfl, hasBits_bitmapWord pool tickSpacing ticks asked⟩

/-- The ends of the range are found under either convention, with ticks below zero. -/
theorem tick_discovery_exact_ends :
    (∃ found, discoverTicks sampleTickPool 887272 (bitmapRound sampleTickPool 887272 {-887272, 0, 887272}) =
        (found, []) ∧ found.Pairwise (· < ·) ∧
      ∀ tick, tick ∈ found ↔ tick ∈ ({-887272, 0, 887272} : Finset Int)) ∧
    ∃ found, discoverTicks sampleAlgebraPool 60 (bitmapRound sampleAlgebraPool 60 {-887220, -60, 887220}) =
        (found, []) ∧ found.Pairwise (· < ·) ∧
      ∀ tick, tick ∈ found ↔ tick ∈ ({-887220, -60, 887220} : Finset Int) := by
  constructor
  · obtain ⟨calls, -, hcalls, -, -, hdiscover⟩ := tick_discovery_exact ⟨fun _ => [], 0⟩ sampleTickPool
      (by decide) (by decide : ∀ tick ∈ ({-887272, 0, 887272} : Finset Int),
        (887272 : Int) ∣ tick ∧ minTick ≤ tick ∧ tick ≤ maxTick)
    rw [hcalls] at hdiscover
    exact hdiscover _ (bitmapOf_bitmapRound ⟨fun _ => [], 0⟩ sampleTickPool 887272 {-887272, 0, 887272})
  · have hticks : ∀ tick ∈ ({-887220, -60, 887220} : Finset Int),
        (60 : Int) ∣ tick ∧ minTick ≤ tick ∧ tick ≤ maxTick := by
      intro tick htick
      simp only [Finset.mem_insert, Finset.mem_singleton] at htick
      simp only [minTick, maxTick]
      omega
    obtain ⟨calls, -, hcalls, -, -, hdiscover⟩ := tick_discovery_exact ⟨fun _ => [], 0⟩ sampleAlgebraPool
      (by decide) hticks
    rw [hcalls] at hdiscover
    exact hdiscover _ (bitmapOf_bitmapRound ⟨fun _ => [], 0⟩ sampleAlgebraPool 60 {-887220, -60, 887220})

end RpcStateIndexer
