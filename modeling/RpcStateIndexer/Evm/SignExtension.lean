import RpcStateIndexer.Evm.Calldata
import RpcStateIndexer.Evm.Decoding

/-!
# Signed words

Encoding a signed number of a width and decoding a word of that width are inverse to each other, so a
signed field of a return is read from the one word that writes it.
-/

namespace RpcStateIndexer

open Reasoning

/-! ## Words of 32 bytes -/

theorem ofBytesBE_append_singleton (bytes : List UInt8) (b : UInt8) :
    ofBytesBE (bytes ++ [b]) = 256 * ofBytesBE bytes + b.toNat := by
  unfold ofBytesBE
  rw [List.foldl_append]
  rfl

theorem bytesBE_ofBytesBE (bytes : List UInt8) : bytesBE bytes.length (ofBytesBE bytes) = bytes := by
  induction bytes using List.reverseRecOn with
  | nil => rfl
  | append_singleton bytes b ih =>
    have hb := b.toNat_lt
    have hlast : UInt8.ofNat (256 * ofBytesBE bytes + b.toNat) = b := by
      rw [← UInt8.toNat_inj, UInt8.toNat_ofNat']
      omega
    rw [ofBytesBE_append_singleton, List.length_append, List.length_singleton, bytesBE,
      show (256 * ofBytesBE bytes + b.toNat) / 256 = ofBytesBE bytes by omega, ih, hlast]

/-! ## The inverse -/

section Width

variable {bits : Nat} (hbits : 0 < bits) (hle : bits ≤ 256)
include hbits hle

theorem exists_signedWord_iff {value : Int} : (∃ word, signedWord value bits = .ok word) ↔
    -2 ^ (bits - 1) ≤ value ∧ value < 2 ^ (bits - 1) := by
  unfold signedWord
  rw [if_neg (by omega)]
  split
  · rename_i hrange
    exact iff_of_true ⟨_, rfl⟩ ⟨hrange.1, by omega⟩
  · rename_i hrange
    exact iff_of_false (fun ⟨_, hno⟩ => error_ne_ok hno) fun hno => hrange ⟨hno.1, by omega⟩

theorem signedWord_spec {value : Int} {word : List UInt8} (h : signedWord value bits = .ok word) :
    (-2 ^ (bits - 1) ≤ value ∧ value < 2 ^ (bits - 1)) ∧ word.length = 32 ∧
      (ofBytesBE word : Int) = value % 2 ^ 256 := by
  have hrange := (exists_signedWord_iff hbits hle).mp ⟨word, h⟩
  rw [signedWord_eq_ok ⟨hbits, hle⟩ hrange.1 (by omega)] at h
  obtain rfl := Except.ok.inj h
  have hnonneg : 0 ≤ value % 2 ^ 256 := Int.emod_nonneg _ (by decide)
  have hlt : value % 2 ^ 256 < 2 ^ 256 := Int.emod_lt_of_pos _ (by decide)
  refine ⟨hrange, length_bytesBE _ _, ?_⟩
  rw [ofBytesBE_bytesBE (by rw [show 256 ^ 32 = 2 ^ 256 from rfl]; omega)]
  exact Int.toNat_of_nonneg hnonneg

/-- A number that is the residue of a value of the width decodes to it. -/
theorem decodeInt_of_residue {word : List UInt8} {value : Int} (hlow : -2 ^ (bits - 1) ≤ value)
    (hhigh : value < 2 ^ (bits - 1)) (hword : (ofBytesBE word : Int) = value % 2 ^ 256) :
    decodeInt word bits = .ok value := by
  have hhalf : 2 ^ bits = 2 * 2 ^ (bits - 1) := by
    rw [← Nat.pow_succ', Nat.succ_eq_add_one, Nat.sub_add_cancel hbits]
  have hfull : 2 ^ bits * 2 ^ (256 - bits) = 2 ^ 256 := by
    rw [← Nat.pow_add, Nat.add_sub_cancel' hle]
  have hhalfInt : (2 : Int) ^ bits = 2 * 2 ^ (bits - 1) := by exact_mod_cast hhalf
  have hfullInt : (2 : Int) ^ bits * 2 ^ (256 - bits) = 2 ^ 256 := by exact_mod_cast hfull
  have hpos : (0 : Int) < 2 ^ (bits - 1) := by positivity
  have hhighPos : (0 : Int) < 2 ^ (256 - bits) := by positivity
  have hmodulus : (2 : Int) ^ bits ≤ 2 ^ 256 := by nlinarith
  have htop := fun n (hn : n < 2 ^ bits) => testBit_top hbits hn
  unfold decodeInt
  dsimp only
  rw [if_neg (by omega)]
  generalize ofBytesBE word = n at hword ⊢
  by_cases hnegative : value < 0
  · -- A negative value is written with ones above it.
    have hn : (n : Int) = 2 ^ bits * (2 ^ (256 - bits) - 1) + (2 ^ bits + value) := by
      rw [hword, ← Int.add_emod_right, Int.emod_eq_of_lt (by omega) (by omega), mul_sub, hfullInt]
      ring
    have hbody : ((n % 2 ^ bits : Nat) : Int) = 2 ^ bits + value := by
      push_cast
      rw [hn, Int.mul_add_emod_self_left, Int.emod_eq_of_lt (by omega) (by omega)]
    have hquot : ((n / 2 ^ bits : Nat) : Int) = 2 ^ (256 - bits) - 1 := by
      push_cast
      rw [hn, Int.mul_add_ediv_left _ _ (by omega), Int.ediv_eq_zero_of_lt (by omega) (by omega), add_zero]
    have hbit : (n % 2 ^ bits).testBit (bits - 1) = true := by
      rw [htop _ (Nat.mod_lt n (Nat.two_pow_pos bits)), ← Int.ofNat_le, hbody]
      push_cast
      omega
    have hexpected : n / 2 ^ bits = 2 ^ (256 - bits) - 1 := by
      have hone : 1 ≤ 2 ^ (256 - bits) := Nat.one_le_two_pow
      rw [← Int.natCast_inj, hquot]
      push_cast [hone]
      rfl
    rw [hbit, if_pos rfl, if_pos rfl, if_neg (not_not.mpr hexpected), hbody]
    congr 1
    ring
  · have hn : (n : Int) = value := by
      rw [hword, Int.emod_eq_of_lt (by omega) (by omega)]
    have hsmall : n < 2 ^ (bits - 1) := by
      rw [← hn] at hhigh
      exact_mod_cast hhigh
    have hbody : n % 2 ^ bits = n := Nat.mod_eq_of_lt (by omega)
    have hbit : n.testBit (bits - 1) = false := by
      rw [← Bool.not_eq_true, htop n (by omega)]
      omega
    have hquot : n / 2 ^ bits = 0 := Nat.div_eq_of_lt (by omega)
    rw [hbody, hbit, if_neg Bool.false_ne_true, if_neg Bool.false_ne_true, if_neg (not_not.mpr hquot), hn]

/-- A word decodes to a value exactly when it is the word of that value. -/
theorem decodeInt_eq_ok_iff {word : List UInt8} {value : Int} (hlength : word.length = 32) :
    decodeInt word bits = .ok value ↔ signedWord value bits = .ok word := by
  constructor
  · intro h
    obtain ⟨hlow, hhigh, hword⟩ := decodeInt_eq_ok hlength h
    rw [signedWord_eq_ok ⟨hbits, hle⟩ hlow (by omega), ← hword, Int.toNat_natCast, ← hlength,
      bytesBE_ofBytesBE]
  · intro h
    obtain ⟨⟨hlow, hhigh⟩, -, hword⟩ := signedWord_spec hbits hle h
    exact decodeInt_of_residue hbits hle hlow hhigh hword

end Width

/-! ## The signed fields of a return -/

theorem decodeInt_word_iff {returndata bytes : List UInt8} {index bits : Nat} {value : Int}
    (hbits : 0 < bits) (hle : bits ≤ 256) (hword : word returndata index = .ok bytes) :
    decodeInt bytes bits = .ok value ↔ signedWord value bits = .ok bytes :=
  decodeInt_eq_ok_iff hbits hle (word_eq_ok hword).1

/-- A `slot0` is read exactly where its tick is written by the second word. -/
theorem decodeSlot0_eq_ok_iff {returndata : List UInt8} {decoded : DecodedSlot0} :
    decodeSlot0 returndata = .ok decoded ↔ ∃ price tick, word returndata 0 = .ok price ∧
      decodeUint price 160 = .ok decoded.sqrtPriceX96 ∧ word returndata 1 = .ok tick ∧
        signedWord decoded.tick 24 = .ok tick := by
  unfold decodeSlot0
  simp only [except_bind_eq_ok_iff, except_pure_eq_ok_iff]
  constructor
  · rintro ⟨price, hprice, sqrtPriceX96, hsqrt, bytes, hbytes, tick, htick, rfl⟩
    exact ⟨price, bytes, hprice, hsqrt, hbytes,
      (decodeInt_word_iff (by decide) (by decide) hbytes).mp htick⟩
  · rintro ⟨price, bytes, hprice, hsqrt, hbytes, htick⟩
    exact ⟨price, hprice, _, hsqrt, bytes, hbytes, _,
      (decodeInt_word_iff (by decide) (by decide) hbytes).mpr htick, rfl⟩

theorem decodeGlobalState_eq_ok_iff {returndata : List UInt8} {decoded : DecodedGlobalState} :
    decodeGlobalState returndata = .ok decoded ↔ ∃ price tick fee, word returndata 0 = .ok price ∧
      decodeUint price 160 = .ok decoded.sqrtPriceX96 ∧ word returndata 1 = .ok tick ∧
        signedWord decoded.tick 24 = .ok tick ∧ word returndata 2 = .ok fee ∧
          decodeUint fee 16 = .ok decoded.fee := by
  unfold decodeGlobalState
  simp only [except_bind_eq_ok_iff, except_pure_eq_ok_iff]
  constructor
  · rintro ⟨price, hprice, sqrtPriceX96, hsqrt, bytes, hbytes, tick, htick, fee, hfee, value, hvalue, rfl⟩
    exact ⟨price, bytes, fee, hprice, hsqrt, hbytes,
      (decodeInt_word_iff (by decide) (by decide) hbytes).mp htick, hfee, hvalue⟩
  · rintro ⟨price, bytes, fee, hprice, hsqrt, hbytes, htick, hfee, hvalue⟩
    exact ⟨price, hprice, _, hsqrt, bytes, hbytes, _,
      (decodeInt_word_iff (by decide) (by decide) hbytes).mpr htick, fee, hfee, _, hvalue, rfl⟩

/-- A tick is read exactly where its net liquidity is written by the second word. -/
theorem decodeTicks_eq_ok_iff {returndata : List UInt8} {decoded : DecodedTick} :
    decodeTicks returndata = .ok decoded ↔ 8 * 32 ≤ returndata.length ∧
      ∃ gross net growth0 growth1 flag, word returndata 0 = .ok gross ∧
        decodeUint gross 128 = .ok decoded.liquidityGross ∧ word returndata 1 = .ok net ∧
          signedWord decoded.liquidityNet 128 = .ok net ∧ word returndata 2 = .ok growth0 ∧
            ofBytesBE growth0 = decoded.feeGrowthOutside0X128 ∧ word returndata 3 = .ok growth1 ∧
              ofBytesBE growth1 = decoded.feeGrowthOutside1X128 ∧ word returndata 7 = .ok flag ∧
                decodeBool flag = .ok decoded.initialized := by
  unfold decodeTicks
  by_cases hshort : returndata.length < 8 * 32
  · rw [if_pos hshort]
    exact iff_of_false error_ne_ok fun hno => by omega
  rw [if_neg hshort, and_iff_right (not_lt.mp hshort)]
  simp only [except_bind_eq_ok_iff, except_pure_eq_ok_iff]
  constructor
  · rintro ⟨gross, hgross, _, hvalue, net, hnet, _, hsigned, growth0, hgrowth0, growth1, hgrowth1, flag, hflag,
      _, hbool, rfl⟩
    exact ⟨gross, net, growth0, growth1, flag, hgross, hvalue, hnet,
      (decodeInt_word_iff (by decide) (by decide) hnet).mp hsigned, hgrowth0, rfl, hgrowth1, rfl, hflag,
      hbool⟩
  · rintro ⟨gross, net, growth0, growth1, flag, hgross, hvalue, hnet, hsigned, hgrowth0, h0, hgrowth1, h1,
      hflag, hbool⟩
    refine ⟨gross, hgross, _, hvalue, net, hnet, _,
      (decodeInt_word_iff (by decide) (by decide) hnet).mpr hsigned, growth0, hgrowth0, growth1, hgrowth1,
      flag, hflag, _, hbool, ?_⟩
    rw [h0, h1]

/-- At every width the word of a number in range decodes to it, and a word that decodes is that of its
value; so each signed field is the number whose word the return holds. -/
theorem signed_words_inverse {bits : Nat} (hbits : 1 ≤ bits ∧ bits ≤ 256) :
    (∀ value, (∃ word, signedWord value bits = .ok word) ↔
        -2 ^ (bits - 1) ≤ value ∧ value < 2 ^ (bits - 1)) ∧
      (∀ value word, signedWord value bits = .ok word →
        word.length = 32 ∧ decodeInt word bits = .ok value) ∧
      (∀ word value, word.length = 32 → decodeInt word bits = .ok value →
        signedWord value bits = .ok word) ∧
      (∀ returndata decoded, decodeSlot0 returndata = .ok decoded ↔ ∃ price tick,
        word returndata 0 = .ok price ∧ decodeUint price 160 = .ok decoded.sqrtPriceX96 ∧
          word returndata 1 = .ok tick ∧ signedWord decoded.tick 24 = .ok tick) ∧
      (∀ returndata decoded, decodeGlobalState returndata = .ok decoded ↔ ∃ price tick fee,
        word returndata 0 = .ok price ∧ decodeUint price 160 = .ok decoded.sqrtPriceX96 ∧
          word returndata 1 = .ok tick ∧ signedWord decoded.tick 24 = .ok tick ∧
            word returndata 2 = .ok fee ∧ decodeUint fee 16 = .ok decoded.fee) ∧
      ∀ returndata decoded, decodeTicks returndata = .ok decoded ↔ 8 * 32 ≤ returndata.length ∧
        ∃ gross net growth0 growth1 flag, word returndata 0 = .ok gross ∧
          decodeUint gross 128 = .ok decoded.liquidityGross ∧ word returndata 1 = .ok net ∧
            signedWord decoded.liquidityNet 128 = .ok net ∧ word returndata 2 = .ok growth0 ∧
              ofBytesBE growth0 = decoded.feeGrowthOutside0X128 ∧ word returndata 3 = .ok growth1 ∧
                ofBytesBE growth1 = decoded.feeGrowthOutside1X128 ∧ word returndata 7 = .ok flag ∧
                  decodeBool flag = .ok decoded.initialized := by
  obtain ⟨hpos, hle⟩ := hbits
  refine ⟨fun _ => exists_signedWord_iff hpos hle, fun value word hword => ?_, fun word value hlength =>
    (decodeInt_eq_ok_iff hpos hle hlength).mp, fun _ _ => decodeSlot0_eq_ok_iff,
    fun _ _ => decodeGlobalState_eq_ok_iff, fun _ _ => decodeTicks_eq_ok_iff⟩
  have hlength := (signedWord_spec hpos hle hword).2.1
  exact ⟨hlength, (decodeInt_eq_ok_iff hpos hle hlength).mpr hword⟩

theorem signed_words_inverse_tick : decodeInt (List.replicate 32 255) 24 = .ok (-1) := by
  have hword : signedWord (-1) 24 = .ok (List.replicate 32 255) := by decide +kernel
  exact ((signed_words_inverse ⟨by decide, by decide⟩).2.1 (-1) _ hword).2

end RpcStateIndexer
