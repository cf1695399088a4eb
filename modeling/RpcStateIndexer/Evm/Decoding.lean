import RpcStateIndexer.Census.Results
import RpcStateIndexer.Reasoning.Codec

/-!
# Decoding returns

Failure and zero are never conflated: an observation has a value exactly when it succeeded, and a
word of the wrong layout is an error.
-/

namespace RpcStateIndexer

open Reasoning

/-- The value of the enumeration, as it is stored. -/
def ObservationStatus.value : ObservationStatus → String
  | .ok => "ok"
  | .reverted => "reverted"
  | .emptyReturn => "empty_return"
  | .malformedReturn => "malformed_return"
  | .noCode => "no_code"
  | .rpcError => "rpc_error"
  | .anchorMismatch => "anchor_mismatch"

structure UIntObservation where
  status : ObservationStatus
  value : Option Nat
  raw : List UInt8
  detail : Option String
  value_ok : status = .ok ↔ value.isSome = true

namespace UIntObservation

def ok (observation : UIntObservation) : Bool := observation.status = .ok

/-- A failed observation; there is nothing to say about its value. -/
def failed (status : ObservationStatus) (raw : List UInt8) (detail : Option String)
    (h : status ≠ .ok) : UIntObservation where
  status := status
  value := none
  raw := raw
  detail := detail
  value_ok := iff_of_false h Bool.false_ne_true

/-- `decode_uint256` of a call that succeeded. -/
def decodeUint256 (raw : List UInt8) : UIntObservation :=
  if raw = [] then failed .emptyReturn raw none ObservationStatus.noConfusion
  else if raw.length ≠ 32 then
    failed .malformedReturn raw (some s!"expected 32 bytes, got {raw.length}")
      ObservationStatus.noConfusion
  else ⟨.ok, some (ofBytesBE raw), raw, none, iff_of_true rfl rfl⟩

theorem ok_iff_isSome (observation : UIntObservation) :
    observation.ok = true ↔ observation.value.isSome = true := by
  rw [ok, decide_eq_true_eq]
  exact observation.value_ok

/-- Only a return of one word has a value. -/
theorem decodeUint256_eq_some_iff {raw : List UInt8} {value : Nat} :
    (decodeUint256 raw).value = some value ↔ raw.length = 32 ∧ value = ofBytesBE raw := by
  unfold decodeUint256
  by_cases hempty : raw = []
  · simp [hempty, failed]
  · by_cases hlength : raw.length = 32
    · simp [hempty, hlength, eq_comm]
    · simp [hempty, hlength, failed]

end UIntObservation

/-! ## Concentrated-liquidity primitives

The text of `ClDecodeError` is the error. -/

structure DecodedSlot0 where
  sqrtPriceX96 : Nat
  tick : Int
  deriving DecidableEq

structure DecodedGlobalState where
  sqrtPriceX96 : Nat
  tick : Int
  fee : Nat
  deriving DecidableEq

structure DecodedTick where
  liquidityGross : Nat
  liquidityNet : Int
  feeGrowthOutside0X128 : Nat
  feeGrowthOutside1X128 : Nat
  initialized : Bool
  deriving DecidableEq

def word (raw : List UInt8) (index : Nat) : Except String (List UInt8) :=
  if raw.length < index * 32 + 32 then .error s!"return data too short for word {index}"
  else .ok ((raw.drop (index * 32)).take 32)

/-- An unsigned number right-aligned in a word; the bytes above it must be zero. -/
def decodeUint (word : List UInt8) (bits : Nat) : Except String Nat :=
  let high := 32 - bits / 8
  if bits % 8 ≠ 0 ∨ bits = 0 ∨ 256 < bits then .error s!"unsupported uint width: {bits}"
  else if word.take high ≠ List.replicate high 0 then
    .error s!"uint{bits} word has non-zero high bytes"
  else .ok (ofBytesBE word)

/-- A signed number, sign-extended across the word. -/
def decodeInt (word : List UInt8) (bits : Nat) : Except String Int :=
  let value := ofBytesBE word
  let body := value % 2 ^ bits
  let negative := body.testBit (bits - 1)
  let expectedHigh := if negative then 2 ^ (256 - bits) - 1 else 0
  if bits = 0 ∨ 256 < bits then .error s!"unsupported int width: {bits}"
  else if value / 2 ^ bits ≠ expectedHigh then .error s!"int{bits} word is not correctly sign-extended"
  else .ok (if negative then (body : Int) - 2 ^ bits else body)

def decodeBool (word : List UInt8) : Except String Bool :=
  let last := word.getLastD 0
  if word.take 31 ≠ List.replicate 31 0 ∨ (last ≠ 0 ∧ last ≠ 1) then .error "bool word is not 0 or 1"
  else .ok (last = 1)

def decodeUintReturn (returndata : List UInt8) (bits : Nat) : Except String Nat :=
  if returndata.length < 32 then .error "return data too short for a scalar word"
  else do decodeUint (← word returndata 0) bits

def decodeIntReturn (returndata : List UInt8) (bits : Nat) : Except String Int :=
  if returndata.length < 32 then .error "return data too short for a scalar word"
  else do decodeInt (← word returndata 0) bits

def decodeSlot0 (returndata : List UInt8) : Except String DecodedSlot0 := do
  let sqrtPriceX96 ← decodeUint (← word returndata 0) 160
  let tick ← decodeInt (← word returndata 1) 24
  return ⟨sqrtPriceX96, tick⟩

def decodeGlobalState (returndata : List UInt8) : Except String DecodedGlobalState := do
  let sqrtPriceX96 ← decodeUint (← word returndata 0) 160
  let tick ← decodeInt (← word returndata 1) 24
  let fee ← decodeUint (← word returndata 2) 16
  return ⟨sqrtPriceX96, tick, fee⟩

/-- The words of `ticks(int24)`; the middle ones are not ingested. -/
def decodeTicks (returndata : List UInt8) : Except String DecodedTick :=
  if returndata.length < 8 * 32 then .error "return data too short for ticks() struct"
  else do
    let liquidityGross ← decodeUint (← word returndata 0) 128
    let liquidityNet ← decodeInt (← word returndata 1) 128
    let feeGrowthOutside0 ← word returndata 2
    let feeGrowthOutside1 ← word returndata 3
    let initialized ← decodeBool (← word returndata 7)
    return ⟨liquidityGross, liquidityNet, ofBytesBE feeGrowthOutside0, ofBytesBE feeGrowthOutside1,
      initialized⟩

/-- The positions of the bits that are set in a word of a tick bitmap. -/
def decodeBitmapWord (returndata : List UInt8) : Except String (List Nat) :=
  if returndata.length ≠ 32 then
    .error s!"bitmap word must be exactly 32 bytes, got {returndata.length}"
  else .ok ((List.range 256).filter fun bit => (ofBytesBE returndata).testBit bit)

/-! ## Sign extension -/

/-- A number below `2 ^ bits` has its top bit exactly from half of that on. -/
theorem testBit_top {n bits : Nat} (hbits : 0 < bits) (hn : n < 2 ^ bits) :
    n.testBit (bits - 1) = true ↔ 2 ^ (bits - 1) ≤ n := by
  obtain ⟨k, rfl⟩ : ∃ k, bits = k + 1 := ⟨bits - 1, by omega⟩
  rw [Nat.add_sub_cancel]
  constructor
  · exact Nat.ge_two_pow_of_testBit
  · intro hle
    have hquot : n / 2 ^ k = 1 := by
      rw [Nat.pow_succ] at hn
      exact Nat.div_eq_of_lt_le (by omega) (by omega)
    rw [Nat.testBit_eq_decide_div_mod_eq, hquot]
    rfl

/-- A word that decodes is the sign extension of its value. -/
theorem decodeInt_eq_ok {word : List UInt8} {bits : Nat} {value : Int} (hlength : word.length = 32)
    (h : decodeInt word bits = .ok value) :
    -2 ^ (bits - 1) ≤ value ∧ value < 2 ^ (bits - 1) ∧
      (ofBytesBE word : Int) = value % 2 ^ 256 := by
  have hlt := ofBytesBE_lt word
  rw [hlength, show 256 ^ 32 = 2 ^ 256 from rfl] at hlt
  unfold decodeInt at h
  dsimp only at h
  generalize ofBytesBE word = n at h hlt ⊢
  by_cases hwidth : bits = 0 ∨ 256 < bits
  · rw [if_pos hwidth] at h
    cases h
  rw [if_neg hwidth] at h
  have hbits : 0 < bits := by omega
  have hsplit := Nat.div_add_mod n (2 ^ bits)
  have hbody : n % 2 ^ bits < 2 ^ bits := Nat.mod_lt n (Nat.two_pow_pos bits)
  have hhalf : 2 ^ bits = 2 * 2 ^ (bits - 1) := by
    rw [← Nat.pow_succ', Nat.succ_eq_add_one, Nat.sub_add_cancel hbits]
  have hword : 2 ^ bits * 2 ^ (256 - bits) = 2 ^ 256 := by
    rw [← Nat.pow_add, Nat.add_sub_cancel' (by omega)]
  have htop := testBit_top hbits hbody
  cases hnegative : (n % 2 ^ bits).testBit (bits - 1) with
  | false =>
    rw [hnegative] at h htop
    simp only [Bool.false_eq_true, if_false] at h
    by_cases hhigh : n / 2 ^ bits = 0
    · rw [if_neg (not_not.mpr hhigh)] at h
      obtain rfl := Except.ok.inj h
      rw [hhigh, Nat.mul_zero, Nat.zero_add] at hsplit
      have hsmall : n % 2 ^ bits < 2 ^ (bits - 1) := not_le.mp (mt htop.mpr Bool.false_ne_true)
      rw [hsplit] at hsmall ⊢
      refine ⟨?_, by exact_mod_cast hsmall, ?_⟩
      · have hpos : (0 : Int) < 2 ^ (bits - 1) := by positivity
        omega
      · rw [Int.emod_eq_of_lt (Int.natCast_nonneg n) (by exact_mod_cast hlt)]
    · rw [if_pos hhigh] at h
      cases h
  | true =>
    rw [hnegative] at h htop
    simp only [if_true] at h
    by_cases hhigh : n / 2 ^ bits = 2 ^ (256 - bits) - 1
    · rw [if_neg (not_not.mpr hhigh)] at h
      obtain rfl := Except.ok.inj h
      have hlarge : 2 ^ (bits - 1) ≤ n % 2 ^ bits := htop.mp rfl
      rw [hhigh, Nat.mul_sub, hword, Nat.mul_one] at hsplit
      -- The bits above are ones: the number is the value and one whole modulus.
      have hle : 2 ^ bits ≤ 2 ^ 256 := Nat.pow_le_pow_right (by decide) (by omega)
      have hcast : (n : Int) = (n % 2 ^ bits : Nat) - 2 ^ bits + 2 ^ 256 := by
        zify [hle] at hsplit ⊢
        omega
      have hhalfInt : (2 : Int) ^ bits = 2 * 2 ^ (bits - 1) := by exact_mod_cast hhalf
      have hlargeInt : (2 : Int) ^ (bits - 1) ≤ (n % 2 ^ bits : Nat) := by exact_mod_cast hlarge
      have hbodyInt : ((n % 2 ^ bits : Nat) : Int) < 2 ^ bits := by exact_mod_cast hbody
      have hpos : (0 : Int) < 2 ^ (bits - 1) := by positivity
      refine ⟨by omega, by omega, ?_⟩
      calc (n : Int) = n % 2 ^ 256 :=
            (Int.emod_eq_of_lt (Int.natCast_nonneg n) (by exact_mod_cast hlt)).symm
        _ = ((n % 2 ^ bits : Nat) - 2 ^ bits) % 2 ^ 256 := by rw [hcast, Int.add_emod_right]
    · rw [if_pos hhigh] at h
      cases h

theorem word_eq_ok {raw : List UInt8} {index : Nat} {bytes : List UInt8}
    (h : word raw index = .ok bytes) : bytes.length = 32 ∧ bytes = (raw.drop (index * 32)).take 32 := by
  unfold word at h
  by_cases hshort : raw.length < index * 32 + 32
  · rw [if_pos hshort] at h
    cases h
  · rw [if_neg hshort] at h
    obtain rfl := Except.ok.inj h
    refine ⟨?_, rfl⟩
    rw [List.length_take, List.length_drop]
    omega

/-- The net liquidity of a tick is the sign extension in its word. -/
theorem liquidityNet_of_decodeTicks {returndata : List UInt8} {decoded : DecodedTick}
    (h : decodeTicks returndata = .ok decoded) :
    -2 ^ 127 ≤ decoded.liquidityNet ∧ decoded.liquidityNet < 2 ^ 127 ∧
      (ofBytesBE ((returndata.drop 32).take 32) : Int) = decoded.liquidityNet % 2 ^ 256 := by
  unfold decodeTicks at h
  by_cases hshort : returndata.length < 8 * 32
  · rw [if_pos hshort] at h
    cases h
  · rw [if_neg hshort] at h
    simp only [except_bind_eq_ok_iff, except_pure_eq_ok_iff] at h
    obtain ⟨_, -, _, -, bytes, hword, net, hnet, _, -, _, -, _, -, _, -, rfl⟩ := h
    obtain ⟨hlength, rfl⟩ := word_eq_ok hword
    exact decodeInt_eq_ok hlength hnet

end RpcStateIndexer
