import RpcStateIndexer.Evm.Bytes
import RpcStateIndexer.Reasoning.Codec

/-!
# Calldata

Selectors and words of fixed width.  The hash that selectors are cut from is a parameter: it comes
from a library.  The text of a `ValueError` is the error.
-/

namespace RpcStateIndexer

open Reasoning

def balanceOfSelector : List UInt8 := [0x70, 0xa0, 0x82, 0x31]
def totalSupplySelector : List UInt8 := [0x18, 0x16, 0x0d, 0xdd]

def minTick : Int := -887272
def maxTick : Int := 887272

/-- The first four bytes of the hash of a signature. -/
def functionSelector (keccak : String → List UInt8) (signature : String) : List UInt8 :=
  (keccak signature).take 4

/-- A signed number as a sign-extended word. -/
def signedWord (value : Int) (bits : Nat) : Except String (List UInt8) :=
  let low : Int := -2 ^ (bits - 1)
  let high : Int := 2 ^ (bits - 1) - 1
  if bits = 0 ∨ 256 < bits then .error s!"unsupported signed width: {bits}"
  else if low ≤ value ∧ value ≤ high then .ok (bytesBE 32 (value % 2 ^ 256).toNat)
  else .error s!"value {value} outside int{bits} range [{low}, {high}]"

/-- A number of the width has a word, that of its two's complement. -/
theorem signedWord_eq_ok {value : Int} {bits : Nat} (hbits : 0 < bits ∧ bits ≤ 256)
    (hlow : -2 ^ (bits - 1) ≤ value) (hhigh : value ≤ 2 ^ (bits - 1) - 1) :
    signedWord value bits = .ok (bytesBE 32 (value % 2 ^ 256).toNat) := by
  rw [signedWord, if_neg (by omega), if_pos ⟨hlow, hhigh⟩]

def ticksCalldata (keccak : String → List UInt8) (tick : Int) : Except String (List UInt8) := do
  return functionSelector keccak "ticks(int24)" ++ (← signedWord tick 24)

/-- The bitmap of a Uniswap pool, by the compressed tick. -/
def tickBitmapCalldata (keccak : String → List UInt8) (wordPosition : Int) :
    Except String (List UInt8) := do
  return functionSelector keccak "tickBitmap(int16)" ++ (← signedWord wordPosition 16)

/-- The bitmap of an Algebra pool, by the tick. -/
def tickTableCalldata (keccak : String → List UInt8) (wordPosition : Int) :
    Except String (List UInt8) := do
  return functionSelector keccak "tickTable(int16)" ++ (← signedWord wordPosition 16)

/-- `ADDRESS_RE` allows upper case. -/
def addressWord (address : String) : Except String (List UInt8) :=
  match hexBody address with
  | some body =>
    if body.length = 40 ∧ body.all isHexDigit then .ok (List.replicate 12 0 ++ fromHex body)
    else .error s!"invalid EVM address: '{address}'"
  | none => .error s!"invalid EVM address: '{address}'"

/-- An accepted address has a word. -/
theorem exists_addressWord {address : String} (h : isAddress address = true) :
    ∃ bytes, addressWord address = .ok bytes := by
  obtain ⟨body, htext, hlength, hdigits⟩ := isAddress_iff.mp h
  have hbody : hexBody address = some body := by
    unfold hexBody
    rw [htext]
    rfl
  have hall : body.all isHexDigit = true := by
    rw [List.all_eq_true]
    intro c hc
    simp [isHexDigit, hdigits c hc]
  refine ⟨List.replicate 12 0 ++ fromHex body, ?_⟩
  unfold addressWord
  rw [hbody]
  exact if_pos ⟨hlength, hall⟩

def balanceOfCalldata (holder : String) : Except String (List UInt8) := do
  return balanceOfSelector ++ (← addressWord holder)

end RpcStateIndexer
