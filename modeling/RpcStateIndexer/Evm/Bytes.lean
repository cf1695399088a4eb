import RpcStateIndexer.Evm.Json
import Mathlib.Data.Vector.Basic

/-!
# Bytes and their hexadecimal text

`bytes.hex` and `bytes.fromhex`.  A text of lower-case digits and the bytes it writes determine each
other, which is what lets a digest cover the bytes of an address instead of its text.
-/

namespace RpcStateIndexer

/-- A 32-byte word, most significant byte first. -/
abbrev Word := List.Vector UInt8 32

/-! ## `bytes.hex` -/

def hexByte (b : UInt8) : List Char := [Nat.digitChar (b.toNat / 16), Nat.digitChar (b.toNat % 16)]

def hexDigest (w : Word) : List Char := w.toList.flatMap hexByte

/-- `digest.hexdigest()` -/
def hexdigest (w : Word) : String := String.ofList (hexDigest w)

theorem length_flatMap_hexByte (bytes : List UInt8) : (bytes.flatMap hexByte).length = 2 * bytes.length := by
  induction bytes with
  | nil => rfl
  | cons b bytes ih =>
    simp only [List.flatMap_cons, List.length_append, ih, List.length_cons]
    simp only [hexByte, List.length_cons, List.length_nil]
    omega

theorem all_flatMap_hexByte (bytes : List UInt8) : (bytes.flatMap hexByte).all isLowerHexDigit = true := by
  have hdigit : ∀ d < 16, isLowerHexDigit (Nat.digitChar d) = true := by decide
  simp only [List.all_flatMap, List.all_eq_true]
  intro b _
  have hb := b.toNat_lt
  simp [hexByte, hdigit _ (show b.toNat / 16 < 16 by omega),
    hdigit _ (show b.toNat % 16 < 16 by omega)]

theorem hexDigest_all (w : Word) : (hexDigest w).all isLowerHexDigit = true := all_flatMap_hexByte w.toList

theorem hexDigest_length (w : Word) : (hexDigest w).length = 64 := by
  rw [hexDigest, length_flatMap_hexByte, w.toList_length]

theorem hexByte_injective : Function.Injective hexByte := by
  intro a b h
  have ha := a.toNat_lt
  have hb := b.toNat_lt
  simp only [hexByte, List.cons.injEq, and_true] at h
  have hhigh := congrArg hexDigitValue h.1
  have hlow := congrArg hexDigitValue h.2
  rw [hexDigitValue_digitChar (by omega), hexDigitValue_digitChar (by omega)] at hhigh hlow
  apply UInt8.toNat_inj.mp
  omega

theorem hexdigest_injective : Function.Injective hexdigest := by
  intro v w h
  have hflat : ∀ k l : List UInt8, k.flatMap hexByte = l.flatMap hexByte → k = l := by
    intro k
    induction k with
    | nil =>
      intro l hl
      cases l with
      | nil => rfl
      | cons b l => simp [hexByte] at hl
    | cons a k ih =>
      intro l hl
      cases l with
      | nil => simp [hexByte] at hl
      | cons b l =>
        obtain ⟨hbyte, hrest⟩ := List.append_inj hl rfl
        rw [hexByte_injective hbyte, ih l hrest]
  apply List.Vector.toList_injective
  apply hflat
  exact String.ofList_injective h

/-! ## `bytes.fromhex` -/

/-- The bytes of a text of hex digits in pairs. -/
def fromHex : List Char → List UInt8
  | high :: low :: rest => UInt8.ofNat (16 * hexDigitValue high + hexDigitValue low) :: fromHex rest
  | _ => []

theorem length_fromHex (text : List Char) : (fromHex text).length = text.length / 2 := by
  induction text using fromHex.induct with
  | case1 high low rest ih =>
    rw [fromHex, List.length_cons, ih, List.length_cons, List.length_cons]
    omega
  | case2 text htext =>
    match text, htext with
    | [], _ => rfl
    | [_], _ => simp [fromHex]
    | a :: b :: rest, htext => exact absurd rfl (htext a b rest)

theorem digitChar_hexDigitValue {c : Char} (h : isLowerHexDigit c = true) :
    (hexDigitValue c).digitChar = c ∧ hexDigitValue c < 16 := by
  refine char_of_small (P := fun c => isLowerHexDigit c = true →
    (hexDigitValue c).digitChar = c ∧ hexDigitValue c < 16) ?_ c (toNat_lt_of_isHexDigit ?_) h
  · decide
  · simp [isHexDigit, h]

theorem hexDigitValue_inj {c d : Char} (hc : isLowerHexDigit c = true)
    (hd : isLowerHexDigit d = true) (h : hexDigitValue c = hexDigitValue d) : c = d := by
  rw [← (digitChar_hexDigitValue hc).1, h, (digitChar_hexDigitValue hd).1]

/-- Lower-case texts of one even length with the same bytes are the same text. -/
theorem fromHex_inj {text other : List Char} (hlen : text.length = other.length)
    (heven : text.length % 2 = 0) (htext : ∀ c ∈ text, isLowerHexDigit c = true)
    (hother : ∀ c ∈ other, isLowerHexDigit c = true) (h : fromHex text = fromHex other) :
    text = other := by
  induction text using fromHex.induct generalizing other with
  | case1 high low rest ih =>
    match other, hlen with
    | high' :: low' :: rest', hlen =>
      simp only [List.forall_mem_cons] at htext hother
      obtain ⟨hhigh, hlow, hrest⟩ := htext
      obtain ⟨hhigh', hlow', hrest'⟩ := hother
      have hbound := (digitChar_hexDigitValue hhigh).2
      have hbound' := (digitChar_hexDigitValue hhigh').2
      have hboundLow := (digitChar_hexDigitValue hlow).2
      have hboundLow' := (digitChar_hexDigitValue hlow').2
      simp only [fromHex, List.cons.injEq] at h
      have hbyte := congrArg UInt8.toNat h.1
      rw [UInt8.toNat_ofNat_of_lt' (by simp [UInt8.size]; omega),
        UInt8.toNat_ofNat_of_lt' (by simp [UInt8.size]; omega)] at hbyte
      have hhigh_eq := hexDigitValue_inj hhigh hhigh' (by omega)
      have hlow_eq := hexDigitValue_inj hlow hlow' (by omega)
      rw [hhigh_eq, hlow_eq, ih (by simpa using hlen) (by simp at heven; omega) hrest hrest' h.2]
  | case2 text hshort =>
    match text, hshort with
    | [], _ => exact (List.length_eq_zero_iff.mp hlen.symm).symm
    | [_], _ => simp at heven
    | a :: b :: rest, hshort => exact absurd rfl (hshort a b rest)

end RpcStateIndexer
