import Mathlib.Data.List.Basic
import Mathlib.Data.String.Basic
import Mathlib.Tactic.IntervalCases

/-!
# JSON values and the hexadecimal text forms of the Ethereum RPC

The patterns the source compiles as regular expressions are decidable predicates on text here; each
carries the name of its pattern.
-/

namespace RpcStateIndexer

/-- A decoded JSON document.  A non-integer number keeps its source text. -/
inductive Json where
  | null
  | bool (value : Bool)
  | int (value : Int)
  | float (text : String)
  | str (value : String)
  | arr (items : List Json)
  | obj (fields : List (String × Json))

/-- `Mapping.get`: the field's value, or `null` when the key is absent. -/
def Json.get (fields : List (String × Json)) (key : String) : Json :=
  (fields.lookup key).getD .null

/-! ## Hexadecimal text -/

def isLowerHexDigit (c : Char) : Bool :=
  ('0' ≤ c && c ≤ '9') || ('a' ≤ c && c ≤ 'f')

def isHexDigit (c : Char) : Bool :=
  isLowerHexDigit c || ('A' ≤ c && c ≤ 'F')

/-- The characters after a leading `0x`, if the text has one. -/
def hexBody (text : String) : Option (List Char) :=
  match text.toList with
  | '0' :: 'x' :: body => some body
  | _ => none

/-- `^0x[0-9a-f]{40}$` -/
def isAddress (text : String) : Bool :=
  match hexBody text with
  | some body => body.length = 40 && body.all isLowerHexDigit
  | none => false

/-- `^0x[0-9a-fA-F]{64}$` -/
def isHash (text : String) : Bool :=
  match hexBody text with
  | some body => body.length = 64 && body.all isHexDigit
  | none => false

/-- `^0x(?:0|[1-9a-fA-F][0-9a-fA-F]*)$` -/
def isHexQuantity (text : String) : Bool :=
  match hexBody text with
  | some ['0'] => true
  | some (c :: body) => c ≠ '0' && isHexDigit c && body.all isHexDigit
  | _ => false

/-- `^0x(?:[0-9a-fA-F]{2})*$` -/
def isHexData (text : String) : Bool :=
  match hexBody text with
  | some body => body.length % 2 = 0 && body.all isHexDigit
  | none => false

def hexDigitValue (c : Char) : Nat :=
  if c ≤ '9' then c.toNat - '0'.toNat
  else if c ≤ 'F' then c.toNat - 'A'.toNat + 10
  else c.toNat - 'a'.toNat + 10

/-- `int(text, 16)` of a text that is a hex quantity. -/
def hexValue (text : String) : Nat :=
  ((hexBody text).getD []).foldl (fun acc c => 16 * acc + hexDigitValue c) 0

/-- Python's `hex` of a natural number. -/
def hex (n : Nat) : String := "0x" ++ String.ofList (Nat.toDigits 16 n)

def zeroAddress : String := "0x0000000000000000000000000000000000000000"

/-- `text[start:stop]` -/
def slice (text : String) (start stop : Nat) : String :=
  String.ofList ((text.toList.drop start).take (stop - start))

/-- `text[-count:]` -/
def suffix (text : String) (count : Nat) : String :=
  String.ofList (text.toList.drop (text.toList.length - count))

/-- The characters that `str.strip` removes. -/
def isPythonSpace (c : Char) : Bool :=
  let n := c.toNat
  (9 ≤ n && n ≤ 13) || (28 ≤ n && n ≤ 32) || n = 0x85 || n = 0xa0 || n = 0x1680 ||
    (0x2000 ≤ n && n ≤ 0x200a) || n = 0x2028 || n = 0x2029 || n = 0x202f || n = 0x205f || n = 0x3000

/-- `str.strip` -/
def strip (buffer : List Char) : List Char :=
  ((buffer.dropWhile isPythonSpace).reverse.dropWhile isPythonSpace).reverse

theorem zeroAddress_isAddress : isAddress zeroAddress = true := by decide

/-! ## Rendering a quantity and reading it back -/

theorem hexDigitValue_digitChar {d : Nat} (h : d < 16) : hexDigitValue d.digitChar = d := by
  interval_cases d <;> decide

theorem foldl_toDigits (n : Nat) :
    (Nat.toDigits 16 n).foldl (fun acc c => 16 * acc + hexDigitValue c) 0 = n := by
  induction n using Nat.strong_induction_on with
  | h n ih =>
    rcases Nat.lt_or_ge n 16 with hn | hn
    · rw [Nat.toDigits_of_lt_base hn]
      simp [hexDigitValue_digitChar hn]
    · rw [Nat.toDigits_of_base_le (by decide) hn, List.foldl_append,
        ih _ (Nat.div_lt_self (by omega) (by decide))]
      simp only [List.foldl_cons, List.foldl_nil,
        hexDigitValue_digitChar (Nat.mod_lt n (by decide : 0 < 16))]
      omega

theorem hexBody_hex (n : Nat) : hexBody (hex n) = some (Nat.toDigits 16 n) := by
  simp [hexBody, hex]

@[simp] theorem hexValue_hex (n : Nat) : hexValue (hex n) = n := by
  rw [hexValue, hexBody_hex]
  exact foldl_toDigits n

theorem hex_injective : Function.Injective hex := fun a b h => by
  rw [← hexValue_hex a, h, hexValue_hex]

/-! ## Lower-casing -/

theorem toLower_toList (text : String) : text.toLower.toList = text.toList.map Char.toLower := by
  show (text.map Char.toLower).toList = _
  simp

theorem char_of_small {P : Char → Prop} (h : ∀ n < 128, P (Char.ofNat n)) (c : Char)
    (hc : c.toNat < 128) : P c := by
  have := h c.toNat hc
  rwa [Char.ofNat_toNat] at this

theorem toNat_lt_of_isHexDigit {c : Char} (h : isHexDigit c = true) : c.toNat < 128 := by
  have hle : ∀ d : Char, c ≤ d → c.toNat ≤ d.toNat := fun d hd => hd
  simp only [isHexDigit, isLowerHexDigit, Bool.or_eq_true, Bool.and_eq_true,
    decide_eq_true_eq] at h
  rcases h with (⟨-, h⟩ | ⟨-, h⟩) | ⟨-, h⟩
  · exact (hle _ h).trans_lt (by decide)
  · exact (hle _ h).trans_lt (by decide)
  · exact (hle _ h).trans_lt (by decide)

theorem isLowerHexDigit_toLower {c : Char} (h : isHexDigit c = true) :
    isLowerHexDigit c.toLower = true := by
  refine char_of_small (P := fun c => isHexDigit c = true → isLowerHexDigit c.toLower = true)
    ?_ c (toNat_lt_of_isHexDigit h) h
  decide

theorem toLower_of_isLowerHexDigit {c : Char} (h : isLowerHexDigit c = true) :
    c.toLower = c := by
  refine char_of_small (P := fun c => isLowerHexDigit c = true → c.toLower = c)
    ?_ c (toNat_lt_of_isHexDigit (by simp [isHexDigit, h])) h
  decide

theorem hexBody_eq_some_iff {text : String} {body : List Char} :
    hexBody text = some body ↔ text.toList = '0' :: 'x' :: body := by
  unfold hexBody
  split
  · rename_i h
    simp [h]
  · rename_i h
    simp only [reduceCtorEq, false_iff]
    exact h body

theorem isHash_iff {text : String} : isHash text = true ↔
    ∃ body, text.toList = '0' :: 'x' :: body ∧ body.length = 64 ∧
      ∀ c ∈ body, isHexDigit c = true := by
  simp only [isHash, ← hexBody_eq_some_iff]
  split
  · rename_i body h
    simp [h]
  · rename_i h
    simp [h]

theorem isAddress_iff {text : String} : isAddress text = true ↔
    ∃ body, text.toList = '0' :: 'x' :: body ∧ body.length = 40 ∧
      ∀ c ∈ body, isLowerHexDigit c = true := by
  simp only [isAddress, ← hexBody_eq_some_iff]
  split
  · rename_i body h
    simp [h]
  · rename_i h
    simp [h]

theorem isHash_toLower {text : String} (h : isHash text = true) :
    isHash text.toLower = true := by
  obtain ⟨body, htext, hlen, hhex⟩ := isHash_iff.mp h
  refine isHash_iff.mpr ⟨body.map Char.toLower, ?_, by simpa using hlen, ?_⟩
  · rw [toLower_toList, htext]
    rfl
  · intro c hc
    obtain ⟨d, hd, rfl⟩ := List.mem_map.mp hc
    simp [isHexDigit, isLowerHexDigit_toLower (hhex d hd)]

theorem toLower_toLower_of_isHash {text : String} (h : isHash text = true) :
    text.toLower.toLower = text.toLower := by
  obtain ⟨body, htext, -, hhex⟩ := isHash_iff.mp h
  rw [← String.toList_inj, toLower_toList, toLower_toList, htext]
  simp only [List.map_cons, List.map_map, List.cons.injEq]
  refine ⟨by decide, by decide, List.map_congr_left fun c hc => ?_⟩
  exact toLower_of_isLowerHexDigit (isLowerHexDigit_toLower (hhex c hc))

/-- `0x` and lower-case digits. -/
def hexText (body : List Char) : String := String.ofList ('0' :: 'x' :: body)

theorem isAddress_hexText {body : List Char} (hlen : body.length = 40)
    (hhex : body.all isLowerHexDigit = true) : isAddress (hexText body) = true :=
  isAddress_iff.mpr ⟨body, by simp [hexText], hlen, by simpa using hhex⟩

theorem isHash_hexText {body : List Char} (hlen : body.length = 64)
    (hhex : body.all isLowerHexDigit = true) : isHash (hexText body) = true :=
  isHash_iff.mpr ⟨body, by simp [hexText], hlen, fun c hc => by
    simp [isHexDigit, List.all_eq_true.mp hhex c hc]⟩

theorem toLower_hexText {body : List Char} (hhex : body.all isLowerHexDigit = true) :
    (hexText body).toLower = hexText body := by
  rw [← String.toList_inj, toLower_toList]
  simp only [hexText, String.toList_ofList, List.map_cons, List.cons.injEq]
  refine ⟨by decide, by decide, ?_⟩
  calc body.map Char.toLower = body.map id :=
        List.map_congr_left fun c hc => toLower_of_isLowerHexDigit (List.all_eq_true.mp hhex c hc)
    _ = body := List.map_id body

theorem toLower_of_isAddress {text : String} (h : isAddress text = true) :
    text.toLower = text := by
  obtain ⟨body, htext, -, hhex⟩ := isAddress_iff.mp h
  have heq : text = hexText body := by rw [← String.toList_inj, htext, hexText, String.toList_ofList]
  rw [heq]
  exact toLower_hexText (List.all_eq_true.mpr hhex)

theorem hexText_injective : Function.Injective hexText := fun a b h => by
  have hlist := congrArg String.toList h
  simpa [hexText, String.toList_ofList] using hlist

/-! ## A quantity is rendered canonically -/

theorem isHexDigit_digitChar {d : Nat} (h : d < 16) : isHexDigit d.digitChar = true := by
  interval_cases d <;> decide

theorem digitChar_ne_zero {d : Nat} (h : d < 16) (hd : 0 < d) : d.digitChar ≠ '0' := by
  interval_cases d <;> decide

/-- The digits of a positive number: hexadecimal, the first of them not zero. -/
theorem toDigits_canonical {n : Nat} (hn : 0 < n) :
    ∃ c body, Nat.toDigits 16 n = c :: body ∧ c ≠ '0' ∧ isHexDigit c = true ∧
      body.all isHexDigit = true := by
  induction n using Nat.strong_induction_on with
  | h n ih =>
    rcases Nat.lt_or_ge n 16 with hsmall | hlarge
    · exact ⟨n.digitChar, [], Nat.toDigits_of_lt_base hsmall, digitChar_ne_zero hsmall hn,
        isHexDigit_digitChar hsmall, rfl⟩
    · obtain ⟨c, body, hdigits, hc, hhex, hbody⟩ := ih (n / 16) (by omega) (by omega)
      have hlast := isHexDigit_digitChar (Nat.mod_lt n (by decide : 0 < 16))
      refine ⟨c, body ++ [(n % 16).digitChar], ?_, hc, hhex, by simp [hbody, hlast]⟩
      rw [Nat.toDigits_of_base_le (by decide) hlarge, hdigits]
      rfl

theorem isHexQuantity_hex (n : Nat) : isHexQuantity (hex n) = true := by
  rcases Nat.eq_zero_or_pos n with rfl | hn
  · decide
  · obtain ⟨c, body, hdigits, hc, hhex, hbody⟩ := toDigits_canonical hn
    rw [isHexQuantity, hexBody_hex, hdigits]
    split
    · rfl
    · rename_i heq
      simp only [Option.some.injEq, List.cons.injEq] at heq
      obtain ⟨rfl, rfl⟩ := heq
      simp [hc, hhex, hbody]
    · rename_i hnot
      exact absurd rfl (hnot c body)

end RpcStateIndexer
