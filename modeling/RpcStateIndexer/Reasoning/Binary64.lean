import Mathlib.Data.Rat.Cast.Order
import Mathlib.Tactic.Positivity

/-!
# Rounding to binary64

A finite float is a rational.  Arithmetic on floats is exact arithmetic whose result is rounded to the
nearest float, a tie to the one with an even significand.
-/

namespace RpcStateIndexer.Reasoning

/-- Division to the nearest integer, a tie to the even one. -/
def divHalfEven (n d : Nat) : Nat :=
  if d < 2 * (n % d) ∨ (2 * (n % d) = d ∧ n / d % 2 = 1) then n / d + 1 else n / d

theorem divHalfEven_zero (d : Nat) : divHalfEven 0 d = 0 := by
  simp [divHalfEven]

namespace Binary64

/-- The exponent `e` with `2 ^ e ≤ n / d < 2 ^ (e + 1)`. -/
def leadingExponent (n d : Nat) : Int :=
  let e : Int := (Nat.log2 n : Int) - Nat.log2 d
  if d * 2 ^ e.toNat ≤ n * 2 ^ (-e).toNat then e else e - 1

/-- The exponent of the last of the 53 bits that are kept; below the normal numbers it is fixed. -/
def lastExponent (n d : Nat) : Int := max (leadingExponent n d - 52) (-1074)

/-- `n / d`, rounded to its last bit. -/
def roundQuotient (n d : Nat) : ℚ :=
  let e := lastExponent n d
  divHalfEven (n * 2 ^ (-e).toNat) (d * 2 ^ e.toNat) * 2 ^ e.toNat / 2 ^ (-e).toNat

/-- The float nearest to `x`; there is none where the result is infinite. -/
def round (x : ℚ) : Option ℚ :=
  let magnitude := roundQuotient x.num.natAbs x.den
  if magnitude < 2 ^ 1024 then some (if x < 0 then -magnitude else magnitude) else none

theorem roundQuotient_nonneg (n d : Nat) : 0 ≤ roundQuotient n d := by
  unfold roundQuotient
  positivity

theorem roundQuotient_zero (d : Nat) : roundQuotient 0 d = 0 := by
  unfold roundQuotient
  simp only [divHalfEven_zero, Nat.cast_zero, zero_mul, zero_div]

/-- Rounding keeps a number on its side of zero. -/
theorem round_nonpos {x y : ℚ} (h : round x = some y) (hx : x ≤ 0) : y ≤ 0 := by
  unfold round at h
  dsimp only at h
  split at h
  · obtain rfl := Option.some.inj h
    obtain hneg | rfl := lt_or_eq_of_le hx
    · rw [if_pos hneg]
      exact neg_nonpos.mpr (roundQuotient_nonneg _ _)
    · rw [if_neg (lt_irrefl _)]
      exact (roundQuotient_zero _).le
  · cases h

/-! ## Decimal text -/

def digitsValue (digits : List Char) : Nat := digits.foldl (fun n c => 10 * n + (c.toNat - 48)) 0

/-- The sign in front of a number, if there is one, and the rest. -/
def takeSign : List Char → Bool × List Char
  | '-' :: rest => (true, rest)
  | '+' :: rest => (false, rest)
  | rest => (false, rest)

/-- The number that a decimal text with a fraction or an exponent writes, before it is rounded. -/
def decimalValue (text : String) : Option ℚ :=
  let (negative, body) := takeSign text.toList
  let (mantissa, suffix) := body.span fun c => c ≠ 'e' && c ≠ 'E'
  let (whole, fraction) := mantissa.span fun c => c ≠ '.'
  let (below, exponent) := takeSign (suffix.drop 1)
  let digits := whole ++ fraction.drop 1
  if whole ≠ [] ∧ (digits ++ exponent).all Char.isDigit then
    let scale : ℚ := 10 ^ digitsValue exponent
    let value : ℚ := digitsValue digits / 10 ^ (fraction.drop 1).length
    let scaled := if below then value / scale else value * scale
    some (if negative then -scaled else scaled)
  else none

/-- The float that a decimal text reads as; an infinity and what is no number have no value. -/
def ofText (text : String) : Option ℚ := (decimalValue text).bind round

example : ofText "-12.5e-1" = some (-5 / 4) := by decide +kernel

-- 28.5 and 2 ^ -46, with 100 more: the sum is a tie, and its even neighbour is 128.5
example : round (57 / 2 + 1 / 2 ^ 46 + 100) = some (257 / 2) := by decide +kernel

end Binary64

end RpcStateIndexer.Reasoning
