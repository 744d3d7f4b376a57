/-
The exact positional expansion of a number whose base is a power of two. The digits come out of
binary64 arithmetic itself: in such a base no step of either loop has to round.
-/
import LineCalc.Binary64.Arith

namespace LineCalc.Numeral

/-- Digits that one side of the point may have. A binary64 number needs at most 1024 before the
point and 1074 after it. -/
def maxDigits : Nat := 1100

/-! ## Integer digits -/

/-- The last digit of an integer, and the integer without it. -/
def integerStep (radix int : Binary64) : Binary64 × Binary64 :=
  let digit := int % radix
  (digit, (int - digit) / radix)

/-- The digits of an integer, the last one first. Zero has one digit. -/
def integerDigits (radix : Binary64) : Nat → Binary64 → List Nat
  | 0, _ => []
  | room + 1, int =>
    let (digit, rest) := integerStep radix int
    digit.toNat :: if rest.isZero then [] else integerDigits radix room rest

/-! ## Fraction digits -/

/-- The first digit of a fraction, and the fraction that the others make. -/
def fractionStep (radix frac : Binary64) : Binary64 × Binary64 :=
  let scaled := frac * radix
  let digit := scaled.trunc
  (digit, scaled - digit)

/-- The digits of a fraction, the first one first. Zero has none. -/
def fractionDigits (radix : Binary64) : Nat → Binary64 → List Nat
  | 0, _ => []
  | room + 1, frac =>
    if frac.isPositive then
      let (digit, rest) := fractionStep radix frac
      digit.toNat :: fractionDigits radix room rest
    else
      []

/-! ## Text -/

/-- The character of a digit below the base, lower case above nine. -/
def digitChar? (base digit : Nat) : Option Char :=
  if digit < base then some digit.digitChar else none

/-- The text of a finite number in a base that is a power of two. -/
def positional (base : Nat) (x : Binary64) : List Char :=
  let radix := Binary64.ofNat base
  let int := x.abs.trunc
  let frac := x.abs - int
  let sign := if x.isNegative then ['-'] else []
  let whole := (integerDigits radix maxDigits int).reverse.filterMap (digitChar? base)
  let fraction :=
    if frac.isPositive then
      '.' :: (fractionDigits radix maxDigits frac).filterMap (digitChar? base)
    else
      []
  sign ++ whole ++ fraction

end LineCalc.Numeral
