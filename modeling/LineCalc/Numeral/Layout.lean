/-
Laying out decimal digits: positional notation for exponents from -6 to 20, and an exponent mark
outside that range.
-/
import LineCalc.Decimal.Shortest

namespace LineCalc.Numeral

/-- The significant digits of a decimal, without trailing zeros. -/
def significantDigits (d : Decimal) : List Char :=
  ((Nat.toDigits 10 d.digits).reverse.dropWhile (· = '0')).reverse

/-- The power of ten of the first digit. -/
def leadingExponent (d : Decimal) : Int :=
  d.exponent + ((Nat.toDigits 10 d.digits).length - 1 : Nat)

/-- Digits whose first stands for `10 ^ exponent`, with zeros up to the point where needed. -/
def plain (digits : List Char) (exponent : Int) : List Char :=
  if exponent < 0 then
    '0' :: '.' :: List.replicate (-exponent - 1).toNat '0' ++ digits
  else
    let places := exponent.toNat + 1
    if digits.length ≤ places then digits ++ List.replicate (places - digits.length) '0'
    else digits.take places ++ '.' :: digits.drop places

/-- One digit before the point, and the exponent with its sign. -/
def scientific (digits : List Char) (exponent : Int) : List Char :=
  let fraction := digits.drop 1
  let mantissa := if fraction.isEmpty then digits else digits.take 1 ++ '.' :: fraction
  let sign := if exponent < 0 then '-' else '+'
  mantissa ++ 'e' :: sign :: Nat.toDigits 10 exponent.natAbs

/-- Whether a number with this leading exponent is written without an exponent mark. -/
def isPlain (exponent : Int) : Bool := -6 ≤ exponent && exponent < 21

/-- The text of a positive decimal. -/
def decimalText (d : Decimal) : List Char :=
  let digits := significantDigits d
  let exponent := leadingExponent d
  if isPlain exponent then plain digits exponent else scientific digits exponent

end LineCalc.Numeral
