/-
Decimals `digits · 10 ^ exponent` and the binary64 number nearest to one.
-/
import LineCalc.Binary64.Rounding

namespace LineCalc

/-- The value `digits · 10 ^ exponent`, without a sign. -/
structure Decimal where
  digits : Nat
  exponent : Int
deriving DecidableEq

namespace Decimal

def toRat (d : Decimal) : Rat := d.digits * (10 : Rat) ^ d.exponent

/-- The number nearest to the decimal. A value of at least 10 ^ 401 is above every finite number
and one below 10 ^ -400 under half the least positive one, so no power of ten far outside that
range is ever formed. -/
def toBinary64 (negative : Bool) (d : Decimal) : Binary64 :=
  if d.digits = 0 then .zero negative
  else if 400 < d.exponent then .infinity negative
  else if d.exponent + d.digits.log2 + 1 < -400 then .zero negative
  else .nearest negative d.toRat

end Decimal

end LineCalc
