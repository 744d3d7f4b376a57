/-
Rounding a rational to the binary64 number nearest to it, ties to the even significand. The
exponent is that of the value's binade, never below the least one; the significand is the value
in units of that exponent, rounded; what does not fit then has overflowed.
-/
import LineCalc.Binary64.Basic

namespace LineCalc

/-! ## Logarithms of rationals -/

/-- The greatest `k` with `base ^ k ≤ r`, for `0 < r`, given the like for positive naturals. The
logarithms of numerator and denominator leave two candidates. -/
def floorLog (base : Nat) (log : Nat → Nat) (r : Rat) : Int :=
  let k : Int := log r.num.toNat - log r.den
  if (base : Rat) ^ k ≤ r then k else k - 1

/-- The greatest `k` with `2 ^ k ≤ r`, for `0 < r`. -/
def floorLog2 (r : Rat) : Int := floorLog 2 Nat.log2 r

/-! ## Rounding -/

/-- The integer nearest to `r`, for `0 ≤ r`; of two, the even one. -/
def roundHalfEven (r : Rat) : Nat :=
  let below := r.floor.toNat
  let excess := r - below
  if excess < 1 / 2 then below
  else if 1 / 2 < excess then below + 1
  else if below % 2 = 0 then below else below + 1

namespace Binary64

/-- The number with a rounded significand of at most 2 ^ 53. A significand of 2 ^ 53 carries into
the next binade, and an exponent beyond the greatest one gives infinity. -/
def ofRounded (negative : Bool) (significand : Nat) (exponent : Int) : Binary64 :=
  let parts :=
    if significand = Nat.pow 2 53 then Magnitude.ofParts? (Nat.pow 2 52) (exponent + 1)
    else Magnitude.ofParts? significand exponent
  match parts with
  | some m => finite negative m
  | none => infinity negative

/-- The number nearest to `r` or `-r`, for `0 ≤ r`. -/
def nearest (negative : Bool) (r : Rat) : Binary64 :=
  if r ≤ 0 then zero negative
  else
    let exponent := max (floorLog2 r - 52) (-1074)
    ofRounded negative (roundHalfEven (r / (2 : Rat) ^ exponent)) exponent

/-- The number nearest to `r`; an exact zero takes the sign `zeroNegative`. -/
def ofRat (r : Rat) (zeroNegative : Bool) : Binary64 :=
  if r = 0 then zero zeroNegative
  else nearest (r < 0) r.abs

end Binary64

end LineCalc
