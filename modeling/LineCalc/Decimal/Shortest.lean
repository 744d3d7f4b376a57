/-
The shortest decimal that reads back as a given number. Grids of one to seventeen significant
digits are tried in turn; on a grid only the two neighbours of the value can be nearest to it, so
only they are tried.
-/
import LineCalc.Decimal.Basic

namespace LineCalc.Decimal

/-- The greatest `k` with `10 ^ k ≤ r`, for `0 < r`. -/
def floorLog10 (r : Rat) : Int := floorLog 10 (fun n => (Nat.toDigits 10 n).length - 1) r

/-- Whether the decimal reads as the positive number of magnitude `m`. -/
def readsAs (d : Decimal) (m : Magnitude) : Bool := d.toBinary64 false = .finite false m

/-- The multiple of `10 ^ exponent` nearest to `m` that reads as `m`, if one does; of two equally
near, the greater. -/
def onGrid? (m : Magnitude) (exponent : Int) : Option Decimal :=
  let below : Decimal := ⟨(m.toRat / (10 : Rat) ^ exponent).floor.toNat, exponent⟩
  let above : Decimal := ⟨below.digits + 1, exponent⟩
  if below.readsAs m && (!above.readsAs m || m.toRat - below.toRat < above.toRat - m.toRat) then
    some below
  else if above.readsAs m then some above
  else none

/-- The decimal with the fewest digits that reads as the positive magnitude `m`, and of those the
nearest to it. Seventeen digits are always enough. -/
def shortest (m : Magnitude) : Decimal :=
  let leading := floorLog10 m.toRat
  let found := (List.range 17).findSome? fun (n : Nat) => onGrid? m (leading - n)
  found.getD ⟨roundHalfEven (m.toRat / (10 : Rat) ^ (leading - 16)), leading - 16⟩

end LineCalc.Decimal
