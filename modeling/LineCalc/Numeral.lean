/-
Numerals: the text in which a value is printed. Decimal numerals are the shortest that read back;
those of the other bases are exact. Zero has no sign.
-/
import LineCalc.Base
import LineCalc.Numeral.Layout
import LineCalc.Numeral.Positional

namespace LineCalc

/-- The text of a number in a base. -/
def Binary64.numeral (x : Binary64) (base : Base) : String :=
  match x with
  | nan => "NaN"
  | infinity negative => if negative then "-Infinity" else "Infinity"
  | finite negative m =>
    if m.significand = 0 then "0"
    else match base with
      | .decimal =>
        let digits := Numeral.decimalText (Decimal.shortest m)
        String.ofList (if negative then '-' :: digits else digits)
      | .hexadecimal | .binary => String.ofList (Numeral.positional base.radix x)

end LineCalc
