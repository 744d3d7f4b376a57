/-
Numeric literals. An optional sign is followed by `inf`, `infinity` or `nan` in any case, or by
digits with an optional point, at least one of them before or after it, and an optional exponent.
Only ASCII digits and letters count.
-/
import LineCalc.Decimal.Basic

namespace LineCalc

inductive Literal where
  | nan
  | infinity (negative : Bool)
  | decimal (negative : Bool) (value : Decimal)
deriving DecidableEq

namespace Literal

/-! ## Scanning -/

/-- Whether a minus sign leads, and the text after the sign. -/
def splitSign : List Char → Bool × List Char
  | '-' :: cs => (true, cs)
  | '+' :: cs => (false, cs)
  | cs => (false, cs)

/-- The exponent that ends a decimal; no text is the exponent zero. -/
def exponent? : List Char → Option Int
  | [] => some 0
  | c :: cs =>
    let (negative, ds) := splitSign cs
    if (c = 'e' || c = 'E') && !ds.isEmpty && ds.all Char.isDigit then
      let value : Int := Nat.ofDigitChars 10 ds 0
      some (if negative then -value else value)
    else
      none

/-- The digits after the point, if one leads, and the text after them. -/
def splitFraction : List Char → List Char × List Char
  | '.' :: cs => cs.span Char.isDigit
  | cs => ([], cs)

/-- Digits, point and exponent; the point moves into the exponent. -/
def decimal? (cs : List Char) : Option Decimal :=
  let (whole, rest) := cs.span Char.isDigit
  let (fraction, rest) := splitFraction rest
  if whole.isEmpty && fraction.isEmpty then none
  else (exponent? rest).map fun e => ⟨Nat.ofDigitChars 10 (whole ++ fraction) 0, e - fraction.length⟩

def ofString? (text : String) : Option Literal :=
  let (negative, cs) := splitSign text.toList
  let word := String.ofList (cs.map Char.toLower)
  if word = "nan" then some .nan
  else if word = "inf" || word = "infinity" then some (.infinity negative)
  else (decimal? cs).map (.decimal negative)

/-! ## Value -/

def toBinary64 : Literal → Binary64
  | nan => .nan
  | infinity negative => .infinity negative
  | decimal negative d => d.toBinary64 negative

end Literal

end LineCalc
