/-
Binary64 numbers. A finite number is a sign and a magnitude `significand · 2 ^ exponent`, and
each magnitude has one representation, so two finite numbers are equal exactly when their signs
and values are. There is one NaN.
-/

namespace LineCalc

/-! ## Magnitudes -/

/-- A value `significand · 2 ^ exponent` of the binary64 grid: a significand of 53 bits, full
unless the exponent is the least one. -/
structure Magnitude where
  significand : Nat
  exponent : Int
  significand_lt : significand < Nat.pow 2 53
  exponent_ge : -1074 ≤ exponent
  exponent_le : exponent ≤ 971
  full_or_least : Nat.pow 2 52 ≤ significand ∨ exponent = -1074
deriving DecidableEq

namespace Magnitude

/-- The magnitude with these parts, if they are the parts of one. -/
def ofParts? (significand : Nat) (exponent : Int) : Option Magnitude :=
  if h : significand < Nat.pow 2 53 ∧ -1074 ≤ exponent ∧ exponent ≤ 971 ∧
      (Nat.pow 2 52 ≤ significand ∨ exponent = -1074) then
    some ⟨significand, exponent, h.1, h.2.1, h.2.2.1, h.2.2.2⟩
  else
    none

def zero : Magnitude := ⟨0, -1074, by decide, by decide, by decide, .inr rfl⟩

def toRat (m : Magnitude) : Rat := m.significand * (2 : Rat) ^ m.exponent

end Magnitude

/-! ## Numbers -/

inductive Binary64 where
  | nan
  | infinity (negative : Bool)
  | finite (negative : Bool) (magnitude : Magnitude)
deriving DecidableEq

namespace Binary64

def zero (negative : Bool) : Binary64 := .finite negative .zero

instance : Inhabited Binary64 := ⟨zero false⟩

def isNaN : Binary64 → Bool
  | nan => true
  | _ => false

/-- Either zero; their signs differ but they compare equal. -/
def isZero : Binary64 → Bool
  | finite _ m => m.significand == 0
  | _ => false

/-- The sign of a number that has one; NaN has none and counts as positive. -/
def isNegative : Binary64 → Bool
  | nan => false
  | infinity negative => negative
  | finite negative _ => negative

/-- Greater than zero. -/
def isPositive : Binary64 → Bool
  | infinity false => true
  | finite false m => m.significand != 0
  | _ => false

/-- The value of a finite number. -/
def toRat? : Binary64 → Option Rat
  | finite false m => some m.toRat
  | finite true m => some (-m.toRat)
  | _ => none

def neg : Binary64 → Binary64
  | nan => nan
  | infinity negative => infinity !negative
  | finite negative m => finite (!negative) m

def abs : Binary64 → Binary64
  | nan => nan
  | infinity _ => infinity false
  | finite _ m => finite false m

instance : Neg Binary64 := ⟨neg⟩

end Binary64

end LineCalc
