/-
Arithmetic on binary64 numbers: the exact result is rounded once. Division by zero gives an
infinity, and an operation without a meaningful result gives NaN.
-/
import LineCalc.Binary64.Rounding

namespace LineCalc.Binary64

/-- A sum that is exactly zero is positive unless both terms are negative. -/
def add : Binary64 → Binary64 → Binary64
  | nan, _ | _, nan => nan
  | infinity s, infinity t => if s = t then infinity s else nan
  | infinity s, finite _ _ => infinity s
  | finite _ _, infinity t => infinity t
  | finite s m, finite t n =>
    let x := if s then -m.toRat else m.toRat
    let y := if t then -n.toRat else n.toRat
    ofRat (x + y) (s && t)

def sub (x y : Binary64) : Binary64 := add x (-y)

def mul : Binary64 → Binary64 → Binary64
  | nan, _ | _, nan => nan
  | infinity s, infinity t => infinity (s ^^ t)
  | infinity s, finite t n => if n.significand = 0 then nan else infinity (s ^^ t)
  | finite s m, infinity t => if m.significand = 0 then nan else infinity (s ^^ t)
  | finite s m, finite t n => nearest (s ^^ t) (m.toRat * n.toRat)

def div : Binary64 → Binary64 → Binary64
  | nan, _ | _, nan => nan
  | infinity _, infinity _ => nan
  | infinity s, finite t _ => infinity (s ^^ t)
  | finite s _, infinity t => zero (s ^^ t)
  | finite s m, finite t n =>
    if n.significand = 0 then
      if m.significand = 0 then nan else infinity (s ^^ t)
    else nearest (s ^^ t) (m.toRat / n.toRat)

/-- The remainder of a division whose quotient is cut toward zero; it has the sign of the
dividend. -/
def rem : Binary64 → Binary64 → Binary64
  | nan, _ | _, nan | infinity _, _ => nan
  | x, infinity _ => x
  | finite s m, finite _ n =>
    if n.significand = 0 then nan
    else nearest s (m.toRat - n.toRat * (m.toRat / n.toRat).floor)

/-- The integer part. -/
def trunc : Binary64 → Binary64
  | finite s m => nearest s m.toRat.floor
  | x => x

/-- The number with this value, or the nearest one. -/
def ofNat (n : Nat) : Binary64 := nearest false n

/-- The integer part of a positive finite number; zero for any other number. -/
def toNat : Binary64 → Nat
  | finite false m => m.toRat.floor.toNat
  | _ => 0

instance : Add Binary64 := ⟨add⟩
instance : Sub Binary64 := ⟨sub⟩
instance : Mul Binary64 := ⟨mul⟩
instance : Div Binary64 := ⟨div⟩
instance : Mod Binary64 := ⟨rem⟩

end LineCalc.Binary64
