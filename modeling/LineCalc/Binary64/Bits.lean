/-
The interchange format: a sign bit, eleven bits of biased exponent and 52 bits of trailing
significand. Every pattern of a NaN reads as the one NaN.
-/
import LineCalc.Binary64.Basic

namespace LineCalc.Binary64

def ofBits (bits : UInt64) : Binary64 :=
  let negative := bits >>> 63 == 1
  let biased := ((bits >>> 52) &&& 0x7ff).toNat
  let trailing := (bits &&& 0xfffffffffffff).toNat
  if biased = 0x7ff then
    if trailing = 0 then infinity negative else nan
  else
    let parts :=
      if biased = 0 then Magnitude.ofParts? trailing (-1074)
      else Magnitude.ofParts? (Nat.pow 2 52 + trailing) (biased - 1075)
    match parts with
    | some m => finite negative m
    | none => nan

/-- The fields of a number as one word; NaN is the positive quiet one. -/
def toBits (x : Binary64) : UInt64 :=
  let sign : UInt64 := if x.isNegative then 0x8000000000000000 else 0
  match x with
  | nan => 0x7ff8000000000000
  | infinity _ => sign ||| 0x7ff0000000000000
  | finite _ m =>
    if m.significand < Nat.pow 2 52 then sign ||| m.significand.toUInt64
    else
      let biased := (m.exponent + 1075).toNat.toUInt64
      sign ||| biased <<< 52 ||| (m.significand - Nat.pow 2 52).toUInt64

end LineCalc.Binary64
