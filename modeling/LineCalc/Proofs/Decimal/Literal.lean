/-
Reading numeric literals. A text of a sign, digits, a point where digits follow it, and an exponent
is read as all of its digits, scaled by the exponent less the digits after the point.
-/
import LineCalc.Decimal.Literal
import Mathlib.Data.List.TakeDrop

namespace LineCalc

theorem toLower_of_isDigit {c : Char} (h : c.isDigit = true) : c.toLower = c := by
  have hupper : ¬ (c.val ≥ 'A'.val ∧ c.val ≤ 'Z'.val) := by
    simp only [Char.isDigit, Bool.and_eq_true, decide_eq_true_eq, ge_iff_le,
      UInt32.le_iff_toNat_le, Char.reduceVal, UInt32.reduceToNat] at h ⊢
    omega
  exact dif_neg hupper

namespace Literal

/-! ## Pieces of a literal -/

theorem splitSign_of_isDigit {c : Char} (hc : c.isDigit = true) (cs : List Char) :
    splitSign (c :: cs) = (false, c :: cs) := by
  unfold splitSign
  split
  · rename_i h
    rw [(List.cons.inj h).1] at hc
    exact absurd hc (by decide)
  · rename_i h
    rw [(List.cons.inj h).1] at hc
    exact absurd hc (by decide)
  · rfl

/-- A text spells no word that starts with another character, if its first one is no capital. -/
theorem map_toLower_ne {c : Char} (hc : c.toLower = c) (cs : List Char) {word : String}
    (hword : word.toList.head? ≠ some c) : String.ofList ((c :: cs).map Char.toLower) ≠ word := by
  rintro rfl
  exact hword (by simp [hc])

/-- Digits end before anything else. -/
theorem span_digits {digits tail : List Char} (h : ∀ c ∈ digits, c.isDigit = true)
    (htail : ∀ c ∈ tail.head?, c.isDigit = false) :
    (digits ++ tail).span Char.isDigit = (digits, tail) := by
  have hnone : tail.takeWhile Char.isDigit = [] ∧ tail.dropWhile Char.isDigit = tail := by
    cases tail with
    | nil => exact ⟨rfl, rfl⟩
    | cons c cs => simp [htail c rfl]
  rw [List.span_eq_takeWhile_dropWhile, List.takeWhile_append_of_pos h,
    List.dropWhile_append_of_pos h, hnone.1, hnone.2, List.append_nil]

/-- Digits with an optional point and an exponent after them are read as all of the digits. -/
theorem decimal?_append {whole point fraction tail : List Char}
    (hwhole : ∀ c ∈ whole, c.isDigit = true) (hfraction : ∀ c ∈ fraction, c.isDigit = true)
    (hpoint : point = ['.'] ∨ point = [] ∧ fraction = [])
    (htail : ∀ c ∈ tail.head?, c = 'e' ∨ c = 'E') (hne : whole ++ fraction ≠ []) :
    decimal? (whole ++ (point ++ (fraction ++ tail))) = (exponent? tail).map fun e =>
      ⟨Nat.ofDigitChars 10 (whole ++ fraction) 0, e - fraction.length⟩ := by
  have hdigit : ∀ c ∈ tail.head?, c.isDigit = false := by
    intro c hc
    rcases htail c hc with rfl | rfl <;> rfl
  have hsome : (whole.isEmpty && fraction.isEmpty) = false := by
    rw [Bool.eq_false_iff]
    simpa using hne
  unfold decimal?
  rcases hpoint with rfl | ⟨rfl, rfl⟩
  · have hpoint : ∀ c ∈ (['.'] ++ (fraction ++ tail)).head?, c.isDigit = false := by
      rintro c ⟨⟩
      rfl
    have hsplit : splitFraction (['.'] ++ (fraction ++ tail)) = (fraction, tail) :=
      span_digits hfraction hdigit
    rw [span_digits hwhole hpoint]
    simp only [hsplit, hsome, Bool.false_eq_true, if_false]
  · have hsplit : splitFraction tail = ([], tail) := by
      unfold splitFraction
      split
      · exact absurd (htail '.' rfl) (by decide)
      · rfl
    simp only [List.nil_append]
    rw [span_digits hwhole hdigit]
    simp only [hsplit, hsome, Bool.false_eq_true, if_false]

/-- A point, where digits follow it. -/
def pointed (fraction : List Char) : List Char := if fraction = [] then [] else '.' :: fraction

section

variable {whole fraction tail : List Char} (hne : whole ≠ [])
  (hwhole : ∀ c ∈ whole, c.isDigit = true) (hfraction : ∀ c ∈ fraction, c.isDigit = true)
  (htail : ∀ c ∈ tail.head?, c = 'e')

include hne hwhole hfraction htail

theorem decimal?_pointed : decimal? (whole ++ (pointed fraction ++ tail)) =
    (exponent? tail).map fun e =>
      ⟨Nat.ofDigitChars 10 (whole ++ fraction) 0, e - fraction.length⟩ := by
  have hpointed : pointed fraction ++ tail =
      (if fraction = [] then [] else ['.']) ++ (fraction ++ tail) := by
    unfold pointed
    split
    · rename_i hnil
      rw [hnil]
      rfl
    · rfl
  rw [hpointed]
  refine decimal?_append hwhole hfraction ?_ (fun c hc => .inl (htail c hc)) (by simp [hne])
  split
  · rename_i hnil
    exact .inr ⟨rfl, hnil⟩
  · exact .inl rfl

/-- A literal is read as all of its digits, with its sign. -/
theorem ofString?_pointed {text : String} {negative : Bool}
    (htext : text.toList =
      (if negative then ['-'] else []) ++ (whole ++ (pointed fraction ++ tail))) :
    ofString? text = (exponent? tail).map fun e => .decimal negative
      ⟨Nat.ofDigitChars 10 (whole ++ fraction) 0, e - fraction.length⟩ := by
  have hdecimal := decimal?_pointed hne hwhole hfraction htail
  obtain ⟨c, cs, rfl⟩ := List.exists_cons_of_ne_nil hne
  have hc := hwhole c List.mem_cons_self
  have hsign : splitSign text.toList = (negative, c :: cs ++ (pointed fraction ++ tail)) := by
    rw [htext]
    cases negative with
    | true => rfl
    | false => exact splitSign_of_isDigit hc _
  have hword : ∀ word : String, word.toList.head?.any Char.isDigit = false →
      String.ofList ((c :: cs ++ (pointed fraction ++ tail)).map Char.toLower) ≠ word := by
    intro word hhead
    refine map_toLower_ne (toLower_of_isDigit hc) _ fun h => ?_
    rw [h, Option.any_some, hc] at hhead
    cases hhead
  unfold ofString?
  rw [hsign]
  simp only [hword "nan" (by decide), hword "inf" (by decide), hword "infinity" (by decide),
    hdecimal, decide_false, Bool.or_false, Bool.false_eq_true, if_false, Option.map_map]
  rfl

end

/-- The exponent as it is written reads as itself. -/
theorem exponent?_mark (k : Int) :
    exponent? ('e' :: (if k < 0 then '-' else '+') :: Nat.toDigits 10 k.natAbs) = some k := by
  have hdigits : (Nat.toDigits 10 k.natAbs).all Char.isDigit = true := by
    rw [List.all_eq_true]
    intro c hc
    exact Nat.isDigit_of_mem_toDigits (by decide) (by decide) hc
  have hvalue : Nat.ofDigitChars 10 (Nat.toDigits 10 k.natAbs) 0 = k.natAbs :=
    Nat.ofDigitChars_ten_toDigits
  generalize hn : k.natAbs = n at hdigits hvalue ⊢
  unfold exponent?
  by_cases hk : k < 0
  · have hvalue' : -(n : Int) = k := by omega
    simp [hk, splitSign, hdigits, hvalue, Nat.toDigits_ne_nil, hvalue']
  · have hvalue' : (n : Int) = k := by omega
    simp [hk, splitSign, hdigits, hvalue, Nat.toDigits_ne_nil, hvalue']

end Literal

end LineCalc
