/-
Numerals of integers. Up to `2 ^ 53` a number that is an integer is printed, in every base, as a
sign and its digits: the shortest decimal may leave zeros out, and the layout puts them back.
-/
import LineCalc.Proofs.Decimal.Integer
import LineCalc.Proofs.Numeral.Positional
import Mathlib.Data.List.TakeWhile

namespace LineCalc

/-- The numeral of an integer: a sign before the negative ones, then its digits. -/
def integerNumeral (base : Base) (n : ℤ) : String :=
  String.ofList ((if n < 0 then ['-'] else []) ++ Nat.toDigits base.radix n.natAbs)

namespace Numeral

/-! ## Decimal layout -/

theorem toDigits_mul_pow {q : ℕ} (hq : 0 < q) (k : ℕ) :
    Nat.toDigits 10 (q * 10 ^ k) = Nat.toDigits 10 q ++ List.replicate k '0' := by
  induction k with
  | zero => simp
  | succ k ih =>
    have happend := Nat.toDigits_append_toDigits (b := 10) (n := q * 10 ^ k) (d := 0) (by norm_num)
      (by positivity) (by norm_num)
    rw [Nat.toDigits_zero] at happend
    rw [List.replicate_succ', ← List.append_assoc, ← ih, happend]
    congr 1
    ring

/-- Digits that lost the zeros at their end get them back. -/
theorem append_replicate_zero (cs : List Char) :
    (cs.reverse.dropWhile (· = '0')).reverse ++
      List.replicate (cs.length - (cs.reverse.dropWhile (· = '0')).reverse.length) '0' = cs := by
  rw [List.length_reverse]
  have hsplit : cs.reverse.takeWhile (· = '0') ++ cs.reverse.dropWhile (· = '0') = cs.reverse :=
    List.takeWhile_append_dropWhile
  have hlength := congrArg List.length hsplit
  rw [List.length_append, List.length_reverse] at hlength
  have hzeros : cs.reverse.takeWhile (· = '0') =
      List.replicate (cs.length - (cs.reverse.dropWhile (· = '0')).length) '0' := by
    rw [List.eq_replicate_iff]
    refine ⟨by omega, fun c hc => ?_⟩
    simpa using List.mem_takeWhile_imp hc
  have hreverse := congrArg List.reverse hsplit
  rwa [List.reverse_append, List.reverse_reverse, hzeros, List.reverse_replicate] at hreverse

/-- A decimal that is an integer below `10 ^ 21` is laid out as its digits. -/
theorem decimalText_natCast {q k : ℕ} (hq : 0 < q) (hlt : q * 10 ^ k < 10 ^ 21) :
    decimalText ⟨q, k⟩ = Nat.toDigits 10 (q * 10 ^ k) := by
  have hlength : (Nat.toDigits 10 q).length + k ≤ 21 := by
    have := (Nat.length_toDigits_le_iff (b := 10) (by norm_num) (by norm_num)).2 hlt
    rwa [toDigits_mul_pow hq, List.length_append, List.length_replicate] at this
  have hpos : 0 < (Nat.toDigits 10 q).length := Nat.length_toDigits_pos
  have hexponent : leadingExponent ⟨q, k⟩ = ((Nat.toDigits 10 q).length - 1 + k : ℕ) := by
    simp [leadingExponent, add_comm]
  have hplain : isPlain (leadingExponent ⟨q, k⟩) = true := by
    rw [hexponent, isPlain, Bool.and_eq_true, decide_eq_true_eq, decide_eq_true_eq]
    omega
  have hle : (significantDigits ⟨q, k⟩).length ≤ (Nat.toDigits 10 q).length := by
    have := (List.dropWhile_sublist (· = '0') (l := (Nat.toDigits 10 q).reverse)).length_le
    simpa [significantDigits] using this
  have hpad : (significantDigits ⟨q, k⟩).length ≤ (Nat.toDigits 10 q).length - 1 + k + 1 := by omega
  have hzeros : (Nat.toDigits 10 q).length - 1 + k + 1 - (significantDigits ⟨q, k⟩).length =
      (Nat.toDigits 10 q).length - (significantDigits ⟨q, k⟩).length + k := by omega
  have hback : significantDigits ⟨q, k⟩ ++
      List.replicate ((Nat.toDigits 10 q).length - (significantDigits ⟨q, k⟩).length) '0' =
        Nat.toDigits 10 q := append_replicate_zero (Nat.toDigits 10 q)
  simp only [decimalText, hplain, if_true]
  rw [hexponent, plain, if_neg (by omega), Int.toNat_natCast, if_pos hpad, hzeros,
    List.replicate_add, ← List.append_assoc, hback, toDigits_mul_pow hq]

end Numeral

/-! ## Numerals -/

theorem abs_intCast (n : ℤ) : |(n : ℚ)| = (n.natAbs : ℚ) := by
  rw [Nat.cast_natAbs, Int.cast_abs]

namespace Binary64

theorem numeral_zero {x : Binary64} (hx : x.toRat? = some 0) (base : Base) :
    x.numeral base = "0" := by
  obtain ⟨negative, m, rfl, hm⟩ := exists_of_toRat? hx
  have hsignificand : m.significand = 0 := by
    rw [← m.toRat_eq_zero_iff]
    cases negative <;> simpa using hm.symm
  simp only [numeral, hsignificand, if_true]

theorem numeral_decimal {x : Binary64} {n : ℤ} (hx : x.toRat? = some (n : ℚ)) (hzero : n ≠ 0)
    (hn : |n| ≤ 2 ^ 53) : x.numeral .decimal = integerNumeral .decimal n := by
  rw [Int.abs_eq_natAbs] at hn
  obtain ⟨negative, m, rfl, hm⟩ := exists_of_toRat? hx
  have hvalue : m.toRat = n.natAbs := by
    rw [← abs_intCast, hm, abs_ite_neg negative m.toRat_nonneg]
  have hpos : 0 < n.natAbs := Int.natAbs_pos.2 hzero
  have hsignificand : m.significand ≠ 0 := by
    rw [ne_eq, ← m.toRat_eq_zero_iff, hvalue, Nat.cast_eq_zero]
    omega
  have hsign : negative = decide (n < 0) := by
    have := isNegative_eq hx (Int.cast_ne_zero.2 hzero)
    simpa [isNegative] using this
  obtain ⟨q, k, hshortest, hqk⟩ := Decimal.shortest_eq hvalue (by omega) hpos
  have hq : 0 < q := Nat.pos_of_mul_pos_right (hqk ▸ hpos)
  simp only [numeral, hsignificand, if_false, hshortest]
  rw [Numeral.decimalText_natCast hq (by omega), hqk, integerNumeral, hsign]
  by_cases hneg : n < 0
  · simp [hneg, Base.radix]
  · simp [hneg, Base.radix]

theorem numeral_powerOfTwo {x : Binary64} {n : ℤ} (hx : x.toRat? = some (n : ℚ)) (hzero : n ≠ 0)
    {base : Base} (hbase : base ≠ .decimal) : x.numeral base = integerNumeral base n := by
  have hzeroQ : (n : ℚ) ≠ 0 := Int.cast_ne_zero.2 hzero
  obtain ⟨t, hpos, ht, hradix⟩ := Base.exists_radix_eq hbase
  obtain ⟨digits, hfraction, htext⟩ := Numeral.positional_eq_spell ht hpos hx hzeroQ
  have hfloor : ⌊|(n : ℚ)|⌋ = n.natAbs := by rw [abs_intCast, Int.floor_natCast]
  -- an integer leaves no fraction
  have hnil : digits = [] := by
    rw [hfraction.nil_iff, hfloor, abs_intCast, Int.cast_natCast, sub_self]
  apply String.toList_injective
  rw [numeral_eq_positional hx hzeroQ hbase, hradix, htext, hfloor, Int.toNat_natCast, hnil]
  by_cases hneg : n < 0
  · simp [integerNumeral, Numeral.spell, hneg, hradix]
  · simp [integerNumeral, Numeral.spell, hneg, hradix]

/-- A number that is an integer up to `2 ^ 53` is printed as that integer. -/
theorem numeral_intCast {x : Binary64} {n : ℤ} (hx : x.toRat? = some (n : ℚ)) (hn : |n| ≤ 2 ^ 53)
    (base : Base) : x.numeral base = integerNumeral base n := by
  by_cases hzero : n = 0
  · subst hzero
    rw [numeral_zero (by simpa using hx)]
    simp [integerNumeral, Nat.toDigits_zero]
  · by_cases hbase : base = .decimal
    · subst hbase
      exact numeral_decimal hx hzero hn
    · exact numeral_powerOfTwo hx hzero hbase

end Binary64

end LineCalc
