/-
Positional numerals are exact. Each digit loop is read one step at a time: a step takes the value
apart into a digit and a rest, both on the grid, so that no step rounds; a whole loop then gives
the digits of the value it started from. The main statement says that the numeral of a number in
base two or sixteen is canonical and that its text, read back positionally, is the number.
-/
import LineCalc.Numeral
import LineCalc.Proofs.Binary64.Exact
import Mathlib.Data.Nat.Digits.Lemmas

namespace LineCalc.Numeral

/-! ## The value of a text -/

/-- The digits of the bases up to sixteen, in order. -/
def digitChars : List Char := "0123456789abcdef".toList

/-- What a digit stands for. -/
def digitValue (c : Char) : ℕ := digitChars.idxOf c

/-- The value of the digits before the point, the last of which counts ones. -/
def wholeValue (base : ℕ) (cs : List Char) : ℕ :=
  Nat.ofDigits base (cs.reverse.map digitValue)

/-- The value of the digits after the point. -/
def fractionValue (base : ℕ) (cs : List Char) : ℚ :=
  Nat.ofDigits (base : ℚ)⁻¹ (cs.map digitValue) / base

/-- The value of a text without a sign, divided by its point if it has one. -/
def unsignedValue (base : ℕ) (cs : List Char) : ℚ :=
  wholeValue base (cs.takeWhile (· ≠ '.')) +
    fractionValue base ((cs.dropWhile (· ≠ '.')).drop 1)

/-- The number that a text denotes in positional notation. -/
def textValue (base : ℕ) : List Char → ℚ
  | '-' :: cs => -unsignedValue base cs
  | cs => unsignedValue base cs

/-- The shape of a canonical numeral of `v`, by its digits before and after the point. -/
structure IsExpansion (base : ℕ) (v : ℚ) (whole fraction : List Char) : Prop where
  /-- Every digit is one of the base, in lower case. -/
  isDigit : ∀ c ∈ whole ++ fraction, c ∈ digitChars.take base
  /-- There is a digit before the point. -/
  whole_ne_nil : whole ≠ []
  /-- No zero leads, unless it is the only digit before the point. -/
  leading : whole.head? = some '0' → whole = ['0']
  /-- That digit is written for the numbers below one. -/
  whole_zero : whole = ['0'] ↔ |v| < 1
  /-- Integers have no digit after the point, and all others have one. -/
  fraction_nil : fraction = [] ↔ ∃ n : ℤ, v = n
  /-- No zero trails after the point. -/
  trailing : fraction.getLast? ≠ some '0'

/-- A text made of a sign, digits and, before digits that need it, a point. -/
def spell (negative : Bool) (whole fraction : List Char) : List Char :=
  (if negative then ['-'] else []) ++ whole ++ if fraction = [] then [] else '.' :: fraction

/-! ## Digits of natural numbers -/

theorem digitChar_mem {base d : ℕ} (hbase : base ≤ 16) (hd : d < base) :
    d.digitChar ∈ digitChars.take base := by
  have hall : ∀ b < 17, ∀ d < b, d.digitChar ∈ digitChars.take b := by decide
  exact hall base (by omega) d hd

theorem digitValue_digitChar {d : ℕ} (hd : d < 16) : digitValue d.digitChar = d := by
  have hall : ∀ d < 16, digitValue d.digitChar = d := by decide
  exact hall d hd

theorem digitChar_eq_zero_iff {d : ℕ} (hd : d < 16) : d.digitChar = '0' ↔ d = 0 := by
  constructor
  · intro h
    rw [← digitValue_digitChar hd, h]
    rfl
  · rintro rfl
    rfl

theorem ne_of_mem_digitChars {base : ℕ} {c : Char} (hc : c ∈ digitChars.take base) :
    c ≠ '.' ∧ c ≠ '-' := by
  have hall : digitChars.all (fun c => c ≠ '.' ∧ c ≠ '-') = true := by decide
  simpa using List.all_eq_true.1 hall c (List.mem_of_mem_take hc)

section ToDigits

variable {base : ℕ} (hone : 1 < base) (hbase : base ≤ 16)

include hone hbase

theorem toDigits_isDigit (n : ℕ) : ∀ c ∈ Nat.toDigits base n, c ∈ digitChars.take base := by
  induction n using Nat.strong_induction_on with
  | _ n ih =>
    intro c hc
    by_cases hn : n < base
    · rw [Nat.toDigits_of_lt_base hn, List.mem_singleton] at hc
      subst hc
      exact digitChar_mem hbase hn
    · rw [Nat.toDigits_of_base_le hone (by omega), List.mem_append, List.mem_singleton] at hc
      rcases hc with hc | rfl
      · exact ih (n / base) (Nat.div_lt_self (by omega) hone) c hc
      · exact digitChar_mem hbase (Nat.mod_lt _ (by omega))

theorem wholeValue_toDigits (n : ℕ) : wholeValue base (Nat.toDigits base n) = n := by
  induction n using Nat.strong_induction_on with
  | _ n ih =>
    by_cases hn : n < base
    · simp [wholeValue, Nat.toDigits_of_lt_base hn, digitValue_digitChar (hn.trans_le hbase)]
    · have hmod : n % base < base := Nat.mod_lt _ (by omega)
      have hrest := ih (n / base) (Nat.div_lt_self (by omega) hone)
      unfold wholeValue at hrest ⊢
      rw [Nat.toDigits_of_base_le hone (by omega), List.reverse_concat, List.map_cons,
        Nat.ofDigits_cons, digitValue_digitChar (hmod.trans_le hbase), hrest]
      exact Nat.mod_add_div n base

theorem toDigits_head?_eq_zero_iff (n : ℕ) : (Nat.toDigits base n).head? = some '0' ↔ n = 0 := by
  induction n using Nat.strong_induction_on with
  | _ n ih =>
    by_cases hn : n < base
    · simp [Nat.toDigits_of_lt_base hn, digitChar_eq_zero_iff (hn.trans_le hbase)]
    · have hquot : n / base ≠ 0 := by
        have := Nat.div_pos (Nat.le_of_not_lt hn) (by omega)
        omega
      rw [Nat.toDigits_of_base_le hone (by omega),
        List.head?_append_of_ne_nil _ Nat.toDigits_ne_nil,
        ih (n / base) (Nat.div_lt_self (by omega) hone)]
      omega

end ToDigits

/-! ## The digit loops -/

theorem integerDigits_succ (radix : Binary64) (room : ℕ) (int : Binary64) :
    integerDigits radix (room + 1) int =
      (integerStep radix int).1.toNat ::
        if (integerStep radix int).2.isZero then []
        else integerDigits radix room (integerStep radix int).2 := rfl

theorem fractionDigits_succ (radix : Binary64) (room : ℕ) (frac : Binary64) :
    fractionDigits radix (room + 1) frac =
      if frac.isPositive then
        (fractionStep radix frac).1.toNat ::
          fractionDigits radix room (fractionStep radix frac).2
      else [] := rfl

/-- What the digits of a fraction have to be. -/
structure IsFraction (base : ℕ) (r : ℚ) (digits : List ℕ) : Prop where
  lt : ∀ d ∈ digits, d < base
  value : Nat.ofDigits (base : ℚ)⁻¹ digits / base = r
  nil_iff : digits = [] ↔ r = 0
  last : digits.getLast? ≠ some 0

theorem isFraction_nil_iff {base : ℕ} {r : ℚ} : IsFraction base r [] ↔ r = 0 := by
  constructor
  · intro h
    exact h.nil_iff.1 rfl
  · rintro rfl
    exact ⟨by simp, by simp [Nat.ofDigits], by simp, by simp⟩

/-- A digit in front of a fraction: the rest moves one place down. -/
theorem IsFraction.cons {base : ℕ} {r : ℚ} {digits : List ℕ} (h : IsFraction base r digits)
    {d : ℕ} (hd : d < base) (hpos : 0 < d + r) :
    IsFraction base ((d + r) / base) (d :: digits) := by
  have hbase : (base : ℚ) ≠ 0 := Nat.cast_ne_zero.2 (by omega)
  refine ⟨?_, ?_, ?_, ?_⟩
  · rintro e he
    rcases List.mem_cons.1 he with rfl | he
    · exact hd
    · exact h.lt e he
  · show ((d : ℚ) + (base : ℚ)⁻¹ * Nat.ofDigits (base : ℚ)⁻¹ digits) / base = _
    rw [inv_mul_eq_div, h.value]
  · simp [hbase, hpos.ne']
  · by_cases hnil : digits = []
    · -- a last digit is all that there is to write
      obtain rfl : r = 0 := h.nil_iff.1 hnil
      rw [hnil, List.getLast?_singleton, ne_eq, Option.some.injEq]
      rintro rfl
      simp at hpos
    · rw [List.getLast?_cons_of_ne_nil hnil]
      exact h.last

section Loops

variable {t : ℕ} (ht : t ≤ 4)

include ht

theorem two_pow_le_sixteen : 2 ^ t ≤ 16 := Nat.pow_le_pow_right (by decide) ht

theorem toRat?_radix : (Binary64.ofNat (2 ^ t)).toRat? = some ((2 ^ t : ℕ) : ℚ) := by
  have := two_pow_le_sixteen ht
  exact Binary64.toRat?_ofNat (by omega)

omit ht in
theorem natCast_sub_mod (k b : ℕ) : (k : ℚ) - (k % b : ℕ) = (b * (k / b) : ℕ) := by
  rw [sub_eq_iff_eq_add]
  exact_mod_cast (Nat.div_add_mod k b).symm

omit ht in
theorem natCast_sub_mul_floor (k b : ℕ) : (k : ℚ) - b * ⌊(k : ℚ) / b⌋ = (k % b : ℕ) := by
  rw [Rat.floor_natCast_div_natCast, ← Int.natCast_ediv, Int.cast_natCast, ← Nat.cast_mul,
    ← natCast_sub_mod, sub_sub_cancel]

section IntegerStep

variable {x : Binary64} {k : ℕ} (hx : x.toRat? = some (k : ℚ))

include hx

theorem toRat?_lastDigit : (x % .ofNat (2 ^ t)).toRat? = some ((k % 2 ^ t : ℕ) : ℚ) := by
  have hbase : (0 : ℚ) < (2 ^ t : ℕ) := by exact_mod_cast Nat.two_pow_pos t
  have hlt := Nat.mod_lt k (Nat.two_pow_pos t)
  have hsixteen := two_pow_le_sixteen ht
  rw [← natCast_sub_mul_floor]
  apply Binary64.toRat?_rem hx (toRat?_radix ht) (Nat.cast_nonneg k) hbase
  rw [natCast_sub_mul_floor]
  exact onGrid_natCast (by omega)

/-- Without its last digit an integer is a multiple of the base. -/
theorem toRat?_sub_lastDigit :
    (x - x % .ofNat (2 ^ t)).toRat? = some ((2 ^ t * (k / 2 ^ t) : ℕ) : ℚ) := by
  have hk : OnGrid (k : ℚ) := Binary64.onGrid_of_nonneg hx (Nat.cast_nonneg k)
  rw [← natCast_sub_mod]
  apply Binary64.toRat?_sub hx (toRat?_lastDigit ht hx)
  rw [natCast_sub_mod, Nat.abs_cast]
  exact hk.mul_div_two_pow (by omega)

/-- Dividing a multiple of the base only moves it down. -/
theorem toRat?_dropDigit :
    ((x - x % .ofNat (2 ^ t)) / .ofNat (2 ^ t)).toRat? = some ((k / 2 ^ t : ℕ) : ℚ) := by
  have hk : OnGrid (k : ℚ) := Binary64.onGrid_of_nonneg hx (Nat.cast_nonneg k)
  have hbase : ((2 ^ t : ℕ) : ℚ) ≠ 0 := by exact_mod_cast (Nat.two_pow_pos t).ne'
  have hquot : ((2 ^ t * (k / 2 ^ t) : ℕ) : ℚ) / (2 ^ t : ℕ) = (k / 2 ^ t : ℕ) := by
    rw [Nat.cast_mul, mul_div_cancel_left₀ _ hbase]
  rw [← hquot]
  apply Binary64.toRat?_div (toRat?_sub_lastDigit ht hx) (toRat?_radix ht) hbase
  rw [hquot, Nat.abs_cast]
  exact hk.div_two_pow t

/-- A step splits an integer into its last digit and the integer without it. -/
theorem integerStep_eq :
    (integerStep (.ofNat (2 ^ t)) x).1.toRat? = some ((k % 2 ^ t : ℕ) : ℚ) ∧
      (integerStep (.ofNat (2 ^ t)) x).2.toRat? = some ((k / 2 ^ t : ℕ) : ℚ) :=
  ⟨toRat?_lastDigit ht hx, toRat?_dropDigit ht hx⟩

end IntegerStep

/-- With room for its digits, the loop writes an integer. -/
theorem integerDigits_eq (hpos : 0 < t) {room k : ℕ} {x : Binary64} (hx : x.toRat? = some (k : ℚ))
    (hroom : room ≠ 0) (hk : k < (2 ^ t) ^ room) :
    (∀ d ∈ integerDigits (.ofNat (2 ^ t)) room x, d < 2 ^ t) ∧
      (integerDigits (.ofNat (2 ^ t)) room x).reverse.map Nat.digitChar =
        Nat.toDigits (2 ^ t) k := by
  have hone : 1 < 2 ^ t := Nat.one_lt_two_pow (by omega)
  have hbase : 0 < 2 ^ t := Nat.two_pow_pos t
  -- each step takes one digit off the value and one place off the room
  induction room generalizing x k with
  | zero => exact absurd rfl hroom
  | succ room ih =>
    obtain ⟨hdigit, hrest⟩ := integerStep_eq ht hx
    have htoNat : (integerStep (.ofNat (2 ^ t)) x).1.toNat = k % 2 ^ t := by
      rw [Binary64.toNat_eq hdigit (Nat.cast_nonneg _), Int.floor_natCast, Int.toNat_natCast]
    have hstop : (integerStep (.ofNat (2 ^ t)) x).2.isZero = decide (k / 2 ^ t = 0) := by
      rw [Binary64.isZero_eq hrest]
      simp only [Nat.cast_eq_zero]
    have hlt : k % 2 ^ t < 2 ^ t := Nat.mod_lt k hbase
    rw [integerDigits_succ, htoNat, hstop]
    by_cases hlast : k / 2 ^ t = 0
    · have hsmall : k < 2 ^ t := (Nat.div_eq_zero_iff_lt hbase).1 hlast
      simp [hlast, hsmall, Nat.toDigits_of_lt_base hsmall, Nat.mod_eq_of_lt hsmall]
    · have hquot : k / 2 ^ t < (2 ^ t) ^ room := by
        rw [Nat.div_lt_iff_lt_mul hbase, ← pow_succ]
        exact hk
      have hroom' : room ≠ 0 := by
        rintro rfl
        exact hlast (Nat.lt_one_iff.1 hquot)
      obtain ⟨hall, htext⟩ := ih hrest hroom' hquot
      have hle : 2 ^ t ≤ k := by
        by_contra hsmall
        exact hlast (Nat.div_eq_of_lt (by omega))
      rw [Nat.toDigits_of_base_le hone hle, ← htext]
      simp only [hlast, decide_false, Bool.false_eq_true, if_false, List.reverse_cons,
        List.map_append, List.map_cons, List.map_nil, and_true, List.mem_cons, forall_eq_or_imp]
      exact ⟨hlt, hall⟩

section FractionStep

variable {r : ℚ} (hr : 0 ≤ r) (hr' : r < 1)

include hr hr'

theorem toRat?_scaled {x : Binary64} (hx : x.toRat? = some r) :
    (x * .ofNat (2 ^ t)).toRat? = some (r * (2 ^ t : ℕ)) := by
  apply Binary64.toRat?_mul hx (toRat?_radix ht)
  rw [abs_of_nonneg (mul_nonneg hr (Nat.cast_nonneg _))]
  exact (Binary64.onGrid_of_nonneg hx hr).mul_two_pow hr' (by omega)

/-- A step splits a fraction into its first digit and the fraction that the others make. -/
theorem fractionStep_eq {x : Binary64} (hx : x.toRat? = some r) :
    (fractionStep (.ofNat (2 ^ t)) x).1.toRat? = some (⌊r * (2 ^ t : ℕ)⌋ : ℚ) ∧
      (fractionStep (.ofNat (2 ^ t)) x).2.toRat? =
        some (r * (2 ^ t : ℕ) - ⌊r * (2 ^ t : ℕ)⌋) := by
  have hscaled : 0 ≤ r * (2 ^ t : ℕ) := mul_nonneg hr (Nat.cast_nonneg _)
  have hmul := toRat?_scaled ht hr hr' hx
  have hdigit := Binary64.toRat?_trunc hmul hscaled
  refine ⟨hdigit, Binary64.toRat?_sub hmul hdigit ?_⟩
  rw [abs_of_nonneg (sub_nonneg.2 (Int.floor_le _))]
  exact (Binary64.onGrid_of_nonneg hmul hscaled).fract

omit ht in
/-- What stands before the point of a scaled fraction is a digit. -/
theorem exists_digit : ∃ d : ℕ, d < 2 ^ t ∧ ⌊r * (2 ^ t : ℕ)⌋ = d := by
  have hbase : (0 : ℚ) < (2 ^ t : ℕ) := by exact_mod_cast Nat.two_pow_pos t
  obtain ⟨d, hd⟩ := Int.eq_ofNat_of_zero_le (Int.floor_nonneg.2 (mul_nonneg hr hbase.le))
  refine ⟨d, ?_, hd⟩
  have hlt : r * (2 ^ t : ℕ) < (2 ^ t : ℕ) := by
    calc r * (2 ^ t : ℕ) < 1 * (2 ^ t : ℕ) := mul_lt_mul_of_pos_right hr' hbase
      _ = (2 ^ t : ℕ) := one_mul _
  have := (Int.floor_le (r * (2 ^ t : ℕ))).trans_lt hlt
  rw [hd] at this
  exact_mod_cast this

end FractionStep

omit ht in
/-- A fraction that ends at a place leaves one that ends a place earlier. -/
theorem exists_mul_rest {room : ℕ} {r : ℚ} (h : ∃ n : ℤ, r * ((2 ^ t) ^ (room + 1) : ℕ) = n) :
    ∃ n : ℤ, (r * (2 ^ t : ℕ) - ⌊r * (2 ^ t : ℕ)⌋) * ((2 ^ t) ^ room : ℕ) = n := by
  obtain ⟨n, hn⟩ := h
  refine ⟨n - ⌊r * (2 ^ t : ℕ)⌋ * ((2 ^ t) ^ room : ℕ), ?_⟩
  push_cast at hn ⊢
  rw [← hn]
  ring

omit ht in
/-- A fraction that has no place at all is zero. -/
theorem eq_zero_of_mul_room {r : ℚ} (hr : 0 ≤ r) (hr' : r < 1)
    (h : ∃ n : ℤ, r * ((2 ^ t) ^ 0 : ℕ) = n) : r = 0 := by
  obtain ⟨n, hn⟩ := h
  obtain rfl : r = n := by simpa using hn
  have h0 : 0 ≤ n := by exact_mod_cast hr
  have h1 : n < 1 := by exact_mod_cast hr'
  obtain rfl : n = 0 := by omega
  exact Int.cast_zero

/-- With room for its digits, the loop writes a fraction. What is left to write stays a multiple of
the last place that there is room for. -/
theorem fractionDigits_isFraction {room : ℕ} {x : Binary64} {r : ℚ} (hx : x.toRat? = some r)
    (hr : 0 ≤ r) (hr' : r < 1) (hroom : ∃ n : ℤ, r * ((2 ^ t) ^ room : ℕ) = n) :
    IsFraction (2 ^ t) r (fractionDigits (.ofNat (2 ^ t)) room x) := by
  have hbase : (0 : ℚ) < (2 ^ t : ℕ) := by exact_mod_cast Nat.two_pow_pos t
  induction room generalizing x r with
  | zero => exact isFraction_nil_iff.2 (eq_zero_of_mul_room hr hr' hroom)
  | succ room ih =>
    rw [fractionDigits_succ, Binary64.isPositive_eq hx]
    by_cases hpos : 0 < r
    · obtain ⟨hdigit, hrest⟩ := fractionStep_eq ht hr hr' hx
      have hmul := exists_mul_rest hroom
      have hrest0 := sub_nonneg.2 (Int.floor_le (r * (2 ^ t : ℕ)))
      have hrest1 := sub_lt_iff_lt_add'.2 (Int.lt_floor_add_one (r * (2 ^ t : ℕ)))
      obtain ⟨d, hdlt, hd⟩ := exists_digit (t := t) hr hr'
      rw [hd, Int.cast_natCast] at hdigit hrest hmul hrest0 hrest1
      have htoNat : (fractionStep (.ofNat (2 ^ t)) x).1.toNat = d := by
        rw [Binary64.toNat_eq hdigit (Nat.cast_nonneg d), Int.floor_natCast, Int.toNat_natCast]
      -- the digit and the rest make up the scaled fraction
      have hsum : (d + (r * (2 ^ t : ℕ) - d)) / (2 ^ t : ℕ) = r := by
        rw [add_sub_cancel, mul_div_cancel_right₀ _ hbase.ne']
      have hcons := (ih hrest hrest0 hrest1 hmul).cons hdlt
        (by rw [add_sub_cancel]; exact mul_pos hpos hbase)
      rw [hsum] at hcons
      simp only [hpos, decide_true, if_true, htoNat]
      exact hcons
    · obtain rfl : r = 0 := le_antisymm (not_lt.1 hpos) hr
      simp [isFraction_nil_iff]

/-! ## The room is enough -/

omit ht in
theorem lt_room {k : ℕ} (h : OnGrid (k : ℚ)) (hpos : 0 < t) : k < (2 ^ t) ^ maxDigits := by
  obtain ⟨n, e, hn, he, rfl⟩ := (onGrid_natCast_iff k).1 h
  calc n * 2 ^ e < 2 ^ 53 * 2 ^ e := Nat.mul_lt_mul_of_pos_right hn (Nat.two_pow_pos e)
    _ = 2 ^ (53 + e) := (pow_add 2 53 e).symm
    _ ≤ 2 ^ (t * maxDigits) := Nat.pow_le_pow_right (by decide) (by unfold maxDigits; omega)
    _ = (2 ^ t) ^ maxDigits := pow_mul 2 t maxDigits

omit ht in
/-- A fraction has at most 1074 binary places. -/
theorem exists_mul_room {r : ℚ} (h : OnGrid r) {room : ℕ} (hroom : 1074 ≤ t * room) :
    ∃ n : ℤ, r * ((2 ^ t) ^ room : ℕ) = n := by
  rcases h.natCast_or_div with ⟨k, rfl⟩ | ⟨n, j, -, hj, rfl⟩
  · exact ⟨k * ((2 ^ t) ^ room : ℕ), by push_cast; rfl⟩
  · have hsplit : (2 ^ t) ^ room = 2 ^ j * 2 ^ (t * room - j) := by
      rw [← pow_mul, ← pow_add, Nat.add_sub_cancel' (hj.trans hroom)]
    refine ⟨n * (2 ^ (t * room - j) : ℕ), ?_⟩
    rw [hsplit, Nat.cast_mul, ← mul_assoc, div_mul_cancel₀ _ (by positivity)]
    push_cast
    rfl

/-! ## Texts -/

omit ht in
theorem filterMap_digitChar? {base : ℕ} {digits : List ℕ} (h : ∀ d ∈ digits, d < base) :
    digits.filterMap (digitChar? base) = digits.map Nat.digitChar := by
  rw [← List.filterMap_eq_map]
  apply List.filterMap_congr
  intro d hd
  simp [digitChar?, h d hd]

omit ht in
theorem natCast_floor_abs (v : ℚ) : ((⌊|v|⌋.toNat : ℕ) : ℚ) = ⌊|v|⌋ := by
  rw [Int.floor_toNat, natCast_floor_eq_intCast_floor (abs_nonneg v)]

omit ht in
/-- The fraction that the integer part of a number leaves. -/
theorem toRat?_abs_sub_trunc {x : Binary64} {v : ℚ} (hx : x.toRat? = some v) :
    (x.abs - x.abs.trunc).toRat? = some (|v| - ⌊|v|⌋) := by
  have habs := Binary64.toRat?_abs hx
  apply Binary64.toRat?_sub habs (Binary64.toRat?_trunc habs (abs_nonneg v))
  rw [abs_of_nonneg (sub_nonneg.2 (Int.floor_le _))]
  exact (Binary64.onGrid_abs hx).fract

/-- The text of a number: the digits of its integer part and those of the fraction it leaves. -/
theorem positional_eq_spell (hpos : 0 < t) {x : Binary64} {v : ℚ} (hx : x.toRat? = some v)
    (hv : v ≠ 0) :
    ∃ digits, IsFraction (2 ^ t) (|v| - ⌊|v|⌋) digits ∧
      positional (2 ^ t) x =
        spell (decide (v < 0)) (Nat.toDigits (2 ^ t) ⌊|v|⌋.toNat) (digits.map Nat.digitChar) := by
  have habs := Binary64.toRat?_abs hx
  have hgrid : OnGrid |v| := Binary64.onGrid_abs hx
  have hint := Binary64.toRat?_trunc habs (abs_nonneg v)
  have hfrac := toRat?_abs_sub_trunc hx
  have hfrac0 : 0 ≤ |v| - ⌊|v|⌋ := sub_nonneg.2 (Int.floor_le _)
  have hgridFloor := hgrid.floor
  rw [← natCast_floor_abs] at hint hgridFloor
  obtain ⟨hlt, htext⟩ := integerDigits_eq ht hpos hint (by decide) (lt_room hgridFloor hpos)
  have hplaces : 1074 ≤ t * maxDigits := by unfold maxDigits; omega
  have hfraction := fractionDigits_isFraction ht hfrac hfrac0
    (by linarith [Int.lt_floor_add_one |v|]) (exists_mul_room hgrid.fract hplaces)
  refine ⟨_, hfraction, ?_⟩
  simp only [positional, spell]
  rw [Binary64.isNegative_eq hx hv, Binary64.isPositive_eq hfrac,
    filterMap_digitChar? (by simpa using hlt), htext, filterMap_digitChar? hfraction.lt]
  have hnil : 0 < |v| - ⌊|v|⌋ ↔ ¬fractionDigits (.ofNat (2 ^ t)) maxDigits
      (x.abs - x.abs.trunc) = [] := by
    rw [hfraction.nil_iff]
    exact ⟨fun h => h.ne', fun h => hfrac0.lt_of_ne' h⟩
  simp only [decide_eq_true_eq, hnil, List.map_eq_nil_iff, ite_not]

theorem isExpansion_of_isFraction (hpos : 0 < t) {v : ℚ} {digits : List ℕ}
    (h : IsFraction (2 ^ t) (|v| - ⌊|v|⌋) digits) :
    IsExpansion (2 ^ t) v (Nat.toDigits (2 ^ t) ⌊|v|⌋.toNat) (digits.map Nat.digitChar) := by
  have hone : 1 < 2 ^ t := Nat.one_lt_two_pow (by omega)
  have hbase := two_pow_le_sixteen ht
  have hhead := toDigits_head?_eq_zero_iff hone hbase ⌊|v|⌋.toNat
  have hdigit : ∀ d ∈ digits, d < 16 := fun d hd => (h.lt d hd).trans_le hbase
  have hzero : ⌊|v|⌋.toNat = 0 ↔ |v| < 1 := by
    rw [Int.toNat_eq_zero, ← Int.lt_add_one_iff, zero_add, Int.floor_lt, Int.cast_one]
  refine ⟨?_, Nat.toDigits_ne_nil, ?_, ?_, ?_, ?_⟩
  · intro c hc
    rcases List.mem_append.1 hc with hc | hc
    · exact toDigits_isDigit hone hbase _ c hc
    · obtain ⟨d, hd, rfl⟩ := List.mem_map.1 hc
      exact digitChar_mem hbase (h.lt d hd)
  · intro hfirst
    rw [hhead.1 hfirst, Nat.toDigits_zero]
  · rw [← hzero]
    constructor
    · intro hwhole
      exact hhead.1 (by rw [hwhole]; rfl)
    · intro hfloor
      rw [hfloor, Nat.toDigits_zero]
  · rw [List.map_eq_nil_iff, h.nil_iff, sub_eq_zero]
    constructor
    · intro hfloor
      rcases abs_choice v with habs | habs
      · exact ⟨⌊|v|⌋, habs.symm.trans hfloor⟩
      · refine ⟨-⌊|v|⌋, ?_⟩
        rw [Int.cast_neg, ← hfloor, habs, neg_neg]
    · rintro ⟨n, rfl⟩
      rw [← Int.cast_abs, Int.floor_intCast]
  · rw [List.getLast?_map, ne_eq, Option.map_eq_some_iff]
    rintro ⟨d, hlast, hd⟩
    have hmem := List.mem_of_getLast? hlast
    rw [digitChar_eq_zero_iff (hdigit d hmem)] at hd
    exact h.last (hd ▸ hlast)

end Loops

/-- A spelled text is read back piece by piece: digits hold neither a point nor a sign. -/
theorem textValue_spell {base : ℕ} {v : ℚ} {whole fraction : List Char}
    (h : IsExpansion base v whole fraction) (negative : Bool) :
    textValue base (spell negative whole fraction) =
      if negative then -(wholeValue base whole + fractionValue base fraction)
      else wholeValue base whole + fractionValue base fraction := by
  have hwhole : ∀ c ∈ whole, c ≠ '.' ∧ c ≠ '-' := fun c hc =>
    ne_of_mem_digitChars (h.isDigit c (List.mem_append_left _ hc))
  have hpoint : ∀ c ∈ whole, (decide (c ≠ '.')) = true := fun c hc => by
    simpa using (hwhole c hc).1
  have hunsigned : unsignedValue base (whole ++ if fraction = [] then [] else '.' :: fraction) =
      wholeValue base whole + fractionValue base fraction := by
    unfold unsignedValue
    rw [List.takeWhile_append_of_pos hpoint, List.dropWhile_append_of_pos hpoint]
    by_cases hnil : fraction = []
    · simp [hnil]
    · simp [hnil]
  cases negative with
  | true =>
    show -unsignedValue base (whole ++ if fraction = [] then [] else '.' :: fraction) = _
    rw [hunsigned]
    rfl
  | false =>
    obtain ⟨c, cs, rfl⟩ := List.exists_cons_of_ne_nil h.whole_ne_nil
    have hc : c ≠ '-' := (hwhole c List.mem_cons_self).2
    have hsign : ∀ ds, textValue base (c :: ds) = unsignedValue base (c :: ds) := by
      intro ds
      unfold textValue
      split
      · rename_i heq
        exact absurd (List.cons.inj heq).1 hc
      · rfl
    show textValue base (c :: (cs ++ if fraction = [] then [] else '.' :: fraction)) = _
    rw [hsign]
    exact hunsigned

theorem fractionValue_map_digitChar {base : ℕ} {r : ℚ} {digits : List ℕ} (hbase : base ≤ 16)
    (h : IsFraction base r digits) : fractionValue base (digits.map Nat.digitChar) = r := by
  have hmap : (digits.map Nat.digitChar).map digitValue = digits := by
    rw [List.map_map]
    calc digits.map (digitValue ∘ Nat.digitChar) = digits.map id :=
          List.map_congr_left fun d hd => digitValue_digitChar ((h.lt d hd).trans_le hbase)
      _ = digits := List.map_id digits
  rw [fractionValue, hmap, h.value]

end LineCalc.Numeral

namespace LineCalc

theorem Base.exists_radix_eq {base : Base} (h : base ≠ .decimal) :
    ∃ t, 0 < t ∧ t ≤ 4 ∧ base.radix = 2 ^ t := by
  cases base with
  | decimal => exact absurd rfl h
  | hexadecimal => exact ⟨4, by decide, by decide, rfl⟩
  | binary => exact ⟨1, by decide, by decide, rfl⟩

theorem Binary64.numeral_eq_positional {x : Binary64} {v : ℚ} (hx : x.toRat? = some v) (hv : v ≠ 0)
    {base : Base} (hbase : base ≠ .decimal) :
    (x.numeral base).toList = Numeral.positional base.radix x := by
  obtain ⟨negative, m, rfl, rfl⟩ := exists_of_toRat? hx
  have hm : m.significand ≠ 0 := by
    rintro hm
    rw [m.toRat_eq_zero_iff.2 hm] at hv
    simp at hv
  cases base with
  | decimal => exact absurd rfl hbase
  | hexadecimal => simp only [numeral, hm, if_false, String.toList_ofList]
  | binary => simp only [numeral, hm, if_false, String.toList_ofList]

/-- Numerals in base two and sixteen are canonical and exact: a sign for the negative numbers, no
zero too many on either side, a point only before the digits of a fraction, and a text whose
positional value is the number itself. -/
theorem Binary64.numeral_positional_exact (x : Binary64) (v : ℚ) (hx : x.toRat? = some v)
    (hv : v ≠ 0) (base : Base) (hbase : base ≠ .decimal) :
    ∃ whole fraction,
      Numeral.IsExpansion base.radix v whole fraction ∧
      (x.numeral base).toList = Numeral.spell (decide (v < 0)) whole fraction ∧
      Numeral.textValue base.radix (x.numeral base).toList = v := by
  obtain ⟨t, hpos, ht, hradix⟩ := Base.exists_radix_eq hbase
  obtain ⟨digits, hfraction, htext⟩ := Numeral.positional_eq_spell ht hpos hx hv
  have hexpansion := Numeral.isExpansion_of_isFraction ht hpos hfraction
  rw [numeral_eq_positional hx hv hbase, hradix, htext]
  refine ⟨_, _, hexpansion, rfl, ?_⟩
  have hsixteen := Numeral.two_pow_le_sixteen ht
  have hvalue : (Numeral.wholeValue (2 ^ t) (Nat.toDigits (2 ^ t) ⌊|v|⌋.toNat) : ℚ) +
      Numeral.fractionValue (2 ^ t) (digits.map Nat.digitChar) = |v| := by
    rw [Numeral.wholeValue_toDigits (Nat.one_lt_two_pow (by omega)) hsixteen,
      Numeral.natCast_floor_abs, Numeral.fractionValue_map_digitChar hsixteen hfraction, add_sub_cancel]
  rw [Numeral.textValue_spell hexpansion, hvalue]
  by_cases hneg : v < 0
  · simp [hneg, abs_of_neg hneg]
  · simp [hneg, abs_of_nonneg (not_lt.1 hneg)]

/-- The negative number next to zero, in hexadecimal. -/
theorem Binary64.numeral_positional_exact_least :
    let x := finite true ⟨1, -1074, by decide, by decide, by decide, .inr rfl⟩
    let v := -(2 : ℚ) ^ (-1074 : ℤ)
    (x.toRat? = some v ∧ v ≠ 0) ∧
      ∃ whole fraction,
        Numeral.IsExpansion 16 v whole fraction ∧
        (x.numeral .hexadecimal).toList = Numeral.spell (decide (v < 0)) whole fraction ∧
        Numeral.textValue 16 (x.numeral .hexadecimal).toList = v := by
  intro x v
  have hx : x.toRat? = some v := by
    rw [toRat?_finite]
    simp [v, Magnitude.toRat]
  have hv : v ≠ 0 := neg_ne_zero.2 (zpow_ne_zero _ (by decide))
  exact ⟨⟨hx, hv⟩, numeral_positional_exact x v hx hv .hexadecimal (by decide)⟩

end LineCalc
