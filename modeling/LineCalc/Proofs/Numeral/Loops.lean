/-
The digit loops, round by round. In a round of either loop every operation gives the value that it
has on rationals, so nothing is rounded, and what is taken off is a digit of the base. Both loops
end of themselves. That of a fraction does so within its places, of which there are at most 1074 in
base two and 269 in base sixteen; so neither loop uses up the room that it is given.
-/
import LineCalc.Proofs.Numeral.Positional

namespace LineCalc.Numeral

/-! ## Rounds -/

/-- A number that is a digit of the base: an integer below it, for which there is a character. -/
structure IsDigit (base : ℕ) (x : Binary64) : Prop where
  toRat?_eq : x.toRat? = some (x.toNat : ℚ)
  lt : x.toNat < base
  char : (digitChar? base x.toNat).isSome = true

/-- What a division leaves whose quotient is cut down to an integer. -/
def remainder (a b : ℚ) : ℚ := a - b * ⌊a / b⌋

/-- A round of the integer loop that starts with the value `a` and computes as on rationals. -/
structure IntegerRound (base : ℕ) (int : Binary64) (a : ℚ) : Prop where
  int_eq : int.toRat? = some a
  digit_eq : (int % .ofNat base).toRat? = some (remainder a base)
  difference_eq : (int - int % .ofNat base).toRat? = some (a - remainder a base)
  quotient_eq :
    ((int - int % .ofNat base) / .ofNat base).toRat? = some ((a - remainder a base) / base)
  isDigit : IsDigit base (int % .ofNat base)

/-- A round of the fraction loop that starts with the value `r` and computes as on rationals. -/
structure FractionRound (base : ℕ) (frac : Binary64) (r : ℚ) : Prop where
  frac_eq : frac.toRat? = some r
  nonneg : 0 ≤ r
  lt_one : r < 1
  scaled_eq : (frac * .ofNat base).toRat? = some (r * base)
  digit_eq : (frac * .ofNat base).trunc.toRat? = some (⌊r * base⌋ : ℚ)
  rest_eq : (frac * .ofNat base - (frac * .ofNat base).trunc).toRat? = some (r * base - ⌊r * base⌋)
  isDigit : IsDigit base (frac * .ofNat base).trunc

/-! ## Loops -/

/-- A run of the integer loop, with the integers that its rounds start with. There is a round for
zero too; the loop ends after a round that leaves nothing. -/
inductive IntegerLoop (radix : Binary64) : Binary64 → List Binary64 → Prop where
  | last {int : Binary64} : (integerStep radix int).2.isZero = true → IntegerLoop radix int [int]
  | next {int : Binary64} {ints : List Binary64} : (integerStep radix int).2.isZero = false →
      IntegerLoop radix (integerStep radix int).2 ints → IntegerLoop radix int (int :: ints)

/-- A run of the fraction loop, with the fractions that its rounds start with and the one it ends
with. The loop goes on as long as the fraction is positive. -/
inductive FractionLoop (radix : Binary64) : Binary64 → List Binary64 → Binary64 → Prop where
  | done {frac : Binary64} : frac.isPositive = false → FractionLoop radix frac [] frac
  | next {frac last : Binary64} {fracs : List Binary64} : frac.isPositive = true →
      FractionLoop radix (fractionStep radix frac).2 fracs last →
      FractionLoop radix frac (frac :: fracs) last

/-- With room for its rounds, the integer loop takes their digits. -/
theorem IntegerLoop.integerDigits_eq_map {radix int : Binary64} {ints : List Binary64}
    (h : IntegerLoop radix int ints) {room : ℕ} (hroom : ints.length ≤ room) :
    integerDigits radix room int = ints.map fun int => (int % radix).toNat := by
  induction h generalizing room with
  | last hzero =>
    obtain ⟨room, rfl⟩ := Nat.exists_eq_add_of_le' hroom
    rw [List.length_singleton, integerDigits_succ, hzero]
    rfl
  | next hzero _ ih =>
    obtain ⟨room, rfl⟩ := Nat.exists_eq_add_of_le' (Nat.one_le_of_lt hroom)
    rw [integerDigits_succ, hzero, List.map_cons, ← ih (Nat.le_of_succ_le_succ hroom)]
    rfl

/-- With room for its rounds, the fraction loop takes their digits. -/
theorem FractionLoop.fractionDigits_eq_map {radix frac last : Binary64} {fracs : List Binary64}
    (h : FractionLoop radix frac fracs last) {room : ℕ} (hroom : fracs.length ≤ room) :
    fractionDigits radix room frac = fracs.map fun frac => (frac * radix).trunc.toNat := by
  induction h generalizing room with
  | done hpositive =>
    cases room with
    | zero => rfl
    | succ room =>
      rw [fractionDigits_succ, hpositive]
      rfl
  | next hpositive _ ih =>
    obtain ⟨room, rfl⟩ := Nat.exists_eq_add_of_le' (Nat.one_le_of_lt hroom)
    rw [fractionDigits_succ, hpositive, List.map_cons, ← ih (Nat.le_of_succ_le_succ hroom)]
    rfl

theorem FractionLoop.of_zero {radix x : Binary64} (hx : x.toRat? = some 0) :
    FractionLoop radix x [] x :=
  .done (by simp [Binary64.isPositive_eq hx])

/-! ## No round rounds -/

theorem isDigit_of_toRat? {base d : ℕ} {x : Binary64} (hx : x.toRat? = some (d : ℚ))
    (hd : d < base) : IsDigit base x := by
  have htoNat : x.toNat = d := by
    rw [Binary64.toNat_eq hx (Nat.cast_nonneg d), Int.floor_natCast, Int.toNat_natCast]
  refine ⟨?_, ?_, ?_⟩
  · rw [htoNat, hx]
  · rw [htoNat]
    exact hd
  · simp [digitChar?, htoNat, hd]

section

variable {t : ℕ} (ht : t ≤ 4)

include ht

theorem integerRound_of_toRat? {x : Binary64} {k : ℕ} (hx : x.toRat? = some (k : ℚ)) :
    IntegerRound (2 ^ t) x k := by
  have hbase : ((2 ^ t : ℕ) : ℚ) ≠ 0 := by exact_mod_cast (Nat.two_pow_pos t).ne'
  have hdigit := toRat?_lastDigit ht hx
  have hremainder : remainder k (2 ^ t : ℕ) = (k % 2 ^ t : ℕ) := natCast_sub_mul_floor k (2 ^ t)
  refine ⟨hx, ?_, ?_, ?_, isDigit_of_toRat? hdigit (Nat.mod_lt k (Nat.two_pow_pos t))⟩
  · rw [hremainder, hdigit]
  · rw [hremainder, natCast_sub_mod, toRat?_sub_lastDigit ht hx]
  · rw [hremainder, natCast_sub_mod, Nat.cast_mul, mul_div_cancel_left₀ _ hbase,
      toRat?_dropDigit ht hx]

theorem fractionRound_of_toRat? {x : Binary64} {r : ℚ} (hx : x.toRat? = some r) (hr : 0 ≤ r)
    (hr' : r < 1) : FractionRound (2 ^ t) x r := by
  obtain ⟨hdigit, hrest⟩ := fractionStep_eq ht hr hr' hx
  obtain ⟨d, hlt, hd⟩ := exists_digit (t := t) hr hr'
  refine ⟨hx, hr, hr', toRat?_scaled ht hr hr' hx, hdigit, hrest, ?_⟩
  rw [hd, Int.cast_natCast] at hdigit
  exact isDigit_of_toRat? hdigit hlt

/-! ## Both loops end -/

/-- The integer loop ends after as many rounds as the integer has digits. -/
theorem exists_integerLoop {room k : ℕ} {x : Binary64} (hx : x.toRat? = some (k : ℚ))
    (hroom : room ≠ 0) (hk : k < (2 ^ t) ^ room) :
    ∃ ints, IntegerLoop (.ofNat (2 ^ t)) x ints ∧ ints.length ≤ room ∧
      ∀ int ∈ ints, ∃ a, IntegerRound (2 ^ t) int a := by
  induction room generalizing x k with
  | zero => exact absurd rfl hroom
  | succ room ih =>
    have hround := integerRound_of_toRat? ht hx
    have hrest := (integerStep_eq ht hx).2
    have hzero := Binary64.isZero_eq hrest
    by_cases hlast : k / 2 ^ t = 0
    · refine ⟨[x], .last ?_, by simp, by simpa using ⟨k, hround⟩⟩
      rw [hzero]
      simpa using hlast
    · have hquot : k / 2 ^ t < (2 ^ t) ^ room := by
        rw [Nat.div_lt_iff_lt_mul (Nat.two_pow_pos t), ← pow_succ]
        exact hk
      have hroom' : room ≠ 0 := by
        rintro rfl
        exact hlast (Nat.lt_one_iff.1 hquot)
      obtain ⟨ints, hloop, hlength, hrounds⟩ := ih hrest hroom' hquot
      refine ⟨x :: ints, .next ?_ hloop, by simpa using hlength, ?_⟩
      · rw [hzero]
        simpa using hlast
      · intro int hint
        rcases List.mem_cons.1 hint with rfl | hint
        · exact ⟨k, hround⟩
        · exact hrounds int hint

/-- The fraction loop ends with nothing left, after as many rounds as the fraction has places. -/
theorem exists_fractionLoop {room : ℕ} {x : Binary64} {r : ℚ} (hx : x.toRat? = some r)
    (hr : 0 ≤ r) (hr' : r < 1) (hroom : ∃ n : ℤ, r * ((2 ^ t) ^ room : ℕ) = n) :
    ∃ fracs last, FractionLoop (.ofNat (2 ^ t)) x fracs last ∧ last.toRat? = some 0 ∧
      fracs.length ≤ room ∧ ∀ frac ∈ fracs, ∃ r, FractionRound (2 ^ t) frac r := by
  -- each round takes one place off the fraction
  induction room generalizing x r with
  | zero =>
    obtain rfl := eq_zero_of_mul_room hr hr' hroom
    exact ⟨[], x, .of_zero hx, hx, by simp, by simp⟩
  | succ room ih =>
    by_cases hpos : 0 < r
    · have hround := fractionRound_of_toRat? ht hx hr hr'
      have hrest0 := sub_nonneg.2 (Int.floor_le (r * (2 ^ t : ℕ)))
      have hrest1 := sub_lt_iff_lt_add'.2 (Int.lt_floor_add_one (r * (2 ^ t : ℕ)))
      obtain ⟨fracs, last, hloop, hlast, hlength, hrounds⟩ :=
        ih hround.rest_eq hrest0 hrest1 (exists_mul_rest hroom)
      refine ⟨x :: fracs, last, .next ?_ hloop, hlast, by simpa using hlength, ?_⟩
      · rw [Binary64.isPositive_eq hx]
        simpa using hpos
      · intro frac hfrac
        rcases List.mem_cons.1 hfrac with rfl | hfrac
        · exact ⟨r, hround⟩
        · exact hrounds frac hfrac
    · obtain rfl : r = 0 := le_antisymm (not_lt.1 hpos) hr
      exact ⟨[], x, .of_zero hx, hx, by simp, by simp⟩

end

/-! ## The loops of a number -/

/-- The loops for the digits of a number `x` of value `v` compute as on rationals and end of
themselves, that of the fraction within a number of places; the digits that are taken within the
room for them are those of all rounds. -/
structure ExactLoops (base places : ℕ) (x : Binary64) (v : ℚ) : Prop where
  radix_eq : (Binary64.ofNat base).toRat? = some (base : ℚ)
  abs_eq : x.abs.toRat? = some |v|
  int_eq : x.abs.trunc.toRat? = some (⌊|v|⌋ : ℚ)
  frac_eq : (x.abs - x.abs.trunc).toRat? = some (|v| - ⌊|v|⌋)
  integer : ∃ ints, IntegerLoop (.ofNat base) x.abs.trunc ints ∧
    (∀ int ∈ ints, ∃ a, IntegerRound base int a) ∧
    integerDigits (.ofNat base) maxDigits x.abs.trunc =
      ints.map fun int => (int % .ofNat base).toNat
  fraction : ∃ fracs last, FractionLoop (.ofNat base) (x.abs - x.abs.trunc) fracs last ∧
    (∀ frac ∈ fracs, ∃ r, FractionRound base frac r) ∧ last.toRat? = some 0 ∧
    fracs.length ≤ places ∧
    fractionDigits (.ofNat base) maxDigits (x.abs - x.abs.trunc) =
      fracs.map fun frac => (frac * .ofNat base).trunc.toNat

theorem exactLoops_of_toRat? {t places : ℕ} (hpos : 0 < t) (ht : t ≤ 4)
    (hplaces : 1074 ≤ t * places) (hroom : places ≤ maxDigits) {x : Binary64} {v : ℚ}
    (hx : x.toRat? = some v) : ExactLoops (2 ^ t) places x v := by
  have habs := Binary64.toRat?_abs hx
  have hgrid : OnGrid |v| := Binary64.onGrid_abs hx
  have hint := Binary64.toRat?_trunc habs (abs_nonneg v)
  have hfrac := toRat?_abs_sub_trunc hx
  refine ⟨toRat?_radix ht, habs, hint, hfrac, ?_, ?_⟩
  · have hfloor := hgrid.floor
    rw [← natCast_floor_abs] at hint hfloor
    obtain ⟨ints, hloop, hlength, hrounds⟩ :=
      exists_integerLoop ht hint (by decide) (lt_room hfloor hpos)
    exact ⟨ints, hloop, hrounds, hloop.integerDigits_eq_map hlength⟩
  · obtain ⟨fracs, last, hloop, hlast, hlength, hrounds⟩ :=
      exists_fractionLoop ht hfrac (sub_nonneg.2 (Int.floor_le _))
        (sub_lt_iff_lt_add'.2 (Int.lt_floor_add_one _)) (exists_mul_room hgrid.fract hplaces)
    exact ⟨fracs, last, hloop, hrounds, hlast, hlength,
      hloop.fractionDigits_eq_map (hlength.trans hroom)⟩

end LineCalc.Numeral

namespace LineCalc

/-- The loops that write a number in base two or sixteen never round. Whatever finite number they
start from, each operation in each round gives its value on rationals, each digit is an integer
below the base and has a character, and what is left of the fraction stays from zero up to one; the
integer loop ends, and the fraction loop ends with nothing left within 1074 rounds in base two and
269 in base sixteen, before the room for its digits is used up. -/
theorem Binary64.digit_loops_exact (x : Binary64) (v : ℚ) (hx : x.toRat? = some v) :
    Numeral.ExactLoops 2 1074 x v ∧ Numeral.ExactLoops 16 269 x v := by
  constructor
  · exact Numeral.exactLoops_of_toRat? (t := 1) (by decide) (by decide) (by decide) (by decide) hx
  · exact Numeral.exactLoops_of_toRat? (t := 4) (by decide) (by decide) (by decide) (by decide) hx

/-- Minus three times the least positive number: its last bit stands at the last place. -/
theorem Binary64.digit_loops_exact_subnormal :
    let x := finite true ⟨3, -1074, by decide, by decide, by decide, .inr rfl⟩
    let v := -(3 * (2 : ℚ) ^ (-1074 : ℤ))
    x.toRat? = some v ∧ Numeral.ExactLoops 2 1074 x v ∧ Numeral.ExactLoops 16 269 x v := by
  intro x v
  have hx : x.toRat? = some v := by
    rw [toRat?_finite]
    simp [v, Magnitude.toRat]
  exact ⟨hx, digit_loops_exact x v hx⟩

end LineCalc
