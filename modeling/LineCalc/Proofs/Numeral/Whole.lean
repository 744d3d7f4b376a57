/-
Which numbers are printed as integers. A decimal numeral is a sign and digits alone just if the
number is an integer below `10 ^ 21`. Beyond `2 ^ 53` the digits need not be those of the number:
they are those of the shortest decimal, which is an integer too, and zeros up to the point.
-/
import LineCalc.Proofs.Numeral.Shape
import LineCalc.Proofs.Token.Patterns

namespace LineCalc

/-! ## Rounding integers -/

namespace Magnitude

/-- What rounds to below a value of the grid is below it. -/
theorem Nearest.lt_of_lt {r g : ℚ} {m : Magnitude} (h : Nearest r m) (hg : OnGrid g)
    (hm : m.toRat < g) : r < g := by
  by_contra hge
  obtain ⟨n, rfl⟩ := hg
  have hn : Nearest n.toRat m := m.nearest_self.convex h hm.le (not_lt.1 hge)
  rw [hn.unique n.nearest_self] at hm
  exact lt_irrefl _ hm

/-- What an integer rounds to is an integer. -/
theorem Nearest.exists_natCast {n : ℕ} {m : Magnitude} (h : Nearest n m) :
    ∃ k : ℕ, m.toRat = k := by
  rcases lt_or_ge n (2 ^ 53) with hn | hn
  · obtain ⟨g, hg⟩ := onGrid_natCast hn.le
    rw [← hg] at h
    exact ⟨n, by rw [h.unique g.nearest_self, hg]⟩
  · have hfull : ((2 ^ 53 : ℕ) : ℚ) ≤ m.toRat := by
      by_contra hlt
      have := h.lt_of_lt (onGrid_natCast le_rfl) (not_le.1 hlt)
      exact hn.not_gt (by exact_mod_cast this)
    -- with a bit after the point there is no room for so many before it
    rcases m.natCast_or_lt_full 0 with ⟨k, hk⟩ | ⟨-, hlt⟩
    · exact ⟨k, by simpa using hk⟩
    · norm_num at hfull hlt
      linarith

end Magnitude

/-! ## The shortest decimal of an integer -/

theorem onGrid_layout_limit : OnGrid ((10 : ℚ) ^ (21 : ℤ)) := by
  have hparts := onGrid_of_parts (n := 5 ^ 21) (e := 21) (by norm_num) (by norm_num) (by norm_num)
  norm_num at hparts ⊢
  exact hparts

namespace Decimal.IsShortest

open Magnitude (Nearest)
open Numeral (leadingExponent leadingExponent_bracket digits_ne_zero_of_trimmed
  exponent_eq_leadingExponent)

variable {m : Magnitude} {d : Decimal} (h : IsShortest m d)

include h

/-- A power of ten that the magnitude reaches is reached by the shortest decimal: it has one digit,
and would be nearer. -/
theorem zpow_le {k : ℤ} (hk : (10 : ℚ) ^ k ≤ m.toRat) : (10 : ℚ) ^ k ≤ d.toRat := by
  by_contra hlt
  rw [not_le] at hlt
  have hpower : toRat ⟨1, k⟩ = (10 : ℚ) ^ k := by simp [toRat]
  have hnearest : Nearest (toRat ⟨1, k⟩) m := by
    rw [hpower]
    exact h.nearest.convex m.nearest_self hlt.le hk
  have hone : digitCount ⟨1, k⟩ ≤ 1 := (digitCount_le_iff _ 0).2 (by norm_num)
  have hcount : digitCount ⟨1, k⟩ = d.digitCount :=
    le_antisymm (hone.trans d.digitCount_pos) (h.fewest _ hnearest)
  have hcloser := h.closest _ hnearest hcount
  rw [hpower, abs_of_neg (by linarith), abs_of_nonpos (by linarith)] at hcloser
  linarith

/-- The digits of an integer end before the point, so those of its shortest decimal do: they start
no further down, and are no more. -/
theorem exponent_nonneg {n : ℕ} (hzero : n ≠ 0) (hn : m.toRat = n) : 0 ≤ d.exponent := by
  have hself : toRat ⟨n, 0⟩ = m.toRat := by simp [toRat, hn]
  have hcount : (Nat.toDigits 10 d.digits).length ≤ (Nat.toDigits 10 n).length :=
    h.fewest ⟨n, 0⟩ (hself ▸ m.nearest_self)
  have hreach : (10 : ℚ) ^ (((Nat.toDigits 10 n).length - 1 : ℕ) : ℤ) ≤ d.toRat := by
    refine h.zpow_le ?_
    rw [hn]
    exact_mod_cast (toDigits_bracket hzero).1
  have hbound := (leadingExponent_bracket (digits_ne_zero_of_trimmed h.trimmed)).2
  have hlead := (zpow_lt_zpow_iff_right₀ (by norm_num)).1 (hreach.trans_lt hbound)
  have hexponent := exponent_eq_leadingExponent d
  omega

theorem exists_natCast_iff (hm : m.significand ≠ 0) :
    (∃ n : ℕ, m.toRat = n) ↔ 0 ≤ d.exponent := by
  constructor
  · rintro ⟨n, hn⟩
    refine h.exponent_nonneg ?_ hn
    rwa [← Nat.cast_ne_zero (R := ℚ), ← hn, ne_eq, m.toRat_eq_zero_iff]
  · intro hexponent
    obtain ⟨j, hj⟩ := Int.eq_ofNat_of_zero_le hexponent
    have hvalue : d.toRat = (d.digits * 10 ^ j : ℕ) := by
      rw [toRat, hj, zpow_natCast]
      push_cast
      rfl
    exact (hvalue ▸ h.nearest).exists_natCast

/-- The limit of positional notation is on the grid, so that it is the same for a magnitude and for
its shortest decimal. -/
theorem lt_layout_limit_iff : m.toRat < 10 ^ 21 ↔ leadingExponent d < 21 := by
  obtain ⟨hlow, hhigh⟩ := leadingExponent_bracket (digits_ne_zero_of_trimmed h.trimmed)
  have hten : (1 : ℚ) < 10 := by norm_num
  rw [← zpow_natCast (10 : ℚ) 21]
  constructor
  · intro hm
    have hd := h.nearest.lt_of_lt onGrid_layout_limit hm
    exact (zpow_lt_zpow_iff_right₀ hten).1 (hlow.trans_lt hd)
  · intro hk
    by_contra hge
    have hreach := h.zpow_le (not_lt.1 hge)
    have hlead := (zpow_lt_zpow_iff_right₀ hten).1 (hreach.trans_lt hhigh)
    push_cast at hlead
    omega

end Decimal.IsShortest

/-! ## Numerals without point and exponent -/

theorem eq_or_isDigit_of_mem_integerPattern {cs : List Char} (h : cs ∈ integerPattern) {c : Char}
    (hc : c ∈ cs) : c = '-' ∨ c.isDigit = true := by
  obtain ⟨sign, hsign, digits, hdigits, rfl⟩ := Language.mem_mul.1 h
  rcases List.mem_append.1 hc with hc | hc
  · left
    rcases hsign with rfl | rfl
    · cases hc
    · exact List.mem_singleton.1 hc
  · exact .inr (((mem_digits_iff digits).1 hdigits).2 c hc)

namespace Numeral

theorem spell_mem_integerPattern_iff {negative : Bool} {whole fraction : List Char}
    (hne : whole ≠ []) (hwhole : ∀ c ∈ whole, c.isDigit = true) :
    spell negative whole fraction ∈ integerPattern ↔ fraction = [] := by
  constructor
  · intro h
    by_contra hfraction
    have hpoint : '.' ∈ spell negative whole fraction := by simp [spell, hfraction]
    exact absurd (eq_or_isDigit_of_mem_integerPattern h hpoint) (by decide)
  · rintro rfl
    refine Language.mem_mul.2
      ⟨_, sign_mem negative, whole, (mem_digits_iff whole).2 ⟨hne, hwhole⟩, ?_⟩
    simp [spell]

/-- What is written of a decimal is a sign and digits alone just if no digit stands after the point
and there is no exponent. -/
theorem Writes.mem_integerPattern_iff {negative : Bool} {d : Decimal} {text : List Char}
    (h : Writes negative d (leadingExponent d) text) (hd : ¬ 10 ∣ d.digits) :
    text ∈ integerPattern ↔ 0 ≤ d.exponent ∧ leadingExponent d < 21 := by
  have hexponent : 'e' ∈ text → text ∉ integerPattern := fun he hpattern =>
    absurd (eq_or_isDigit_of_mem_integerPattern hpattern he) (by decide)
  cases h with
  | @positional whole fraction _ hhigh hexpansion =>
    have hwhole : ∀ c ∈ whole, c.isDigit = true := fun c hc =>
      isDigit_of_mem (hexpansion.isDigit c (List.mem_append_left _ hc))
    rw [spell_mem_integerPattern_iff hexpansion.whole_ne_nil hwhole, hexpansion.fraction_nil,
      exists_int_iff hd]
    exact (and_iff_left hhigh).symm
  | small hk =>
    have hdigits := exponent_eq_leadingExponent d
    have hpos : 0 < (Nat.toDigits 10 d.digits).length := Nat.length_toDigits_pos
    exact iff_of_false (hexponent (by simp)) (by omega)
  | large hk => exact iff_of_false (hexponent (by simp)) (by omega)

end Numeral

theorem exists_abs_eq_natCast_iff {v : ℚ} : (∃ n : ℕ, |v| = n) ↔ ∃ n : ℤ, v = n := by
  constructor
  · rintro ⟨n, hn⟩
    rcases eq_or_eq_neg_of_abs_eq hn with rfl | rfl
    · exact ⟨n, (Int.cast_natCast n).symm⟩
    · exact ⟨-n, by push_cast; rfl⟩
  · rintro ⟨n, rfl⟩
    exact ⟨n.natAbs, abs_intCast n⟩

namespace Binary64

/-- The decimal numeral of a number is a sign and digits alone just if the number is an integer
below `10 ^ 21`. -/
theorem numeral_mem_integerPattern_iff {x : Binary64} {v : ℚ} (hx : x.toRat? = some v) :
    (x.numeral .decimal).toList ∈ integerPattern ↔ (∃ n : ℤ, v = n) ∧ |v| < 10 ^ 21 := by
  by_cases hv : v = 0
  · subst hv
    rw [numeral_zero hx]
    exact iff_of_true ((isIntegerText_iff "0").1 (by decide)) ⟨⟨0, Int.cast_zero.symm⟩, by simp⟩
  · obtain ⟨negative, m, d, rfl, hm, hvalue, hshortest, hwrites, -⟩ := exists_writes hx hv
    rw [hwrites.mem_integerPattern_iff hshortest.trimmed, ← hshortest.exists_natCast_iff hm,
      ← hshortest.lt_layout_limit_iff, hvalue, exists_abs_eq_natCast_iff]

/-- A decimal numeral is read back as the number, but for the sign of zero, and that is not
printed. -/
theorem exists_literal_numeral {x : Binary64} {v : ℚ} (hx : x.toRat? = some v) :
    ∃ literal, Literal.ofString? (x.numeral .decimal) = some literal ∧
      (v ≠ 0 → literal.toBinary64 = x) ∧
      literal.toBinary64.numeral .decimal = x.numeral .decimal := by
  by_cases hv : v = 0
  · subst hv
    rw [numeral_zero hx]
    exact ⟨.decimal false ⟨0, 0⟩, rfl, absurd rfl, rfl⟩
  · obtain ⟨negative, m, d, rfl, -, -, hshortest, -, e, hreads, he⟩ := exists_writes hx hv
    have hback : e.toBinary64 negative = .finite negative m := by
      rw [Decimal.toBinary64_eq_finite_iff, he]
      exact hshortest.nearest
    exact ⟨.decimal negative e, hreads, fun _ => hback, congrArg (numeral · .decimal) hback⟩

end Binary64

end LineCalc
