/-
The binary64 grid: the values of magnitudes. Rounding leaves each of them where it is, and they are
just the values `n · 2 ^ e` with `n` below `2 ^ 53` and `e` from -1074 to 971. Integer parts and
fractional parts stay on the grid, and so does every integer up to `2 ^ 53`.
-/
import LineCalc.Binary64.Rounding
import Mathlib.Algebra.Order.Field.Power
import Mathlib.Algebra.Order.Floor.Semifield
import Mathlib.Data.Int.Log
import Mathlib.Data.Rat.Floor
import Mathlib.Tactic.FieldSimp
import Mathlib.Tactic.Linarith
import Mathlib.Tactic.NormNum
import Mathlib.Tactic.Positivity
import Mathlib.Tactic.Ring

namespace LineCalc

/-! ## Powers and logarithms -/

theorem two_zpow_pos (e : ℤ) : (0 : ℚ) < (2 : ℚ) ^ e := zpow_pos (by norm_num) e

/-- The logarithms of numerator and denominator bracket the value between two powers. -/
theorem num_den_bracket {base : ℕ} (hbase : 1 < base) {log : ℕ → ℕ}
    (hlog : ∀ n, n ≠ 0 → base ^ log n ≤ n ∧ n < base ^ (log n + 1)) {r : ℚ} (hr : 0 < r) :
    (base : ℚ) ^ ((log r.num.toNat : ℤ) - log r.den - 1) ≤ r ∧
      r < (base : ℚ) ^ ((log r.num.toNat : ℤ) - log r.den + 1) := by
  have hnum : 0 < r.num := Rat.num_pos.2 hr
  have hb : (base : ℚ) ≠ 0 := by exact_mod_cast (show base ≠ 0 by omega)
  have hden : (0 : ℚ) < r.den := by exact_mod_cast r.den_pos
  have hcross : (r.num.toNat : ℚ) = r * r.den := by
    rw [Rat.mul_den_eq_num, ← Int.cast_natCast, Int.toNat_of_nonneg hnum.le]
  obtain ⟨hn, hn'⟩ := hlog r.num.toNat (by omega)
  obtain ⟨hd, hd'⟩ := hlog r.den r.den_nz
  have hpow : ∀ k : ℤ, (0 : ℚ) ≤ (base : ℚ) ^ k := fun k => zpow_nonneg (Nat.cast_nonneg _) k
  constructor
  · refine le_of_mul_le_mul_right ?_ hden
    calc (base : ℚ) ^ ((log r.num.toNat : ℤ) - log r.den - 1) * r.den
        ≤ (base : ℚ) ^ ((log r.num.toNat : ℤ) - log r.den - 1) * (base : ℚ) ^ (log r.den + 1 : ℤ) :=
          mul_le_mul_of_nonneg_left (by exact_mod_cast hd'.le) (hpow _)
      _ = (base : ℚ) ^ (log r.num.toNat : ℤ) := by rw [← zpow_add₀ hb]; congr 1; ring
      _ ≤ r * r.den := by rw [← hcross, zpow_natCast]; exact_mod_cast hn
  · refine lt_of_mul_lt_mul_right ?_ hden.le
    calc r * r.den < (base : ℚ) ^ (log r.num.toNat + 1 : ℤ) := by rw [← hcross]; exact_mod_cast hn'
      _ = (base : ℚ) ^ ((log r.num.toNat : ℤ) - log r.den + 1) * (base : ℚ) ^ (log r.den : ℤ) := by
          rw [← zpow_add₀ hb]; congr 1; ring
      _ ≤ (base : ℚ) ^ ((log r.num.toNat : ℤ) - log r.den + 1) * r.den :=
          mul_le_mul_of_nonneg_left (by rw [zpow_natCast]; exact_mod_cast hd) (hpow _)

/-- The logarithm found from numerator and denominator is the logarithm. -/
theorem floorLog_eq {base : ℕ} (hbase : 1 < base) {log : ℕ → ℕ}
    (hlog : ∀ n, n ≠ 0 → base ^ log n ≤ n ∧ n < base ^ (log n + 1)) {r : ℚ} (hr : 0 < r) :
    floorLog base log r = Int.log base r := by
  obtain ⟨low, high⟩ := num_den_bracket hbase hlog hr
  unfold floorLog
  dsimp only
  generalize (log r.num.toNat : ℤ) - log r.den = k at *
  symm
  split
  · rename_i h
    have h1 := (Int.zpow_le_iff_le_log hbase hr).1 h
    have h2 := (Int.lt_zpow_iff_log_lt hbase hr).1 high
    omega
  · rename_i h
    have h1 := (Int.zpow_le_iff_le_log hbase hr).1 low
    have h2 := (Int.lt_zpow_iff_log_lt hbase hr).1 (not_le.1 h)
    omega

theorem floorLog2_eq {r : ℚ} (hr : 0 < r) : floorLog2 r = Int.log 2 r :=
  floorLog_eq (by norm_num) (fun _ hn => ⟨Nat.log2_self_le hn, Nat.lt_log2_self⟩) hr

/-! ## Rounding to an integer -/

@[simp]
theorem roundHalfEven_natCast (n : ℕ) : roundHalfEven (n : ℚ) = n := by
  have hfloor : (n : ℚ).floor.toNat = n := by
    show ⌊(n : ℚ)⌋.toNat = n
    rw [Int.floor_natCast, Int.toNat_natCast]
  simp [roundHalfEven, hfloor]

/-! ## Magnitudes -/

namespace Magnitude

theorem toRat_nonneg (m : Magnitude) : 0 ≤ m.toRat :=
  mul_nonneg (Nat.cast_nonneg _) (two_zpow_pos _).le

@[simp]
theorem toRat_zero : zero.toRat = 0 := by simp [toRat, zero]

theorem toRat_eq_zero_iff (m : Magnitude) : m.toRat = 0 ↔ m.significand = 0 := by
  unfold toRat
  rw [mul_eq_zero, Nat.cast_eq_zero]
  exact or_iff_left (two_zpow_pos _).ne'

theorem eq_zero_of_significand {m : Magnitude} (h : m.significand = 0) : m = zero := by
  obtain ⟨significand, exponent, hlt, hge, hle, hfull⟩ := m
  obtain rfl : significand = 0 := h
  obtain rfl : exponent = -1074 := hfull.resolve_left (by norm_num)
  rfl

/-- The exponent that rounding picks for the value of a magnitude is the magnitude's own. -/
theorem exponent_eq {m : Magnitude} (h : m.significand ≠ 0) :
    max (floorLog2 m.toRat - 52) (-1074) = m.exponent := by
  have hpos : 0 < m.toRat := m.toRat_nonneg.lt_of_ne' (by rwa [ne_eq, toRat_eq_zero_iff])
  rw [floorLog2_eq hpos]
  have hhigh : Int.log 2 m.toRat < 53 + m.exponent := by
    rw [← Int.lt_zpow_iff_log_lt (by norm_num) hpos, Nat.cast_ofNat, zpow_add₀ (by norm_num)]
    have : (m.significand : ℚ) < 2 ^ (53 : ℤ) := by exact_mod_cast m.significand_lt
    exact mul_lt_mul_of_pos_right this (two_zpow_pos _)
  rcases m.full_or_least with hfull | hleast
  · have hlow : 52 + m.exponent ≤ Int.log 2 m.toRat := by
      rw [← Int.zpow_le_iff_le_log (by norm_num) hpos, Nat.cast_ofNat, zpow_add₀ (by norm_num)]
      have : (2 : ℚ) ^ (52 : ℤ) ≤ m.significand := by exact_mod_cast hfull
      exact mul_le_mul_of_nonneg_right this (two_zpow_pos _).le
    have := m.exponent_ge
    omega
  · omega

end Magnitude

/-- Rounding leaves the values of magnitudes where they are. -/
@[simp]
theorem nearest_toRat (negative : Bool) (m : Magnitude) :
    Binary64.nearest negative m.toRat = .finite negative m := by
  by_cases hm : m.significand = 0
  · rw [Magnitude.eq_zero_of_significand hm]
    simp [Binary64.nearest, Binary64.zero]
  have hpos : 0 < m.toRat := by
    refine m.toRat_nonneg.lt_of_ne' ?_
    rwa [ne_eq, m.toRat_eq_zero_iff]
  have hquotient : m.toRat / (2 : ℚ) ^ m.exponent = m.significand :=
    mul_div_cancel_right₀ _ (two_zpow_pos _).ne'
  have hlt := m.significand_lt
  have hparts : Magnitude.ofParts? m.significand m.exponent = some m :=
    dif_pos ⟨m.significand_lt, m.exponent_ge, m.exponent_le, m.full_or_least⟩
  unfold Binary64.nearest
  rw [if_neg (not_le.2 hpos)]
  dsimp only
  rw [Magnitude.exponent_eq hm, hquotient, roundHalfEven_natCast, Binary64.ofRounded,
    if_neg hlt.ne, hparts]

/-! ## The grid -/

/-- A value that some magnitude has. -/
def OnGrid (r : ℚ) : Prop := ∃ m : Magnitude, m.toRat = r

/-- The parts of a grid value need not be full: a significand with room left moves up. -/
theorem onGrid_of_parts {n : ℕ} {e : ℤ} (hn : n < 2 ^ 53) (he : -1074 ≤ e) (he' : e ≤ 971) :
    OnGrid (n * (2 : ℚ) ^ e) := by
  -- on the distance of the exponent from the least one
  obtain ⟨k, hk⟩ : ∃ k : ℕ, e = k - 1074 := ⟨(e + 1074).toNat, by omega⟩
  induction k generalizing n e with
  | zero => exact ⟨⟨n, e, hn, he, he', .inr (by simpa using hk)⟩, rfl⟩
  | succ k ih =>
    by_cases hfull : 2 ^ 52 ≤ n
    · exact ⟨⟨n, e, hn, he, he', .inl hfull⟩, rfl⟩
    have hshift : (n : ℚ) * (2 : ℚ) ^ e = ((2 * n : ℕ) : ℚ) * (2 : ℚ) ^ (e - 1) := by
      rw [zpow_sub₀ (by norm_num), zpow_one]
      push_cast
      ring
    rw [hshift]
    exact ih (by omega) (by omega) (by omega) (by omega)

theorem OnGrid.exists_parts {r : ℚ} (h : OnGrid r) :
    ∃ (n : ℕ) (e : ℤ), n < 2 ^ 53 ∧ -1074 ≤ e ∧ e ≤ 971 ∧ r = n * (2 : ℚ) ^ e := by
  obtain ⟨m, rfl⟩ := h
  exact ⟨m.significand, m.exponent, m.significand_lt, m.exponent_ge, m.exponent_le, rfl⟩

@[simp]
theorem onGrid_zero : OnGrid 0 := ⟨.zero, Magnitude.toRat_zero⟩

theorem onGrid_natCast {n : ℕ} (h : n ≤ 2 ^ 53) : OnGrid n := by
  rcases h.lt_or_eq with h | rfl
  · have := onGrid_of_parts h (e := 0) (by norm_num) (by norm_num)
    simpa using this
  · have := onGrid_of_parts (n := 2 ^ 52) (e := 1) (by norm_num) (by norm_num) (by norm_num)
    norm_num at this ⊢
    exact this

/-- The naturals on the grid are those of 53 bits, shifted. -/
theorem onGrid_natCast_iff (k : ℕ) :
    OnGrid k ↔ ∃ n e : ℕ, n < 2 ^ 53 ∧ e ≤ 971 ∧ k = n * 2 ^ e := by
  constructor
  · intro h
    obtain ⟨n, e, hn, he, he', hk⟩ := h.exists_parts
    by_cases hpos : 0 ≤ e
    · obtain ⟨j, rfl⟩ := Int.eq_ofNat_of_zero_le hpos
      rw [zpow_natCast] at hk
      exact ⟨n, j, hn, by omega, by exact_mod_cast hk⟩
    · -- below the point, the value is at most its significand
      have hle : (k : ℚ) ≤ n := by
        rw [hk]
        exact mul_le_of_le_one_right (Nat.cast_nonneg _)
          (zpow_le_one_of_nonpos₀ (by norm_num) (by omega))
      have : k ≤ n := by exact_mod_cast hle
      exact ⟨k, 0, by omega, by norm_num, by simp⟩
  · rintro ⟨n, e, hn, he, rfl⟩
    have := onGrid_of_parts hn (e := e) (by omega) (by omega)
    rw [zpow_natCast] at this
    exact_mod_cast this

/-- A grid value that is no integer has its 53 bits just above some place after the point. -/
theorem OnGrid.natCast_or_div {r : ℚ} (h : OnGrid r) :
    (∃ k : ℕ, r = k) ∨ ∃ n j : ℕ, n < 2 ^ 53 ∧ j ≤ 1074 ∧ r = n / (2 ^ j : ℕ) := by
  obtain ⟨n, e, hn, he, he', rfl⟩ := h.exists_parts
  by_cases hpos : 0 ≤ e
  · obtain ⟨j, rfl⟩ := Int.eq_ofNat_of_zero_le hpos
    exact .inl ⟨n * 2 ^ j, by push_cast; rw [zpow_natCast]⟩
  · obtain ⟨j, rfl⟩ : ∃ j : ℕ, e = -j := ⟨(-e).toNat, by omega⟩
    refine .inr ⟨n, j, hn, by omega, ?_⟩
    rw [zpow_neg, zpow_natCast, div_eq_mul_inv]
    push_cast
    rfl

theorem onGrid_div {n j : ℕ} (hn : n < 2 ^ 53) (hj : j ≤ 1074) : OnGrid (n / (2 ^ j : ℕ)) := by
  have := onGrid_of_parts hn (e := -j) (by omega) (by omega)
  rw [zpow_neg, zpow_natCast] at this
  rw [div_eq_mul_inv]
  exact_mod_cast this

/-! ## Integer and fractional parts -/

theorem OnGrid.floor {r : ℚ} (h : OnGrid r) : OnGrid (⌊r⌋ : ℚ) := by
  rcases h.natCast_or_div with ⟨k, rfl⟩ | ⟨n, j, hn, -, rfl⟩
  · rwa [Int.floor_natCast]
  · rw [Rat.floor_natCast_div_natCast]
    exact_mod_cast onGrid_natCast (((Nat.div_le_self n (2 ^ j)).trans hn.le))

theorem OnGrid.fract {r : ℚ} (h : OnGrid r) : OnGrid (r - ⌊r⌋) := by
  rcases h.natCast_or_div with ⟨k, rfl⟩ | ⟨n, j, hn, hj, rfl⟩
  · simp
  · have hmod : (n : ℚ) / (2 ^ j : ℕ) - ⌊(n : ℚ) / (2 ^ j : ℕ)⌋ =
        ((n % 2 ^ j : ℕ) : ℚ) / (2 ^ j : ℕ) := by
      have hsplit : (n : ℚ) = (2 ^ j : ℕ) * (n / 2 ^ j : ℕ) + (n % 2 ^ j : ℕ) := by
        exact_mod_cast (Nat.div_add_mod n (2 ^ j)).symm
      have hfloor : ⌊(n : ℚ) / (2 ^ j : ℕ)⌋ = (n / 2 ^ j : ℕ) := Rat.floor_natCast_div_natCast _ _
      rw [hfloor, Int.cast_natCast, eq_div_iff (by positivity), sub_mul,
        div_mul_cancel₀ _ (by positivity)]
      linarith
    rw [hmod]
    exact onGrid_div ((Nat.mod_le _ _).trans_lt hn) hj

/-- Below one there is room above: the value can be scaled up. -/
theorem OnGrid.mul_two_pow {r : ℚ} (h : OnGrid r) (hr : r < 1) {t : ℕ} (ht : t ≤ 971) :
    OnGrid (r * (2 ^ t : ℕ)) := by
  obtain ⟨n, e, hn, he, he', rfl⟩ := h.exists_parts
  by_cases hzero : n = 0
  · simp [hzero]
  have hneg : e < 0 := by
    by_contra hpos
    have hone : (1 : ℚ) ≤ (2 : ℚ) ^ e := one_le_zpow₀ (by norm_num) (by omega)
    have hn1 : (1 : ℚ) ≤ n := by exact_mod_cast Nat.one_le_iff_ne_zero.2 hzero
    nlinarith
  have := onGrid_of_parts hn (e := e + t) (by omega) (by omega)
  rw [zpow_add₀ (by norm_num), zpow_natCast, ← mul_assoc] at this
  exact_mod_cast this

theorem OnGrid.div_two_pow {k : ℕ} (h : OnGrid k) (t : ℕ) : OnGrid ((k / 2 ^ t : ℕ) : ℚ) := by
  obtain ⟨n, e, hn, he, rfl⟩ := (onGrid_natCast_iff k).1 h
  rw [onGrid_natCast_iff]
  rcases le_total t e with hte | het
  · refine ⟨n, e - t, hn, by omega, ?_⟩
    rw [← Nat.pow_div hte (by norm_num), Nat.mul_div_assoc _ (pow_dvd_pow 2 hte)]
  · refine ⟨n / 2 ^ (t - e), 0, (Nat.div_le_self _ _).trans_lt hn, by omega, ?_⟩
    rw [pow_zero, mul_one]
    conv => lhs; rw [← Nat.sub_add_cancel het, pow_add]
    exact Nat.mul_div_mul_right _ _ (by positivity)

/-- Clearing the last `t` bits of an integer leaves it on the grid. -/
theorem OnGrid.mul_div_two_pow {k : ℕ} (h : OnGrid k) {t : ℕ} (ht : t ≤ 971) :
    OnGrid ((2 ^ t * (k / 2 ^ t) : ℕ) : ℚ) := by
  obtain ⟨n, e, hn, he, rfl⟩ := (onGrid_natCast_iff k).1 h
  rcases le_total t e with hte | het
  · rwa [Nat.mul_div_cancel' ((pow_dvd_pow 2 hte).mul_left n)]
  · rw [onGrid_natCast_iff]
    refine ⟨n / 2 ^ (t - e), t, (Nat.div_le_self _ _).trans_lt hn, ht, ?_⟩
    rw [mul_comm]
    congr 1
    conv => lhs; rw [← Nat.sub_add_cancel het, pow_add]
    exact Nat.mul_div_mul_right _ _ (by positivity)

end LineCalc
