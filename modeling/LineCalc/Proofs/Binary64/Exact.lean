/-
Exact arithmetic: an operation whose true result lies on the grid returns it. Values are told apart
from numbers here, since two zeros have one value; what a program can see of a number, its sign bit
at zero apart, depends on the value alone.
-/
import LineCalc.Binary64.Arith
import LineCalc.Proofs.Binary64.Grid

namespace LineCalc.Binary64

/-! ## Values -/

theorem toRat?_finite (negative : Bool) (m : Magnitude) :
    (finite negative m).toRat? = some (if negative then -m.toRat else m.toRat) := by
  cases negative <;> rfl

theorem exists_of_toRat? {x : Binary64} {r : ℚ} (h : x.toRat? = some r) :
    ∃ negative m, x = finite negative m ∧ r = if negative then -m.toRat else m.toRat := by
  cases x with
  | nan => cases h
  | infinity negative => cases negative <;> cases h
  | finite negative m =>
    rw [toRat?_finite, Option.some.injEq] at h
    exact ⟨negative, m, rfl, h.symm⟩

theorem abs_ite_neg (negative : Bool) {r : ℚ} (hr : 0 ≤ r) :
    |if negative then -r else r| = r := by
  cases negative
  · simpa using hr
  · simpa using hr

/-- A finite number lies on the grid. -/
theorem onGrid_abs {x : Binary64} {r : ℚ} (h : x.toRat? = some r) : OnGrid |r| := by
  obtain ⟨negative, m, -, rfl⟩ := exists_of_toRat? h
  rw [abs_ite_neg negative m.toRat_nonneg]
  exact ⟨m, rfl⟩

theorem onGrid_of_nonneg {x : Binary64} {r : ℚ} (h : x.toRat? = some r) (hr : 0 ≤ r) :
    OnGrid r := by
  have := onGrid_abs h
  rwa [abs_of_nonneg hr] at this

/-! ## What depends on the value -/

theorem toRat?_neg {x : Binary64} {r : ℚ} (h : x.toRat? = some r) : (-x).toRat? = some (-r) := by
  obtain ⟨negative, m, rfl, rfl⟩ := exists_of_toRat? h
  show (finite (!negative) m).toRat? = _
  cases negative <;> simp [toRat?_finite]

theorem toRat?_abs {x : Binary64} {r : ℚ} (h : x.toRat? = some r) : x.abs.toRat? = some |r| := by
  obtain ⟨negative, m, rfl, rfl⟩ := exists_of_toRat? h
  rw [abs_ite_neg negative m.toRat_nonneg]
  rfl

theorem isZero_eq {x : Binary64} {r : ℚ} (h : x.toRat? = some r) : x.isZero = decide (r = 0) := by
  obtain ⟨negative, m, rfl, rfl⟩ := exists_of_toRat? h
  have := m.toRat_eq_zero_iff
  cases negative <;> simp [isZero, this, beq_eq_decide]

theorem isPositive_eq {x : Binary64} {r : ℚ} (h : x.toRat? = some r) :
    x.isPositive = decide (0 < r) := by
  obtain ⟨negative, m, rfl, rfl⟩ := exists_of_toRat? h
  have hzero := m.toRat_eq_zero_iff
  have hnonneg := m.toRat_nonneg
  cases negative with
  | false =>
    by_cases hm : m.significand = 0
    · simp [isPositive, hm, hzero.2 hm]
    · simp [isPositive, hm, hnonneg.lt_of_ne' (fun h => hm (hzero.1 h))]
  | true => simp [isPositive, hnonneg]

theorem isNegative_eq {x : Binary64} {r : ℚ} (h : x.toRat? = some r) (hr : r ≠ 0) :
    x.isNegative = decide (r < 0) := by
  obtain ⟨negative, m, rfl, rfl⟩ := exists_of_toRat? h
  have hnonneg := m.toRat_nonneg
  cases negative with
  | false => simp [isNegative, hnonneg]
  | true =>
    have : 0 < m.toRat := hnonneg.lt_of_ne' (by simpa using hr)
    simp [isNegative, this]

theorem toNat_eq {x : Binary64} {r : ℚ} (h : x.toRat? = some r) (hr : 0 ≤ r) :
    x.toNat = ⌊r⌋.toNat := by
  obtain ⟨negative, m, rfl, rfl⟩ := exists_of_toRat? h
  cases negative with
  | false => rfl
  | true =>
    have hzero : m.toRat = 0 := le_antisymm (by simpa using hr) m.toRat_nonneg
    simp [toNat, hzero]

/-! ## Rounding a value on the grid -/

theorem toRat?_nearest (negative : Bool) {r : ℚ} (h : OnGrid r) :
    (nearest negative r).toRat? = some (if negative then -r else r) := by
  obtain ⟨m, rfl⟩ := h
  rw [nearest_toRat, toRat?_finite]

theorem toRat?_ofRat {r : ℚ} (h : OnGrid |r|) (zeroNegative : Bool) :
    (ofRat r zeroNegative).toRat? = some r := by
  have habs : r.abs = |r| := by
    unfold Rat.abs
    split
    · rename_i hr
      rw [abs_of_nonneg hr]
    · rename_i hr
      rw [abs_of_neg (not_le.1 hr)]
  unfold ofRat
  split
  · rename_i hr
    rw [hr, zero, toRat?_finite]
    simp
  · rw [habs, toRat?_nearest _ h]
    by_cases hr : r < 0
    · simp [hr, abs_of_neg hr]
    · simp [hr, abs_of_nonneg (not_lt.1 hr)]

theorem toRat?_ofNat {n : ℕ} (h : n ≤ 2 ^ 53) : (ofNat n).toRat? = some (n : ℚ) :=
  toRat?_nearest false (onGrid_natCast h)

/-! ## Operations -/

section

variable {x y : Binary64} {a b : ℚ} (hx : x.toRat? = some a) (hy : y.toRat? = some b)

include hx hy

theorem toRat?_add (h : OnGrid |a + b|) : (x + y).toRat? = some (a + b) := by
  obtain ⟨s, m, rfl, rfl⟩ := exists_of_toRat? hx
  obtain ⟨t, n, rfl, rfl⟩ := exists_of_toRat? hy
  exact toRat?_ofRat h (s && t)

theorem toRat?_sub (h : OnGrid |a - b|) : (x - y).toRat? = some (a - b) := by
  rw [sub_eq_add_neg] at h ⊢
  exact toRat?_add hx (toRat?_neg hy) h

theorem toRat?_mul (h : OnGrid |a * b|) : (x * y).toRat? = some (a * b) := by
  obtain ⟨s, m, rfl, rfl⟩ := exists_of_toRat? hx
  obtain ⟨t, n, rfl, rfl⟩ := exists_of_toRat? hy
  rw [abs_mul, abs_ite_neg s m.toRat_nonneg, abs_ite_neg t n.toRat_nonneg] at h
  show (nearest (s ^^ t) (m.toRat * n.toRat)).toRat? = _
  rw [toRat?_nearest _ h]
  cases s <;> cases t <;> simp

theorem toRat?_div (hb : b ≠ 0) (h : OnGrid |a / b|) : (x / y).toRat? = some (a / b) := by
  obtain ⟨s, m, rfl, rfl⟩ := exists_of_toRat? hx
  obtain ⟨t, n, rfl, rfl⟩ := exists_of_toRat? hy
  have hn : n.significand ≠ 0 := by
    rw [ne_eq, ← n.toRat_eq_zero_iff]
    cases t <;> simpa using hb
  rw [abs_div, abs_ite_neg s m.toRat_nonneg, abs_ite_neg t n.toRat_nonneg] at h
  show (div (finite s m) (finite t n)).toRat? = _
  simp only [div, hn, if_false]
  rw [toRat?_nearest _ h]
  cases s <;> cases t <;> simp [div_neg, neg_div]

/-- The remainder of numbers that are not negative. -/
theorem toRat?_rem (ha : 0 ≤ a) (hb : 0 < b) (h : OnGrid (a - b * ⌊a / b⌋)) :
    (x % y).toRat? = some (a - b * ⌊a / b⌋) := by
  obtain ⟨s, m, rfl, rfl⟩ := exists_of_toRat? hx
  obtain ⟨t, n, rfl, rfl⟩ := exists_of_toRat? hy
  obtain rfl : t = false := by
    cases t with
    | false => rfl
    | true => exact absurd hb (by simpa using n.toRat_nonneg)
  have hn : n.significand ≠ 0 := by
    rw [ne_eq, ← n.toRat_eq_zero_iff]
    simpa using hb.ne'
  show (rem (finite s m) (finite false n)).toRat? = _
  simp only [rem, hn, if_false]
  cases s with
  | false => exact toRat?_nearest false h
  | true =>
    -- the only such dividend is a zero
    have hm : m.toRat = 0 := le_antisymm (by simpa using ha) m.toRat_nonneg
    have hzero : OnGrid (m.toRat - n.toRat * ⌊m.toRat / n.toRat⌋) := by simp [hm]
    show (nearest true (m.toRat - n.toRat * ⌊m.toRat / n.toRat⌋)).toRat? = _
    rw [toRat?_nearest true hzero]
    simp [hm]

end

/-- The integer part of a number that is not negative. -/
theorem toRat?_trunc {x : Binary64} {a : ℚ} (hx : x.toRat? = some a) (ha : 0 ≤ a) :
    x.trunc.toRat? = some (⌊a⌋ : ℚ) := by
  have hgrid := (onGrid_of_nonneg hx ha).floor
  obtain ⟨s, m, rfl, rfl⟩ := exists_of_toRat? hx
  cases s with
  | false => exact toRat?_nearest false hgrid
  | true =>
    have hm : m.toRat = 0 := le_antisymm (by simpa using ha) m.toRat_nonneg
    have hzero : OnGrid (⌊m.toRat⌋ : ℚ) := by simp [hm]
    show (nearest true ⌊m.toRat⌋).toRat? = _
    rw [toRat?_nearest true hzero]
    simp [hm]

end LineCalc.Binary64
