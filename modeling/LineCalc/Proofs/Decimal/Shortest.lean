/-
The shortest decimal. What the search over grids of one to seventeen digits finds reads back, has as
few digits as any decimal that does, and is the nearest of those with as few. The search always
finds: at seventeen digits a grid is finer than the numbers it stands between.
-/
import LineCalc.Proofs.Binary64.Nearest
import LineCalc.Proofs.Decimal.Integer
import Mathlib.Data.Nat.Factorization.Basic

namespace LineCalc.Decimal

open Magnitude (Nearest)

/-! ## Reading decimals -/

theorem ten_zpow_pos (e : ℤ) : (0 : ℚ) < (10 : ℚ) ^ e := zpow_pos (by norm_num) e

theorem toRat_nonneg (d : Decimal) : 0 ≤ d.toRat :=
  mul_nonneg (Nat.cast_nonneg _) (ten_zpow_pos _).le

/-- Powers of ten grow faster than those of eight. -/
theorem two_zpow_le_ten_zpow (n : ℕ) : (2 : ℚ) ^ (3 * n : ℤ) ≤ (10 : ℚ) ^ (n : ℤ) := by
  rw [zpow_mul, zpow_natCast, zpow_natCast]
  exact pow_le_pow_left₀ (by norm_num) (by norm_num) n

theorem limit_le_toRat {d : Decimal} (hd : d.digits ≠ 0) (h : 400 < d.exponent) :
    Magnitude.limit ≤ d.toRat := by
  have hdigits : (1 : ℚ) ≤ d.digits := by exact_mod_cast Nat.one_le_iff_ne_zero.2 hd
  calc Magnitude.limit ≤ (2 : ℚ) ^ (3 * (400 : ℕ) : ℤ) := by
        have hpos := two_zpow_pos 970
        rw [show (3 * (400 : ℕ) : ℤ) = 230 + 970 by norm_num, zpow_add₀ (by norm_num),
          Magnitude.limit]
        exact mul_le_mul_of_nonneg_right (by norm_num) hpos.le
    _ ≤ (10 : ℚ) ^ ((400 : ℕ) : ℤ) := two_zpow_le_ten_zpow 400
    _ ≤ (10 : ℚ) ^ d.exponent := zpow_le_zpow_right₀ (by norm_num) (by omega)
    _ ≤ d.toRat := le_mul_of_one_le_left (ten_zpow_pos _).le hdigits

theorem toRat_lt_of_small {d : Decimal} (h : d.exponent + d.digits.log2 + 1 < -400) :
    d.toRat < (2 : ℚ) ^ (-1075 : ℤ) := by
  have hdigits : (d.digits : ℚ) < (10 : ℚ) ^ (d.digits.log2 + 1 : ℤ) := by
    have hlog : d.digits < 2 ^ (d.digits.log2 + 1) := Nat.lt_log2_self
    have hten : 2 ^ (d.digits.log2 + 1) ≤ 10 ^ (d.digits.log2 + 1) :=
      Nat.pow_le_pow_left (by norm_num) _
    exact_mod_cast hlog.trans_le hten
  calc d.toRat < (10 : ℚ) ^ (d.digits.log2 + 1 : ℤ) * (10 : ℚ) ^ d.exponent :=
        mul_lt_mul_of_pos_right hdigits (ten_zpow_pos _)
    _ = (10 : ℚ) ^ (d.digits.log2 + 1 + d.exponent : ℤ) := (zpow_add₀ (by norm_num) _ _).symm
    _ ≤ (10 : ℚ) ^ (-(400 : ℕ) : ℤ) := zpow_le_zpow_right₀ (by norm_num) (by omega)
    _ ≤ (2 : ℚ) ^ (-(3 * (400 : ℕ)) : ℤ) := by
        rw [zpow_neg, zpow_neg]
        exact inv_anti₀ (two_zpow_pos _) (two_zpow_le_ten_zpow 400)
    _ ≤ (2 : ℚ) ^ (-1075 : ℤ) := zpow_le_zpow_right₀ (by norm_num) (by norm_num)

/-- The decimals that are not rounded step by step would round the same way. -/
theorem toBinary64_eq_nearest (negative : Bool) (d : Decimal) :
    d.toBinary64 negative = .nearest negative d.toRat := by
  unfold toBinary64
  split
  · rename_i hzero
    rw [toRat, hzero, Nat.cast_zero, zero_mul]
    rfl
  · rename_i hzero
    split
    · rename_i hbig
      rw [Binary64.nearest_eq_infinity negative (limit_le_toRat hzero hbig)]
    · split
      · rename_i hsmall
        symm
        rw [Binary64.zero, Binary64.nearest_eq_finite_iff negative d.toRat_nonneg]
        exact Magnitude.nearest_zero (toRat_lt_of_small hsmall).le
      · rfl

theorem toBinary64_eq_finite_iff (negative : Bool) (d : Decimal) (m : Magnitude) :
    d.toBinary64 negative = .finite negative m ↔ Nearest d.toRat m := by
  rw [toBinary64_eq_nearest, Binary64.nearest_eq_finite_iff negative d.toRat_nonneg]

theorem readsAs_iff_nearest (d : Decimal) (m : Magnitude) :
    d.readsAs m = true ↔ Nearest d.toRat m := by
  unfold readsAs
  rw [decide_eq_true_eq, toBinary64_eq_finite_iff]

/-! ## One grid -/

theorem toRat_le_iff (i j : ℕ) (e : ℤ) : toRat ⟨i, e⟩ ≤ toRat ⟨j, e⟩ ↔ i ≤ j := by
  unfold toRat
  rw [mul_le_mul_iff_left₀ (ten_zpow_pos e), Nat.cast_le]

section Grid

variable (m : Magnitude) (e : ℤ)

/-- The digits of the grid value at or below the magnitude. -/
def digitsBelow : ℕ := (m.toRat / (10 : ℚ) ^ e).floor.toNat

theorem natCast_digitsBelow : (digitsBelow m e : ℚ) = ⌊m.toRat / (10 : ℚ) ^ e⌋ := by
  have hnonneg : 0 ≤ m.toRat / (10 : ℚ) ^ e := div_nonneg m.toRat_nonneg (ten_zpow_pos e).le
  have hcast : (digitsBelow m e : ℤ) = ⌊m.toRat / (10 : ℚ) ^ e⌋ :=
    Int.toNat_of_nonneg (Int.floor_nonneg.2 hnonneg)
  exact_mod_cast congrArg (Int.cast : ℤ → ℚ) hcast

theorem toRat_below_le : toRat ⟨digitsBelow m e, e⟩ ≤ m.toRat := by
  have hfloor := Int.floor_le (m.toRat / (10 : ℚ) ^ e)
  rw [← natCast_digitsBelow] at hfloor
  exact (le_div_iff₀ (ten_zpow_pos e)).1 hfloor

theorem lt_toRat_above : m.toRat < toRat ⟨digitsBelow m e + 1, e⟩ := by
  have hfloor := Int.lt_floor_add_one (m.toRat / (10 : ℚ) ^ e)
  rw [← natCast_digitsBelow, ← Nat.cast_succ] at hfloor
  exact (div_lt_iff₀ (ten_zpow_pos e)).1 hfloor

variable {m e}

/-- A grid value on either side of the magnitude is no nearer than the neighbour on that side. -/
theorem toRat_le_below_or_above_le (j : ℕ) :
    toRat ⟨j, e⟩ ≤ toRat ⟨digitsBelow m e, e⟩ ∨ toRat ⟨digitsBelow m e + 1, e⟩ ≤ toRat ⟨j, e⟩ := by
  rw [toRat_le_iff, toRat_le_iff]
  omega

/-- If a value of the grid reads as the magnitude, then one of its neighbours there does and is no
farther from it. -/
theorem exists_neighbour {j : ℕ} (h : Nearest (toRat ⟨j, e⟩) m) :
    ∃ i, (i = digitsBelow m e ∨ i = digitsBelow m e + 1) ∧ Nearest (toRat ⟨i, e⟩) m ∧
      |toRat ⟨i, e⟩ - m.toRat| ≤ |toRat ⟨j, e⟩ - m.toRat| := by
  have hown := m.nearest_self
  have hbelow := toRat_below_le m e
  have habove := (lt_toRat_above m e).le
  rcases toRat_le_below_or_above_le (m := m) (e := e) j with hj | hj
  · refine ⟨_, .inl rfl, h.convex hown hj hbelow, ?_⟩
    rw [abs_of_nonpos (by linarith), abs_of_nonpos (by linarith)]
    linarith
  · refine ⟨_, .inr rfl, hown.convex h habove hj, ?_⟩
    rw [abs_of_nonneg (by linarith), abs_of_nonneg (by linarith)]
    linarith

variable (m e)

/-- The search on a grid takes the nearer neighbour of those that read as the magnitude. -/
theorem onGrid?_cases :
    let below : Decimal := ⟨digitsBelow m e, e⟩
    let above : Decimal := ⟨digitsBelow m e + 1, e⟩
    (onGrid? m e = some below ∧ Nearest below.toRat m ∧
        (Nearest above.toRat m → m.toRat - below.toRat < above.toRat - m.toRat)) ∨
      (onGrid? m e = some above ∧ Nearest above.toRat m ∧
        (Nearest below.toRat m → above.toRat - m.toRat ≤ m.toRat - below.toRat)) ∨
      (onGrid? m e = none ∧ ¬ Nearest below.toRat m ∧ ¬ Nearest above.toRat m) := by
  intro below above
  have hdef : onGrid? m e =
      if below.readsAs m && (!above.readsAs m || m.toRat - below.toRat < above.toRat - m.toRat) then
        some below
      else if above.readsAs m then some above else none := rfl
  rw [hdef]
  simp only [← readsAs_iff_nearest]
  by_cases hbelow : below.readsAs m = true
  · by_cases habove : above.readsAs m = true
    · by_cases hnear : m.toRat - below.toRat < above.toRat - m.toRat
      · simp [hbelow, hnear]
      · simp [hbelow, habove, hnear, not_lt.1 hnear]
    · simp [hbelow, habove]
  · by_cases habove : above.readsAs m = true
    · simp [hbelow, habove]
    · simp [hbelow, habove]

variable {m e}

/-- What is found on a grid reads as the magnitude, is a neighbour of it there, and is no farther
from it than any value of the grid that reads as it. -/
theorem onGrid?_spec {d : Decimal} (h : onGrid? m e = some d) :
    Nearest d.toRat m ∧ d.exponent = e ∧ d.digits ≤ digitsBelow m e + 1 ∧
      ∀ j, Nearest (toRat ⟨j, e⟩) m → |d.toRat - m.toRat| ≤ |toRat ⟨j, e⟩ - m.toRat| := by
  have hbelow := toRat_below_le m e
  have habove := lt_toRat_above m e
  rcases onGrid?_cases m e with ⟨hfound, hreads, hother⟩ | ⟨hfound, hreads, hother⟩ | ⟨hnone, -⟩
  · obtain rfl := Option.some.inj (h.symm.trans hfound)
    refine ⟨hreads, rfl, Nat.le_succ _, fun j hj => ?_⟩
    obtain ⟨i, rfl | rfl, hi, hle⟩ := exists_neighbour hj
    · exact hle
    · refine le_trans ?_ hle
      rw [abs_of_nonpos (by linarith), abs_of_nonneg (by linarith)]
      linarith [hother hi]
  · obtain rfl := Option.some.inj (h.symm.trans hfound)
    refine ⟨hreads, rfl, le_rfl, fun j hj => ?_⟩
    obtain ⟨i, rfl | rfl, hi, hle⟩ := exists_neighbour hj
    · refine le_trans ?_ hle
      rw [abs_of_nonneg (by linarith), abs_of_nonpos (by linarith)]
      linarith [hother hi]
    · exact hle
  · rw [hnone] at h
    cases h

theorem onGrid?_ne_none {j : ℕ} (h : Nearest (toRat ⟨j, e⟩) m) : onGrid? m e ≠ none := by
  intro hnone
  obtain ⟨i, hi, hreads, -⟩ := exists_neighbour h
  rcases onGrid?_cases m e with ⟨hfound, -⟩ | ⟨hfound, -⟩ | ⟨-, hbelow, habove⟩
  · rw [hnone] at hfound
    cases hfound
  · rw [hnone] at hfound
    cases hfound
  · rcases hi with rfl | rfl
    · exact hbelow hreads
    · exact habove hreads

end Grid

/-! ## Seventeen digits are enough -/

theorem zpow_log_le {m : Magnitude} (hm : m.significand ≠ 0) :
    (10 : ℚ) ^ Int.log 10 m.toRat ≤ m.toRat := by
  exact_mod_cast Int.zpow_log_le_self (b := 10) (by norm_num) (Magnitude.toRat_pos hm)

theorem exists_nearest_of_seventeen {m : Magnitude} (hm : m.significand ≠ 0) :
    ∃ j, Nearest (toRat ⟨j, Int.log 10 m.toRat - 16⟩) m := by
  have hbelow := toRat_below_le m (Int.log 10 m.toRat - 16)
  have habove := lt_toRat_above m (Int.log 10 m.toRat - 16)
  generalize digitsBelow m (Int.log 10 m.toRat - 16) = n at *
  have hunit : 10 ^ 16 * (10 : ℚ) ^ (Int.log 10 m.toRat - 16) ≤ m.toRat := by
    refine le_trans (le_of_eq ?_) (zpow_log_le hm)
    rw [← zpow_natCast, ← zpow_add₀ (by norm_num)]
    congr 1
    push_cast
    ring
  have hstep : toRat ⟨n + 1, Int.log 10 m.toRat - 16⟩ =
      toRat ⟨n, Int.log 10 m.toRat - 16⟩ + (10 : ℚ) ^ (Int.log 10 m.toRat - 16) := by
    unfold toRat
    push_cast
    ring
  -- one of the neighbours is at most half a unit away
  rcases le_total (m.toRat - toRat ⟨n, Int.log 10 m.toRat - 16⟩)
    (toRat ⟨n + 1, Int.log 10 m.toRat - 16⟩ - m.toRat) with hnear | hnear
  · refine ⟨n, Magnitude.nearest_of_abs_sub_le ?_⟩
    rw [abs_of_nonneg (by linarith)]
    linarith
  · refine ⟨n + 1, Magnitude.nearest_of_abs_sub_le ?_⟩
    rw [abs_of_nonpos (by linarith)]
    linarith

/-! ## The search -/

theorem exists_first_of_findSome?_range {α : Type} {f : ℕ → Option α} {k : ℕ} {a : α}
    (h : (List.range k).findSome? f = some a) : ∃ n < k, f n = some a ∧ ∀ i < n, f i = none := by
  induction k with
  | zero => cases h
  | succ k ih =>
    rw [List.range_succ, List.findSome?_append, Option.or_eq_some_iff] at h
    rcases h with h | ⟨hnone, h⟩
    · obtain ⟨n, hn, hfound⟩ := ih h
      exact ⟨n, Nat.lt_succ_of_lt hn, hfound⟩
    · refine ⟨k, Nat.lt_succ_self k, by simpa using h, fun i hi => ?_⟩
      exact List.findSome?_eq_none_iff.1 hnone i (List.mem_range.2 hi)

/-- The shortest decimal is the first one found. -/
theorem shortest_first {m : Magnitude} (hm : m.significand ≠ 0) :
    ∃ n : ℕ, onGrid? m (Int.log 10 m.toRat - n) = some (shortest m) ∧
      ∀ i < n, onGrid? m (Int.log 10 m.toRat - i) = none := by
  have hlog := floorLog10_eq (Magnitude.toRat_pos hm)
  obtain ⟨d, hfound⟩ : ∃ d,
      (List.range 17).findSome? (fun i : ℕ => onGrid? m (floorLog10 m.toRat - i)) = some d := by
    rw [← Option.ne_none_iff_exists', ne_eq, List.findSome?_eq_none_iff]
    intro hnone
    obtain ⟨j, hj⟩ := exists_nearest_of_seventeen hm
    refine onGrid?_ne_none hj ?_
    rw [← hlog]
    exact hnone 16 (by decide)
  obtain ⟨n, -, hn, hbefore⟩ := exists_first_of_findSome?_range hfound
  have hshortest : shortest m = d := by simp [shortest, hfound]
  rw [← hlog, hshortest]
  exact ⟨n, hn, hbefore⟩

/-! ## Fewest digits -/

def digitCount (d : Decimal) : ℕ := (Nat.toDigits 10 d.digits).length

theorem digitCount_pos (d : Decimal) : 0 < d.digitCount := Nat.length_toDigits_pos

theorem digitCount_le_iff (d : Decimal) (n : ℕ) : d.digitCount ≤ n + 1 ↔ d.digits < 10 ^ (n + 1) :=
  Nat.length_toDigits_le_iff (by norm_num) n.succ_pos

/-- The decimal reads as the magnitude, no decimal with fewer digits does, and of those with as many
that do it is the nearest. None of its digits is a zero that could be left out. -/
structure IsShortest (m : Magnitude) (d : Decimal) : Prop where
  nearest : Nearest d.toRat m
  trimmed : ¬ 10 ∣ d.digits
  fewest : ∀ e : Decimal, Nearest e.toRat m → d.digitCount ≤ e.digitCount
  closest : ∀ e : Decimal, Nearest e.toRat m → e.digitCount = d.digitCount →
    |d.toRat - m.toRat| ≤ |e.toRat - m.toRat|

theorem toRat_shift (n k : ℕ) (e : ℤ) : toRat ⟨n * 10 ^ k, e⟩ = toRat ⟨n, e + k⟩ := by
  unfold toRat
  rw [zpow_add₀ (by norm_num), zpow_natCast]
  push_cast
  ring

/-- On the grid of `n + 1` digits the magnitude has no more than that many. -/
theorem digitsBelow_lt (m : Magnitude) (n : ℕ) :
    digitsBelow m (Int.log 10 m.toRat - n) < 10 ^ (n + 1) := by
  have hbelow := toRat_below_le m (Int.log 10 m.toRat - n)
  have hlog : m.toRat < (10 : ℚ) ^ (Int.log 10 m.toRat + 1) := by
    exact_mod_cast Int.lt_zpow_succ_log_self (b := 10) (by norm_num) m.toRat
  have hpower : (10 : ℚ) ^ (Int.log 10 m.toRat + 1) =
      toRat ⟨10 ^ (n + 1), Int.log 10 m.toRat - n⟩ := by
    rw [← one_mul (10 ^ (n + 1)), toRat_shift, toRat, Nat.cast_one, one_mul]
    congr 1
    push_cast
    ring
  by_contra hge
  rw [hpower] at hlog
  have := (toRat_le_iff _ _ (Int.log 10 m.toRat - n)).2 (not_lt.1 hge)
  linarith

section

variable {m : Magnitude} (hm : m.significand ≠ 0)

include hm

theorem digits_ne_zero {d : Decimal} (h : Nearest d.toRat m) : d.digits ≠ 0 := by
  intro hzero
  rw [toRat, hzero, Nat.cast_zero, zero_mul] at h
  have hunique := h.unique (Magnitude.nearest_zero (two_zpow_pos _).le)
  exact hm (congrArg Magnitude.significand hunique)

/-- A decimal of few digits that reads as the magnitude leaves a value of the grid of that many
digits that does and is no farther from it. -/
theorem exists_on_grid {d : Decimal} (h : Nearest d.toRat m) {n : ℕ} (hn : d.digitCount ≤ n + 1) :
    ∃ j, Nearest (toRat ⟨j, Int.log 10 m.toRat - n⟩) m ∧
      |toRat ⟨j, Int.log 10 m.toRat - n⟩ - m.toRat| ≤ |d.toRat - m.toRat| := by
  rw [digitCount_le_iff] at hn
  rcases le_or_gt (Int.log 10 m.toRat - n) d.exponent with hcoarse | hfine
  · obtain ⟨k, hk⟩ := Int.eq_ofNat_of_zero_le (sub_nonneg.2 hcoarse)
    have hvalue : toRat ⟨d.digits * 10 ^ k, Int.log 10 m.toRat - n⟩ = d.toRat := by
      rw [toRat_shift]
      congr 2
      omega
    refine ⟨d.digits * 10 ^ k, ?_, ?_⟩
    · rw [hvalue]
      exact h
    · rw [hvalue]
  · -- on a finer grid it lies below the power of ten that leads the magnitude
    have hpower : toRat ⟨10 ^ n, Int.log 10 m.toRat - n⟩ = (10 : ℚ) ^ Int.log 10 m.toRat := by
      rw [← one_mul (10 ^ n), toRat_shift, toRat, Nat.cast_one, one_mul, sub_add_cancel]
    have hlead := zpow_log_le hm
    have hbelow : d.toRat ≤ (10 : ℚ) ^ Int.log 10 m.toRat := by
      calc d.toRat ≤ (10 : ℚ) ^ (n + 1 : ℤ) * (10 : ℚ) ^ d.exponent :=
            mul_le_mul_of_nonneg_right (by exact_mod_cast hn.le) (ten_zpow_pos _).le
        _ = (10 : ℚ) ^ (n + 1 + d.exponent : ℤ) := (zpow_add₀ (by norm_num) _ _).symm
        _ ≤ (10 : ℚ) ^ Int.log 10 m.toRat := zpow_le_zpow_right₀ (by norm_num) (by omega)
    rw [← hpower] at hlead hbelow
    refine ⟨10 ^ n, h.convex m.nearest_self hbelow hlead, ?_⟩
    rw [abs_of_nonpos (by linarith), abs_of_nonpos (by linarith)]
    linarith

/-- The search finds the shortest decimal, up to zeros at its end. -/
theorem exists_isShortest :
    ∃ (d : Decimal) (k : ℕ), IsShortest m d ∧
      shortest m = ⟨d.digits * 10 ^ k, d.exponent - k⟩ := by
  obtain ⟨n, hfound, hbefore⟩ := shortest_first hm
  obtain ⟨hnearest, hexponent, hdigits, hclosest⟩ := onGrid?_spec hfound
  obtain ⟨k, q, hq, hqk⟩ := Nat.exists_eq_pow_mul_and_not_dvd (digits_ne_zero hm hnearest) 10
    (by norm_num)
  rw [mul_comm] at hqk
  have hvalue : toRat ⟨q, (shortest m).exponent + k⟩ = (shortest m).toRat := by
    rw [← toRat_shift, ← hqk]
  have hcount : digitCount ⟨q, (shortest m).exponent + k⟩ ≤ n + 1 := by
    rw [digitCount_le_iff]
    have hle : q ≤ 10 ^ (n + 1) :=
      calc q ≤ q * 10 ^ k := Nat.le_mul_of_pos_right q (by positivity)
        _ ≤ 10 ^ (n + 1) := by
          rw [← hqk]
          exact hdigits.trans (digitsBelow_lt m n)
    refine lt_of_le_of_ne hle ?_
    rintro rfl
    exact hq (dvd_pow_self 10 n.succ_ne_zero)
  refine ⟨⟨q, (shortest m).exponent + k⟩, k, ⟨hvalue ▸ hnearest, hq, ?_, ?_⟩, ?_⟩
  · intro e he
    by_contra hfewer
    -- one with fewer digits would have ended the search before
    have hpos := e.digitCount_pos
    obtain ⟨j, hj, -⟩ := exists_on_grid hm he (n := n - 1) (by omega)
    exact onGrid?_ne_none hj (hbefore (n - 1) (by omega))
  · intro e he hsame
    obtain ⟨j, hj, hle⟩ := exists_on_grid hm he (hsame.trans_le hcount)
    rw [hvalue]
    exact (hclosest j hj).trans hle
  · rw [← hqk, add_sub_cancel_right]

end

end LineCalc.Decimal
