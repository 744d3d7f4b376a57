/-
Correct rounding. The magnitude that a rational rounds to is described without the steps that find
it: no magnitude is nearer, one as near is passed over for an even significand, and nothing from the
middle between the greatest magnitude and the next power of two on has one. Rounding finds just that
magnitude, and what rounds to it is an interval around it that contains all that is near enough.
-/
import LineCalc.Proofs.Binary64.Grid

namespace LineCalc

/-! ## Distances -/

theorem abs_sub_le_iff_left {x y r : ℚ} (h : x < y) : |x - r| ≤ |y - r| ↔ 2 * r ≤ x + y := by
  rw [← sq_le_sq]
  constructor
  · intro hle
    by_contra hlt
    nlinarith
  · intro hle
    nlinarith

theorem abs_sub_le_iff_right {x y r : ℚ} (h : x < y) : |y - r| ≤ |x - r| ↔ x + y ≤ 2 * r := by
  rw [← sq_le_sq]
  constructor
  · intro hle
    by_contra hlt
    nlinarith
  · intro hle
    nlinarith

theorem abs_sub_eq_iff {x y r : ℚ} (h : x < y) : |x - r| = |y - r| ↔ x + y = 2 * r := by
  rw [le_antisymm_iff, abs_sub_le_iff_left h, abs_sub_le_iff_right h, and_comm, ← le_antisymm_iff]

/-! ## Rounding to an integer -/

section RoundHalfEven

variable {r : ℚ} (hr : 0 ≤ r)

include hr

theorem roundHalfEven_spec : |(roundHalfEven r : ℚ) - r| ≤ 1 / 2 ∧
    (|(roundHalfEven r : ℚ) - r| = 1 / 2 → 2 ∣ roundHalfEven r) := by
  have hfloor : (r.floor.toNat : ℚ) = ⌊r⌋ := by
    exact_mod_cast congrArg (Int.cast : ℤ → ℚ) (Int.toNat_of_nonneg (Int.floor_nonneg.2 hr))
  have hlow : (r.floor.toNat : ℚ) ≤ r := hfloor ▸ Int.floor_le r
  have hhigh : r < r.floor.toNat + 1 := hfloor ▸ Int.lt_floor_add_one r
  unfold roundHalfEven
  dsimp only
  generalize r.floor.toNat = n at *
  split
  · rw [abs_of_nonpos (by linarith)]
    exact ⟨by linarith, fun h => by linarith⟩
  · split
    · push_cast
      rw [abs_of_nonneg (by linarith)]
      exact ⟨by linarith, fun h => by linarith⟩
    · split
      · rw [abs_of_nonpos (by linarith)]
        exact ⟨by linarith, fun _ => by omega⟩
      · push_cast
        rw [abs_of_nonneg (by linarith)]
        exact ⟨by linarith, fun _ => by omega⟩

/-- No integer is nearer, and if another is as near then this one is even. -/
theorem roundHalfEven_nearest (k : ℕ) : |(roundHalfEven r : ℚ) - r| ≤ |(k : ℚ) - r| ∧
    (|(roundHalfEven r : ℚ) - r| = |(k : ℚ) - r| → k ≠ roundHalfEven r → 2 ∣ roundHalfEven r) := by
  obtain ⟨hhalf, heven⟩ := roundHalfEven_spec hr
  by_cases hk : k = roundHalfEven r
  · exact ⟨by rw [hk], fun _ h => absurd hk h⟩
  -- two integers are at least one apart, so the other is at least a half away
  have hapart : (1 : ℚ) ≤ |(k : ℚ) - roundHalfEven r| := by
    have : (1 : ℤ) ≤ |(k : ℤ) - roundHalfEven r| := Int.one_le_abs (by omega)
    exact_mod_cast this
  have htriangle := abs_sub_le (k : ℚ) r (roundHalfEven r)
  rw [abs_sub_comm r] at htriangle
  exact ⟨by linarith, fun heq _ => heven (by linarith)⟩

end RoundHalfEven

/-! ## Neighbours on the grid -/

namespace Magnitude

theorem toRat_injective : Function.Injective toRat := by
  intro m n h
  have := nearest_toRat false m
  rw [h, nearest_toRat false n] at this
  exact (Binary64.finite.inj this).2.symm

theorem toRat_pos {m : Magnitude} (h : m.significand ≠ 0) : 0 < m.toRat :=
  m.toRat_nonneg.lt_of_ne' (by rwa [ne_eq, toRat_eq_zero_iff])

theorem significand_le (m : Magnitude) : (m.significand : ℚ) ≤ 2 ^ 53 - 1 := by
  have : (m.significand : ℚ) + 1 ≤ 2 ^ 53 := by exact_mod_cast m.significand_lt
  linarith

/-- In units of an exponent a magnitude is an integer, or it lies below what a full significand
makes of that exponent, by half a unit at least. -/
theorem natCast_or_lt_full (n : Magnitude) (e : ℤ) :
    (∃ k : ℕ, n.toRat = k * (2 : ℚ) ^ e) ∨
      -1074 < e ∧ n.toRat ≤ (2 ^ 52 - 1 / 2) * (2 : ℚ) ^ e := by
  rcases le_or_gt e n.exponent with he | he
  · obtain ⟨j, hj⟩ := Int.eq_ofNat_of_zero_le (sub_nonneg.2 he)
    refine .inl ⟨n.significand * 2 ^ j, ?_⟩
    have hexponent : n.exponent = j + e := by omega
    rw [toRat, hexponent, zpow_add₀ (by norm_num), zpow_natCast]
    push_cast
    ring
  · refine .inr ⟨n.exponent_ge.trans_lt he, ?_⟩
    calc n.toRat ≤ (2 ^ 53 - 1) * (2 : ℚ) ^ n.exponent :=
          mul_le_mul_of_nonneg_right n.significand_le (two_zpow_pos _).le
      _ ≤ (2 ^ 53 - 1) * (2 : ℚ) ^ (e - 1) :=
          mul_le_mul_of_nonneg_left (zpow_le_zpow_right₀ (by norm_num) (by omega)) (by norm_num)
      _ = (2 ^ 52 - 1 / 2) * (2 : ℚ) ^ e := by
          rw [zpow_sub₀ (by norm_num)]
          ring

theorem full_of_exponent_gt {m : Magnitude} (h : -1074 < m.exponent) :
    (2 : ℚ) ^ 52 ≤ m.significand := by
  have : Nat.pow 2 52 ≤ m.significand := m.full_or_least.resolve_right (by omega)
  exact_mod_cast this

/-- A greater magnitude is greater by a unit of the lesser one at least. -/
theorem add_unit_le {m n : Magnitude} (h : m.toRat < n.toRat) :
    m.toRat + (2 : ℚ) ^ m.exponent ≤ n.toRat := by
  have hunit := two_zpow_pos m.exponent
  rcases n.natCast_or_lt_full m.exponent with ⟨k, hk⟩ | ⟨hexponent, hlt⟩
  · rw [toRat, hk, mul_lt_mul_iff_left₀ hunit] at h
    have hk' : (m.significand : ℚ) + 1 ≤ k := by exact_mod_cast h
    rw [toRat, hk]
    nlinarith
  · -- such a magnitude is not the greater one
    have := full_of_exponent_gt hexponent
    unfold toRat at h hlt ⊢
    nlinarith

/-- Two magnitudes are more than the `10 ^ -16` part of either apart. -/
theorem toRat_lt_mul_abs_sub {m n : Magnitude} (h : n ≠ m) :
    m.toRat < 10 ^ 16 * |n.toRat - m.toRat| := by
  have hunit := two_zpow_pos m.exponent
  have hsignificand : (m.significand : ℚ) < 2 ^ 53 := by exact_mod_cast m.significand_lt
  have hlt : m.toRat < 2 ^ 53 * (2 : ℚ) ^ m.exponent := mul_lt_mul_of_pos_right hsignificand hunit
  rcases lt_trichotomy n.toRat m.toRat with hless | heq | hgreater
  · rw [abs_of_neg (by linarith)]
    rcases n.natCast_or_lt_full m.exponent with ⟨k, hk⟩ | ⟨hexponent, hfull⟩
    · rw [hk, toRat, mul_lt_mul_iff_left₀ hunit] at hless
      have hk' : (k : ℚ) + 1 ≤ m.significand := by exact_mod_cast hless
      have : n.toRat + (2 : ℚ) ^ m.exponent ≤ m.toRat := by
        rw [hk, toRat]
        nlinarith
      linarith
    · have hm := mul_le_mul_of_nonneg_right (full_of_exponent_gt hexponent) hunit.le
      change _ ≤ m.toRat at hm
      linarith
  · exact absurd (toRat_injective heq) h
  · rw [abs_of_pos (by linarith)]
    linarith [add_unit_le hgreater]

end Magnitude

/-! ## The nearest magnitude -/

namespace Magnitude

/-- The least value without a nearest magnitude: it lies halfway from the greatest magnitude to the
next power of two, and that power has the even significand of the two. -/
def limit : ℚ := (2 ^ 54 - 1) * (2 : ℚ) ^ (970 : ℤ)

/-- The magnitude is what `r` rounds to: none is nearer, and if another is as near, this one has the
even significand. -/
structure Nearest (r : ℚ) (m : Magnitude) : Prop where
  lt_limit : r < limit
  closest : ∀ n : Magnitude, |m.toRat - r| ≤ |n.toRat - r|
  even : ∀ n : Magnitude, n ≠ m → |m.toRat - r| = |n.toRat - r| → 2 ∣ m.significand

/-- At most one magnitude is nearest: of two as near as each other, one would be odd or another
would lie between them. -/
theorem Nearest.toRat_not_lt {r : ℚ} {m n : Magnitude} (hm : Nearest r m) (hn : Nearest r n) :
    ¬ m.toRat < n.toRat := by
  intro hlt
  have hne : n ≠ m := fun h => hlt.ne (h ▸ rfl)
  have htie : |m.toRat - r| = |n.toRat - r| := le_antisymm (hm.closest n) (hn.closest m)
  have hmid := (abs_sub_eq_iff hlt).1 htie
  have hevenm := hm.even n hne htie
  have hevenn := hn.even m hne.symm htie.symm
  have hroom : m.significand + 1 < Nat.pow 2 53 := by
    have := m.significand_lt
    change _ < 2 ^ 53 at this ⊢
    omega
  -- the magnitude after `m`
  let next : Magnitude := ⟨m.significand + 1, m.exponent, hroom, m.exponent_ge, m.exponent_le,
    m.full_or_least.imp_left (Nat.le_succ_of_le)⟩
  have hnext : next.toRat = m.toRat + (2 : ℚ) ^ m.exponent := by
    simp only [next, toRat]
    push_cast
    ring
  have hmnext : m.toRat < next.toRat := by
    rw [hnext]
    linarith [two_zpow_pos m.exponent]
  have hle : next.toRat ≤ n.toRat := hnext ▸ add_unit_le hlt
  rcases hle.lt_or_eq with hbetween | heq
  · have := (abs_sub_le_iff_left hmnext).1 (hm.closest next)
    linarith
  · have hsignificand : n.significand = m.significand + 1 :=
      congrArg significand (toRat_injective heq).symm
    omega

theorem Nearest.unique {r : ℚ} {m n : Magnitude} (hm : Nearest r m) (hn : Nearest r n) : m = n :=
  toRat_injective (le_antisymm (not_lt.1 (hn.toRat_not_lt hm)) (not_lt.1 (hm.toRat_not_lt hn)))

/-- What rounds to a magnitude is an interval. -/
theorem Nearest.convex {a b c : ℚ} {m : Magnitude} (ha : Nearest a m) (hb : Nearest b m)
    (hac : a ≤ c) (hcb : c ≤ b) : Nearest c m := by
  have hlow : ∀ n : Magnitude, n.toRat < m.toRat → n.toRat + m.toRat ≤ 2 * a := fun n hn =>
    (abs_sub_le_iff_right hn).1 (ha.closest n)
  have hhigh : ∀ n : Magnitude, m.toRat < n.toRat → 2 * b ≤ m.toRat + n.toRat := fun n hn =>
    (abs_sub_le_iff_left hn).1 (hb.closest n)
  refine ⟨hcb.trans_lt hb.lt_limit, fun n => ?_, fun n hne htie => ?_⟩
  · rcases lt_trichotomy n.toRat m.toRat with hn | hn | hn
    · rw [abs_sub_le_iff_right hn]
      linarith [hlow n hn]
    · rw [hn]
    · rw [abs_sub_le_iff_left hn]
      linarith [hhigh n hn]
  · -- a tie at `c` is one at the end of the interval on that side
    rcases lt_trichotomy n.toRat m.toRat with hn | hn | hn
    · have hmid := (abs_sub_eq_iff hn).1 htie.symm
      refine ha.even n hne ((abs_sub_eq_iff hn).2 ?_).symm
      linarith [hlow n hn]
    · exact absurd (toRat_injective hn) hne
    · have hmid := (abs_sub_eq_iff hn).1 htie
      refine hb.even n hne ((abs_sub_eq_iff hn).2 ?_)
      linarith [hhigh n hn]

theorem toRat_le_max (m : Magnitude) : m.toRat ≤ (2 ^ 54 - 2) * (2 : ℚ) ^ (970 : ℤ) := by
  calc m.toRat ≤ (2 ^ 53 - 1) * (2 : ℚ) ^ m.exponent :=
        mul_le_mul_of_nonneg_right m.significand_le (two_zpow_pos _).le
    _ ≤ (2 ^ 53 - 1) * (2 : ℚ) ^ (970 + 1 : ℤ) :=
        mul_le_mul_of_nonneg_left (zpow_le_zpow_right₀ (by norm_num) m.exponent_le) (by norm_num)
    _ = (2 ^ 54 - 2) * (2 : ℚ) ^ (970 : ℤ) := by
        rw [zpow_add_one₀ (by norm_num)]
        ring

/-- What does not exceed half of the least positive magnitude rounds to zero. -/
theorem nearest_zero {r : ℚ} (h : r ≤ (2 : ℚ) ^ (-1075 : ℤ)) : Nearest r zero := by
  refine ⟨h.trans_lt ?_, fun n => ?_, fun _ _ _ => dvd_zero 2⟩
  · have hunit : (2 : ℚ) ^ (-1075 : ℤ) ≤ (2 : ℚ) ^ (970 : ℤ) :=
      zpow_le_zpow_right₀ (by norm_num) (by norm_num)
    have hpos := two_zpow_pos 970
    unfold limit
    generalize (2 : ℚ) ^ (970 : ℤ) = unit at *
    linarith
  · rcases n.toRat_nonneg.lt_or_eq with hn | hn
    · rw [← toRat_zero] at hn
      have hunit := add_unit_le hn
      have hdouble : (2 : ℚ) ^ zero.exponent = 2 * (2 : ℚ) ^ (-1075 : ℤ) := by
        rw [← zpow_one_add₀ (by norm_num)]
        rfl
      rw [hdouble, toRat_zero] at hunit
      rw [abs_sub_le_iff_left hn, toRat_zero]
      linarith
    · rw [← hn, toRat_zero]

/-- A value rounds to a magnitude that it is near enough to: within half of its `10 ^ -16` part. -/
theorem nearest_of_abs_sub_le {r : ℚ} {m : Magnitude}
    (h : 2 * 10 ^ 16 * |m.toRat - r| ≤ m.toRat) : Nearest r m := by
  have hcloser : ∀ n : Magnitude, n ≠ m → |m.toRat - r| < |n.toRat - r| := by
    intro n hne
    have hapart := toRat_lt_mul_abs_sub hne
    have htriangle := abs_sub_le n.toRat r m.toRat
    rw [abs_sub_comm r] at htriangle
    linarith
  refine ⟨?_, fun n => ?_, fun n hne htie => absurd htie (hcloser n hne).ne⟩
  · have hmax := m.toRat_le_max
    have hpos := two_zpow_pos 970
    have hr := neg_abs_le (m.toRat - r)
    unfold limit
    generalize (2 : ℚ) ^ (970 : ℤ) = unit at *
    linarith
  · by_cases hne : n = m
    · rw [hne]
    · exact (hcloser n hne).le

theorem nearest_self (m : Magnitude) : Nearest m.toRat m :=
  nearest_of_abs_sub_le (by simpa using m.toRat_nonneg)

end Magnitude

/-! ## Rounding finds the nearest magnitude -/

namespace Binary64

/-- The exponent that rounding picks for `r`. -/
def roundingExponent (r : ℚ) : ℤ := max (floorLog2 r - 52) (-1074)

/-- The value in units of that exponent. -/
def scaled (r : ℚ) : ℚ := r / (2 : ℚ) ^ roundingExponent r

theorem scaled_mul (r : ℚ) : scaled r * (2 : ℚ) ^ roundingExponent r = r :=
  div_mul_cancel₀ r (two_zpow_pos _).ne'

theorem abs_mul_unit_sub (k r : ℚ) : |k * (2 : ℚ) ^ roundingExponent r - r| =
    |k - scaled r| * (2 : ℚ) ^ roundingExponent r := by
  calc |k * (2 : ℚ) ^ roundingExponent r - r|
      = |(k - scaled r) * (2 : ℚ) ^ roundingExponent r| := by
        rw [sub_mul, scaled_mul]
    _ = |k - scaled r| * (2 : ℚ) ^ roundingExponent r := by
        rw [abs_mul, abs_of_pos (two_zpow_pos _)]

/-- A rounded significand has a number unless it is out of range; a carry keeps value and parity. -/
theorem ofRounded_cases (negative : Bool) {n : ℕ} {e : ℤ} (hn : n ≤ 2 ^ 53) (he : -1074 ≤ e)
    (hfull : -1074 < e → 2 ^ 52 ≤ n) :
    (∃ m : Magnitude, ofRounded negative n e = finite negative m ∧ m.toRat = n * (2 : ℚ) ^ e ∧
        (2 ∣ n → 2 ∣ m.significand) ∧ (e < 971 ∨ e = 971 ∧ n < 2 ^ 53)) ∨
      ofRounded negative n e = infinity negative ∧ (971 < e ∨ e = 971 ∧ n = 2 ^ 53) := by
  unfold ofRounded Magnitude.ofParts?
  change n ≤ Nat.pow 2 53 at hn
  by_cases hcarry : n = Nat.pow 2 53
  · simp only [hcarry, if_true]
    by_cases hmax : e + 1 ≤ 971
    · rw [dif_pos ⟨by decide, by omega, hmax, .inl le_rfl⟩]
      refine .inl ⟨_, rfl, ?_, fun _ => ⟨2 ^ 51, rfl⟩, .inl (by omega)⟩
      rw [Magnitude.toRat, zpow_add_one₀ (by norm_num)]
      norm_num
      ring
    · rw [dif_neg (by omega)]
      refine .inr ⟨rfl, ?_⟩
      rcases lt_or_eq_of_le (show 971 ≤ e by omega) with h | h
      · exact .inl h
      · exact .inr ⟨h.symm, rfl⟩
  · simp only [hcarry, if_false]
    have hlt : n < Nat.pow 2 53 := lt_of_le_of_ne hn hcarry
    by_cases hmax : e ≤ 971
    · have hleast : Nat.pow 2 52 ≤ n ∨ e = -1074 := by
        rcases he.lt_or_eq with h | h
        · exact .inl (hfull h)
        · exact .inr h.symm
      rw [dif_pos ⟨hlt, he, hmax, hleast⟩]
      refine .inl ⟨_, rfl, rfl, id, ?_⟩
      rcases hmax.lt_or_eq with h | h
      · exact .inl h
      · exact .inr ⟨h, hlt⟩
    · rw [dif_neg (by omega)]
      exact .inr ⟨rfl, .inl (by omega)⟩

section

variable {r : ℚ} (hr : 0 < r)

include hr

theorem nearest_eq_ofRounded (negative : Bool) :
    nearest negative r = ofRounded negative (roundHalfEven (scaled r)) (roundingExponent r) :=
  if_neg (not_le.2 hr)

theorem scaled_nonneg : 0 ≤ scaled r := (div_pos hr (two_zpow_pos _)).le

theorem scaled_lt : scaled r < 2 ^ 53 := by
  have hlog := Int.lt_zpow_succ_log_self (b := 2) (by norm_num) r
  rw [scaled, div_lt_iff₀ (two_zpow_pos _), ← zpow_natCast, ← zpow_add₀ (by norm_num)]
  refine hlog.trans_le (zpow_le_zpow_right₀ (by norm_num) ?_)
  rw [roundingExponent, floorLog2_eq hr]
  omega

theorem le_scaled (h : -1074 < roundingExponent r) : 2 ^ 52 ≤ scaled r := by
  have hlog := Int.zpow_log_le_self (b := 2) (by norm_num) hr
  rw [scaled, le_div_iff₀ (two_zpow_pos _), ← zpow_natCast, ← zpow_add₀ (by norm_num)]
  refine (zpow_le_zpow_right₀ (by norm_num) ?_).trans hlog
  rw [roundingExponent, floorLog2_eq hr] at h ⊢
  omega

theorem rounded_le : roundHalfEven (scaled r) ≤ 2 ^ 53 := by
  have hlt := scaled_lt hr
  have hnear := abs_le.1 (roundHalfEven_spec (scaled_nonneg hr)).1
  have : (roundHalfEven (scaled r) : ℚ) < (2 ^ 53 + 1 : ℕ) := by
    push_cast
    linarith
  exact Nat.lt_succ_iff.1 (by exact_mod_cast this)

theorem le_rounded (h : -1074 < roundingExponent r) : 2 ^ 52 ≤ roundHalfEven (scaled r) := by
  have hle := le_scaled hr h
  have hnear := abs_le.1 (roundHalfEven_spec (scaled_nonneg hr)).1
  have : ((2 ^ 52 : ℕ) : ℚ) < (roundHalfEven (scaled r) + 1 : ℕ) := by
    push_cast
    linarith
  exact Nat.lt_succ_iff.1 (by exact_mod_cast this)

/-- The rounded significand in its units is as near to `r` as any magnitude, and even if another one
is as near. -/
theorem rounded_nearest (n : Magnitude) :
    let value := roundHalfEven (scaled r) * (2 : ℚ) ^ roundingExponent r
    |value - r| ≤ |n.toRat - r| ∧
      (n.toRat ≠ value → |value - r| = |n.toRat - r| → 2 ∣ roundHalfEven (scaled r)) := by
  intro value
  have hunit := two_zpow_pos (roundingExponent r)
  have hbest := roundHalfEven_nearest (scaled_nonneg hr)
  rcases n.natCast_or_lt_full (roundingExponent r) with ⟨k, hk⟩ | ⟨hexponent, hlt⟩
  · obtain ⟨hle, heven⟩ := hbest k
    rw [hk, abs_mul_unit_sub, abs_mul_unit_sub]
    refine ⟨mul_le_mul_of_nonneg_right hle hunit.le, fun hne htie => ?_⟩
    refine heven (mul_right_cancel₀ hunit.ne' htie) ?_
    rintro rfl
    exact hne rfl
  · -- the least value of the binade of `r` is nearer than what lies below the binade
    have hcloser : |value - r| < |n.toRat - r| := by
      have hbinade := mul_le_mul_of_nonneg_right (hbest (2 ^ 52)).1 hunit.le
      have hfull := mul_le_mul_of_nonneg_right (le_scaled hr hexponent) hunit.le
      rw [← abs_mul_unit_sub, ← abs_mul_unit_sub, Nat.cast_pow, Nat.cast_ofNat] at hbinade
      rw [scaled_mul] at hfull
      rw [abs_of_nonpos (a := 2 ^ 52 * (2 : ℚ) ^ roundingExponent r - r) (by linarith)] at hbinade
      rw [abs_of_neg (a := n.toRat - r) (by linarith)]
      linarith
    exact ⟨hcloser.le, fun _ htie => absurd htie hcloser.ne⟩

/-- Where the rounded significand has a number, `r` is below the limit. -/
theorem lt_limit_of_rounded (h : roundingExponent r < 971 ∨
    roundingExponent r = 971 ∧ roundHalfEven (scaled r) < 2 ^ 53) : r < Magnitude.limit := by
  have hlt := scaled_lt hr
  have hpos := two_zpow_pos 970
  have hr' := scaled_mul r
  unfold Magnitude.limit
  rcases h with hexponent | ⟨hexponent, hrounded⟩
  · have hunit : (2 : ℚ) ^ roundingExponent r ≤ 2 ^ (970 : ℤ) :=
      zpow_le_zpow_right₀ (by norm_num) (by omega)
    have := mul_lt_mul_of_pos_right hlt (two_zpow_pos (roundingExponent r))
    generalize (2 : ℚ) ^ (970 : ℤ) = unit at *
    linarith
  · obtain ⟨hnear, heven⟩ := roundHalfEven_spec (scaled_nonneg hr)
    rw [abs_le] at hnear
    have hrounded' : (roundHalfEven (scaled r) : ℚ) ≤ 2 ^ 53 - 1 := by
      have : (roundHalfEven (scaled r) : ℚ) + 1 ≤ 2 ^ 53 := by exact_mod_cast hrounded
      linarith
    -- at the limit itself the significand would be even
    have hscaled : scaled r < 2 ^ 53 - 1 / 2 := by
      refine lt_of_le_of_ne (by linarith) fun heq => ?_
      have hodd : (roundHalfEven (scaled r) : ℚ) = (2 ^ 53 - 1 : ℕ) := by
        push_cast
        linarith
      have hdvd := heven (by rw [hodd, heq]; norm_num)
      rw [Nat.cast_injective hodd] at hdvd
      omega
    rw [hexponent, show (971 : ℤ) = 970 + 1 by norm_num, zpow_add_one₀ (by norm_num)] at hr'
    generalize (2 : ℚ) ^ (970 : ℤ) = unit at *
    nlinarith

/-- Where it has none, `r` has reached the limit. -/
theorem limit_le_of_rounded (h : 971 < roundingExponent r ∨
    roundingExponent r = 971 ∧ roundHalfEven (scaled r) = 2 ^ 53) : Magnitude.limit ≤ r := by
  have hpos := two_zpow_pos 970
  have hr' := scaled_mul r
  unfold Magnitude.limit
  rcases h with hexponent | ⟨hexponent, hrounded⟩
  · have hunit : (2 : ℚ) ^ (970 + 2 : ℤ) ≤ (2 : ℚ) ^ roundingExponent r :=
      zpow_le_zpow_right₀ (by norm_num) (by omega)
    have := mul_le_mul_of_nonneg_right (le_scaled hr (by omega))
      (two_zpow_pos (roundingExponent r)).le
    rw [zpow_add₀ (by norm_num)] at hunit
    generalize (2 : ℚ) ^ (970 : ℤ) = unit at *
    linarith
  · have hnear := abs_le.1 (roundHalfEven_spec (scaled_nonneg hr)).1
    rw [hrounded] at hnear
    have hscaled : 2 ^ 53 - 1 / 2 ≤ scaled r := by
      push_cast at hnear
      linarith
    rw [hexponent, show (971 : ℤ) = 970 + 1 by norm_num, zpow_add_one₀ (by norm_num)] at hr'
    generalize (2 : ℚ) ^ (970 : ℤ) = unit at *
    nlinarith

end

/-- Rounding gives the nearest magnitude below the limit, and infinity from the limit on. -/
theorem nearest_cases (negative : Bool) {r : ℚ} (hr : 0 ≤ r) :
    (∃ m, nearest negative r = finite negative m ∧ Magnitude.Nearest r m) ∨
      nearest negative r = infinity negative ∧ Magnitude.limit ≤ r := by
  rcases hr.lt_or_eq with hr | rfl
  · rw [nearest_eq_ofRounded hr]
    rcases ofRounded_cases negative (rounded_le hr) (le_max_right _ _) (le_rounded hr) with
      ⟨m, hm, hvalue, heven, hrange⟩ | ⟨hinfinity, hrange⟩
    · refine .inl ⟨m, hm, lt_limit_of_rounded hr hrange, fun n => ?_, fun n hne htie => ?_⟩
      · rw [hvalue]
        exact (rounded_nearest hr n).1
      · rw [hvalue] at htie
        refine heven ((rounded_nearest hr n).2 (fun h => hne ?_) htie)
        exact Magnitude.toRat_injective (h.trans hvalue.symm)
    · exact .inr ⟨hinfinity, limit_le_of_rounded hr hrange⟩
  · exact .inl ⟨.zero, if_pos le_rfl, Magnitude.nearest_zero (two_zpow_pos _).le⟩

/-- Rounding is correct. -/
theorem nearest_eq_finite_iff (negative : Bool) {r : ℚ} (hr : 0 ≤ r) (m : Magnitude) :
    nearest negative r = finite negative m ↔ Magnitude.Nearest r m := by
  rcases nearest_cases negative hr with ⟨n, hn, hnearest⟩ | ⟨hinfinity, hlimit⟩
  · rw [hn, finite.injEq]
    constructor
    · rintro ⟨-, rfl⟩
      exact hnearest
    · intro hm
      exact ⟨rfl, hnearest.unique hm⟩
  · rw [hinfinity]
    constructor
    · intro h
      cases h
    · intro hm
      exact absurd hm.lt_limit (not_lt.2 hlimit)

theorem nearest_eq_infinity (negative : Bool) {r : ℚ} (h : Magnitude.limit ≤ r) :
    nearest negative r = infinity negative := by
  have hr : 0 ≤ r := (mul_pos (by norm_num) (two_zpow_pos _)).le.trans h
  rcases nearest_cases negative hr with ⟨m, -, hm⟩ | ⟨hinfinity, -⟩
  · exact absurd hm.lt_limit (not_lt.2 h)
  · exact hinfinity

end Binary64

end LineCalc
