/-
Integers up to `2 ^ 53` in decimal: a literal that is one is read exactly, and the shortest decimal
of one is exact, although shortness alone would let it differ.
-/
import LineCalc.Decimal.Shortest
import LineCalc.Proofs.Binary64.Exact
import LineCalc.Proofs.Decimal.Literal
import LineCalc.Proofs.Token.Patterns

namespace LineCalc

/-! ## Decimals on the grid -/

namespace Decimal

theorem toRat?_toBinary64 {d : Decimal} (hd : 0 ≤ d.exponent) (hd' : d.exponent ≤ 400)
    (h : OnGrid d.toRat) (negative : Bool) :
    (d.toBinary64 negative).toRat? = some (if negative then -d.toRat else d.toRat) := by
  unfold toBinary64
  by_cases hzero : d.digits = 0
  · have hvalue : d.toRat = 0 := by simp [toRat, hzero]
    rw [if_pos hzero, hvalue, Binary64.zero, Binary64.toRat?_finite, Magnitude.toRat_zero]
  · rw [if_neg hzero, if_neg (by omega), if_neg (by omega)]
    exact Binary64.toRat?_nearest negative h

/-- A decimal on the grid reads as the magnitude that it equals, and as no other. -/
theorem readsAs_iff {d : Decimal} (hd : 0 ≤ d.exponent) (hd' : d.exponent ≤ 400)
    (h : OnGrid d.toRat) (m : Magnitude) : d.readsAs m = true ↔ d.toRat = m.toRat := by
  have hvalue := toRat?_toBinary64 hd hd' h false
  unfold readsAs
  rw [decide_eq_true_eq]
  constructor
  · intro hreads
    rw [hreads, Binary64.toRat?_finite] at hvalue
    simpa using hvalue.symm
  · intro heq
    unfold toBinary64
    by_cases hzero : d.digits = 0
    · have hm : m.toRat = 0 := by rw [← heq]; simp [toRat, hzero]
      rw [if_pos hzero, Magnitude.eq_zero_of_significand (m.toRat_eq_zero_iff.1 hm)]
      rfl
    · rw [if_neg hzero, if_neg (by omega), if_neg (by omega), heq, nearest_toRat]

end Decimal

/-! ## Literals -/

/-- The integer that the text of a literal stands for. -/
def integerValue (text : String) : ℤ :=
  match text.toList with
  | '-' :: cs => -(Nat.ofDigitChars 10 cs 0 : ℕ)
  | cs => (Nat.ofDigitChars 10 cs 0 : ℕ)

namespace Literal

/-- An integer text is read as its digits with its sign. -/
theorem ofString?_eq_decimal {text : String} {negative : Bool} {digits : List Char}
    (htext : text.toList = (if negative then ['-'] else []) ++ digits) (hne : digits ≠ [])
    (h : ∀ c ∈ digits, c.isDigit = true) :
    ofString? text = some (.decimal negative ⟨Nat.ofDigitChars 10 digits 0, 0⟩) := by
  have htext' : text.toList =
      (if negative then ['-'] else []) ++ (digits ++ (pointed [] ++ [])) := by
    simpa [pointed] using htext
  rw [ofString?_pointed hne h (by simp) (by simp) htext']
  simp [exponent?]

end Literal

theorem integerValue_eq {text : String} {negative : Bool} {digits : List Char}
    (htext : text.toList = (if negative then ['-'] else []) ++ digits)
    (h : ∀ c ∈ digits, c.isDigit = true) :
    integerValue text =
      if negative then -(Nat.ofDigitChars 10 digits 0 : ℤ) else Nat.ofDigitChars 10 digits 0 := by
  unfold integerValue
  rw [htext]
  cases negative with
  | true => rfl
  | false =>
    simp only [Bool.false_eq_true, if_false, List.nil_append]
    split
    · exact absurd (h '-' List.mem_cons_self) (by decide)
    · rfl

/-- An integer literal up to `2 ^ 53` is read exactly. -/
theorem exists_literal_of_isIntegerText {text : String} (h : isIntegerText text = true) :
    ∃ value, Literal.ofString? text = some value ∧
      (|integerValue text| ≤ 2 ^ 53 → value.toBinary64.toRat? = some (integerValue text : ℚ)) := by
  obtain ⟨negative, digits, htext, hne, hdigits⟩ := exists_digits_of_isIntegerText h
  refine ⟨_, Literal.ofString?_eq_decimal htext hne hdigits, ?_⟩
  rw [integerValue_eq htext hdigits]
  generalize Nat.ofDigitChars 10 digits 0 = n
  intro hle
  have hn : n ≤ 2 ^ 53 := by
    cases negative <;> simp at hle <;> exact_mod_cast hle
  have hvalue : Decimal.toRat ⟨n, 0⟩ = n := by simp [Decimal.toRat]
  have hgrid : OnGrid (Decimal.toRat ⟨n, 0⟩) := by
    rw [hvalue]
    exact onGrid_natCast hn
  have := Decimal.toRat?_toBinary64 le_rfl (by simp) hgrid negative
  rw [hvalue] at this
  show (Decimal.toBinary64 negative ⟨n, 0⟩).toRat? = _
  rw [this]
  cases negative <;> simp

/-! ## The shortest decimal -/

/-- Above `2 ^ 53` the even integers go on being on the grid up to the next power of two. -/
theorem onGrid_of_even {n : ℕ} (heven : 2 ∣ n) (hn : n < 2 ^ 54) : OnGrid n := by
  obtain ⟨k, rfl⟩ := heven
  rw [onGrid_natCast_iff]
  exact ⟨k, 1, by omega, by omega, by rw [pow_one, mul_comm]⟩

namespace Decimal

/-- The number of digits gives the power of ten of the first one. -/
theorem toDigits_bracket {n : ℕ} (hn : n ≠ 0) :
    10 ^ ((Nat.toDigits 10 n).length - 1) ≤ n ∧ n < 10 ^ ((Nat.toDigits 10 n).length - 1 + 1) := by
  have hpos : 0 < (Nat.toDigits 10 n).length := Nat.length_toDigits_pos
  constructor
  · by_contra hlt
    rcases Nat.eq_zero_or_pos ((Nat.toDigits 10 n).length - 1) with hzero | hone
    · rw [hzero, pow_zero] at hlt
      omega
    · have := (Nat.length_toDigits_le_iff (by norm_num) hone).2 (not_le.1 hlt)
      omega
  · rw [Nat.sub_add_cancel hpos]
    exact (Nat.length_toDigits_le_iff (by norm_num) hpos).1 le_rfl

theorem floorLog10_eq {r : ℚ} (hr : 0 < r) : floorLog10 r = Int.log 10 r :=
  floorLog_eq (by norm_num) (fun _ hn => toDigits_bracket hn) hr

/-- What is found on a grid reads as the magnitude and is one of its two neighbours there. -/
theorem onGrid?_eq_some {m : Magnitude} {e : ℤ} {d : Decimal} (h : onGrid? m e = some d) :
    d.readsAs m = true ∧ d.exponent = e ∧
      d.digits ≤ ⌊m.toRat / (10 : ℚ) ^ e⌋.toNat + 1 := by
  simp only [onGrid?, Bool.and_eq_true] at h
  split at h
  · rename_i hbelow
    obtain rfl := Option.some.inj h
    exact ⟨hbelow.1, rfl, Nat.le_succ _⟩
  · split at h
    · rename_i habove
      obtain rfl := Option.some.inj h
      exact ⟨habove, rfl, le_rfl⟩
    · cases h

section Integers

variable {m : Magnitude} {n : ℕ} (hm : m.toRat = n) (hn : n ≤ 2 ^ 53)

include hm hn

/-- On a grid of tens or more both neighbours are exact, so the one that reads as an integer up to
`2 ^ 53` is that integer. -/
theorem digits_mul_pow_of_onGrid? {k : ℕ} (hk : k ≠ 0) (hk' : k ≤ 15) {d : Decimal}
    (h : onGrid? m k = some d) : d.digits * 10 ^ k = n := by
  obtain ⟨hreads, hexponent, hdigits⟩ := onGrid?_eq_some h
  have hvalue : d.toRat = (d.digits * 10 ^ k : ℕ) := by
    rw [toRat, hexponent, zpow_natCast]
    push_cast
    rfl
  have hfloor : ⌊m.toRat / (10 : ℚ) ^ (k : ℤ)⌋.toNat = n / 10 ^ k := by
    rw [hm, zpow_natCast, ← Nat.cast_ofNat, ← Nat.cast_pow, Rat.floor_natCast_div_natCast,
      ← Int.natCast_ediv, Int.toNat_natCast]
  have hbound : d.digits * 10 ^ k < 2 ^ 54 := by
    have hpow : 10 ^ k ≤ 10 ^ 15 := Nat.pow_le_pow_right (by norm_num) hk'
    calc d.digits * 10 ^ k ≤ (n / 10 ^ k + 1) * 10 ^ k := by
          rw [hfloor] at hdigits
          exact Nat.mul_le_mul_right _ hdigits
      _ = n / 10 ^ k * 10 ^ k + 10 ^ k := by ring
      _ ≤ n + 10 ^ 15 := Nat.add_le_add (Nat.div_mul_le_self n _) hpow
      _ < 2 ^ 54 := by omega
  have heven : 2 ∣ d.digits * 10 ^ k :=
    Dvd.dvd.mul_left (dvd_pow (by decide : 2 ∣ 10) hk) _
  have hgrid : OnGrid d.toRat := by
    rw [hvalue]
    exact onGrid_of_even heven hbound
  have heq := (readsAs_iff (by omega) (by omega) hgrid m).1 hreads
  rw [hvalue, hm] at heq
  exact_mod_cast heq

/-- On the grid of ones the integer itself is found. -/
theorem onGrid?_zero : onGrid? m 0 = some ⟨n, 0⟩ := by
  have hfloor : (m.toRat / (10 : ℚ) ^ (0 : ℤ)).floor.toNat = n := by
    show ⌊m.toRat / (10 : ℚ) ^ (0 : ℤ)⌋.toNat = n
    rw [hm, zpow_zero, div_one, Int.floor_natCast, Int.toNat_natCast]
  have hvalue : ∀ k : ℕ, toRat ⟨k, 0⟩ = k := fun k => by simp [toRat]
  have hreads : readsAs ⟨n, 0⟩ m = true := by
    rw [readsAs_iff le_rfl (by simp) (by rw [hvalue]; exact onGrid_natCast hn), hvalue, hm]
  have hnear : m.toRat - toRat ⟨n, 0⟩ < toRat ⟨n + 1, 0⟩ - m.toRat := by
    rw [hvalue, hvalue, hm]
    push_cast
    linarith
  simp only [onGrid?, hfloor, hreads, hnear, decide_true, Bool.or_true, Bool.and_self, if_true]

/-- The shortest decimal of an integer up to `2 ^ 53` is exact. -/
theorem shortest_eq (hpos : 0 < n) :
    ∃ q k : ℕ, shortest m = ⟨q, k⟩ ∧ q * 10 ^ k = n := by
  have hlog : floorLog10 m.toRat = (Nat.log 10 n : ℤ) := by
    rw [floorLog10_eq (by rw [hm]; exact_mod_cast hpos), hm, Int.log_natCast]
  have hle : Nat.log 10 n < 16 := Nat.log_lt_of_lt_pow hpos.ne' (by omega)
  have hones : onGrid? m (floorLog10 m.toRat - (Nat.log 10 n : ℕ)) = some ⟨n, 0⟩ := by
    rw [hlog, sub_self]
    exact onGrid?_zero hm hn
  -- the search ends on the grid of ones at the latest
  obtain ⟨d, hfound⟩ : ∃ d,
      (List.range 17).findSome? (fun i : ℕ => onGrid? m (floorLog10 m.toRat - i)) = some d := by
    rw [← Option.ne_none_iff_exists', ne_eq, List.findSome?_eq_none_iff]
    intro hnone
    have := hnone (Nat.log 10 n) (List.mem_range.2 (by omega))
    rw [hones] at this
    cases this
  have hshortest : shortest m = d := by simp [shortest, hfound]
  obtain ⟨before, i, after, hrange, hi, hbefore⟩ := List.findSome?_eq_some_iff.1 hfound
  have hsorted : (before ++ i :: after).Pairwise (· < ·) := hrange ▸ List.pairwise_lt_range
  have hafter := (List.pairwise_cons.1 (List.pairwise_append.1 hsorted).2.1).1
  have hile : i ≤ Nat.log 10 n := by
    have hmem : Nat.log 10 n ∈ before ++ i :: after := hrange ▸ List.mem_range.2 (by omega)
    rcases List.mem_append.1 hmem with hmem | hmem
    · have := hbefore _ hmem
      rw [hones] at this
      cases this
    · rcases List.mem_cons.1 hmem with heq | hmem
      · exact heq.ge
      · exact (hafter _ hmem).le
  obtain ⟨k, hk⟩ : ∃ k, Nat.log 10 n = i + k := Nat.exists_eq_add_of_le hile
  have hexponent : floorLog10 m.toRat - i = k := by rw [hlog]; omega
  rw [hexponent] at hi
  rw [hshortest]
  by_cases hzero : k = 0
  · subst hzero
    rw [Nat.cast_zero, onGrid?_zero hm hn] at hi
    exact ⟨n, 0, (Option.some.inj hi).symm, by rw [pow_zero, mul_one]⟩
  · refine ⟨d.digits, k, ?_, digits_mul_pow_of_onGrid? hm hn hzero (by omega) hi⟩
    rw [← (onGrid?_eq_some hi).2.1]

end Integers

end Decimal

end LineCalc
