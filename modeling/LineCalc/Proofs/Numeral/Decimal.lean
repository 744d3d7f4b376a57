/-
Decimal numerals. The numeral of a number is the shortest decimal that reads back as it, written in
positional notation if its first digit stands for a power of ten from -6 to 20, and with an exponent
otherwise. Both ways of writing are read back as the decimal that was written.
-/
import LineCalc.Proofs.Decimal.Shortest
import LineCalc.Proofs.Numeral.Integer

namespace LineCalc.Numeral

/-! ## Layout -/

/-- How a decimal whose first digit stands for `10 ^ k` is written: in positional notation, without
a zero too many, or as its digits with a point after the first and an exponent. -/
inductive Writes (negative : Bool) (d : Decimal) (k : ℤ) : List Char → Prop where
  | positional {whole fraction : List Char} : -6 ≤ k → k < 21 →
      IsExpansion 10 d.toRat whole fraction →
      textValue 10 (spell negative whole fraction) = (if negative then -d.toRat else d.toRat) →
      Writes negative d k (spell negative whole fraction)
  | small {first : Char} {rest : List Char} : k < -6 → Nat.toDigits 10 d.digits = first :: rest →
      Writes negative d k (spell negative [first] rest ++ 'e' :: '-' :: Nat.toDigits 10 k.natAbs)
  | large {first : Char} {rest : List Char} : 21 ≤ k → Nat.toDigits 10 d.digits = first :: rest →
      Writes negative d k (spell negative [first] rest ++ 'e' :: '+' :: Nat.toDigits 10 k.natAbs)

/-! ## Digits -/

theorem getLast?_toDigits (n : ℕ) : (Nat.toDigits 10 n).getLast? = some (n % 10).digitChar := by
  by_cases hn : n < 10
  · rw [Nat.toDigits_of_lt_base hn, Nat.mod_eq_of_lt hn, List.getLast?_singleton]
  · rw [Nat.toDigits_of_base_le (by norm_num) (by omega), List.getLast?_concat]

theorem getLast?_toDigits_ne {n : ℕ} (h : ¬ 10 ∣ n) : (Nat.toDigits 10 n).getLast? ≠ some '0' := by
  rw [getLast?_toDigits, ne_eq, Option.some.injEq, digitChar_eq_zero_iff (by omega)]
  omega

theorem isDigit_of_mem {c : Char} (h : c ∈ digitChars.take 10) : c.isDigit = true := by
  have hall : (digitChars.take 10).all Char.isDigit = true := by decide
  exact List.all_eq_true.1 hall c h

theorem digitValue_eq {c : Char} (h : c ∈ digitChars.take 10) :
    digitValue c = c.toNat - '0'.toNat := by
  have hall : (digitChars.take 10).all (fun c => digitValue c = c.toNat - '0'.toNat) = true := by
    decide
  simpa using List.all_eq_true.1 hall c h

/-- Digits before the point, read in either of two ways. -/
theorem wholeValue_eq {cs : List Char} (h : ∀ c ∈ cs, c ∈ digitChars.take 10) :
    wholeValue 10 cs = Nat.ofDigitChars 10 cs 0 := by
  induction cs using List.reverseRecOn with
  | nil => rfl
  | append_singleton cs c ih =>
    have hrest := ih fun d hd => h d (List.mem_append_left _ hd)
    unfold wholeValue at hrest ⊢
    rw [List.reverse_concat, List.map_cons, Nat.ofDigits_cons, hrest, Nat.ofDigitChars_append,
      Nat.ofDigitChars_cons, Nat.ofDigitChars_nil, digitValue_eq (h c (by simp)), Nat.add_comm]

theorem fractionValue_eq {cs : List Char} (h : ∀ c ∈ cs, c ∈ digitChars.take 10) :
    fractionValue 10 cs = Nat.ofDigitChars 10 cs 0 / 10 ^ cs.length := by
  unfold fractionValue
  induction cs with
  | nil => simp [Nat.ofDigits]
  | cons c cs ih =>
    have hrest := ih fun d hd => h d (List.mem_cons_of_mem c hd)
    have hvalue : Nat.ofDigitChars 10 (c :: cs) 0 =
        10 ^ cs.length * digitValue c + Nat.ofDigitChars 10 cs 0 := by
      rw [Nat.ofDigitChars_cons, Nat.mul_zero, Nat.zero_add, digitValue_eq (h c List.mem_cons_self)]
      exact Nat.ofDigitChars_eq_ofDigitChars_zero
    show ((digitValue c : ℚ) + ((10 : ℕ) : ℚ)⁻¹ *
      Nat.ofDigits ((10 : ℕ) : ℚ)⁻¹ (cs.map digitValue)) / (10 : ℕ) = _
    rw [inv_mul_eq_div, hrest, hvalue, List.length_cons, pow_succ]
    push_cast
    field_simp

/-- The digits on both sides of a point, read as one numeral. -/
theorem wholeValue_add_fractionValue {whole fraction : List Char}
    (h : ∀ c ∈ whole ++ fraction, c ∈ digitChars.take 10) :
    wholeValue 10 whole + fractionValue 10 fraction =
      Decimal.toRat ⟨Nat.ofDigitChars 10 (whole ++ fraction) 0, -fraction.length⟩ := by
  have hsplit : Nat.ofDigitChars 10 (whole ++ fraction) 0 =
      10 ^ fraction.length * Nat.ofDigitChars 10 whole 0 + Nat.ofDigitChars 10 fraction 0 := by
    rw [Nat.ofDigitChars_append]
    exact Nat.ofDigitChars_eq_ofDigitChars_zero
  rw [wholeValue_eq fun c hc => h c (List.mem_append_left _ hc),
    fractionValue_eq fun c hc => h c (List.mem_append_right _ hc), hsplit, Decimal.toRat, zpow_neg,
    zpow_natCast]
  push_cast
  field_simp

/-! ## Zeros at the end -/

section Trimmed

variable {d : Decimal} (hd : ¬ 10 ∣ d.digits)

include hd

theorem digits_ne_zero_of_trimmed : d.digits ≠ 0 := fun h => hd (h ▸ dvd_zero 10)

theorem significantDigits_shift (k : ℕ) (e : ℤ) :
    significantDigits ⟨d.digits * 10 ^ k, e⟩ = Nat.toDigits 10 d.digits := by
  have hzeros : ∀ c ∈ List.replicate k '0', decide (c = '0') = true := by
    intro c hc
    simpa using List.eq_of_mem_replicate hc
  have hlast := getLast?_toDigits_ne hd
  unfold significantDigits
  rw [toDigits_mul_pow (Nat.pos_of_ne_zero (digits_ne_zero_of_trimmed hd)), List.reverse_append,
    List.reverse_replicate, List.dropWhile_append_of_pos hzeros, List.reverse_eq_iff]
  rw [← List.head?_reverse] at hlast
  cases hreverse : (Nat.toDigits 10 d.digits).reverse with
  | nil => rfl
  | cons c cs =>
    rw [hreverse, List.head?_cons, ne_eq, Option.some.injEq] at hlast
    rw [List.dropWhile_cons_of_neg (by simpa using hlast)]

theorem leadingExponent_shift (k : ℕ) :
    leadingExponent ⟨d.digits * 10 ^ k, d.exponent - k⟩ = leadingExponent d := by
  have hlength : 0 < (Nat.toDigits 10 d.digits).length := Nat.length_toDigits_pos
  unfold leadingExponent
  rw [toDigits_mul_pow (Nat.pos_of_ne_zero (digits_ne_zero_of_trimmed hd)), List.length_append,
    List.length_replicate]
  dsimp only
  omega

/-- Zeros at the end change nothing in what is written. -/
theorem decimalText_shift (k : ℕ) : decimalText ⟨d.digits * 10 ^ k, d.exponent - k⟩ =
    if isPlain (leadingExponent d) then plain (Nat.toDigits 10 d.digits) (leadingExponent d)
    else scientific (Nat.toDigits 10 d.digits) (leadingExponent d) := by
  unfold decimalText
  rw [significantDigits_shift hd, leadingExponent_shift hd]

end Trimmed

/-! ## The first digit -/

theorem exponent_eq_leadingExponent (d : Decimal) :
    d.exponent = leadingExponent d + 1 - (Nat.toDigits 10 d.digits).length := by
  have hlength : 0 < (Nat.toDigits 10 d.digits).length := Nat.length_toDigits_pos
  unfold leadingExponent
  omega

/-- The first digit stands for the power of ten at or below the decimal. -/
theorem leadingExponent_bracket {d : Decimal} (hd : d.digits ≠ 0) :
    (10 : ℚ) ^ leadingExponent d ≤ d.toRat ∧ d.toRat < (10 : ℚ) ^ (leadingExponent d + 1) := by
  obtain ⟨hlow, hhigh⟩ := Decimal.toDigits_bracket hd
  have hunit := Decimal.ten_zpow_pos d.exponent
  unfold leadingExponent Decimal.toRat
  generalize (Nat.toDigits 10 d.digits).length - 1 = n at *
  constructor
  · rw [add_comm, zpow_add₀ (by norm_num), zpow_natCast]
    exact mul_le_mul_of_nonneg_right (by exact_mod_cast hlow) hunit.le
  · rw [add_assoc, add_comm, zpow_add₀ (by norm_num)]
    exact mul_lt_mul_of_pos_right (by exact_mod_cast hhigh) hunit

theorem exists_int_iff {d : Decimal} (hd : ¬ 10 ∣ d.digits) :
    (∃ n : ℤ, d.toRat = n) ↔ 0 ≤ d.exponent := by
  constructor
  · rintro ⟨n, hn⟩
    by_contra hneg
    obtain ⟨j, hj⟩ : ∃ j : ℕ, d.exponent = -(j + 1 : ℕ) := ⟨(-d.exponent - 1).toNat, by omega⟩
    rw [Decimal.toRat, hj, zpow_neg, zpow_natCast, ← div_eq_mul_inv, div_eq_iff (by positivity)]
      at hn
    have hdvd : (10 : ℤ) ∣ d.digits := by
      refine ⟨n * 10 ^ j, ?_⟩
      have : ((d.digits : ℤ) : ℚ) = ((10 * (n * 10 ^ j) : ℤ) : ℚ) := by
        push_cast
        rw [hn, pow_succ]
        ring
      exact_mod_cast this
    exact hd (by exact_mod_cast hdvd)
  · intro hnonneg
    obtain ⟨j, hj⟩ := Int.eq_ofNat_of_zero_le hnonneg
    refine ⟨d.digits * 10 ^ j, ?_⟩
    rw [Decimal.toRat, hj, zpow_natCast]
    push_cast
    rfl

/-! ## Positional notation -/

/-- Digits on both sides of a point that make up the decimal, none of them to spare. -/
structure Expands (d : Decimal) (whole fraction : List Char) : Prop where
  expansion : IsExpansion 10 d.toRat whole fraction
  value : Decimal.toRat ⟨Nat.ofDigitChars 10 (whole ++ fraction) 0, -fraction.length⟩ = d.toRat

section Plain

variable {d : Decimal} (hd : ¬ 10 ∣ d.digits)

include hd

theorem toRat_pos_of_trimmed : 0 < d.toRat :=
  mul_pos (by exact_mod_cast Nat.pos_of_ne_zero (digits_ne_zero_of_trimmed hd))
    (Decimal.ten_zpow_pos _)

/-- Below one the digits follow zeros after the point. -/
theorem expands_of_neg (hk : leadingExponent d < 0) :
    Expands d ['0']
      (List.replicate (-leadingExponent d - 1).toNat '0' ++ Nat.toDigits 10 d.digits) := by
  have hlength : 0 < (Nat.toDigits 10 d.digits).length := Nat.length_toDigits_pos
  have hexponent := exponent_eq_leadingExponent d
  have hone : d.toRat < 1 :=
    calc d.toRat < (10 : ℚ) ^ (leadingExponent d + 1) :=
          (leadingExponent_bracket (digits_ne_zero_of_trimmed hd)).2
      _ ≤ 1 := zpow_le_one_of_nonpos₀ (by norm_num) (by omega)
  refine ⟨⟨?_, by simp, fun _ => rfl, ?_, ?_, ?_⟩, ?_⟩
  · intro c hc
    simp only [List.mem_append, List.mem_singleton, List.mem_replicate] at hc
    rcases hc with rfl | ⟨-, rfl⟩ | hc
    · decide
    · decide
    · exact toDigits_isDigit (by norm_num) (by norm_num) _ c hc
  · rw [abs_of_pos (toRat_pos_of_trimmed hd)]
    exact iff_of_true rfl hone
  · rw [exists_int_iff hd]
    refine iff_of_false ?_ (by omega)
    simp [Nat.toDigits_ne_nil]
  · rw [List.getLast?_append, getLast?_toDigits, Option.some_or, ← getLast?_toDigits]
    exact getLast?_toDigits_ne hd
  · have hdigits : Nat.ofDigitChars 10 (['0'] ++
        (List.replicate (-leadingExponent d - 1).toNat '0' ++ Nat.toDigits 10 d.digits)) 0 =
          d.digits := by
      rw [Nat.ofDigitChars_append, Nat.ofDigitChars_append, Nat.ofDigitChars_replicate_zero]
      exact Nat.ofDigitChars_ten_toDigits
    rw [hdigits, List.length_append, List.length_replicate]
    congr 2
    omega

/-- From one on the digits stand around the point, or zeros fill them up to it. -/
theorem expands_of_nonneg (hk : 0 ≤ leadingExponent d) :
    Expands d
      ((Nat.toDigits 10 d.digits).take ((leadingExponent d).toNat + 1) ++
        List.replicate ((leadingExponent d).toNat + 1 - (Nat.toDigits 10 d.digits).length) '0')
      ((Nat.toDigits 10 d.digits).drop ((leadingExponent d).toNat + 1)) := by
  have hexponent := exponent_eq_leadingExponent d
  have hone : 1 ≤ d.toRat :=
    calc (1 : ℚ) ≤ (10 : ℚ) ^ leadingExponent d := one_le_zpow₀ (by norm_num) hk
      _ ≤ d.toRat := (leadingExponent_bracket (digits_ne_zero_of_trimmed hd)).1
  have hfirst : (Nat.toDigits 10 d.digits).head? ≠ some '0' := by
    rw [ne_eq, toDigits_head?_eq_zero_iff (by norm_num) (by norm_num)]
    exact digits_ne_zero_of_trimmed hd
  have hlast := getLast?_toDigits_ne hd
  have hisDigit : ∀ c ∈ Nat.toDigits 10 d.digits, c ∈ digitChars.take 10 :=
    toDigits_isDigit (by norm_num) (by norm_num) _
  have hvalue : Nat.ofDigitChars 10 (Nat.toDigits 10 d.digits) 0 = d.digits :=
    Nat.ofDigitChars_ten_toDigits
  obtain ⟨first, rest, hdigits⟩ := List.exists_cons_of_ne_nil
    (Nat.toDigits_ne_nil (b := 10) (n := d.digits))
  generalize Nat.toDigits 10 d.digits = digits at *
  subst hdigits
  have hhead : first ≠ '0' := by simpa using hfirst
  refine ⟨⟨?_, by simp, ?_, ?_, ?_, ?_⟩, ?_⟩
  · intro c hc
    simp only [List.mem_append, List.mem_replicate] at hc
    rcases hc with (hc | ⟨-, rfl⟩) | hc
    · exact hisDigit c (List.mem_of_mem_take hc)
    · decide
    · exact hisDigit c (List.mem_of_mem_drop hc)
  · simp [hhead]
  · rw [abs_of_pos (by linarith)]
    refine iff_of_false ?_ (not_lt.2 hone)
    simp [hhead]
  · rw [exists_int_iff hd, List.drop_eq_nil_iff]
    omega
  · rw [List.getLast?_drop]
    split
    · simp
    · exact hlast
  · rcases le_or_gt (first :: rest).length ((leadingExponent d).toNat + 1) with hfew | hmany
    · rw [List.take_of_length_le hfew, List.drop_of_length_le hfew, List.append_nil,
        Nat.ofDigitChars_append, hvalue, Nat.ofDigitChars_replicate_zero, Nat.mul_comm,
        Decimal.toRat_shift]
      congr 2
      simp only [List.length_nil]
      omega
    · rw [Nat.sub_eq_zero_of_le hmany.le, List.replicate_zero, List.append_nil,
        List.take_append_drop, hvalue, List.length_drop]
      congr 2
      omega

theorem plain_eq_spell : ∃ whole fraction, Expands d whole fraction ∧
    plain (Nat.toDigits 10 d.digits) (leadingExponent d) = spell false whole fraction := by
  rcases lt_or_ge (leadingExponent d) 0 with hk | hk
  · refine ⟨_, _, expands_of_neg hd hk, ?_⟩
    simp [plain, spell, hk, Nat.toDigits_ne_nil]
  · refine ⟨_, _, expands_of_nonneg hd hk, ?_⟩
    unfold plain spell
    rw [if_neg (not_lt.2 hk)]
    dsimp only
    split
    · rename_i hfew
      simp [List.take_of_length_le hfew, List.drop_of_length_le hfew]
    · rename_i hmany
      have hne : (Nat.toDigits 10 d.digits).drop ((leadingExponent d).toNat + 1) ≠ [] := by
        rwa [ne_eq, List.drop_eq_nil_iff]
      rw [Nat.sub_eq_zero_of_le (by omega), if_neg hne]
      simp

end Plain

theorem scientific_eq_spell (first : Char) (rest : List Char) (k : ℤ) :
    scientific (first :: rest) k = spell false [first] rest ++
      'e' :: (if k < 0 then '-' else '+') :: Nat.toDigits 10 k.natAbs := by
  cases rest with
  | nil => rfl
  | cons c cs => rfl

/-! ## Reading back -/

theorem spell_append (negative : Bool) (whole fraction tail : List Char) :
    (if negative then '-' :: (spell false whole fraction ++ tail)
      else spell false whole fraction ++ tail) = spell negative whole fraction ++ tail := by
  cases negative with
  | false => rfl
  | true => simp [spell]

theorem ofString?_spell {whole fraction tail : List Char} (hne : whole ≠ [])
    (hdigits : ∀ c ∈ whole ++ fraction, c ∈ digitChars.take 10)
    (htail : ∀ c ∈ tail.head?, c = 'e') {text : String} {negative : Bool}
    (htext : text.toList = spell negative whole fraction ++ tail) :
    Literal.ofString? text = (Literal.exponent? tail).map fun e => .decimal negative
      ⟨Nat.ofDigitChars 10 (whole ++ fraction) 0, e - fraction.length⟩ := by
  have hwhole : ∀ c ∈ whole, c.isDigit = true := fun c hc =>
    isDigit_of_mem (hdigits c (List.mem_append_left _ hc))
  have hfraction : ∀ c ∈ fraction, c.isDigit = true := fun c hc =>
    isDigit_of_mem (hdigits c (List.mem_append_right _ hc))
  refine Literal.ofString?_pointed hne hwhole hfraction htail ?_
  rw [htext]
  simp only [spell, Literal.pointed, List.append_assoc]

/-- What is written of a decimal is read back as it. -/
theorem writes_and_reads {d : Decimal} (hd : ¬ 10 ∣ d.digits) (zeros : ℕ) (negative : Bool)
    {text : String} (htext : text.toList =
      if negative then '-' :: decimalText ⟨d.digits * 10 ^ zeros, d.exponent - zeros⟩
      else decimalText ⟨d.digits * 10 ^ zeros, d.exponent - zeros⟩) :
    Writes negative d (leadingExponent d) text.toList ∧
      ∃ e, Literal.ofString? text = some (.decimal negative e) ∧ e.toRat = d.toRat := by
  rw [decimalText_shift hd] at htext
  by_cases hplain : isPlain (leadingExponent d) = true
  · obtain ⟨whole, fraction, hexpands, hspell⟩ := plain_eq_spell hd
    have hexpansion := hexpands.expansion
    rw [if_pos hplain, hspell, ← List.append_nil (spell false whole fraction),
      spell_append] at htext
    constructor
    · simp only [isPlain, Bool.and_eq_true, decide_eq_true_eq] at hplain
      rw [htext, List.append_nil]
      refine .positional hplain.1 hplain.2 hexpansion ?_
      rw [textValue_spell hexpansion, wholeValue_add_fractionValue hexpansion.isDigit,
        hexpands.value]
    · rw [ofString?_spell hexpansion.whole_ne_nil hexpansion.isDigit (by simp) htext]
      refine ⟨_, rfl, ?_⟩
      rw [zero_sub]
      exact hexpands.value
  · have hisDigit : ∀ c ∈ Nat.toDigits 10 d.digits, c ∈ digitChars.take 10 :=
      toDigits_isDigit (by norm_num) (by norm_num) _
    have hvalue : Nat.ofDigitChars 10 (Nat.toDigits 10 d.digits) 0 = d.digits :=
      Nat.ofDigitChars_ten_toDigits
    have hexponent := exponent_eq_leadingExponent d
    obtain ⟨first, rest, hdigits⟩ := List.exists_cons_of_ne_nil
      (Nat.toDigits_ne_nil (b := 10) (n := d.digits))
    rw [if_neg hplain, hdigits, scientific_eq_spell, spell_append] at htext
    rw [hdigits] at hisDigit hvalue hexponent
    constructor
    · simp only [isPlain, Bool.and_eq_true, decide_eq_true_eq, not_and] at hplain
      rw [htext]
      rcases lt_or_ge (leadingExponent d) 0 with hk | hk
      · rw [if_pos hk]
        exact .small (by omega) hdigits
      · rw [if_neg (not_lt.2 hk)]
        exact .large (by omega) hdigits
    · rw [ofString?_spell (by simp) hisDigit (by simp) htext, Literal.exponent?_mark]
      refine ⟨_, rfl, ?_⟩
      have hpower : leadingExponent d - rest.length = d.exponent := by
        rw [hexponent, List.length_cons]
        push_cast
        ring
      rw [List.singleton_append, hvalue, hpower]

/-- An exponent is written just where positional notation is not. -/
theorem Writes.notMem_iff {negative : Bool} {d : Decimal} {k : ℤ} {text : List Char}
    (h : Writes negative d k text) : 'e' ∉ text ↔ -6 ≤ k ∧ k < 21 := by
  cases h with
  | @positional whole fraction hlow hhigh hexpansion =>
    refine iff_of_true ?_ ⟨hlow, hhigh⟩
    have hdigit : 'e' ∉ whole ++ fraction := fun hc =>
      absurd (hexpansion.isDigit 'e' hc) (by decide)
    rw [List.mem_append, not_or] at hdigit
    unfold spell
    cases negative <;> by_cases hnil : fraction = [] <;> simp [hnil, hdigit]
  | small hk => exact iff_of_false (by simp) (by omega)
  | large hk => exact iff_of_false (by simp) (by omega)

end LineCalc.Numeral

namespace LineCalc

/-- Decimal numerals are the shortest that read back. The text of a number, zero apart, is that of a
decimal `d` which rounds to the number and has as few digits as any that does; it is read as that
decimal, and so as the number; and it is written with an exponent unless the power of ten of the
first digit is from -6 to 20. -/
theorem Binary64.numeral_decimal_shortest (x : Binary64) (v : ℚ) (hx : x.toRat? = some v)
    (hv : v ≠ 0) :
    ∃ (m : Magnitude) (d : Decimal) (k : ℤ),
      (x = .finite (decide (v < 0)) m ∧ m.toRat = |v|) ∧ Decimal.IsShortest m d ∧
      ((10 : ℚ) ^ k ≤ d.toRat ∧ d.toRat < (10 : ℚ) ^ (k + 1)) ∧
      Numeral.Writes (decide (v < 0)) d k (x.numeral .decimal).toList ∧
      ('e' ∉ (x.numeral .decimal).toList ↔ -6 ≤ k ∧ k < 21) ∧
      ∃ e, Literal.ofString? (x.numeral .decimal) = some (.decimal (decide (v < 0)) e) ∧
        e.toRat = d.toRat ∧ e.toBinary64 (decide (v < 0)) = x := by
  obtain ⟨negative, m, rfl, hm⟩ := exists_of_toRat? hx
  have hvalue : m.toRat = |v| := by rw [hm, abs_ite_neg negative m.toRat_nonneg]
  have hsignificand : m.significand ≠ 0 := by
    rwa [ne_eq, ← m.toRat_eq_zero_iff, hvalue, abs_eq_zero]
  obtain rfl : negative = decide (v < 0) := by
    simpa [isNegative] using isNegative_eq hx hv
  obtain ⟨d, zeros, hshortest, hfound⟩ := Decimal.exists_isShortest hsignificand
  have htext : ((finite (decide (v < 0)) m).numeral .decimal).toList =
      if decide (v < 0) then '-' :: Numeral.decimalText ⟨d.digits * 10 ^ zeros, d.exponent - zeros⟩
      else Numeral.decimalText ⟨d.digits * 10 ^ zeros, d.exponent - zeros⟩ := by
    simp only [numeral, hsignificand, if_false, hfound, String.toList_ofList]
  obtain ⟨hwrites, e, hreads, he⟩ := Numeral.writes_and_reads hshortest.trimmed zeros _ htext
  refine ⟨m, d, Numeral.leadingExponent d, ⟨rfl, hvalue⟩, hshortest,
    Numeral.leadingExponent_bracket (Numeral.digits_ne_zero_of_trimmed hshortest.trimmed), hwrites,
    hwrites.notMem_iff, e, hreads, he, ?_⟩
  rw [Decimal.toBinary64_eq_finite_iff, he]
  exact hshortest.nearest

/-- The negative number next to zero: one digit tells it from its neighbours. -/
theorem Binary64.numeral_decimal_shortest_least :
    let x := finite true ⟨1, -1074, by decide, by decide, by decide, .inr rfl⟩
    let v := -(2 : ℚ) ^ (-1074 : ℤ)
    (x.toRat? = some v ∧ v ≠ 0 ∧ x.numeral .decimal = "-5e-324") ∧
      ∃ (m : Magnitude) (d : Decimal) (k : ℤ),
        (x = .finite (decide (v < 0)) m ∧ m.toRat = |v|) ∧ Decimal.IsShortest m d ∧
        ((10 : ℚ) ^ k ≤ d.toRat ∧ d.toRat < (10 : ℚ) ^ (k + 1)) ∧
        Numeral.Writes (decide (v < 0)) d k (x.numeral .decimal).toList ∧
        ('e' ∉ (x.numeral .decimal).toList ↔ -6 ≤ k ∧ k < 21) ∧
        ∃ e, Literal.ofString? (x.numeral .decimal) = some (.decimal (decide (v < 0)) e) ∧
          e.toRat = d.toRat ∧ e.toBinary64 (decide (v < 0)) = x := by
  intro x v
  have hx : x.toRat? = some v := by
    rw [toRat?_finite]
    simp [v, Magnitude.toRat]
  have hv : v ≠ 0 := neg_ne_zero.2 (zpow_ne_zero _ (by decide))
  exact ⟨⟨hx, hv, by decide +kernel⟩, numeral_decimal_shortest x v hx hv⟩

end LineCalc
