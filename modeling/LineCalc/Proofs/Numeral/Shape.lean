/-
The shape of numerals. Whatever number is printed in whatever base, the text is a name for what is
no number, or digits with a sign, a point and an exponent where they are needed.
-/
import LineCalc.Proofs.Numeral.Decimal

namespace LineCalc

namespace Numeral

/-- The shapes of numerals: `NaN`, `Infinity` with or without a sign, and digits, of any base, with
or without a sign, a point and an exponent. -/
inductive Shape : List Char → Prop where
  | nan : Shape "NaN".toList
  | infinity (negative : Bool) : Shape (if negative then "-Infinity" else "Infinity").toList
  | plain {negative : Bool} {whole fraction : List Char} : whole ≠ [] →
      (∀ c ∈ whole ++ fraction, c ∈ digitChars) → Shape (spell negative whole fraction)
  | scientific {negative : Bool} {whole fraction power : List Char} {sign : Char} : whole ≠ [] →
      (∀ c ∈ whole ++ fraction, c ∈ digitChars) → sign ∈ ['+', '-'] → power ≠ [] →
      (∀ c ∈ power, c ∈ digitChars.take 10) →
      Shape (spell negative whole fraction ++ 'e' :: sign :: power)

/-- Digits of a base are digits. -/
theorem IsExpansion.shape {base : ℕ} {v : ℚ} {whole fraction : List Char} (negative : Bool)
    (h : IsExpansion base v whole fraction) : Shape (spell negative whole fraction) :=
  .plain h.whole_ne_nil fun c hc => List.mem_of_mem_take (h.isDigit c hc)

theorem Writes.shape {negative : Bool} {d : Decimal} {k : ℤ} {text : List Char}
    (h : Writes negative d k text) : Shape text := by
  have hpower : ∀ c ∈ Nat.toDigits 10 k.natAbs, c ∈ digitChars.take 10 :=
    toDigits_isDigit (by norm_num) (by norm_num) _
  have hdigit : ∀ c ∈ Nat.toDigits 10 d.digits, c ∈ digitChars := fun c hc =>
    List.mem_of_mem_take (toDigits_isDigit (by norm_num) (by norm_num) _ c hc)
  cases h with
  | positional _ _ hexpansion => exact hexpansion.shape negative
  | small _ hdigits =>
    rw [hdigits] at hdigit
    exact .scientific (by simp) hdigit (by simp) Nat.toDigits_ne_nil hpower
  | large _ hdigits =>
    rw [hdigits] at hdigit
    exact .scientific (by simp) hdigit (by simp) Nat.toDigits_ne_nil hpower

/-- The characters of numerals. -/
def numeralChars : List Char := digitChars ++ ".+-NaInfity".toList

theorem Shape.mem_numeralChars {text : List Char} (h : Shape text) : text ⊆ numeralChars := by
  have hspell : ∀ {negative whole fraction}, (∀ c ∈ whole ++ fraction, c ∈ digitChars) →
      spell negative whole fraction ⊆ numeralChars := by
    intro negative whole fraction hdigits c hc
    have hc : c ∈ whole ++ fraction ∨ c ∈ ['-', '.'] := by
      revert hc
      unfold spell
      cases negative <;> by_cases hnil : fraction = [] <;> simp [hnil] <;> tauto
    rcases hc with hc | hc
    · exact List.mem_append_left _ (hdigits c hc)
    · have hmarks : ['-', '.'] ⊆ numeralChars := by decide
      exact hmarks hc
  cases h with
  | nan => decide
  | infinity negative =>
    revert negative
    decide
  | plain _ hdigits => exact hspell hdigits
  | @scientific _ _ _ power sign _ hdigits hsign _ hpower =>
    have hsigns : ['+', '-'] ⊆ numeralChars := by decide
    refine List.append_subset.2 ⟨hspell hdigits, List.cons_subset.2 ⟨by decide,
      List.cons_subset.2 ⟨hsigns hsign, ?_⟩⟩⟩
    exact fun c hc => List.mem_append_left _ (List.mem_of_mem_take (hpower c hc))

end Numeral

namespace Binary64

/-- The numeral of a number other than zero is how its shortest decimal is written, and it is read
as that decimal. -/
theorem exists_writes {x : Binary64} {v : ℚ} (hx : x.toRat? = some v) (hv : v ≠ 0) :
    ∃ (negative : Bool) (m : Magnitude) (d : Decimal), x = .finite negative m ∧
      m.significand ≠ 0 ∧ m.toRat = |v| ∧ Decimal.IsShortest m d ∧
      Numeral.Writes negative d (Numeral.leadingExponent d) (x.numeral .decimal).toList ∧
      ∃ e, Literal.ofString? (x.numeral .decimal) = some (.decimal negative e) ∧
        e.toRat = d.toRat := by
  obtain ⟨negative, m, rfl, hm⟩ := exists_of_toRat? hx
  have hvalue : m.toRat = |v| := by rw [hm, abs_ite_neg negative m.toRat_nonneg]
  have hsignificand : m.significand ≠ 0 := by
    rwa [ne_eq, ← m.toRat_eq_zero_iff, hvalue, abs_eq_zero]
  obtain ⟨d, zeros, hshortest, hfound⟩ := Decimal.exists_isShortest hsignificand
  refine ⟨negative, m, d, rfl, hsignificand, hvalue, hshortest,
    Numeral.writes_and_reads hshortest.trimmed zeros negative ?_⟩
  simp only [numeral, hsignificand, if_false, hfound, String.toList_ofList]

theorem shape_numeral_of_toRat? {x : Binary64} {v : ℚ} (hx : x.toRat? = some v) (base : Base) :
    Numeral.Shape (x.numeral base).toList := by
  by_cases hv : v = 0
  · subst hv
    rw [numeral_zero hx]
    show Numeral.Shape (Numeral.spell false ['0'] [])
    exact .plain (by simp) (List.forall_mem_singleton.2 (by decide))
  by_cases hbase : base = .decimal
  · subst hbase
    obtain ⟨_, _, _, -, -, -, -, hwrites, -⟩ := exists_writes hx hv
    exact hwrites.shape
  · obtain ⟨t, hpos, ht, hradix⟩ := Base.exists_radix_eq hbase
    obtain ⟨digits, hfraction, htext⟩ := Numeral.positional_eq_spell ht hpos hx hv
    rw [numeral_eq_positional hx hv hbase, hradix, htext]
    exact (Numeral.isExpansion_of_isFraction ht hpos hfraction).shape _

/-- Every number has a numeral of one of the shapes in every base. -/
theorem shape_numeral (x : Binary64) (base : Base) : Numeral.Shape (x.numeral base).toList := by
  cases x with
  | nan => exact .nan
  | infinity negative => exact .infinity negative
  | finite negative m => exact shape_numeral_of_toRat? (toRat?_finite negative m) base

end Binary64

end LineCalc
