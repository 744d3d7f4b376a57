/-
What a numeric literal denotes. The grammar of literals is stated together with what its texts
denote: an exact rational for digits, a point and an exponent, however many they are. The reader
accepts the texts of the grammar and no others, and the number it gives is what is denoted, rounded
once.
-/
import LineCalc.Expr.Parser
import LineCalc.Proofs.Numeral.Decimal

namespace LineCalc

open Numeral (wholeValue fractionValue digitChars)

/-! ## Characters -/

/-- A letter is brought to a small one from that letter or from its capital. -/
theorem toLower_eq_iff {c d : Char} (hd : d.isLower = true) :
    c.toLower = d ↔ c = d ∨ c = d.toUpper := by
  have hrange : 'a'.val ≤ d.val ∧ d.val ≤ 'z'.val :=
    (Bool.and_eq_true_iff.1 hd).imp of_decide_eq_true of_decide_eq_true
  have hupper : d.toUpper.val = d.val + ('A'.val - 'a'.val) := by
    unfold Char.toUpper
    rw [dif_pos hrange]
  have hlower : c.toLower.val =
      if 'A'.val ≤ c.val ∧ c.val ≤ 'Z'.val then c.val + ('a'.val - 'A'.val) else c.val := by
    unfold Char.toLower
    split
    · rfl
    · rfl
  rw [Char.ext_iff, Char.ext_iff, Char.ext_iff, hupper, hlower]
  simp only [Char.reduceVal, UInt32.le_iff_toNat_le, UInt32.reduceToNat,
    UInt32.reduceSub] at hrange ⊢
  generalize c.val = a
  generalize d.val = b at hrange ⊢
  rw [← UInt32.toNat_inj, ← UInt32.toNat_inj, ← UInt32.toNat_inj]
  have ha := a.toNat_lt
  have hb := b.toNat_lt
  split
  · simp only [UInt32.toNat_add, UInt32.reduceToNat]
    omega
  · simp only [UInt32.toNat_add, UInt32.reduceToNat]
    omega

theorem mem_digitChars_of_isDigit {c : Char} (h : c.isDigit = true) : c ∈ digitChars.take 10 := by
  have hall : ∀ n ∈ List.range' 48 10, Char.ofNat n ∈ digitChars.take 10 := by decide
  obtain ⟨hlow, hhigh⟩ := Char.isDigit_iff_toNat.1 h
  rw [← Char.ofNat_toNat c]
  exact hall _ (List.mem_range'_1.2 ⟨hlow, Nat.lt_succ_of_le hhigh⟩)

namespace Literal

/-! ## The grammar -/

/-- A sign, which may be left out. -/
inductive Sign : List Char → Bool → Prop where
  | none : Sign [] false
  | plus : Sign ['+'] false
  | minus : Sign ['-'] true

/-- The letters of a word, each of them small or capital. -/
def AnyCase (word : String) (cs : List Char) : Prop :=
  List.Forall₂ (fun c d => c = d ∨ c = d.toUpper) cs word.toList

/-- An exponent, which may be left out. -/
inductive Exponent : List Char → ℤ → Prop where
  | none : Exponent [] 0
  | mark {c : Char} {sign digits : List Char} {negative : Bool} : c = 'e' ∨ c = 'E' →
      Sign sign negative → digits ≠ [] → (∀ d ∈ digits, d.isDigit = true) →
      Exponent (c :: (sign ++ digits))
        (if negative then -wholeValue 10 digits else wholeValue 10 digits)

/-- Digits, at least one of them, with a point before, after or between them or none at all, then an
exponent. -/
inductive Unsigned : List Char → ℚ → Prop where
  | digits {whole point fraction tail : List Char} {e : ℤ} :
      (∀ c ∈ whole, c.isDigit = true) → (∀ c ∈ fraction, c.isDigit = true) →
      whole ++ fraction ≠ [] → point = ['.'] ∨ point = [] ∧ fraction = [] → Exponent tail e →
      Unsigned (whole ++ (point ++ (fraction ++ tail)))
        ((wholeValue 10 whole + fractionValue 10 fraction) * 10 ^ e)

/-- What a literal can denote: a number is its sign and its magnitude. -/
inductive Meaning where
  | nan
  | infinity (negative : Bool)
  | number (negative : Bool) (magnitude : ℚ)

/-- The texts of the grammar and what they denote. -/
inductive Denotes : List Char → Meaning → Prop where
  | nan {sign cs : List Char} {negative : Bool} : Sign sign negative → AnyCase "nan" cs →
      Denotes (sign ++ cs) .nan
  | infinity {sign cs : List Char} {negative : Bool} : Sign sign negative →
      AnyCase "inf" cs ∨ AnyCase "infinity" cs → Denotes (sign ++ cs) (.infinity negative)
  | number {sign cs : List Char} {negative : Bool} {r : ℚ} : Sign sign negative → Unsigned cs r →
      Denotes (sign ++ cs) (.number negative r)

/-- The number is what the meaning rounds to: the nearest, the even one of two as near, with the
sign kept; infinity where the magnitude is out of range, and zero where it is at most half of the
least positive one. -/
def Meaning.RoundsTo : Meaning → Binary64 → Prop
  | nan, x => x = .nan
  | infinity negative, x => x = .infinity negative
  | number negative r, x =>
    (r < Magnitude.limit → ∃ m, x = .finite negative m ∧ Magnitude.Nearest r m) ∧
      (Magnitude.limit ≤ r → x = .infinity negative) ∧
      (r ≤ (2 : ℚ) ^ (-1075 : ℤ) → x = .zero negative)

/-! ## Signs and words -/

theorem sign_splitSign (cs : List Char) :
    ∃ sign, Sign sign (splitSign cs).1 ∧ cs = sign ++ (splitSign cs).2 := by
  unfold splitSign
  split
  · exact ⟨['-'], .minus, rfl⟩
  · exact ⟨['+'], .plus, rfl⟩
  · exact ⟨[], .none, rfl⟩

/-- A sign is split off where no other sign follows. -/
theorem splitSign_append {sign cs : List Char} {negative : Bool} (h : Sign sign negative)
    (hcs : ∀ c ∈ cs.head?, c ≠ '+' ∧ c ≠ '-') : splitSign (sign ++ cs) = (negative, cs) := by
  cases h with
  | plus => rfl
  | minus => rfl
  | none =>
    rw [List.nil_append]
    unfold splitSign
    split
    · exact absurd rfl (hcs '-' rfl).2
    · exact absurd rfl (hcs '+' rfl).1
    · rfl

theorem anyCase_iff {word : String} (h : word.toList.all Char.isLower = true) (cs : List Char) :
    AnyCase word cs ↔ String.ofList (cs.map Char.toLower) = word := by
  rw [← String.toList_inj, String.toList_ofList]
  rw [List.all_eq_true] at h
  unfold AnyCase
  generalize word.toList = ds at h
  induction ds generalizing cs with
  | nil => simp
  | cons d ds ih =>
    cases cs with
    | nil => simp
    | cons c cs =>
      rw [List.forall₂_cons, List.map_cons, List.cons.injEq,
        toLower_eq_iff (h d List.mem_cons_self), ih cs fun e he => h e (List.mem_cons_of_mem d he)]

/-! ## Exponents and decimals -/

theorem ofDigitChars_eq_wholeValue {digits : List Char} (h : ∀ c ∈ digits, c.isDigit = true) :
    Nat.ofDigitChars 10 digits 0 = wholeValue 10 digits :=
  (Numeral.wholeValue_eq fun c hc => mem_digitChars_of_isDigit (h c hc)).symm

theorem exponent_of_exponent? {cs : List Char} {e : ℤ} (h : exponent? cs = some e) :
    Exponent cs e := by
  cases cs with
  | nil =>
    cases h
    exact .none
  | cons c cs =>
    obtain ⟨sign, hsign, hcs⟩ := sign_splitSign cs
    unfold exponent? at h
    simp only at h
    split at h
    · rename_i hmark
      simp only [Bool.and_eq_true, Bool.or_eq_true, decide_eq_true_eq, Bool.not_eq_true',
        List.isEmpty_eq_false_iff, List.all_eq_true] at hmark
      obtain ⟨⟨hc, hne⟩, hdigits⟩ := hmark
      cases h
      rw [ofDigitChars_eq_wholeValue hdigits, hcs]
      simpa only [← hcs] using Exponent.mark hc hsign hne hdigits
    · cases h

theorem exponent?_of_exponent {cs : List Char} {e : ℤ} (h : Exponent cs e) :
    exponent? cs = some e := by
  cases h with
  | none => rfl
  | @mark c sign digits negative hc hsign hne hdigits =>
    have hhead : ∀ d ∈ digits.head?, d ≠ '+' ∧ d ≠ '-' := by
      intro d hd
      have hdigit := hdigits d (List.mem_of_mem_head? hd)
      constructor <;> rintro rfl <;> exact absurd hdigit (by decide)
    have hall : digits.all Char.isDigit = true := List.all_eq_true.2 hdigits
    simp only [exponent?, splitSign_append hsign hhead]
    simp [hc, hne, hall, ofDigitChars_eq_wholeValue hdigits]

theorem Exponent.head {tail : List Char} {e : ℤ} (h : Exponent tail e) :
    ∀ c ∈ tail.head?, c = 'e' ∨ c = 'E' := by
  cases h with
  | none => simp
  | mark hc => simpa using hc

/-- The magnitude that digits denote, with the point moved into the exponent. -/
theorem value_mul_zpow {whole fraction : List Char} (hwhole : ∀ c ∈ whole, c.isDigit = true)
    (hfraction : ∀ c ∈ fraction, c.isDigit = true) (e : ℤ) :
    Decimal.toRat ⟨Nat.ofDigitChars 10 (whole ++ fraction) 0, e - fraction.length⟩ =
      (wholeValue 10 whole + fractionValue 10 fraction) * 10 ^ e := by
  have hdigits : ∀ c ∈ whole ++ fraction, c ∈ digitChars.take 10 := by
    intro c hc
    rcases List.mem_append.1 hc with hc | hc
    · exact mem_digitChars_of_isDigit (hwhole c hc)
    · exact mem_digitChars_of_isDigit (hfraction c hc)
  rw [Numeral.wholeValue_add_fractionValue hdigits, Decimal.toRat, Decimal.toRat, mul_assoc,
    ← zpow_add₀ (by norm_num)]
  congr 2
  ring

theorem splitFraction_spec (cs : List Char) :
    ∃ point, cs = point ++ ((splitFraction cs).1 ++ (splitFraction cs).2) ∧
      (point = ['.'] ∨ point = [] ∧ (splitFraction cs).1 = []) ∧
      ∀ c ∈ (splitFraction cs).1, c.isDigit = true := by
  unfold splitFraction
  split
  · rename_i cs
    rw [List.span_eq_takeWhile_dropWhile]
    exact ⟨['.'], by simp, .inl rfl, fun c hc => List.mem_takeWhile_imp hc⟩
  · exact ⟨[], by simp, .inr ⟨rfl, rfl⟩, by simp⟩

theorem unsigned_of_decimal? {cs : List Char} {d : Decimal} (h : decimal? cs = some d) :
    Unsigned cs d.toRat := by
  unfold decimal? at h
  rw [List.span_eq_takeWhile_dropWhile] at h
  obtain ⟨point, hsplit, hpoint, hfraction⟩ := splitFraction_spec (cs.dropWhile Char.isDigit)
  have hcs : cs = cs.takeWhile Char.isDigit ++ cs.dropWhile Char.isDigit := by simp
  have hwhole : ∀ c ∈ cs.takeWhile Char.isDigit, c.isDigit = true :=
    fun c hc => List.mem_takeWhile_imp hc
  generalize cs.takeWhile Char.isDigit = whole at *
  generalize cs.dropWhile Char.isDigit = rest at *
  rcases hparts : splitFraction rest with ⟨fraction, tail⟩
  simp only [hparts] at h hsplit hpoint hfraction
  split at h
  · cases h
  · rename_i hsome
    obtain ⟨e, he, rfl⟩ := Option.map_eq_some_iff.1 h
    rw [value_mul_zpow hwhole hfraction, hcs, hsplit]
    exact .digits hwhole hfraction (by simpa using hsome) hpoint (exponent_of_exponent? he)

theorem decimal?_of_unsigned {cs : List Char} {r : ℚ} (h : Unsigned cs r) :
    ∃ d, decimal? cs = some d ∧ d.toRat = r := by
  cases h with
  | digits hwhole hfraction hne hpoint htail =>
    rw [decimal?_append hwhole hfraction hpoint htail.head hne, exponent?_of_exponent htail]
    exact ⟨_, rfl, value_mul_zpow hwhole hfraction _⟩

/-- Digits with a point start with a digit or with the point. -/
theorem Unsigned.exists_cons {cs : List Char} {r : ℚ} (h : Unsigned cs r) :
    ∃ c rest, cs = c :: rest ∧ (c.isDigit = true ∨ c = '.') := by
  cases h with
  | @digits whole point fraction tail e hwhole _ hne hpoint =>
    cases whole with
    | cons c whole => exact ⟨c, _, rfl, .inl (hwhole c List.mem_cons_self)⟩
    | nil =>
      rcases hpoint with rfl | ⟨rfl, rfl⟩
      · exact ⟨'.', _, rfl, .inr rfl⟩
      · exact absurd rfl hne

/-! ## Literals -/

/-- What a literal that has been read denotes. -/
def meaning : Literal → Meaning
  | nan => .nan
  | infinity negative => .infinity negative
  | decimal negative d => .number negative d.toRat

theorem denotes_of_ofString? {text : String} {literal : Literal}
    (h : ofString? text = some literal) : Denotes text.toList literal.meaning := by
  obtain ⟨sign, hsign, htext⟩ := sign_splitSign text.toList
  unfold ofString? at h
  rcases hparts : splitSign text.toList with ⟨negative, cs⟩
  simp only [hparts] at h hsign htext
  rw [htext]
  split at h
  · rename_i hword
    cases h
    exact .nan hsign ((anyCase_iff (by decide) cs).2 hword)
  · split at h
    · rename_i hword
      cases h
      rw [Bool.or_eq_true, decide_eq_true_eq, decide_eq_true_eq] at hword
      refine .infinity hsign (hword.imp ?_ ?_)
      · exact (anyCase_iff (by decide) cs).2
      · exact (anyCase_iff (by decide) cs).2
    · obtain ⟨d, hd, rfl⟩ := Option.map_eq_some_iff.1 h
      exact .number hsign (unsigned_of_decimal? hd)

/-- No text of the grammar has two signs in front, so the sign is read as it is meant. -/
theorem splitSign_of_anyCase {word : String} (hword : ∃ d ds, word.toList = d :: ds ∧
      '+'.toLower ≠ d ∧ '-'.toLower ≠ d) {sign cs : List Char} {negative : Bool}
    (hsign : Sign sign negative) (h : String.ofList (cs.map Char.toLower) = word) :
    splitSign (sign ++ cs) = (negative, cs) := by
  obtain ⟨d, ds, hd, hplus, hminus⟩ := hword
  refine splitSign_append hsign fun c hc => ?_
  obtain ⟨rest, rfl⟩ := List.head?_eq_some_iff.1 hc
  rw [← h, String.toList_ofList, List.map_cons] at hd
  constructor <;> rintro rfl
  · exact hplus (List.cons.inj hd).1
  · exact hminus (List.cons.inj hd).1

theorem ofString?_of_denotes {text : String} {v : Meaning} (h : Denotes text.toList v) :
    ∃ literal, ofString? text = some literal ∧ literal.meaning = v := by
  unfold ofString?
  generalize text.toList = all at h
  cases h with
  | nan hsign hcs =>
    rw [anyCase_iff (by decide)] at hcs
    rw [splitSign_of_anyCase ⟨'n', _, rfl, by decide, by decide⟩ hsign hcs]
    exact ⟨.nan, if_pos hcs, rfl⟩
  | @infinity sign cs negative hsign hcs =>
    rw [anyCase_iff (by decide), anyCase_iff (by decide)] at hcs
    have hsplit : splitSign (sign ++ cs) = (negative, cs) := by
      rcases hcs with hcs | hcs
      · exact splitSign_of_anyCase ⟨'i', _, rfl, by decide, by decide⟩ hsign hcs
      · exact splitSign_of_anyCase ⟨'i', _, rfl, by decide, by decide⟩ hsign hcs
    rw [hsplit]
    refine ⟨.infinity negative, ?_, rfl⟩
    rcases hcs with hcs | hcs
    · simp [hcs]
    · simp [hcs]
  | @number sign cs negative r hsign hcs =>
    obtain ⟨d, hd, rfl⟩ := decimal?_of_unsigned hcs
    obtain ⟨c, rest, rfl, hc⟩ := hcs.exists_cons
    -- the first character tells the text from a second sign and from the words
    have hlower : c.toLower = c := by
      rcases hc with hc | rfl
      · exact toLower_of_isDigit hc
      · rfl
    have hletter : c ≠ '+' ∧ c ≠ '-' ∧ c ≠ 'n' ∧ c ≠ 'i' := by
      refine ⟨?_, ?_, ?_, ?_⟩ <;> rintro rfl <;> exact absurd hc (by decide)
    have hword : ∀ word : String, word.toList.head? ≠ some c →
        String.ofList ((c :: rest).map Char.toLower) ≠ word :=
      fun word hhead => map_toLower_ne hlower rest hhead
    have hnan := hword "nan" (by simpa using hletter.2.2.1.symm)
    have hinf := hword "inf" (by simpa using hletter.2.2.2.symm)
    have hinfinity := hword "infinity" (by simpa using hletter.2.2.2.symm)
    rw [splitSign_append hsign (by simpa using ⟨hletter.1, hletter.2.1⟩)]
    refine ⟨.decimal negative d, ?_, rfl⟩
    simp only [hnan, hinf, hinfinity, hd, decide_false, Bool.or_false, Bool.false_eq_true, if_false,
      Option.map_some]

/-- The number of a literal is what it denotes, rounded once. -/
theorem roundsTo_toBinary64 (literal : Literal) : literal.meaning.RoundsTo literal.toBinary64 := by
  cases literal with
  | nan => rfl
  | infinity negative => rfl
  | decimal negative d =>
    have hvalue : toBinary64 (.decimal negative d) = .nearest negative d.toRat :=
      Decimal.toBinary64_eq_nearest negative d
    rw [hvalue]
    -- below the limit, from the limit on, and down to zero
    refine ⟨fun hlt => ?_, Binary64.nearest_eq_infinity negative, fun hle => ?_⟩
    · rcases Binary64.nearest_cases negative d.toRat_nonneg with hfinite | ⟨-, hlimit⟩
      · exact hfinite
      · exact absurd hlt (not_lt.2 hlimit)
    · rw [Binary64.zero, Binary64.nearest_eq_finite_iff negative d.toRat_nonneg]
      exact Magnitude.nearest_zero hle

theorem Meaning.RoundsTo.ne_nan {negative : Bool} {r : ℚ} {x : Binary64}
    (h : (Meaning.number negative r).RoundsTo x) : x ≠ .nan := by
  rintro rfl
  rcases lt_or_ge r Magnitude.limit with hlt | hle
  · obtain ⟨m, hm, -⟩ := h.1 hlt
    cases hm
  · cases h.2.1 hle

/-- An integer denotes a number. -/
theorem denotes_of_mem_integerPattern {text : String} (h : text.toList ∈ integerPattern) :
    ∃ negative r, Denotes text.toList (.number negative r) := by
  obtain ⟨negative, digits, htext, hne, hdigits⟩ :=
    exists_digits_of_isIntegerText ((isIntegerText_iff text).2 h)
  have hsign : Sign (if negative then ['-'] else []) negative := by
    cases negative
    · exact .none
    · exact .minus
  have hunsigned : Unsigned (digits ++ ([] ++ ([] ++ []))) _ :=
    .digits hdigits (by simp) (by simpa using hne) (.inr ⟨rfl, rfl⟩) .none
  simp only [List.append_nil] at hunsigned
  rw [htext]
  exact ⟨negative, _, .number hsign hunsigned⟩

end Literal

/-! ## Integers as operands -/

namespace Expr

open Literal (Denotes)

theorem operand_integer (stop : Nat) (text : String) (span : Span) (ls : List Lexeme) :
    operand stop (⟨.integer text, span⟩ :: ls) =
      match Literal.ofString? text with
      | some value => .ok ⟨.literal span value.toBinary64, ls, by simp⟩
      | none => .error (Fault.invalidInteger.reportAt span) := by
  unfold operand
  rfl

/-- Integers are converted correctly. An integer in the place of an operand has a value just if its
text is in the grammar of literals, and is a syntax error at its columns otherwise. The value is the
number that the denoted rational, however long its text, rounds to. What has the pattern of an
integer is in the grammar and never gives NaN. -/
theorem operand_integer_correct (stop : Nat) (text : String) (span : Span) (ls : List Lexeme) :
    let read := operand stop (⟨.integer text, span⟩ :: ls)
    ((∃ x, ∃ h, read = .ok ⟨.literal span x, ls, h⟩) ↔ ∃ v, Denotes text.toList v) ∧
    ((∀ v, ¬ Denotes text.toList v) → read = .error
      { kind := .syntaxError, line := none, span, message := "INVALID INTEGER" }) ∧
    (∀ v, Denotes text.toList v →
      ∃ x, (∃ h, read = .ok ⟨.literal span x, ls, h⟩) ∧ v.RoundsTo x) ∧
    (text.toList ∈ integerPattern →
      ∃ x, (∃ h, read = .ok ⟨.literal span x, ls, h⟩) ∧ x ≠ .nan) := by
  intro read
  have hread : read = _ := operand_integer stop text span ls
  have hrounds : ∀ v, Denotes text.toList v →
      ∃ x, (∃ h, read = .ok ⟨.literal span x, ls, h⟩) ∧ v.RoundsTo x := by
    intro v hv
    obtain ⟨value, hvalue, rfl⟩ := Literal.ofString?_of_denotes hv
    rw [hread, hvalue]
    exact ⟨_, ⟨_, rfl⟩, value.roundsTo_toBinary64⟩
  have herror : (∀ v, ¬ Denotes text.toList v) →
      read = .error (Fault.invalidInteger.reportAt span) := by
    intro hnone
    cases hvalue : Literal.ofString? text with
    | none => rw [hread, hvalue]
    | some value => exact absurd (Literal.denotes_of_ofString? hvalue) (hnone _)
  refine ⟨⟨?_, ?_⟩, herror, hrounds, ?_⟩
  · rintro ⟨x, h, hx⟩
    by_contra hnone
    rw [herror (not_exists.1 hnone)] at hx
    cases hx
  · rintro ⟨v, hv⟩
    obtain ⟨x, hx, -⟩ := hrounds v hv
    exact ⟨x, hx⟩
  · intro hpattern
    obtain ⟨negative, r, hv⟩ := Literal.denotes_of_mem_integerPattern hpattern
    obtain ⟨x, hx, hvx⟩ := hrounds _ hv
    exact ⟨x, hx, hvx.ne_nan⟩

theorem operand_integer_correct_halfway :
    (Denotes "-.9007199254740993E+16".toList (.number true 9007199254740993) ∧
      ∃ x, (∃ h, operand 22 [⟨.integer "-.9007199254740993E+16", ⟨0, 22⟩⟩] =
        .ok ⟨.literal ⟨0, 22⟩ x, [], h⟩) ∧
      (Literal.Meaning.number true 9007199254740993).RoundsTo x) ∧
    ((∀ v, ¬ Denotes "1.e+".toList v) ∧
      operand 4 [⟨.integer "1.e+", ⟨0, 4⟩⟩] = .error
        { kind := .syntaxError, line := none, span := ⟨0, 4⟩, message := "INVALID INTEGER" }) ∧
    "-0".toList ∈ integerPattern ∧
      ∃ x, (∃ h, operand 2 [⟨.integer "-0", ⟨0, 2⟩⟩] = .ok ⟨.literal ⟨0, 2⟩ x, [], h⟩) ∧
        x ≠ .nan := by
  have hdenotes : Denotes "-.9007199254740993E+16".toList (.number true 9007199254740993) := by
    have hexponent : Literal.Exponent ('E' :: (['+'] ++ "16".toList)) _ :=
      .mark (.inr rfl) .plus (by simp) (List.all_eq_true.1 (by decide))
    have hdigits : Literal.Unsigned
        ([] ++ (['.'] ++ ("9007199254740993".toList ++ 'E' :: (['+'] ++ "16".toList)))) _ :=
      .digits (by simp) (List.all_eq_true.1 (by decide)) (by simp) (.inl rfl) hexponent
    have hvalue : (wholeValue 10 [] + fractionValue 10 "9007199254740993".toList) *
        (10 : ℚ) ^ (if false then -wholeValue 10 "16".toList else wholeValue 10 "16".toList : ℤ) =
          9007199254740993 := by
      decide +kernel
    rw [hvalue] at hdigits
    exact .number .minus hdigits
  have hnone : ∀ v, ¬ Denotes "1.e+".toList v := by
    intro v hv
    obtain ⟨value, hvalue, -⟩ := Literal.ofString?_of_denotes hv
    exact absurd hvalue (by rw [show Literal.ofString? "1.e+" = none by decide]; simp)
  have hpattern : "-0".toList ∈ integerPattern := (isIntegerText_iff "-0").1 (by decide)
  exact ⟨⟨hdenotes, (operand_integer_correct 22 _ ⟨0, 22⟩ []).2.2.1 _ hdenotes⟩,
    ⟨hnone, (operand_integer_correct 4 _ ⟨0, 4⟩ []).2.1 hnone⟩,
    hpattern, (operand_integer_correct 2 _ ⟨0, 2⟩ []).2.2.2 hpattern⟩

end Expr

end LineCalc
