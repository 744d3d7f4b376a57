/-
The patterns of integers and identifiers as languages, and the class of a token read off its text:
next to the words, the signs and the parentheses, which are fixed texts, the two patterns decide.
-/
import LineCalc.Proofs.Token.Words
import Mathlib.Computability.Language

namespace LineCalc

open Computability

/-! ## Patterns -/

/-- The texts of one character in a range. -/
def charRange (first last : Char) : Language Char := {cs | ∃ c, (first ≤ c ∧ c ≤ last) ∧ cs = [c]}

def digitPattern : Language Char := charRange '0' '9'

def letterPattern : Language Char := charRange 'A' 'Z' + charRange 'a' 'z'

/-- The pattern `-?[0-9]+`. -/
def integerPattern : Language Char := (1 + {['-']}) * (digitPattern * digitPattern∗)

/-- The pattern `[A-Za-z][A-Za-z0-9]*`. -/
def identPattern : Language Char := letterPattern * (letterPattern + digitPattern)∗

/-! ## Languages of single characters -/

/-- The language has the texts of one character that passes the test, and no others. -/
def IsClass (p : Char → Bool) (l : Language Char) : Prop :=
  ∀ cs, cs ∈ l ↔ ∃ c, p c = true ∧ cs = [c]

namespace IsClass

variable {p q : Char → Bool} {l m : Language Char}

theorem add (hl : IsClass p l) (hm : IsClass q m) : IsClass (fun c => p c || q c) (l + m) := by
  intro cs
  rw [Language.mem_add, hl, hm, ← exists_or]
  refine exists_congr fun c => ?_
  rw [Bool.or_eq_true, or_and_right]

theorem cons_mem_mul (hl : IsClass p l) (c : Char) (cs : List Char) :
    c :: cs ∈ l * m ↔ p c = true ∧ cs ∈ m := by
  rw [Language.mem_mul]
  constructor
  · rintro ⟨head, hhead, tail, htail, happend⟩
    obtain ⟨d, hd, rfl⟩ := (hl head).1 hhead
    obtain ⟨rfl, rfl⟩ := List.cons.inj happend
    exact ⟨hd, htail⟩
  · rintro ⟨hc, hcs⟩
    exact ⟨[c], (hl _).2 ⟨c, hc, rfl⟩, cs, hcs, rfl⟩

theorem nil_notMem_mul (hl : IsClass p l) : [] ∉ l * m := by
  rw [Language.mem_mul]
  rintro ⟨head, hhead, tail, -, happend⟩
  obtain ⟨d, -, rfl⟩ := (hl head).1 hhead
  cases happend

theorem mem_kstar_iff (hl : IsClass p l) (cs : List Char) : cs ∈ l∗ ↔ cs.all p = true := by
  rw [Language.mem_kstar, List.all_eq_true]
  constructor
  · rintro ⟨parts, rfl, hparts⟩ c hc
    obtain ⟨part, hpart, hc⟩ := List.mem_flatten.1 hc
    obtain ⟨d, hd, rfl⟩ := (hl part).1 (hparts part hpart)
    rwa [List.mem_singleton.1 hc]
  · intro h
    refine ⟨cs.map fun c => [c], (List.flatMap_singleton' cs).symm, fun part hpart => ?_⟩
    obtain ⟨c, hc, rfl⟩ := List.mem_map.1 hpart
    exact (hl _).2 ⟨c, h c hc, rfl⟩

theorem mem_plus_iff (hl : IsClass p l) (cs : List Char) :
    cs ∈ l * l∗ ↔ cs ≠ [] ∧ ∀ c ∈ cs, p c = true := by
  cases cs with
  | nil => simp [hl.nil_notMem_mul]
  | cons c cs => simp [hl.cons_mem_mul, hl.mem_kstar_iff]

end IsClass

theorem isClass_charRange {first last : Char} {p : Char → Bool}
    (h : ∀ c, p c = true ↔ first ≤ c ∧ c ≤ last) : IsClass p (charRange first last) := by
  intro cs
  exact exists_congr fun c => and_congr_left fun _ => (h c).symm

theorem isClass_digitPattern : IsClass Char.isDigit digitPattern :=
  isClass_charRange fun _ =>
    Bool.and_eq_true_iff.trans (and_congr decide_eq_true_iff decide_eq_true_iff)

theorem isClass_letterPattern : IsClass Char.isAlpha letterPattern := by
  have hupper : IsClass Char.isUpper (charRange 'A' 'Z') :=
    isClass_charRange fun _ => decide_eq_true_iff
  have hlower : IsClass Char.isLower (charRange 'a' 'z') :=
    isClass_charRange fun _ =>
      Bool.and_eq_true_iff.trans (and_congr decide_eq_true_iff decide_eq_true_iff)
  exact hupper.add hlower

/-! ## The patterns of texts -/

theorem isIdentText_iff (text : String) : isIdentText text = true ↔ text.toList ∈ identPattern := by
  have hchars : IsClass Char.isAlphanum (letterPattern + digitPattern) :=
    isClass_letterPattern.add isClass_digitPattern
  unfold isIdentText identPattern
  cases text.toList with
  | nil => simp [isClass_letterPattern.nil_notMem_mul]
  | cons c cs =>
    rw [isClass_letterPattern.cons_mem_mul, hchars.mem_kstar_iff]
    exact Bool.and_eq_true_iff

theorem mem_digits_iff (cs : List Char) :
    cs ∈ digitPattern * digitPattern∗ ↔ cs ≠ [] ∧ ∀ c ∈ cs, c.isDigit = true :=
  isClass_digitPattern.mem_plus_iff cs

/-- A sign that may be left out. -/
theorem sign_mem (negative : Bool) :
    (if negative then ['-'] else []) ∈ (1 + {['-']} : Language Char) := by
  cases negative
  · exact .inl rfl
  · exact .inr rfl

theorem exists_digits_of_isIntegerText {text : String} (h : isIntegerText text = true) :
    ∃ (negative : Bool) (digits : List Char),
      text.toList = (if negative then ['-'] else []) ++ digits ∧ digits ≠ [] ∧
        ∀ c ∈ digits, c.isDigit = true := by
  unfold isIntegerText at h
  simp only [Bool.and_eq_true, Bool.not_eq_true', List.isEmpty_eq_false_iff, List.all_eq_true] at h
  split at h
  · rename_i cs hcs
    exact ⟨true, cs, hcs, h⟩
  · exact ⟨false, text.toList, rfl, h⟩

theorem isIntegerText_iff (text : String) :
    isIntegerText text = true ↔ text.toList ∈ integerPattern := by
  rw [integerPattern, Language.mem_mul]
  constructor
  · intro h
    obtain ⟨negative, digits, htext, hdigits⟩ := exists_digits_of_isIntegerText h
    exact ⟨_, sign_mem negative, digits, (mem_digits_iff digits).2 hdigits, htext.symm⟩
  · rintro ⟨sign, hsign, digits, hdigits, htext⟩
    obtain ⟨hne, hdigits⟩ := (mem_digits_iff digits).1 hdigits
    unfold isIntegerText
    simp only [Bool.and_eq_true, Bool.not_eq_true', List.isEmpty_eq_false_iff, List.all_eq_true,
      ← htext]
    rcases hsign with rfl | rfl
    · split
      · rename_i cs hcs
        -- a minus sign is no digit
        obtain rfl : digits = '-' :: cs := hcs
        exact absurd (hdigits '-' List.mem_cons_self) (by decide)
      · exact ⟨hne, hdigits⟩
    · exact ⟨hne, hdigits⟩

/-! ## The class of a token -/

namespace Token

theorem word_ofString?_eq_none_iff (text : String) :
    Word.ofString? text = none ↔ text ∉ ["config", "print"] := by
  unfold Word.ofString?
  rw [List.find?_eq_none]
  simp [Word.text, eq_comm]

theorem operator_ofString?_eq_none_iff (text : String) :
    Operator.ofString? text = none ↔ text ∉ ["+", "-", "*", "/", "="] := by
  unfold Operator.ofString?
  rw [List.find?_eq_none]
  simp [Operator.text, eq_comm]

/-- A token is a name just if its text has the pattern of one. -/
theorem name?_classify_iff (text name : String) :
    (classify text).name? = some name ↔ name = text ∧ text.toList ∈ identPattern := by
  rw [← isIdentText_iff]
  constructor
  · intro h
    unfold classify at h
    split at h
    · rename_i w hw
      obtain rfl := Word.text_of_ofString? hw
      obtain rfl := Option.some.inj h
      refine ⟨rfl, ?_⟩
      cases w <;> decide
    · cases h
    · split_ifs at h with _ _ _ hident
      all_goals cases h
      exact ⟨rfl, hident⟩
  · rintro ⟨rfl, h⟩
    exact name?_classify_of_isIdentText h

theorem classify_eq_integer_iff (text digits : String) :
    classify text = .integer digits ↔ digits = text ∧ text.toList ∈ integerPattern := by
  rw [← isIntegerText_iff]
  constructor
  · intro h
    unfold classify at h
    split at h
    · cases h
    · cases h
    · split_ifs at h with _ _ hinteger
      all_goals cases h
      exact ⟨rfl, hinteger⟩
  · rintro ⟨rfl, h⟩
    exact classify_of_isIntegerText h

theorem classify_eq_unknown_iff (text rest : String) :
    classify text = .unknown rest ↔ rest = text ∧ text ∉ ["config", "print"] ∧
      text ∉ ["+", "-", "*", "/", "="] ∧ text ∉ ["(", ")"] ∧ text.toList ∉ integerPattern ∧
      text.toList ∉ identPattern := by
  rw [← isIntegerText_iff, ← isIdentText_iff, ← word_ofString?_eq_none_iff,
    ← operator_ofString?_eq_none_iff]
  unfold classify
  grind

end Token

end LineCalc
