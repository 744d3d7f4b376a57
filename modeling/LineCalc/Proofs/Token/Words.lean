/-
Words: the pieces of a text between its blanks. The tokens of a line that are not blank are those of
its words, in order, and the class of a token is read off its word.
-/
import LineCalc.Proofs.Token.Runs

namespace LineCalc

/-! ## The words of a text -/

/-- The pieces of a list of characters between blanks, as far as they are not empty. -/
def wordRuns (cs : List Char) : List (List Char) := (cs.splitOnP isBlank).filter (· ≠ [])

/-- The words of a text, in order. -/
def words (text : String) : List String := (wordRuns text.toList).map String.ofList

theorem wordRuns_blank_append {gap : List Char} (h : ∀ c ∈ gap, isBlank c = true) (cs : List Char) :
    wordRuns (gap ++ cs) = wordRuns cs := by
  induction gap with
  | nil => rfl
  | cons c gap ih =>
    have hc : isBlank c = true := h c List.mem_cons_self
    have hcons : wordRuns (c :: (gap ++ cs)) = wordRuns (gap ++ cs) := by
      simp [wordRuns, List.splitOnP_cons_eq_if_modifyHead, hc]
    rw [List.cons_append, hcons]
    exact ih fun d hd => h d (List.mem_cons_of_mem c hd)

theorem wordRuns_word_append {word cs : List Char} (hne : word ≠ [])
    (hword : ∀ c ∈ word, isBlank c = false) (hcs : ∀ c ∈ cs.head?, isBlank c = true) :
    wordRuns (word ++ cs) = word :: wordRuns cs := by
  cases cs with
  | nil => simp [wordRuns, List.splitOnP_eq_singleton hword, hne]
  | cons c cs =>
    have hc : isBlank c = true := hcs c rfl
    have hrest : wordRuns (c :: cs) = wordRuns cs :=
      wordRuns_blank_append (fun d hd => List.mem_singleton.1 hd ▸ hc) cs
    rw [hrest]
    unfold wordRuns
    rw [List.splitOnP_append_cons_of_forall_mem hword c hc]
    simp [hne]

/-- The words of a cut text are its runs without blanks. -/
theorem wordRuns_flatten {rs : List (List Char)} (h : IsCut rs) :
    wordRuns rs.flatten = rs.filter (!isBlankRun ·) := by
  induction rs with
  | nil => rfl
  | cons run rs ih =>
    have huniform := h.uniform run List.mem_cons_self
    cases hrun : isBlankRun run with
    | true =>
      rw [List.flatten_cons, wordRuns_blank_append (fun c hc => (huniform c hc).trans hrun),
        ih h.tail, List.filter_cons_of_neg (by simp [hrun])]
    | false =>
      have hafter : ∀ c ∈ rs.flatten.head?, isBlank c = true :=
        IsCut.blank_after (show IsCut ([] ++ run :: rs) from h) hrun
      rw [List.flatten_cons, wordRuns_word_append (h.ne_nil run List.mem_cons_self)
        (fun c hc => (huniform c hc).trans hrun) hafter, ih h.tail,
        List.filter_cons_of_pos (by simp [hrun])]

/-! ## Tokens of words -/

theorem words_eq_map_runs (text : String) :
    words text = ((runs text).filter (!isBlankRun ·)).map String.ofList := by
  rw [words, ← flatten_runs, wordRuns_flatten (isCut_runs text)]

/-- The tokens of a line that are not blank are those of its words. -/
theorem filter_lex (text : String) :
    (Token.lex text).filter (!·.isBlank) = (words text).map Token.classify := by
  have hlex : Token.lex text = (runs text).map Token.ofRun := rfl
  rw [hlex, words_eq_map_runs, List.filter_map, List.map_map]
  have hfilter : (runs text).filter ((!·.isBlank) ∘ Token.ofRun) =
      (runs text).filter (!isBlankRun ·) :=
    List.filter_congr fun run _ => congrArg not (isBlank_ofRun run)
  rw [hfilter]
  apply List.map_congr_left
  intro run hrun
  have hword : isBlankRun run = false := by simpa using (List.mem_filter.1 hrun).2
  exact ofRun_of_word hword

namespace Token

theorem isDigit_eq_false_of_isAlpha {c : Char} (h : c.isAlpha = true) : c.isDigit = false := by
  rw [Bool.eq_false_iff]
  intro hdigit
  have hle : c.toNat ≤ 57 := (Char.isDigit_iff_toNat.1 hdigit).2
  rcases Bool.or_eq_true_iff.1 (show (c.isUpper || c.isLower) = true from h) with hupper | hlower
  · have hge : 65 ≤ c.toNat := UInt32.le_iff_toNat_le.1 (of_decide_eq_true hupper).1
    omega
  · have hge : 97 ≤ c.toNat :=
      UInt32.le_iff_toNat_le.1 (of_decide_eq_true (Bool.and_eq_true_iff.1 hlower).1)
    omega

theorem isIntegerText_of_isIdentText {text : String} (h : isIdentText text = true) :
    isIntegerText text = false := by
  unfold isIdentText at h
  unfold isIntegerText
  cases hcs : text.toList with
  | nil => rfl
  | cons c cs =>
    rw [hcs] at h
    simp only [Bool.and_eq_true] at h
    have hsign : c ≠ '-' := by
      rintro rfl
      exact absurd h.1 (by decide)
    have hdigit : c.isDigit = false := isDigit_eq_false_of_isAlpha h.1
    simp [hsign, hdigit]

theorem word_ofString?_eq_none {text : String} (h : isIntegerText text = true) :
    Word.ofString? text = none := by
  rcases hw : Word.ofString? text with _ | w
  · rfl
  · rw [← Word.text_of_ofString? hw] at h
    cases w <;> exact absurd h (by decide)

theorem operator_ofString?_eq_none {text : String}
    (h : isIntegerText text = true ∨ isIdentText text = true) :
    Operator.ofString? text = none := by
  rcases ho : Operator.ofString? text with _ | o
  · rfl
  · rw [← Operator.text_of_ofString? ho] at h
    cases o <;> exact absurd h (by decide)

theorem ne_paren {text : String} (h : isIntegerText text = true ∨ isIdentText text = true) :
    text ≠ "(" ∧ text ≠ ")" := by
  constructor
  · rintro rfl
    exact absurd h (by decide)
  · rintro rfl
    exact absurd h (by decide)

theorem classify_of_isIntegerText {text : String} (h : isIntegerText text = true) :
    classify text = .integer text := by
  obtain ⟨hleft, hright⟩ := ne_paren (.inl h)
  simp [classify, word_ofString?_eq_none h, operator_ofString?_eq_none (.inl h), hleft, hright, h]

theorem name?_classify_of_isIdentText {text : String} (h : isIdentText text = true) :
    (classify text).name? = some text := by
  obtain ⟨hleft, hright⟩ := ne_paren (.inr h)
  rcases hw : Word.ofString? text with _ | w
  · simp [classify, hw, operator_ofString?_eq_none (.inr h), hleft, hright,
      isIntegerText_of_isIdentText h, h, name?]
  · simp [classify, hw, name?, Word.text_of_ofString? hw]

/-- The word `config` is no name to assign to. -/
theorem classify_ne_config {text : String} (h : text ≠ "config") :
    classify text ≠ .word .config := by
  intro hconfig
  apply h
  rw [← text_classify text, hconfig]
  rfl

end Token

end LineCalc
