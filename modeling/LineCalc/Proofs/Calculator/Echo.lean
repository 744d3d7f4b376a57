/-
Printed integers can be fed back. A decimal numeral that is a sign and digits alone is one literal
to the lexer, is read as the number that it was printed for, and is printed again as it is.
-/
import LineCalc.Proofs.Calculator.LeadingConfig
import LineCalc.Proofs.Decimal.Meaning
import LineCalc.Proofs.Numeral.Whole
import LineCalc.Proofs.Token.Canonical

namespace LineCalc

/-! ## A print line of one word -/

section PrintWord

variable {text : String} (hne : text ≠ "") (hword : ∀ c ∈ text.toList, LineCalc.isBlank c = false)

include hne hword

theorem Token.lex_print : lex ("print " ++ text) = [.word .print, .blank 1, .classify text] := by
  have hprint : IsPiece (.classify "print") := .word (by decide) (by simpa using by decide)
  have hcanonical : IsCanonical [.classify "print", .blank 1, .classify text] := by
    constructor
    · simpa using ⟨hprint, .gap le_rfl, .word hne hword⟩
    · rw [List.isChain_cons_cons, List.isChain_cons_cons, isBlank_classify, isBlank_classify]
      exact ⟨by decide, by decide, .singleton _⟩
  have hjoin : joinText [.classify "print", .blank 1, .classify text] = "print " ++ text := by
    simp only [joinText, List.map_cons, List.map_nil, text_classify]
    rfl
  rw [← hjoin, (lex_joinText_iff _).2 hcanonical]
  rfl

theorem words_print : words ("print " ++ text) = ["print", text] := by
  have htokens : (words ("print " ++ text)).map Token.classify =
      [.classify "print", .classify text] := by
    rw [← filter_lex, Token.lex_print hne hword, List.filter_cons_of_pos rfl,
      List.filter_cons_of_neg (by decide),
      List.filter_cons_of_pos (by rw [isBlank_classify]; rfl), List.filter_nil]
    rfl
  simpa [Function.comp_def, Token.text_classify] using congrArg (List.map Token.text) htokens

end PrintWord

/-- An integer is a word. -/
theorem isBlank_of_mem_integerPattern {cs : List Char} (h : cs ∈ integerPattern) :
    ∀ c ∈ cs, isBlank c = false := by
  intro c hc
  rcases eq_or_isDigit_of_mem_integerPattern h hc with rfl | hdigit
  · decide
  · have hall : (Numeral.digitChars.take 10).all (!isBlank ·) = true := by decide
    simpa using List.all_eq_true.1 hall c (mem_digitChars_of_isDigit hdigit)

/-! ## Printing again -/

/-- After a line that chooses a base, a line that prints a literal prints its numeral in it. -/
theorem Calculator.run_config_print {line : String} (hline : '\n' ∉ line.toList)
    {span column : Span} {value : Binary64} (hstatement : ∀ number,
      (Line.ofString line number).statement = .ok (.print span (.literal column value)))
    (calculator : Calculator) (base : Base) :
    calculator.run ("config " ++ base.keyword ++ "\n" ++ line) =
      (.ok (), { calculator with output := calculator.output.print [value.numeral base] }) := by
  have hrun : (Program.ofSource line).runOn ⟨.ofBase (some base), calculator.output⟩ =
      (.ok (), ⟨.ofBase (some base), calculator.output.print [value.numeral base]⟩) := by
    unfold Program.runOn Program.ofSource
    rw [Program.splitLines_of_notMem hline, Program.runLines_numberLines_cons]
    simp only [Line.run, hstatement, Statement.run, Expr.eval]
    rfl
  rw [run_config_append]
  simp only [setDefaultBase, run, Program.run, hrun]
  rfl

/-- Printed integers can be fed back. The decimal numeral of a number has the pattern of an integer
just if the number is an integer below `10 ^ 21`. Then it is one literal on a print line, the value
of that literal is the number, unless that is zero, and the line prints the numeral as it was. -/
theorem Calculator.run_numeral_again (x : Binary64) (v : ℚ) (hx : x.toRat? = some v) :
    let text := x.numeral .decimal
    (text.toList ∈ integerPattern ↔ (∃ n : ℤ, v = n) ∧ |v| < 10 ^ 21) ∧
    (text.toList ∈ integerPattern →
      Token.lex ("print " ++ text) = [.word .print, .blank 1, .integer text] ∧
      (∃ span column value, (v ≠ 0 → value = x) ∧ ∀ number,
        (Line.ofString ("print " ++ text) number).statement =
          .ok (.print span (.literal column value))) ∧
      ∀ default, ({ defaultBase := default } : Calculator).run ("config dec\nprint " ++ text) =
        (.ok (), { output := ⟨#[[text]]⟩, defaultBase := default })) := by
  intro text
  refine ⟨Binary64.numeral_mem_integerPattern_iff hx, ?_⟩
  intro hpattern
  have hinteger : isIntegerText text = true := (isIntegerText_iff text).2 hpattern
  have hne : text ≠ "" := by
    intro hempty
    rw [hempty] at hinteger
    exact absurd hinteger (by decide)
  have hword := isBlank_of_mem_integerPattern hpattern
  obtain ⟨literal, hliteral, hvalue, hnumeral⟩ := Binary64.exists_literal_numeral hx
  obtain ⟨span, e, hstatement, hdenotes⟩ :=
    Line.statement_print (words_print hne hword) (.single (.single (.literal hinteger))) none
  cases hdenotes with
  | @literal _ column literal' _ hliteral' =>
    obtain rfl : literal = literal' := Option.some.inj (hliteral.symm.trans hliteral')
    refine ⟨?_, ⟨span, column, literal.toBinary64, hvalue, fun _ => hstatement⟩, ?_⟩
    · rw [Token.lex_print hne hword, Token.classify_of_isIntegerText hinteger]
    · intro default
      have hline : '\n' ∉ ("print " ++ text).toList := by
        intro hnewline
        have htext : '\n' ∈ text.toList := by simpa using hnewline
        exact absurd (hword _ htext) (by decide)
      have hsource : "config dec\nprint " ++ text =
          "config " ++ Base.decimal.keyword ++ "\n" ++ ("print " ++ text) := by
        rw [← String.append_assoc]
        rfl
      rw [hsource, run_config_print hline fun _ => hstatement, hnumeral]
      rfl

/-- Minus `2 ^ 60` is printed with zeros in place of its last digits. -/
theorem Calculator.run_numeral_again_rounded :
    let x := Binary64.finite true ⟨2 ^ 52, 8, by decide, by decide, by decide, .inl (by decide)⟩
    let v : ℚ := -1152921504606846976
    let text := "-1152921504606847000"
    (x.toRat? = some v ∧ x.numeral .decimal = text ∧ v ≠ 0) ∧
    ((∃ n : ℤ, v = n) ∧ |v| < 10 ^ 21) ∧ text.toList ∈ integerPattern ∧
    Token.lex ("print " ++ text) = [.word .print, .blank 1, .integer text] ∧
    (∃ span column, ∀ number, (Line.ofString ("print " ++ text) number).statement =
      .ok (.print span (.literal column x))) ∧
    ∀ default, ({ defaultBase := default } : Calculator).run ("config dec\nprint " ++ text) =
      (.ok (), { output := ⟨#[[text]]⟩, defaultBase := default }) := by
  intro x v text
  have hx : x.toRat? = some v := by
    rw [Binary64.toRat?_finite]
    norm_num [v, Magnitude.toRat]
  have htext : x.numeral .decimal = text := by decide +kernel
  have hv : v ≠ 0 := by norm_num [v]
  have hagain := run_numeral_again x v hx
  simp only [htext] at hagain
  obtain ⟨hiff, hback⟩ := hagain
  have hpattern : text.toList ∈ integerPattern := (isIntegerText_iff text).1 (by decide)
  obtain ⟨hlex, ⟨span, column, value, hvalue, hstatement⟩, hrun⟩ := hback hpattern
  obtain rfl := hvalue hv
  exact ⟨⟨hx, htext, hv⟩, hiff.1 hpattern, hpattern, hlex, ⟨span, column, hstatement⟩, hrun⟩

end LineCalc
