/-
Lines that say nothing. A line is idle if it is blank, or if its first word is neither `config` nor
`print` nor a name with `=` after it, whatever else it holds. Such a line does nothing wherever it
stands, so it can be put into a source or left out of it; only the lines below it change their
numbers.
-/
import LineCalc.Proofs.Line.Spelling
import LineCalc.Proofs.Program.Sequence

namespace LineCalc

/-! ## Idle lines -/

/-- The words of a line that says nothing. -/
def Idle : List String → Prop
  | [] => True
  | head :: rest => head ≠ "config" ∧ head ≠ "print" ∧
      ¬ (head.toList ∈ identPattern ∧ rest.head? = some "=")

namespace Token

/-- A token that its own text is classified as is that of no other text. -/
theorem classify_eq_iff {t : Token} (h : classify t.text = t) (word : String) :
    classify word = t ↔ word = t.text := by
  constructor
  · intro hword
    rw [← text_classify word, hword]
  · rintro rfl
    exact h

theorem classify_eq_word_iff (w : Word) (word : String) :
    classify word = .word w ↔ word = w.text :=
  classify_eq_iff (by cases w <;> decide) word

theorem classify_eq_equals_iff (word : String) :
    classify word = .operator .equals ↔ word = "=" :=
  classify_eq_iff (by decide) word

end Token

namespace Statement

variable {ls : List Lexeme} {ws : List String}

/-- Lexemes with none of the heads are those of idle words. -/
theorem idle_of_no_head (hls : ls.map Lexeme.token = ws.map Token.classify)
    (hconfig : ∀ span rest, ¬ ConfigHead ls span rest)
    (hassign : ∀ span name body, ¬ AssignHead ls span name body)
    (hprint : ∀ span body, ¬ PrintHead ls span body) : Idle ws := by
  cases ws with
  | nil => trivial
  | cons word tail =>
    obtain ⟨head, rest, rfl, hhead, hrest⟩ := List.map_eq_cons_iff.1 hls
    have hword : word ≠ "config" := by
      rintro rfl
      exact hconfig head.span rest ⟨head, rfl, hhead, rfl⟩
    -- a name with `=` after it would lead an assignment
    have hname : ¬ (word.toList ∈ identPattern ∧ tail.head? = some "=") := by
      rintro ⟨hname, hequals⟩
      obtain ⟨tail, rfl⟩ := List.head?_eq_some_iff.1 hequals
      obtain ⟨equals, body, rfl, hequals, -⟩ := List.map_eq_cons_iff.1 hrest
      refine hassign head.span word body ⟨head, equals, rfl, ?_, ?_, hequals, rfl⟩
      · rw [hhead]
        exact Token.classify_ne_config hword
      · rw [hhead, Token.name?_classify_iff]
        exact ⟨rfl, hname⟩
    refine ⟨hword, ?_, hname⟩
    rintro rfl
    refine hprint head.span rest ⟨head, rfl, hhead, ?_, rfl⟩
    rintro l hl hequals
    obtain ⟨rest, rfl⟩ := List.head?_eq_some_iff.1 hl
    obtain ⟨equals, tail, rfl, hl, -⟩ := List.map_eq_cons_iff.1 hrest.symm
    rw [hequals, Token.classify_eq_equals_iff] at hl
    exact hname ⟨(isIdentText_iff _).1 (by decide), by rw [hl, List.head?_cons]⟩

/-- Idle words have none of the heads. -/
theorem ofLexemes_of_idle (hls : ls.map Lexeme.token = ws.map Token.classify) (h : Idle ws) :
    ofLexemes ls = .ok .empty := by
  apply ofLexemes_of_no_head
  · rintro span rest ⟨head, rfl, hhead, -⟩
    obtain ⟨word, tail, rfl, hword, -⟩ := List.map_eq_cons_iff.1 hls.symm
    rw [hhead, Token.classify_eq_word_iff] at hword
    exact h.1 hword
  · rintro span name body ⟨head, equals, rfl, -, hname, hequals, -⟩
    obtain ⟨word, tail, rfl, hword, hrest⟩ := List.map_eq_cons_iff.1 hls.symm
    obtain ⟨word', tail, rfl, hword', -⟩ := List.map_eq_cons_iff.1 hrest
    rw [hequals, Token.classify_eq_equals_iff] at hword'
    rw [← hword, Token.name?_classify_iff] at hname
    exact h.2.2 ⟨hname.2, by rw [hword', List.head?_cons]⟩
  · rintro span body ⟨head, rfl, hhead, -⟩
    obtain ⟨word, tail, rfl, hword, -⟩ := List.map_eq_cons_iff.1 hls.symm
    rw [hhead, Token.classify_eq_word_iff] at hword
    exact h.2.1 hword

end Statement

/-! ## Running idle lines -/

namespace Line

/-- A line says nothing just if it is idle. -/
theorem statement_eq_empty_iff (text : String) (number : Option Nat) :
    (ofString text number).statement = .ok .empty ↔ Idle (words text) := by
  have hls := map_token_significant_lex text
  constructor
  · intro h
    cases says_of_statement_eq_ok h with
    | empty hconfig hassign hprint => exact Statement.idle_of_no_head hls hconfig hassign hprint
  · intro h
    exact Statement.ofLexemes_of_idle hls h

theorem run_of_idle {text : String} (h : Idle (words text)) (number : Option Nat)
    (machine : Machine) : (ofString text number).run machine = (.ok none, machine) := by
  simp only [run, (statement_eq_empty_iff text number).2 h, Statement.run]

end Line

theorem Report.moveDown_add (m n : Nat) (report : Report) :
    report.moveDown (m + n) = (report.moveDown m).moveDown n := by
  simp [moveDown, Function.comp_def, Nat.add_assoc]

namespace Program

theorem runOn_of_idle {line : String} (hline : '\n' ∉ line.toList) (h : Idle (words line))
    (machine : Machine) : (ofSource line).runOn machine = (.ok (), machine) := by
  unfold runOn ofSource
  rw [splitLines_of_notMem hline, runLines_numberLines_cons, Line.run_of_idle h]
  rfl

/-- An idle line at the end of a source changes nothing. -/
theorem runOn_append_idle {line : String} (hline : '\n' ∉ line.toList) (h : Idle (words line))
    (source : String) (machine : Machine) :
    (ofSource (source ++ "\n" ++ line)).runOn machine = (ofSource source).runOn machine := by
  rw [runOn_append]
  rcases (ofSource source).runOn machine with ⟨report | _, after⟩
  · rfl
  · simp only [runOn_of_idle hline h]
    rfl

/-- An idle line between two texts moves the reports of the second one line further down, and does
nothing else. -/
theorem runOn_between_idle {line : String} (hline : '\n' ∉ line.toList) (h : Idle (words line))
    (a b : String) (machine : Machine) :
    (ofSource (a ++ "\n" ++ line ++ "\n" ++ b)).runOn machine =
      match (ofSource a).runOn machine with
      | (.ok _, _) => ((ofSource (a ++ "\n" ++ b)).runOn machine).map
          (Except.mapError (Report.moveDown 1)) id
      | (.error report, after) => (.error report, after) := by
  have hcount : 1 + (a ++ "\n" ++ line).toList.count '\n' = 1 + a.toList.count '\n' + 1 := by
    simp [List.count_eq_zero.2 hline, Nat.add_assoc]
  rw [runOn_append, runOn_append_idle hline h, runOn_append a b, hcount]
  rcases (ofSource a).runOn machine with ⟨report | _, after⟩
  · rfl
  · dsimp only
    rcases (ofSource b).runOn after with ⟨report | _, last⟩
    · simp only [Prod.map, Except.mapError, Report.moveDown_add]
      rfl
    · rfl

/-- Idle lines are harmless anywhere. A line that is blank, or that neither `config` nor `print` nor
a name and `=` lead, is put between two texts, and whatever else it holds, the run ends with the
same machine. A fault of the first text is reported as it was; a fault of the second is reported one
line further down, and no other difference is made. -/
theorem runOn_idle_line {line : String} (hline : '\n' ∉ line.toList) (hidle : Idle (words line))
    (a b : String) (machine : Machine) :
    let without := (ofSource (a ++ "\n" ++ b)).runOn machine
    let between := (ofSource (a ++ "\n" ++ line ++ "\n" ++ b)).runOn machine
    between.2 = without.2 ∧
    match (ofSource a).runOn machine with
    | (.error report, _) => without.1 = .error report ∧ between.1 = .error report
    | (.ok (), _) =>
      match without.1 with
      | .ok () => between.1 = .ok ()
      | .error report => ∃ n, (splitLines a).length < n ∧ report.line = some n ∧
          between.1 = .error { report with line := some (n + 1) } := by
  intro without between
  have hbetween : between = _ := runOn_between_idle hline hidle a b machine
  have hwithout : without = _ := runOn_append a b machine
  rcases hfirst : (ofSource a).runOn machine with ⟨report | _, after⟩
  · simp only [hfirst] at hbetween hwithout
    rw [hbetween, hwithout]
    exact ⟨rfl, rfl, rfl⟩
  · simp only [hfirst] at hbetween hwithout
    rw [show (ofSource (a ++ "\n" ++ b)).runOn machine = _ from hwithout] at hbetween
    rcases hsecond : (ofSource b).runOn after with ⟨report | _, last⟩
    · obtain ⟨k, -, hnumber⟩ := line_of_runLines_eq_error hsecond
      rw [hsecond] at hbetween hwithout
      rw [hbetween, hwithout, length_splitLines]
      refine ⟨rfl, 1 + k + (1 + a.toList.count '\n'), by omega, ?_, ?_⟩
      · simp only [Report.moveDown, hnumber, Option.map_some]
      · simp only [Prod.map, Except.mapError, Report.moveDown, hnumber, Option.map_some]
    · rw [hsecond] at hbetween hwithout
      rw [hbetween, hwithout]
      exact ⟨rfl, rfl⟩

/-- A line with what would be a head elsewhere, unbalanced parentheses and an unknown sign. -/
theorem runOn_idle_line_unbalanced :
    let a := "x = 2\nprint x"
    let line := "\t2+3 ) = \u00a7 config ( print"
    let b := "print ( y )"
    let machine : Machine := ⟨.ofBase (some .binary), .empty⟩
    let between := (ofSource (a ++ "\n" ++ line ++ "\n" ++ b)).runOn machine
    ('\n' ∉ line.toList ∧ Idle (words line)) ∧ between.2.output.lines = ["10"] ∧
      between.1 = .error { (Fault.undeclared "y").reportAt ⟨8, 9⟩ with line := some 4 } := by
  intro a line b machine between
  let without := (ofSource (a ++ "\n" ++ b)).runOn machine
  have hline : '\n' ∉ line.toList := by decide
  have hwords : words line = ["2+3", ")", "=", "\u00a7", "config", "(", "print"] := by decide
  have hidle : Idle (words line) := by
    rw [hwords]
    refine ⟨by decide, by decide, ?_⟩
    rintro ⟨-, hequals⟩
    exact absurd hequals (by decide)
  have hlines : without.2.output.lines = ["10"] := by decide +kernel
  have hfirst : ((ofSource a).runOn machine).1 = .ok () := by decide +kernel
  have hreport : without.1 =
      .error { (Fault.undeclared "y").reportAt ⟨8, 9⟩ with line := some 3 } := by decide +kernel
  obtain ⟨hmachine, hresult⟩ := runOn_idle_line hline hidle a b machine
  refine ⟨⟨hline, hidle⟩, ?_, ?_⟩
  · rw [show between.2 = without.2 from hmachine]
    exact hlines
  · rcases hrun : (ofSource a).runOn machine with ⟨_ | _, after⟩
    · rw [hrun] at hfirst
      cases hfirst
    · simp only [hrun, show ((ofSource (a ++ "\n" ++ b)).runOn machine).1 = _ from hreport]
        at hresult
      obtain ⟨n, -, ⟨⟩, hbetween⟩ := hresult
      exact hbetween

end Program

end LineCalc
