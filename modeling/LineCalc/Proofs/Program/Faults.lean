/-
The faults that a source can have. Of all faults only five come out of a run, because of what the
words of a line can be: an integer is a literal, and a name is an identifier. The checks that are
made on the way, of tokens that were seen before and of parts of a report that are set, never fail.
-/
import LineCalc.Calculator
import LineCalc.Proofs.Decimal.Integer
import LineCalc.Proofs.Line.Spelling
import LineCalc.Proofs.Program.Failure
import LineCalc.Proofs.Program.Variables
import LineCalc.Proofs.Statement.Checked

namespace LineCalc

/-! ## Making reports -/

namespace Report

/-- Sets the line of a report that has none. -/
def onLine (number : Option Nat) (report : Report) : Except Slip Report :=
  if report.line = none then .ok { report with line := number } else .error .setTwice

/-- Sets the span of a report that has none. -/
def inColumns (span : Span) (report : Report) : Except Slip Report :=
  if report.span = .none then .ok { report with span } else .error .setTwice

/-- Sets the message of a report that has none. -/
def saying (message : String) (report : Report) : Except Slip Report :=
  if report.message = "" then .ok { report with message } else .error .setTwice

/-- The report of a fault, put together from its parts. -/
def build (fault : Fault) (span : Span) : Except Slip Report := do
  let placed ← inColumns span { kind := fault.kind }
  saying fault.message placed

theorem build_eq (fault : Fault) (span : Span) : build fault span = .ok (fault.reportAt span) := rfl

end Report

/-! ## Running with checks -/

/-- Carries out a line as `Line.run` does, with the checked reader. -/
def Line.checkedRun (line : Line) (machine : Machine) :
    Except Slip (Except Report (Option String) × Machine) := do
  match ← Statement.checked (Lexeme.significant line.tokens) with
  | .error report => return (.error report, machine)
  | .ok statement => return statement.run machine

/-- Runs lines as `runLines` does, and sets the number in a report only if it has none. -/
def Program.checkedLines : List Line → Machine → Except Slip (Except Report Unit × Machine)
  | [], machine => .ok (.ok (), machine)
  | line :: lines, machine => do
    match ← line.checkedRun machine with
    | (.ok _, next) => checkedLines lines next
    | (.error report, next) => return (.error (← report.onLine line.number), next)

theorem Line.checkedRun_eq (line : Line) (machine : Machine) :
    line.checkedRun machine = .ok (line.run machine) := by
  have hchecked : Statement.checked (Lexeme.significant line.tokens) = .ok line.statement :=
    Statement.checked_eq _
  rw [checkedRun, hchecked, Line.run]
  cases line.statement with
  | error report => rfl
  | ok statement => rfl

/-- A line does not set its number in its reports. -/
theorem Line.onLine_of_run_eq_error {line : Line} {machine after : Machine} {report : Report}
    (h : line.run machine = (.error report, after)) (number : Option Nat) :
    report.onLine number = .ok { report with line := number } := by
  obtain ⟨fault, hfault⟩ := exists_fault_of_run_eq_error h
  have hline : report.line = none := by
    rw [hfault]
    rfl
  exact if_pos hline

/-- No check fails in a run, which ends as the one without checks. -/
theorem Program.checkedLines_eq (lines : List Line) (machine : Machine) :
    checkedLines lines machine = .ok (runLines lines machine) := by
  induction lines generalizing machine with
  | nil => rfl
  | cons line lines ih =>
    rw [checkedLines, line.checkedRun_eq, runLines]
    rcases hrun : line.run machine with ⟨report | printed, next⟩
    · show (report.onLine line.number >>= _) = _
      rw [Line.onLine_of_run_eq_error hrun]
      rfl
    · exact ih next

/-! ## Faults of a source -/

/-- The faults that the text of a line can lead to. -/
inductive Fault.OfSource : Fault → Prop where
  | missingOperand : OfSource .missingOperand
  | missingRightParen : OfSource .missingRightParen
  | unknownBase : OfSource .unknownBase
  | undeclared {name : String} : name.toList ∈ identPattern → OfSource (.undeclared name)
  | unconfigured : OfSource .unconfigured

/-- A token of a line that is not blank is that of a word. -/
theorem exists_word_of_mem_lex {text : String} {token : Token} (h : token ∈ Token.lex text)
    (hblank : token.isBlank = false) : ∃ word, token = Token.classify word := by
  have hmem : token ∈ (Token.lex text).filter (!·.isBlank) :=
    List.mem_filter.2 ⟨h, by rw [hblank]; rfl⟩
  rw [filter_lex] at hmem
  obtain ⟨word, -, hword⟩ := List.mem_map.1 hmem
  exact ⟨word, hword.symm⟩

/-- What a line mentions is an identifier. -/
theorem Line.mem_identPattern_of_mentions {text name : String} {number : Option Nat}
    (h : (ofString text number).Mentions name) : name.toList ∈ identPattern := by
  obtain ⟨token, htoken, hname⟩ := h
  have hblank : token.isBlank = false := by
    cases token with
    | blank _ => cases hname
    | _ => rfl
  obtain ⟨word, rfl⟩ := exists_word_of_mem_lex htoken hblank
  obtain ⟨rfl, hpattern⟩ := (Token.name?_classify_iff word name).1 hname
  exact hpattern

/-- A line is never misread for the sake of an integer. -/
theorem Fault.ofSource_of_misread {text : String} {fault : Fault}
    (h : Statement.Misread (Lexeme.significant (Token.lex text)) fault) : fault.OfSource := by
  rcases h with rfl | h
  · exact .unknownBase
  cases h with
  | missingOperand => exact .missingOperand
  | missingRightParen => exact .missingRightParen
  | invalidInteger hl htoken hnone =>
    have hmem := List.mem_map_of_mem (f := Lexeme.token) hl
    rw [map_token_significant_lex, htoken] at hmem
    obtain ⟨word, -, hword⟩ := List.mem_map.1 hmem
    obtain ⟨rfl, hpattern⟩ := (Token.classify_eq_integer_iff word _).1 hword
    obtain ⟨value, hvalue, -⟩ := exists_literal_of_isIntegerText ((isIntegerText_iff _).2 hpattern)
    cases hnone.symm.trans hvalue

/-- A line fails with one of the faults of a source. -/
theorem Line.exists_ofSource_of_run_eq_error {text : String} {number : Option Nat}
    {machine after : Machine} {report : Report}
    (h : (ofString text number).run machine = (.error report, after)) :
    ∃ fault : Fault, fault.OfSource ∧ report = fault.reportAt report.span := by
  have hundeclared : ∀ {statement : Statement} {value : Expr},
      (ofString text number).statement = .ok statement →
      value.marks ⊆ statement.marks → value.eval machine.context = .error report →
      ∃ fault : Fault, fault.OfSource ∧ report = fault.reportAt report.span := by
    intro statement value hstatement hmarks heval
    obtain ⟨span, name, hname, -, rfl⟩ := Expr.eval_eq_error heval
    have hmentions := mentions_of_mem_marks hstatement (hmarks hname)
    exact ⟨_, .undeclared (mem_identPattern_of_mentions hmentions), rfl⟩
  rcases (ofString text number).run_cases machine with ⟨report', hrun, hfails⟩ | ⟨_, _, _, hrun, -⟩
  · cases h.symm.trans hrun
    cases hfails with
    | unread hread =>
      obtain ⟨⟨fault, hfault, hreport⟩, -⟩ := Statement.ofLexemes_eq_error hread
      exact ⟨fault, Fault.ofSource_of_misread hfault, hreport⟩
    | assign hstatement heval => exact hundeclared hstatement (List.subset_cons_self _ _) heval
    | print hstatement heval => exact hundeclared hstatement (List.subset_cons_self _ _) heval
    | unconfigured => exact ⟨_, .unconfigured, rfl⟩
  · cases h.symm.trans hrun

/-! ## Reports of a run -/

/-- What a report of each kind says. -/
def Report.Known (report : Report) (kind : FaultKind) : Prop :=
  report.kind = kind ∧
    match kind with
    | .syntaxError => report.message ∈
        ["EXPECTED RIGHT PARENTHESIS", "EXPECTED INTEGER OR LEFT PARENTHESIS"]
    | .invalidConfig => report.message = "EXPECTED dec, hex OR bin"
    | .undeclaredVariable => report.message.toList ∈ identPattern
    | .unconfiguredBase => report.message = ""
    | .unsupportedBase => False

theorem Fault.OfSource.known {fault : Fault} (h : fault.OfSource) (span : Span) :
    (fault.reportAt span).Known fault.kind := by
  refine ⟨rfl, ?_⟩
  cases h with
  | undeclared hname => exact hname
  | _ => simp [kind, reportAt, message]

/-- Apart from four texts, a report says nothing but identifiers. -/
theorem Report.Known.message_ne {report : Report} {kind : FaultKind} (h : report.Known kind)
    {message : String} (hident : isIdentText message = false)
    (hmessage : message ∉ ["EXPECTED RIGHT PARENTHESIS", "EXPECTED INTEGER OR LEFT PARENTHESIS",
      "EXPECTED dec, hex OR bin", ""]) : report.message ≠ message := by
  rintro rfl
  obtain ⟨-, h⟩ := h
  cases kind with
  | undeclaredVariable => exact Bool.eq_false_iff.1 hident ((isIdentText_iff _).2 h)
  | _ => simp_all

theorem Report.existsUnique_known {report : Report} {kind : FaultKind} (h : report.Known kind) :
    ∃! kind, report.Known kind :=
  ⟨kind, h, fun _ h' => h'.1.symm.trans h.1⟩

/-- A run that fails names a line of the source, and the report is that of a fault that a source
can have. -/
theorem Program.exists_ofSource_of_runOn_eq_error {source : String} {machine after : Machine}
    {report : Report} (h : (ofSource source).runOn machine = (.error report, after)) :
    ∃ n < (splitLines source).length, ∃ fault : Fault, fault.OfSource ∧
      report = { fault.reportAt report.span with line := some (n + 1) } := by
  obtain ⟨before, text, rest, hlines, hline, -, hrun⟩ := exists_failing_line h
  obtain ⟨fault, hfault, hreport⟩ := Line.exists_ofSource_of_run_eq_error hrun
  refine ⟨before.length, by simp [hlines], fault, hfault, ?_⟩
  rw [Nat.add_comm, ← hline, ← show _ = fault.reportAt report.span from hreport]

/-- Only the known reports come out of a run. For every source, default base and output, the checks
on the way all pass, no operator joins that has no operation, and a report of a failing run has the
number of a line of the source and says what exactly one of four kinds of report says; each part of
it is set once. -/
theorem Calculator.run_reports_known (calculator : Calculator) (source : String) :
    (∃ after, Program.checkedLines (Program.ofSource source).lines
        ⟨.ofBase calculator.defaultBase, calculator.output⟩ =
          .ok ((calculator.run source).1, after) ∧
      (calculator.run source).2.output = after.output) ∧
    (∀ (level : Expr.Level) (token : Token), level.checkedOp token = .ok (level.op? token)) ∧
    ∀ report, (calculator.run source).1 = .error report →
      (∃ n < (Program.splitLines source).length, report.line = some (n + 1)) ∧
      (∃! kind, report.Known kind) ∧
      (∃ fault, (Report.build fault report.span >>= Report.onLine report.line) = .ok report) ∧
      report.kind ≠ .unsupportedBase ∧
      report.message ∉ ["INVALID INTEGER", "CONSUMED PAST LAST TOKEN", "EXPECTED IDENTIFIER",
        "EXPECTED config", "EXPECTED print", "EXPECTED ="] := by
  refine ⟨⟨_, Program.checkedLines_eq _ _, rfl⟩, Expr.Level.checkedOp_eq, ?_⟩
  intro report h
  obtain ⟨n, hn, fault, hfault, hreport⟩ :=
    Program.exists_ofSource_of_runOn_eq_error (Prod.ext h rfl)
  have hknown : report.Known fault.kind := by
    rw [hreport]
    exact hfault.known report.span
  refine ⟨⟨n, hn, ?_⟩, Report.existsUnique_known hknown, ⟨fault, ?_⟩, ?_, ?_⟩
  · rw [hreport]
  · rw [Report.build_eq]
    conv_rhs => rw [hreport]
    rw [hreport]
    rfl
  · intro hkind
    rw [hknown.1.symm.trans hkind] at hknown
    exact hknown.2
  · intro hmem
    simp only [List.mem_cons, List.not_mem_nil, or_false] at hmem
    rcases hmem with h | h | h | h | h | h
    all_goals exact hknown.message_ne (by decide) (by decide) h

theorem Calculator.run_reports_known_missing_paren :
    let source := "config hex\n\nprint = 3\nprint ( print + n0 =\nconfig"
    let report : Report := { Fault.missingRightParen.reportAt ⟨19, 20⟩ with line := some 4 }
    (Calculator.run {} source).1 = .error report ∧ ∃! kind, report.Known kind := by
  intro source report
  have hrun : (Calculator.run {} source).1 = .error report := by decide +kernel
  exact ⟨hrun, ((run_reports_known {} source).2.2 report hrun).2.1⟩

end LineCalc
