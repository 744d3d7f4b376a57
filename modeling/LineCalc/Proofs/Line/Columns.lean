/-
Columns and the text of a line. Each column kept in a statement is that of a word of the line, and
that word is what the statement shows there; each report about the line is placed at a word or just
after the last one.
-/
import LineCalc.Machine
import LineCalc.Proofs.Expr.Marks
import LineCalc.Proofs.Statement.Grammar
import LineCalc.Proofs.Token.Runs

namespace LineCalc

/-! ## Marks of statements -/

/-- The marks of a statement with their columns: its head's, then those of its expression. -/
def Statement.marks : Statement → List (Span × Mark)
  | empty => []
  | config span _ => [(span, .name Word.config.text)]
  | assign span name value => (span, .name name) :: value.marks
  | print span value => (span, .name Word.print.text) :: value.marks

/-- The marks are those of lexemes of the line, in their order. -/
theorem Statement.Says.exists_sublist {ls : List Lexeme} {statement : Statement}
    (h : Says ls (.ok statement)) : ∃ vs : List Lexeme, vs.Sublist ls ∧
      vs.map Lexeme.mark = statement.marks.map fun m => (m.1, some m.2) := by
  cases h with
  | config h hl =>
    obtain ⟨head, rfl, hhead, rfl⟩ := h
    refine ⟨[head], by simp, ?_⟩
    simp [Lexeme.mark, marks, hhead, Mark.ofToken?, Token.name?]
  | assign h he =>
    obtain ⟨head, equals, rfl, -, hname, -, rfl⟩ := h
    obtain ⟨u, w, rfl, hd, -⟩ := he
    refine ⟨head :: u.filter (!·.token.isParen), ?_, ?_⟩
    · exact .cons_cons head (.cons equals (List.filter_sublist.trans (List.sublist_append_left u w)))
    · rw [List.map_cons, hd.map_mark]
      simp [Lexeme.mark, marks, Mark.ofToken?_of_name? hname]
  | print h he =>
    obtain ⟨head, rfl, hhead, -, rfl⟩ := h
    obtain ⟨u, w, rfl, hd, -⟩ := he
    refine ⟨head :: u.filter (!·.token.isParen), ?_, ?_⟩
    · exact .cons_cons head (List.filter_sublist.trans (List.sublist_append_left u w))
    · rw [List.map_cons, hd.map_mark]
      simp [Lexeme.mark, marks, hhead, Mark.ofToken?, Token.name?]
  | empty => exact ⟨[], by simp, rfl⟩

/-! ## Places of reports -/

/-- A report about a line is placed at a word of it, or just after its last character that is not
blank. -/
def Report.PlacedIn (report : Report) (cs : List Char) : Prop :=
  (∃ word, WordAt cs report.span word) ∨
    ∃ before c after, cs = before ++ c :: after ∧ isBlank c = false ∧
      (∀ d ∈ after, isBlank d = true) ∧ report.span = .caret (before.length + 1)

theorem Report.PlacedIn.span_ne_none {report : Report} {cs : List Char}
    (h : report.PlacedIn cs) : report.span ≠ .none := by
  rcases h with ⟨word, hne, -, before, after, -, hspan, -⟩ | ⟨before, c, after, -, -, -, hspan⟩
  · have := List.length_pos_iff.2 hne
    rw [hspan, Span.none, ne_eq, Span.mk.injEq]
    omega
  · rw [hspan, Span.none, Span.caret, ne_eq, Span.mk.injEq]
    omega

theorem Report.PlacedIn.span_le {report : Report} {cs : List Char} (h : report.PlacedIn cs) :
    report.span.start ≤ report.span.stop ∧ report.span.stop ≤ cs.length := by
  rcases h with ⟨word, -, -, before, after, rfl, hspan, -⟩ | ⟨before, c, after, rfl, -, -, hspan⟩
  · rw [hspan]
    simp
  · rw [hspan]
    simp [Span.caret]

/-- The text of a report shows every span but that of a report without a place. -/
theorem Report.text_of_span_ne_none {report : Report} (h : report.span ≠ .none) :
    ∃ before after, report.text = before ++ "(" ++ toString report.span.start ++ ".." ++
      toString report.span.stop ++ ")" ++ after := by
  obtain ⟨line, hplace⟩ : ∃ line, report.place = line ++ (" (" ++ toString report.span.start ++
      ".." ++ toString report.span.stop ++ ")") := ⟨_, by simp only [place, h, if_false]; rfl⟩
  have hne : report.place ≠ "" := by
    intro hempty
    have := congrArg String.length (hplace.symm.trans hempty)
    simp at this
  refine ⟨report.kind.title ++ " IN" ++ line ++ " ",
    if report.message = "" then "" else "; " ++ report.message, ?_⟩
  simp only [text, hne, if_false]
  rw [hplace, show " (" = " " ++ "(" from rfl]
  simp only [String.append_assoc]

/-- The faults that a list can have for the reader of statements. -/
def Statement.Misread (ls : List Lexeme) (fault : Fault) : Prop :=
  fault = .unknownBase ∨ Expr.Misread ls fault

/-- A report of the reader of statements is that of a fault, at a lexeme or at the end of a line
that has one. -/
theorem Statement.ofLexemes_eq_error {ls : List Lexeme} {report : Report}
    (h : ofLexemes ls = .error report) :
    (∃ fault, Misread ls fault ∧ report = fault.reportAt report.span) ∧
    ((∃ l ∈ ls, report.span = l.span) ∨
      ls ≠ [] ∧ report.span = .caret (Lexeme.endColumn ls)) := by
  have hread : ∀ {build : Expr → Statement} {body : List Lexeme}, body ⊆ ls →
      readWith build (Lexeme.endColumn ls) body = .error report →
      (∃ fault, Misread ls fault ∧ report = fault.reportAt report.span) ∧
      (report.span = .caret (Lexeme.endColumn ls) ∨ ∃ l ∈ ls, report.span = l.span) := by
    intro build body hsub hread
    unfold readWith at hread
    cases hsum : Expr.sum (Lexeme.endColumn ls) body with
    | ok read => rw [hsum] at hread; cases hread
    | error report' =>
      rw [hsum] at hread
      cases hread
      obtain ⟨⟨fault, hfault, hreport⟩, hspan⟩ := Expr.sum_eq_error hsum
      refine ⟨⟨fault, .inr (hfault.mono hsub), hreport⟩, ?_⟩
      rcases hspan with hspan | ⟨l, hl, hspan⟩
      · exact .inl hspan
      · exact .inr ⟨l, hsub hl, hspan⟩
  by_cases hconfig : ∃ span rest, ConfigHead ls span rest
  · obtain ⟨span, rest, hhead⟩ := hconfig
    rw [ofLexemes_of_configHead hhead] at h
    obtain ⟨head, rfl, -⟩ := hhead
    unfold readConfig at h
    split at h
    · cases h
    · cases h
      refine ⟨⟨_, .inl rfl, rfl⟩, ?_⟩
      cases rest with
      | nil => exact .inr ⟨List.cons_ne_nil _ _, rfl⟩
      | cons l rest => exact .inl ⟨l, by simp, rfl⟩
  by_cases hassign : ∃ span name body, AssignHead ls span name body
  · obtain ⟨span, name, body, hhead⟩ := hassign
    rw [ofLexemes_of_assignHead hhead] at h
    obtain ⟨head, equals, rfl, -⟩ := hhead
    obtain ⟨hfault, hspan | hspan⟩ := hread (by simp) h
    · exact ⟨hfault, .inr ⟨List.cons_ne_nil _ _, hspan⟩⟩
    · exact ⟨hfault, .inl hspan⟩
  by_cases hprint : ∃ span body, PrintHead ls span body
  · obtain ⟨span, body, hhead⟩ := hprint
    rw [ofLexemes_of_printHead hhead] at h
    obtain ⟨head, rfl, -⟩ := hhead
    obtain ⟨hfault, hspan | hspan⟩ := hread (by simp) h
    · exact ⟨hfault, .inr ⟨List.cons_ne_nil _ _, hspan⟩⟩
    · exact ⟨hfault, .inl hspan⟩
  simp only [not_exists] at hconfig hassign hprint
  rw [ofLexemes_of_no_head hconfig hassign hprint] at h
  cases h

/-- A failing evaluation reports a variable of the expression that has no value to read, at its
columns. -/
theorem Expr.eval_eq_error {context : Context} {e : Expr} {report : Report}
    (h : e.eval context = .error report) : ∃ span name, (span, .name name) ∈ e.marks ∧
      context.read name = none ∧ report = (Fault.undeclared name).reportAt span := by
  induction e with
  | literal span value => cases h
  | var span name =>
    simp only [Expr.eval] at h
    split at h
    · cases h
    · rename_i hread
      cases h
      exact ⟨span, name, by simp [marks], hread, rfl⟩
  | binary op span lhs rhs ihl ihr =>
    simp only [Expr.eval] at h
    split at h
    · rename_i report' hlhs
      cases h
      obtain ⟨span', name, hname, hfault⟩ := ihl hlhs
      exact ⟨span', name, by simp [marks, hname], hfault⟩
    · split at h
      · rename_i report' hrhs
        cases h
        obtain ⟨span', name, hname, hfault⟩ := ihr hrhs
        exact ⟨span', name, by simp [marks, hname], hfault⟩
      · cases h

/-- A statement that fails is reported with a fault at one of its marks. -/
theorem Statement.run_eq_error {statement : Statement} {machine machine' : Machine}
    {report : Report} (h : statement.run machine = (.error report, machine')) :
    (∃ fault : Fault, report = fault.reportAt report.span) ∧
      ∃ mark, (report.span, mark) ∈ statement.marks := by
  cases statement with
  | empty => cases h
  | config span base => cases h
  | assign span name value =>
    simp only [Statement.run] at h
    split at h
    · rename_i report' heval
      cases h
      obtain ⟨span', name', hname, -, rfl⟩ := Expr.eval_eq_error heval
      exact ⟨⟨_, rfl⟩, _, List.mem_cons_of_mem _ hname⟩
    · cases h
  | print span value =>
    simp only [Statement.run] at h
    split at h
    · rename_i report' heval
      cases h
      obtain ⟨span', name', hname, -, rfl⟩ := Expr.eval_eq_error heval
      exact ⟨⟨_, rfl⟩, _, List.mem_cons_of_mem _ hname⟩
    · cases h
      exact ⟨⟨_, rfl⟩, _, List.mem_cons_self ..⟩
    · cases h

/-! ## Lines -/

/-- A line is answered by what its lexemes say. -/
theorem Line.says_statement (line : Line) : Statement.Says (Lexeme.significant line.tokens)
    (line.statement.mapError Report.kind) :=
  Statement.ofLexemes_says _

theorem Line.exists_lexemes {line : Line} {statement : Statement}
    (h : line.statement = .ok statement) :
    ∃ vs : List Lexeme, vs.Sublist (Lexeme.significant line.tokens) ∧
      vs.map Lexeme.mark = statement.marks.map fun m => (m.1, some m.2) := by
  have hsays := line.says_statement
  rw [h] at hsays
  exact hsays.exists_sublist

section

variable {text : String} {number : Option Nat} {statement : Statement}

/-- Each mark of a statement is at a word of the line that it stands for. -/
theorem Line.wordAt_of_mem_marks (h : (Line.ofString text number).statement = .ok statement)
    {m : Span × Mark} (hm : m ∈ statement.marks) :
    ∃ word, WordAt text.toList m.1 word ∧ m.2.IsText (String.ofList word) := by
  obtain ⟨vs, hvs, hmap⟩ := Line.exists_lexemes h
  obtain ⟨l, hl, hlm⟩ : ∃ l ∈ vs, l.mark = (m.1, some m.2) := by
    rw [← List.mem_map, hmap]
    exact List.mem_map_of_mem hm
  obtain ⟨hspan, hmark⟩ := Prod.mk.inj hlm
  refine ⟨l.token.text.toList, ?_, ?_⟩
  · rw [← hspan]
    exact wordAt_of_mem_significant (hvs.mem hl)
  · rw [String.ofList_toList]
    exact Mark.isText_of_ofToken? hmark

/-- The columns of a statement ascend from its head through its tree. -/
theorem Line.pairwise_marks (h : (Line.ofString text number).statement = .ok statement) :
    statement.marks.Pairwise fun a b => a.1.stop < b.1.start := by
  obtain ⟨vs, hvs, hmap⟩ := Line.exists_lexemes h
  have hpairwise : (vs.map Lexeme.mark).Pairwise fun a b => a.1.stop < b.1.start :=
    List.pairwise_map.2 ((pairwise_significant text).sublist hvs)
  rw [hmap] at hpairwise
  exact List.pairwise_map.1 hpairwise

end

/-- A line that is misread or that fails is reported at a place in it. -/
theorem Line.placedIn_of_error {text : String} {number : Option Nat} {report : Report}
    (h : (Line.ofString text number).statement = .error report ∨
      ∃ machine machine', (Line.ofString text number).run machine = (.error report, machine')) :
    report.PlacedIn text.toList := by
  have hstatement : (Line.ofString text number).statement = .error report →
      report.PlacedIn text.toList := by
    intro h
    obtain ⟨-, ⟨l, hl, hspan⟩ | ⟨hne, hspan⟩⟩ := Statement.ofLexemes_eq_error h
    · exact .inl ⟨_, by rw [hspan]; exact wordAt_of_mem_significant hl⟩
    · obtain ⟨before, c, after, htext, hc, hafter, hend⟩ := endColumn_significant hne
      exact .inr ⟨before, c, after, htext, hc, hafter, hspan.trans (congrArg Span.caret hend)⟩
  rcases h with h | ⟨machine, machine', h⟩
  · exact hstatement h
  unfold Line.run at h
  split at h
  · rename_i report' hreport
    cases h
    exact hstatement hreport
  · rename_i statement hok
    obtain ⟨-, mark, hmark⟩ := Statement.run_eq_error h
    obtain ⟨word, hword, -⟩ := Line.wordAt_of_mem_marks hok hmark
    exact .inl ⟨word, hword⟩

/-- A report of a line is that of a fault; it does not know the number of its line. -/
theorem Line.exists_fault_of_run_eq_error {line : Line} {machine machine' : Machine}
    {report : Report} (h : line.run machine = (.error report, machine')) :
    ∃ fault : Fault, report = fault.reportAt report.span := by
  unfold Line.run at h
  split at h
  · rename_i report' hreport
    cases h
    obtain ⟨⟨fault, -, hfault⟩, -⟩ := Statement.ofLexemes_eq_error hreport
    exact ⟨fault, hfault⟩
  · exact (Statement.run_eq_error h).1

/-- Columns are faithful: every column that a line's statement keeps is that of a word of the text,
which shows what the statement has there, and the columns ascend in the order of the tree; every
report about the line has a column of this kind, or that of the line's end, and shows it. -/
theorem Line.columns_faithful (text : String) (number : Option Nat) :
    (∀ statement, (Line.ofString text number).statement = .ok statement →
      (∀ m ∈ statement.marks,
        ∃ word, WordAt text.toList m.1 word ∧ m.2.IsText (String.ofList word)) ∧
      statement.marks.Pairwise fun a b => a.1.stop < b.1.start) ∧
    (∀ report, ((Line.ofString text number).statement = .error report ∨
        ∃ machine machine', (Line.ofString text number).run machine = (.error report, machine')) →
      report.PlacedIn text.toList ∧ report.span ≠ .none ∧
      ∃ before after, report.text = before ++ "(" ++ toString report.span.start ++ ".." ++
        toString report.span.stop ++ ")" ++ after) := by
  constructor
  · intro statement h
    exact ⟨fun m hm => Line.wordAt_of_mem_marks h hm, Line.pairwise_marks h⟩
  · intro report h
    have hplaced := Line.placedIn_of_error h
    exact ⟨hplaced, hplaced.span_ne_none, Report.text_of_span_ne_none hplaced.span_ne_none⟩

theorem Line.columns_faithful_difference :
    let statement : Statement := .assign ⟨1, 3⟩ "ab" (.binary .subtract ⟨10, 11⟩
      (.var ⟨8, 9⟩ "y") (.var ⟨12, 14⟩ "zz"))
    let report := Fault.missingRightParen.reportAt (.caret 9)
    ((Line.ofString "\u2003ab = ( y - zz ) " none).statement = .ok statement ∧
      statement.marks.Pairwise fun a b => a.1.stop < b.1.start) ∧
    (Line.ofString "print ( y " none).statement = .error report ∧
      report.PlacedIn "print ( y ".toList := by
  intro statement report
  have hstatement : (Line.ofString "\u2003ab = ( y - zz ) " none).statement = .ok statement := by
    decide +kernel
  have hreport : (Line.ofString "print ( y " none).statement = .error report := by
    decide +kernel
  exact ⟨⟨hstatement, ((Line.columns_faithful _ _).1 statement hstatement).2⟩, hreport,
    ((Line.columns_faithful _ _).2 report (.inl hreport)).1⟩

end LineCalc
