/-
The layout of a line. However the tokens of a line are spaced, it does the same and has the same
faults, though they are reported at other columns. Blanks at the end do not even move the columns.
-/
import LineCalc.Machine
import LineCalc.Proofs.Expr.Blind
import LineCalc.Proofs.Token.Runs
import Mathlib.Data.List.DropRight

namespace LineCalc

/-! ## Reading a statement -/

namespace Statement

/-- The statement without its columns. -/
def bare : Statement → Statement
  | empty => .empty
  | config _ base => .config .none base
  | assign _ name value => .assign .none name value.bare
  | print _ value => .print .none value.bare

theorem readConfig_blind (stop stop' : Nat) (span span' : Span) {ls ls' : List Lexeme}
    (h : ls.map Lexeme.token = ls'.map Lexeme.token) :
    bareAnswer bare (readConfig stop span ls) = bareAnswer bare (readConfig stop' span' ls') := by
  have hname : ls.head?.bind (·.token.name?) = ls'.head?.bind (·.token.name?) := by
    have hhead := congrArg (·.head?.bind Token.name?) h
    simpa only [List.head?_map, Option.bind_map, Function.comp_def] using hhead
  unfold readConfig
  rw [hname]
  split
  · rfl
  · rfl

theorem readWith_blind {build build' : Expr → Statement}
    (hbuild : ∀ e e' : Expr, e.bare = e'.bare → (build e).bare = (build' e').bare)
    (stop stop' : Nat) {ls ls' : List Lexeme} (h : ls.map Lexeme.token = ls'.map Lexeme.token) :
    bareAnswer bare (readWith build stop ls) = bareAnswer bare (readWith build' stop' ls') := by
  have hsum := Expr.sum_blind stop stop' h
  unfold readWith
  cases hread : Expr.sum stop ls with
  | error report =>
    rw [hread] at hsum
    obtain ⟨report', hread', hreport⟩ := exists_of_bareAnswer_error hsum
    rw [hread']
    exact congrArg Except.error hreport
  | ok read =>
    rw [hread] at hsum
    obtain ⟨read', hread', hparsed⟩ := exists_of_bareAnswer_ok hsum
    rw [hread']
    exact congrArg Except.ok (hbuild _ _ (Prod.mk.inj hparsed).1)

theorem assigned?_blind {ls ls' : List Lexeme} (h : ls.map Lexeme.token = ls'.map Lexeme.token) :
    (assigned? ls).map (List.map Lexeme.token) = (assigned? ls').map (List.map Lexeme.token) := by
  cases ls with
  | nil =>
    obtain rfl : ls' = [] := List.map_eq_nil_iff.1 h.symm
    rfl
  | cons l ls =>
    obtain ⟨l', ls', rfl, hl, hls⟩ := List.map_eq_cons_iff.1 h.symm
    by_cases hequals : l.token = .operator .equals
    · simp [assigned?, hl, hequals, hls]
    · simp [assigned?, hl, hequals]

/-- Two lists with the same tokens are read as the same statement, columns apart, or have the same
fault. -/
theorem ofLexemes_blind {ls ls' : List Lexeme} (h : ls.map Lexeme.token = ls'.map Lexeme.token) :
    bareAnswer bare (ofLexemes ls) = bareAnswer bare (ofLexemes ls') := by
  cases ls with
  | nil =>
    obtain rfl : ls' = [] := List.map_eq_nil_iff.1 h.symm
    rfl
  | cons head rest =>
    obtain ⟨head', rest', rfl, hhead, hrest⟩ := List.map_eq_cons_iff.1 h.symm
    have hassigned := assigned?_blind hrest
    simp only [ofLexemes, hhead]
    by_cases hconfig : head.token = .word .config
    · simp only [hconfig, if_true]
      exact readConfig_blind _ _ _ _ hrest.symm
    simp only [hconfig, if_false]
    have hprint : bareAnswer bare (if head.token = .word .print then
          readWith (.print head.span) (Lexeme.endColumn (head :: rest)) rest else .ok .empty) =
        bareAnswer bare (if head.token = .word .print then
          readWith (.print head'.span) (Lexeme.endColumn (head' :: rest')) rest'
        else .ok .empty) := by
      split_ifs
      · exact readWith_blind (fun _ _ => congrArg (Statement.print .none)) _ _ hrest.symm
      · rfl
    cases head.token.name? with
    | none => exact hprint
    | some name =>
      cases hbody : assigned? rest with
      | none =>
        rw [hbody] at hassigned
        rw [Option.map_eq_none_iff.1 hassigned]
        exact hprint
      | some body =>
        rw [hbody] at hassigned
        obtain ⟨body', hbody', htokens⟩ := Option.map_eq_some_iff.1 hassigned
        rw [hbody']
        exact readWith_blind (fun _ _ => congrArg (Statement.assign .none name)) _ _ htokens.symm

end Statement

/-! ## Running a line -/

/-- Columns have no part in a value. -/
theorem Expr.eval_bare (e : Expr) (context : Context) :
    e.bare.eval context = (e.eval context).mapError Report.bare := by
  induction e with
  | literal span value => rfl
  | var span name =>
    simp only [bare, eval]
    split
    · rfl
    · rfl
  | binary op span lhs rhs ihl ihr =>
    simp only [bare, eval, ihl, ihr]
    cases lhs.eval context with
    | error report => rfl
    | ok x =>
      cases rhs.eval context with
      | error report => rfl
      | ok y => rfl

theorem Statement.run_bare (statement : Statement) (machine : Machine) :
    statement.bare.run machine =
      (statement.run machine).map (Except.mapError Report.bare) id := by
  cases statement with
  | empty => rfl
  | config span base => rfl
  | assign span name value =>
    simp only [bare, run, Expr.eval_bare]
    cases value.eval machine.context with
    | error report => rfl
    | ok x => rfl
  | print span value =>
    simp only [bare, run, Expr.eval_bare]
    cases value.eval machine.context with
    | error report => rfl
    | ok x =>
      cases machine.context.base with
      | none => rfl
      | some base => rfl

/-- Lines with the same tokens, blanks apart, do the same. -/
theorem Line.run_blind {line line' : Line} (h : line.significant = line'.significant)
    (machine : Machine) :
    (line.run machine).map (Except.mapError Report.bare) id =
      (line'.run machine).map (Except.mapError Report.bare) id := by
  have hstatement : bareAnswer Statement.bare line.statement =
      bareAnswer Statement.bare line'.statement := by
    apply Statement.ofLexemes_blind
    rw [Lexeme.map_token_significant, Lexeme.map_token_significant]
    exact h
  unfold run
  cases hline : line.statement with
  | error report =>
    rw [hline] at hstatement
    obtain ⟨report', hline', hreport⟩ := exists_of_bareAnswer_error hstatement
    rw [hline']
    exact congrArg (Except.error ·, machine) hreport
  | ok statement =>
    rw [hline] at hstatement
    obtain ⟨statement', hline', hbare⟩ := exists_of_bareAnswer_ok hstatement
    simp only [hline', ← Statement.run_bare, hbare]

/-! ## Blanks at the end -/

theorem Lexeme.exists_locate_append (start : Nat) (ts us : List Token) :
    ∃ stop, locate start (ts ++ us) = locate start ts ++ locate stop us := by
  induction ts generalizing start with
  | nil => exact ⟨start, rfl⟩
  | cons t ts ih =>
    obtain ⟨stop, hstop⟩ := ih (start + t.text.length)
    exact ⟨stop, by simp only [List.cons_append, locate, hstop]⟩

/-- Blanks at the end of a text leave its lexemes as they are. -/
theorem significant_append_blank {core gap : List Char}
    (hcore : ∀ c ∈ core.getLast?, isBlank c = false) (hgap : ∀ c ∈ gap, isBlank c = true) :
    Lexeme.significant (Token.lex (String.ofList (core ++ gap))) =
      Lexeme.significant (Token.lex (String.ofList core)) := by
  by_cases hne : gap = []
  · rw [hne, List.append_nil]
  -- they are a run of their own, as the text before them does not end in one
  have hruns : runs (String.ofList (core ++ gap)) = runs (String.ofList core) ++ [gap] := by
    rw [runs_append, runs_gap hne hgap]
    intro c hc d hd
    rw [hcore c hc, hgap d (List.mem_of_mem_head? hd)]
    exact Bool.false_ne_true
  have hlex : Token.lex (String.ofList (core ++ gap)) =
      Token.lex (String.ofList core) ++ [.blank gap.length] := by
    show (runs (String.ofList (core ++ gap))).map Token.ofRun = _
    rw [hruns, List.map_append, List.map_singleton, ofRun_of_blank (isBlankRun_of_forall hne hgap)]
    rfl
  obtain ⟨stop, hlocate⟩ :=
    Lexeme.exists_locate_append 0 (Token.lex (String.ofList core)) [.blank gap.length]
  unfold Lexeme.significant
  rw [hlex, hlocate, List.filter_append]
  exact List.append_nil _

/-- Whatever blanks a text ends in, its lexemes are those of the text without them. -/
theorem significant_trimEnd {text : String} {stem gap : List Char} (h : text.toList = stem ++ gap)
    (hgap : ∀ c ∈ gap, isBlank c = true) :
    Lexeme.significant (Token.lex text) =
      Lexeme.significant (Token.lex (String.ofList (stem.rdropWhile isBlank))) := by
  have htext :
      text = String.ofList (stem.rdropWhile isBlank ++ (stem.rtakeWhile isBlank ++ gap)) := by
    rw [← List.append_assoc, List.rdropWhile_append_rtakeWhile, ← h, String.ofList_toList]
  rw [htext]
  apply significant_append_blank
  · intro c hc
    obtain ⟨hne, rfl⟩ := List.mem_getLast?_eq_getLast hc
    simpa using List.rdropWhile_last_not isBlank stem hne
  · intro c hc
    rcases List.mem_append.1 hc with hc | hc
    · exact List.mem_rtakeWhile_imp hc
    · exact hgap c hc

end LineCalc
