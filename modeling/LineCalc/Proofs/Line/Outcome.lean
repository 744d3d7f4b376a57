/-
What becomes of a line that has been read. Its expression is computed in the order of its text, so
that of all the variables without a value to read it is the leftmost that is reported; only a line
that has no such variable is asked for a base. If nothing is reported, the value is that of the
operations from the leaves of the expression up.
-/
import LineCalc.Proofs.Program.Variables

namespace LineCalc

/-! ## Values -/

/-- The value that a context holds under a name, and NaN where it holds none. -/
def Context.valueOf (context : Context) (name : String) : Binary64 :=
  (context.fetch name).getD .nan

theorem Context.Holds.valueOf_eq {context : Context} {name : String} {x : Binary64}
    (h : context.Holds name x) : context.valueOf name = x := by
  rw [valueOf, h.1, Option.getD_some]

namespace Expr

/-- The operations of an expression from its leaves up, where `valueOf` gives the variables. -/
def fold (valueOf : String → Binary64) : Expr → Binary64
  | literal _ value => value
  | var _ name => valueOf name
  | binary op _ lhs rhs => op.apply (lhs.fold valueOf) (rhs.fold valueOf)

/-! ## Variables without a value to read -/

/-- The expression has the variable at these columns, and the variable is absent, zero or NaN. -/
structure LacksAt (e : Expr) (context : Context) (span : Span) (name : String) : Prop where
  mem_marks : (span, .name name) ∈ e.marks
  lacks : context.Lacks name

/-- The first mark of a variable that lacks a value. -/
def FirstLacking (marks : List (Span × Mark)) (context : Context) (span : Span) (name : String) :
    Prop :=
  ∃ before after, marks = before ++ (span, .name name) :: after ∧ context.Lacks name ∧
    ∀ span' name', (span', .name name') ∈ before → ¬ context.Lacks name'

theorem FirstLacking.append_right {marks : List (Span × Mark)} {context : Context} {span : Span}
    {name : String} (h : FirstLacking marks context span name) (more : List (Span × Mark)) :
    FirstLacking (marks ++ more) context span name := by
  obtain ⟨before, after, rfl, hlacks, hbefore⟩ := h
  exact ⟨before, after ++ more, by simp, hlacks, hbefore⟩

theorem FirstLacking.append_left {marks earlier : List (Span × Mark)} {context : Context}
    {span : Span} {name : String} (h : FirstLacking marks context span name)
    (hearlier : ∀ span' name', (span', .name name') ∈ earlier → ¬ context.Lacks name') :
    FirstLacking (earlier ++ marks) context span name := by
  obtain ⟨before, after, rfl, hlacks, hbefore⟩ := h
  refine ⟨earlier ++ before, after, by simp, hlacks, ?_⟩
  intro span' name' hmem
  rcases List.mem_append.1 hmem with hmem | hmem
  · exact hearlier span' name' hmem
  · exact hbefore span' name' hmem

/-- Either every variable has a value to read and the expression has the value that they give it, or
the first variable that lacks one is reported. -/
theorem eval_cases (e : Expr) (context : Context) :
    (∀ span name, (span, .name name) ∈ e.marks → ¬ context.Lacks name) ∧
        e.eval context = .ok (e.fold context.valueOf) ∨
      ∃ span name, FirstLacking e.marks context span name ∧
        e.eval context = .error ((Fault.undeclared name).reportAt span) := by
  induction e with
  | literal span value =>
    refine .inl ⟨?_, rfl⟩
    simp [marks]
  | var span name =>
    cases hread : context.read name with
    | none =>
      refine .inr ⟨span, name, ⟨[], [], rfl, Context.read_eq_none_iff.1 hread, by simp⟩, ?_⟩
      simp only [eval, hread]
    | some x =>
      refine .inl ⟨?_, ?_⟩
      · intro span' name' hmem hlacks
        obtain ⟨rfl, ⟨⟩⟩ := Prod.mk.inj (List.mem_singleton.1 hmem)
        rw [Context.read_eq_none_iff.2 hlacks] at hread
        cases hread
      · have hvalue := (Context.read_eq_some_iff.1 hread).valueOf_eq
        simp only [eval, hread, fold, hvalue]
  | binary op span lhs rhs ihl ihr =>
    rcases ihl with ⟨hreadl, hevall⟩ | ⟨span', name, hfirst, heval⟩
    · have hearlier : ∀ span' name', (span', .name name') ∈ lhs.marks ++ [(span, .sign op)] →
          ¬ context.Lacks name' := by
        intro span' name' hmem
        rcases List.mem_append.1 hmem with hmem | hmem
        · exact hreadl span' name' hmem
        · cases List.mem_singleton.1 hmem
      have hmarks : (binary op span lhs rhs).marks =
          lhs.marks ++ [(span, .sign op)] ++ rhs.marks := by simp [marks]
      rw [hmarks]
      rcases ihr with ⟨hreadr, hevalr⟩ | ⟨span', name, hfirst, heval⟩
      · refine .inl ⟨?_, ?_⟩
        · intro span' name' hmem
          rcases List.mem_append.1 hmem with hmem | hmem
          · exact hearlier span' name' hmem
          · exact hreadr span' name' hmem
        · simp only [eval, hevall, hevalr, fold]
      · refine .inr ⟨span', name, hfirst.append_left hearlier, ?_⟩
        simp only [eval, hevall, heval]
    · refine .inr ⟨span', name, hfirst.append_right _, ?_⟩
      simp only [eval, heval]

theorem FirstLacking.lacksAt {e : Expr} {context : Context} {span : Span} {name : String}
    (h : FirstLacking e.marks context span name) : e.LacksAt context span name := by
  obtain ⟨before, after, hmarks, hlacks, -⟩ := h
  exact ⟨by simp [hmarks], hlacks⟩

/-- Where no variable lacks a value, the operations are done from the leaves up. -/
theorem eval_of_not_lacksAt {e : Expr} {context : Context}
    (h : ∀ span name, ¬ e.LacksAt context span name) :
    e.eval context = .ok (e.fold context.valueOf) := by
  rcases e.eval_cases context with ⟨-, heval⟩ | ⟨span, name, hfirst, -⟩
  · exact heval
  · exact absurd hfirst.lacksAt (h span name)

/-- The variable at these columns lacks a value; it is a word of the text there, and every other
variable that lacks a value stands to the right of it. -/
structure IsLeftmost (e : Expr) (context : Context) (cs : List Char) (span : Span)
    (name : String) : Prop where
  lacksAt : e.LacksAt context span name
  wordAt : WordAt cs span name.toList
  stop_lt : ∀ span' name', e.LacksAt context span' name' → (span', name') ≠ (span, name) →
    span.stop < span'.start

end Expr

/-! ## Lines -/

/-- The expression of a statement that has one. -/
def Statement.value? : Statement → Option Expr
  | empty | config _ _ => none
  | assign _ _ value | print _ value => some value

theorem Statement.exists_marks {statement : Statement} {value : Expr}
    (h : statement.value? = some value) : ∃ head, statement.marks = head :: value.marks := by
  cases statement <;> cases h <;> exact ⟨_, rfl⟩

theorem Statement.run_of_eval_eq_error {statement : Statement} {value : Expr} {machine : Machine}
    {report : Report} (h : statement.value? = some value)
    (heval : value.eval machine.context = .error report) :
    statement.run machine = (.error report, machine) := by
  cases statement <;> cases h <;> simp only [run, heval]

/-- A statement whose value can be computed is not reported for a variable. -/
theorem Statement.kind_of_run {statement : Statement} {value : Expr} {machine : Machine}
    {x : Binary64} {report : Report} (h : statement.value? = some value)
    (heval : value.eval machine.context = .ok x)
    (hrun : (statement.run machine).1 = .error report) : report.kind = .unconfiguredBase := by
  cases statement with
  | empty => cases h
  | config span base => cases h
  | assign span name value =>
    cases h
    simp only [run, heval] at hrun
    cases hrun
  | print span value =>
    cases h
    simp only [run, heval] at hrun
    cases hbase : machine.context.base with
    | none =>
      rw [hbase] at hrun
      cases hrun
      rfl
    | some base =>
      rw [hbase] at hrun
      cases hrun

theorem Line.run_of_statement {line : Line} {statement : Statement}
    (h : line.statement = .ok statement) (machine : Machine) :
    line.run machine = statement.run machine := by
  simp only [run, h]

section

variable {text : String} {number : Option Nat} {statement : Statement}
  (h : (Line.ofString text number).statement = .ok statement)

include h

/-- The first variable that is found to lack a value is the leftmost one in the text. -/
theorem Line.isLeftmost_of_firstLacking {value : Expr} (hvalue : statement.value? = some value)
    {context : Context} {span : Span} {name : String}
    (hfirst : Expr.FirstLacking value.marks context span name) :
    value.IsLeftmost context text.toList span name := by
  have hlacks := hfirst.lacksAt
  obtain ⟨before, after, hmarks, -, hbefore⟩ := hfirst
  obtain ⟨head, hhead⟩ := Statement.exists_marks hvalue
  refine ⟨hlacks, ?_, ?_⟩
  · obtain ⟨word, hword, hname⟩ := Line.wordAt_of_mem_marks h
      (hhead ▸ List.mem_cons_of_mem head hlacks.mem_marks)
    have hname : String.ofList word = name := hname
    rw [← hname, String.toList_ofList]
    exact hword
  · intro span' name' hlacks' hne
    have hpairwise := Line.pairwise_marks h
    rw [hhead, hmarks] at hpairwise
    have hafter := (List.pairwise_cons.1
      (List.pairwise_append.1 (List.pairwise_cons.1 hpairwise).2).2.1).1
    have hmem := hlacks'.mem_marks
    rw [hmarks, List.mem_append, List.mem_cons] at hmem
    rcases hmem with hmem | heq | hmem
    · exact absurd hlacks'.lacks (hbefore span' name' hmem)
    · cases heq
      exact absurd rfl hne
    · exact hafter _ hmem

/-- The word `print` at the head of a line that prints. -/
theorem Line.head?_of_print {span : Span} {value : Expr} (hprint : statement = .print span value) :
    (Lexeme.significant (Token.lex text)).head? = some ⟨.word .print, span⟩ := by
  subst hprint
  have hsays := (Line.ofString text number).says_statement
  rw [h] at hsays
  cases hsays with
  | print hhead =>
    obtain ⟨head, hls, htoken, -, rfl⟩ := hhead
    show (Lexeme.significant (Line.ofString text number).tokens).head? = _
    rw [hls, List.head?_cons, ← htoken]

/-- A line that has been read fails just as its variables and the base say. An assignment or a print
line is reported for a variable exactly if one of the variables in its expression is absent, zero or
NaN, and then it is the leftmost of them that is named. Without such a variable an assignment does
not fail, and a print line fails exactly if there is no base, which is reported at its first word;
the value is that of the operations from the leaves up. No other line fails. -/
theorem Line.run_outcome (machine : Machine) :
    let result := (Line.ofString text number).run machine
    (∀ value, statement.value? = some value →
      ((∃ report, result.1 = .error report ∧ report.kind = .undeclaredVariable) ↔
        ∃ span name, value.LacksAt machine.context span name) ∧
      ((∃ span name, value.LacksAt machine.context span name) →
        ∃ span name, value.IsLeftmost machine.context text.toList span name ∧
          result = (.error ((Fault.undeclared name).reportAt span), machine))) ∧
    match statement with
    | .empty => result = (.ok none, machine)
    | .config _ base =>
      result = (.ok none, { machine with context := machine.context.setBase base })
    | .assign _ name value =>
      (∀ span name, ¬ value.LacksAt machine.context span name) →
        let x := value.fold machine.context.valueOf
        result = (.ok none, { machine with context := machine.context.store name x })
    | .print span value =>
      (Lexeme.significant (Token.lex text)).head? = some ⟨.word .print, span⟩ ∧
      ((∀ span name, ¬ value.LacksAt machine.context span name) →
        let x := value.fold machine.context.valueOf
        result = match machine.context.base with
          | none => (.error (Fault.unconfigured.reportAt span), machine)
          | some base => (.ok (some (x.numeral base)),
              { machine with output := machine.output.print [x.numeral base] })) := by
  intro result
  have hresult : result = statement.run machine := Line.run_of_statement h machine
  rw [hresult]
  constructor
  · intro value hvalue
    rcases value.eval_cases machine.context with ⟨hread, heval⟩ | ⟨span, name, hfirst, heval⟩
    · have hnone : ¬ ∃ span name, value.LacksAt machine.context span name := by
        rintro ⟨span, name, hlacks⟩
        exact hread span name hlacks.mem_marks hlacks.lacks
      refine ⟨iff_of_false ?_ hnone, fun hlacks => absurd hlacks hnone⟩
      rintro ⟨report, hreport, hkind⟩
      rw [Statement.kind_of_run hvalue heval hreport] at hkind
      cases hkind
    · have hrun := Statement.run_of_eval_eq_error hvalue heval
      have hleftmost := Line.isLeftmost_of_firstLacking h hvalue hfirst
      rw [hrun]
      exact ⟨iff_of_true ⟨_, rfl, rfl⟩ ⟨span, name, hfirst.lacksAt⟩,
        fun _ => ⟨span, name, hleftmost, rfl⟩⟩
  · cases statement with
    | empty => rfl
    | config span base => rfl
    | assign span name value =>
      intro hnone
      simp only [Statement.run, Expr.eval_of_not_lacksAt hnone]
    | print span value =>
      refine ⟨Line.head?_of_print h rfl, ?_⟩
      intro hnone
      simp only [Statement.run, Expr.eval_of_not_lacksAt hnone]
      cases machine.context.base <;> rfl

end

/-- Two of three variables lack a value, and the one in parentheses is the left one of them; a line
without variables divides by zero and prints what comes of it. -/
theorem Line.run_outcome_nested :
    let value : Expr := .binary .subtract ⟨16, 17⟩
      (.binary .divide ⟨10, 11⟩ (.var ⟨8, 9⟩ "y") (.var ⟨12, 13⟩ "z")) (.var ⟨18, 19⟩ "w")
    let context := ((Context.ofBase none).store "y" (.infinity true)).store "z" (.zero true)
    ((Line.ofString "print ( y / z ) - w" none).statement = .ok (.print ⟨0, 5⟩ value) ∧
      (Line.ofString "print ( y / z ) - w" none).run ⟨context, .empty⟩ =
        (.error ((Fault.undeclared "z").reportAt ⟨12, 13⟩), ⟨context, .empty⟩)) ∧
    ((Line.ofString "print 1 / 0" none).run ⟨.ofBase (some .binary), .empty⟩).1 =
      .ok (some "Infinity") := by
  intro value context
  have hstatement : (Line.ofString "print ( y / z ) - w" none).statement =
      .ok (.print ⟨0, 5⟩ value) := by decide +kernel
  have hz : value.LacksAt context ⟨12, 13⟩ "z" := by
    refine ⟨by decide, ?_⟩
    rintro x hx
    obtain rfl : Binary64.zero true = x := by simpa [context] using hx
    exact .inl rfl
  obtain ⟨span, name, hleftmost, hrun⟩ :=
    ((Line.run_outcome hstatement ⟨context, .empty⟩).1 value rfl).2 ⟨_, _, hz⟩
  refine ⟨⟨hstatement, ?_⟩, ?_⟩
  · have heq : (⟨12, 13⟩, "z") = (span, name) := by
      by_contra hne
      have hstop := hleftmost.stop_lt _ _ hz hne
      obtain ⟨hmem, hlacks⟩ := hleftmost.lacksAt
      have hcases : (span = ⟨8, 9⟩ ∧ name = "y") ∨ (span = ⟨12, 13⟩ ∧ name = "z") ∨
          (span = ⟨18, 19⟩ ∧ name = "w") := by simpa [value, Expr.marks, or_assoc] using hmem
      rcases hcases with ⟨rfl, rfl⟩ | ⟨rfl, rfl⟩ | ⟨rfl, rfl⟩
      · have := hlacks (.infinity true) (by simp [context])
        exact absurd this (by decide)
      · exact hne rfl
      · exact absurd hstop (by decide)
    cases heq
    exact hrun
  · have hdivide : (Line.ofString "print 1 / 0" none).statement =
        .ok (.print ⟨0, 5⟩ (.binary .divide ⟨8, 9⟩ (.literal ⟨6, 7⟩ (.ofNat 1))
          (.literal ⟨10, 11⟩ (.zero false)))) := by decide +kernel
    have hnone : ∀ span name, ¬ Expr.LacksAt (.binary .divide ⟨8, 9⟩ (.literal ⟨6, 7⟩ (.ofNat 1))
        (.literal ⟨10, 11⟩ (.zero false))) (.ofBase (some .binary)) span name := by
      rintro span name ⟨hmem, -⟩
      simp [Expr.marks] at hmem
    rw [(Line.run_outcome hdivide ⟨.ofBase (some .binary), .empty⟩).2.2 hnone]
    decide +kernel

end LineCalc
