/-
The default base and what it is for. A run computes the same values and ends in the same way with
any default base; the base only says how to write the values that no `config` line has chosen a base
for. A run that has no default base either does as with any other, or stops where the first value
would be printed.
-/
import LineCalc.Calculator
import LineCalc.Proofs.Program.Variables

namespace LineCalc

/-! ## Bases to fall back on -/

namespace Context

/-- The context with a base to fall back on until one is chosen. -/
def orBase (context : Context) (fallback : Option Base) : Context :=
  { context with base := context.base.or fallback }

@[simp]
theorem orBase_none (context : Context) : context.orBase none = context := by
  simp [orBase]

theorem orBase_of_base {context : Context} {base : Base} (h : context.base = some base)
    (fallback : Option Base) : context.orBase fallback = context := by
  unfold orBase
  rw [h, Option.some_or, ← h]

end Context

/-- No value depends on a base. -/
@[simp]
theorem Expr.eval_orBase (e : Expr) (context : Context) (fallback : Option Base) :
    e.eval (context.orBase fallback) = e.eval context :=
  eval_congr fun _ _ _ => rfl

theorem Expr.kind_of_eval_eq_error {e : Expr} {context : Context} {report : Report}
    (h : e.eval context = .error report) : report.kind = .undeclaredVariable := by
  obtain ⟨span, name, -, -, rfl⟩ := eval_eq_error h
  rfl

theorem Line.kind_of_statement_eq_error {line : Line} {report : Report}
    (h : line.statement = .error report) : report.kind ≠ .unconfiguredBase := by
  intro hkind
  have hsays := line.says_statement
  rw [h, Except.mapError, hkind] at hsays
  cases hsays

/-! ## Lines -/

/-- The base that a line chooses, if it chooses one. -/
def Line.chosen? (line : Line) : Option Base :=
  match line.statement with
  | .ok (.config _ base) => some base
  | _ => none

/-- What a line does in a context, whatever base there is to fall back on. -/
inductive Line.Acts (line : Line) (context : Context) : Prop where
  | fails (report : Report) : report.kind ≠ .unconfiguredBase →
      (∀ fallback output, line.run ⟨context.orBase fallback, output⟩ =
        (.error report, ⟨context.orBase fallback, output⟩)) → Acts line context
  | passes (next : Context) : next.base = line.chosen?.or context.base →
      (∀ fallback output, line.run ⟨context.orBase fallback, output⟩ =
        (.ok none, ⟨next.orBase fallback, output⟩)) → Acts line context
  | prints (span : Span) (value : Expr) (x : Binary64) :
      line.statement = .ok (.print span value) → value.eval context = .ok x →
      (∀ fallback output, line.run ⟨context.orBase fallback, output⟩ =
        match context.base.or fallback with
        | none => (.error (Fault.unconfigured.reportAt span), ⟨context.orBase fallback, output⟩)
        | some base => (.ok (some (x.numeral base)),
            ⟨context.orBase fallback, output.print [x.numeral base]⟩)) → Acts line context

theorem Line.acts (line : Line) (context : Context) : line.Acts context := by
  cases hstatement : line.statement with
  | error report =>
    refine .fails report (kind_of_statement_eq_error hstatement) ?_
    intro fallback output
    simp only [run, hstatement]
  | ok statement =>
    cases statement with
    | empty =>
      refine .passes context (by simp [chosen?, hstatement]) ?_
      intro fallback output
      simp only [run, hstatement, Statement.run]
    | config span base =>
      refine .passes (context.setBase base) (by simp [chosen?, hstatement]) ?_
      intro fallback output
      simp only [run, hstatement, Statement.run]
      rfl
    | assign span name value =>
      cases heval : value.eval context with
      | error report =>
        refine .fails report (by simp [Expr.kind_of_eval_eq_error heval]) ?_
        intro fallback output
        simp only [run, hstatement, Statement.run, Expr.eval_orBase, heval]
      | ok x =>
        refine .passes (context.store name x) (by simp [chosen?, hstatement]) ?_
        intro fallback output
        simp only [run, hstatement, Statement.run, Expr.eval_orBase, heval]
        rfl
    | print span value =>
      cases heval : value.eval context with
      | error report =>
        refine .fails report (by simp [Expr.kind_of_eval_eq_error heval]) ?_
        intro fallback output
        simp only [run, hstatement, Statement.run, Expr.eval_orBase, heval]
      | ok x =>
        refine .prints span value x hstatement heval ?_
        intro fallback output
        simp only [run, hstatement, Statement.run, Expr.eval_orBase, heval]
        cases hbase : context.base.or fallback with
        | none => simp only [Context.orBase, hbase]
        | some base => simp only [Context.orBase, hbase]

/-! ## What is printed -/

/-- A value that is printed, and the base chosen for it, if one was chosen. -/
structure Printing where
  value : Binary64
  chosen : Option Base

namespace Printing

def row (default : Base) (printing : Printing) : List String :=
  [printing.value.numeral (printing.chosen.getD default)]

/-- The rows of values that are printed one after another. -/
def rows (default : Base) (printings : List Printing) : Output :=
  ⟨(printings.map (row default)).toArray⟩

theorem append_rows_nil (output : Output) (default : Base) : output ++ rows default [] = output :=
  output.append_empty

theorem append_rows_cons (output : Output) (default : Base) (printing : Printing)
    (printings : List Printing) : output ++ rows default (printing :: printings) =
      output.print (printing.row default) ++ rows default printings := by
  refine congrArg Output.mk (Array.toList_inj.1 ?_)
  simp [rows, Output.print]

end Printing

namespace Program

/-- The base that the last line to choose one chooses. -/
def chosen? (lines : List Line) : Option Base := (lines.filterMap Line.chosen?).getLast?

/-- With any base to fall back on, a run of the lines gets to a line that prints this value after
`i` others; the base is the one chosen last before it. -/
def PrintsAt (lines : List Line) (context : Context) (i : Nat) (printing : Printing) : Prop :=
  ∃ before line after span value, lines = before ++ line :: after ∧
    line.statement = .ok (.print span value) ∧
    printing.chosen = (chosen? before).or context.base ∧
    ∀ base output, ∃ reached,
      runLines before ⟨context.orBase (some base), output⟩ = (.ok (), reached) ∧
      reached.output.rows.size = output.rows.size + i ∧
      value.eval reached.context = .ok printing.value

theorem chosen?_cons (line : Line) (lines : List Line) :
    chosen? (line :: lines) = (chosen? lines).or line.chosen? := by
  unfold chosen?
  cases hline : line.chosen? with
  | none => simp [hline]
  | some base =>
    rw [List.filterMap_cons_some hline, List.getLast?_cons]
    cases (lines.filterMap Line.chosen?).getLast? <;> rfl

/-- A print line that is reached after a line has passed is reached through it. -/
theorem PrintsAt.cons {line : Line} {lines : List Line} {context next : Context} {i : Nat}
    {printing : Printing} (h : PrintsAt lines next i printing) (k : Nat)
    (hbase : next.base = line.chosen?.or context.base)
    (hrun : ∀ base output, ∃ printed output',
      line.run ⟨context.orBase (some base), output⟩ =
        (.ok printed, ⟨next.orBase (some base), output'⟩) ∧
      output'.rows.size = output.rows.size + k) :
    PrintsAt (line :: lines) context (i + k) printing := by
  obtain ⟨before, line', after, span, value, rfl, hstatement, hchosen, hreached⟩ := h
  refine ⟨line :: before, line', after, span, value, rfl, hstatement, ?_, ?_⟩
  · rw [hchosen, hbase, chosen?_cons, Option.or_assoc]
  · intro base output
    obtain ⟨printed, output', hline, hsize'⟩ := hrun base output
    obtain ⟨reached, hbefore, hsize, heval⟩ := hreached base output'
    refine ⟨reached, ?_, ?_, heval⟩
    · simp only [runLines, hline, hbefore]
    · omega

/-- With any base to fall back on, a run of the lines has this result and prints these values. -/
structure Written (lines : List Line) (context : Context) (result : Except Report Unit)
    (printings : List Printing) : Prop where
  result_eq : ∀ base output, (runLines lines ⟨context.orBase (some base), output⟩).1 = result
  output_eq : ∀ base output, (runLines lines ⟨context.orBase (some base), output⟩).2.output =
    output ++ Printing.rows base printings
  kind_ne : ∀ report, result = .error report → report.kind ≠ .unconfiguredBase
  printsAt : ∀ i printing, printings[i]? = some printing → PrintsAt lines context i printing

theorem exists_written (lines : List Line) (context : Context) :
    ∃ result printings, Written lines context result printings := by
  induction lines generalizing context with
  | nil =>
    refine ⟨.ok (), [], fun _ _ => rfl, ?_, by simp, by simp⟩
    exact fun base output => (Printing.append_rows_nil output base).symm
  | cons line lines ih =>
    cases line.acts context with
    | fails report hkind hrun =>
      refine ⟨.error { report with line := line.number }, [], ?_, ?_, ?_, by simp⟩
      · intro base output
        simp only [runLines, hrun]
      · intro base output
        simp only [runLines, hrun, Printing.append_rows_nil]
      · rintro _ ⟨⟩
        exact hkind
    | passes next hbase hrun =>
      obtain ⟨result, printings, hwritten⟩ := ih next
      refine ⟨result, printings, ?_, ?_, hwritten.kind_ne, ?_⟩
      · intro base output
        simp only [runLines, hrun, hwritten.result_eq]
      · intro base output
        simp only [runLines, hrun, hwritten.output_eq]
      · intro i printing hi
        exact (hwritten.printsAt i printing hi).cons 0 hbase fun base output =>
          ⟨none, output, hrun _ _, rfl⟩
    | prints span value x hstatement heval hrun =>
      obtain ⟨result, printings, hwritten⟩ := ih context
      have hbase : context.base = line.chosen?.or context.base := by
        simp [Line.chosen?, hstatement]
      have hline : ∀ base output, line.run ⟨context.orBase (some base), output⟩ =
          (.ok (some (x.numeral (context.base.getD base))), ⟨context.orBase (some base),
            output.print (Printing.row base ⟨x, context.base⟩)⟩) := by
        intro base output
        rw [hrun, Option.or_some]
        rfl
      refine ⟨result, ⟨x, context.base⟩ :: printings, ?_, ?_, hwritten.kind_ne, ?_⟩
      · intro base output
        simp only [runLines, hline, hwritten.result_eq]
      · intro base output
        simp only [runLines, hline, hwritten.output_eq, Printing.append_rows_cons]
      · intro i printing hi
        cases i with
        | zero =>
          obtain rfl : ⟨x, context.base⟩ = printing := by simpa using hi
          refine ⟨[], line, lines, span, value, rfl, hstatement, rfl, ?_⟩
          intro base output
          exact ⟨_, rfl, rfl, by simpa using heval⟩
        | succ i =>
          refine (hwritten.printsAt i printing (by simpa using hi)).cons 1 hbase ?_
          intro base output
          exact ⟨_, _, hline base output, Array.size_push _⟩

/-- Without a base to fall back on, a run stops before it prints, or does as with any. -/
theorem runLines_no_base (lines : List Line) (context : Context) (output : Output) :
    (∃ report, (runLines lines ⟨context, output⟩).1 = .error report ∧
      report.kind = .unconfiguredBase ∧ (runLines lines ⟨context, output⟩).2.output = output) ∨
    ∀ base,
      (runLines lines ⟨context, output⟩).1 =
        (runLines lines ⟨context.orBase (some base), output⟩).1 ∧
      (runLines lines ⟨context, output⟩).2.output =
        (runLines lines ⟨context.orBase (some base), output⟩).2.output := by
  induction lines generalizing context with
  | nil => exact .inr fun base => ⟨rfl, rfl⟩
  | cons line lines ih =>
    -- once a base is chosen there is nothing to fall back on
    cases hbase : context.base with
    | some chosen =>
      right
      intro base
      rw [Context.orBase_of_base hbase]
      exact ⟨rfl, rfl⟩
    | none =>
      cases line.acts context with
      | fails report hkind hrun =>
        have hline := hrun none output
        rw [Context.orBase_none] at hline
        right
        intro base
        simp only [runLines, hline, hrun, and_self]
      | passes next _ hrun =>
        have hline := hrun none output
        rw [Context.orBase_none, Context.orBase_none] at hline
        simp only [runLines, hline, hrun]
        exact ih next
      | prints span value x hstatement heval hrun =>
        have hline := hrun none output
        rw [Context.orBase_none, hbase, Option.or_none] at hline
        left
        refine ⟨{ Fault.unconfigured.reportAt span with line := line.number }, ?_, rfl, ?_⟩
        · simp only [runLines, hline]
        · simp only [runLines, hline]

end Program

/-- The base controls only how printed values are written. With any default base a source has the
same result and prints the same values, each in the base chosen for it by the last `config` line
before it, if there was one, and otherwise in the default base. With no default base the run ends
for want of one, and has then printed nothing, or has the same result and rows as with any. -/
theorem Calculator.run_default_base (source : String) (output : Output) :
    ∃ (result : Except Report Unit) (printings : List Printing),
      (∀ base, ({ output, defaultBase := some base } : Calculator).run source =
        (result, { output := output ++ Printing.rows base printings, defaultBase := some base })) ∧
      (∀ report, result = .error report → report.kind ≠ .unconfiguredBase) ∧
      (∀ i printing, printings[i]? = some printing →
        Program.PrintsAt (Program.ofSource source).lines (.ofBase none) i printing) ∧
      let bare := ({ output } : Calculator).run source
      (∃ report, bare.1 = .error report ∧ report.kind = .unconfiguredBase ∧
        bare.2.output = output) ∨
      (bare.1 = result ∧ ∀ base, bare.2.output = output ++ Printing.rows base printings) := by
  obtain ⟨result, printings, hwritten⟩ :=
    Program.exists_written (Program.ofSource source).lines (.ofBase none)
  refine ⟨result, printings, ?_, hwritten.kind_ne, hwritten.printsAt, ?_⟩
  · intro base
    have hresult := hwritten.result_eq base output
    have houtput := hwritten.output_eq base output
    exact Prod.ext hresult (congrArg (Calculator.mk · _) houtput)
  · rcases Program.runLines_no_base (Program.ofSource source).lines (.ofBase none) output with
      hbare | hsame
    · exact .inl hbare
    · right
      constructor
      · exact (hsame .decimal).1.trans (hwritten.result_eq _ _)
      · intro base
        exact (hsame base).2.trans (hwritten.output_eq _ _)

theorem Calculator.run_default_base_chosen :
    let source := "print 10\nconfig bin\nprint 10\nprint x"
    ∃ first second : Printing, first.row .hexadecimal = ["a"] ∧ second.row .hexadecimal = ["1010"] ∧
      Program.PrintsAt (Program.ofSource source).lines (.ofBase none) 0 first ∧
      Program.PrintsAt (Program.ofSource source).lines (.ofBase none) 1 second := by
  intro source
  obtain ⟨result, printings, hrun, -, hprints, -⟩ := Calculator.run_default_base source .empty
  have hrows :
      (({ defaultBase := some .hexadecimal } : Calculator).run source).2.output.rows.toList =
        [["a"], ["1010"]] := by decide +kernel
  have hmap : printings.map (Printing.row .hexadecimal) = [["a"], ["1010"]] := by
    rw [← hrows]
    simpa [Printing.rows] using (congrArg (·.2.output.rows.toList) (hrun .hexadecimal)).symm
  obtain ⟨first, rest, rfl, hfirst, hrest⟩ := List.map_eq_cons_iff.1 hmap
  obtain ⟨second, rest, rfl, hsecond, hrest⟩ := List.map_eq_cons_iff.1 hrest
  exact ⟨first, second, hfirst, hsecond, hprints 0 first rfl, hprints 1 second rfl⟩

end LineCalc
