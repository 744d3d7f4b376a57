/-
A default base is as good as a `config` line in front. A source that is given its base from outside
runs as it would with a line more that chooses the base; only the numbers in reports differ. Once a
`config` line of the source itself has been carried out, no default base matters: whatever it was,
the run goes on from the same context.
-/
import LineCalc.Proofs.Calculator.DefaultBase
import LineCalc.Proofs.Calculator.Requests
import LineCalc.Proofs.Line.Spelling
import LineCalc.Proofs.Program.Sequence

namespace LineCalc

/-! ## The line in front -/

theorem words_config (base : Base) :
    words ("config " ++ base.keyword) = ["config", base.keyword] := by
  cases base <;> decide

theorem Program.lines_ofSource_config (base : Base) :
    (ofSource ("config " ++ base.keyword)).lines =
      [.ofString ("config " ++ base.keyword) (some 1)] := by
  cases base <;> rfl

theorem Program.runOn_config (base : Base) (machine : Machine) :
    (ofSource ("config " ++ base.keyword)).runOn machine =
      (.ok (), { machine with context := machine.context.setBase base }) := by
  obtain ⟨span, hstatement⟩ := Line.statement_config (words_config base) (some 1)
  unfold runOn
  simp only [lines_ofSource_config, runLines, Line.run, hstatement, Statement.run]

theorem Calculator.run_config_append (calculator : Calculator) (base : Base) (source : String) :
    calculator.run ("config " ++ base.keyword ++ "\n" ++ source) =
      let (result, next) := (calculator.setDefaultBase (some base)).run source
      (result.mapError (.moveDown 1), { calculator with output := next.output }) := by
  have hcount : ("config " ++ base.keyword).toList.count '\n' = 0 := by
    cases base <;> decide
  simp only [run, Program.run, Program.runOn_append, Program.runOn_config, hcount]
  rfl

/-! ## After a line that chooses a base -/

/-- A line that passes leads to the same values from any base to fall back on, and to the base that
it chooses. -/
theorem Line.exists_context (line : Line) (context : Context) :
    ∃ next : Context, next.base = line.chosen?.or context.base ∧
      ∀ fallback output printed reached,
        line.run ⟨context.orBase fallback, output⟩ = (.ok printed, reached) →
        reached.context = next.orBase fallback := by
  cases line.acts context with
  | fails report _ hrun =>
    refine ⟨{ context with base := line.chosen?.or context.base }, rfl, ?_⟩
    intro fallback output printed reached h
    rw [hrun] at h
    cases h
  | passes next hbase hrun =>
    refine ⟨next, hbase, ?_⟩
    intro fallback output printed reached h
    rw [hrun] at h
    cases h
    rfl
  | prints span value x hstatement _ hrun =>
    refine ⟨context, by simp [chosen?, hstatement], ?_⟩
    intro fallback output printed reached h
    rw [hrun] at h
    split at h
    · cases h
    · cases h
      rfl

theorem Program.exists_context (lines : List Line) (context : Context) :
    ∃ next : Context, next.base = (chosen? lines).or context.base ∧
      ∀ fallback output reached,
        runLines lines ⟨context.orBase fallback, output⟩ = (.ok (), reached) →
        reached.context = next.orBase fallback := by
  induction lines generalizing context with
  | nil =>
    refine ⟨context, rfl, ?_⟩
    rintro fallback output _ ⟨⟩
    rfl
  | cons line lines ih =>
    obtain ⟨next, hnext, hline⟩ := line.exists_context context
    obtain ⟨last, hlast, hlines⟩ := ih next
    refine ⟨last, by rw [hlast, hnext, chosen?_cons, Option.or_assoc], ?_⟩
    intro fallback output reached h
    unfold runLines at h
    split at h
    · rename_i printed machine hrun
      obtain ⟨_, output'⟩ := machine
      obtain rfl := hline _ _ _ _ hrun
      exact hlines _ _ _ h
    · cases h

/-- Once a base has been chosen, the context does not depend on the default base. -/
theorem Program.exists_context_of_chosen? {lines : List Line} {chosen : Base}
    (h : chosen? lines = some chosen) :
    ∃ context : Context, context.base = some chosen ∧ ∀ default output reached,
      runLines lines ⟨.ofBase default, output⟩ = (.ok (), reached) →
      reached.context = context := by
  obtain ⟨context, hbase, hreached⟩ := exists_context lines (.ofBase none)
  rw [h, Option.some_or] at hbase
  refine ⟨context, hbase, ?_⟩
  intro default output reached hrun
  rw [hreached default output reached hrun, Context.orBase_of_base hbase]

/-- A default base is the same as a leading `config` line. A source run with a default base adds the
same rows and has the same result as with any default base after a line that chooses that base,
except that every report then names a line one further down. And a `config` line of the source
overrides the default base: a print line after it, if it is reached at all, has the same value with
any default base, and prints it in the base that the last `config` line before it chose. -/
theorem Calculator.run_leading_config (source : String) (base : Base) (default : Option Base)
    (output : Output) :
    let given := ({ output, defaultBase := some base } : Calculator).run source
    let led := ({ output, defaultBase := default } : Calculator).run
      ("config " ++ base.keyword ++ "\n" ++ source)
    (∃ rows, given.2.output = output ++ rows ∧ led.2.output = output ++ rows) ∧
    (match given.1 with
      | .ok () => led.1 = .ok ()
      | .error report => ∃ n, report.line = some n ∧
          led.1 = .error { report with line := some (n + 1) }) ∧
    ∀ before line after span value chosen,
      (Program.ofSource source).lines = before ++ line :: after →
      line.statement = .ok (.print span value) → Program.chosen? before = some chosen →
      ∃ answer : Except Report Binary64, ∀ default reached,
        Program.runLines before ⟨.ofBase default, output⟩ = (.ok (), reached) →
        value.eval reached.context = answer ∧ line.run reached = match answer with
          | .error report => (.error report, reached)
          | .ok x => (.ok (some (x.numeral chosen)),
              { reached with output := reached.output.print [x.numeral chosen] }) := by
  intro given led
  have hled : led = (given.1.mapError (.moveDown 1), ⟨given.2.output, default⟩) :=
    run_config_append _ base source
  have hrows : given.2.output = output ++ (alone (some base) source).2 :=
    congrArg (·.2.output) (run_eq_alone _ source)
  refine ⟨⟨_, hrows, ?_⟩, ?_, ?_⟩
  · rw [hled]
    exact hrows
  · rw [hled]
    rcases hrun : (Program.ofSource source).runOn ⟨.ofBase (some base), output⟩ with
      ⟨report | _, last⟩
    · obtain ⟨k, -, hline⟩ := Program.line_of_runLines_eq_error hrun
      have hresult : given.1 = .error report := congrArg Prod.fst hrun
      rw [hresult]
      refine ⟨1 + k, hline, ?_⟩
      simp only [Except.mapError, Report.moveDown, hline, Option.map_some]
    · have hresult : given.1 = .ok () := congrArg Prod.fst hrun
      rw [hresult]
      rfl
  · intro before line after span value chosen _ hstatement hchosen
    obtain ⟨context, hbase, hreached⟩ := Program.exists_context_of_chosen? hchosen
    refine ⟨value.eval context, ?_⟩
    intro default' reached hrun
    have hcontext := hreached default' output reached hrun
    rw [hcontext]
    refine ⟨rfl, ?_⟩
    simp only [Line.run, hstatement, Statement.run, hcontext, hbase]
    cases value.eval context <;> rfl

theorem Calculator.run_leading_config_overridden :
    let source := "print 10\n\nconfig bin\nprint 10\nprint x"
    let led := ({ defaultBase := some .decimal } : Calculator).run
      ("config " ++ Base.hexadecimal.keyword ++ "\n" ++ source)
    (led.2.output.rows.toList = [["a"], ["1010"]] ∧
      led.1 = .error
        { kind := .undeclaredVariable, line := some 6, span := ⟨6, 7⟩, message := "x" }) ∧
    ∃ before line after span value reached,
      (Program.ofSource source).lines = before ++ line :: after ∧
      line.statement = .ok (.print span value) ∧ Program.chosen? before = some .binary ∧
      Program.runLines before ⟨.ofBase (some .hexadecimal), .empty⟩ = (.ok (), reached) ∧
      (line.run reached).1 = .ok (some "1010") := by
  intro source led
  let given := ({ defaultBase := some .hexadecimal } : Calculator).run source
  let before := (Program.ofSource source).lines.take 2
  let reached := (Program.runLines before ⟨.ofBase (some .hexadecimal), .empty⟩).2
  obtain ⟨⟨rows, hgiven, hled⟩, hresult, hprint⟩ :=
    run_leading_config source .hexadecimal (some .decimal) .empty
  refine ⟨⟨?_, ?_⟩, before, .ofString "print 10" (some 4), [.ofString "print x" (some 5)], ⟨0, 5⟩,
    .literal ⟨6, 8⟩ (Decimal.toBinary64 false ⟨10, 0⟩), reached, ?_⟩
  · have hrows : given.2.output.rows.toList = [["a"], ["1010"]] := by decide +kernel
    rw [hled, ← hgiven]
    exact hrows
  · have hfails : given.1 = .error
        { kind := .undeclaredVariable, line := some 5, span := ⟨6, 7⟩, message := "x" } := by
      decide +kernel
    simp only [given, hfails] at hresult
    obtain ⟨n, ⟨⟩, hled⟩ := hresult
    exact hled
  · have hlines : (Program.ofSource source).lines = before ++
        .ofString "print 10" (some 4) :: [.ofString "print x" (some 5)] := by decide +kernel
    have hstatement : (Line.ofString "print 10" (some 4)).statement =
        .ok (.print ⟨0, 5⟩ (.literal ⟨6, 8⟩ (Decimal.toBinary64 false ⟨10, 0⟩))) := by
      decide +kernel
    have hchosen : Program.chosen? before = some .binary := by decide +kernel
    have hbefore : Program.runLines before ⟨.ofBase (some .hexadecimal), .empty⟩ =
        (.ok (), reached) := Prod.ext (by decide +kernel) rfl
    obtain ⟨answer, hanswer⟩ := hprint before _ _ _ _ _ hlines hstatement hchosen
    obtain ⟨rfl, hrun⟩ := hanswer _ reached hbefore
    refine ⟨hlines, hstatement, hchosen, hbefore, ?_⟩
    rw [hrun]
    decide +kernel

end LineCalc
