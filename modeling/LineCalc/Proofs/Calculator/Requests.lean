/-
What a host asks of a calculator, one request after another. A run answers and adds to the output as
it would on a new calculator with the default base in force, whatever was asked before; so the
output is made up of the rows of the runs since it was last cleared.
-/
import LineCalc.Calculator
import LineCalc.Proofs.Program.Appending

namespace LineCalc.Calculator

/-! ## Requests -/

inductive Request where
  | run (source : String)
  | clearOutput
  | setDefaultBase (base : Option Base)
deriving DecidableEq

/-- Does what is asked, in order. There is a result for each run. -/
def performAll (calculator : Calculator) : List Request → List (Except Report Unit) × Calculator
  | [] => ([], calculator)
  | .run source :: requests =>
    let (result, next) := calculator.run source
    let (results, last) := next.performAll requests
    (result :: results, last)
  | .clearOutput :: requests => calculator.clearOutput.performAll requests
  | .setDefaultBase base :: requests => (calculator.setDefaultBase base).performAll requests

theorem performAll_append (calculator : Calculator) (before after : List Request) :
    (calculator.performAll (before ++ after)).2 =
      ((calculator.performAll before).2.performAll after).2 := by
  induction before generalizing calculator with
  | nil => rfl
  | cons request before ih =>
    cases request with
    | run source => exact ih _
    | clearOutput => exact ih _
    | setDefaultBase base => exact ih _

/-! ## The default base -/

/-- The default base after requests: the one set last, or else the one there was. -/
def baseAfter (base : Option Base) (requests : List Request) : Option Base :=
  (requests.filterMap fun | .setDefaultBase base => some base | _ => none).getLast?.getD base

/-- No run changes the default base, whatever bases its lines choose. -/
theorem defaultBase_performAll (calculator : Calculator) (requests : List Request) :
    (calculator.performAll requests).2.defaultBase =
      baseAfter calculator.defaultBase requests := by
  induction requests generalizing calculator with
  | nil => rfl
  | cons request requests ih =>
    cases request with
    | run source => exact ih _
    | clearOutput => exact ih _
    | setDefaultBase base =>
      refine (ih _).trans ?_
      simp [baseAfter, setDefaultBase, List.getLast?_cons]

/-! ## Runs on their own -/

/-- What a source gives on a new calculator: its result and its rows. -/
def alone (base : Option Base) (source : String) : Except Report Unit × Output :=
  let (result, calculator) := ({ defaultBase := base } : Calculator).run source
  (result, calculator.output)

/-- The runs that are asked for, each with the default base in force at it. -/
def runs (base : Option Base) : List Request → List (Option Base × String)
  | [] => []
  | .run source :: requests => (base, source) :: runs base requests
  | .clearOutput :: requests => runs base requests
  | .setDefaultBase base :: requests => runs base requests

theorem run_eq_alone (calculator : Calculator) (source : String) :
    calculator.run source = ((alone calculator.defaultBase source).1, { calculator with
      output := calculator.output ++ (alone calculator.defaultBase source).2 }) := by
  simp only [run, alone, Program.run, Program.runOn, Program.runLines_output _ _ calculator.output]
  rfl

theorem results_performAll (calculator : Calculator) (requests : List Request) :
    (calculator.performAll requests).1 =
      (runs calculator.defaultBase requests).map fun r => (alone r.1 r.2).1 := by
  induction requests generalizing calculator with
  | nil => rfl
  | cons request requests ih =>
    cases request with
    | run source =>
      simp only [performAll, runs, List.map_cons, run_eq_alone, ih]
    | clearOutput => exact ih _
    | setDefaultBase base => exact ih _

/-- Until it is cleared, the output grows by the rows of each run. -/
theorem output_performAll (calculator : Calculator) {requests : List Request}
    (h : .clearOutput ∉ requests) :
    (calculator.performAll requests).2.output.rows.toList = calculator.output.rows.toList ++
      (runs calculator.defaultBase requests).flatMap fun r => (alone r.1 r.2).2.rows.toList := by
  induction requests generalizing calculator with
  | nil => simp [performAll, runs]
  | cons request requests ih =>
    have hrest : .clearOutput ∉ requests := fun hmem => h (List.mem_cons_of_mem _ hmem)
    cases request with
    | run source =>
      simp only [performAll, runs, List.flatMap_cons, run_eq_alone]
      rw [ih _ hrest]
      simp
    | clearOutput => exact absurd List.mem_cons_self h
    | setDefaultBase base => exact ih _ hrest

/-- Runs are isolated, and output is only added to. After any requests, a run has the result that
its source has on a new calculator with the default base in force, and adds the rows that it prints
there. All that is ever in the output is what was there at first, unless it was cleared, and then
the rows of the runs since it was last cleared. -/
theorem performAll_isolated (calculator : Calculator) (requests : List Request) :
    let last := (calculator.performAll requests).2
    (∀ source, last.run source =
      ((alone (baseAfter calculator.defaultBase requests) source).1, { last with
        output := last.output ++ (alone (baseAfter calculator.defaultBase requests) source).2 })) ∧
    (calculator.performAll requests).1 =
      (runs calculator.defaultBase requests).map (fun r => (alone r.1 r.2).1) ∧
    (.clearOutput ∉ requests → last.output.rows.toList = calculator.output.rows.toList ++
      (runs calculator.defaultBase requests).flatMap fun r => (alone r.1 r.2).2.rows.toList) ∧
    ∀ before after, requests = before ++ .clearOutput :: after → .clearOutput ∉ after →
      last.output.rows.toList = (runs (baseAfter calculator.defaultBase before) after).flatMap
        fun r => (alone r.1 r.2).2.rows.toList := by
  intro last
  refine ⟨?_, results_performAll calculator requests, output_performAll calculator, ?_⟩
  · intro source
    rw [run_eq_alone, defaultBase_performAll]
  · rintro before after rfl hafter
    simp only [last, performAll_append, performAll]
    rw [output_performAll _ hafter]
    simp only [clearOutput, defaultBase_performAll, Output.rows_empty, List.nil_append]

theorem performAll_isolated_after_failure :
    let calculator : Calculator := { output := ⟨#[["kept"]]⟩, defaultBase := some .hexadecimal }
    let before := [.run "x = 255\nconfig dec\nprint x\nprint y", .run "print 255", .run "print x"]
    let after := [.setDefaultBase (some .binary), .run "print 5"]
    (.clearOutput ∉ before ∧ (calculator.performAll before).2.output.rows.toList =
      [["kept"], ["255"], ["ff"]]) ∧
    .clearOutput ∉ after ∧
      (calculator.performAll (before ++ .clearOutput :: after)).2.output.rows.toList =
        [["101"]] := by
  intro calculator before after
  have hbefore : .clearOutput ∉ before := by decide
  have hafter : .clearOutput ∉ after := by decide
  refine ⟨⟨hbefore, ?_⟩, hafter, ?_⟩
  · rw [(performAll_isolated calculator before).2.2.1 hbefore]
    decide +kernel
  · rw [(performAll_isolated calculator _).2.2.2 before after rfl hafter]
    decide +kernel

end LineCalc.Calculator
