/-
Output is only added to. Rows that are there before a run have no part in it: they stay in front,
and the run does after them what it would have done without them.
-/
import LineCalc.Program

namespace LineCalc

/-! ## Outputs in a row -/

namespace Output

instance : Append Output := ⟨fun first second => ⟨first.rows ++ second.rows⟩⟩

@[simp]
theorem rows_append (first second : Output) : (first ++ second).rows = first.rows ++ second.rows :=
  rfl

@[simp]
theorem rows_empty : empty.rows = #[] := rfl

@[simp]
theorem append_empty (output : Output) : output ++ empty = output :=
  congrArg Output.mk Array.append_empty

theorem append_print (first second : Output) (fragments : List String) :
    first ++ second.print fragments = (first ++ second).print fragments :=
  congrArg Output.mk Array.append_push

end Output

/-! ## Rows in front of a machine's -/

/-- The machine, had these rows been there before its own. -/
def Machine.behind (machine : Machine) (rows : Output) : Machine :=
  { machine with output := rows ++ machine.output }

theorem Statement.run_behind (statement : Statement) (machine : Machine) (rows : Output) :
    statement.run (machine.behind rows) = (statement.run machine).map id (·.behind rows) := by
  cases statement with
  | empty => rfl
  | config span base => rfl
  | assign span name value =>
    simp only [run, Machine.behind]
    cases value.eval machine.context with
    | error report => rfl
    | ok x => rfl
  | print span value =>
    simp only [run, Machine.behind]
    cases value.eval machine.context with
    | error report => rfl
    | ok x =>
      cases machine.context.base with
      | none => rfl
      | some base => simp only [Prod.map, id, Output.append_print]

theorem Line.run_behind (line : Line) (machine : Machine) (rows : Output) :
    line.run (machine.behind rows) = (line.run machine).map id (·.behind rows) := by
  unfold run
  cases line.statement with
  | error report => rfl
  | ok statement => exact statement.run_behind machine rows

namespace Program

theorem runLines_behind (lines : List Line) (machine : Machine) (rows : Output) :
    runLines lines (machine.behind rows) = (runLines lines machine).map id (·.behind rows) := by
  induction lines generalizing machine with
  | nil => rfl
  | cons line lines ih =>
    simp only [runLines, line.run_behind]
    rcases line.run machine with ⟨report | printed, next⟩
    · rfl
    · exact ih next

/-- A run that starts with rows ends as one that starts with none, with its rows after them. -/
theorem runLines_output (lines : List Line) (context : Context) (output : Output) :
    runLines lines ⟨context, output⟩ =
      (runLines lines ⟨context, .empty⟩).map id (·.behind output) := by
  rw [← runLines_behind]
  simp only [Machine.behind, Output.append_empty]

end Program

end LineCalc
