/-
Running a line. A machine is a context and an output; a line that fails leaves both as they were.
-/
import LineCalc.Context
import LineCalc.Line
import LineCalc.Numeral
import LineCalc.Output

namespace LineCalc

/-! ## Evaluation -/

/-- The value of an expression, operands from left to right. -/
def Expr.eval (context : Context) : Expr → Except Report Binary64
  | literal _ value => .ok value
  | var span name =>
    match context.read name with
    | some value => .ok value
    | none => .error ((Fault.undeclared name).reportAt span)
  | binary op _ lhs rhs =>
    match lhs.eval context with
    | .error report => .error report
    | .ok x =>
      match rhs.eval context with
      | .error report => .error report
      | .ok y => .ok (op.apply x y)

/-! ## Execution -/

structure Machine where
  context : Context
  output : Output

/-- Carries out a statement; the answer is the text it printed, if it printed. A value is computed
before it is asked in which base to print it. -/
def Statement.run (statement : Statement) (machine : Machine) :
    Except Report (Option String) × Machine :=
  match statement with
  | empty => (.ok none, machine)
  | config _ base => (.ok none, { machine with context := machine.context.setBase base })
  | assign _ name value =>
    match value.eval machine.context with
    | .error report => (.error report, machine)
    | .ok x => (.ok none, { machine with context := machine.context.store name x })
  | print span value =>
    match value.eval machine.context, machine.context.base with
    | .error report, _ => (.error report, machine)
    | .ok _, none => (.error (Fault.unconfigured.reportAt span), machine)
    | .ok x, some base =>
      let text := x.numeral base
      (.ok (some text), { machine with output := machine.output.print [text] })

/-- Carries out a line. -/
def Line.run (line : Line) (machine : Machine) : Except Report (Option String) × Machine :=
  match line.statement with
  | .error report => (.error report, machine)
  | .ok statement => statement.run machine

end LineCalc
