/-
The log: what a run tells of itself while it goes on, apart from what it prints. Which events a log
keeps, and the text it makes of one, with the time and in whatever form, is settled outside.
-/
import LineCalc.Calculator

namespace LineCalc

/-! ## Events -/

namespace Log

inductive Level where
  | debug
  | info
  | warning
deriving DecidableEq

inductive Event where
  | started (lines : Nat)
  | executing (line : Line)
  | printed (numeral : String) (base : Base)
  | aborted (report : Report)
deriving DecidableEq

def Event.level : Event → Level
  | started _ => .info
  | executing _ => .debug
  | printed _ _ => .debug
  | aborted _ => .warning

end Log

/-- The events of a line: that it is carried out, and what it prints. -/
def Line.logEvents (line : Line) (machine : Machine) : List Log.Event :=
  match (line.run machine).1, machine.context.base with
  | .ok (some numeral), some base => [.executing line, .printed numeral base]
  | _, _ => [.executing line]

/-- The events of lines that are run in order, up to the first fault. -/
def Program.logEvents : List Line → Machine → List Log.Event
  | [], _ => []
  | line :: lines, machine =>
    line.logEvents machine ++ match line.run machine with
      | (.ok _, next) => logEvents lines next
      | (.error _, _) => []

/-- The events of a run: how many lines there are, then those of the lines, and then the report if
one of them fails. -/
def Calculator.logEvents (calculator : Calculator) (source : String) : List Log.Event :=
  let lines := (Program.ofSource source).lines
  let failure := match (calculator.run source).1 with
    | .ok () => []
    | .error report => [.aborted report]
  .started lines.length ::
    Program.logEvents lines ⟨.ofBase calculator.defaultBase, calculator.output⟩ ++ failure

/-! ## Logs -/

/-- A log: the events it keeps, and its entry for each of them, given how many it has kept
before. -/
structure Log where
  keeps : Log.Event → Bool
  entry : Nat → Log.Event → String

namespace Log

/-- The log that keeps nothing. -/
def off : Log := { keeps := fun _ => false, entry := fun _ _ => "" }

def text (log : Log) (events : List Event) : String :=
  String.join ((events.filter log.keeps).mapIdx log.entry)

end Log

end LineCalc
