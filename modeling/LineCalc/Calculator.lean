/-
Calculators: what a host talks to. Each run has a context of its own, which starts with the default
base; the output is shared by all runs. What a run tells a log is apart from what it does: its
events are those of `Calculator.logEvents`.
-/
import LineCalc.Program

namespace LineCalc

structure Calculator where
  output : Output := .empty
  defaultBase : Option Base := none

namespace Calculator

def run (calculator : Calculator) (source : String) : Except Report Unit × Calculator :=
  let (result, output) :=
    (Program.ofSource source).run calculator.defaultBase calculator.output
  (result, { calculator with output })

def clearOutput (calculator : Calculator) : Calculator := { calculator with output := .empty }

def setDefaultBase (calculator : Calculator) (base : Option Base) : Calculator :=
  { calculator with defaultBase := base }

end Calculator

end LineCalc
