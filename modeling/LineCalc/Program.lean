/-
Programs: numbered lines, run in order up to the first fault.
-/
import LineCalc.Machine

namespace LineCalc

structure Program where
  lines : List Line
deriving DecidableEq

namespace Program

/-! ## Source -/

/-- The pieces of a text between its newlines. -/
def splitLines (source : String) : List String :=
  (source.toList.splitOn '\n').map String.ofList

/-- Numbers texts from `first` and leaves the empty ones out. -/
def numberLines (first : Nat) : List String → List Line
  | [] => []
  | text :: texts =>
    let rest := numberLines (first + 1) texts
    if text = "" then rest else .ofString text (some first) :: rest

/-- The program of a source text. Lines count from one, and an empty line counts but is no part of
the program. -/
def ofSource (source : String) : Program := ⟨numberLines 1 (splitLines source)⟩

/-! ## Running -/

/-- Runs lines in order. The first fault ends the run, is reported with the number of its line, and
leaves what was done before it. -/
def runLines : List Line → Machine → Except Report Unit × Machine
  | [], machine => (.ok (), machine)
  | line :: lines, machine =>
    match line.run machine with
    | (.ok _, machine) => runLines lines machine
    | (.error report, machine) => (.error { report with line := line.number }, machine)

/-- A run of two lists of lines is a run of the first and, if it succeeds, of the second. -/
theorem runLines_append (xs ys : List Line) (machine : Machine) :
    runLines (xs ++ ys) machine =
      match runLines xs machine with
      | (.ok _, machine) => runLines ys machine
      | (.error report, machine) => (.error report, machine) := by
  induction xs generalizing machine with
  | nil => rfl
  | cons line lines ih =>
    simp only [List.cons_append, runLines]
    split
    · exact ih _
    · rfl

def runOn (program : Program) (machine : Machine) : Except Report Unit × Machine :=
  runLines program.lines machine

/-- Runs in a new context and adds to an output. -/
def run (program : Program) (base : Option Base) (output : Output) :
    Except Report Unit × Output :=
  let (result, machine) := program.runOn ⟨.ofBase base, output⟩
  (result, machine.output)

end Program

end LineCalc
