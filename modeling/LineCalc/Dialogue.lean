/-
The interactive dialogue. Input lines are collected in a listing, except for the commands `RUN`,
`LIST`, `NEW` and `CLEAR`, which act on it. What the terminal is asked to do is a list of events;
the log of the runs goes to the error stream and is none of them.
-/
import LineCalc.Calculator
import LineCalc.Text.Bold

namespace LineCalc.Dialogue

/-! ## Commands -/

inductive Command where
  | run
  | clear
  | list
  | new
  | append (line : String)
deriving DecidableEq

/-- The command an input line gives. Blanks around a command and its case do not matter; any other
input is appended as it is. -/
def Command.ofInput (input : String) : Command :=
  let word := (trimBlanks input).map Char.toUpper
  if word = "RUN" then .run
  else if word = "CLEAR" then .clear
  else if word = "LIST" then .list
  else if word = "NEW" then .new
  else .append input

/-! ## Events -/

inductive Event where
  | prompt (text : String)
  | write (text : String)
  | history (text : String)
deriving DecidableEq

def ready : Event := .write "READY.\n"

/-- What a dialogue starts with. -/
def opening : List Event := [.prompt "> ", ready]

/-- A line of a listing with its number, set to four columns. -/
def listed (number : Nat) (line : String) : String :=
  let digits := Nat.toDigits 10 number
  String.ofList (List.replicate (4 - digits.length) ' ' ++ digits) ++ " " ++ line ++ "\n"

/-- The events of `LIST`, numbering from `first`. -/
def listEvents (first : Nat) : List String → List Event
  | [] => []
  | line :: lines => .write (listed first line) :: listEvents (first + 1) lines

/-! ## Steps -/

structure State where
  calculator : Calculator
  listing : Array String := #[]

/-- The program text a listing makes. -/
def State.source (state : State) : String := "\n".intercalate state.listing.toList

/-- Carries out a command. -/
def State.perform (state : State) (command : Command) : State × List Event :=
  match command with
  | .run =>
    let (result, calculator) := state.calculator.clearOutput.run state.source
    let shown := if calculator.output.rows.isEmpty then [] else [.write calculator.output.display]
    let failed := match result with
      | .ok () => []
      | .error report => [.write (boldLine report.text)]
    ({ state with calculator }, shown ++ failed ++ [ready])
  | .clear => ({ state with calculator := state.calculator.clearOutput }, [])
  | .list => (state, listEvents 1 state.listing.toList)
  | .new => ({ state with listing := #[] }, [])
  | .append line => ({ state with listing := state.listing.push line }, [])

/-- Answers an input line. It enters the history unless it is blank. -/
def State.answer (state : State) (input : String) : State × List Event :=
  let remembered := if trimBlanks input = "" then [] else [.history input]
  let (state, events) := state.perform (.ofInput input)
  (state, remembered ++ events)

/-- Answers input lines in order. -/
def State.answerAll (state : State) : List String → State × List Event
  | [] => (state, [])
  | input :: inputs =>
    let (next, events) := state.answer input
    let (last, more) := next.answerAll inputs
    (last, events ++ more)

theorem State.answerAll_append (state : State) (xs ys : List String) :
    state.answerAll (xs ++ ys) =
      let (next, events) := state.answerAll xs
      let (last, more) := next.answerAll ys
      (last, events ++ more) := by
  induction xs generalizing state with
  | nil => simp [answerAll]
  | cons x xs ih => simp [answerAll, ih]

/-! ## Whole dialogues -/

/-- How the input of a dialogue ends. -/
inductive Ending where
  | endOfInput
  | interrupt
  | failure
deriving DecidableEq

def Ending.code : Ending → Nat
  | endOfInput => 0
  | interrupt => 0
  | failure => 1

/-- The events of a dialogue that starts with a calculator and is given these lines. -/
def events (calculator : Calculator) (inputs : List String) : List Event :=
  opening ++ (({ calculator } : State).answerAll inputs).2

end LineCalc.Dialogue
