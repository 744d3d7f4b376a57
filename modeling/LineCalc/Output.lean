/-
Output: the rows a program has printed, each a list of fragments.
-/

namespace LineCalc

structure Output where
  rows : Array (List String) := #[]
deriving DecidableEq

namespace Output

def empty : Output := {}

def print (output : Output) (fragments : List String) : Output :=
  { output with rows := output.rows.push fragments }

/-- One text for each row, with spaces between its fragments. -/
def lines (output : Output) : List String :=
  output.rows.toList.map (" ".intercalate ·)

@[simp]
theorem lines_print (output : Output) (fragments : List String) :
    (output.print fragments).lines = output.lines ++ [" ".intercalate fragments] := by
  simp [print, lines]

/-- All rows as one text, without a final newline. -/
def text (output : Output) : String := "\n".intercalate output.lines

/-- What a terminal shows: the text with a newline, and nothing when no row has been printed. -/
def display (output : Output) : String :=
  if output.rows.isEmpty then "" else output.text ++ "\n"

end Output

end LineCalc
