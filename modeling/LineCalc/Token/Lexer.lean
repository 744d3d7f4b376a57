/-
Cutting a line into tokens. The line falls into runs, each as long as possible and either all
blank or free of blanks, and every run is one token.
-/
import LineCalc.Text.Blank
import LineCalc.Token

namespace LineCalc.Token

/-- The token of a run of characters that are all blank or all not. -/
def ofRun (run : List Char) : Token :=
  if run.any LineCalc.isBlank then .blank run.length else classify (String.ofList run)

def lex (text : String) : List Token :=
  (text.toList.splitBy fun a b => LineCalc.isBlank a == LineCalc.isBlank b).map ofRun

end LineCalc.Token
