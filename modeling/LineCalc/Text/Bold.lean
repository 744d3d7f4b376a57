/-
Bold text on a terminal.
-/

namespace LineCalc

/-- The text between the escape sequences that turn bold type on and off, and a newline. -/
def boldLine (text : String) : String := "\x1b[1m" ++ text ++ "\x1b[0m\n"

end LineCalc
