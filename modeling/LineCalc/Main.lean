/-
The program itself: it reads the command line and the script, or holds the dialogue on the
terminal. Its log is off.
-/
import LineCalc.CommandLine
import LineCalc.Dialogue

namespace LineCalc

/-- Reads a whole file. -/
def readScript (path : String) : IO (Except ReadFailure ByteArray) := do
  try
    return .ok (← IO.FS.readBinFile path)
  catch fault =>
    return .error <| match fault with
      | .noFileOrDirectory .. => .notFound
      | .permissionDenied .. => .permissionDenied
      | .inappropriateType _ code _ => if code = 21 then .isDirectory else .notDirectory
      -- a failure to open has the negated code of the system
      | .invalidArgument _ code _ => if code = -36 then .nameTooLong else .other (toString fault)
      | _ => .other (toString fault)

/-- Reads a line from the terminal, without its newline, or tells how the input ended. -/
def readInput : IO (Except Dialogue.Ending String) := do
  try
    let line ← (← IO.getStdin).getLine
    if line = "" then return .error .endOfInput
    else return .ok (String.ofList (line.toList.filter (· ≠ '\n')))
  catch _ => return .error .failure

/-- Does what an event asks for and gives the prompt in effect. A plain terminal keeps no
history. -/
def showEvent (prompt : String) : Dialogue.Event → IO String
  | .prompt text => return text
  | .write text => do IO.print text; return prompt
  | .history _ => return prompt

/-- Holds the dialogue up to the end of the input. -/
partial def converse (prompt : String) (state : Dialogue.State) : IO Dialogue.Ending := do
  IO.print prompt
  (← IO.getStdout).flush
  match ← readInput with
  | .error ending => return ending
  | .ok input =>
    let (state, events) := state.answer input
    converse (← events.foldlM showEvent prompt) state

/-- Writes what a finished process leaves. -/
def finish (outcome : CommandLine.Outcome) : IO UInt32 := do
  IO.print outcome.stdout
  IO.eprint outcome.stderr
  return outcome.code.toUInt32

end LineCalc

open LineCalc in
def main (args : List String) : IO UInt32 := do
  match CommandLine.Request.ofArguments args with
  | .error fault => finish { code := 2, stderr := fault.message ++ "\n" }
  | .ok request =>
    match request.job with
    | .finish outcome => finish outcome
    | .script path calculator =>
      finish (CommandLine.runScript path calculator (← readScript path))
    | .converse calculator =>
      let prompt ← Dialogue.opening.foldlM showEvent ""
      let ending ← converse prompt { calculator }
      return ending.code.toUInt32
