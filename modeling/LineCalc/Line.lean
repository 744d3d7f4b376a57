/-
Lines: the tokens of one line of source, with the line's number if it has one.
-/
import LineCalc.Statement
import LineCalc.Token.Lexer

namespace LineCalc

structure Line where
  number : Option Nat
  tokens : List Token
deriving DecidableEq

namespace Line

def ofString (text : String) (number : Option Nat) : Line := ⟨number, Token.lex text⟩

/-- The tokens that are not blank. -/
def significant (line : Line) : List Token := line.tokens.filter (!·.isBlank)

def isBlank (line : Line) : Bool := line.significant.isEmpty

def statement (line : Line) : Except Report Statement := Statement.ofTokens line.tokens

/-- A blank line says nothing. -/
theorem statement_of_isBlank {line : Line} (h : line.isBlank = true) :
    line.statement = .ok .empty := by
  unfold isBlank significant at h
  rw [← Lexeme.map_token_significant, List.isEmpty_iff, List.map_eq_nil_iff] at h
  unfold statement Statement.ofTokens
  rw [h]
  rfl

/-- The line as listed: its number, then its tokens, with blanks written as spaces. -/
def text (line : Line) : String :=
  let body := String.join (line.tokens.map Token.text)
  match line.number with
  | some n => toString n ++ " " ++ body
  | none => body

end Line

end LineCalc
