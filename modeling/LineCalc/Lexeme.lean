/-
Lexemes: tokens with their place in the line. Columns count on without a bound, whatever the width
of the blanks between.
-/
import LineCalc.Span
import LineCalc.Token

namespace LineCalc

structure Lexeme where
  token : Token
  span : Span
deriving DecidableEq

namespace Lexeme

/-- Gives tokens their places, the first one at column `start`. -/
def locate (start : Nat) : List Token → List Lexeme
  | [] => []
  | t :: ts =>
    let stop := start + t.text.length
    ⟨t, start, stop⟩ :: locate stop ts

@[simp]
theorem map_token_locate (start : Nat) (tokens : List Token) :
    (locate start tokens).map token = tokens := by
  induction tokens generalizing start with
  | nil => rfl
  | cons t ts ih => simp [locate, ih]

/-- The lexemes of a line that are not blank. -/
def significant (tokens : List Token) : List Lexeme :=
  (locate 0 tokens).filter (!·.token.isBlank)

@[simp]
theorem map_token_significant (tokens : List Token) :
    (significant tokens).map token = tokens.filter (!·.isBlank) := by
  conv => rhs; rw [← map_token_locate 0 tokens, List.filter_map]
  rfl

/-- The column after the last lexeme. -/
def endColumn (lexemes : List Lexeme) : Nat :=
  match lexemes.getLast? with
  | some l => l.span.stop
  | none => 0

/-- The span of the next lexeme, or the end of the line when there is none. -/
def nextSpan (stop : Nat) : List Lexeme → Span
  | [] => .caret stop
  | l :: _ => l.span

end Lexeme

end LineCalc
