/-
Statements, and reading one from the tokens of a line. The head decides: the word `config`, a name
before `=`, the word `print`; a line with any other head says nothing. Lexemes after a statement
are ignored.
-/
import LineCalc.Base
import LineCalc.Expr.Parser

namespace LineCalc

inductive Statement where
  | empty
  | config (span : Span) (base : Base)
  | assign (span : Span) (name : String) (value : Expr)
  | print (span : Span) (value : Expr)
deriving DecidableEq

namespace Statement

/-- The base named after `config`. -/
def readConfig (stop : Nat) (span : Span) (ls : List Lexeme) : Except Report Statement :=
  match ls.head?.bind (·.token.name?) |>.bind Base.ofKeyword? with
  | some base => .ok (.config span base)
  | none => .error (Fault.unknownBase.reportAt (Lexeme.nextSpan stop ls))

/-- The statement that `build` makes of the expression at the front. -/
def readWith (build : Expr → Statement) (stop : Nat) (ls : List Lexeme) : Except Report Statement :=
  (Expr.sum stop ls).map fun read => build read.expr

/-- What follows the head of an assignment. -/
def assigned? : List Lexeme → Option (List Lexeme)
  | [] => none
  | l :: ls => if l.token = .operator .equals then some ls else none

/-- Reads a statement off lexemes none of which is blank. `config` is never assigned to, `print`
may be. -/
def ofLexemes (ls : List Lexeme) : Except Report Statement :=
  let stop := Lexeme.endColumn ls
  match ls with
  | [] => .ok .empty
  | head :: rest =>
    if head.token = .word .config then readConfig stop head.span rest
    else match head.token.name?, assigned? rest with
      | some name, some body => readWith (.assign head.span name) stop body
      | _, _ =>
        if head.token = .word .print then readWith (.print head.span) stop rest
        else .ok .empty

def ofTokens (tokens : List Token) : Except Report Statement :=
  ofLexemes (Lexeme.significant tokens)

end Statement

end LineCalc
