/-
Reading an expression off the front of a list of lexemes. A sum is a chain of products and a
product a chain of operands, both joined from the left; an operand is an integer, a name or a
parenthesised sum. What follows the expression is left over.
-/
import LineCalc.Decimal.Literal
import LineCalc.Expr
import LineCalc.Lexeme
import LineCalc.Report

namespace LineCalc.Expr

/-! ## Levels -/

/-- The two levels at which operators join. -/
inductive Level where
  | sum
  | product
deriving DecidableEq

/-- The operation that a token joins with at a level. -/
def Level.op? : Level → Token → Option ArithOp
  | sum, .operator .plus => some .add
  | sum, .operator .minus => some .subtract
  | product, .operator .times => some .multiply
  | product, .operator .divide => some .divide
  | _, _ => none

/-- Levels that bind looser rank higher; between them the same lexemes are read again. -/
def Level.rank : Level → Nat
  | sum => 3
  | product => 1

/-! ## Reading -/

/-- An expression and the lexemes after it, of which there are fewer than `bound`. -/
structure Parsed (bound : Nat) where
  expr : Expr
  rest : List Lexeme
  rest_lt : rest.length < bound

/-- The same reading against a greater bound. -/
def Parsed.weaken {a b : Nat} (read : Parsed a) (h : a ≤ b) : Parsed b :=
  ⟨read.expr, read.rest, Nat.lt_of_lt_of_le read.rest_lt h⟩

/-- Takes the right parenthesis that has to follow what has been read. -/
def closeParen (stop : Nat) {bound : Nat} (read : Parsed bound) : Except Report (Parsed bound) :=
  match read with
  | ⟨_, [], _⟩ => .error (Fault.missingRightParen.reportAt (.caret stop))
  | ⟨inner, l :: ls, rest_lt⟩ =>
    if l.token = .rightParen then .ok ⟨inner, ls, by simp at rest_lt; omega⟩
    else .error (Fault.missingRightParen.reportAt l.span)

mutual

/-- Reads one operand. `stop` is the column where the line ends. -/
def operand (stop : Nat) : (ls : List Lexeme) → Except Report (Parsed ls.length)
  | [] => .error (Fault.missingOperand.reportAt (.caret stop))
  | l :: ls =>
    match l.token with
    | .integer text =>
      match Literal.ofString? text with
      | some value => .ok ⟨.literal l.span value.toBinary64, ls, by simp⟩
      | none => .error (Fault.invalidInteger.reportAt l.span)
    | .leftParen =>
      match chain stop .sum ls with
      | .error report => .error report
      | .ok inner => closeParen stop (inner.weaken (by simp))
    | token =>
      match token.name? with
      | some name => .ok ⟨.var l.span name, ls, by simp⟩
      | none => .error (Fault.missingOperand.reportAt l.span)
termination_by ls => 5 * ls.length
decreasing_by simp [Level.rank]; omega

/-- Reads one term of a chain. -/
def term (stop : Nat) (level : Level) (ls : List Lexeme) : Except Report (Parsed ls.length) :=
  match level with
  | .sum => chain stop .product ls
  | .product => operand stop ls
termination_by 5 * ls.length + level.rank
decreasing_by all_goals simp [Level.rank]

/-- Reads terms joined by the operators of a level. -/
def chain (stop : Nat) (level : Level) (ls : List Lexeme) : Except Report (Parsed ls.length) :=
  match term stop level ls with
  | .error report => .error report
  | .ok first => extend stop level first
termination_by 5 * ls.length + level.rank + 1
decreasing_by
  · omega
  · have := first.rest_lt; omega

/-- Joins further terms to what has been read, as long as an operator follows. -/
def extend (stop : Nat) (level : Level) {bound : Nat} (read : Parsed bound) :
    Except Report (Parsed bound) :=
  match read with
  | ⟨lhs, [], rest_lt⟩ => .ok ⟨lhs, [], rest_lt⟩
  | ⟨lhs, l :: ls, rest_lt⟩ =>
    match level.op? l.token with
    | none => .ok ⟨lhs, l :: ls, rest_lt⟩
    | some op =>
      match term stop level ls with
      | .error report => .error report
      | .ok ⟨rhs, rest, h⟩ =>
        extend stop level ⟨.binary op l.span lhs rhs, rest, by simp at rest_lt; omega⟩
termination_by 5 * read.rest.length + level.rank
decreasing_by
  · simp
  · simp; omega

end

/-- Reads a sum. -/
abbrev sum (stop : Nat) := chain stop .sum

/-- Reads a product. -/
abbrev product (stop : Nat) := chain stop .product

end LineCalc.Expr
