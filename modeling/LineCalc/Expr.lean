/-
Expressions. Each node has the span of the token that names it.
-/
import LineCalc.Binary64.Arith
import LineCalc.Span

namespace LineCalc

inductive ArithOp where
  | add
  | subtract
  | multiply
  | divide
deriving DecidableEq

def ArithOp.apply : ArithOp → Binary64 → Binary64 → Binary64
  | add, x, y => x + y
  | subtract, x, y => x - y
  | multiply, x, y => x * y
  | divide, x, y => x / y

inductive Expr where
  | literal (span : Span) (value : Binary64)
  | var (span : Span) (name : String)
  | binary (op : ArithOp) (span : Span) (lhs rhs : Expr)
deriving DecidableEq

end LineCalc
