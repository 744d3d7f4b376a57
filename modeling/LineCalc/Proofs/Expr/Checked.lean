/-
The reader of expressions with its checks spelled out. An operator that joins is let through first,
and then asked for its operation, although `=` has none. No check fails: the checked reader always
gives the answer of the plain one.
-/
import LineCalc.Expr.Parser

namespace LineCalc

/-- A check that fails. It would be a mistake of the reader, not a fault of the source. -/
inductive Slip where
  | pastEnd
  | unexpected (expected : Token)
  | notName
  | notArithmetic (operator : Operator)
  | setTwice
deriving DecidableEq

/-! ## Operators -/

/-- The operation of an operator. -/
def ArithOp.ofOperator : Operator → Except Slip ArithOp
  | .plus => .ok .add
  | .minus => .ok .subtract
  | .times => .ok .multiply
  | .divide => .ok .divide
  | .equals => .error (.notArithmetic .equals)

namespace Expr

namespace Level

/-- Whether an operator joins at a level. -/
def admits : Level → Operator → Bool
  | sum, operator => operator = .plus || operator = .minus
  | product, operator => operator = .times || operator = .divide

/-- The operation that a token joins with at a level: the operator is let through first, and then
asked for its operation. -/
def checkedOp (level : Level) : Token → Except Slip (Option ArithOp)
  | .operator operator =>
    if level.admits operator then (ArithOp.ofOperator operator).map some else .ok none
  | _ => .ok none

/-- No operator is let through that has no operation. -/
theorem checkedOp_eq (level : Level) (token : Token) :
    level.checkedOp token = .ok (level.op? token) := by
  cases token with
  | operator operator => cases level <;> cases operator <;> rfl
  | _ => cases level <;> rfl

end Level

/-! ## Reading -/

mutual

/-- Reads one operand. Only one in parentheses has operators in it. -/
def checkedOperand (stop : Nat) :
    (ls : List Lexeme) → Except Slip (Except Report (Parsed ls.length))
  | [] => .ok (operand stop [])
  | l :: ls =>
    if l.token = .leftParen then do
      match ← checkedChain stop .sum ls with
      | .error report => return .error report
      | .ok inner => return closeParen stop (inner.weaken (by simp))
    else .ok (operand stop (l :: ls))
termination_by ls => 5 * ls.length
decreasing_by simp [Level.rank]; omega

/-- Reads one term of a chain. -/
def checkedTerm (stop : Nat) (level : Level) (ls : List Lexeme) :
    Except Slip (Except Report (Parsed ls.length)) :=
  match level with
  | .sum => checkedChain stop .product ls
  | .product => checkedOperand stop ls
termination_by 5 * ls.length + level.rank
decreasing_by all_goals simp [Level.rank]

/-- Reads terms joined by the operators of a level. -/
def checkedChain (stop : Nat) (level : Level) (ls : List Lexeme) :
    Except Slip (Except Report (Parsed ls.length)) := do
  match ← checkedTerm stop level ls with
  | .error report => return .error report
  | .ok first => checkedExtend stop level first
termination_by 5 * ls.length + level.rank + 1
decreasing_by
  · omega
  · have := first.rest_lt; omega

/-- Joins further terms to what has been read, as long as an operator is let through. -/
def checkedExtend (stop : Nat) (level : Level) {bound : Nat} (read : Parsed bound) :
    Except Slip (Except Report (Parsed bound)) :=
  match read with
  | ⟨lhs, [], rest_lt⟩ => return .ok ⟨lhs, [], rest_lt⟩
  | ⟨lhs, l :: ls, rest_lt⟩ => do
    match ← level.checkedOp l.token with
    | none => return .ok ⟨lhs, l :: ls, rest_lt⟩
    | some op =>
      match ← checkedTerm stop level ls with
      | .error report => return .error report
      | .ok ⟨rhs, rest, h⟩ =>
        checkedExtend stop level ⟨.binary op l.span lhs rhs, rest, by simp at rest_lt; omega⟩
termination_by 5 * read.rest.length + level.rank
decreasing_by
  · simp
  · simp; omega

end

/-! ## No check fails -/

mutual

theorem checkedOperand_eq (stop : Nat) :
    ∀ ls : List Lexeme, checkedOperand stop ls = .ok (operand stop ls)
  | [] => by rw [checkedOperand]
  | l :: ls => by
    rw [checkedOperand]
    split
    · rename_i htoken
      rw [checkedChain_eq stop .sum ls, operand, htoken]
      cases chain stop .sum ls with
      | error report => rfl
      | ok inner => rfl
    · rfl
termination_by ls => 5 * ls.length
decreasing_by simp [Level.rank]; omega

theorem checkedTerm_eq (stop : Nat) (level : Level) (ls : List Lexeme) :
    checkedTerm stop level ls = .ok (term stop level ls) := by
  cases level with
  | sum =>
    rw [checkedTerm, term]
    exact checkedChain_eq stop .product ls
  | product =>
    rw [checkedTerm, term]
    exact checkedOperand_eq stop ls
termination_by 5 * ls.length + level.rank
decreasing_by all_goals simp [Level.rank]

theorem checkedChain_eq (stop : Nat) (level : Level) (ls : List Lexeme) :
    checkedChain stop level ls = .ok (chain stop level ls) := by
  rw [checkedChain, checkedTerm_eq stop level ls, chain]
  cases term stop level ls with
  | error report => rfl
  | ok first => exact checkedExtend_eq stop level first
termination_by 5 * ls.length + level.rank + 1
decreasing_by
  · omega
  · have := first.rest_lt; omega

theorem checkedExtend_eq (stop : Nat) (level : Level) {bound : Nat} :
    ∀ read : Parsed bound, checkedExtend stop level read = .ok (extend stop level read)
  | ⟨lhs, [], rest_lt⟩ => by
    rw [checkedExtend, extend]
    rfl
  | ⟨lhs, l :: ls, rest_lt⟩ => by
    rw [checkedExtend, extend, level.checkedOp_eq, checkedTerm_eq stop level ls]
    cases level.op? l.token with
    | none => rfl
    | some op =>
      cases term stop level ls with
      | error report => rfl
      | ok right =>
        obtain ⟨rhs, rest, h⟩ := right
        exact checkedExtend_eq stop level
          ⟨.binary op l.span lhs rhs, rest, by simp at rest_lt; omega⟩
termination_by read => 5 * read.rest.length + level.rank
decreasing_by
  · simp
  · simp; omega

end

end Expr

end LineCalc
