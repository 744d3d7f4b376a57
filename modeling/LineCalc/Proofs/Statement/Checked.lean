/-
The reader of statements with its checks spelled out. Every token of a head is checked once more
when it is taken, although the head was recognised by that very token, and the expression after it
is read with checks. No check fails: the checked reader always gives the answer of the plain one.
-/
import LineCalc.Proofs.Expr.Checked
import LineCalc.Proofs.Statement.Grammar
import Mathlib.Tactic.SplitIfs

namespace LineCalc

/-! ## Tokens -/

namespace Lexeme

/-- Takes the token that has to be next. -/
def take (expected : Token) : List Lexeme → Except Slip (Lexeme × List Lexeme)
  | [] => .error .pastEnd
  | l :: ls => if l.token = expected then .ok (l, ls) else .error (.unexpected expected)

/-- Takes the name that has to be next. -/
def takeName : List Lexeme → Except Slip (String × Span × List Lexeme)
  | [] => .error .notName
  | l :: ls =>
    match l.token.name? with
    | some name => .ok (name, l.span, ls)
    | none => .error .notName

theorem take_cons {expected : Token} {l : Lexeme} (h : l.token = expected) (ls : List Lexeme) :
    take expected (l :: ls) = .ok (l, ls) :=
  if_pos h

theorem takeName_cons {l : Lexeme} {name : String} (h : l.token.name? = some name)
    (ls : List Lexeme) : takeName (l :: ls) = .ok (name, l.span, ls) := by
  simp only [takeName, h]

end Lexeme

/-! ## Statements -/

namespace Statement

/-- The statement that `build` makes of the expression at the front. -/
def checkedWith (build : Expr → Statement) (stop : Nat) (ls : List Lexeme) :
    Except Slip (Except Report Statement) := do
  match ← Expr.checkedChain stop .sum ls with
  | .error report => return .error report
  | .ok read => return .ok (build read.expr)

/-- The answer to a list that starts with `config`. -/
def checkedConfig (ls : List Lexeme) : Except Slip (Except Report Statement) := do
  let (head, rest) ← Lexeme.take (.word .config) ls
  return readConfig (Lexeme.endColumn ls) head.span rest

/-- The answer to a list that starts with a name and `=`. -/
def checkedAssign (ls : List Lexeme) : Except Slip (Except Report Statement) := do
  let (name, span, rest) ← Lexeme.takeName ls
  let (_, body) ← Lexeme.take (.operator .equals) rest
  checkedWith (.assign span name) (Lexeme.endColumn ls) body

/-- The answer to a list that starts with `print`. -/
def checkedPrint (ls : List Lexeme) : Except Slip (Except Report Statement) := do
  let (head, body) ← Lexeme.take (.word .print) ls
  checkedWith (.print head.span) (Lexeme.endColumn ls) body

/-- Whether a name is followed by `=`. -/
def isAssignment : List Lexeme → Bool
  | head :: equals :: _ => head.token.name?.isSome && equals.token = .operator .equals
  | _ => false

/-- Reads a statement as `ofLexemes` does: looks ahead to the first two tokens, and only then takes
them. -/
def checked (ls : List Lexeme) : Except Slip (Except Report Statement) :=
  if ls.head?.map Lexeme.token = some (.word .config) then checkedConfig ls
  else if isAssignment ls then checkedAssign ls
  else if ls.head?.map Lexeme.token = some (.word .print) then checkedPrint ls
  else .ok (.ok .empty)

section

variable {ls : List Lexeme}

theorem exists_configHead (h : ls.head?.map Lexeme.token = some (.word .config)) :
    ∃ span rest, ConfigHead ls span rest := by
  cases ls with
  | nil => cases h
  | cons head rest => exact ⟨head.span, rest, head, rfl, Option.some.inj h, rfl⟩

theorem exists_assignHead (hconfig : ls.head?.map Lexeme.token ≠ some (.word .config))
    (h : isAssignment ls = true) : ∃ span name body, AssignHead ls span name body := by
  match ls, h with
  | head :: equals :: body, h =>
    obtain ⟨hname, hequals⟩ := Bool.and_eq_true_iff.1 h
    obtain ⟨name, hname⟩ := Option.isSome_iff_exists.1 hname
    exact ⟨head.span, name, body, head, equals, rfl, fun h => hconfig (congrArg some h), hname,
      of_decide_eq_true hequals, rfl⟩

/-- A name and `=` are seen by the look-ahead. -/
theorem isAssignment_of_assignHead {span : Span} {name : String} {body : List Lexeme}
    (h : AssignHead ls span name body) : isAssignment ls = true := by
  obtain ⟨head, equals, rfl, -, hname, hequals, -⟩ := h
  simp [isAssignment, hname, hequals]

theorem exists_printHead (hassign : ¬ isAssignment ls = true)
    (h : ls.head?.map Lexeme.token = some (.word .print)) :
    ∃ span body, PrintHead ls span body := by
  cases ls with
  | nil => cases h
  | cons head body =>
    have hhead : head.token = .word .print := Option.some.inj h
    refine ⟨head.span, body, head, rfl, hhead, fun l hl hequals => hassign ?_, rfl⟩
    -- `print` is a name, so `=` cannot be next
    obtain ⟨body, rfl⟩ := List.head?_eq_some_iff.1 hl
    simp [isAssignment, hhead, Token.name?, hequals]

theorem checkedWith_eq (build : Expr → Statement) (stop : Nat) (ls : List Lexeme) :
    checkedWith build stop ls = .ok (readWith build stop ls) := by
  rw [checkedWith, Expr.checkedChain_eq, readWith, Expr.sum]
  cases Expr.chain stop .sum ls with
  | error report => rfl
  | ok read => rfl

theorem checkedConfig_eq {span : Span} {rest : List Lexeme} (h : ConfigHead ls span rest) :
    checkedConfig ls = .ok (ofLexemes ls) := by
  rw [ofLexemes_of_configHead h]
  obtain ⟨head, rfl, hhead, rfl⟩ := h
  rw [checkedConfig, Lexeme.take_cons hhead]
  rfl

theorem checkedAssign_eq {span : Span} {name : String} {body : List Lexeme}
    (h : AssignHead ls span name body) : checkedAssign ls = .ok (ofLexemes ls) := by
  rw [ofLexemes_of_assignHead h]
  obtain ⟨head, equals, rfl, -, hname, hequals, rfl⟩ := h
  rw [checkedAssign, Lexeme.takeName_cons hname]
  show (Lexeme.take _ _ >>= _) = _
  rw [Lexeme.take_cons hequals]
  exact checkedWith_eq _ _ body

theorem checkedPrint_eq {span : Span} {body : List Lexeme} (h : PrintHead ls span body) :
    checkedPrint ls = .ok (ofLexemes ls) := by
  rw [ofLexemes_of_printHead h]
  obtain ⟨head, rfl, hhead, -, rfl⟩ := h
  rw [checkedPrint, Lexeme.take_cons hhead]
  exact checkedWith_eq _ _ body

end

/-- No check fails, and the answer is that of the reader without checks. -/
theorem checked_eq (ls : List Lexeme) : checked ls = .ok (ofLexemes ls) := by
  unfold checked
  split_ifs with hconfig hassign hprint
  · obtain ⟨span, rest, h⟩ := exists_configHead hconfig
    exact checkedConfig_eq h
  · obtain ⟨span, name, body, h⟩ := exists_assignHead hconfig hassign
    exact checkedAssign_eq h
  · obtain ⟨span, body, h⟩ := exists_printHead hassign hprint
    exact checkedPrint_eq h
  · rw [ofLexemes_of_no_head]
    · rintro span rest ⟨head, rfl, hhead, -⟩
      exact hconfig (congrArg some hhead)
    · intro span name body h
      exact hassign (isAssignment_of_assignHead h)
    · rintro span body ⟨head, rfl, hhead, -⟩
      exact hprint (congrArg some hhead)

end Statement

end LineCalc
