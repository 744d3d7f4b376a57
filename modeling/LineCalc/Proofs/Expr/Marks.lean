/-
The marks of an expression: what its nodes show, in order of the text, each with its columns. They
are the marks of the lexemes it was read from, parentheses left out.
-/
import LineCalc.Proofs.Expr.Grammar

namespace LineCalc

/-! ## Marks -/

def ArithOp.sign : ArithOp → String
  | add => "+"
  | subtract => "-"
  | multiply => "*"
  | divide => "/"

/-- What a node shows: the value of a literal, a name, or the sign of an operation. -/
inductive Mark where
  | number (value : Binary64)
  | name (text : String)
  | sign (op : ArithOp)
deriving DecidableEq

namespace Mark

/-- The mark that a token makes, if it makes one. -/
def ofToken? : Token → Option Mark
  | .integer text => (Literal.ofString? text).map (.number ·.toBinary64)
  | .operator .plus => some (.sign .add)
  | .operator .minus => some (.sign .subtract)
  | .operator .times => some (.sign .multiply)
  | .operator .divide => some (.sign .divide)
  | token => token.name?.map .name

/-- Whether a text is one of those that the mark stands for. A number has many. -/
def IsText : Mark → String → Prop
  | number value, text => ∃ literal, Literal.ofString? text = some literal ∧
      literal.toBinary64 = value
  | name n, text => text = n
  | sign op, text => text = op.sign

theorem isText_of_ofToken? {token : Token} {mark : Mark} (h : ofToken? token = some mark) :
    mark.IsText token.text := by
  unfold ofToken? at h
  split at h
  · obtain ⟨literal, hliteral, rfl⟩ := Option.map_eq_some_iff.1 h
    exact ⟨literal, hliteral, rfl⟩
  all_goals try (cases h; rfl)
  obtain ⟨n, hn, rfl⟩ := Option.map_eq_some_iff.1 h
  cases token <;> cases hn <;> rfl

theorem ofToken?_of_name? {token : Token} {n : String} (h : token.name? = some n) :
    ofToken? token = some (.name n) := by
  cases token <;> cases h <;> rfl

theorem name?_of_ofToken? {token : Token} {n : String} (h : ofToken? token = some (.name n)) :
    token.name? = some n := by
  unfold ofToken? at h
  split at h
  · obtain ⟨_, _, hname⟩ := Option.map_eq_some_iff.1 h
    cases hname
  all_goals try cases h
  obtain ⟨_, hname, ⟨⟩⟩ := Option.map_eq_some_iff.1 h
  exact hname

theorem ofToken?_of_joins {level : Expr.Level} {token : Token} {op : ArithOp}
    (h : Expr.Joins level token op) : ofToken? token = some (.sign op) := by
  cases h <;> rfl

end Mark

/-- The columns of a lexeme and its mark. -/
def Lexeme.mark (l : Lexeme) : Span × Option Mark := (l.span, Mark.ofToken? l.token)

def Token.isParen (token : Token) : Bool := token = .leftParen || token = .rightParen

namespace Expr

/-- The marks of the nodes with their columns, from left to right. -/
def marks : Expr → List (Span × Mark)
  | literal span value => [(span, .number value)]
  | var span name => [(span, .name name)]
  | binary op span lhs rhs => lhs.marks ++ (span, .sign op) :: rhs.marks

/-! ## Marks of what is read -/

theorem isParen_of_name? {token : Token} {n : String} (h : token.name? = some n) :
    token.isParen = false := by
  cases token <;> cases h <;> rfl

theorem isParen_of_joins {level : Level} {token : Token} {op : ArithOp} (h : Joins level token op) :
    token.isParen = false := by
  cases h <;> rfl

/-- No lexeme of a phrase is lost, repeated or moved, parentheses apart. -/
theorem Derives.map_mark {phrase : Phrase} {u : List Lexeme} {e : Expr} (h : Derives phrase u e) :
    (u.filter (!·.token.isParen)).map Lexeme.mark = e.marks.map fun m => (m.1, some m.2) := by
  induction h with
  | @integer l text value htoken hvalue =>
    have hparen : l.token.isParen = false := by rw [htoken]; rfl
    have hmark : Mark.ofToken? l.token = some (.number value.toBinary64) := by
      simp [htoken, Mark.ofToken?, hvalue]
    simp [hparen, Lexeme.mark, hmark, marks]
  | @name l n hname => simp [isParen_of_name? hname, Lexeme.mark, marks, Mark.ofToken?_of_name? hname]
  | @paren l r u e hl hr _ ih =>
    have hlparen : l.token.isParen = true := by rw [hl]; rfl
    have hrparen : r.token.isParen = true := by rw [hr]; rfl
    simpa [hlparen, hrparen] using ih
  | single _ ih => exact ih
  | @join level u v l op lhs rhs _ hj _ ihu ihv =>
    rw [List.filter_append, List.filter_cons, List.map_append, ihu]
    simp [isParen_of_joins hj, Lexeme.mark, Mark.ofToken?_of_joins hj, marks, ihv]

end Expr

end LineCalc
