/-
Reading is blind to columns. Lexemes with the same tokens are read alike wherever they stand: as the
same expression but for its columns, with the same tokens left over, or with the same fault.
-/
import LineCalc.Expr.Parser

namespace LineCalc

/-! ## Without columns -/

/-- The report without its columns. -/
def Report.bare (report : Report) : Report := { report with span := .none }

@[simp]
theorem Fault.bare_reportAt (fault : Fault) (span : Span) :
    (fault.reportAt span).bare = fault.report := rfl

section

variable {α β γ : Type}

/-- An answer without columns, where `f` takes them from a result. -/
def bareAnswer (f : α → γ) : Except Report α → Except Report γ
  | .ok x => .ok (f x)
  | .error report => .error report.bare

theorem exists_of_bareAnswer_ok {f : α → γ} {g : β → γ} {x : α} {answer : Except Report β}
    (h : bareAnswer f (.ok x) = bareAnswer g answer) : ∃ y, answer = .ok y ∧ f x = g y := by
  cases answer with
  | error report => cases h
  | ok y => exact ⟨y, rfl, Except.ok.inj h⟩

theorem exists_of_bareAnswer_error {f : α → γ} {g : β → γ} {report : Report}
    {answer : Except Report β} (h : bareAnswer f (.error report) = bareAnswer g answer) :
    ∃ report', answer = .error report' ∧ report.bare = report'.bare := by
  cases answer with
  | error report' => exact ⟨report', rfl, Except.error.inj h⟩
  | ok y => cases h

end

namespace Expr

/-- The expression without its columns. -/
def bare : Expr → Expr
  | literal _ value => .literal .none value
  | var _ name => .var .none name
  | binary op _ lhs rhs => .binary op .none lhs.bare rhs.bare

/-- What has been read, without columns: the expression, and the tokens left over. -/
def Parsed.bare {bound : Nat} (read : Parsed bound) : Expr × List Token :=
  (read.expr.bare, read.rest.map Lexeme.token)

/-! ## Reading -/

theorem closeParen_blind (stop stop' : Nat) {a b : Nat} {read : Parsed a} {read' : Parsed b}
    (h : read.bare = read'.bare) :
    bareAnswer Parsed.bare (closeParen stop read) =
      bareAnswer Parsed.bare (closeParen stop' read') := by
  obtain ⟨e, rest, rest_lt⟩ := read
  obtain ⟨e', rest', rest_lt'⟩ := read'
  obtain ⟨hexpr, htokens⟩ := Prod.mk.inj h
  cases rest with
  | nil =>
    obtain rfl : rest' = [] := List.map_eq_nil_iff.1 htokens.symm
    rfl
  | cons l ls =>
    obtain ⟨l', ls', rfl, hl, hls⟩ := List.map_eq_cons_iff.1 htokens.symm
    by_cases hparen : l.token = .rightParen
    · simp only [closeParen, hl, hparen, if_true]
      exact congrArg Except.ok (Prod.ext hexpr hls.symm)
    · simp only [closeParen, hl, hparen, if_false]
      rfl

mutual

/-- Lists with the same tokens are answered alike by the reader of operands. -/
theorem operand_blind (stop stop' : Nat) : ∀ (ls : List Lexeme) {ls' : List Lexeme},
    ls.map Lexeme.token = ls'.map Lexeme.token →
    bareAnswer Parsed.bare (operand stop ls) = bareAnswer Parsed.bare (operand stop' ls')
  | [], ls', h => by
    obtain rfl : ls' = [] := List.map_eq_nil_iff.1 h.symm
    rw [operand, operand]
    rfl
  | l :: ls, ls', h => by
    obtain ⟨l', ls', rfl, hl, hls⟩ := List.map_eq_cons_iff.1 h.symm
    rw [operand, operand, hl]
    split
    · rename_i text htoken
      cases Literal.ofString? text with
      | none => rfl
      | some value => exact congrArg (Except.ok <| Prod.mk _ ·) hls.symm
    · have hanswer := chain_blind stop stop' .sum ls hls.symm
      cases hchain : chain stop .sum ls with
      | error report =>
        rw [hchain] at hanswer
        obtain ⟨report', hchain', hreport⟩ := exists_of_bareAnswer_error hanswer
        rw [hchain']
        exact congrArg Except.error hreport
      | ok inner =>
        rw [hchain] at hanswer
        obtain ⟨inner', hchain', hinner⟩ := exists_of_bareAnswer_ok hanswer
        rw [hchain']
        exact closeParen_blind stop stop' hinner
    · cases l.token.name? with
      | none => rfl
      | some name => exact congrArg (Except.ok <| Prod.mk _ ·) hls.symm
termination_by ls => 5 * ls.length
decreasing_by simp [Level.rank]; omega

theorem term_blind (stop stop' : Nat) (level : Level) (ls : List Lexeme) {ls' : List Lexeme}
    (h : ls.map Lexeme.token = ls'.map Lexeme.token) :
    bareAnswer Parsed.bare (term stop level ls) =
      bareAnswer Parsed.bare (term stop' level ls') := by
  cases level with
  | sum =>
    rw [term, term]
    exact chain_blind stop stop' .product ls h
  | product =>
    rw [term, term]
    exact operand_blind stop stop' ls h
termination_by 5 * ls.length + level.rank
decreasing_by all_goals simp [Level.rank]

theorem chain_blind (stop stop' : Nat) (level : Level) (ls : List Lexeme) {ls' : List Lexeme}
    (h : ls.map Lexeme.token = ls'.map Lexeme.token) :
    bareAnswer Parsed.bare (chain stop level ls) =
      bareAnswer Parsed.bare (chain stop' level ls') := by
  have hanswer := term_blind stop stop' level ls h
  rw [chain, chain]
  cases hterm : term stop level ls with
  | error report =>
    rw [hterm] at hanswer
    obtain ⟨report', hterm', hreport⟩ := exists_of_bareAnswer_error hanswer
    rw [hterm']
    exact congrArg Except.error hreport
  | ok first =>
    rw [hterm] at hanswer
    obtain ⟨first', hterm', hfirst⟩ := exists_of_bareAnswer_ok hanswer
    rw [hterm']
    exact extend_blind stop stop' level first hfirst
termination_by 5 * ls.length + level.rank + 1
decreasing_by
  · omega
  · have := first.rest_lt; omega

/-- What a chain has read so far may differ in its columns too. -/
theorem extend_blind (stop stop' : Nat) (level : Level) {bound : Nat} :
    ∀ (read : Parsed bound) {bound' : Nat} {read' : Parsed bound'}, read.bare = read'.bare →
      bareAnswer Parsed.bare (extend stop level read) =
        bareAnswer Parsed.bare (extend stop' level read')
  | ⟨e, [], rest_lt⟩, bound', ⟨e', rest', rest_lt'⟩, h => by
    obtain rfl : rest' = [] := List.map_eq_nil_iff.1 (Prod.mk.inj h).2.symm
    rw [extend, extend]
    exact congrArg Except.ok h
  | ⟨e, l :: ls, rest_lt⟩, bound', ⟨e', rest', rest_lt'⟩, h => by
    obtain ⟨hexpr, htokens⟩ := Prod.mk.inj h
    obtain ⟨l', ls', rfl, hl, hls⟩ := List.map_eq_cons_iff.1 htokens.symm
    rw [extend, extend, hl]
    cases level.op? l.token with
    | none => exact congrArg Except.ok h
    | some op =>
      have hanswer := term_blind stop stop' level ls hls.symm
      cases hterm : term stop level ls with
      | error report =>
        rw [hterm] at hanswer
        obtain ⟨report', hterm', hreport⟩ := exists_of_bareAnswer_error hanswer
        rw [hterm']
        exact congrArg Except.error hreport
      | ok right =>
        obtain ⟨rhs, rest, hrest⟩ := right
        rw [hterm] at hanswer
        obtain ⟨⟨rhs', rest', hrest'⟩, hterm', hright⟩ := exists_of_bareAnswer_ok hanswer
        obtain ⟨hrhs, htokens⟩ := Prod.mk.inj hright
        rw [hterm']
        apply extend_blind stop stop' level
        refine Prod.ext ?_ htokens
        show Expr.binary op .none e.bare rhs.bare = Expr.binary op .none e'.bare rhs'.bare
        rw [hexpr, hrhs]
termination_by read => 5 * read.rest.length + level.rank
decreasing_by
  · simp
  · simp; omega

end

theorem sum_blind (stop stop' : Nat) {ls ls' : List Lexeme}
    (h : ls.map Lexeme.token = ls'.map Lexeme.token) :
    bareAnswer Parsed.bare (sum stop ls) = bareAnswer Parsed.bare (sum stop' ls') :=
  chain_blind stop stop' .sum ls h

end Expr

end LineCalc
