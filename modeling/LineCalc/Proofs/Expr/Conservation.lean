/-
What a reader takes. Started anywhere in a list of lexemes, each of the three readers goes forward
or reports a fault at a place that it has not passed. What it goes over is a block with matching
parentheses, and without these the block is the expression that it returns, node by node.
-/
import LineCalc.Proofs.Expr.Marks
import LineCalc.Token.Lexer

namespace LineCalc

/-! ## Matching parentheses -/

/-- Whether the parentheses of the tokens match, when `depth` left ones before them are open. -/
def Token.parensMatch : Nat → List Token → Bool
  | depth, [] => depth = 0
  | depth, .leftParen :: ts => parensMatch (depth + 1) ts
  | 0, .rightParen :: _ => false
  | depth + 1, .rightParen :: ts => parensMatch depth ts
  | depth, _ :: ts => parensMatch depth ts

theorem Token.parensMatch_cons {t : Token} (h : t.isParen = false) (depth : Nat) (ts : List Token) :
    parensMatch depth (t :: ts) = parensMatch depth ts := by
  cases t with
  | leftParen => cases h
  | rightParen => cases h
  | _ => rfl

namespace Expr

/-- A phrase closes the parentheses that it opens, and no other. -/
theorem Derives.parensMatch_append {phrase : Phrase} {u : List Lexeme} {e : Expr}
    (h : Derives phrase u e) (depth : Nat) (ts : List Token) :
    Token.parensMatch depth (u.map Lexeme.token ++ ts) = Token.parensMatch depth ts := by
  induction h generalizing depth ts with
  | @integer l text value htoken hvalue =>
    rw [List.map_singleton, htoken]
    exact Token.parensMatch_cons rfl depth ts
  | @name l n hname => exact Token.parensMatch_cons (isParen_of_name? hname) depth ts
  | @paren l r u e hl hr _ ih =>
    rw [List.map_append, List.map_cons, List.map_singleton, hl, hr, List.append_assoc,
      List.cons_append]
    show Token.parensMatch (depth + 1) (u.map Lexeme.token ++ .rightParen :: ts) = _
    rw [ih]
    rfl
  | single _ ih => exact ih depth ts
  | @join level u v l op lhs rhs _ hj _ ihu ihv =>
    rw [List.map_append, List.map_cons, List.append_assoc, List.cons_append, ihu,
      Token.parensMatch_cons (isParen_of_joins hj), ihv]

end Expr

/-! ## Reading from a place -/

theorem Lexeme.endColumn_eq {ls : List Lexeme} (h : ls ≠ []) :
    endColumn ls = (ls.getLast h).span.stop := by
  rw [endColumn, List.getLast?_eq_some_getLast h]

namespace Expr

/-- The reader of a kind of phrase. -/
def Phrase.read (stop : Nat) : Phrase → (ls : List Lexeme) → Except Report (Parsed ls.length)
  | operand => Expr.operand stop
  | chain level => Expr.chain stop level

theorem Phrase.answers_read (phrase : Phrase) (stop : Nat) (ls : List Lexeme) :
    Answers stop phrase ls (phrase.read stop ls) := by
  cases phrase with
  | operand => exact operand_answers stop ls
  | chain level => exact chain_answers stop level ls

/-- The block between two places, by what follows from each. -/
theorem extract_of_drop_eq {ls u rest : List Lexeme} {p : Nat} (hp : p ≤ ls.length)
    (h : ls.drop p = u ++ rest) : ls.extract p (p + u.length) = u ∧
      rest = ls.drop (p + u.length) ∧ p + u.length ≤ ls.length := by
  have hlength := congrArg List.length h
  rw [List.length_drop, List.length_append] at hlength
  refine ⟨?_, ?_, by omega⟩
  · rw [List.extract_eq_take_drop, Nat.add_sub_cancel_left, h, List.take_left]
  · rw [← List.drop_drop, h, List.drop_left]

/-- Readers go forward and lose nothing. Every reader, started at any place of a list or at its end,
answers. If it succeeds, it has gone over a block of at least one lexeme, whose parentheses match
and whose other lexemes are the nodes of the expression from left to right, each with its columns;
if it fails, its report is placed at a lexeme that is not before the start, or just after the last
one. -/
theorem Phrase.read_conserves {ls : List Lexeme} (hne : ls ≠ []) {p : Nat} (hp : p ≤ ls.length)
    (phrase : Phrase) :
    match phrase.read (Lexeme.endColumn ls) (ls.drop p) with
    | .ok read => ∃ q, p < q ∧ q ≤ ls.length ∧ read.rest = ls.drop q ∧
        Token.parensMatch 0 ((ls.extract p q).map Lexeme.token) = true ∧
        ((ls.extract p q).filter (!·.token.isParen)).map Lexeme.mark =
          read.expr.marks.map fun m => (m.1, some m.2)
    | .error report => (∃ i l, p ≤ i ∧ ls[i]? = some l ∧ report.span = l.span) ∨
        report.span = .caret (ls.getLast hne).span.stop := by
  have hanswers := phrase.answers_read (Lexeme.endColumn ls) (ls.drop p)
  split
  · rename_i read hread
    rw [hread] at hanswers
    obtain ⟨u, hu, hd, -⟩ := hanswers
    obtain ⟨hblock, hrest, hlength⟩ := extract_of_drop_eq hp hu
    have := List.length_pos_iff.2 hd.ne_nil
    refine ⟨p + u.length, by omega, by omega, hrest, ?_, ?_⟩
    · rw [hblock, ← List.append_nil (u.map Lexeme.token), hd.parensMatch_append]
      rfl
    · rw [hblock, hd.map_mark]
  · rename_i report hread
    rw [hread] at hanswers
    obtain ⟨-, hspan | ⟨l, hl, hspan⟩⟩ := hanswers
    · right
      rw [hspan, Lexeme.endColumn_eq hne]
    · left
      obtain ⟨i, hi⟩ := List.mem_iff_getElem?.1 hl
      rw [List.getElem?_drop] at hi
      exact ⟨p + i, l, by omega, hi, hspan⟩

/-- A product after `print`, up to a parenthesis too many, and nothing to read after that one. -/
theorem Phrase.read_conserves_unmatched :
    let ls := Lexeme.significant (Token.lex "print ( 1 - x ) * ( 2 ) )")
    (ls ≠ [] ∧ ls.length = 11) ∧
    (∃ read, Expr.product 25 (ls.drop 1) = .ok read ∧ ∃ q, 1 < q ∧ q ≤ 11 ∧
      read.rest = ls.drop q ∧ Token.parensMatch 0 ((ls.extract 1 q).map Lexeme.token) = true ∧
      ((ls.extract 1 q).filter (!·.token.isParen)).map Lexeme.mark =
        read.expr.marks.map fun m => (m.1, some m.2)) ∧
    ∃ report, Expr.operand 25 (ls.drop 11) = .error report ∧
      ((∃ i l, 11 ≤ i ∧ ls[i]? = some l ∧ report.span = l.span) ∨ report.span = .caret 25) := by
  intro ls
  have hne : ls ≠ [] := by decide +kernel
  have hlength : ls.length = 11 := by decide +kernel
  have hend : Lexeme.endColumn ls = 25 := by decide +kernel
  have hproduct : (Expr.product 25 (ls.drop 1)).isOk = true := by decide +kernel
  have hoperand : (Expr.operand 25 (ls.drop 11)).isOk = false := by decide +kernel
  have hread := read_conserves hne (p := 1) (by omega) (.chain .product)
  have hreport := read_conserves hne (p := 11) (by omega) .operand
  rw [← Lexeme.endColumn_eq hne, hend] at hread hreport
  simp only [Phrase.read] at hread hreport
  refine ⟨⟨hne, hlength⟩, ?_, ?_⟩
  · cases hanswer : Expr.product 25 (ls.drop 1) with
    | error report =>
      rw [hanswer] at hproduct
      cases hproduct
    | ok read =>
      simp only [hanswer, hlength] at hread
      exact ⟨read, rfl, hread⟩
  · cases hanswer : Expr.operand 25 (ls.drop 11) with
    | error report =>
      rw [hanswer] at hreport
      exact ⟨report, rfl, hreport⟩
    | ok read =>
      rw [hanswer] at hoperand
      cases hoperand

end Expr

end LineCalc
