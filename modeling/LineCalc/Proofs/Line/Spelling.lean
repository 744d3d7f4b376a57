/-
Lines that are spelled out in words. Blanks around the words do not matter, and the word at the head
decides what the statement is: a base is set, a name is assigned, or a value is printed.
-/
import LineCalc.Line
import LineCalc.Proofs.Expr.Spelling
import LineCalc.Proofs.Statement.Grammar

namespace LineCalc

/-- The tokens of the lexemes of a line are those of its words. -/
theorem map_token_significant_lex (text : String) :
    (Lexeme.significant (Token.lex text)).map Lexeme.token = (words text).map Token.classify := by
  rw [Lexeme.map_token_significant, filter_lex]

theorem Expr.Derives.startsWith {ls : List Lexeme} {e : Expr} (h : Derives (.chain .sum) ls e) :
    StartsWith ls e :=
  ⟨ls, [], (List.append_nil ls).symm, h, by simp⟩

namespace Line

theorem says_of_statement_eq_ok {text : String} {number : Option Nat} {statement : Statement}
    (h : (ofString text number).statement = .ok statement) :
    Statement.Says (Lexeme.significant (Token.lex text)) (.ok statement) := by
  have hread : Statement.ofLexemes (Lexeme.significant (Token.lex text)) = .ok statement := h
  have hsays := Statement.ofLexemes_says (Lexeme.significant (Token.lex text))
  rw [hread] at hsays
  exact hsays

theorem statement_eq_ok {text : String} {statement : Statement}
    (h : Statement.Says (Lexeme.significant (Token.lex text)) (.ok statement))
    (number : Option Nat) : (ofString text number).statement = .ok statement := by
  have hsays := Statement.ofLexemes_of_says h
  show Statement.ofLexemes (Lexeme.significant (Token.lex text)) = .ok statement
  cases hread : Statement.ofLexemes (Lexeme.significant (Token.lex text)) with
  | error report =>
    rw [hread] at hsays
    cases hsays
  | ok statement' =>
    rw [hread] at hsays
    cases hsays
    rfl

theorem statement_of_blank {text : String} (h : words text = []) (number : Option Nat) :
    (ofString text number).statement = .ok .empty := by
  apply statement_of_isBlank
  unfold isBlank significant ofString
  rw [filter_lex, h]
  rfl

theorem statement_config {text : String} {base : Base}
    (h : words text = ["config", base.keyword]) (number : Option Nat) :
    ∃ span, (ofString text number).statement = .ok (.config span base) := by
  have htokens := map_token_significant_lex text
  rw [h] at htokens
  obtain ⟨head, rest, hls, hhead, hrest⟩ := List.map_eq_cons_iff.1 htokens
  obtain ⟨l, rfl, hl⟩ := List.map_eq_singleton_iff.1 hrest
  have hname : l.token.name? = some base.keyword := by
    rw [hl]
    apply Token.name?_classify_of_isIdentText
    cases base <;> rfl
  exact ⟨head.span, statement_eq_ok (.config ⟨head, hls, hhead, rfl⟩ hname) number⟩

/-- A name, `=` and a spelling assign the term that is spelled. -/
theorem statement_assign {text name : String} {body : List String} {t : Term}
    (h : words text = name :: "=" :: body) (hname : isIdentText name = true)
    (hconfig : name ≠ "config") (hbody : t.Spells (.chain .sum) body) (number : Option Nat) :
    ∃ span e, (ofString text number).statement = .ok (.assign span name e) ∧ t.Denotes e := by
  have htokens := map_token_significant_lex text
  rw [h] at htokens
  obtain ⟨head, rest, hls, hhead, hrest⟩ := List.map_eq_cons_iff.1 htokens
  obtain ⟨equals, ls, rfl, hequals, hmap⟩ := List.map_eq_cons_iff.1 hrest
  obtain ⟨e, hderives, hdenotes⟩ := hbody.derives hmap
  have hassign : Statement.AssignHead (Lexeme.significant (Token.lex text)) head.span name ls :=
    ⟨head, equals, hls, hhead ▸ Token.classify_ne_config hconfig,
      hhead ▸ Token.name?_classify_of_isIdentText hname, hequals, rfl⟩
  exact ⟨head.span, e, statement_eq_ok (.assign hassign hderives.startsWith) number, hdenotes⟩

/-- The word `print` and a spelling print the term that is spelled. -/
theorem statement_print {text : String} {body : List String} {t : Term}
    (h : words text = "print" :: body) (hbody : t.Spells (.chain .sum) body)
    (number : Option Nat) :
    ∃ span e, (ofString text number).statement = .ok (.print span e) ∧ t.Denotes e := by
  have htokens := map_token_significant_lex text
  rw [h] at htokens
  obtain ⟨head, ls, hls, hhead, hmap⟩ := List.map_eq_cons_iff.1 htokens
  obtain ⟨e, hderives, hdenotes⟩ := hbody.derives hmap
  -- `print =` would be the head of an assignment to a variable of that name
  have hequals : ∀ l ∈ ls.head?, l.token ≠ .operator .equals := by
    obtain ⟨w, rest, rfl, hw⟩ := hbody.head?_ne_equals
    obtain ⟨l, ls', rfl, hl, -⟩ := List.map_eq_cons_iff.1 hmap
    rintro l' hl' hoperator
    obtain rfl : l = l' := by simpa using hl'
    apply hw
    rw [← Token.text_classify w, ← hl, hoperator]
    rfl
  have hprint : Statement.PrintHead (Lexeme.significant (Token.lex text)) head.span ls :=
    ⟨head, hls, hhead, hequals, rfl⟩
  exact ⟨head.span, e, statement_eq_ok (.print hprint hderives.startsWith) number, hdenotes⟩

end Line

end LineCalc
