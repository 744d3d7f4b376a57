/-
Text after a statement. A statement that is complete is not changed by what follows it in its line,
down to the last column, unless an operator follows that its expression can go on with. No reader
looks further than one word, and the words of the text before keep their places.
-/
import LineCalc.Proofs.Line.Layout
import LineCalc.Proofs.Line.Spelling

namespace LineCalc

/-! ## More lexemes -/

namespace Expr

theorem StartsWith.ne_nil {ls : List Lexeme} {e : Expr} (h : StartsWith ls e) : ls ≠ [] := by
  obtain ⟨u, w, rfl, hd, -⟩ := h
  exact List.append_ne_nil_of_left_ne_nil hd.ne_nil w

/-- A sum at the front of a list is at the front of a longer one, if no operator follows it
there. -/
theorem StartsWith.append {ls ws : List Lexeme} {e : Expr} (h : StartsWith ls e)
    (hws : ∀ l ∈ ws.head?, ∀ level op, ¬ Joins level l.token op) : StartsWith (ls ++ ws) e := by
  obtain ⟨u, w, rfl, hd, hw⟩ := h
  refine ⟨u, w ++ ws, List.append_assoc u w ws, hd, ?_⟩
  cases w with
  | nil => exact hws
  | cons l w => exact hw

/-- The words that join are the four signs. -/
theorem Joins.mem_signs {level : Level} {word : String} {op : ArithOp}
    (h : Joins level (.classify word) op) : word ∈ ["+", "-", "*", "/"] := by
  have hsign : (Token.classify word).text ∈ ["+", "-", "*", "/"] := by
    generalize Token.classify word = token at h
    cases h <;> decide
  rwa [Token.text_classify] at hsign

end Expr

/-- What a list of lexemes says, a longer one says too: a base ends its statement whatever follows,
an expression does so unless an operator follows. -/
theorem Statement.Says.append {ls ws : List Lexeme} {statement : Statement}
    (h : Says ls (.ok statement)) (hne : statement ≠ .empty)
    (hws : (∃ span base, statement = .config span base) ∨
      ∀ l ∈ ws.head?, ∀ level op, ¬ Expr.Joins level l.token op) :
    Says (ls ++ ws) (.ok statement) := by
  cases h with
  | config h hl =>
    obtain ⟨head, rfl, hhead, hspan⟩ := h
    exact .config ⟨head, rfl, hhead, hspan⟩ hl
  | assign h he =>
    obtain ⟨head, equals, rfl, hhead, hname, hequals, hspan⟩ := h
    have hws := hws.resolve_left (by simp)
    exact .assign ⟨head, equals, rfl, hhead, hname, hequals, hspan⟩ (he.append hws)
  | print h he =>
    obtain ⟨head, rfl, hhead, hbody, hspan⟩ := h
    have hws := hws.resolve_left (by simp)
    refine .print ⟨head, rfl, hhead, ?_, hspan⟩ (he.append hws)
    -- the word after `print` is one of the old ones
    show ∀ l ∈ (_ ++ ws).head?, l.token ≠ .operator .equals
    rw [List.head?_append_of_ne_nil _ he.ne_nil]
    exact hbody
  | empty => exact absurd rfl hne

/-! ## More text -/

/-- More tokens leave the lexemes before them as they are. -/
theorem Lexeme.exists_significant_append (ts us : List Token) :
    ∃ ls, significant (ts ++ us) = significant ts ++ ls ∧
      ls.map token = us.filter (!·.isBlank) := by
  obtain ⟨stop, hstop⟩ := exists_locate_append 0 ts us
  refine ⟨(locate stop us).filter (!·.token.isBlank), ?_, ?_⟩
  · unfold significant
    rw [hstop, List.filter_append]
  · conv => rhs; rw [← map_token_locate stop us, List.filter_map]
    rfl

/-- A text after a space adds the lexemes of its words to those of the text before. -/
theorem exists_significant_lex_append (text rest : String) :
    ∃ ls, Lexeme.significant (Token.lex (text ++ " " ++ rest)) =
        Lexeme.significant (Token.lex text) ++ ls ∧
      ls.map Lexeme.token = (words rest).map Token.classify := by
  -- the blanks that lead the rest belong to the gap before its first word
  let gap := ' ' :: rest.toList.takeWhile isBlank
  let tail := rest.toList.dropWhile isBlank
  have hgap : ∀ c ∈ gap, isBlank c = true := by
    intro c hc
    rcases List.mem_cons.1 hc with rfl | hc
    · decide
    · exact List.mem_takeWhile_imp hc
  have htext : text ++ " " ++ rest = String.ofList (text.toList ++ gap ++ tail) := by
    rw [← String.toList_inj]
    simp [gap, tail, List.takeWhile_append_dropWhile]
  have hlex : Token.lex (text ++ " " ++ rest) =
      Token.lex (String.ofList (text.toList ++ gap)) ++ Token.lex (String.ofList tail) := by
    rw [htext]
    show (runs _).map Token.ofRun = (runs _).map Token.ofRun ++ (runs _).map Token.ofRun
    rw [runs_append, List.map_append]
    intro c hc d hd
    rw [List.getLast?_append_of_ne_nil _ (List.cons_ne_nil _ _)] at hc
    have hnot := List.head?_dropWhile_not isBlank rest.toList
    rw [hd] at hnot
    rw [hgap c (List.mem_of_mem_getLast? hc), show isBlank d = false from hnot]
    exact Bool.false_ne_true.symm
  have hstem : Lexeme.significant (Token.lex (String.ofList (text.toList ++ gap))) =
      Lexeme.significant (Token.lex text) := by
    rw [significant_trimEnd String.toList_ofList hgap,
      significant_trimEnd (List.append_nil text.toList).symm (by simp)]
  have hwords : words (String.ofList tail) = words rest := by
    have hblank : ∀ c ∈ rest.toList.takeWhile isBlank, isBlank c = true :=
      fun c hc => List.mem_takeWhile_imp hc
    unfold words
    rw [String.toList_ofList, ← wordRuns_blank_append hblank, List.takeWhile_append_dropWhile]
  obtain ⟨ls, hls, htokens⟩ := Lexeme.exists_significant_append
    (Token.lex (String.ofList (text.toList ++ gap))) (Token.lex (String.ofList tail))
  refine ⟨ls, ?_, ?_⟩
  · rw [hlex, hls, hstem]
  · rw [htokens, filter_lex, hwords]

/-- Text after a statement is ignored. A line that says something says the same, with the same
columns, when a space and any other text are put after it, as long as the first word of that text
is no sign of an operation; after the choice of a base it may be any word. -/
theorem Line.statement_ignores_rest {text : String} {number : Option Nat} {statement : Statement}
    (h : (ofString text number).statement = .ok statement) (hne : statement ≠ .empty)
    (rest : String) (hrest : (∃ span base, statement = .config span base) ∨
      ∀ word ∈ (words rest).head?, word ∉ ["+", "-", "*", "/"]) :
    (ofString (text ++ " " ++ rest) number).statement = .ok statement := by
  obtain ⟨ls, hls, htokens⟩ := exists_significant_lex_append text rest
  apply statement_eq_ok
  rw [hls]
  refine (says_of_statement_eq_ok h).append hne (hrest.imp_right ?_)
  intro hrest l hl level op hj
  -- the first new lexeme is that of the first word of the rest
  obtain ⟨ls', rfl⟩ := List.head?_eq_some_iff.1 hl
  obtain ⟨word, ws, hwords, hword, -⟩ := List.map_eq_cons_iff.1 htokens.symm
  rw [← hword] at hj
  exact hrest word (by rw [hwords]; rfl) hj.mem_signs

/-- A literal with its sign and a parenthesis too many after an expression, and a sum after a
base. -/
theorem Line.statement_ignores_rest_negative :
    let print : Statement := .print ⟨0, 5⟩
      (.binary .divide ⟨10, 11⟩ (.var ⟨8, 9⟩ "x") (.var ⟨12, 14⟩ "yz"))
    let config : Statement := .config ⟨1, 7⟩ .hexadecimal
    ((ofString "print ( x / yz ) " none).statement = .ok print ∧
      (ofString "print ( x / yz )  \t-3 ) + 1" none).statement = .ok print) ∧
    (ofString " config hex" none).statement = .ok config ∧
      (ofString " config hex + 1" none).statement = .ok config := by
  intro print config
  have hprint : (ofString "print ( x / yz ) " none).statement = .ok print := by decide +kernel
  have hconfig : (ofString " config hex" none).statement = .ok config := by decide +kernel
  have hwords : words "\t-3 ) + 1" = ["-3", ")", "+", "1"] := by decide
  refine ⟨⟨hprint, ?_⟩, hconfig, ?_⟩
  · apply statement_ignores_rest hprint (by decide) "\t-3 ) + 1" (.inr ?_)
    rw [hwords]
    decide
  · exact statement_ignores_rest hconfig (by decide) "+ 1" (.inl ⟨_, _, rfl⟩)

end LineCalc
