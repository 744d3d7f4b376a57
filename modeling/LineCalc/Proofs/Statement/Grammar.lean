/-
The grammar of statements. A line says what its head and the expression after it say; the reader of
statements answers each list of tokens by just that, and there is one answer for each list.
-/
import LineCalc.Proofs.Expr.Grammar
import LineCalc.Statement

namespace LineCalc.Statement

open LineCalc.Expr (StartsWith)

/-! ## Heads -/

/-- The word `config` leads, and `rest` follows. -/
def ConfigHead (ls : List Lexeme) (span : Span) (rest : List Lexeme) : Prop :=
  ∃ head, ls = head :: rest ∧ head.token = .word .config ∧ head.span = span

/-- A name other than the word `config` leads, `=` is next, and `body` follows. -/
def AssignHead (ls : List Lexeme) (span : Span) (name : String) (body : List Lexeme) : Prop :=
  ∃ head equals, ls = head :: equals :: body ∧ head.token ≠ .word .config ∧
    head.token.name? = some name ∧ equals.token = .operator .equals ∧ head.span = span

/-- The word `print` leads, and `body` follows, which does not start with `=`. -/
def PrintHead (ls : List Lexeme) (span : Span) (body : List Lexeme) : Prop :=
  ∃ head, ls = head :: body ∧ head.token = .word .print ∧
    (∀ l ∈ body.head?, l.token ≠ .operator .equals) ∧ head.span = span

/-- What a list of lexemes says: a statement, or the kind of fault it has. -/
inductive Says (ls : List Lexeme) : Except FaultKind Statement → Prop where
  | config {span : Span} {l : Lexeme} {rest : List Lexeme} {base : Base} :
      ConfigHead ls span (l :: rest) → l.token.name? = some base.keyword →
      Says ls (.ok (.config span base))
  | invalidConfig {span : Span} {rest : List Lexeme} : ConfigHead ls span rest →
      (∀ l ∈ rest.head?, ∀ base : Base, l.token.name? ≠ some base.keyword) →
      Says ls (.error .invalidConfig)
  | assign {span : Span} {name : String} {body : List Lexeme} {e : Expr} :
      AssignHead ls span name body → StartsWith body e → Says ls (.ok (.assign span name e))
  | print {span : Span} {body : List Lexeme} {e : Expr} :
      PrintHead ls span body → StartsWith body e → Says ls (.ok (.print span e))
  | assignError {span : Span} {name : String} {body : List Lexeme} :
      AssignHead ls span name body → (∀ e, ¬ StartsWith body e) → Says ls (.error .syntaxError)
  | printError {span : Span} {body : List Lexeme} :
      PrintHead ls span body → (∀ e, ¬ StartsWith body e) → Says ls (.error .syntaxError)
  | empty : (∀ span rest, ¬ ConfigHead ls span rest) →
      (∀ span name body, ¬ AssignHead ls span name body) →
      (∀ span body, ¬ PrintHead ls span body) → Says ls (.ok .empty)

/-! ## The reader on each head -/

theorem ofLexemes_of_configHead {ls rest : List Lexeme} {span : Span}
    (h : ConfigHead ls span rest) :
    ofLexemes ls = readConfig (Lexeme.endColumn ls) span rest := by
  obtain ⟨head, rfl, hhead, rfl⟩ := h
  simp only [ofLexemes, hhead, if_true]

theorem ofLexemes_of_assignHead {ls body : List Lexeme} {span : Span} {name : String}
    (h : AssignHead ls span name body) :
    ofLexemes ls = readWith (.assign span name) (Lexeme.endColumn ls) body := by
  obtain ⟨head, equals, rfl, hhead, hname, hequals, rfl⟩ := h
  simp only [ofLexemes, hhead, if_false, hname, assigned?, hequals, if_true]

theorem ofLexemes_of_printHead {ls body : List Lexeme} {span : Span} (h : PrintHead ls span body) :
    ofLexemes ls = readWith (.print span) (Lexeme.endColumn ls) body := by
  obtain ⟨head, rfl, hhead, hbody, rfl⟩ := h
  have hassigned : assigned? body = none := by
    cases body with
    | nil => rfl
    | cons l body => simp [assigned?, hbody l rfl]
  simp only [ofLexemes, hhead, Token.name?, hassigned, if_true]
  rfl

/-- A list with none of the heads is taken to say nothing. -/
theorem ofLexemes_of_no_head {ls : List Lexeme} (hconfig : ∀ span rest, ¬ ConfigHead ls span rest)
    (hassign : ∀ span name body, ¬ AssignHead ls span name body)
    (hprint : ∀ span body, ¬ PrintHead ls span body) : ofLexemes ls = .ok .empty := by
  cases ls with
  | nil => rfl
  | cons head rest =>
    have hhead : head.token ≠ .word .config := fun h => hconfig head.span rest ⟨head, rfl, h, rfl⟩
    simp only [ofLexemes, hhead, if_false]
    split
    · rename_i name body hname hbody
      -- a name before `=` is the head of an assignment
      cases rest with
      | nil => cases hbody
      | cons l rest =>
        by_cases hl : l.token = .operator .equals
        · exact (hassign head.span name rest ⟨head, l, rfl, hhead, hname, hl, rfl⟩).elim
        · simp [assigned?, hl] at hbody
    · rename_i hbody
      split
      · rename_i hword
        -- `print` is a name, so `=` cannot be next
        refine (hprint head.span rest ⟨head, rfl, hword, fun l hl hequals => ?_, rfl⟩).elim
        cases rest with
        | nil => cases hl
        | cons l' rest =>
          obtain rfl : l' = l := by simpa using hl
          exact hbody "print" rest (by rw [hword]; rfl) (by simp [assigned?, hequals])
      · rfl

/-! ## What the parts read -/

theorem readConfig_eq_ok {stop : Nat} {span : Span} {l : Lexeme} {rest : List Lexeme} {base : Base}
    (h : l.token.name? = some base.keyword) :
    readConfig stop span (l :: rest) = .ok (.config span base) := by
  simp [readConfig, h]

theorem readConfig_eq_error (stop : Nat) (span : Span) {rest : List Lexeme}
    (h : ∀ l ∈ rest.head?, ∀ base : Base, l.token.name? ≠ some base.keyword) :
    (readConfig stop span rest).mapError Report.kind = .error .invalidConfig := by
  have hbase : (rest.head?.bind (·.token.name?)).bind Base.ofKeyword? = none := by
    cases hbase : (rest.head?.bind (·.token.name?)).bind Base.ofKeyword? with
    | none => rfl
    | some base =>
      obtain ⟨name, hname, hkeyword⟩ := Option.bind_eq_some_iff.1 hbase
      obtain ⟨l, hl, hname⟩ := Option.bind_eq_some_iff.1 hname
      exact (h l hl base (by rw [hname, Base.keyword_of_ofKeyword? hkeyword])).elim
  simp only [readConfig, hbase]
  rfl

theorem readWith_eq_ok {build : Expr → Statement} {stop : Nat} {ls : List Lexeme} {e : Expr}
    (h : StartsWith ls e) : readWith build stop ls = .ok (build e) := by
  obtain ⟨read, hread, rfl⟩ := (Expr.sum_eq_ok_iff stop ls e).2 h
  rw [readWith, hread]
  rfl

theorem readWith_eq_error {build : Expr → Statement} (stop : Nat) {ls : List Lexeme}
    (h : ∀ e, ¬ StartsWith ls e) :
    (readWith build stop ls).mapError Report.kind = .error .syntaxError := by
  unfold readWith
  cases hsum : Expr.sum stop ls with
  | error report =>
    show Except.error report.kind = _
    rw [Expr.kind_of_sum_eq_error hsum]
  | ok read => exact (h read.expr ((Expr.sum_eq_ok_iff stop ls _).1 ⟨read, hsum, rfl⟩)).elim

/-! ## The reader and the grammar agree -/

theorem ofLexemes_says (ls : List Lexeme) : Says ls ((ofLexemes ls).mapError Report.kind) := by
  by_cases hconfig : ∃ span rest, ConfigHead ls span rest
  · obtain ⟨span, rest, h⟩ := hconfig
    rw [ofLexemes_of_configHead h]
    by_cases hbase : ∃ l ∈ rest.head?, ∃ base : Base, l.token.name? = some base.keyword
    · obtain ⟨l, hl, base, hbase⟩ := hbase
      obtain ⟨rest, rfl⟩ := List.head?_eq_some_iff.1 hl
      rw [readConfig_eq_ok hbase]
      exact .config h hbase
    · have hrest : ∀ l ∈ rest.head?, ∀ base : Base, l.token.name? ≠ some base.keyword :=
        fun l hl base h => hbase ⟨l, hl, base, h⟩
      rw [readConfig_eq_error _ _ hrest]
      exact .invalidConfig h hrest
  by_cases hassign : ∃ span name body, AssignHead ls span name body
  · obtain ⟨span, name, body, h⟩ := hassign
    rw [ofLexemes_of_assignHead h]
    by_cases hbody : ∃ e, StartsWith body e
    · obtain ⟨e, he⟩ := hbody
      rw [readWith_eq_ok he]
      exact .assign h he
    · rw [not_exists] at hbody
      rw [readWith_eq_error _ hbody]
      exact .assignError h hbody
  by_cases hprint : ∃ span body, PrintHead ls span body
  · obtain ⟨span, body, h⟩ := hprint
    rw [ofLexemes_of_printHead h]
    by_cases hbody : ∃ e, StartsWith body e
    · obtain ⟨e, he⟩ := hbody
      rw [readWith_eq_ok he]
      exact .print h he
    · rw [not_exists] at hbody
      rw [readWith_eq_error _ hbody]
      exact .printError h hbody
  simp only [not_exists] at hconfig hassign hprint
  rw [ofLexemes_of_no_head hconfig hassign hprint]
  exact .empty hconfig hassign hprint

theorem ofLexemes_of_says {ls : List Lexeme} {result : Except FaultKind Statement}
    (h : Says ls result) : (ofLexemes ls).mapError Report.kind = result := by
  cases h with
  | config h hl =>
    rw [ofLexemes_of_configHead h, readConfig_eq_ok hl]
    rfl
  | invalidConfig h hrest =>
    rw [ofLexemes_of_configHead h]
    exact readConfig_eq_error _ _ hrest
  | assign h he => rw [ofLexemes_of_assignHead h, readWith_eq_ok he]; rfl
  | print h he => rw [ofLexemes_of_printHead h, readWith_eq_ok he]; rfl
  | assignError h hbody => rw [ofLexemes_of_assignHead h, readWith_eq_error _ hbody]
  | printError h hbody => rw [ofLexemes_of_printHead h, readWith_eq_error _ hbody]
  | empty hconfig hassign hprint =>
    rw [ofLexemes_of_no_head hconfig hassign hprint]
    rfl

/-- The grammar of lines: for every list of tokens, with `ls` its lexemes that are not blank, the
answer is the one that `ls` says. -/
theorem ofTokens_eq_iff_says (tokens : List Token) (result : Except FaultKind Statement) :
    (Lexeme.significant tokens).map Lexeme.token = tokens.filter (!·.isBlank) ∧
      ((ofTokens tokens).mapError Report.kind = result ↔
        Says (Lexeme.significant tokens) result) := by
  refine ⟨Lexeme.map_token_significant tokens, ?_, ofLexemes_of_says⟩
  rintro rfl
  exact ofLexemes_says _

end LineCalc.Statement
