/-
The grammar of expressions as a relation, and the reader measured against it: what the reader takes
off the front of a list derives the expression it returns, it stops only where no operator follows,
and every derivation that no operator follows is read.

  sum     := product (("+" | "-") product)*
  product := operand (("*" | "/") operand)*
  operand := integer | name | "(" sum ")"
-/
import LineCalc.Expr.Parser

namespace LineCalc.Expr

/-! ## Phrases -/

/-- The kinds of phrase: operands, and the chains of the two levels. -/
inductive Phrase where
  | operand
  | chain (level : Level)
deriving DecidableEq

/-- What the operators of a level join. -/
def Level.term : Level → Phrase
  | sum => .chain .product
  | product => .operand

/-- The tokens that join at a level, each with its operation. -/
inductive Joins : Level → Token → ArithOp → Prop where
  | plus : Joins .sum (.operator .plus) .add
  | minus : Joins .sum (.operator .minus) .subtract
  | times : Joins .product (.operator .times) .multiply
  | divide : Joins .product (.operator .divide) .divide

/-- The lexemes of a phrase and the expression they stand for. Chains grow on the right, so their
operators associate to the left. -/
inductive Derives : Phrase → List Lexeme → Expr → Prop where
  | integer {l : Lexeme} {text : String} {value : Literal} : l.token = .integer text →
      Literal.ofString? text = some value → Derives .operand [l] (.literal l.span value.toBinary64)
  | name {l : Lexeme} {n : String} : l.token.name? = some n → Derives .operand [l] (.var l.span n)
  | paren {l r : Lexeme} {u : List Lexeme} {e : Expr} : l.token = .leftParen →
      r.token = .rightParen → Derives (.chain .sum) u e → Derives .operand (l :: u ++ [r]) e
  | single {level : Level} {u : List Lexeme} {e : Expr} : Derives level.term u e →
      Derives (.chain level) u e
  | join {level : Level} {u v : List Lexeme} {l : Lexeme} {op : ArithOp} {lhs rhs : Expr} :
      Derives (.chain level) u lhs → Joins level l.token op → Derives level.term v rhs →
      Derives (.chain level) (u ++ l :: v) (.binary op l.span lhs rhs)

/-- The list starts with a sum that no operator follows. -/
def StartsWith (ls : List Lexeme) (e : Expr) : Prop :=
  ∃ u w, ls = u ++ w ∧ Derives (.chain .sum) u e ∧
    ∀ l ∈ w.head?, ∀ level op, ¬ Joins level l.token op

theorem Derives.ne_nil {phrase : Phrase} {u : List Lexeme} {e : Expr} (h : Derives phrase u e) :
    u ≠ [] := by
  induction h with
  | integer => exact List.cons_ne_nil _ _
  | name => exact List.cons_ne_nil _ _
  | paren => exact List.cons_ne_nil _ _
  | single _ ih => exact ih
  | join => exact List.append_ne_nil_of_right_ne_nil _ (List.cons_ne_nil _ _)

theorem op?_eq_some_iff {level : Level} {t : Token} {op : ArithOp} :
    level.op? t = some op ↔ Joins level t op := by
  constructor
  · intro h
    unfold Level.op? at h
    split at h <;> cases h <;> constructor
  · rintro (_ | _ | _ | _) <;> rfl

theorem Joins.level_eq {level level' : Level} {t : Token} {op op' : ArithOp}
    (h : Joins level t op) (h' : Joins level' t op') : level = level' := by
  cases h <;> cases h' <;> rfl

/-! ## Ends of phrases -/

/-- No operator of the level leads the list. -/
def Level.Ends (level : Level) (w : List Lexeme) : Prop :=
  ∀ l ∈ w.head?, ∀ op, ¬ Joins level l.token op

/-- The list does not go on with the phrase: no operator of its level, or of one that binds
tighter, leads it. -/
def Phrase.Ends : Phrase → List Lexeme → Prop
  | .operand, _ => True
  | .chain .product, w => Level.product.Ends w
  | .chain .sum, w => Level.product.Ends w ∧ Level.sum.Ends w

theorem ends_chain_iff (level : Level) (w : List Lexeme) :
    (Phrase.chain level).Ends w ↔ level.term.Ends w ∧ level.Ends w := by
  cases level <;> simp [Phrase.Ends, Level.term]

theorem ends_sum_iff (w : List Lexeme) :
    (Phrase.chain .sum).Ends w ↔ ∀ l ∈ w.head?, ∀ level op, ¬ Joins level l.token op := by
  constructor
  · rintro ⟨hp, hs⟩ l hl level op
    cases level
    · exact hs l hl op
    · exact hp l hl op
  · intro h
    exact ⟨fun l hl => h l hl .product, fun l hl => h l hl .sum⟩

/-- An operator of a level ends what that level joins. -/
theorem term_ends_of_joins {level : Level} {l : Lexeme} {op : ArithOp} (w : List Lexeme)
    (h : Joins level l.token op) : level.term.Ends (l :: w) := by
  cases level with
  | sum =>
    intro l' hl' op' h'
    obtain rfl : l = l' := by simpa using hl'
    cases h.level_eq h'
  | product => trivial

/-! ## The reader is sound -/

/-- The faults that a list can have for a reader. That of an integer is due to a lexeme whose text
is no literal. -/
inductive Misread (ls : List Lexeme) : Fault → Prop where
  | missingOperand : Misread ls .missingOperand
  | missingRightParen : Misread ls .missingRightParen
  | invalidInteger {l : Lexeme} {text : String} : l ∈ ls → l.token = .integer text →
      Literal.ofString? text = none → Misread ls .invalidInteger

theorem Misread.mono {ls ls' : List Lexeme} {fault : Fault} (h : Misread ls fault)
    (hsub : ls ⊆ ls') : Misread ls' fault := by
  cases h with
  | missingOperand => exact .missingOperand
  | missingRightParen => exact .missingRightParen
  | invalidInteger hl htoken hvalue => exact .invalidInteger (hsub hl) htoken hvalue

theorem Misread.kind_eq {ls : List Lexeme} {fault : Fault} (h : Misread ls fault) :
    fault.kind = .syntaxError := by
  cases h <;> rfl

/-- What a reader may answer on a list: an expression and the rest after a phrase that stands for
it and ends there, or the report of a syntax error at one of the lexemes or at the end. -/
def Answers (stop : Nat) (phrase : Phrase) (ls : List Lexeme) {bound : Nat} :
    Except Report (Parsed bound) → Prop
  | .ok read => ∃ u, ls = u ++ read.rest ∧ Derives phrase u read.expr ∧ phrase.Ends read.rest
  | .error report => (∃ fault, Misread ls fault ∧ report = fault.reportAt report.span) ∧
      (report.span = .caret stop ∨ ∃ l ∈ ls, report.span = l.span)

/-- A report about the end of a list is one about the end of any longer list. -/
theorem Answers.error_append {stop : Nat} {phrase phrase' : Phrase} {ls : List Lexeme}
    {a b : Nat} {report : Report} (us : List Lexeme)
    (h : Answers stop phrase ls (.error report : Except Report (Parsed a))) :
    Answers stop phrase' (us ++ ls) (.error report : Except Report (Parsed b)) := by
  obtain ⟨⟨fault, hfault, hreport⟩, hspan⟩ := h
  refine ⟨⟨fault, hfault.mono (List.subset_append_right us ls), hreport⟩, ?_⟩
  rcases hspan with hspan | ⟨l, hl, hspan⟩
  · exact .inl hspan
  · exact .inr ⟨l, List.mem_append_right us hl, hspan⟩

theorem closeParen_answers {stop : Nat} {l : Lexeme} {ls : List Lexeme} {bound : Nat}
    {read : Parsed bound} (hl : l.token = .leftParen)
    (h : Answers stop (.chain .sum) ls (.ok read : Except Report (Parsed bound))) :
    Answers stop .operand (l :: ls) (closeParen stop read) := by
  obtain ⟨u, hu, hd, -⟩ := h
  obtain ⟨e, rest, rest_lt⟩ := read
  cases rest with
  | nil => exact ⟨⟨_, .missingRightParen, rfl⟩, .inl rfl⟩
  | cons r rest =>
    simp only at hu hd
    by_cases hr : r.token = .rightParen
    · simp only [closeParen, hr, if_true]
      exact ⟨l :: u ++ [r], by simp [hu], .paren hl hr hd, trivial⟩
    · simp only [closeParen, hr, if_false]
      exact ⟨⟨_, .missingRightParen, rfl⟩, .inr ⟨r, by simp [hu], rfl⟩⟩

mutual

/-- An operand is answered within the grammar. -/
theorem operand_answers (stop : Nat) (ls : List Lexeme) :
    Answers stop .operand ls (operand stop ls) := by
  cases ls with
  | nil =>
    rw [operand]
    exact ⟨⟨_, .missingOperand, rfl⟩, .inl rfl⟩
  | cons l ls =>
    rw [operand]
    split
    · rename_i text htoken
      cases hvalue : Literal.ofString? text with
      | none =>
        exact ⟨⟨_, .invalidInteger List.mem_cons_self htoken hvalue, rfl⟩, .inr ⟨l, by simp, rfl⟩⟩
      | some value => exact ⟨[l], rfl, .integer htoken hvalue, trivial⟩
    · rename_i htoken
      have hinner := chain_answers stop .sum ls
      cases hchain : chain stop .sum ls with
      | error report =>
        rw [hchain] at hinner
        exact hinner.error_append [l]
      | ok inner =>
        rw [hchain] at hinner
        exact closeParen_answers htoken hinner
    · cases hname : l.token.name? with
      | none => exact ⟨⟨_, .missingOperand, rfl⟩, .inr ⟨l, by simp, rfl⟩⟩
      | some name => exact ⟨[l], rfl, .name hname, trivial⟩
termination_by 5 * ls.length
decreasing_by simp [Level.rank]; omega

/-- So is a term of a chain. -/
theorem term_answers (stop : Nat) (level : Level) (ls : List Lexeme) :
    Answers stop level.term ls (term stop level ls) := by
  cases level with
  | sum =>
    rw [term]
    exact chain_answers stop .product ls
  | product =>
    rw [term]
    exact operand_answers stop ls
termination_by 5 * ls.length + level.rank
decreasing_by all_goals simp [Level.rank]

/-- So is a chain. -/
theorem chain_answers (stop : Nat) (level : Level) (ls : List Lexeme) :
    Answers stop (.chain level) ls (chain stop level ls) := by
  have hfirst := term_answers stop level ls
  rw [chain]
  cases hterm : term stop level ls with
  | error report =>
    rw [hterm] at hfirst
    exact hfirst.error_append []
  | ok first =>
    rw [hterm] at hfirst
    obtain ⟨u, hu, hd, he⟩ := hfirst
    have hextend := extend_answers stop level first (.single hd) he
    rwa [← hu] at hextend
termination_by 5 * ls.length + level.rank + 1
decreasing_by
  · omega
  · have := first.rest_lt; omega

/-- So is the extension of a chain, if the lexemes already read are those of a chain that the terms
of its level have ended. -/
theorem extend_answers (stop : Nat) (level : Level) {bound : Nat} :
    ∀ (read : Parsed bound) {u : List Lexeme}, Derives (.chain level) u read.expr →
      level.term.Ends read.rest →
      Answers stop (.chain level) (u ++ read.rest) (extend stop level read)
  | ⟨lhs, [], rest_lt⟩, u, hd, he => by
    rw [extend]
    exact ⟨u, rfl, hd, (ends_chain_iff level _).2 ⟨he, by simp [Level.Ends]⟩⟩
  | ⟨lhs, l :: ls, rest_lt⟩, u, hd, he => by
    rw [extend]
    cases hop : level.op? l.token with
    | none =>
      refine ⟨u, rfl, hd, (ends_chain_iff level _).2 ⟨he, ?_⟩⟩
      intro l' hl' op hj
      obtain rfl : l = l' := by simpa using hl'
      rw [op?_eq_some_iff.2 hj] at hop
      cases hop
    | some op =>
      have hright := term_answers stop level ls
      cases hterm : term stop level ls with
      | error report =>
        rw [hterm] at hright
        have hreport : Answers stop (.chain level) (u ++ [l] ++ ls)
            (.error report : Except Report (Parsed bound)) := hright.error_append (u ++ [l])
        simpa using hreport
      | ok right =>
        obtain ⟨rhs, rest, h⟩ := right
        rw [hterm] at hright
        obtain ⟨v, hv, hdv, hev⟩ := hright
        have hjoin := Derives.join hd (op?_eq_some_iff.1 hop) hdv
        let read : Parsed bound := ⟨.binary op l.span lhs rhs, rest, by simp at rest_lt; omega⟩
        have hextend := extend_answers stop level read hjoin hev
        simpa [hv] using hextend
termination_by read => 5 * read.rest.length + level.rank
decreasing_by
  · simp
  · simp; omega

end

/-! ## The reader is complete -/

theorem extend_of_ends {stop : Nat} {level : Level} {bound : Nat} {read : Parsed bound}
    (h : level.Ends read.rest) : extend stop level read = .ok read := by
  obtain ⟨e, rest, rest_lt⟩ := read
  cases rest with
  | nil => rw [extend]
  | cons l ls =>
    have hop : level.op? l.token = none := by
      cases hop : level.op? l.token with
      | none => rfl
      | some op => exact (h l rfl op (op?_eq_some_iff.1 hop)).elim
    rw [extend]
    simp only [hop]

/-- A reader that meets the phrase at the front of a list takes it: an operand is read whole, and a
chain leaves its reader where it would extend the chain. -/
def Takes (stop : Nat) : Phrase → List Lexeme → Expr → Prop
  | .operand, u, e => ∀ w, ∃ h, operand stop (u ++ w) = .ok ⟨e, w, h⟩
  | .chain level, u, e => ∀ w, level.term.Ends w →
      ∃ h, chain stop level (u ++ w) = extend stop level ⟨e, w, h⟩

theorem Takes.term {stop : Nat} {level : Level} {u w : List Lexeme} {e : Expr}
    (h : Takes stop level.term u e) (hw : level.term.Ends w) :
    ∃ h, term stop level (u ++ w) = .ok ⟨e, w, h⟩ := by
  cases level with
  | sum =>
    obtain ⟨h, heq⟩ := h w trivial
    refine ⟨h, ?_⟩
    rw [Expr.term, heq]
    exact extend_of_ends hw
  | product =>
    obtain ⟨h, heq⟩ := h w
    exact ⟨h, by rw [Expr.term, heq]⟩

theorem Derives.takes {phrase : Phrase} {u : List Lexeme} {e : Expr} (stop : Nat)
    (h : Derives phrase u e) : Takes stop phrase u e := by
  induction h with
  | @integer l text value htoken hvalue =>
    intro w
    refine ⟨by simp, ?_⟩
    show operand stop (l :: w) = _
    rw [operand, htoken]
    simp only [hvalue]
  | @name l n hname =>
    intro w
    refine ⟨by simp, ?_⟩
    show operand stop (l :: w) = _
    rw [operand]
    split
    · rename_i text htoken
      simp [htoken, Token.name?] at hname
    · rename_i htoken
      simp [htoken, Token.name?] at hname
    · simp only [hname]
  | @paren l r u e hl hr _ ih =>
    intro w
    have hw : (Phrase.chain .sum).Ends (r :: w) := by
      rw [ends_sum_iff]
      intro l hl level op hj
      obtain rfl : r = l := by simpa using hl
      rw [hr] at hj
      cases hj
    rw [ends_chain_iff] at hw
    obtain ⟨h, heq⟩ := ih (r :: w) hw.1
    rw [extend_of_ends hw.2] at heq
    have hlist : l :: u ++ [r] ++ w = l :: (u ++ r :: w) := by simp
    rw [hlist]
    refine ⟨by simp; omega, ?_⟩
    rw [operand, hl]
    simp only [heq, Parsed.weaken, closeParen, hr, if_true]
  | @single level u e _ ih =>
    intro w hw
    obtain ⟨h, heq⟩ := ih.term hw
    exact ⟨h, by rw [chain, heq]⟩
  | @join level u v l op lhs rhs _ hj _ ihu ihv =>
    intro w hw
    obtain ⟨hv, heqv⟩ := ihv.term hw
    obtain ⟨hu, hequ⟩ := ihu (l :: (v ++ w)) (term_ends_of_joins _ hj)
    have hlist : u ++ l :: v ++ w = u ++ l :: (v ++ w) := by simp
    rw [hlist]
    refine ⟨by simp; omega, ?_⟩
    rw [hequ, extend]
    simp only [op?_eq_some_iff.2 hj, heqv]

/-! ## Sums -/

/-- Reading a sum succeeds exactly on the lists that start with one, and returns it. -/
theorem sum_eq_ok_iff (stop : Nat) (ls : List Lexeme) (e : Expr) :
    (∃ read, sum stop ls = .ok read ∧ read.expr = e) ↔ StartsWith ls e := by
  constructor
  · rintro ⟨read, hread, rfl⟩
    have h : Answers stop (.chain .sum) ls (sum stop ls) := chain_answers stop .sum ls
    rw [hread] at h
    obtain ⟨u, hu, hd, he⟩ := h
    exact ⟨u, read.rest, hu, hd, (ends_sum_iff _).1 he⟩
  · rintro ⟨u, w, rfl, hd, hw⟩
    have he := (ends_chain_iff .sum w).1 ((ends_sum_iff w).2 hw)
    obtain ⟨h, heq⟩ := hd.takes stop w he.1
    exact ⟨⟨e, w, h⟩, heq.trans (extend_of_ends he.2), rfl⟩

/-- The only reports of reading a sum are of syntax errors, at a lexeme or at the end. -/
theorem sum_eq_error {stop : Nat} {ls : List Lexeme} {report : Report}
    (h : sum stop ls = .error report) :
    (∃ fault, Misread ls fault ∧ report = fault.reportAt report.span) ∧
      (report.span = .caret stop ∨ ∃ l ∈ ls, report.span = l.span) := by
  have hanswers : Answers stop (.chain .sum) ls (sum stop ls) := chain_answers stop .sum ls
  rw [h] at hanswers
  exact hanswers

theorem kind_of_sum_eq_error {stop : Nat} {ls : List Lexeme} {report : Report}
    (h : sum stop ls = .error report) : report.kind = .syntaxError := by
  obtain ⟨⟨fault, hfault, hreport⟩, -⟩ := sum_eq_error h
  rw [hreport]
  exact hfault.kind_eq

end LineCalc.Expr
