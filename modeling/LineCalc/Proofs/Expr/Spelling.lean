/-
Terms and their spellings. A term is what the writer of an expression has in mind; it is spelled as
words, with parentheses where precedence or association would join the words otherwise and wherever
else one likes. Every spelling of a term is read as that term.
-/
import LineCalc.Proofs.Decimal.Integer
import LineCalc.Proofs.Expr.Marks
import LineCalc.Proofs.Token.Words

namespace LineCalc

open LineCalc.Expr (Phrase Level Derives Joins)

/-! ## Terms -/

/-- An expression as it is meant, with the texts of its literals. -/
inductive Term where
  | literal (text : String)
  | var (name : String)
  | binary (op : ArithOp) (lhs rhs : Term)
deriving DecidableEq

/-- The level at which an operation joins. -/
def ArithOp.level : ArithOp → Level
  | add | subtract => .sum
  | multiply | divide => .product

namespace Term

/-- The words that spell a term as a phrase of a kind. -/
inductive Spells : Phrase → List String → Term → Prop where
  | literal {text : String} : isIntegerText text = true → Spells .operand [text] (.literal text)
  | var {name : String} : isIdentText name = true → Spells .operand [name] (.var name)
  | paren {ws : List String} {t : Term} : Spells (.chain .sum) ws t →
      Spells .operand ("(" :: ws ++ [")"]) t
  | single {level : Level} {ws : List String} {t : Term} : Spells level.term ws t →
      Spells (.chain level) ws t
  | join {us vs : List String} {op : ArithOp} {lhs rhs : Term} :
      Spells (.chain op.level) us lhs → Spells op.level.term vs rhs →
      Spells (.chain op.level) (us ++ op.sign :: vs) (.binary op lhs rhs)

/-- An expression is the term, columns apart. -/
inductive Denotes : Term → Expr → Prop where
  | literal {text : String} {span : Span} {value : Literal} : isIntegerText text = true →
      Literal.ofString? text = some value →
      Denotes (.literal text) (.literal span value.toBinary64)
  | var {name : String} {span : Span} : Denotes (.var name) (.var span name)
  | binary {op : ArithOp} {span : Span} {lhs rhs : Term} {e f : Expr} : Denotes lhs e →
      Denotes rhs f → Denotes (.binary op lhs rhs) (.binary op span e f)

/-! ## Reading a spelling -/

theorem joins_classify_sign (op : ArithOp) : Joins op.level (.classify op.sign) op := by
  cases op
  · exact .plus
  · exact .minus
  · exact .times
  · exact .divide

/-- Lexemes whose tokens are those of a spelling derive the term. -/
theorem Spells.derives {phrase : Phrase} {ws : List String} {t : Term} (h : Spells phrase ws t)
    {ls : List Lexeme} (hls : ls.map Lexeme.token = ws.map Token.classify) :
    ∃ e, Derives phrase ls e ∧ Denotes t e := by
  induction h generalizing ls with
  | literal htext =>
    obtain ⟨l, rfl, hl⟩ := List.map_eq_singleton_iff.1 hls
    rw [Token.classify_of_isIntegerText htext] at hl
    obtain ⟨value, hvalue, -⟩ := exists_literal_of_isIntegerText htext
    exact ⟨_, .integer hl hvalue, .literal htext hvalue⟩
  | @var name hname =>
    obtain ⟨l, rfl, hl⟩ := List.map_eq_singleton_iff.1 hls
    have hl' : l.token.name? = some name := by
      rw [hl]
      exact Token.name?_classify_of_isIdentText hname
    exact ⟨_, .name hl', .var⟩
  | paren _ ih =>
    rw [List.map_append, List.map_cons, List.cons_append] at hls
    obtain ⟨l, rest, rfl, hl, hrest⟩ := List.map_eq_cons_iff.1 hls
    obtain ⟨u, v, rfl, hu, hv⟩ := List.map_eq_append_iff.1 hrest
    obtain ⟨r, rfl, hr⟩ := List.map_eq_singleton_iff.1 hv
    obtain ⟨e, hderives, hdenotes⟩ := ih hu
    exact ⟨e, .paren hl hr hderives, hdenotes⟩
  | single _ ih =>
    obtain ⟨e, hderives, hdenotes⟩ := ih hls
    exact ⟨e, .single hderives, hdenotes⟩
  | @join us vs op lhs rhs _ _ ihl ihr =>
    rw [List.map_append, List.map_cons] at hls
    obtain ⟨u, rest, rfl, hu, hrest⟩ := List.map_eq_append_iff.1 hls
    obtain ⟨l, v, rfl, hl, hv⟩ := List.map_eq_cons_iff.1 hrest
    obtain ⟨e, hderives, hdenotes⟩ := ihl hu
    obtain ⟨f, hderives', hdenotes'⟩ := ihr hv
    have hjoins : Joins op.level l.token op := by
      rw [hl]
      exact joins_classify_sign op
    exact ⟨_, .join hderives hjoins hderives', .binary hdenotes hdenotes'⟩

/-- No spelling starts with `=`. -/
theorem Spells.head?_ne_equals {phrase : Phrase} {ws : List String} {t : Term}
    (h : Spells phrase ws t) : ∃ w rest, ws = w :: rest ∧ w ≠ "=" := by
  induction h with
  | literal htext =>
    refine ⟨_, [], rfl, ?_⟩
    rintro rfl
    exact absurd htext (by decide)
  | var hname =>
    refine ⟨_, [], rfl, ?_⟩
    rintro rfl
    exact absurd hname (by decide)
  | paren => exact ⟨"(", _, rfl, by decide⟩
  | single _ ih => exact ih
  | join _ _ ihl _ =>
    obtain ⟨w, rest, rfl, hw⟩ := ihl
    exact ⟨w, _, rfl, hw⟩

end Term

end LineCalc
