/-
Writing terms and reading them back. A term is written with parentheses where precedence or
association needs them, and with as many more as one likes; a line that prints or assigns what is
written is read as the statement of that term.
-/
import LineCalc.Proofs.Line.Spelling

namespace LineCalc

open LineCalc.Expr (Phrase Level)

/-! ## Writing -/

/-- Operations that bind tighter have a higher precedence. -/
def ArithOp.precedence : ArithOp → Nat
  | add | subtract => 1
  | multiply | divide => 2

/-- Where a term stands: by itself, or on one side of an operation. -/
inductive Place where
  | alone
  | left (op : ArithOp)
  | right (op : ArithOp)
deriving DecidableEq

/-- Whether what `op` joins has to be in parentheses at a place. As operations associate to the
left, one that binds alike needs them on the right only. -/
def Place.needsParens : Place → ArithOp → Bool
  | alone, _ => false
  | left outer, op => op.precedence < outer.precedence
  | right outer, op => op.precedence ≤ outer.precedence

/-- Words in a number of pairs of parentheses. -/
def enclose : Nat → List String → List String
  | 0, ws => ws
  | n + 1, ws => "(" :: enclose n ws ++ [")"]

/-- A term as it is to be written: each node says how many pairs of parentheses, beyond those that
it needs, stand around it. -/
inductive Layout where
  | literal (pairs : Nat) (text : String)
  | var (pairs : Nat) (name : String)
  | binary (pairs : Nat) (op : ArithOp) (lhs rhs : Layout)
deriving DecidableEq

namespace Layout

/-- The term that is written. -/
def term : Layout → Term
  | literal _ text => .literal text
  | var _ name => .var name
  | binary _ op lhs rhs => .binary op lhs.term rhs.term

/-- The words that are written at a place. -/
def words (place : Place) : Layout → List String
  | literal pairs text => enclose pairs [text]
  | var pairs name => enclose pairs [name]
  | binary pairs op lhs rhs =>
    enclose (pairs + if place.needsParens op then 1 else 0)
      (lhs.words (.left op) ++ op.sign :: rhs.words (.right op))

end Layout

/-- Each literal of the term is an integer, and each name an identifier. -/
def Term.WellFormed : Term → Prop
  | literal text => text.toList ∈ integerPattern
  | var name => name.toList ∈ identPattern
  | binary _ lhs rhs => lhs.WellFormed ∧ rhs.WellFormed

/-! ## What is written is a spelling -/

/-- The phrase that is read at a place. -/
def Place.phrase : Place → Phrase
  | alone => .chain .sum
  | left op => .chain op.level
  | right op => op.level.term

namespace Term.Spells

variable {ws : List String} {t : Term}

/-- Chains may stand for sums. -/
theorem sum_of_chain {level : Level} (h : Spells (.chain level) ws t) :
    Spells (.chain .sum) ws t := by
  cases level with
  | sum => exact h
  | product => exact .single h

/-- An operand may stand for any phrase. -/
theorem of_operand (h : Spells .operand ws t) (phrase : Phrase) : Spells phrase ws t := by
  have hproduct : Spells (.chain .product) ws t := .single h
  cases phrase with
  | operand => exact h
  | chain level =>
    cases level with
    | sum => exact .single hproduct
    | product => exact hproduct

/-- Words in parentheses are any phrase; without parentheses they have to be that phrase. -/
theorem enclose {n : Nat} {phrase : Phrase} (hbare : n = 0 → Spells phrase ws t)
    (hsum : Spells (.chain .sum) ws t) : Spells phrase (enclose n ws) t := by
  induction n generalizing phrase with
  | zero => exact hbare rfl
  | succ n ih => exact of_operand (.paren (ih fun _ => hsum)) phrase

/-- What an operation joins may stand wherever it needs no parentheses. -/
theorem at_place {op : ArithOp} {place : Place} (hplace : place.needsParens op = false)
    (h : Spells (.chain op.level) ws t) : Spells place.phrase ws t := by
  cases place with
  | alone => exact h.sum_of_chain
  | left outer =>
    have hlevel : outer.level = .sum ∨ op.level = outer.level := by
      cases op <;> cases outer <;> simp_all [Place.needsParens, ArithOp.precedence, ArithOp.level]
    show Spells (.chain outer.level) ws t
    rcases hlevel with hsum | heq
    · rw [hsum]
      exact h.sum_of_chain
    · rw [← heq]
      exact h
  | right outer =>
    have hlevel : outer.level = .sum ∧ op.level = .product := by
      cases op <;> cases outer <;> simp_all [Place.needsParens, ArithOp.precedence, ArithOp.level]
    show Spells outer.level.term ws t
    rw [hlevel.1]
    rw [hlevel.2] at h
    exact h

end Term.Spells

/-- A term that is written at a place is spelled as the phrase that is read there. -/
theorem Layout.spells_words {layout : Layout} (h : layout.term.WellFormed) (place : Place) :
    layout.term.Spells place.phrase (layout.words place) := by
  induction layout generalizing place with
  | literal pairs text =>
    have htext : Term.Spells .operand [text] (.literal text) :=
      .literal ((isIntegerText_iff text).2 h)
    exact .enclose (fun _ => htext.of_operand _) (htext.of_operand _)
  | var pairs name =>
    have hname : Term.Spells .operand [name] (.var name) := .var ((isIdentText_iff name).2 h)
    exact .enclose (fun _ => hname.of_operand _) (hname.of_operand _)
  | binary pairs op lhs rhs ihl ihr =>
    have hjoin : Term.Spells (.chain op.level)
        (lhs.words (.left op) ++ op.sign :: rhs.words (.right op)) (.binary op lhs.term rhs.term) :=
      .join (ihl h.1 (.left op)) (ihr h.2 (.right op))
    refine .enclose (fun hpairs => .at_place ?_ hjoin) hjoin.sum_of_chain
    -- no pair at all means that none was needed
    by_contra hneeds
    rw [Bool.not_eq_false] at hneeds
    simp [hneeds] at hpairs

/-! ## Reading back -/

/-- Reading undoes writing: a line of the word `print`, or of a name and `=`, and a term as it is
written is read as the statement that prints, or assigns, that term. -/
theorem Line.statement_written (layout : Layout) (h : layout.term.WellFormed) (text : String)
    (number : Option Nat) :
    (words text = "print" :: layout.words .alone →
      ∃ span e, (Line.ofString text number).statement = .ok (.print span e) ∧
        layout.term.Denotes e) ∧
    ∀ name : String, name.toList ∈ identPattern → name ≠ "config" →
      words text = name :: "=" :: layout.words .alone →
      ∃ span e, (Line.ofString text number).statement = .ok (.assign span name e) ∧
        layout.term.Denotes e := by
  have hbody : layout.term.Spells (.chain .sum) (layout.words .alone) :=
    layout.spells_words h .alone
  constructor
  · intro hwords
    exact Line.statement_print hwords hbody number
  · intro name hname hconfig hwords
    exact Line.statement_assign hwords ((isIdentText_iff name).2 hname) hconfig hbody number

/-- A difference and a quotient on the right of their like, and pairs that nothing needs. -/
theorem Line.statement_written_right :
    let difference : Layout :=
      .binary 0 .subtract (.var 0 "a") (.binary 1 .subtract (.var 0 "print") (.literal 2 "-3"))
    let layout : Layout := .binary 0 .divide (.binary 0 .multiply difference (.literal 0 "07"))
      (.binary 0 .divide (.var 0 "config") (.var 0 "hex"))
    let body := "( a - ( ( print - ( ( -3 ) ) ) ) ) * 07 / ( config / hex )"
    (∃ span e, (Line.ofString ("print " ++ body) none).statement = .ok (.print span e) ∧
      layout.term.Denotes e) ∧
    ∃ span e, (Line.ofString ("print = " ++ body) none).statement = .ok (.assign span "print" e) ∧
      layout.term.Denotes e := by
  intro difference layout body
  have hleaves : layout.term.WellFormed := by
    simp only [layout, difference, Layout.term, Term.WellFormed, ← isIntegerText_iff,
      ← isIdentText_iff]
    decide
  have hprint : words ("print " ++ body) = "print" :: layout.words .alone := by decide +kernel
  have hassign : words ("print = " ++ body) = "print" :: "=" :: layout.words .alone := by
    decide +kernel
  have hname : "print".toList ∈ identPattern := (isIdentText_iff _).1 (by decide)
  exact ⟨(Line.statement_written layout hleaves _ none).1 hprint,
    (Line.statement_written layout hleaves _ none).2 "print" hname (by decide) hassign⟩

end LineCalc
