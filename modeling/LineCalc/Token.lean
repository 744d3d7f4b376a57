/-
Tokens: the pieces a line is cut into. Every text has a token, and every token has a text. A run of
blanks may have any width here; a host that writes blanks by a formatting width may refuse one of
more than 65535.
-/

namespace LineCalc

/-! ## Words and operators -/

inductive Word where
  | config
  | print
deriving DecidableEq

namespace Word

def text : Word → String
  | config => "config"
  | print => "print"

def ofString? (text : String) : Option Word :=
  [config, print].find? (·.text = text)

@[simp]
theorem ofString?_text (w : Word) : ofString? w.text = some w := by
  cases w <;> decide

theorem text_of_ofString? {text : String} {w : Word} (h : ofString? text = some w) :
    w.text = text := by
  simpa using List.find?_some h

end Word

inductive Operator where
  | plus
  | minus
  | times
  | divide
  | equals
deriving DecidableEq

namespace Operator

def text : Operator → String
  | plus => "+"
  | minus => "-"
  | times => "*"
  | divide => "/"
  | equals => "="

def ofString? (text : String) : Option Operator :=
  [plus, minus, times, divide, equals].find? (·.text = text)

@[simp]
theorem ofString?_text (o : Operator) : ofString? o.text = some o := by
  cases o <;> decide

theorem text_of_ofString? {text : String} {o : Operator} (h : ofString? text = some o) :
    o.text = text := by
  simpa using List.find?_some h

end Operator

/-! ## Token classes -/

/-- Digits, with an optional minus sign before them. -/
def isIntegerText (text : String) : Bool :=
  let digits := match text.toList with
    | '-' :: cs => cs
    | cs => cs
  !digits.isEmpty && digits.all Char.isDigit

/-- A letter, then letters and digits. -/
def isIdentText (text : String) : Bool :=
  match text.toList with
  | [] => false
  | c :: cs => c.isAlpha && cs.all Char.isAlphanum

/-! ## Tokens -/

inductive Token where
  | unknown (text : String)
  | blank (width : Nat)
  | integer (text : String)
  | word (word : Word)
  | operator (operator : Operator)
  | ident (text : String)
  | leftParen
  | rightParen
deriving DecidableEq

namespace Token

/-- The token of a text without blanks. Words come before identifiers. -/
def classify (text : String) : Token :=
  match Word.ofString? text, Operator.ofString? text with
  | some w, _ => .word w
  | none, some o => .operator o
  | none, none =>
    if text = "(" then .leftParen
    else if text = ")" then .rightParen
    else if isIntegerText text then .integer text
    else if isIdentText text then .ident text
    else .unknown text

/-- The text of a token; blanks are written as spaces. -/
def text : Token → String
  | unknown text => text
  | blank width => String.ofList (List.replicate width ' ')
  | integer text => text
  | word w => w.text
  | operator o => o.text
  | ident text => text
  | leftParen => "("
  | rightParen => ")"

def isBlank : Token → Bool
  | blank _ => true
  | _ => false

/-- Cutting a text out as one token loses none of it. -/
@[simp]
theorem text_classify (s : String) : (classify s).text = s := by
  rcases hw : Word.ofString? s with _ | w
  · rcases ho : Operator.ofString? s with _ | o
    · grind [classify, text]
    · simpa [classify, text, hw, ho] using Operator.text_of_ofString? ho
  · simpa [classify, text, hw] using Word.text_of_ofString? hw

/-- The name a token stands for where a name may stand. A word is a name there too. -/
def name? : Token → Option String
  | ident text => some text
  | word w => some w.text
  | _ => none

end Token

end LineCalc
