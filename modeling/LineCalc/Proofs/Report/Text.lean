/-
The text of a report can be read back. Each part is told from the next by how that begins: a title
is no beginning of another one, a number ends before the first character that is no digit, the place
ends before a semicolon, and the message is all that is left, whatever it holds. So no two reports
have the same text.
-/
import LineCalc.Proofs.Decimal.Literal
import LineCalc.Report
import Mathlib.Data.List.Basic

namespace LineCalc

/-! ## Reading the parts -/

/-- The kind of fault whose title leads a text, and what follows the title. -/
def FaultKind.readTitle? (cs : List Char) : Option (FaultKind × List Char) :=
  [syntaxError, undeclaredVariable, invalidConfig, unconfiguredBase, unsupportedBase].findSome?
    fun kind => (cs.dropPrefix? kind.title.toList).map fun rest => (kind, rest)

namespace Report

/-- The number that leads a text, and what follows its digits. -/
def readNumber (cs : List Char) : Nat × List Char :=
  (cs.span Char.isDigit).map (Nat.ofDigitChars 10 · 0) id

/-- The line of a place, if the place has one, and what follows it. -/
def readLine : List Char → Option Nat × List Char
  | ' ' :: '(' :: cs => (none, ' ' :: '(' :: cs)
  | ' ' :: cs => (readNumber cs).map some id
  | cs => (none, cs)

/-- The span of a place, and what follows it. -/
def readSpan : List Char → Span × List Char
  | ' ' :: '(' :: cs =>
    let (start, cs) := readNumber cs
    let (stop, cs) := readNumber (cs.drop 2)
    (⟨start, stop⟩, cs.drop 1)
  | cs => (.none, cs)

/-- The line and the span that a text has after its title, and what follows them. -/
def readPlace : List Char → Option Nat × Span × List Char
  | ' ' :: 'I' :: 'N' :: cs =>
    let (line, cs) := readLine cs
    (line, readSpan cs)
  | cs => (none, .none, cs)

/-- The message that ends a text. -/
def readMessage : List Char → String
  | ';' :: ' ' :: cs => String.ofList cs
  | _ => ""

/-- The report that has the text, if one has. -/
def ofText? (text : String) : Option Report :=
  (FaultKind.readTitle? text.toList).map fun (kind, cs) =>
    let (line, span, cs) := readPlace cs
    { kind, line, span, message := readMessage cs }

/-! ## The parts as they are written -/

def lineChars : Option Nat → List Char
  | none => []
  | some n => ' ' :: Nat.toDigits 10 n

def spanChars (span : Span) : List Char :=
  if span = .none then []
  else ' ' :: '(' :: (Nat.toDigits 10 span.start ++
    '.' :: '.' :: (Nat.toDigits 10 span.stop ++ [')']))

def placeChars (line : Option Nat) (span : Span) : List Char :=
  if line = none ∧ span = .none then [] else ' ' :: 'I' :: 'N' :: (lineChars line ++ spanChars span)

def messageChars (message : String) : List Char :=
  if message = "" then [] else ';' :: ' ' :: message.toList

theorem toList_place (r : Report) : r.place.toList = lineChars r.line ++ spanChars r.span := by
  obtain ⟨kind, line, span, message⟩ := r
  unfold place spanChars
  by_cases hspan : span = .none
  · cases line <;> simp [lineChars, hspan]
  · cases line <;> simp [lineChars, hspan]

theorem place_eq_empty_iff (r : Report) : r.place = "" ↔ r.line = none ∧ r.span = .none := by
  rw [← String.toList_inj, toList_place]
  by_cases hspan : r.span = .none
  · cases r.line <;> simp [lineChars, spanChars, hspan]
  · simp [spanChars, hspan]

theorem toList_text (r : Report) : r.text.toList =
    r.kind.title.toList ++ (placeChars r.line r.span ++ messageChars r.message) := by
  unfold text placeChars messageChars
  simp only [place_eq_empty_iff, ← toList_place]
  split <;> split <;> simp

/-! ## Reading back -/

/-- No title is the beginning of another one. -/
theorem readTitle?_append (kind : FaultKind) (rest : List Char) :
    FaultKind.readTitle? (kind.title.toList ++ rest) = some (kind, rest) := by
  cases kind <;> simp [FaultKind.readTitle?, FaultKind.title, List.dropPrefix?]

theorem readNumber_append (n : Nat) {rest : List Char}
    (h : ∀ c ∈ rest.head?, c.isDigit = false) :
    readNumber (Nat.toDigits 10 n ++ rest) = (n, rest) := by
  have hdigits : ∀ c ∈ Nat.toDigits 10 n, c.isDigit = true := fun c hc =>
    Nat.isDigit_of_mem_toDigits (by decide) (by decide) hc
  unfold readNumber
  rw [Literal.span_digits hdigits h, Prod.map, Nat.ofDigitChars_ten_toDigits]
  rfl

/-- A blank that no parenthesis follows leads to the number of a line. -/
theorem readLine_blank {cs : List Char} (h : cs.head? ≠ some '(') :
    readLine (' ' :: cs) = (readNumber cs).map some id := by
  unfold readLine
  split
  · rename_i hcs
    obtain ⟨-, rfl⟩ := List.cons.inj hcs
    exact absurd rfl h
  · rename_i hcs
    rw [(List.cons.inj hcs).2]
  · rename_i hblank
    exact absurd rfl (hblank cs)

theorem head?_toDigits_append_ne (n : Nat) (cs : List Char) :
    (Nat.toDigits 10 n ++ cs).head? ≠ some '(' := by
  intro hhead
  rw [List.head?_append_of_ne_nil _ Nat.toDigits_ne_nil] at hhead
  have hdigit := Nat.isDigit_of_mem_toDigits (by decide) (by decide) (List.mem_of_mem_head? hhead)
  exact absurd hdigit (by decide)

section

-- after the place comes nothing, or a semicolon and the message
variable {rest : List Char} (h : rest = [] ∨ ∃ cs, rest = ';' :: cs)

include h

theorem readSpan_append (span : Span) : readSpan (spanChars span ++ rest) = (span, rest) := by
  by_cases hspan : span = .none
  · rw [spanChars, if_pos hspan, hspan]
    rcases h with rfl | ⟨cs, rfl⟩ <;> rfl
  · rw [spanChars, if_neg hspan]
    simp only [List.cons_append, List.append_assoc, readSpan]
    rw [readNumber_append span.start (by simp)]
    simp only [List.drop_succ_cons, List.drop_zero]
    rw [readNumber_append span.stop (by simp)]
    rfl

theorem readLine_append (line : Option Nat) (span : Span) :
    readLine (lineChars line ++ (spanChars span ++ rest)) = (line, spanChars span ++ rest) := by
  cases line with
  | none =>
    by_cases hspan : span = .none
    · rw [spanChars, if_pos hspan]
      rcases h with rfl | ⟨cs, rfl⟩ <;> rfl
    · rw [spanChars, if_neg hspan]
      rfl
  | some n =>
    have hnext : ∀ c ∈ (spanChars span ++ rest).head?, c.isDigit = false := by
      by_cases hspan : span = .none
      · rcases h with rfl | ⟨cs, rfl⟩ <;> simp [spanChars, hspan]
      · simp [spanChars, hspan]
    rw [lineChars, List.cons_append, readLine_blank (head?_toDigits_append_ne n _),
      readNumber_append n hnext]
    rfl

theorem readPlace_append (line : Option Nat) (span : Span) :
    readPlace (placeChars line span ++ rest) = (line, span, rest) := by
  unfold placeChars
  split
  · rename_i hnone
    obtain ⟨rfl, rfl⟩ := hnone
    rcases h with rfl | ⟨cs, rfl⟩ <;> rfl
  · simp only [List.cons_append, List.append_assoc, readPlace, readLine_append h, readSpan_append h]

end

theorem messageChars_cases (message : String) :
    messageChars message = [] ∨ ∃ cs, messageChars message = ';' :: cs := by
  unfold messageChars
  split
  · exact .inl rfl
  · exact .inr ⟨_, rfl⟩

theorem readMessage_messageChars (message : String) :
    readMessage (messageChars message) = message := by
  unfold messageChars
  split
  · rename_i hempty
    exact hempty.symm
  · exact String.ofList_toList

/-- A report is read back from its text. -/
theorem ofText?_text (r : Report) : ofText? r.text = some r := by
  unfold ofText?
  rw [toList_text, readTitle?_append, Option.map_some]
  simp only [readPlace_append (messageChars_cases r.message), readMessage_messageChars]

example : ofText? "UNDECLARED VARIABLE IN (5..0); y IN 3 (8..9); z" =
    some { kind := .undeclaredVariable, span := ⟨5, 0⟩, message := "y IN 3 (8..9); z" } := by
  decide +kernel

/-- The text of a report determines it: two reports have the same text just if they agree in kind,
line, span and message, whichever of these are left out and whatever the messages hold. -/
theorem text_eq_text_iff (r s : Report) : r.text = s.text ↔
    r.kind = s.kind ∧ r.line = s.line ∧ r.span = s.span ∧ r.message = s.message := by
  constructor
  · intro h
    have hread : some r = some s := by rw [← ofText?_text r, h, ofText?_text s]
    obtain rfl := Option.some.inj hread
    exact ⟨rfl, rfl, rfl, rfl⟩
  · obtain ⟨kind, line, span, message⟩ := r
    rintro ⟨rfl, rfl, rfl, rfl⟩
    rfl

end Report

end LineCalc
