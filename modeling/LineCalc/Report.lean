/-
Reports: what is said about a fault. The text names the kind of fault, then the place, as far as
it is known, then what was expected or found.
-/
import LineCalc.Span

namespace LineCalc

/-! ## Kinds of fault -/

inductive FaultKind where
  | syntaxError
  | undeclaredVariable
  | invalidConfig
  | unconfiguredBase
  | unsupportedBase
deriving DecidableEq

namespace FaultKind

/-- The number a host knows the kind by. -/
def number : FaultKind → Nat
  | syntaxError => 2
  | undeclaredVariable => 3
  | invalidConfig => 4
  | unconfiguredBase => 5
  | unsupportedBase => 6

def title : FaultKind → String
  | syntaxError => "SYNTAX ERROR"
  | undeclaredVariable => "UNDECLARED VARIABLE"
  | invalidConfig => "INVALID CONFIG"
  | unconfiguredBase => "BASE NOT CONFIGURED"
  | unsupportedBase => "UNSUPPORTED BASE"

end FaultKind

/-! ## Reports -/

structure Report where
  kind : FaultKind
  line : Option Nat := none
  span : Span := .none
  message : String := ""
deriving DecidableEq

namespace Report

/-- The known part of the place, with a blank before each item. -/
def place (r : Report) : String :=
  let line := match r.line with
    | some n => " " ++ toString n
    | none => ""
  let span :=
    if r.span = .none then ""
    else " (" ++ toString r.span.start ++ ".." ++ toString r.span.stop ++ ")"
  line ++ span

def text (r : Report) : String :=
  let place := if r.place = "" then "" else " IN" ++ r.place
  let message := if r.message = "" then "" else "; " ++ r.message
  r.kind.title ++ place ++ message

/-- The text with a label, for traces. -/
def labelled (r : Report) : String := "Error \x7b " ++ r.text ++ " \x7d"

end Report

/-! ## Faults -/

/-- The faults a line or a setting can have. -/
inductive Fault where
  | invalidInteger
  | missingOperand
  | missingRightParen
  | unknownBase
  | undeclared (name : String)
  | unconfigured
  | unsupported (keyword : String)
deriving DecidableEq

namespace Fault

def kind : Fault → FaultKind
  | invalidInteger | missingOperand | missingRightParen => .syntaxError
  | unknownBase => .invalidConfig
  | undeclared _ => .undeclaredVariable
  | unconfigured => .unconfiguredBase
  | unsupported _ => .unsupportedBase

def message : Fault → String
  | invalidInteger => "INVALID INTEGER"
  | missingOperand => "EXPECTED INTEGER OR LEFT PARENTHESIS"
  | missingRightParen => "EXPECTED RIGHT PARENTHESIS"
  | unknownBase => "EXPECTED dec, hex OR bin"
  | undeclared name => name
  | unconfigured => ""
  | unsupported keyword => keyword

/-- The report of a fault found at a span of some line. -/
def reportAt (fault : Fault) (span : Span) : Report :=
  { kind := fault.kind, span, message := fault.message }

/-- The report of a fault outside any line. -/
def report (fault : Fault) : Report := fault.reportAt .none

end Fault

end LineCalc
