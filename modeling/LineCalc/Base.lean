/-
The bases in which values are printed.
-/
import LineCalc.Report

namespace LineCalc

inductive Base where
  | decimal
  | hexadecimal
  | binary
deriving DecidableEq

namespace Base

def radix : Base → Nat
  | decimal => 10
  | hexadecimal => 16
  | binary => 2

def keyword : Base → String
  | decimal => "dec"
  | hexadecimal => "hex"
  | binary => "bin"

/-- The base a keyword names. Case matters. -/
def ofKeyword? (text : String) : Option Base :=
  [decimal, hexadecimal, binary].find? (·.keyword = text)

@[simp]
theorem ofKeyword?_keyword (base : Base) : ofKeyword? base.keyword = some base := by
  cases base <;> decide

theorem keyword_of_ofKeyword? {text : String} {base : Base} (h : ofKeyword? text = some base) :
    base.keyword = text := by
  simpa using List.find?_some h

/-- The base a setting names, or a report of the text that names none. -/
def ofSetting (text : String) : Except Report Base :=
  match ofKeyword? text with
  | some base => .ok base
  | none => .error (Fault.unsupported text).report

end Base

end LineCalc
