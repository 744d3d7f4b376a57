/-
The context of a run: the base in effect and the values of the variables.
-/
import LineCalc.Base
import LineCalc.Binary64.Basic
import Std.Data.ExtTreeMap

namespace LineCalc

structure Context where
  base : Option Base := none
  values : Std.ExtTreeMap String Binary64 := ∅

namespace Context

/-- A context with no variables. -/
def ofBase (base : Option Base) : Context := { base }

def setBase (context : Context) (base : Base) : Context := { context with base := some base }

def store (context : Context) (name : String) (value : Binary64) : Context :=
  { context with values := context.values.insert name value }

/-- The value last stored under a name. -/
def fetch (context : Context) (name : String) : Option Binary64 := context.values[name]?

/-- The value an expression sees. A variable that holds zero or NaN counts as undeclared. -/
def read (context : Context) (name : String) : Option Binary64 :=
  (context.fetch name).filter fun value => !value.isZero && !value.isNaN

/-! ## Views -/

@[simp]
theorem fetch_store (c : Context) (name other : String) (value : Binary64) :
    (c.store name value).fetch other = if name = other then some value else c.fetch other := by
  simp [store, fetch, Std.ExtTreeMap.getElem?_insert]

@[simp]
theorem base_store (c : Context) (name : String) (value : Binary64) :
    (c.store name value).base = c.base := rfl

@[simp]
theorem fetch_setBase (c : Context) (base : Base) (name : String) :
    (c.setBase base).fetch name = c.fetch name := rfl

@[simp]
theorem base_setBase (c : Context) (base : Base) : (c.setBase base).base = some base := rfl

@[simp]
theorem fetch_ofBase (base : Option Base) (name : String) : (ofBase base).fetch name = none := by
  simp [ofBase, fetch]

end Context

end LineCalc
