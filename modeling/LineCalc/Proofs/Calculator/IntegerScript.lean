/-
Scripts of integer arithmetic. A small interpreter over the integers says what such a script should
print; as long as the integers stay within `2 ^ 53` and no variable that is read holds zero, a
calculator prints just that. One command keeps the store and the context in step, and so does a
whole script.
-/
import LineCalc.Calculator
import LineCalc.Proofs.Line.Spelling
import LineCalc.Proofs.Numeral.Integer
import LineCalc.Proofs.Program.Sequence
import Mathlib.Tactic

namespace LineCalc

/-! ## An interpreter over the integers -/

/-- What the variables hold. -/
abbrev Store := String → Option ℤ

/-- Operations on integers, among which there is no division. -/
def ArithOp.onInt? : ArithOp → ℤ → ℤ → Option ℤ
  | add, m, n => some (m + n)
  | subtract, m, n => some (m - n)
  | multiply, m, n => some (m * n)
  | divide, _, _ => none

namespace Term

/-- The value of a term. A variable that is not assigned has none, and neither has a quotient. -/
def value (store : Store) : Term → Option ℤ
  | literal text => some (integerValue text)
  | var name => store name
  | binary op lhs rhs =>
    match lhs.value store, rhs.value store with
    | some m, some n => op.onInt? m n
    | _, _ => none

def subterms : Term → List Term
  | literal text => [literal text]
  | var name => [var name]
  | binary op lhs rhs => binary op lhs rhs :: (lhs.subterms ++ rhs.subterms)

/-- Everything that is met in evaluating a term has a value of at most `2 ^ 53`, and no variable
holds zero. -/
structure Exact (store : Store) (t : Term) : Prop where
  value_le : ∀ s ∈ t.subterms, ∃ n, s.value store = some n ∧ |n| ≤ 2 ^ 53
  var_ne_zero : ∀ name, var name ∈ t.subterms → store name ≠ some 0

end Term

/-- A line of a script. -/
inductive Command where
  | assign (name : String) (term : Term)
  | print (term : Term)
deriving DecidableEq

namespace Command

def term : Command → Term
  | assign _ term | print term => term

/-- The store after a command whose term has the value `n`. -/
def after (command : Command) (store : Store) (n : ℤ) : Store :=
  match command with
  | assign name _ => Function.update store name (some n)
  | print _ => store

/-- What a command prints if its term has the value `n`. -/
def printed (command : Command) (n : ℤ) : List ℤ :=
  match command with
  | assign _ _ => []
  | print _ => [n]

/-- The integers that commands print, if every term has a value. -/
def run (store : Store) : List Command → Option (List ℤ)
  | [] => some []
  | command :: commands =>
    match command.term.value store with
    | some n => (run (command.after store n) commands).map (command.printed n ++ ·)
    | none => none

/-- Every term is exact when its turn comes. -/
def Exact (store : Store) : List Command → Prop
  | [] => True
  | command :: commands => command.term.Exact store ∧
      ∀ n, command.term.value store = some n → Exact (command.after store n) commands

/-- The words that spell a command. -/
inductive Spells : List String → Command → Prop where
  | assign {name : String} {body : List String} {t : Term} : isIdentText name = true →
      name ≠ "config" → Term.Spells (.chain .sum) body t →
      Spells (name :: "=" :: body) (.assign name t)
  | print {body : List String} {t : Term} : Term.Spells (.chain .sum) body t →
      Spells ("print" :: body) (.print t)

end Command

/-- Lines that are blank or spell the commands, in order. -/
inductive Script : List String → List Command → Prop where
  | nil : Script [] []
  | blank {line : String} {lines : List String} {commands : List Command} : words line = [] →
      Script lines commands → Script (line :: lines) commands
  | command {line : String} {lines : List String} {command : Command} {commands : List Command} :
      command.Spells (words line) → Script lines commands →
      Script (line :: lines) (command :: commands)

/-! ## Evaluation -/

/-- The context holds the integers of the store. -/
def Store.HeldBy (store : Store) (context : Context) : Prop :=
  ∀ name n, store name = some n →
    |n| ≤ 2 ^ 53 ∧ ∃ x, context.fetch name = some x ∧ x.toRat? = some (n : ℚ)

theorem Term.mem_subterms (t : Term) : t ∈ t.subterms := by
  cases t <;> exact List.mem_cons_self

theorem Term.Exact.lhs {store : Store} {op : ArithOp} {lhs rhs : Term}
    (h : Exact store (.binary op lhs rhs)) : Exact store lhs :=
  ⟨fun s hs => h.value_le s (List.mem_cons_of_mem _ (List.mem_append_left _ hs)),
    fun name hs => h.var_ne_zero name (List.mem_cons_of_mem _ (List.mem_append_left _ hs))⟩

theorem Term.Exact.rhs {store : Store} {op : ArithOp} {lhs rhs : Term}
    (h : Exact store (.binary op lhs rhs)) : Exact store rhs :=
  ⟨fun s hs => h.value_le s (List.mem_cons_of_mem _ (List.mem_append_right _ hs)),
    fun name hs => h.var_ne_zero name (List.mem_cons_of_mem _ (List.mem_append_right _ hs))⟩

theorem Term.Exact.exists_value {store : Store} {t : Term} (h : Exact store t) :
    ∃ n, t.value store = some n ∧ |n| ≤ 2 ^ 53 :=
  h.value_le t t.mem_subterms

/-- An operation on integers whose result stays within `2 ^ 53` is exact. -/
theorem ArithOp.toRat?_apply {op : ArithOp} {x y : Binary64} {m n k : ℤ}
    (hx : x.toRat? = some (m : ℚ)) (hy : y.toRat? = some (n : ℚ)) (hop : op.onInt? m n = some k)
    (hk : |k| ≤ 2 ^ 53) : (op.apply x y).toRat? = some (k : ℚ) := by
  have hgrid : OnGrid |(k : ℚ)| := by
    rw [abs_intCast]
    rw [Int.abs_eq_natAbs] at hk
    exact onGrid_natCast (by omega)
  cases op with
  | add =>
    obtain rfl := Option.some.inj hop
    rw [Int.cast_add] at hgrid ⊢
    exact Binary64.toRat?_add hx hy hgrid
  | subtract =>
    obtain rfl := Option.some.inj hop
    rw [Int.cast_sub] at hgrid ⊢
    exact Binary64.toRat?_sub hx hy hgrid
  | multiply =>
    obtain rfl := Option.some.inj hop
    rw [Int.cast_mul] at hgrid ⊢
    exact Binary64.toRat?_mul hx hy hgrid
  | divide => cases hop

/-- A held integer other than zero is what an expression sees. -/
theorem Store.HeldBy.read {store : Store} {context : Context} (h : store.HeldBy context)
    {name : String} {n : ℤ} (hn : store name = some n) (hzero : n ≠ 0) :
    ∃ x, context.read name = some x ∧ x.toRat? = some (n : ℚ) := by
  obtain ⟨-, x, hfetch, hx⟩ := h name n hn
  have hnan : x.isNaN = false := by
    obtain ⟨negative, m, rfl, -⟩ := Binary64.exists_of_toRat? hx
    rfl
  refine ⟨x, ?_, hx⟩
  simp [Context.read, hfetch, Binary64.isZero_eq hx, hnan, hzero]

/-- Evaluation follows the integers. -/
theorem Term.Denotes.eval_eq {t : Term} {e : Expr} (h : t.Denotes e) {store : Store}
    {context : Context} (hheld : store.HeldBy context) (hexact : t.Exact store) {n : ℤ}
    (hn : t.value store = some n) :
    ∃ x, e.eval context = .ok x ∧ x.toRat? = some (n : ℚ) := by
  induction h generalizing n with
  | @literal text span value htext hvalue =>
    obtain ⟨value', hvalue', hread⟩ := exists_literal_of_isIntegerText htext
    obtain rfl : value = value' := Option.some.inj (hvalue.symm.trans hvalue')
    obtain ⟨k, hk, hle⟩ := hexact.exists_value
    obtain rfl : integerValue text = n := Option.some.inj hn
    obtain rfl : integerValue text = k := Option.some.inj hk
    exact ⟨_, rfl, hread hle⟩
  | @var name span =>
    have hzero : n ≠ 0 := by
      rintro rfl
      exact hexact.var_ne_zero name (mem_subterms _) hn
    obtain ⟨x, hread, hx⟩ := hheld.read hn hzero
    refine ⟨x, ?_, hx⟩
    simp only [Expr.eval, hread]
  | @binary op span lhs rhs e f _ _ ihl ihr =>
    obtain ⟨k, hk, -⟩ := hexact.lhs.exists_value
    obtain ⟨l, hl, -⟩ := hexact.rhs.exists_value
    obtain ⟨x, hxe, hx⟩ := ihl hexact.lhs hk
    obtain ⟨y, hyf, hy⟩ := ihr hexact.rhs hl
    obtain ⟨n', hn', hle⟩ := hexact.exists_value
    obtain rfl : n = n' := Option.some.inj (hn.symm.trans hn')
    have hop : op.onInt? k l = some n := by simpa [value, hk, hl] using hn
    refine ⟨op.apply x y, ?_, ArithOp.toRat?_apply hx hy hop hle⟩
    simp only [Expr.eval, hxe, hyf]

/-! ## Lines -/

/-- The statement of a command. -/
def Command.statement (command : Command) (span : Span) (value : Expr) : Statement :=
  match command with
  | assign name _ => .assign span name value
  | print _ => .print span value

theorem Line.statement_of_spells {text : String} {command : Command}
    (h : command.Spells (words text)) (number : Option ℕ) :
    ∃ span e, (Line.ofString text number).statement = .ok (command.statement span e) ∧
      command.term.Denotes e := by
  generalize hwords : words text = ws at h
  cases h with
  | assign hname hconfig hbody => exact Line.statement_assign hwords hname hconfig hbody number
  | print hbody => exact Line.statement_print hwords hbody number

theorem Command.Spells.text_ne_empty {text : String} {command : Command}
    (h : command.Spells (words text)) : text ≠ "" := by
  rintro rfl
  have hwords : words "" = [] := rfl
  rw [hwords] at h
  cases h

/-! ## Running -/

/-- A machine that prints in a base and holds the integers of a store. -/
structure Machine.InStep (machine : Machine) (base : Base) (store : Store) : Prop where
  base_eq : machine.context.base = some base
  held : store.HeldBy machine.context

/-- The rows of a list of integers. -/
def integerRows (base : Base) (ns : List ℤ) : List (List String) :=
  ns.map fun n => [integerNumeral base n]

theorem Store.HeldBy.update {store : Store} {context : Context} (h : store.HeldBy context)
    (name : String) {n : ℤ} (hn : |n| ≤ 2 ^ 53) {x : Binary64} (hx : x.toRat? = some (n : ℚ)) :
    Store.HeldBy (Function.update store name (some n)) (context.store name x) := by
  intro other k hk
  rw [Context.fetch_store]
  by_cases hother : other = name
  · subst hother
    rw [Function.update_self] at hk
    obtain rfl := Option.some.inj hk
    exact ⟨hn, x, if_pos rfl, hx⟩
  · rw [Function.update_of_ne hother] at hk
    rw [if_neg (Ne.symm hother)]
    exact h other k hk

/-- One command keeps machine and store in step and prints what the interpreter prints. -/
theorem Command.run_line {text : String} {command : Command} (h : command.Spells (words text))
    (number : Option ℕ) {base : Base} {store : Store} {machine : Machine}
    (hstep : machine.InStep base store) (hexact : command.term.Exact store) {n : ℤ}
    (hn : command.term.value store = some n) :
    ∃ result machine', (Line.ofString text number).run machine = (.ok result, machine') ∧
      machine'.InStep base (command.after store n) ∧
      machine'.output.rows.toList =
        machine.output.rows.toList ++ integerRows base (command.printed n) := by
  obtain ⟨span, e, hstatement, hdenotes⟩ := Line.statement_of_spells h number
  obtain ⟨x, heval, hx⟩ := hdenotes.eval_eq hstep.held hexact hn
  obtain ⟨n', hn', hle⟩ := hexact.exists_value
  obtain rfl : n = n' := Option.some.inj (hn.symm.trans hn')
  simp only [Line.run, hstatement]
  cases command with
  | assign name t =>
    simp only [statement, Statement.run, heval]
    exact ⟨_, _, rfl, ⟨hstep.base_eq, hstep.held.update name hle hx⟩, by simp [printed, integerRows]⟩
  | print t =>
    simp only [statement, Statement.run, heval, hstep.base_eq, Binary64.numeral_intCast hx hle base]
    exact ⟨_, _, rfl, ⟨hstep.base_eq, hstep.held⟩, by simp [printed, integerRows, Output.print]⟩

/-- A whole script keeps machine and store in step. -/
theorem Script.runLines_eq {lines : List String} {commands : List Command}
    (h : Script lines commands) (first : ℕ) {base : Base} {store : Store} {machine : Machine}
    (hstep : machine.InStep base store) (hexact : Command.Exact store commands) :
    ∃ ns machine', Command.run store commands = some ns ∧
      Program.runLines (Program.numberLines first lines) machine = (.ok (), machine') ∧
      machine'.output.rows.toList = machine.output.rows.toList ++ integerRows base ns := by
  induction h generalizing first store machine with
  | nil => exact ⟨[], machine, rfl, rfl, by simp [integerRows]⟩
  | @blank line lines commands hblank _ ih =>
    obtain ⟨ns, machine', hrun, hlines, hrows⟩ := ih (first + 1) hstep hexact
    refine ⟨ns, machine', hrun, ?_, hrows⟩
    simp only [Program.numberLines]
    by_cases hempty : line = ""
    · rw [if_pos hempty, hlines]
    · have hstatement := Line.statement_of_blank hblank (some first)
      simp only [if_neg hempty, Program.runLines, Line.run, hstatement, Statement.run]
      exact hlines
  | @command line lines command commands hspells _ ih =>
    obtain ⟨n, hn, -⟩ := hexact.1.exists_value
    obtain ⟨result, machine₁, hline, hstep₁, hrows₁⟩ :=
      Command.run_line hspells (some first) hstep hexact.1 hn
    obtain ⟨ns, machine', hrun, hlines, hrows⟩ := ih (first + 1) hstep₁ (hexact.2 n hn)
    refine ⟨command.printed n ++ ns, machine', ?_, ?_, ?_⟩
    · simp only [Command.run, hn, hrun, Option.map_some]
    · simp only [Program.numberLines, if_neg (hspells.text_ne_empty), Program.runLines, hline]
      exact hlines
    · rw [hrows, hrows₁, List.append_assoc]
      simp [integerRows]

/-- Scripts of integer arithmetic are exact: after a line that sets a base, lines that assign and
print terms print the integers that the interpreter prints, in that base, as long as no integer
leaves the range up to `2 ^ 53` and no variable is read before it is assigned or while it holds
zero. -/
theorem Calculator.run_integer_script (base : Base) (config : String) (lines : List String)
    (commands : List Command) (hconfig : words config = ["config", base.keyword])
    (hscript : Script lines commands) (hlines : ∀ line ∈ config :: lines, '\n' ∉ line.toList)
    (hexact : Command.Exact (fun _ => none) commands) :
    ∃ ns, Command.run (fun _ => none) commands = some ns ∧
      Calculator.run {} ("\n".intercalate (config :: lines)) =
        (.ok (), { output := ⟨(integerRows base ns).toArray⟩ }) := by
  obtain ⟨span, hstatement⟩ := Line.statement_config hconfig (some 1)
  have hnonempty : config ≠ "" := by
    rintro rfl
    cases hconfig
  -- the first line makes the machine that the script starts from
  have hstep : Machine.InStep ⟨(Context.ofBase none).setBase base, .empty⟩ base fun _ => none :=
    ⟨rfl, fun _ _ h => nomatch h⟩
  obtain ⟨ns, machine, hrun, hlines', hrows⟩ := hscript.runLines_eq 2 hstep hexact
  refine ⟨ns, hrun, ?_⟩
  have hlist : Program.runLines (Program.numberLines 1 (config :: lines))
      ⟨Context.ofBase none, .empty⟩ = (.ok (), machine) := by
    simp only [Program.numberLines, if_neg hnonempty, Program.runLines, Line.run, hstatement,
      Statement.run]
    exact hlines'
  have houtput : machine.output = ⟨(integerRows base ns).toArray⟩ := by
    have hrows' : machine.output.rows.toList = integerRows base ns := hrows
    rw [← hrows', Array.toArray_toList]
  simp only [Calculator.run, Program.run, Program.runOn, Program.ofSource,
    Program.splitLines_intercalate (List.cons_ne_nil config lines) hlines, hlist, houtput]

/-- A negative difference that is stored, and a product that is computed as negative zero. -/
theorem Calculator.run_integer_script_negative_zero :
    let lines := ["x = 5 - 12", "", "print ( x + 7 ) * -3 ", "print x * 9007"]
    let difference : Term := .binary .subtract (.literal "5") (.literal "12")
    let product : Term :=
      .binary .multiply (.binary .add (.var "x") (.literal "7")) (.literal "-3")
    let multiple : Term := .binary .multiply (.var "x") (.literal "9007")
    let commands : List Command := [.assign "x" difference, .print product, .print multiple]
    Script lines commands ∧ Command.Exact (fun _ => none) commands ∧
      Calculator.run {} ("\n".intercalate (" config hex" :: lines)) =
        (.ok (), { output := ⟨#[["0"], ["-f649"]]⟩ }) := by
  intro lines difference product multiple commands
  have hconfig : words " config hex" = ["config", Base.hexadecimal.keyword] := by cbv
  have hassign : words "x = 5 - 12" = ["x", "=", "5", "-", "12"] := by cbv
  have hblank : words "" = [] := by cbv
  have hproduct : words "print ( x + 7 ) * -3 " = ["print", "(", "x", "+", "7", ")", "*", "-3"] := by
    cbv
  have hmultiple : words "print x * 9007" = ["print", "x", "*", "9007"] := by cbv
  have hscript : Script lines commands := by
    refine .command ?_ (.blank hblank (.command ?_ (.command ?_ .nil)))
    · rw [hassign]
      refine .assign (by decide) (by decide) ?_
      exact @Term.Spells.join ["5"] ["12"] .subtract _ _ (.single (.single (.literal (by decide))))
        (.single (.literal (by decide)))
    · rw [hproduct]
      refine .print (.single ?_)
      exact @Term.Spells.join ["(", "x", "+", "7", ")"] ["-3"] .multiply _ _
        (.single (.paren (@Term.Spells.join ["x"] ["7"] .add _ _ (.single (.single (.var (by decide))))
          (.single (.literal (by decide)))))) (.literal (by decide))
    · rw [hmultiple]
      refine .print (.single ?_)
      exact @Term.Spells.join ["x"] ["9007"] .multiply _ _ (.single (.var (by decide)))
        (.literal (by decide))
  have hvalues : integerValue "5" = 5 ∧ integerValue "12" = 12 ∧ integerValue "7" = 7 ∧
      integerValue "-3" = -3 ∧ integerValue "9007" = 9007 := by decide
  obtain ⟨h5, h12, h7, h3, h9007⟩ := hvalues
  have hdifference : difference.value (fun _ => none) = some (-7) := by
    simp [difference, Term.value, ArithOp.onInt?, h5, h12]
  have hexact : Command.Exact (fun _ => none) commands := by
    refine ⟨⟨?_, ?_⟩, fun n hn => ?_⟩
    · simp [Command.term, difference, Term.subterms, Term.value, ArithOp.onInt?, h5, h12]
    · simp [Command.term, difference, Term.subterms]
    · obtain rfl : -7 = n := Option.some.inj (hdifference.symm.trans hn)
      refine ⟨⟨?_, ?_⟩, fun _ _ => ⟨⟨?_, ?_⟩, fun _ _ => trivial⟩⟩
      all_goals simp [Command.term, Command.after, product, multiple, Term.subterms, Term.value,
        ArithOp.onInt?, h7, h3, h9007]
  obtain ⟨ns, hns, hrun⟩ := Calculator.run_integer_script .hexadecimal _ _ commands hconfig hscript
    (by decide) hexact
  have hprinted : Command.run (fun _ => none) commands = some [0, -63049] := by
    simp [commands, difference, product, multiple, Command.run, Command.term, Command.after,
      Command.printed, Term.value, ArithOp.onInt?, h5, h12, h7, h3, h9007]
  obtain rfl : ns = [0, -63049] := Option.some.inj (hns.symm.trans hprinted)
  have hrows : integerRows .hexadecimal [0, -63049] = [["0"], ["-f649"]] := by cbv
  rw [hrows] at hrun
  exact ⟨hscript, hexact, hrun⟩

end LineCalc
