/-
What a line does to a machine. A line that fails leaves the machine as it was, whatever it failed
at; any other line has just one effect, and what the effect does not name stays as it was.
-/
import LineCalc.Machine
import Mathlib.Logic.ExistsUnique

namespace LineCalc.Line

/-! ## Faults and effects -/

/-- Why a line fails in a context: it cannot be read, its value cannot be computed, or there is no
base to print in. -/
inductive Fails (line : Line) (context : Context) : Report → Prop where
  | unread {report : Report} : line.statement = .error report → Fails line context report
  | assign {span : Span} {name : String} {value : Expr} {report : Report} :
      line.statement = .ok (.assign span name value) → value.eval context = .error report →
      Fails line context report
  | print {span : Span} {value : Expr} {report : Report} :
      line.statement = .ok (.print span value) → value.eval context = .error report →
      Fails line context report
  | unconfigured {span : Span} {value : Expr} {x : Binary64} :
      line.statement = .ok (.print span value) → value.eval context = .ok x →
      context.base = none → Fails line context (Fault.unconfigured.reportAt span)

inductive Effect where
  | setBase
  | assign
  | print
  | none
deriving DecidableEq

/-- The line has the effect on the machine `before`, which it leaves as `after`, and no other. -/
inductive Does (line : Line) (before : Machine) (printed : Option String) (after : Machine) :
    Effect → Prop where
  | setBase {span : Span} {base : Base} : line.statement = .ok (.config span base) →
      after.context.base = some base →
      (∀ name, after.context.fetch name = before.context.fetch name) →
      after.output = before.output → printed = none → Does line before printed after .setBase
  | assign {span : Span} {name : String} {value : Expr} {x : Binary64} :
      line.statement = .ok (.assign span name value) → value.eval before.context = .ok x →
      after.context.fetch name = some x →
      (∀ other, other ≠ name → after.context.fetch other = before.context.fetch other) →
      after.context.base = before.context.base → after.output = before.output → printed = none →
      Does line before printed after .assign
  | print {span : Span} {value : Expr} {x : Binary64} {base : Base} :
      line.statement = .ok (.print span value) → value.eval before.context = .ok x →
      before.context.base = some base → after.context = before.context →
      after.output.rows = before.output.rows.push [x.numeral base] →
      printed = some (x.numeral base) → Does line before printed after .print
  | none : line.isBlank = true ∨ line.statement = .ok .empty → after = before → printed = none →
      Does line before printed after .none

/-! ## Running a line -/

/-- The effect that a statement has, if it does not fail. -/
def effectOf : Statement → Effect
  | .empty => .none
  | .config _ _ => .setBase
  | .assign _ _ _ => .assign
  | .print _ _ => .print

theorem Does.effectOf_eq {line : Line} {before after : Machine} {printed : Option String}
    {effect : Effect} (h : line.Does before printed after effect) :
    ∃ statement, line.statement = .ok statement ∧ effectOf statement = effect := by
  cases h with
  | setBase hstatement => exact ⟨_, hstatement, rfl⟩
  | assign hstatement => exact ⟨_, hstatement, rfl⟩
  | print hstatement => exact ⟨_, hstatement, rfl⟩
  | none hnothing =>
    rcases hnothing with hblank | hstatement
    · exact ⟨_, statement_of_isBlank hblank, rfl⟩
    · exact ⟨_, hstatement, rfl⟩

/-- A line has no two effects. -/
theorem Does.unique {line : Line} {before after : Machine} {printed : Option String}
    {effect effect' : Effect} (h : line.Does before printed after effect)
    (h' : line.Does before printed after effect') : effect = effect' := by
  obtain ⟨statement, hstatement, rfl⟩ := h.effectOf_eq
  obtain ⟨statement', hstatement', rfl⟩ := h'.effectOf_eq
  obtain rfl : statement = statement' := Except.ok.inj (hstatement.symm.trans hstatement')
  rfl

/-- A run of a line fails and changes nothing, or has an effect. -/
theorem run_cases (line : Line) (before : Machine) :
    (∃ report, line.run before = (.error report, before) ∧ line.Fails before.context report) ∨
      ∃ printed after effect, line.run before = (.ok printed, after) ∧
        line.Does before printed after effect := by
  unfold run
  cases hstatement : line.statement with
  | error report => exact .inl ⟨report, rfl, .unread hstatement⟩
  | ok statement =>
    simp only
    cases statement with
    | empty => exact .inr ⟨_, _, _, rfl, .none (.inr hstatement) rfl rfl⟩
    | config span base =>
      exact .inr ⟨_, _, _, rfl, .setBase hstatement rfl (fun _ => rfl) rfl rfl⟩
    | assign span name value =>
      simp only [Statement.run]
      cases heval : value.eval before.context with
      | error report => exact .inl ⟨report, rfl, .assign hstatement heval⟩
      | ok x =>
        refine .inr ⟨_, _, _, rfl, .assign hstatement heval ?_ ?_ rfl rfl rfl⟩
        · simp
        · intro other hother
          simp [Ne.symm hother]
    | print span value =>
      simp only [Statement.run]
      cases heval : value.eval before.context with
      | error report => exact .inl ⟨report, rfl, .print hstatement heval⟩
      | ok x =>
        cases hbase : before.context.base with
        | none => exact .inl ⟨_, rfl, .unconfigured hstatement heval hbase⟩
        | some base => exact .inr ⟨_, _, _, rfl, .print hstatement heval hbase rfl rfl rfl⟩

/-- A line that fails leaves the machine as it was. -/
theorem eq_of_run_eq_error {line : Line} {machine after : Machine} {report : Report}
    (h : line.run machine = (.error report, after)) : after = machine := by
  rcases line.run_cases machine with ⟨report', hrun, -⟩ | ⟨_, _, _, hrun, -⟩
  · exact (Prod.mk.inj (h.symm.trans hrun)).2
  · cases h.symm.trans hrun

/-- Lines are atomic: a line that fails leaves the machine as it was, and a line that does not has
just one effect, which leaves all else as it was. -/
theorem run_atomic (line : Line) (before : Machine) :
    match line.run before with
    | (.error report, after) => line.Fails before.context report ∧ after = before
    | (.ok printed, after) => ∃! effect, line.Does before printed after effect := by
  rcases run_cases line before with ⟨report, hrun, hfails⟩ | ⟨printed, after, effect, hrun, hdoes⟩
  · rw [hrun]
    exact ⟨hfails, rfl⟩
  · rw [hrun]
    exact ⟨effect, hdoes, fun effect' hdoes' => hdoes'.unique hdoes⟩

end LineCalc.Line
