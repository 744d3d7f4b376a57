/-
Where a program fails. The report of a failing run names the line that failed: the lines before it,
carried out one by one, succeed, and that line then fails with the same report, but for the number,
which is not known to it.
-/
import LineCalc.Proofs.Line.Columns
import LineCalc.Proofs.Line.Effects
import LineCalc.Proofs.Program.Sequence

namespace LineCalc

/-- A line that fails leaves the machine, and fails in the same way without its number. -/
theorem Line.run_eq_error_unnumbered {text : String} {number : Option Nat} {machine after : Machine}
    {report : Report} (h : (ofString text number).run machine = (.error report, after)) :
    after = machine ∧
      (ofString text none).run machine = (.error { report with line := none }, machine) := by
  have hmachine : after = machine := eq_of_run_eq_error h
  obtain ⟨fault, hfault⟩ := exists_fault_of_run_eq_error h
  have hreport : { report with line := none } = report := by
    rw [hfault]
    rfl
  subst hmachine
  rw [hreport]
  exact ⟨rfl, h⟩

namespace Program

/-- The texts, carried out as lines one after another, all succeed, and lead from one machine to
another. -/
inductive Passes : List String → Machine → Machine → Prop where
  | nil {machine : Machine} : Passes [] machine machine
  | cons {text : String} {texts : List String} {machine next last : Machine}
      {printed : Option String} : (Line.ofString text none).run machine = (.ok printed, next) →
      Passes texts next last → Passes (text :: texts) machine last

/-- The first line that fails is the one that the report names. -/
theorem exists_failing_line {first : Nat} {texts : List String} {machine after : Machine}
    {report : Report} (h : runLines (numberLines first texts) machine = (.error report, after)) :
    ∃ before text rest, texts = before ++ text :: rest ∧
      report.line = some (first + before.length) ∧ Passes before machine after ∧
      (Line.ofString text none).run after = (.error { report with line := none }, after) := by
  induction texts generalizing first machine with
  | nil => cases h
  | cons text texts ih =>
    rw [runLines_numberLines_cons] at h
    split at h
    · rename_i printed next hrun
      obtain ⟨before, text', rest, rfl, hline, hpasses, hfails⟩ := ih h
      refine ⟨text :: before, text', rest, rfl, ?_, .cons hrun hpasses, hfails⟩
      rw [hline, List.length_cons, Nat.add_right_comm, Nat.add_assoc]
    · rename_i report' next hrun
      cases h
      obtain ⟨rfl, hrun⟩ := Line.run_eq_error_unnumbered hrun
      exact ⟨[], text, texts, rfl, rfl, .nil, hrun⟩

/-- Lines without newlines in them can be run as they are or as the source that they make up. -/
theorem runLines_splitLines_intercalate {lines : List String}
    (h : ∀ line ∈ lines, '\n' ∉ line.toList) (first : Nat) (machine : Machine) :
    runLines (numberLines first (splitLines ("\n".intercalate lines))) machine =
      runLines (numberLines first lines) machine := by
  by_cases hne : lines = []
  · rw [hne]
    rfl
  · rw [splitLines_intercalate hne h]

end Program

end LineCalc
