/-
The rows of a run. Every row is one numeral, so that what a terminal shows of a run is made up of
the characters of numerals and newlines, and cannot be taken for a report.
-/
import LineCalc.Proofs.Calculator.Requests
import LineCalc.Proofs.Line.Effects
import LineCalc.Proofs.Numeral.Shape
import LineCalc.Text.Bold

namespace LineCalc

/-! ## Rows -/

/-- Every row is one numeral. -/
def Output.Numeric (output : Output) : Prop :=
  ∀ row ∈ output.rows, ∃ (x : Binary64) (base : Base), row = [x.numeral base]

theorem Line.numeric_run (line : Line) {machine : Machine} (h : machine.output.Numeric) :
    (line.run machine).2.output.Numeric := by
  rcases line.run_cases machine with ⟨report, hrun, -⟩ | ⟨printed, after, effect, hrun, hdoes⟩
  · rw [hrun]
    exact h
  rw [hrun]
  cases hdoes with
  | setBase _ _ _ houtput => exact houtput ▸ h
  | assign _ _ _ _ _ houtput => exact houtput ▸ h
  | @print _ _ x base _ _ _ _ hrows =>
    intro row hrow
    rw [hrows, Array.mem_push] at hrow
    rcases hrow with hrow | rfl
    · exact h row hrow
    · exact ⟨x, base, rfl⟩
  | none _ hafter => exact hafter ▸ h

theorem Program.numeric_runLines (lines : List Line) {machine : Machine}
    (h : machine.output.Numeric) : (runLines lines machine).2.output.Numeric := by
  induction lines generalizing machine with
  | nil => exact h
  | cons line lines ih =>
    have hnext := line.numeric_run h
    unfold runLines
    split
    · rename_i printed next hrun
      rw [hrun] at hnext
      exact ih hnext
    · rename_i report next hrun
      rw [hrun] at hnext
      exact hnext

theorem Calculator.numeric_alone (base : Option Base) (source : String) :
    (alone base source).2.Numeric := by
  have hempty : Output.empty.Numeric := by simp [Output.Numeric]
  exact Program.numeric_runLines (Program.ofSource source).lines hempty

/-! ## Characters -/

theorem mem_or_exists_of_mem_intercalate {separator : String} {parts : List String} {c : Char}
    (h : c ∈ (separator.intercalate parts).toList) :
    c ∈ separator.toList ∨ ∃ part ∈ parts, c ∈ part.toList := by
  induction parts with
  | nil => cases h
  | cons part parts ih =>
    cases parts with
    | nil => exact .inr ⟨part, List.mem_singleton_self _, by simpa using h⟩
    | cons next parts =>
      simp only [String.intercalate_cons_cons, String.toList_append, List.mem_append] at h
      rcases h with (h | h) | h
      · exact .inr ⟨part, List.mem_cons_self, h⟩
      · exact .inl h
      · exact (ih h).imp_right fun ⟨part', hpart', hc⟩ =>
          ⟨part', List.mem_cons_of_mem _ hpart', hc⟩

/-- What a terminal shows of numerals are their characters and newlines. -/
theorem Output.Numeric.mem_display {output : Output} (h : output.Numeric) {c : Char}
    (hc : c ∈ output.display.toList) : c = '\n' ∨ c ∈ Numeral.numeralChars := by
  unfold display at hc
  split at hc
  · cases hc
  rw [String.toList_append, List.mem_append] at hc
  rcases hc with hc | hc
  · rcases mem_or_exists_of_mem_intercalate hc with hc | ⟨line, hline, hc⟩
    · exact .inl (List.mem_singleton.1 hc)
    · obtain ⟨row, hrow, rfl⟩ := List.mem_map.1 hline
      obtain ⟨x, base, rfl⟩ := h row (Array.mem_toList_iff.1 hrow)
      exact .inr ((x.shape_numeral base).mem_numeralChars hc)
  · exact .inl (List.mem_singleton.1 hc)

/-- The rows of a run are not shown in bold. -/
theorem Output.Numeric.display_ne_boldLine {output : Output} (h : output.Numeric) (text : String) :
    output.display ≠ boldLine text := by
  intro heq
  have hescape : '\x1b' ∈ output.display.toList := by
    rw [heq]
    simp [boldLine]
  exact absurd (h.mem_display hescape) (by decide)

end LineCalc
