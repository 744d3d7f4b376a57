/-
What a run prints, and what is shown of it. The rows of a run are those of the print lines that it
carries out, in order, whether or not a line fails later. Each row is one numeral, and no numeral
has a newline in it; so the text of the output gives the rows back when it is cut at its newlines,
and a script writes each row with a newline after it.
-/
import LineCalc.Proofs.Dialogue.Script

namespace LineCalc

open Computability

/-! ## The pattern of numerals -/

def hexDigitPattern : Language Char := digitPattern + charRange 'a' 'f'

/-- The pattern `NaN|-?Infinity|-?[0-9a-f]+(\.[0-9a-f]+)?(e[+-][0-9]+)?`. -/
def numeralPattern : Language Char :=
  {"NaN".toList} + (1 + {['-']}) * {"Infinity".toList} +
    (1 + {['-']}) * (hexDigitPattern * hexDigitPattern∗) *
      (1 + {['.']} * (hexDigitPattern * hexDigitPattern∗)) *
      (1 + {['e']} * ({['+']} + {['-']}) * (digitPattern * digitPattern∗))

namespace Numeral

theorem mem_hexDigits {cs : List Char} (hne : cs ≠ []) (h : ∀ c ∈ cs, c ∈ digitChars) :
    cs ∈ hexDigitPattern * hexDigitPattern∗ := by
  have hclass : IsClass (fun c => c.isDigit || decide ('a' ≤ c ∧ c ≤ 'f')) hexDigitPattern :=
    isClass_digitPattern.add (isClass_charRange fun _ => decide_eq_true_iff)
  have hall : digitChars.all (fun c => c.isDigit || decide ('a' ≤ c ∧ c ≤ 'f')) = true := by decide
  rw [hclass.mem_plus_iff]
  exact ⟨hne, fun c hc => List.all_eq_true.1 hall c (h c hc)⟩

theorem spell_mem {negative : Bool} {whole fraction : List Char} (hne : whole ≠ [])
    (h : ∀ c ∈ whole ++ fraction, c ∈ digitChars) : spell negative whole fraction ∈
      (1 + {['-']}) * (hexDigitPattern * hexDigitPattern∗) *
        (1 + {['.']} * (hexDigitPattern * hexDigitPattern∗)) := by
  have hwhole : whole ∈ hexDigitPattern * hexDigitPattern∗ :=
    mem_hexDigits hne fun c hc => h c (List.mem_append_left _ hc)
  refine Language.append_mem_mul (Language.append_mem_mul (sign_mem negative) hwhole) ?_
  split
  · exact .inl rfl
  · rename_i hfraction
    exact .inr (Language.append_mem_mul (a := ['.']) rfl
      (mem_hexDigits hfraction fun c hc => h c (List.mem_append_right _ hc)))

theorem Shape.mem_numeralPattern {text : List Char} (h : Shape text) : text ∈ numeralPattern := by
  cases h with
  | nan => exact .inl (.inl rfl)
  | infinity negative =>
    refine .inl (.inr ?_)
    cases negative
    · exact Language.append_mem_mul (a := []) (.inl rfl) rfl
    · exact Language.append_mem_mul (a := ['-']) (.inr rfl) rfl
  | @plain negative whole fraction hne hdigits =>
    refine .inr ?_
    rw [← List.append_nil (spell _ _ _)]
    exact Language.append_mem_mul (spell_mem hne hdigits) (.inl rfl)
  | @scientific negative whole fraction power sign hne hdigits hsign hpower hpowers =>
    have hmark : 'e' :: sign :: power ∈
        {['e']} * ({['+']} + {['-']}) * (digitPattern * digitPattern∗) := by
      have hdigit : power ∈ digitPattern * digitPattern∗ :=
        (mem_digits_iff power).2 ⟨hpower, fun c hc => isDigit_of_mem (hpowers c hc)⟩
      refine Language.append_mem_mul (a := ['e', sign]) ?_ hdigit
      refine Language.append_mem_mul (a := ['e']) (b := [sign]) rfl ?_
      rcases List.mem_pair.1 hsign with rfl | rfl
      · exact .inl rfl
      · exact .inr rfl
    exact .inr (Language.append_mem_mul (spell_mem hne hdigits) (.inr hmark))

end Numeral

/-! ## Lines that are carried out -/

/-- Whether the line is read as one that prints. -/
def Line.isPrint (line : Line) : Bool :=
  match line.statement with
  | .ok (.print _ _) => true
  | _ => false

/-- The row of a print line that is carried out on a machine: one fragment, the numeral of its value
in the base in effect. -/
def Line.PrintsRow (line : Line) (machine : Machine) (row : List String) : Prop :=
  ∃ span value x base, line.statement = .ok (.print span value) ∧
    value.eval machine.context = .ok x ∧ machine.context.base = some base ∧ row = [x.numeral base]

/-- What a line that does not fail adds to the output. -/
theorem Line.rows_of_run_eq_ok {line : Line} {machine next : Machine} {printed : Option String}
    (h : line.run machine = (.ok printed, next)) :
    if line.isPrint then ∃ row, line.PrintsRow machine row ∧
      next.output.rows.toList = machine.output.rows.toList ++ [row]
    else next.output.rows.toList = machine.output.rows.toList := by
  rcases line.run_cases machine with ⟨report, hrun, -⟩ | ⟨printed, after, effect, hrun, hdoes⟩
  · cases h.symm.trans hrun
  · cases h.symm.trans hrun
    cases hdoes with
    | setBase hstatement _ _ houtput => simp [isPrint, hstatement, houtput]
    | assign hstatement _ _ _ _ houtput => simp [isPrint, hstatement, houtput]
    | print hstatement heval hbase _ hrows =>
      rw [isPrint, hstatement, if_pos rfl]
      exact ⟨_, ⟨_, _, _, _, hstatement, heval, hbase, rfl⟩, by simp [hrows]⟩
    | none hnothing hafter =>
      have hstatement : line.statement = .ok .empty := hnothing.elim statement_of_isBlank id
      simp [isPrint, hstatement, hafter]

namespace Program

/-- The lines that a run carries out without a fault, each with the machine that it finds. -/
def carriedOut : List Line → Machine → List (Line × Machine)
  | [], _ => []
  | line :: lines, machine =>
    match line.run machine with
    | (.ok _, next) => (line, machine) :: carriedOut lines next
    | (.error _, _) => []

/-- All lines up to the one that fails are carried out. -/
theorem carriedOut_lines (lines : List Line) (machine : Machine) :
    match (runLines lines machine).1 with
    | .ok () => (carriedOut lines machine).map Prod.fst = lines
    | .error report => ∃ line rest, report.line = line.number ∧
        lines = (carriedOut lines machine).map Prod.fst ++ line :: rest := by
  induction lines generalizing machine with
  | nil => rfl
  | cons line lines ih =>
    unfold runLines carriedOut
    rcases line.run machine with ⟨report | printed, next⟩
    · exact ⟨line, lines, rfl, rfl⟩
    · have hrest := ih next
      dsimp only
      cases hresult : (runLines lines next).1 with
      | ok _ =>
        rw [hresult] at hrest
        rw [List.map_cons, hrest]
      | error report =>
        rw [hresult] at hrest
        obtain ⟨failing, rest, hline, hlines⟩ := hrest
        refine ⟨failing, rest, hline, ?_⟩
        rw [List.map_cons, List.cons_append, ← hlines]

/-- A run adds one row for each print line that it carries out. -/
theorem exists_rows_runLines (lines : List Line) (machine : Machine) :
    ∃ rows, (runLines lines machine).2.output.rows.toList =
        machine.output.rows.toList ++ rows ∧
      List.Forall₂ (fun step row => step.1.PrintsRow step.2 row)
        ((carriedOut lines machine).filter (·.1.isPrint)) rows := by
  induction lines generalizing machine with
  | nil => exact ⟨[], by simp [runLines], .nil⟩
  | cons line lines ih =>
    unfold runLines carriedOut
    rcases hrun : line.run machine with ⟨report | printed, next⟩
    · obtain rfl := Line.eq_of_run_eq_error hrun
      exact ⟨[], by simp, .nil⟩
    · obtain ⟨rows, hrows, hprints⟩ := ih next
      have hadds := Line.rows_of_run_eq_ok hrun
      dsimp only
      split at hadds
      · rename_i hprint
        obtain ⟨row, hrow, hnext⟩ := hadds
        refine ⟨row :: rows, ?_, ?_⟩
        · rw [hrows, hnext, List.append_assoc, List.singleton_append]
        · rw [List.filter_cons_of_pos (by exact hprint)]
          exact .cons hrow hprints
      · rename_i hprint
        refine ⟨rows, ?_, ?_⟩
        · rw [hrows, hadds]
        · rw [List.filter_cons_of_neg (by exact hprint)]
          exact hprints

end Program

/-! ## The text of the output -/

namespace Output

theorem intercalate_append_newline {lines : List String} (hne : lines ≠ []) :
    "\n".intercalate lines ++ "\n" = String.join (lines.map (· ++ "\n")) := by
  induction lines with
  | nil => exact absurd rfl hne
  | cons line lines ih =>
    cases lines with
    | nil => simp
    | cons next lines =>
      rw [String.intercalate_cons_cons, List.map_cons, String.join_cons,
        ← ih (List.cons_ne_nil _ _)]
      simp only [String.append_assoc]

/-- What a terminal shows is each row with a newline after it. -/
theorem display_eq_join (output : Output) :
    output.display = String.join (output.lines.map (· ++ "\n")) := by
  rw [display_eq]
  split
  · rename_i hnil
    rw [hnil]
    rfl
  · rename_i hne
    exact intercalate_append_newline hne

namespace Numeric

variable {output : Output} (h : output.Numeric)

include h

theorem exists_mem_numeralPattern {row : List String} (hrow : row ∈ output.rows) :
    ∃ text : String, row = [text] ∧ text.toList ∈ numeralPattern := by
  obtain ⟨x, base, rfl⟩ := h row hrow
  exact ⟨_, rfl, (x.shape_numeral base).mem_numeralPattern⟩

theorem newline_notMem {line : String} (hline : line ∈ output.lines) : '\n' ∉ line.toList := by
  obtain ⟨row, hrow, rfl⟩ := List.mem_map.1 hline
  obtain ⟨x, base, rfl⟩ := h row (Array.mem_toList_iff.1 hrow)
  rw [String.intercalate_singleton]
  intro hnewline
  exact absurd ((x.shape_numeral base).mem_numeralChars hnewline) (by decide)

/-- The text of numerals gives them back. -/
theorem splitLines_text (hne : output.rows ≠ #[]) :
    Program.splitLines output.text = output.lines := by
  refine Program.splitLines_intercalate ?_ fun line => h.newline_notMem
  simpa [lines] using hne

end Numeric

end Output

namespace Calculator

/-- Output gives back what was printed. A run on a new calculator carries out its lines up to the
first that fails, and adds a row for each print line among them, in order: one fragment that has the
pattern of numerals. So the text of the output, cut at its newlines, is the rows, and a script that
is run from a file writes each row and a newline, and nothing else, to its first stream, whether it
fails or not and whatever log it has. -/
theorem run_printed (base : Option Base) (source path : String) (log : Log) :
    let lines := (Program.ofSource source).lines
    let steps := Program.carriedOut lines ⟨.ofBase base, .empty⟩
    let run := ({ defaultBase := base } : Calculator).run source
    let output := run.2.output
    (match run.1 with
      | .ok () => steps.map Prod.fst = lines
      | .error report => ∃ line rest, report.line = line.number ∧
          lines = steps.map Prod.fst ++ line :: rest) ∧
    List.Forall₂ (fun step row => step.1.PrintsRow step.2 row)
      (steps.filter (·.1.isPrint)) output.rows.toList ∧
    (∀ row ∈ output.rows, ∃ text : String, row = [text] ∧ text.toList ∈ numeralPattern) ∧
    (output.rows ≠ #[] → Program.splitLines output.text = output.lines) ∧
    ∃ calculator,
      (CommandLine.Request.start { file := some path, base := base.map Base.keyword }).job =
        .script path calculator ∧
      (CommandLine.runScript path calculator (.ok source.toUTF8) log).stdout =
        String.join (output.lines.map (· ++ "\n")) := by
  intro lines steps run output
  have hnumeric : output.Numeric := numeric_alone base source
  obtain ⟨rows, hrows, hprints⟩ := Program.exists_rows_runLines lines ⟨.ofBase base, .empty⟩
  refine ⟨Program.carriedOut_lines lines ⟨.ofBase base, .empty⟩, ?_,
    fun row => hnumeric.exists_mem_numeralPattern, hnumeric.splitLines_text,
    { defaultBase := base }, CommandLine.job_start (some path) base, ?_⟩
  · obtain rfl : output.rows.toList = rows := hrows
    exact hprints
  · have halone : alone base source = (run.1, output) := rfl
    rw [CommandLine.runScript_eq_alone, halone, ← output.display_eq_join]
    generalize run.1 = result
    clear_value output
    cases result with
    | ok _ => rfl
    | error report => rfl

/-- Three print lines are carried out before the script fails. -/
theorem run_printed_before_failure :
    let source := "print 1 / 0\n\nconfig hex\nx = -255 / 2\nprint x\nprint 0\nprint y\nprint 1"
    ((run { defaultBase := some .decimal } source).1 ≠ .ok () ∧
      (run { defaultBase := some .decimal } source).2.output.rows =
        #[["Infinity"], ["-7f.8"], ["0"]]) ∧
    Program.splitLines (run { defaultBase := some .decimal } source).2.output.text =
      ["Infinity", "-7f.8", "0"] ∧
    (CommandLine.runScript "script" { defaultBase := some .decimal } (.ok source.toUTF8)).stdout =
      "Infinity\n-7f.8\n0\n" := by
  intro source
  have hfails : (run { defaultBase := some .decimal } source).1 ≠ .ok () := by decide +kernel
  have hrows : (run { defaultBase := some .decimal } source).2.output.rows =
      #[["Infinity"], ["-7f.8"], ["0"]] := by decide +kernel
  have hlines : (run { defaultBase := some .decimal } source).2.output.lines =
      ["Infinity", "-7f.8", "0"] := by
    rw [Output.lines, hrows]
    rfl
  obtain ⟨-, -, -, hsplit, _, hjob, hstdout⟩ := run_printed (some .decimal) source "script" .off
  obtain rfl := (CommandLine.Job.script.inj hjob).2
  refine ⟨⟨hfails, hrows⟩, (hsplit (by simp [hrows])).trans hlines, ?_⟩
  rw [hstdout, hlines]
  rfl

end Calculator

end LineCalc
