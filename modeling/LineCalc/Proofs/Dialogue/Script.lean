/-
Scripts and dialogues agree. A script that is typed in line by line and then run is shown as when it
is run from a file: the same rows, and the same report if it fails, which is when the exit code
says so. Before the report comes what the log writes, which is nothing when it is off.
-/
import LineCalc.CommandLine
import LineCalc.Proofs.Dialogue.Trace
import LineCalc.Proofs.Program.Rows
import LineCalc.Proofs.Program.Sequence

namespace LineCalc

/-! ## Logs -/

namespace Log

/-- The log keeps nothing. -/
def IsOff (log : Log) : Prop := ∀ event, log.keeps event = false

/-- The log keeps warnings, as it does unless it is told otherwise. -/
def KeepsWarnings (log : Log) : Prop := ∀ event, log.keeps event = true ↔ event.level = .warning

theorem IsOff.text_eq {log : Log} (h : log.IsOff) (events : List Event) : log.text events = "" := by
  have hnone : events.filter log.keeps = [] := by simpa using fun event _ => h event
  rw [text, hnone]
  rfl

end Log

/-- The lines of a run give no warning. -/
theorem Program.level_of_mem_logEvents {lines : List Line} {machine : Machine} {event : Log.Event}
    (h : event ∈ logEvents lines machine) : event.level = .debug := by
  induction lines generalizing machine with
  | nil => cases h
  | cons line lines ih =>
    rcases List.mem_append.1 h with h | h
    · unfold Line.logEvents at h
      split at h
      · rcases List.mem_pair.1 h with rfl | rfl
        · rfl
        · rfl
      · obtain rfl := List.mem_singleton.1 h
        rfl
    · split at h
      · exact ih h
      · cases h

/-- A run gives one warning if it fails, and none if it does not. -/
theorem Log.KeepsWarnings.text_logEvents {log : Log} (h : log.KeepsWarnings)
    (calculator : Calculator) (source : String) :
    log.text (calculator.logEvents source) = match (calculator.run source).1 with
      | .ok () => ""
      | .error report => log.entry 0 (.aborted report) := by
  have hother (event : Event) (hlevel : event.level ≠ .warning) : ¬ log.keeps event = true :=
    fun hkeeps => hlevel ((h event).1 hkeeps)
  have hstart (n : Nat) : ¬ log.keeps (.started n) = true := hother _ (by simp [Event.level])
  have hlines (lines : List Line) (machine : Machine) :
      (Program.logEvents lines machine).filter log.keeps = [] := by
    rw [List.filter_eq_nil_iff]
    intro event hevent
    apply hother
    rw [Program.level_of_mem_logEvents hevent]
    decide
  simp only [text, Calculator.logEvents]
  rw [List.cons_append, List.filter_cons_of_neg (hstart _), List.filter_append, hlines,
    List.nil_append]
  cases (calculator.run source).1 with
  | ok _ => rfl
  | error report =>
    rw [List.filter_cons_of_pos ((h _).2 rfl), List.filter_nil]
    simp

/-! ## Scripts -/

namespace CommandLine

theorem mapM_ofSetting_keyword (base : Option Base) :
    (base.map Base.keyword).mapM Base.ofSetting = .ok base := by
  cases base with
  | none => rfl
  | some base => simp [Base.ofSetting]

/-- A setting that names a base is taken up by scripts and dialogues alike. -/
theorem job_start (file : Option String) (base : Option Base) :
    (Request.start { file, base := base.map Base.keyword }).job =
      file.elim (.converse { defaultBase := base }) (.script · { defaultBase := base }) := by
  simp only [Request.job, mapM_ofSetting_keyword]
  cases file with
  | none => rfl
  | some path => rfl

theorem decodeScript_toUTF8 (source : String) : decodeScript source.toUTF8 = .ok source := by
  unfold decodeScript String.fromUTF8?
  rw [String.toUTF8_eq_toByteArray, dif_pos source.isValidUTF8]
  rfl

/-- A script that can be read is run on a new calculator. -/
theorem runScript_eq_alone (path : String) (base : Option Base) (source : String) (log : Log) :
    runScript path { defaultBase := base } (.ok source.toUTF8) log =
      let logged := log.text (Calculator.logEvents { defaultBase := base } source)
      match Calculator.alone base source with
      | (.ok (), output) => { code := 0, stdout := output.display, stderr := logged }
      | (.error report, output) =>
        { code := 1, stdout := output.display, stderr := logged ++ boldLine report.text } := by
  simp only [runScript, Except.bind, decodeScript_toUTF8, Calculator.alone]
  rcases Calculator.run { defaultBase := base } source with ⟨report | _, calculator⟩
  · rfl
  · rfl

end CommandLine

namespace Dialogue

/-! ## Lines that give no command -/

section

variable {inputs : List String} (h : ∀ input ∈ inputs, ∀ word ∈ commandWords, ¬ Gives input word)

include h

theorem typed_eq_self : typed inputs = inputs := by
  have htake : inputs.rtakeWhile (fun input => ¬ Gives input "NEW") = inputs := by
    rw [List.rtakeWhile_eq_self_iff]
    intro input hinput
    simpa using h input hinput "NEW" (by decide)
  unfold typed
  rw [htake, List.filter_eq_self]
  intro input hinput
  simpa using h input hinput

theorem texts_eq_ready (base : Option Base) :
    (events { defaultBase := base } inputs).filterMap Event.text? = ["READY.\n"] := by
  induction inputs using List.reverseRecOn with
  | nil => rfl
  | append_singleton inputs input ih =>
    have hinput : ∀ word ∈ commandWords, ¬ Gives input word := h input (by simp)
    have hinputs : ∀ input ∈ inputs, ∀ word ∈ commandWords, ¬ Gives input word :=
      fun input hmem => h input (List.mem_append_left _ hmem)
    rw [events_append_singleton, List.filterMap_append, ih hinputs,
      filterMap_text?_remembered_append, answerTexts, if_neg (hinput "RUN" (by decide)),
      if_neg (hinput "LIST" (by decide)), List.append_nil]

theorem texts_append_run (base : Option Base) :
    (events { defaultBase := base } (inputs ++ ["RUN"])).filterMap Event.text? =
      "READY.\n" :: runTexts (Calculator.alone base ("\n".intercalate inputs)) := by
  have hrun : Gives "RUN" "RUN" := by decide +kernel
  rw [events_append_singleton, List.filterMap_append, texts_eq_ready h,
    filterMap_text?_remembered_append, answerTexts, if_pos hrun, typed_eq_self h,
    List.singleton_append]

end

/-! ## Streams -/

theorem escape_mem_boldLine (text : String) : '\x1b' ∈ (boldLine text).toList := by
  simp [boldLine]

theorem boldLine_ne_ready (text : String) : boldLine text ≠ "READY.\n" := fun heq =>
  absurd (heq ▸ escape_mem_boldLine text) (by decide)

/-- A run writes what a script writes to its streams, but for the log, as far as that is
anything. -/
theorem exists_runTexts_alone (path : String) (base : Option Base) (source : String) (log : Log) :
    let outcome := CommandLine.runScript path { defaultBase := base } (.ok source.toUTF8) log
    ∃ report,
      outcome.stderr = log.text (Calculator.logEvents { defaultBase := base } source) ++ report ∧
      runTexts (Calculator.alone base source) =
        [outcome.stdout, report].filter (· ≠ "") ++ ["READY.\n"] := by
  intro outcome
  have hpair (stdout report : String) : [stdout, report].filter (· ≠ "") =
      [stdout].filter (· ≠ "") ++ [report].filter (· ≠ "") :=
    List.filter_append [stdout] [report]
  have hstdout (output : Output) : [output.display].filter (· ≠ "") =
      if output.rows.isEmpty then [] else [output.display] := by
    unfold Output.display
    cases output.rows.isEmpty <;> simp
  have hbold (text : String) : [boldLine text].filter (· ≠ "") = [boldLine text] := by
    have hne : boldLine text ≠ "" := by
      intro hempty
      simpa [hempty] using escape_mem_boldLine text
    simp [hne]
  rw [show outcome = _ from CommandLine.runScript_eq_alone path base source log, runTexts_eq]
  rcases Calculator.alone base source with ⟨report | _, output⟩
  · refine ⟨boldLine report.text, rfl, ?_⟩
    rw [hpair, hstdout, hbold]
  · refine ⟨"", String.append_empty.symm, ?_⟩
    rw [hpair, hstdout]
    rfl

/-- A run shows something in bold just if it fails. -/
theorem exists_boldLine_mem_runTexts_iff {run : Except Report Unit × Output} (h : run.2.Numeric) :
    (∃ text, boldLine text ∈ runTexts run) ↔ ∃ report, run.1 = .error report := by
  constructor
  · rintro ⟨text, htext⟩
    rcases mem_runTexts_iff.1 htext with ⟨-, htext⟩ | ⟨report, hreport, -⟩ | htext
    · exact absurd htext.symm (h.display_ne_boldLine text)
    · exact ⟨report, hreport⟩
    · exact absurd htext (boldLine_ne_ready text)
  · rintro ⟨report, hreport⟩
    exact ⟨report.text, mem_runTexts_iff.2 (.inr (.inl ⟨report, hreport, rfl⟩))⟩

theorem code_runScript (path : String) (base : Option Base) (source : String) (log : Log) :
    let outcome := CommandLine.runScript path { defaultBase := base } (.ok source.toUTF8) log
    outcome.code = 0 ∧ (Calculator.alone base source).1 = .ok () ∨
      outcome.code = 1 ∧ ∃ report, (Calculator.alone base source).1 = .error report := by
  intro outcome
  rw [show outcome = _ from CommandLine.runScript_eq_alone path base source log]
  rcases Calculator.alone base source with ⟨report | _, output⟩
  · exact .inr ⟨rfl, report, rfl⟩
  · exact .inl ⟨rfl, rfl⟩

/-- A dialogue and a script agree. The lines of a source, none of them a command, are typed in, and
then `RUN`; or the source is run from a file, with the same base given or none, and any log. The
dialogue writes, from the first `READY.` to the last, what the script writes to its first stream and
then what it writes to the second after the log; this is the whole of the second if the log is off.
A log that keeps warnings writes one if the script fails, and else nothing. The exit code is zero if
the dialogue writes nothing in bold, and one if it does. -/
theorem typed_script_agrees {source : String}
    (hlines : ∀ line ∈ Program.splitLines source,
      (trimBlanks line).map Char.toUpper ∉ ["RUN", "CLEAR", "LIST", "NEW"])
    (base : Option Base) (path : String) (log : Log) :
    ∃ calculator,
      (CommandLine.Request.start { file := some path, base := base.map Base.keyword }).job =
        .script path calculator ∧
      (CommandLine.Request.start { base := base.map Base.keyword }).job = .converse calculator ∧
      let outcome := CommandLine.runScript path calculator (.ok source.toUTF8) log
      let logged := log.text (calculator.logEvents source)
      let written :=
        (events calculator (Program.splitLines source ++ ["RUN"])).filterMap Event.text?
      (∃ report, outcome.stderr = logged ++ report ∧
        written = "READY.\n" :: [outcome.stdout, report].filter (· ≠ "") ++ ["READY.\n"]) ∧
      (log.IsOff → written =
        "READY.\n" :: [outcome.stdout, outcome.stderr].filter (· ≠ "") ++ ["READY.\n"]) ∧
      (log.KeepsWarnings → logged = match (calculator.run source).1 with
        | .ok () => ""
        | .error report => log.entry 0 (.aborted report)) ∧
      (outcome.code = 0 ↔ ∀ text, "\x1b[1m" ++ text ++ "\x1b[0m\n" ∉ written) ∧
      (outcome.code = 1 ↔ ∃ text, "\x1b[1m" ++ text ++ "\x1b[0m\n" ∈ written) := by
  refine ⟨{ defaultBase := base }, CommandLine.job_start (some path) base,
    CommandLine.job_start none base, ?_⟩
  intro outcome logged written
  have hgives : ∀ line ∈ Program.splitLines source, ∀ word ∈ commandWords, ¬ Gives line word := by
    intro line hline word hword hgives
    exact hlines line hline ((gives_iff hword).1 hgives ▸ hword)
  have hwritten : written = "READY.\n" :: runTexts (Calculator.alone base source) := by
    rw [show written = _ from texts_append_run hgives base, Program.intercalate_splitLines]
  have hbold : (∃ text, boldLine text ∈ written) ↔
      ∃ report, (Calculator.alone base source).1 = .error report := by
    rw [← exists_boldLine_mem_runTexts_iff (Calculator.numeric_alone base source), hwritten]
    simp only [List.mem_cons, boldLine_ne_ready, false_or]
  obtain ⟨report, hstderr, htexts⟩ := exists_runTexts_alone path base source log
  rw [htexts] at hwritten
  refine ⟨⟨report, hstderr, hwritten⟩, ?_, fun h => h.text_logEvents _ source, ?_⟩
  · intro hoff
    rw [hoff.text_eq, String.empty_append] at hstderr
    rw [hwritten, show outcome.stderr = report from hstderr]
    rfl
  · show (outcome.code = 0 ↔ ∀ text, boldLine text ∉ written) ∧
      (outcome.code = 1 ↔ ∃ text, boldLine text ∈ written)
    rw [← not_exists, hbold]
    rcases code_runScript path base source log with ⟨hcode, hok⟩ | ⟨hcode, report, herror⟩
    · rw [show outcome.code = 0 from hcode, hok]
      simp
    · rw [show outcome.code = 1 from hcode, herror]
      simp

/-- A script that fails after a row, without a log and with one that keeps warnings. -/
theorem typed_script_agrees_hexadecimal :
    let source := "print 255\n\nprint 10 / run\n"
    let calculator : Calculator := { defaultBase := some .hexadecimal }
    let report := "\x1b[1mUNDECLARED VARIABLE IN 3 (11..14); run\x1b[0m\n"
    let warning := "WARN run aborted error=UNDECLARED VARIABLE IN 3 (11..14); run\n"
    let log : Log :=
      { keeps := fun event => event.level = .warning
        entry := fun
          | _, .aborted report => "WARN run aborted error=" ++ report.text ++ "\n"
          | _, _ => "" }
    (∀ line ∈ Program.splitLines source,
      (trimBlanks line).map Char.toUpper ∉ ["RUN", "CLEAR", "LIST", "NEW"]) ∧
    CommandLine.runScript "script" calculator (.ok source.toUTF8) .off =
      { code := 1, stdout := "ff\n", stderr := report } ∧
    CommandLine.runScript "script" calculator (.ok source.toUTF8) log =
      { code := 1, stdout := "ff\n", stderr := warning ++ report } ∧
    log.text (calculator.logEvents source) = warning ∧
    (events calculator (Program.splitLines source ++ ["RUN"])).filterMap Event.text? =
      ["READY.\n", "ff\n", report, "READY.\n"] := by
  intro source calculator report warning log
  have hlines : ∀ line ∈ Program.splitLines source,
      (trimBlanks line).map Char.toUpper ∉ ["RUN", "CLEAR", "LIST", "NEW"] := by
    decide +kernel
  have houtcome : CommandLine.runScript "script" calculator (.ok source.toUTF8) .off =
      { code := 1, stdout := "ff\n", stderr := report } := by
    rw [CommandLine.runScript_eq_alone]
    decide +kernel
  have hlogged : CommandLine.runScript "script" calculator (.ok source.toUTF8) log =
      { code := 1, stdout := "ff\n", stderr := warning ++ report } := by
    rw [CommandLine.runScript_eq_alone]
    decide +kernel
  have hrun : (calculator.run source).1 =
      .error { (Fault.undeclared "run").reportAt ⟨11, 14⟩ with line := some 3 } := by
    decide +kernel
  obtain ⟨_, hscript, -, -, hwritten, -⟩ :=
    typed_script_agrees hlines (some .hexadecimal) "script" .off
  obtain rfl := (CommandLine.Job.script.inj hscript).2
  obtain ⟨_, hscript, -, -, -, hwarning, -⟩ :=
    typed_script_agrees hlines (some .hexadecimal) "script" log
  obtain rfl := (CommandLine.Job.script.inj hscript).2
  refine ⟨hlines, houtcome, hlogged, ?_, (hwritten fun _ => rfl).trans ?_⟩
  · rw [hwarning fun _ => decide_eq_true_iff, hrun]
    rfl
  · rw [houtcome]
    decide +kernel

end Dialogue

end LineCalc
