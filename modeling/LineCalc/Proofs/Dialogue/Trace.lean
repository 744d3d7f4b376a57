/-
The trace of a dialogue. The inputs alone decide what the dialogue keeps and what it writes: the
listing is what was typed since the last `NEW`, a run is shown as a new calculator would show it,
and no run or clearing before it leaves anything behind.
-/
import LineCalc.Proofs.Calculator.Requests
import LineCalc.Proofs.Dialogue.Commands

namespace LineCalc

@[simp]
theorem Output.empty_append (output : Output) : empty ++ output = output :=
  congrArg Output.mk Array.empty_append

theorem Output.lines_eq_nil_iff (output : Output) :
    output.lines = [] ↔ output.rows.isEmpty = true := by
  simp [lines]

theorem Output.display_eq (output : Output) : output.display =
    if output.lines = [] then "" else "\n".intercalate output.lines ++ "\n" := by
  simp only [display, lines_eq_nil_iff]
  rfl

namespace Dialogue

/-! ## What is typed and what is written -/

/-- The inputs since the last `NEW` that are no commands. -/
def typed (inputs : List String) : List String :=
  (inputs.rtakeWhile fun input => ¬ Gives input "NEW").filter
    fun input => ∀ word ∈ commandWords, ¬ Gives input word

/-- What a run writes: its rows as one text, if it has any, its report in bold, if it failed, and
that the dialogue is ready for more. A space stands between the fragments of a row, and a newline
after each row. -/
def runTexts (run : Except Report Unit × Output) : List String :=
  let rows := run.2.rows.toList.map (" ".intercalate ·)
  let shown := if rows = [] then [] else ["\n".intercalate rows ++ "\n"]
  let failure := match run.1 with
    | .ok () => []
    | .error report => ["\x1b[1m" ++ report.text ++ "\x1b[0m\n"]
  shown ++ failure ++ ["READY.\n"]

/-- What `LIST` writes: one text for each line, with its number from one on, which is set right in
four columns, and a space before the line. -/
def listTexts (listing : List String) : List String :=
  listing.mapIdx fun k line =>
    String.ofList ((toString (k + 1)).toList.leftpad 4 ' ') ++ " " ++ line ++ "\n"

/-- What is written in answer to an input, when this has been typed before it. -/
def answerTexts (base : Option Base) (listing : List String) (input : String) : List String :=
  if Gives input "RUN" then runTexts (Calculator.alone base ("\n".intercalate listing))
  else if Gives input "LIST" then listTexts listing
  else []

/-- What an input adds to the history: itself, unless it is blank. -/
def remembered (input : String) : List Event :=
  if input.toList.all isBlank then [] else [.history input]

theorem typed_append_new (inputs : List String) {input : String} (h : Gives input "NEW") :
    typed (inputs ++ [input]) = [] := by
  unfold typed
  rw [List.rtakeWhile_concat_neg _ _ _ (by simpa using h)]
  rfl

/-- A command other than `NEW` leaves what was typed. -/
theorem typed_append_command (inputs : List String) {input word : String} (h : Gives input word)
    (hword : word ∈ commandWords) (hnew : word ≠ "NEW") :
    typed (inputs ++ [input]) = typed inputs := by
  have hnot : ¬ Gives input "NEW" := fun hgives => hnew (h.unique hgives)
  have hfilter : [input].filter (fun input => ∀ word ∈ commandWords, ¬ Gives input word) = [] := by
    simpa using ⟨word, hword, h⟩
  unfold typed
  rw [List.rtakeWhile_concat_pos _ _ _ (by simpa using hnot), List.filter_append, hfilter,
    List.append_nil]

theorem typed_append_line (inputs : List String) {input : String}
    (h : ∀ word ∈ commandWords, ¬ Gives input word) :
    typed (inputs ++ [input]) = typed inputs ++ [input] := by
  have hnot : ¬ Gives input "NEW" := h "NEW" (by decide)
  have hfilter :
      [input].filter (fun input => ∀ word ∈ commandWords, ¬ Gives input word) = [input] := by
    simpa using h
  unfold typed
  rw [List.rtakeWhile_concat_pos _ _ _ (by simpa using hnot), List.filter_append, hfilter]

/-- A run writes what its output shows, if that is anything, and its report. -/
theorem runTexts_eq (run : Except Report Unit × Output) : runTexts run =
    (if run.2.rows.isEmpty then [] else [run.2.display]) ++
      (match run.1 with
        | .ok () => []
        | .error report => [boldLine report.text]) ++ ["READY.\n"] := by
  obtain ⟨result, output⟩ := run
  have hlines : output.rows.toList.map (" ".intercalate ·) = output.lines := rfl
  simp only [runTexts, hlines, output.lines_eq_nil_iff, Output.display, Output.text]
  cases hrows : output.rows.isEmpty with
  | true => cases result <;> rfl
  | false => cases result <;> rfl

theorem mem_runTexts_iff {run : Except Report Unit × Output} {text : String} :
    text ∈ runTexts run ↔ (run.2.rows.isEmpty = false ∧ text = run.2.display) ∨
      (∃ report, run.1 = .error report ∧ text = boldLine report.text) ∨ text = "READY.\n" := by
  obtain ⟨result, output⟩ := run
  rw [runTexts_eq, List.mem_append, List.mem_append, or_assoc]
  cases hrows : output.rows.isEmpty <;> cases result <;> simp

/-! ## One input -/

theorem listed_eq (number : Nat) (line : String) : listed number line =
    String.ofList ((toString number).toList.leftpad 4 ' ') ++ " " ++ line ++ "\n" := by
  have hdigits : (toString number).toList = Nat.toDigits 10 number := String.toList_ofList
  rw [hdigits]
  rfl

theorem listEvents_eq (first : Nat) (lines : List String) :
    listEvents first lines = (lines.mapIdx fun k line => listed (first + k) line).map .write := by
  induction lines generalizing first with
  | nil => rfl
  | cons line lines ih =>
    rw [listEvents, ih, List.mapIdx_cons, List.map_cons]
    simp only [Nat.add_assoc, Nat.add_comm 1, Nat.add_zero]

/-- A run is shown as on a new calculator with the same default base, which it leaves. -/
theorem State.perform_run (state : State) :
    let run := Calculator.alone state.calculator.defaultBase state.source
    state.perform .run = ({ state with calculator := { state.calculator with output := run.2 } },
      (runTexts run).map .write) := by
  intro run
  have hrun : state.calculator.clearOutput.run state.source =
      (run.1, { state.calculator with output := run.2 }) := by
    rw [Calculator.run_eq_alone]
    simp only [Calculator.clearOutput, Output.empty_append]
    rfl
  obtain ⟨result, output⟩ := run
  simp only [perform, hrun, runTexts_eq, ready]
  cases hrows : output.rows.isEmpty with
  | true => cases result <;> rfl
  | false => cases result <;> rfl

/-- The state after these inputs: the default base is as at first, and the listing is what was
typed. -/
structure Follows (base : Option Base) (inputs : List String) (state : State) : Prop where
  base_eq : state.calculator.defaultBase = base
  listing_eq : state.listing.toList = typed inputs

section

variable {base : Option Base} {inputs : List String} {state : State}

theorem Follows.source_eq (h : Follows base inputs state) :
    state.source = "\n".intercalate (typed inputs) := by
  rw [State.source, h.listing_eq]

/-- The answer to an input, and what it leaves, follow from the inputs before it. -/
theorem Follows.answer (h : Follows base inputs state) (input : String) :
    Follows base (inputs ++ [input]) (state.answer input).1 ∧
      (state.answer input).2 =
        remembered input ++ (answerTexts base (typed inputs) input).map .write := by
  have hhistory : (if trimBlanks input = "" then [] else [Event.history input]) =
      remembered input := by
    simp only [remembered, trimBlanks_eq_empty_iff, List.all_eq_true]
  unfold State.answer
  rw [hhistory]
  -- no input gives two commands, so one branch of the answer is left in each case
  have hother : ∀ {word word' : String}, Gives input word → word ≠ word' → ¬ Gives input word' :=
    fun hgives hne hgives' => hne (hgives.unique hgives')
  rcases Command.ofInput_cases input with ⟨hgives, hcommand⟩ | ⟨hgives, hcommand⟩ |
    ⟨hgives, hcommand⟩ | ⟨hgives, hcommand⟩ | ⟨hgives, hcommand⟩
  · rw [hcommand, State.perform_run, h.base_eq, h.source_eq]
    refine ⟨⟨h.base_eq, ?_⟩, ?_⟩
    · rw [typed_append_command inputs hgives (by decide) (by decide)]
      exact h.listing_eq
    · rw [answerTexts, if_pos hgives]
  · rw [hcommand]
    refine ⟨⟨h.base_eq, ?_⟩, ?_⟩
    · rw [typed_append_command inputs hgives (by decide) (by decide)]
      exact h.listing_eq
    · rw [answerTexts, if_neg (hother hgives (by decide)), if_neg (hother hgives (by decide))]
      rfl
  · rw [hcommand]
    refine ⟨⟨h.base_eq, ?_⟩, ?_⟩
    · rw [typed_append_command inputs hgives (by decide) (by decide)]
      exact h.listing_eq
    · rw [answerTexts, if_neg (hother hgives (by decide)), if_pos hgives]
      simp only [State.perform, listEvents_eq, h.listing_eq, listTexts, listed_eq, Nat.add_comm 1]
  · rw [hcommand]
    refine ⟨⟨h.base_eq, ?_⟩, ?_⟩
    · rw [typed_append_new inputs hgives]
      rfl
    · rw [answerTexts, if_neg (hother hgives (by decide)), if_neg (hother hgives (by decide))]
      rfl
  · rw [hcommand]
    refine ⟨⟨h.base_eq, ?_⟩, ?_⟩
    · rw [typed_append_line inputs hgives, ← h.listing_eq]
      exact Array.toList_push
    · rw [answerTexts, if_neg (hgives "RUN" (by decide)), if_neg (hgives "LIST" (by decide))]
      rfl

end

/-- The text that an event writes. -/
def Event.text? : Event → Option String
  | .write text => some text
  | .prompt _ => none
  | .history _ => none

theorem filterMap_text?_remembered_append (input : String) (texts : List String) :
    (remembered input ++ texts.map Event.write).filterMap Event.text? = texts := by
  have hremembered : (remembered input).filterMap Event.text? = [] := by
    unfold remembered
    split
    · rfl
    · rfl
  have hwrites : Event.text? ∘ Event.write = some := rfl
  rw [List.filterMap_append, hremembered, List.filterMap_map, hwrites, List.filterMap_some,
    List.nil_append]

/-! ## Whole dialogues -/

/-- The state that a dialogue starts in. -/
def start (base : Option Base) : State := { calculator := { defaultBase := base } }

theorem follows_answerAll (base : Option Base) (inputs : List String) :
    Follows base inputs ((start base).answerAll inputs).1 := by
  induction inputs using List.reverseRecOn with
  | nil => exact ⟨rfl, rfl⟩
  | append_singleton inputs input ih =>
    rw [State.answerAll_append]
    simp only [State.answerAll]
    exact (ih.answer input).1

theorem events_append_singleton (base : Option Base) (inputs : List String) (input : String) :
    events { defaultBase := base } (inputs ++ [input]) =
      events { defaultBase := base } inputs ++
        (remembered input ++ (answerTexts base (typed inputs) input).map .write) := by
  have hanswer := ((follows_answerAll base inputs).answer input).2
  unfold events
  rw [State.answerAll_append]
  simp only [State.answerAll, List.append_nil, List.append_assoc]
  rw [← hanswer]
  rfl

/-- The line that an event adds to the history. -/
def Event.history? : Event → Option String
  | .history line => some line
  | .prompt _ => none
  | .write _ => none

theorem filterMap_history?_remembered (input : String) :
    (remembered input).filterMap Event.history? =
      [input].filter fun input => !input.toList.all isBlank := by
  unfold remembered
  cases hblank : input.toList.all isBlank with
  | true => simp [hblank]
  | false => simp [hblank, Event.history?]

/-- The law of traces. After any inputs the listing is what was typed since the last `NEW`, and one
more input adds to the events that it is remembered, unless it is blank, and then the texts of its
answer: those of a run of the listing on a new calculator for `RUN`, the lines of the listing for
`LIST`, and nothing for any other input. -/
theorem events_trace (base : Option Base) (inputs : List String) :
    ((start base).answerAll inputs).1.listing.toList = typed inputs ∧
    events { defaultBase := base } [] = [.prompt "> ", .write "READY.\n"] ∧
    (∀ input, events { defaultBase := base } (inputs ++ [input]) =
      events { defaultBase := base } inputs ++
        (remembered input ++ (answerTexts base (typed inputs) input).map .write)) ∧
    (events { defaultBase := base } inputs).filterMap Event.history? =
      inputs.filter fun input => !input.toList.all isBlank := by
  refine ⟨(follows_answerAll base inputs).listing_eq, rfl, events_append_singleton base inputs, ?_⟩
  induction inputs using List.reverseRecOn with
  | nil => rfl
  | append_singleton inputs input ih =>
    have hwrites (texts : List String) :
        (texts.map Event.write).filterMap Event.history? = [] := by
      simp [Event.history?]
    rw [events_append_singleton, List.filterMap_append, List.filterMap_append, ih, hwrites,
      List.append_nil, List.filter_append, filterMap_history?_remembered]

/-- A run that fails after a row, a listing with a blank line, and a run of what is typed next. -/
theorem events_trace_new :
    let base := some Base.hexadecimal
    let inputs :=
      ["print 255", " ", "print y", " run ", "List", "clear", "NEW", "print -10", "print 2"]
    ((start base).answerAll inputs).1.listing.toList = ["print -10", "print 2"] ∧
    events { defaultBase := base } (inputs ++ ["Run"]) =
      [.prompt "> ", .write "READY.\n", .history "print 255", .history "print y", .history " run ",
        .write "ff\n", .write "\x1b[1mUNDECLARED VARIABLE IN 3 (6..7); y\x1b[0m\n",
        .write "READY.\n", .history "List", .write "   1 print 255\n", .write "   2  \n",
        .write "   3 print y\n", .history "clear", .history "NEW", .history "print -10",
        .history "print 2", .history "Run", .write "-a\n2\n", .write "READY.\n"] := by
  intro base inputs
  obtain ⟨hlisting, hopening, -, -⟩ := events_trace base inputs
  have hstep (inputs : List String) (input : String) := (events_trace base inputs).2.2.1 input
  constructor
  · rw [hlisting]
    decide +kernel
  · rw [show inputs = [] ++ ["print 255"] ++ [" "] ++ ["print y"] ++ [" run "] ++ ["List"] ++
      ["clear"] ++ ["NEW"] ++ ["print -10"] ++ ["print 2"] from rfl]
    simp only [hstep, hopening]
    decide +kernel

end Dialogue

end LineCalc
