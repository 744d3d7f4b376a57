/-
Listings and reports. The number that a failed run reports is the one that `LIST` shows before the
line that failed: the lines listed above it succeed one by one, and it then fails.
-/
import LineCalc.Proofs.Dialogue.Trace
import LineCalc.Proofs.Program.Failure

namespace LineCalc

/-- The line that a run on its own fails at. -/
theorem Calculator.exists_failing_line {base : Option Base} {lines : List String}
    (hlines : ∀ line ∈ lines, '\n' ∉ line.toList) {report : Report}
    (h : (alone base ("\n".intercalate lines)).1 = .error report) (output : Output) :
    ∃ before line rest reached, lines = before ++ line :: rest ∧
      report.line = some (1 + before.length) ∧
      Program.Passes before ⟨.ofBase base, output⟩ reached ∧
      (Line.ofString line none).run reached = (.error { report with line := none }, reached) := by
  -- a run does not depend on the output that it starts with
  have hresult : (Program.runLines (Program.numberLines 1 lines) ⟨.ofBase base, output⟩).1 =
      .error report := by
    rw [← Program.runLines_splitLines_intercalate hlines, Program.runLines_output]
    exact h
  obtain ⟨before, line, rest, hsplit, hfails⟩ :=
    Program.exists_failing_line (Prod.ext hresult rfl)
  exact ⟨before, line, rest, _, hsplit, hfails⟩

namespace Dialogue

theorem mem_of_mem_typed {input : String} {inputs : List String} (h : input ∈ typed inputs) :
    input ∈ inputs :=
  (List.rtakeWhile_suffix _ _).mem (List.mem_filter.1 h).1

/-- The numbers of the listing are those of the reports. When a run fails, it writes a report with
the number of a line of the listing, before which `LIST` shows that number, set right in four
columns. The lines above it all succeed, one by one, from nothing but the default base on, and it
then fails with the report, but for the number; the report is placed inside it. -/
theorem run_fails_at_listed (base : Option Base) {inputs : List String}
    (hinputs : ∀ input ∈ inputs, '\n' ∉ input.toList) {state : State}
    (hstate : state = ((start base).answerAll inputs).1) {report : Report}
    (hfail : (state.calculator.clearOutput.run state.source).1 = .error report) (output : Output) :
    (∀ input, Gives input "RUN" →
      .write ("\x1b[1m" ++ report.text ++ "\x1b[0m\n") ∈ (state.answer input).2) ∧
    ∃ n line reached, report.line = some n ∧ 1 ≤ n ∧ n ≤ state.listing.size ∧
      state.listing.toList[n - 1]? = some line ∧
      (∀ input, Gives input "LIST" →
        ((state.answer input).2.filterMap Event.text?)[n - 1]? =
          some (String.ofList ((toString n).toList.leftpad 4 ' ') ++ " " ++ line ++ "\n")) ∧
      Program.Passes (state.listing.toList.take (n - 1)) ⟨.ofBase base, output⟩ reached ∧
      (Line.ofString line none).run reached = (.error { report with line := none }, reached) ∧
      report.span.start ≤ report.span.stop ∧ report.span.stop ≤ line.length := by
  have hfollows : Follows base inputs state := hstate ▸ follows_answerAll base inputs
  have halone : (Calculator.alone base ("\n".intercalate (typed inputs))).1 = .error report := by
    have hbase : state.calculator.clearOutput.defaultBase = base := hfollows.base_eq
    rw [← hfail, Calculator.run_eq_alone, hbase, hfollows.source_eq]
  have htyped : ∀ line ∈ typed inputs, '\n' ∉ line.toList := fun line hline =>
    hinputs line (mem_of_mem_typed hline)
  obtain ⟨before, line, rest, reached, hsplit, hline, hpasses, hfails⟩ :=
    Calculator.exists_failing_line htyped halone output
  have hplaced := Line.placedIn_of_error (.inr ⟨_, _, hfails⟩)
  have hlisting : state.listing.toList = before ++ line :: rest := hfollows.listing_eq.trans hsplit
  have hn : 1 + before.length - 1 = before.length :=
    Nat.add_sub_cancel_left ..
  constructor
  · intro input hrun
    rw [(hfollows.answer input).2, answerTexts, if_pos hrun]
    refine List.mem_append_right _ (List.mem_map_of_mem ?_)
    exact mem_runTexts_iff.2 (.inr (.inl ⟨report, halone, rfl⟩))
  refine ⟨1 + before.length, line, reached, hline, Nat.le_add_right .., ?_, ?_, ?_, ?_, hfails,
    hplaced.span_le⟩
  · rw [← Array.length_toList, hlisting, List.length_append, List.length_cons]
    omega
  · rw [hlisting, hn]
    simp
  · intro input hlist
    have hrun : ¬ Gives input "RUN" := fun hrun => absurd (hlist.unique hrun) (by decide)
    rw [(hfollows.answer input).2, filterMap_text?_remembered_append, answerTexts, if_neg hrun,
      if_pos hlist, listTexts, hsplit, hn, List.getElem?_mapIdx,
      List.getElem?_append_right le_rfl, Nat.sub_self, List.getElem?_cons_zero, Option.map_some,
      Nat.add_comm 1]
  · rw [hlisting, hn, List.take_left]
    exact hpasses

theorem run_fails_at_listed_undeclared :
    let inputs := ["print 1", "run", " New ", "config hex", "", "list", "print 255",
      "  print y + 1"]
    let state := ((start none).answerAll inputs).1
    let report := (Fault.undeclared "y").reportAt ⟨8, 9⟩
    ((∀ input ∈ inputs, '\n' ∉ input.toList) ∧
      (state.calculator.clearOutput.run state.source).1 = .error { report with line := some 4 }) ∧
    .write "\x1b[1mUNDECLARED VARIABLE IN 4 (8..9); y\x1b[0m\n" ∈ (state.answer " run").2 ∧
    ((state.answer "LIST").2.filterMap Event.text?)[3]? = some "   4   print y + 1\n" ∧
    ∃ reached, Program.Passes ["config hex", "", "print 255"] ⟨.ofBase none, .empty⟩ reached ∧
      (Line.ofString "  print y + 1" none).run reached = (.error report, reached) := by
  intro inputs state report
  have hinputs : ∀ input ∈ inputs, '\n' ∉ input.toList := by decide
  have hlisting : state.listing.toList = ["config hex", "", "print 255", "  print y + 1"] := by
    decide +kernel
  have hfail : (state.calculator.clearOutput.run state.source).1 =
      .error { report with line := some 4 } := by
    decide +kernel
  obtain ⟨hrun, n, line, reached, hn, -, -, hline, hlist, hpasses, hfails, -⟩ :=
    run_fails_at_listed none hinputs rfl hfail .empty
  obtain rfl : 4 = n := Option.some.inj hn
  rw [hlisting] at hline hpasses
  obtain rfl : "  print y + 1" = line := Option.some.inj hline
  refine ⟨⟨hinputs, hfail⟩, ?_, ?_, reached, hpasses, hfails⟩
  · have htext : "\x1b[1m" ++ { report with line := some 4 }.text ++ "\x1b[0m\n" =
        "\x1b[1mUNDECLARED VARIABLE IN 4 (8..9); y\x1b[0m\n" := by decide +kernel
    rw [← htext]
    exact hrun " run" (by decide +kernel)
  · have htext : String.ofList ((toString 4).toList.leftpad 4 ' ') ++ " " ++ "  print y + 1" ++
        "\n" = "   4   print y + 1\n" := by decide +kernel
    rw [← htext]
    exact hlist "LIST" (by decide +kernel)

end Dialogue

end LineCalc
