/-
Layout does not matter. Sources whose lines have the same tokens, however these are spaced, have the
same result and print the same rows; only the columns in a report may differ, and blanks at the ends
of lines do not change those either.
-/
import LineCalc.Proofs.Calculator.Requests
import LineCalc.Proofs.Line.Layout
import LineCalc.Proofs.Program.Sequence
import Mathlib.Data.List.Forall2

namespace LineCalc

/-! ## Lines alike -/

/-- The texts have the same tokens, blanks left out. -/
def SameTokens (s t : String) : Prop :=
  (Token.lex s).filter (!·.isBlank) = (Token.lex t).filter (!·.isBlank)

/-- The texts differ in no more than the blanks at their ends. -/
def SameButEnd (s t : String) : Prop :=
  ∃ stem first second, s.toList = stem ++ first ∧ t.toList = stem ++ second ∧
    ∀ c ∈ first ++ second, isBlank c = true

theorem SameButEnd.significant_eq {s t : String} (h : SameButEnd s t) :
    Lexeme.significant (Token.lex s) = Lexeme.significant (Token.lex t) := by
  obtain ⟨stem, first, second, hs, ht, hblank⟩ := h
  rw [significant_trimEnd hs fun c hc => hblank c (List.mem_append_left _ hc),
    significant_trimEnd ht fun c hc => hblank c (List.mem_append_right _ hc)]

/-! ## Programs alike -/

/-- The lines run alike on every machine. Reports are compared by what `f` leaves of them. -/
def Line.RunAlike (f : Report → Report) (s t : String) : Prop :=
  ∀ number machine, ((ofString s number).run machine).map (Except.mapError f) id =
    ((ofString t number).run machine).map (Except.mapError f) id

theorem SameTokens.runAlike {s t : String} (h : SameTokens s t) :
    Line.RunAlike Report.bare s t := by
  intro number machine
  have hline : (Line.ofString s number).significant = (Line.ofString t number).significant := h
  exact Line.run_blind hline machine

theorem SameButEnd.runAlike {s t : String} (h : SameButEnd s t) : Line.RunAlike id s t := by
  intro number machine
  have hstatement : (Line.ofString s number).statement = (Line.ofString t number).statement :=
    congrArg Statement.ofLexemes h.significant_eq
  unfold Line.run
  rw [hstatement]

/-- Lines that run alike one by one make programs that run alike. -/
theorem Program.runLines_congr {f : Report → Report}
    (hf : ∀ (report report' : Report) (line : Option Nat), f report = f report' →
      f { report with line } = f { report' with line })
    {xs ys : List String} (h : List.Forall₂ (Line.RunAlike f) xs ys)
    (first : Nat) (machine : Machine) :
    (runLines (numberLines first xs) machine).map (Except.mapError f) id =
      (runLines (numberLines first ys) machine).map (Except.mapError f) id := by
  induction h generalizing first machine with
  | nil => rfl
  | @cons x y xs ys hline _ ih =>
    have hrun := hline (some first) machine
    rw [runLines_numberLines_cons, runLines_numberLines_cons]
    rcases hx : (Line.ofString x (some first)).run machine with ⟨report | printed, next⟩
    · rcases hy : (Line.ofString y (some first)).run machine with ⟨report' | printed', next'⟩
      · rw [hx, hy] at hrun
        obtain ⟨hreport, rfl⟩ := Prod.mk.inj hrun
        have hnumbered := hf report report' (some first) (Except.error.inj hreport)
        exact congrArg (Except.error ·, next) hnumbered
      · rw [hx, hy] at hrun
        cases hrun
    · rcases hy : (Line.ofString y (some first)).run machine with ⟨report' | printed', next'⟩
      · rw [hx, hy] at hrun
        cases hrun
      · rw [hx, hy] at hrun
        obtain ⟨-, rfl⟩ := Prod.mk.inj hrun
        exact ih (first + 1) next

/-! ## Sources alike -/

namespace Calculator

section

variable {a b : String} (base : Option Base)

theorem alone_of_sameTokens
    (h : List.Forall₂ SameTokens (Program.splitLines a) (Program.splitLines b)) :
    (alone base a).map (Except.mapError Report.bare) id =
      (alone base b).map (Except.mapError Report.bare) id := by
  have hnumber : ∀ (report report' : Report) (line : Option Nat), report.bare = report'.bare →
      { report with line }.bare = { report' with line }.bare := by
    intro report report' line hbare
    obtain ⟨hkind, -, -, hmessage⟩ := Report.mk.inj hbare
    simp only [Report.bare, hkind, hmessage]
  have hlines := Program.runLines_congr hnumber (h.imp fun _ _ => SameTokens.runAlike) 1
    ⟨.ofBase base, .empty⟩
  exact congrArg (Prod.map id Machine.output) hlines

theorem alone_of_sameButEnd
    (h : List.Forall₂ SameButEnd (Program.splitLines a) (Program.splitLines b)) :
    alone base a = alone base b := by
  have hnumber : ∀ (report report' : Report) (line : Option Nat), id report = id report' →
      id { report with line } = id { report' with line } := by
    rintro report _ line ⟨⟩
    rfl
  have hid : ∀ run : Except Report Unit × Machine, run.map (Except.mapError id) id = run := by
    rintro ⟨_ | _, _⟩ <;> rfl
  have hlines := Program.runLines_congr hnumber (h.imp fun _ _ => SameButEnd.runAlike) 1
    ⟨.ofBase base, .empty⟩
  rw [hid, hid] at hlines
  exact congrArg (Prod.map id Machine.output) hlines

end

/-- Layout does not matter: when the lines of two sources have the same tokens, one by one, then
calculators with the same default base add the same rows and give the same result, but for the
columns of a report. When the lines differ in no more than the blanks at their ends, the columns are
the same too. -/
theorem run_layout {a b : String}
    (h : List.Forall₂ SameTokens (Program.splitLines a) (Program.splitLines b))
    {first second : Calculator} (hbase : first.defaultBase = second.defaultBase) :
    (∃ rows, (first.run a).2 = { first with output := first.output ++ rows } ∧
      (second.run b).2 = { second with output := second.output ++ rows }) ∧
    (first.run a).1.mapError Report.bare = (second.run b).1.mapError Report.bare ∧
    (List.Forall₂ SameButEnd (Program.splitLines a) (Program.splitLines b) →
      (first.run a).1 = (second.run b).1) := by
  obtain ⟨hresult, hrows⟩ := Prod.mk.inj (alone_of_sameTokens second.defaultBase h)
  rw [run_eq_alone, run_eq_alone, hbase]
  refine ⟨⟨_, rfl, ?_⟩, hresult, ?_⟩
  · rw [show (alone _ b).2 = (alone _ a).2 from hrows.symm]
  · intro hend
    rw [alone_of_sameButEnd _ hend]

theorem run_layout_spaced :
    let plain := "config hex\n\nprint 255\nprint ( x + 1"
    let spaced := "\tconfig  hex\n\u2003\nprint 255 \n  print ( x +\u00a01"
    let returned := "config hex\r\n\r\nprint 255\r\nprint ( x + 1\r"
    let report := { Fault.missingRightParen.report with line := some 4 }
    (List.Forall₂ SameTokens (Program.splitLines plain) (Program.splitLines spaced) ∧
      (Calculator.run {} spaced).1.mapError Report.bare = .error report) ∧
    List.Forall₂ SameTokens (Program.splitLines plain) (Program.splitLines returned) ∧
      List.Forall₂ SameButEnd (Program.splitLines plain) (Program.splitLines returned) ∧
      (Calculator.run {} returned).1 = .error { report with span := .caret 13 } := by
  intro plain spaced returned report
  have hspaced :
      List.Forall₂ SameTokens (Program.splitLines plain) (Program.splitLines spaced) := by
    unfold SameTokens
    decide +kernel
  have hreturned :
      List.Forall₂ SameTokens (Program.splitLines plain) (Program.splitLines returned) := by
    unfold SameTokens
    decide +kernel
  have hplain : (Calculator.run {} plain).1 = .error { report with span := .caret 13 } := by
    decide +kernel
  have hlines : Program.splitLines returned = (Program.splitLines plain).map (· ++ "\r") := by
    decide +kernel
  have hend : List.Forall₂ SameButEnd (Program.splitLines plain) (Program.splitLines returned) := by
    rw [hlines, List.forall₂_map_right_iff, List.forall₂_same]
    intro line _
    exact ⟨line.toList, [], ['\r'], by simp, by simp, List.forall_mem_singleton.2 (by decide)⟩
  refine ⟨⟨hspaced, ?_⟩, hreturned, hend, ?_⟩
  · rw [← (run_layout hspaced rfl).2.1, hplain]
    rfl
  · rw [← (run_layout hreturned rfl).2.2 hend, hplain]

end Calculator

end LineCalc
