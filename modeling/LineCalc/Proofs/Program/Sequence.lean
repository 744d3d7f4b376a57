/-
Programs in sequence. A source that two texts make up, with a newline between them, is run as the
first and then, unless that fails, as the second; faults of the second are reported as many lines
further down as the first is long.
-/
import LineCalc.Program

namespace LineCalc

/-- The report with its line moved down. -/
def Report.moveDown (n : Nat) (report : Report) : Report :=
  { report with line := report.line.map (· + n) }

namespace Program

/-! ## Source -/

theorem splitLines_append (a b : String) :
    splitLines (a ++ "\n" ++ b) = splitLines a ++ splitLines b := by
  have htoList : (a ++ "\n" ++ b).toList = a.toList ++ '\n' :: b.toList := by simp
  unfold splitLines
  rw [htoList, List.splitOn_append_cons_self, List.map_append]

/-- A text has one line more than it has newlines. -/
theorem length_splitLines (source : String) :
    (splitLines source).length = 1 + source.toList.count '\n' := by
  unfold splitLines
  rw [List.length_map]
  induction source.toList with
  | nil => rfl
  | cons c cs ih =>
    rw [List.splitOn_cons_eq_if_modifyHead, List.count_cons]
    split
    · rw [List.length_cons, ih, Nat.add_assoc]
    · rw [List.length_modifyHead, ih, Nat.add_zero]

theorem intercalate_splitLines (source : String) :
    "\n".intercalate (splitLines source) = source := by
  have htoList : (splitLines source).map String.toList = source.toList.splitOn '\n' := by
    simp [splitLines, Function.comp_def]
  rw [← String.toList_inj, String.toList_intercalate, htoList]
  exact List.intercalate_splitOn '\n'

theorem splitLines_intercalate {lines : List String} (hne : lines ≠ [])
    (h : ∀ line ∈ lines, '\n' ∉ line.toList) :
    splitLines ("\n".intercalate lines) = lines := by
  have hnewline : "\n".toList = ['\n'] := rfl
  have hsplit : (['\n'].intercalate (lines.map String.toList)).splitOn '\n' =
      lines.map String.toList := by
    apply List.splitOn_intercalate
    · intro cs hcs
      obtain ⟨line, hline, rfl⟩ := List.mem_map.1 hcs
      exact h line hline
    · simpa using hne
  rw [splitLines, String.toList_intercalate, hnewline, hsplit, List.map_map]
  simp [Function.comp_def]

theorem splitLines_of_notMem {line : String} (h : '\n' ∉ line.toList) :
    splitLines line = [line] := by
  have hsplit : splitLines ("\n".intercalate [line]) = [line] :=
    splitLines_intercalate (List.cons_ne_nil _ _) (List.forall_mem_singleton.2 h)
  rwa [String.intercalate_singleton] at hsplit

theorem numberLines_append (first : Nat) (xs ys : List String) :
    numberLines first (xs ++ ys) =
      numberLines first xs ++ numberLines (first + xs.length) ys := by
  induction xs generalizing first with
  | nil => rfl
  | cons x xs ih =>
    have hfirst : first + 1 + xs.length = first + (x :: xs).length := by
      rw [List.length_cons]
      omega
    simp only [List.cons_append, numberLines, ih, hfirst]
    split
    · rfl
    · rfl

/-! ## Numbers of lines -/

/-- An empty line would do nothing, so a run can be taken to go through all lines. -/
theorem runLines_numberLines_cons (first : Nat) (text : String) (texts : List String)
    (machine : Machine) : runLines (numberLines first (text :: texts)) machine =
      match (Line.ofString text (some first)).run machine with
      | (.ok _, next) => runLines (numberLines (first + 1) texts) next
      | (.error report, next) => (.error { report with line := some first }, next) := by
  by_cases hempty : text = ""
  · have hrun : (Line.ofString "" (some first)).run machine = (.ok none, machine) := rfl
    simp only [hempty, numberLines, if_true, hrun]
  · simp only [numberLines, hempty, if_false, runLines]
    rfl

/-- Lines do the same wherever they stand; only the numbers in reports move with them. -/
theorem runLines_numberLines_add (first n : Nat) (texts : List String) (machine : Machine) :
    runLines (numberLines (first + n) texts) machine =
      (runLines (numberLines first texts) machine).map (Except.mapError (.moveDown n)) id := by
  induction texts generalizing first machine with
  | nil => rfl
  | cons text texts ih =>
    have hfirst : first + n + 1 = first + 1 + n := by omega
    have hrun : (Line.ofString text (some (first + n))).run machine =
        (Line.ofString text (some first)).run machine := rfl
    simp only [runLines_numberLines_cons, hfirst, hrun]
    split
    · exact ih (first + 1) _
    · rfl

/-- A report of a program names one of its lines. -/
theorem line_of_runLines_eq_error {first : Nat} {texts : List String} {machine after : Machine}
    {report : Report} (h : runLines (numberLines first texts) machine = (.error report, after)) :
    ∃ k < texts.length, report.line = some (first + k) := by
  induction texts generalizing first machine with
  | nil => cases h
  | cons text texts ih =>
    rw [runLines_numberLines_cons] at h
    split at h
    · obtain ⟨k, hk, hline⟩ := ih h
      refine ⟨k + 1, Nat.succ_lt_succ hk, ?_⟩
      rw [hline, Nat.add_assoc, Nat.add_comm 1 k]
    · cases h
      exact ⟨0, Nat.succ_pos _, rfl⟩

/-! ## Running in sequence -/

theorem runOn_append (a b : String) (machine : Machine) :
    (ofSource (a ++ "\n" ++ b)).runOn machine =
      match (ofSource a).runOn machine with
      | (.ok _, after) => ((ofSource b).runOn after).map
          (Except.mapError (Report.moveDown (1 + a.toList.count '\n'))) id
      | (.error report, after) => (.error report, after) := by
  have hlines : (ofSource (a ++ "\n" ++ b)).lines = numberLines 1 (splitLines a) ++
      numberLines (1 + (1 + a.toList.count '\n')) (splitLines b) := by
    simp only [ofSource, splitLines_append, numberLines_append, length_splitLines]
  unfold runOn
  rw [hlines, runLines_append]
  simp only [runLines_numberLines_add]
  rfl

/-- Programs compose in the source: two texts with a newline between them run as the first and then,
if it does not fail, as the second on the machine that the first leaves. A fault of the first is
reported as it is; a fault of the second, as many lines further down as the first text has. -/
theorem runOn_append_newline (a b : String) (machine : Machine) :
    match (ofSource a).runOn machine with
    | (.error report, after) =>
      (ofSource (a ++ "\n" ++ b)).runOn machine = (.error report, after)
    | (.ok (), after) =>
      match (ofSource b).runOn after with
      | (.error report, last) => ∃ n, report.line = some n ∧
          (ofSource (a ++ "\n" ++ b)).runOn machine =
            (.error { report with line := some (n + (1 + a.toList.count '\n')) }, last)
      | (.ok (), last) => (ofSource (a ++ "\n" ++ b)).runOn machine = (.ok (), last) := by
  rw [runOn_append]
  rcases (ofSource a).runOn machine with ⟨_ | _, after⟩
  · rfl
  · simp only
    rcases hb : (ofSource b).runOn after with ⟨report | _, last⟩
    · obtain ⟨k, -, hline⟩ := line_of_runLines_eq_error hb
      refine ⟨1 + k, hline, ?_⟩
      show (Except.error (Report.moveDown _ report), last) = _
      unfold Report.moveDown
      rw [hline, Option.map_some]
    · rfl

end Program

end LineCalc
