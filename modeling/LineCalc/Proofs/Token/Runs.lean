/-
The runs of a line: as long as possible and either all blank or free of blanks. A line has just one
cut into such runs, the lexer makes one token of each, and the columns of a token are those of its
run in the text.
-/
import LineCalc.Lexeme
import LineCalc.Token.Lexer
import Mathlib.Data.List.SplitBy

namespace LineCalc

/-! ## Cuts -/

/-- The runs of a text, in order. -/
def runs (text : String) : List (List Char) :=
  text.toList.splitBy fun a b => isBlank a == isBlank b

/-- Whether a run is blank. -/
def isBlankRun (run : List Char) : Bool := run.any isBlank

/-- Runs that are as long as possible: none is empty, each is blank throughout or nowhere, and
neighbours differ in that. -/
structure IsCut (rs : List (List Char)) : Prop where
  ne_nil : ∀ run ∈ rs, run ≠ []
  uniform : ∀ run ∈ rs, ∀ c ∈ run, isBlank c = isBlankRun run
  alternate : rs.IsChain fun a b => isBlankRun a ≠ isBlankRun b

theorem isBlankRun_of_forall {run : List Char} {blank : Bool} (hne : run ≠ [])
    (h : ∀ c ∈ run, isBlank c = blank) : isBlankRun run = blank := by
  obtain ⟨c, cs, rfl⟩ := List.exists_cons_of_ne_nil hne
  cases blank with
  | true => exact List.any_eq_true.2 ⟨c, List.mem_cons_self, h c List.mem_cons_self⟩
  | false => simpa [isBlankRun] using h

theorem IsCut.tail {run : List Char} {rs : List (List Char)} (h : IsCut (run :: rs)) : IsCut rs :=
  ⟨fun r hr => h.ne_nil r (List.mem_cons_of_mem run hr),
    fun r hr => h.uniform r (List.mem_cons_of_mem run hr), h.alternate.tail⟩

theorem uniform_of_isChain : ∀ {run : List Char},
    (run.IsChain fun a b => (isBlank a == isBlank b) = true) →
    ∀ c ∈ run, isBlank c = isBlankRun run
  | [], _ => by simp
  | [a], _ => by simp [isBlankRun]
  | a :: b :: run, h => by
    obtain ⟨hab, h⟩ := List.isChain_cons_cons.1 h
    have ih := uniform_of_isChain h
    have hb : isBlank b = isBlankRun (b :: run) := ih b (List.mem_cons_self ..)
    have ha : isBlank a = isBlankRun (b :: run) := by rw [← hb]; simpa using hab
    have hrun : isBlankRun (a :: b :: run) = isBlankRun (b :: run) := by
      show (isBlank a || isBlankRun (b :: run)) = _
      rw [ha, Bool.or_self]
    intro c hc
    rw [hrun]
    rcases List.mem_cons.1 hc with rfl | hc
    · exact ha
    · exact ih c hc

/-- A text has one cut: its runs. -/
theorem runs_eq_iff (text : String) (rs : List (List Char)) :
    runs text = rs ↔ text.toList = rs.flatten ∧ IsCut rs := by
  unfold runs
  rw [List.splitBy_eq_iff]
  refine and_congr_right fun _ => ?_
  constructor
  · rintro ⟨hnil, hchain, halternate⟩
    have huniform : ∀ run ∈ rs, ∀ c ∈ run, isBlank c = isBlankRun run :=
      fun run hrun => uniform_of_isChain (hchain run hrun)
    refine ⟨fun run hrun h => hnil (h ▸ hrun), huniform, halternate.imp_of_mem_imp ?_⟩
    rintro a b ha hb ⟨hna, hnb, h⟩
    rw [← huniform a ha _ (List.getLast_mem hna), ← huniform b hb _ (List.head_mem hnb)]
    simpa using h
  · intro h
    refine ⟨fun hnil => h.ne_nil [] hnil rfl, fun run hrun => ?_, h.alternate.imp_of_mem_imp ?_⟩
    · refine (List.pairwise_of_forall_mem_list fun a ha b hb => ?_).isChain
      rw [h.uniform run hrun a ha, h.uniform run hrun b hb, beq_self_eq_true]
    · intro a b ha hb hab
      refine ⟨h.ne_nil a ha, h.ne_nil b hb, ?_⟩
      rw [h.uniform a ha _ (List.getLast_mem _), h.uniform b hb _ (List.head_mem _)]
      simpa using hab

theorem flatten_runs (text : String) : (runs text).flatten = text.toList :=
  ((runs_eq_iff text _).1 rfl).1.symm

theorem isCut_runs (text : String) : IsCut (runs text) := ((runs_eq_iff text _).1 rfl).2

/-- No run goes across a place where blanks begin or end. -/
theorem runs_append {cs ds : List Char}
    (h : ∀ c ∈ cs.getLast?, ∀ d ∈ ds.head?, isBlank c ≠ isBlank d) :
    runs (String.ofList (cs ++ ds)) = runs (String.ofList cs) ++ runs (String.ofList ds) := by
  unfold runs
  simp only [String.toList_ofList]
  apply List.splitBy_append
  simpa using h

/-- A gap is one run. -/
theorem runs_gap {gap : List Char} (hne : gap ≠ []) (h : ∀ c ∈ gap, isBlank c = true) :
    runs (String.ofList gap) = [gap] := by
  have hblank : isBlankRun gap = true := isBlankRun_of_forall hne h
  refine (runs_eq_iff _ _).2 ⟨by simp, ⟨by simpa using hne, ?_, List.isChain_singleton gap⟩⟩
  simpa [hblank] using h

/-! ## Words in a text -/

/-- `word` is a run of `cs` without blanks that could not be longer, and `span` its columns. -/
def WordAt (cs : List Char) (span : Span) (word : List Char) : Prop :=
  word ≠ [] ∧ (∀ c ∈ word, isBlank c = false) ∧ ∃ before after, cs = before ++ word ++ after ∧
    span = ⟨before.length, before.length + word.length⟩ ∧
    (∀ c ∈ before.getLast?, isBlank c = true) ∧ (∀ c ∈ after.head?, isBlank c = true)

/-- The part of a cut before a run without blanks ends in a blank. -/
theorem IsCut.blank_before {before after : List (List Char)} {run : List Char}
    (h : IsCut (before ++ run :: after)) (hrun : isBlankRun run = false) :
    ∀ c ∈ before.flatten.getLast?, isBlank c = true := by
  rcases List.eq_nil_or_concat' before with rfl | ⟨rs, r, rfl⟩
  · simp
  intro c hc
  have hr : isBlankRun r = true := by
    have halternate := h.alternate
    rw [List.append_assoc, List.singleton_append, List.isChain_append_cons_cons] at halternate
    have := halternate.2.1
    rw [hrun] at this
    simpa using this
  have hne := h.ne_nil r (by simp)
  rw [List.flatten_append, List.flatten_singleton, List.getLast?_append_of_ne_nil _ hne] at hc
  rw [h.uniform r (by simp) c (List.mem_of_mem_getLast? hc), hr]

theorem IsCut.blank_after {before after : List (List Char)} {run : List Char}
    (h : IsCut (before ++ run :: after)) (hrun : isBlankRun run = false) :
    ∀ c ∈ after.flatten.head?, isBlank c = true := by
  cases after with
  | nil => simp
  | cons r rs =>
    intro c hc
    have hr : isBlankRun r = true := by
      have := (List.isChain_append_cons_cons.1 h.alternate).2.1
      rw [hrun] at this
      simpa using this
    have hne := h.ne_nil r (by simp)
    rw [List.flatten_cons, List.head?_append_of_ne_nil _ hne] at hc
    rw [h.uniform r (by simp) c (List.mem_of_mem_head? hc), hr]

theorem IsCut.wordAt {before after : List (List Char)} {run : List Char}
    (h : IsCut (before ++ run :: after)) (hrun : isBlankRun run = false) :
    WordAt (before ++ run :: after).flatten
      ⟨before.flatten.length, before.flatten.length + run.length⟩ run := by
  refine ⟨h.ne_nil run (by simp), fun c hc => ?_, before.flatten, after.flatten, by simp, rfl,
    h.blank_before hrun, h.blank_after hrun⟩
  rw [h.uniform run (by simp) c hc, hrun]

/-! ## Tokens of runs -/

theorem isBlank_classify (text : String) : (Token.classify text).isBlank = false := by
  unfold Token.classify
  split
  · rfl
  · rfl
  · split_ifs <;> rfl

@[simp]
theorem isBlank_ofRun (run : List Char) : (Token.ofRun run).isBlank = isBlankRun run := by
  unfold Token.ofRun isBlankRun
  split
  · rename_i h
    rw [h]
    rfl
  · rename_i h
    rw [isBlank_classify]
    simpa using h

theorem ofRun_of_blank {run : List Char} (h : isBlankRun run = true) :
    Token.ofRun run = .blank run.length := if_pos h

theorem ofRun_of_word {run : List Char} (h : isBlankRun run = false) :
    Token.ofRun run = .classify (String.ofList run) := if_neg (Bool.eq_false_iff.1 h)

theorem text_ofRun {run : List Char} (h : isBlankRun run = false) :
    (Token.ofRun run).text = String.ofList run := by
  rw [ofRun_of_word h, Token.text_classify]

@[simp]
theorem length_text_ofRun (run : List Char) : (Token.ofRun run).text.length = run.length := by
  unfold Token.ofRun
  split
  · simp [Token.text]
  · simp

/-- A lexeme among those of a row of runs has the columns of its run. -/
theorem locate_eq_append {start : Nat} {rs : List (List Char)} {ls ls' : List Lexeme} {l : Lexeme}
    (h : Lexeme.locate start (rs.map Token.ofRun) = ls ++ l :: ls') :
    ∃ before run after, rs = before ++ run :: after ∧
      l = ⟨Token.ofRun run, start + before.flatten.length,
        start + before.flatten.length + run.length⟩ ∧
      ls' = Lexeme.locate l.span.stop (after.map Token.ofRun) := by
  induction rs generalizing start ls with
  | nil => simp [Lexeme.locate] at h
  | cons r rs ih =>
    simp only [List.map_cons, Lexeme.locate, length_text_ofRun] at h
    cases ls with
    | nil =>
      obtain ⟨rfl, rfl⟩ := List.cons.inj h
      exact ⟨[], r, rs, rfl, by simp, rfl⟩
    | cons l₀ ls =>
      obtain ⟨-, h⟩ := List.cons.inj h
      obtain ⟨before, run, after, rfl, hl, hls'⟩ := ih h
      refine ⟨r :: before, run, after, rfl, ?_, hls'⟩
      rw [hl, List.flatten_cons, List.length_append]
      simp only [Nat.add_assoc]

theorem exists_run_of_mem_locate {start : Nat} {rs : List (List Char)} {l : Lexeme}
    (h : l ∈ Lexeme.locate start (rs.map Token.ofRun)) :
    ∃ before run after, rs = before ++ run :: after ∧
      l = ⟨Token.ofRun run, start + before.flatten.length,
        start + before.flatten.length + run.length⟩ := by
  obtain ⟨ls, ls', h⟩ := List.append_of_mem h
  obtain ⟨before, run, after, hrs, hl, -⟩ := locate_eq_append h
  exact ⟨before, run, after, hrs, hl⟩

/-! ## Lexemes of a line -/

/-- Each lexeme that is not blank stands at a word of the text and has that word as its text. -/
theorem wordAt_of_mem_significant {text : String} {l : Lexeme}
    (h : l ∈ Lexeme.significant (Token.lex text)) :
    WordAt text.toList l.span l.token.text.toList := by
  obtain ⟨hl, hblank⟩ := List.mem_filter.1 h
  obtain ⟨before, run, after, hrs, rfl⟩ :=
    exists_run_of_mem_locate (show l ∈ Lexeme.locate 0 ((runs text).map Token.ofRun) from hl)
  simp only [isBlank_ofRun, Bool.not_eq_true'] at hblank
  have hcut := isCut_runs text
  rw [hrs] at hcut
  have hword := hcut.wordAt hblank
  rw [← hrs, flatten_runs] at hword
  simpa [text_ofRun hblank] using hword

/-- Lexemes that are not blank follow each other with a gap between them. -/
theorem pairwise_of_isCut {rs : List (List Char)} (h : IsCut rs) (start : Nat) :
    ((Lexeme.locate start (rs.map Token.ofRun)).filter (!·.token.isBlank)).Pairwise
      fun a b => a.span.stop < b.span.start := by
  induction rs generalizing start with
  | nil => simp [Lexeme.locate]
  | cons r rs ih =>
    have ih := ih h.tail (start + r.length)
    simp only [List.map_cons, Lexeme.locate, length_text_ofRun, List.filter_cons, isBlank_ofRun]
    split
    · rename_i hr
      refine List.pairwise_cons.2 ⟨fun l hl => ?_, ih⟩
      obtain ⟨hl, hblank⟩ := List.mem_filter.1 hl
      obtain ⟨before, run, after, rfl, rfl⟩ := exists_run_of_mem_locate hl
      simp only [isBlank_ofRun, Bool.not_eq_true'] at hr hblank
      -- two neighbours are not both without blanks, so a run lies between
      cases before with
      | nil =>
        have := (List.isChain_cons_cons.1 h.alternate).1
        rw [hr, hblank] at this
        exact (this rfl).elim
      | cons gap before =>
        have := List.length_pos_iff.2 (h.ne_nil gap (by simp))
        simp only [List.flatten_cons, List.length_append]
        omega
    · exact ih

theorem pairwise_significant (text : String) :
    (Lexeme.significant (Token.lex text)).Pairwise fun a b => a.span.stop < b.span.start :=
  pairwise_of_isCut (isCut_runs text) 0

/-- The end of a line that is not blank is the column after its last character that is not. -/
theorem endColumn_significant {text : String} (h : Lexeme.significant (Token.lex text) ≠ []) :
    ∃ before c after, text.toList = before ++ c :: after ∧ isBlank c = false ∧
      (∀ d ∈ after, isBlank d = true) ∧
      Lexeme.endColumn (Lexeme.significant (Token.lex text)) = before.length + 1 := by
  obtain ⟨ls, l, hls⟩ : ∃ ls l, Lexeme.significant (Token.lex text) = ls ++ [l] :=
    ⟨_, _, (List.dropLast_concat_getLast h).symm⟩
  have hend : Lexeme.endColumn (Lexeme.significant (Token.lex text)) = l.span.stop := by
    rw [hls]
    simp [Lexeme.endColumn]
  obtain ⟨ms, ms', hlocate, -, hms'⟩ := List.filter_eq_append_iff.1 hls
  obtain ⟨ns, ns', rfl, -, hl, hns'⟩ := List.filter_eq_cons_iff.1 hms'
  rw [← List.append_assoc] at hlocate
  obtain ⟨before, run, after, hrs, rfl, rfl⟩ :=
    locate_eq_append (show Lexeme.locate 0 ((runs text).map Token.ofRun) = _ from hlocate)
  have hcut := isCut_runs text
  rw [hrs] at hcut
  simp only [isBlank_ofRun, Bool.not_eq_true'] at hl
  have hafter : ∀ r ∈ after, isBlankRun r = true := by
    intro r hr
    obtain ⟨m, hm, hmr⟩ : ∃ m ∈ Lexeme.locate (0 + before.flatten.length + run.length)
        (after.map Token.ofRun), m.token = Token.ofRun r := by
      rw [← List.mem_map, Lexeme.map_token_locate]
      exact List.mem_map_of_mem hr
    have := List.filter_eq_nil_iff.1 hns' m hm
    rw [hmr, isBlank_ofRun] at this
    simpa using this
  obtain ⟨word, c, rfl⟩ : ∃ word c, run = word ++ [c] :=
    (List.eq_nil_or_concat' run).resolve_left (hcut.ne_nil run (by simp))
  refine ⟨before.flatten ++ word, c, after.flatten, ?_, ?_, ?_, ?_⟩
  · rw [← flatten_runs, hrs]
    simp
  · rw [hcut.uniform (word ++ [c]) (by simp) c (by simp), hl]
  · intro d hd
    obtain ⟨r, hr, hd⟩ := List.mem_flatten.1 hd
    rw [hcut.uniform r (by simp [hr]) d hd, hafter r hr]
  · rw [hend]
    simp [Nat.add_assoc]

end LineCalc
