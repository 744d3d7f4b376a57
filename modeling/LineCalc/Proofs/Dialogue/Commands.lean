/-
Which inputs are commands. An input gives a command when the word of that command is its only word,
in letters of either case; what is trimmed off an input are the blanks around its words.
-/
import LineCalc.Dialogue
import LineCalc.Proofs.Token.Words
import Mathlib.Data.List.DropRight
import Mathlib.Data.List.TakeWhile

namespace LineCalc

/-! ## Words and blanks -/

/-- Words are cut at every blank. -/
theorem wordRuns_append_cons (x y : List Char) {c : Char} (hc : isBlank c = true) :
    wordRuns (x ++ c :: y) = wordRuns x ++ wordRuns y := by
  unfold wordRuns
  rw [List.splitOnP_append_cons x y hc, List.filter_append]

theorem wordRuns_of_blank {gap : List Char} (h : ∀ c ∈ gap, isBlank c = true) :
    wordRuns gap = [] := by
  have hgap := wordRuns_blank_append h []
  rwa [List.append_nil] at hgap

theorem wordRuns_append_blank (cs : List Char) {gap : List Char}
    (h : ∀ c ∈ gap, isBlank c = true) : wordRuns (cs ++ gap) = wordRuns cs := by
  cases gap with
  | nil => rw [List.append_nil]
  | cons c gap =>
    rw [wordRuns_append_cons cs gap (h c List.mem_cons_self),
      wordRuns_of_blank fun d hd => h d (List.mem_cons_of_mem c hd), List.append_nil]

theorem wordRuns_of_word {word : List Char} (hne : word ≠ [])
    (h : ∀ c ∈ word, isBlank c = false) : wordRuns word = [word] := by
  unfold wordRuns
  rw [List.splitOnP_eq_singleton h]
  simp [hne]

/-- A character that is not blank is in a word. -/
theorem wordRuns_ne_nil {cs : List Char} {c : Char} (hc : c ∈ cs) (hblank : isBlank c = false) :
    wordRuns cs ≠ [] := by
  induction cs with
  | nil => cases hc
  | cons d cs ih =>
    cases hd : isBlank d with
    | true =>
      have hmem : c ∈ cs := by
        rcases List.mem_cons.1 hc with rfl | hmem
        · rw [hd] at hblank
          cases hblank
        · exact hmem
      rw [show wordRuns (d :: cs) = wordRuns cs from wordRuns_append_cons [] cs hd]
      exact ih hmem
    | false =>
      have hcs : d :: cs = (d :: cs.takeWhile (!isBlank ·)) ++ cs.dropWhile (!isBlank ·) := by
        rw [List.cons_append, List.takeWhile_append_dropWhile]
      rw [hcs, wordRuns_word_append (List.cons_ne_nil _ _)]
      · exact List.cons_ne_nil _ _
      · intro e he
        rcases List.mem_cons.1 he with rfl | he
        · exact hd
        · simpa using List.mem_takeWhile_imp he
      · intro e he
        have hnot := List.head?_dropWhile_not (!isBlank ·) cs
        rw [he] at hnot
        simpa using hnot

/-- A text with one word and no blank at its ends is that word: a blank within would have a word on
either side of it. -/
theorem isBlank_eq_false_of_wordRuns {cs word : List Char} (h : wordRuns cs = [word])
    (hhead : ∀ c ∈ cs.head?, isBlank c = false) (hlast : ∀ c ∈ cs.getLast?, isBlank c = false) :
    ∀ c ∈ cs, isBlank c = false := by
  intro c hc
  by_contra hblank
  rw [Bool.not_eq_false] at hblank
  obtain ⟨x, y, rfl⟩ := List.append_of_mem hc
  have hx : wordRuns x ≠ [] := by
    cases x with
    | nil =>
      rw [hhead c rfl] at hblank
      cases hblank
    | cons d x => exact wordRuns_ne_nil List.mem_cons_self (hhead d rfl)
  have hy : wordRuns y ≠ [] := by
    rcases List.eq_nil_or_concat' y with rfl | ⟨y, d, rfl⟩
    · rw [hlast c (by simp)] at hblank
      cases hblank
    · have hd : d ∈ (x ++ c :: (y ++ [d])).getLast? := by
        rw [← List.cons_append, ← List.append_assoc]
        exact List.getLast?_concat
      exact wordRuns_ne_nil (List.mem_append_right y List.mem_cons_self) (hlast d hd)
  have hlength := congrArg List.length h
  rw [wordRuns_append_cons x y hblank, List.length_append, List.length_singleton] at hlength
  have := List.length_pos_iff.2 hx
  have := List.length_pos_iff.2 hy
  omega

/-! ## Trimming -/

/-- A text is its trimmed text with blanks around it, and that has no blank at its ends. -/
theorem exists_trimBlanks (text : String) :
    (∃ before after, text.toList = before ++ (trimBlanks text).toList ++ after ∧
      ∀ c ∈ before ++ after, isBlank c = true) ∧
    (∀ c ∈ (trimBlanks text).toList.head?, isBlank c = false) ∧
    ∀ c ∈ (trimBlanks text).toList.getLast?, isBlank c = false := by
  have hcore : (trimBlanks text).toList = (text.toList.dropWhile isBlank).rdropWhile isBlank :=
    String.toList_ofList
  rw [hcore]
  refine ⟨⟨text.toList.takeWhile isBlank, (text.toList.dropWhile isBlank).rtakeWhile isBlank,
    ?_, ?_⟩, ?_, ?_⟩
  · rw [List.append_assoc, List.rdropWhile_append_rtakeWhile, List.takeWhile_append_dropWhile]
  · intro c hc
    rcases List.mem_append.1 hc with hc | hc
    · exact List.mem_takeWhile_imp hc
    · exact List.mem_rtakeWhile_imp hc
  · intro c hc
    obtain ⟨gap, hgap⟩ := List.rdropWhile_prefix isBlank (text.toList.dropWhile isBlank)
    have hhead : (text.toList.dropWhile isBlank).head? = some c := by
      rw [← hgap, List.head?_append, hc]
      rfl
    have hnot := List.head?_dropWhile_not isBlank text.toList
    rwa [hhead] at hnot
  · intro c hc
    obtain ⟨hne, rfl⟩ := List.mem_getLast?_eq_getLast hc
    simpa using List.rdropWhile_last_not isBlank _ hne

theorem trimBlanks_eq_empty_iff (text : String) :
    trimBlanks text = "" ↔ ∀ c ∈ text.toList, isBlank c = true := by
  obtain ⟨⟨before, after, htext, hblank⟩, hhead, -⟩ := exists_trimBlanks text
  constructor
  · intro hempty
    rw [htext, hempty]
    simpa using hblank
  · intro h
    by_contra hne
    obtain ⟨c, cs, hcs⟩ := List.exists_cons_of_ne_nil (mt String.toList_eq_nil_iff.1 hne)
    have hc : isBlank c = true := h c (by rw [htext, hcs]; simp)
    rw [hhead c (by simp [hcs])] at hc
    cases hc

theorem words_trimBlanks (text : String) : words (trimBlanks text) = words text := by
  obtain ⟨⟨before, after, htext, hblank⟩, -⟩ := exists_trimBlanks text
  unfold words
  rw [htext, wordRuns_append_blank _ fun c hc => hblank c (List.mem_append_right _ hc),
    wordRuns_blank_append fun c hc => hblank c (List.mem_append_left _ hc)]

/-- A text has just one word if trimming leaves that and it has no blank in it. -/
theorem words_eq_singleton_iff {text word : String} : words text = [word] ↔
    trimBlanks text = word ∧ word ≠ "" ∧ ∀ c ∈ word.toList, isBlank c = false := by
  have hword : ∀ t : String, t ≠ "" → (∀ c ∈ t.toList, isBlank c = false) → words t = [t] := by
    intro t hne hblank
    unfold words
    rw [wordRuns_of_word (mt String.toList_eq_nil_iff.1 hne) hblank, List.map_singleton,
      String.ofList_toList]
  rw [← words_trimBlanks]
  obtain ⟨-, hhead, hlast⟩ := exists_trimBlanks text
  generalize trimBlanks text = core at hhead hlast ⊢
  constructor
  · intro h
    have hne : core ≠ "" := by
      rintro rfl
      cases h
    obtain ⟨run, hrun, -⟩ := List.map_eq_singleton_iff.1 h
    have hblank := isBlank_eq_false_of_wordRuns hrun hhead hlast
    obtain rfl : core = word := by simpa [hword core hne hblank] using h
    exact ⟨rfl, hne, hblank⟩
  · rintro ⟨rfl, hne, hblank⟩
    exact hword core hne hblank

/-! ## Commands -/

namespace Dialogue

/-- The input gives a command by this word: it is the only word of the input, in letters of either
case. -/
def Gives (input word : String) : Prop :=
  (words input).map (·.toList.map Char.toUpper) = [word.toList]

instance (input word : String) : Decidable (Gives input word) :=
  inferInstanceAs (Decidable (_ = _))

def commandWords : List String := ["RUN", "CLEAR", "LIST", "NEW"]

theorem Gives.unique {input word word' : String} (h : Gives input word) (h' : Gives input word') :
    word = word' :=
  String.toList_inj.1 (List.singleton_inj.1 (Eq.trans (Eq.symm h) h'))

/-- Only letters have an upper case of their own. -/
theorem toUpper_of_isBlank {c : Char} (h : isBlank c = true) : c.toUpper = c := by
  have hletter : ∀ range ∈ blankRanges, range.2 < 97 ∨ 122 < range.1 := by decide
  obtain ⟨range, hrange, hc⟩ := List.any_eq_true.1 h
  have hrange := hletter range hrange
  simp only [Bool.and_eq_true, decide_eq_true_eq] at hc
  refine dif_neg ?_
  rintro ⟨ha, hz⟩
  have ha : 97 ≤ c.toNat := UInt32.le_iff_toNat_le.1 ha
  have hz : c.toNat ≤ 122 := UInt32.le_iff_toNat_le.1 hz
  omega

/-- A command is what its input is trimmed to, in upper case. -/
theorem gives_iff {input word : String} (hword : word ∈ commandWords) :
    Gives input word ↔ (trimBlanks input).map Char.toUpper = word := by
  have hne : word ≠ "" := by
    rintro rfl
    exact absurd hword (by decide)
  have hblank : ∀ c ∈ word.toList, isBlank c = false := by
    have hall : commandWords.all (·.toList.all (!isBlank ·)) = true := by decide
    simpa using List.all_eq_true.1 hall word hword
  unfold Gives
  rw [List.map_eq_singleton_iff]
  constructor
  · rintro ⟨core, hwords, hcore⟩
    rw [(words_eq_singleton_iff.1 hwords).1, ← String.toList_inj, String.toList_map, hcore]
  · rintro rfl
    refine ⟨trimBlanks input, words_eq_singleton_iff.2 ⟨rfl, ?_, ?_⟩, String.toList_map.symm⟩
    · intro hempty
      exact hne (by simp [hempty])
    · intro c hc
      by_contra hc'
      rw [Bool.not_eq_false] at hc'
      have hupper := hblank c.toUpper (by rw [String.toList_map]; exact List.mem_map_of_mem hc)
      rw [toUpper_of_isBlank hc', hc'] at hupper
      cases hupper

/-- What an input is taken for. -/
theorem Command.ofInput_cases (input : String) :
    Gives input "RUN" ∧ ofInput input = .run ∨ Gives input "CLEAR" ∧ ofInput input = .clear ∨
    Gives input "LIST" ∧ ofInput input = .list ∨ Gives input "NEW" ∧ ofInput input = .new ∨
    (∀ word ∈ commandWords, ¬ Gives input word) ∧ ofInput input = .append input := by
  have hgives : ∀ word ∈ commandWords,
      (Gives input word ↔ (trimBlanks input).map Char.toUpper = word) := fun _ => gives_iff
  unfold ofInput
  simp only [commandWords, List.forall_mem_cons] at hgives ⊢
  split_ifs <;> simp_all

end Dialogue

end LineCalc
