/-
Lexing and its inverse. The tokens of a text, written one after the other, give the text back with
its blanks as spaces; they are a canonical list, and every canonical list is what its text is cut
into.
-/
import LineCalc.Line
import LineCalc.Proofs.Token.Patterns

namespace LineCalc

/-- A character as it is listed: every blank becomes a space. -/
def spaced (c : Char) : Char := if isBlank c then ' ' else c

namespace Token

/-! ## Canonical lists -/

/-- A token that can be cut out of a line: a gap of some width, or the token of a word. -/
inductive IsPiece : Token → Prop where
  | gap {width : Nat} : 1 ≤ width → IsPiece (.blank width)
  | word {text : String} : text ≠ "" → (∀ c ∈ text.toList, LineCalc.isBlank c = false) →
      IsPiece (.classify text)

/-- Gaps and words that take turns. -/
structure IsCanonical (ts : List Token) : Prop where
  piece : ∀ t ∈ ts, t.IsPiece
  alternate : ts.IsChain fun s t => s.isBlank ≠ t.isBlank

/-- A token that is not blank, as its text has it: the text is a word, the token is the one that the
word is classified as, and its class is the one that the word's pattern gives. -/
structure FitsText (t : Token) : Prop where
  text_ne : t.text ≠ ""
  not_blank : ∀ c ∈ t.text.toList, LineCalc.isBlank c = false
  classify_text : classify t.text = t
  name_iff : ∀ name, t.name? = some name ↔ name = t.text ∧ t.text.toList ∈ identPattern
  integer_iff : ∀ digits, t = .integer digits ↔ digits = t.text ∧ t.text.toList ∈ integerPattern
  unknown_iff : ∀ rest, t = .unknown rest ↔ rest = t.text ∧ t.text ∉ ["config", "print"] ∧
    t.text ∉ ["+", "-", "*", "/", "="] ∧ t.text ∉ ["(", ")"] ∧ t.text.toList ∉ integerPattern ∧
    t.text.toList ∉ identPattern

/-- The text of tokens written one after the other. -/
def joinText (ts : List Token) : String := String.join (ts.map text)

theorem toList_joinText (ts : List Token) :
    (joinText ts).toList = (ts.map fun t => t.text.toList).flatten := by
  rw [joinText, String.toList_join, List.flatMap_map]
  rfl

/-! ## Pieces and runs -/

theorem isPiece_ofRun {run : List Char} (hne : run ≠ [])
    (huniform : ∀ c ∈ run, LineCalc.isBlank c = isBlankRun run) : (ofRun run).IsPiece := by
  cases hrun : isBlankRun run with
  | true =>
    rw [ofRun_of_blank hrun]
    exact .gap (List.length_pos_iff.2 hne)
  | false =>
    rw [ofRun_of_word hrun]
    rw [hrun] at huniform
    exact .word (by simpa using hne) (by simpa using huniform)

theorem toList_text_ofRun {run : List Char}
    (huniform : ∀ c ∈ run, LineCalc.isBlank c = isBlankRun run) :
    (ofRun run).text.toList = run.map spaced := by
  cases hrun : isBlankRun run with
  | true =>
    have hspaced : ∀ c ∈ run, spaced c = ' ' := fun c hc => if_pos ((huniform c hc).trans hrun)
    rw [ofRun_of_blank hrun, List.map_congr_left hspaced]
    simp [text]
  | false =>
    have hspaced : ∀ c ∈ run, spaced c = c := fun c hc =>
      if_neg (Bool.eq_false_iff.1 ((huniform c hc).trans hrun))
    rw [ofRun_of_word hrun, List.map_congr_left hspaced]
    simp

namespace IsPiece

variable {t : Token}

theorem toList_text_ne (h : t.IsPiece) : t.text.toList ≠ [] := by
  cases h with
  | gap hwidth =>
    simp only [text, String.toList_ofList, ne_eq, List.replicate_eq_nil_iff]
    omega
  | word hne _ => simpa using hne

theorem isBlank_of_mem (h : t.IsPiece) : ∀ c ∈ t.text.toList, LineCalc.isBlank c = t.isBlank := by
  cases h with
  | @gap width _ =>
    intro c hc
    obtain rfl : c = ' ' := List.eq_of_mem_replicate (by simpa [text] using hc)
    rfl
  | word _ hblank => simpa [isBlank_classify] using hblank

theorem isBlankRun_text (h : t.IsPiece) : isBlankRun t.text.toList = t.isBlank :=
  isBlankRun_of_forall h.toList_text_ne h.isBlank_of_mem

/-- A piece is what the run of its characters is cut out as. -/
theorem ofRun_text (h : t.IsPiece) : ofRun t.text.toList = t := by
  have hrun := h.isBlankRun_text
  cases h with
  | gap hwidth =>
    rw [ofRun_of_blank hrun]
    simp [text]
  | word _ hblank =>
    rw [isBlank_classify] at hrun
    rw [ofRun_of_word hrun, String.ofList_toList, text_classify]

theorem fitsText (h : t.IsPiece) (hblank : t.isBlank = false) : t.FitsText := by
  cases h with
  | gap => cases hblank
  | @word text hne hword =>
    constructor <;> rw [text_classify]
    · exact hne
    · exact hword
    · exact name?_classify_iff text
    · exact classify_eq_integer_iff text
    · exact classify_eq_unknown_iff text

end IsPiece

/-! ## Lists of tokens and cuts -/

theorem isCanonical_map_ofRun {rs : List (List Char)} (h : IsCut rs) :
    IsCanonical (rs.map ofRun) := by
  constructor
  · intro t ht
    obtain ⟨run, hrun, rfl⟩ := List.mem_map.1 ht
    exact isPiece_ofRun (h.ne_nil run hrun) (h.uniform run hrun)
  · rw [List.isChain_map]
    simpa using h.alternate

theorem IsCanonical.isCut {ts : List Token} (h : IsCanonical ts) :
    IsCut (ts.map fun t => t.text.toList) := by
  constructor
  · intro run hrun
    obtain ⟨t, ht, rfl⟩ := List.mem_map.1 hrun
    exact (h.piece t ht).toList_text_ne
  · intro run hrun
    obtain ⟨t, ht, rfl⟩ := List.mem_map.1 hrun
    rw [(h.piece t ht).isBlankRun_text]
    exact (h.piece t ht).isBlank_of_mem
  · rw [List.isChain_map]
    refine h.alternate.imp_of_mem_imp fun s t hs ht hne => ?_
    rwa [(h.piece s hs).isBlankRun_text, (h.piece t ht).isBlankRun_text]

theorem isCanonical_lex (text : String) : IsCanonical (lex text) :=
  isCanonical_map_ofRun (isCut_runs text)

/-- Nothing of a text is lost but which blanks it had. -/
theorem joinText_lex (text : String) :
    joinText (lex text) = String.ofList (text.toList.map spaced) := by
  have hcut := isCut_runs text
  have htexts : (lex text).map (fun t => t.text.toList) = (runs text).map (List.map spaced) := by
    show ((runs text).map ofRun).map _ = _
    rw [List.map_map]
    exact List.map_congr_left fun run hrun => toList_text_ofRun (hcut.uniform run hrun)
  rw [← String.toList_inj, toList_joinText, htexts, ← List.map_flatten, flatten_runs,
    String.toList_ofList]

/-- A list of tokens is cut out of its own text just if it is canonical. -/
theorem lex_joinText_iff (ts : List Token) : lex (joinText ts) = ts ↔ IsCanonical ts := by
  constructor
  · intro h
    rw [← h]
    exact isCanonical_lex _
  · intro h
    have hruns : runs (joinText ts) = ts.map fun t => t.text.toList :=
      (runs_eq_iff _ _).2 ⟨toList_joinText ts, h.isCut⟩
    show (runs (joinText ts)).map ofRun = ts
    rw [hruns, List.map_map]
    exact (List.map_congr_left fun t ht => (h.piece t ht).ofRun_text).trans (List.map_id ts)

/-- Lexing is lossless and canonical: the tokens of a text spell it, with its blanks as spaces; they
are gaps and words in turn, and each word's token fits it; a list of tokens is cut out of its own
text just if it is of that shape, so a line that is listed and read again is the same line. -/
theorem lex_lossless (text : String) :
    joinText (lex text) = String.ofList (text.toList.map spaced) ∧
      IsCanonical (lex text) ∧ (∀ t ∈ lex text, t.isBlank = false → t.FitsText) ∧
      (∀ ts, lex (joinText ts) = ts ↔ IsCanonical ts) ∧
      Line.ofString (Line.ofString text none).text none = Line.ofString text none := by
  have hcanonical := isCanonical_lex text
  refine ⟨joinText_lex text, hcanonical, ?_, lex_joinText_iff, ?_⟩
  · intro t ht hblank
    exact (hcanonical.piece t ht).fitsText hblank
  · show Line.mk none (lex (joinText (lex text))) = _
    rw [(lex_joinText_iff _).2 hcanonical]
    rfl

theorem lex_lossless_mixed :
    let text := "\tprint\u2003 -7 2+3"
    .unknown "2+3" ∈ lex text ∧ "2+3".toList ∉ integerPattern ∧ "2+3".toList ∉ identPattern ∧
      joinText (lex text) = " print  -7 2+3" := by
  intro text
  have hmem : .unknown "2+3" ∈ lex text := by decide
  obtain ⟨hjoin, -, hfits, -⟩ := lex_lossless text
  obtain ⟨-, -, -, -, hinteger, hident⟩ := ((hfits _ hmem rfl).unknown_iff "2+3").1 rfl
  exact ⟨hmem, hinteger, hident, hjoin.trans (by decide)⟩

end Token

end LineCalc
