/-
The variables that a program can see. A variable that holds zero or NaN is as good as none, and one
that the source does not mention is neither read nor written: contexts that differ only in such
variables run alike.
-/
import LineCalc.Proofs.Line.Columns
import LineCalc.Proofs.Line.Effects
import LineCalc.Proofs.Program.Appending

namespace LineCalc

/-! ## Mentioned names -/

/-- A token of the line stands for the name. -/
def Line.Mentions (line : Line) (name : String) : Prop :=
  ∃ token ∈ line.tokens, token.name? = some name

/-- A token of the source stands for the name. -/
def Program.Mentions (source name : String) : Prop :=
  ∃ text ∈ splitLines source, ∃ token ∈ Token.lex text, token.name? = some name

/-- The names in a statement are mentioned by its line. -/
theorem Line.mentions_of_mem_marks {line : Line} {statement : Statement} {span : Span}
    {name : String} (h : line.statement = .ok statement)
    (hm : (span, .name name) ∈ statement.marks) : line.Mentions name := by
  obtain ⟨vs, hvs, hmap⟩ := exists_lexemes h
  obtain ⟨l, hl, hlm⟩ : ∃ l ∈ vs, l.mark = (span, some (.name name)) := by
    rw [← List.mem_map, hmap]
    exact List.mem_map_of_mem hm
  have htoken : l.token ∈ (Lexeme.significant line.tokens).map Lexeme.token :=
    List.mem_map_of_mem (hvs.mem hl)
  rw [Lexeme.map_token_significant] at htoken
  exact ⟨l.token, List.mem_of_mem_filter htoken, Mark.name?_of_ofToken? (Prod.mk.inj hlm).2⟩

theorem Program.exists_text_of_mem_numberLines {first : Nat} {texts : List String} {line : Line}
    (h : line ∈ numberLines first texts) : ∃ text ∈ texts, line.tokens = Token.lex text := by
  induction texts generalizing first with
  | nil => cases h
  | cons text texts ih =>
    have hrest : line ∈ numberLines (first + 1) texts →
        ∃ text' ∈ text :: texts, line.tokens = Token.lex text' := by
      intro hmem
      obtain ⟨text', htext', htokens⟩ := ih hmem
      exact ⟨text', List.mem_cons_of_mem _ htext', htokens⟩
    unfold numberLines at h
    split at h
    · exact hrest h
    · rcases List.mem_cons.1 h with rfl | hmem
      · exact ⟨text, List.mem_cons_self, rfl⟩
      · exact hrest hmem

theorem Program.mentions_of_mem_lines {source name : String} {line : Line}
    (hline : line ∈ (ofSource source).lines) (h : line.Mentions name) : Mentions source name := by
  obtain ⟨text, hmem, htokens⟩ := exists_text_of_mem_numberLines hline
  obtain ⟨token, htoken, hname⟩ := h
  exact ⟨text, hmem, token, htokens ▸ htoken, hname⟩

/-! ## Contexts that cannot be told apart -/

namespace Context

/-- The variable has a value that an expression sees. -/
def Holds (context : Context) (name : String) (x : Binary64) : Prop :=
  context.fetch name = some x ∧ x.isZero = false ∧ x.isNaN = false

/-- The variable is absent, or it holds zero or NaN. -/
def Lacks (context : Context) (name : String) : Prop :=
  ∀ x, context.fetch name = some x → x.isZero = true ∨ x.isNaN = true

/-- The contexts have the same base, and each of the names has the same value in both or is lacking
in both, for whatever reasons. -/
structure Alike (names : String → Prop) (c d : Context) : Prop where
  base_eq : c.base = d.base
  values : ∀ name, names name →
    (∃ x, c.Holds name x ∧ d.Holds name x) ∨ c.Lacks name ∧ d.Lacks name

theorem read_eq_some_iff {c : Context} {name : String} {x : Binary64} :
    c.read name = some x ↔ c.Holds name x := by
  simp [read, Holds, Option.filter_eq_some_iff]

theorem read_eq_none_iff {c : Context} {name : String} : c.read name = none ↔ c.Lacks name := by
  simp only [read, Lacks, Option.filter_eq_none_iff]
  grind

theorem alike_iff {names : String → Prop} {c d : Context} :
    c.Alike names d ↔ c.base = d.base ∧ ∀ name, names name → c.read name = d.read name := by
  constructor
  · rintro ⟨hbase, hvalues⟩
    refine ⟨hbase, ?_⟩
    intro name hname
    rcases hvalues name hname with ⟨x, hc, hd⟩ | ⟨hc, hd⟩
    · rw [read_eq_some_iff.2 hc, read_eq_some_iff.2 hd]
    · rw [read_eq_none_iff.2 hc, read_eq_none_iff.2 hd]
  · rintro ⟨hbase, hread⟩
    refine ⟨hbase, ?_⟩
    intro name hname
    cases hc : c.read name with
    | none => exact .inr ⟨read_eq_none_iff.1 hc, read_eq_none_iff.1 (hread name hname ▸ hc)⟩
    | some x =>
      exact .inl ⟨x, read_eq_some_iff.1 hc, read_eq_some_iff.1 (hread name hname ▸ hc)⟩

/-- Whatever is stored, zero and NaN included, contexts stay alike. -/
theorem Alike.store {names : String → Prop} {c d : Context} (h : c.Alike names d) (name : String)
    (x : Binary64) : (c.store name x).Alike names (d.store name x) := by
  obtain ⟨hbase, hread⟩ := alike_iff.1 h
  refine alike_iff.2 ⟨hbase, ?_⟩
  intro other hother
  by_cases heq : name = other
  · simp [read, heq]
  · simpa [read, heq] using hread other hother

theorem Alike.setBase {names : String → Prop} {c d : Context} (h : c.Alike names d) (base : Base) :
    (c.setBase base).Alike names (d.setBase base) :=
  ⟨rfl, h.values⟩

end Context

/-! ## Running alike -/

/-- The value of an expression depends on what is read under its names. -/
theorem Expr.eval_congr {c d : Context} {e : Expr}
    (h : ∀ span name, (span, .name name) ∈ e.marks → c.read name = d.read name) :
    e.eval c = e.eval d := by
  induction e with
  | literal span value => rfl
  | var span name => simp only [eval, h span name (List.mem_singleton_self _)]
  | binary op span lhs rhs ihl ihr =>
    have hl : lhs.eval c = lhs.eval d := by
      apply ihl
      intro span' name hmem
      exact h span' name (List.mem_append_left _ hmem)
    have hr : rhs.eval c = rhs.eval d := by
      apply ihr
      intro span' name hmem
      exact h span' name (List.mem_append_right _ (List.mem_cons_of_mem _ hmem))
    simp only [eval, hl, hr]

/-- Runs that end alike: with the same result, the same output and contexts that are alike. -/
structure EndAlike {α : Type} (names : String → Prop) (first second : α × Machine) : Prop where
  result : first.1 = second.1
  output : first.2.output = second.2.output
  context : first.2.context.Alike names second.2.context

section

variable {names : String → Prop} {c d : Context}

theorem Statement.run_alike (statement : Statement) (output : Output) (h : c.Alike names d)
    (hnames : ∀ span name, (span, .name name) ∈ statement.marks → names name) :
    EndAlike names (statement.run ⟨c, output⟩) (statement.run ⟨d, output⟩) := by
  have heval : ∀ value : Expr, value.marks ⊆ statement.marks → value.eval c = value.eval d := by
    intro value hvalue
    apply Expr.eval_congr
    intro span name hmem
    exact (Context.alike_iff.1 h).2 name (hnames span name (hvalue hmem))
  cases statement with
  | empty => exact ⟨rfl, rfl, h⟩
  | config span base => exact ⟨rfl, rfl, h.setBase base⟩
  | assign span name value =>
    simp only [run, heval value (List.subset_cons_self _ _)]
    cases value.eval d with
    | error report => exact ⟨rfl, rfl, h⟩
    | ok x => exact ⟨rfl, rfl, h.store name x⟩
  | print span value =>
    simp only [run, heval value (List.subset_cons_self _ _), h.base_eq]
    cases value.eval d with
    | error report => exact ⟨rfl, rfl, h⟩
    | ok x =>
      cases d.base with
      | none => exact ⟨rfl, rfl, h⟩
      | some base => exact ⟨rfl, rfl, h⟩

theorem Line.run_alike (line : Line) (output : Output) (h : c.Alike names d)
    (hnames : ∀ name, line.Mentions name → names name) :
    EndAlike names (line.run ⟨c, output⟩) (line.run ⟨d, output⟩) := by
  unfold run
  cases hstatement : line.statement with
  | error report => exact ⟨rfl, rfl, h⟩
  | ok statement =>
    apply statement.run_alike output h
    intro span name hmem
    exact hnames name (mentions_of_mem_marks hstatement hmem)

theorem Program.runLines_alike (lines : List Line) (output : Output) (h : c.Alike names d)
    (hnames : ∀ line ∈ lines, ∀ name, line.Mentions name → names name) :
    EndAlike names (runLines lines ⟨c, output⟩) (runLines lines ⟨d, output⟩) := by
  induction lines generalizing c d output with
  | nil => exact ⟨rfl, rfl, h⟩
  | cons line lines ih =>
    have hline := line.run_alike output h (hnames line List.mem_cons_self)
    simp only [runLines]
    rcases hc : line.run ⟨c, output⟩ with ⟨first, c', output'⟩
    rcases hd : line.run ⟨d, output⟩ with ⟨second, d', output''⟩
    rw [hc, hd] at hline
    obtain ⟨rfl, rfl, hcontext⟩ := hline
    cases first with
    | error report => exact ⟨rfl, rfl, hcontext⟩
    | ok printed =>
      exact ih output' hcontext fun line' hmem => hnames line' (List.mem_cons_of_mem _ hmem)

end

/-! ## Variables that are not mentioned -/

theorem Line.fetch_run {line : Line} {name : String} (h : ¬ line.Mentions name)
    (machine : Machine) :
    (line.run machine).2.context.fetch name = machine.context.fetch name := by
  rcases line.run_cases machine with ⟨report, hrun, -⟩ | ⟨printed, after, effect, hrun, hdoes⟩
  · rw [hrun]
  · rw [hrun]
    cases hdoes with
    | setBase _ _ hfetch => exact hfetch name
    | assign hstatement _ _ hother =>
      apply hother
      rintro rfl
      exact h (mentions_of_mem_marks hstatement List.mem_cons_self)
    | print _ _ _ hcontext => rw [hcontext]
    | none _ hafter => rw [hafter]

namespace Program

theorem fetch_runLines {lines : List Line} {name : String}
    (h : ∀ line ∈ lines, ¬ line.Mentions name) (machine : Machine) :
    (runLines lines machine).2.context.fetch name = machine.context.fetch name := by
  induction lines generalizing machine with
  | nil => rfl
  | cons line lines ih =>
    have hline := Line.fetch_run (h line List.mem_cons_self) machine
    simp only [runLines]
    rcases hrun : line.run machine with ⟨report | printed, next⟩
    · rw [hrun] at hline
      exact hline
    · rw [hrun] at hline
      exact (ih (fun line' hmem => h line' (List.mem_cons_of_mem _ hmem)) next).trans hline

/-- A variable that holds zero or NaN cannot be told from one that is absent, and variables that the
source does not mention do not matter. In two contexts that are alike as to the names it mentions, a
source has the same result and adds the same rows, the contexts stay alike, and all other variables
stay as they were. -/
theorem runOn_alike (source : String) {c d : Context} (output : Output)
    (h : c.Alike (Mentions source) d) :
    let first := (ofSource source).runOn ⟨c, output⟩
    let second := (ofSource source).runOn ⟨d, output⟩
    first.1 = second.1 ∧
    (∃ rows, first.2.output = output ++ rows ∧ second.2.output = output ++ rows) ∧
    first.2.context.Alike (Mentions source) second.2.context ∧
    ∀ name, ¬ Mentions source name →
      first.2.context.fetch name = c.fetch name ∧ second.2.context.fetch name = d.fetch name := by
  intro first second
  obtain ⟨hresult, houtput, hcontext⟩ : EndAlike (Mentions source) first second :=
    runLines_alike _ output h fun line hline name hname => mentions_of_mem_lines hline hname
  have hrows : first.2.output = output ++ (runLines (ofSource source).lines ⟨c, .empty⟩).2.output :=
    congrArg (·.2.output) (runLines_output _ c output)
  refine ⟨hresult, ⟨_, hrows, houtput ▸ hrows⟩, hcontext, ?_⟩
  intro name hname
  have hlines : ∀ line ∈ (ofSource source).lines, ¬ line.Mentions name :=
    fun line hline hmentions => hname (mentions_of_mem_lines hline hmentions)
  exact ⟨fetch_runLines hlines _, fetch_runLines hlines _⟩

theorem runOn_alike_negative_zero :
    let source := "print y\nz = y\nprint z - x"
    let shared := (Context.ofBase (some .decimal)).store "y" (.infinity true)
    let c := ((shared.store "x" (.zero true)).store "z" .nan).store "w" (.infinity false)
    let d := shared.store "z" (.zero false)
    c.Alike (Mentions source) d ∧
      ((ofSource source).runOn ⟨c, .empty⟩).1 = ((ofSource source).runOn ⟨d, .empty⟩).1 ∧
      ((ofSource source).runOn ⟨c, .empty⟩).2.context.fetch "w" = some (.infinity false) := by
  intro source shared c d
  have hw : ¬ Mentions source "w" := by
    unfold Mentions
    decide +kernel
  have halike : c.Alike (Mentions source) d := by
    refine Context.alike_iff.2 ⟨rfl, ?_⟩
    intro name hname
    have hne : "w" ≠ name := by
      rintro rfl
      exact hw hname
    simp only [Context.read, c, d, Context.fetch_store, if_neg hne]
    by_cases hz : "z" = name
    · subst hz
      rfl
    · by_cases hx : "x" = name
      · subst hx
        rfl
      · simp only [if_neg hz, if_neg hx]
  obtain ⟨hresult, -, -, hfetch⟩ := runOn_alike source .empty halike
  exact ⟨halike, hresult, (hfetch "w" hw).1.trans (by simp [c])⟩

end Program

end LineCalc
