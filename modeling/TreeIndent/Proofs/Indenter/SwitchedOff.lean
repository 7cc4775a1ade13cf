import TreeIndent.Proofs.Forest.Selection
import TreeIndent.Proofs.Indenter.Caching

/-!
# Languages that are switched off

A language that is switched off leaves its lines to generic indenting. The setting is looked up under the
language of the layer that decides a line, so it has no say about a line that no layer decides: such a line is
put at column zero, whatever is switched off.

`indentOf_of_switchesOff` gives the answer for every line of a forest whose languages are all switched off, and
says for which forests every line of a document is left alone. The root of a tree starts at its first token, so
white space at the start of a text is before the root, and the lines of it are not left alone
(`setIn_lines_not_left_alone`).
-/

namespace TreeIndent

/-! ## Lines that a layer decides -/

namespace Forest

/-- Some layer of the forest may decide the line. -/
def Covers (forest : Forest) (line : Nat) : Prop :=
  ∃ layer ∈ forest.layers, layer.MayDecide line

instance (forest : Forest) (line : Nat) : Decidable (forest.Covers line) :=
  inferInstanceAs (Decidable (∃ layer ∈ forest.layers, _))

lemma layerFor?_eq_none_iff {forest : Forest} {line : Nat} :
    forest.layerFor? line = none ↔ ¬ forest.Covers line := by
  unfold layerFor? Covers
  rw [Option.map_eq_none_iff, choice?_eq_none_iff]
  push Not
  rfl

/-- The start of the text is covered just by the layers for code that start there. -/
lemma covers_one_iff {forest : Forest} :
    forest.Covers 1 ↔
      ∃ layer ∈ forest.layers, layer.commentOnly = false ∧ layer.tree.root.start = .origin := by
  have hstart : ∀ p : Point, p ≤ ⟨0, 0⟩ ↔ p = .origin := by
    rintro ⟨row, column⟩
    simp only [Point.le_def, Point.origin, Point.mk.injEq]
    omega
  have hstop : ∀ p : Point, (⟨0, 0⟩ : Point) ≤ p := by
    intro p
    simp only [Point.le_def]
    omega
  unfold Covers
  refine exists_congr fun layer => and_congr_right fun _ => ⟨?_, ?_⟩
  · intro hmay
    exact ⟨hmay.code, (hstart _).1 hmay.start_le⟩
  · rintro ⟨hcode, horigin⟩
    exact ⟨hcode, (hstart _).2 horigin, hstop _⟩

end Forest

/-! ## Switched off languages -/

/-- Every language of the forest is switched off. -/
def Config.SwitchesOff (config : Config) (forest : Forest) : Prop :=
  ∀ layer ∈ forest.layers, config.isEnabled layer.language = false

instance (config : Config) (forest : Forest) : Decidable (config.SwitchesOff forest) :=
  inferInstanceAs (Decidable (∀ layer ∈ forest.layers, _))

namespace Indenter

variable {Query : Type}

/-- One line: it is left alone if some layer may decide it, and at column zero otherwise. The indenter stays as
it is, since no marking is asked for. -/
lemma indentOf_eq_of_switchesOff {indenter : Indenter Query} {forest : Forest}
    (h : indenter.config.SwitchesOff forest) (doc : Document) (line : Nat) :
    indenter.indentOf doc forest line = (if forest.Covers line then .auto else .column 0, indenter) := by
  unfold indentOf
  cases hlayer : forest.layerFor? line with
  | none => rw [if_neg (Forest.layerFor?_eq_none_iff.1 hlayer)]
  | some layer =>
    have hcovers : forest.Covers line := by
      by_contra hnot
      rw [Forest.layerFor?_eq_none_iff.2 hnot] at hlayer
      cases hlayer
    have hoff := h layer (Forest.mem_layers_of_layerFor? hlayer)
    simp only [hoff, Bool.false_eq_true, if_false, if_pos hcovers]

/-- With all languages of a forest switched off, a line is left alone just if a layer for code covers its start.
So all lines of a document are left alone just if these layers cover the start of each of its rows, and the
first line only if one of them starts at the start of the text. -/
theorem indentOf_of_switchesOff (indenter : Indenter Query) (doc : Document) (forest : Forest)
    (h : indenter.config.SwitchesOff forest) :
    (∀ line, indenter.indentOf doc forest line
      = (if forest.Covers line then .auto else .column 0, indenter)) ∧
    ((∀ line, 1 ≤ line → line ≤ doc.lineCount → (indenter.indentOf doc forest line).1 = .auto) ↔
      ∀ row < doc.lineCount, ∃ layer ∈ forest.layers, layer.commentOnly = false ∧
        layer.tree.root.start ≤ ⟨row, 0⟩ ∧ ⟨row, 0⟩ ≤ layer.tree.root.stop) ∧
    ((indenter.indentOf doc forest 1).1 = .auto ↔
      ∃ layer ∈ forest.layers, layer.commentOnly = false ∧ layer.tree.root.start = .origin) := by
  have hline := indentOf_eq_of_switchesOff h doc
  have hauto : ∀ line, (indenter.indentOf doc forest line).1 = .auto ↔ forest.Covers line := by
    intro line
    rw [hline line]
    by_cases hcovers : forest.Covers line
    · simp [hcovers]
    · simp [hcovers]
  refine ⟨hline, ⟨?_, ?_⟩, (hauto 1).trans Forest.covers_one_iff⟩
  · intro hall row hrow
    obtain ⟨layer, hlayer, hmay⟩ := (hauto (row + 1)).1 (hall (row + 1) (by omega) hrow)
    exact ⟨layer, hlayer, hmay.code, hmay.start_le, hmay.le_stop⟩
  · intro hrows line hpos hcount
    obtain ⟨layer, hlayer, hcode, hstart, hstop⟩ := hrows (line - 1) (by omega)
    exact (hauto line).2 ⟨layer, hlayer, hcode, hstart, hstop⟩

/-! ### A text that starts with white space

The only token of the text is on its third line and set in by two columns; the root starts there and reaches to
the empty fourth line. -/

/-- The forest of that text. -/
def setInForest : Forest where
  layers := [⟨"json",
    { tree := ⟨1, 4, 8, ⟨0, "document", ⟨2, 2⟩, ⟨3, 0⟩, false,
        [⟨1, "array", ⟨2, 2⟩, ⟨2, 5⟩, false,
          [⟨2, "[", ⟨2, 2⟩, ⟨2, 3⟩, false, []⟩, ⟨3, "number", ⟨2, 3⟩, ⟨2, 4⟩, false, []⟩,
            ⟨4, "]", ⟨2, 4⟩, ⟨2, 5⟩, false, []⟩]⟩]⟩⟩
      run := { captureNames := ["indent.begin", "indent.branch"], properties := [[], []],
               found := [⟨0, [⟨0, 1⟩]⟩, ⟨1, [⟨1, 4⟩]⟩] } }, false, false⟩]
  generation := 1

/-- The document of that text. -/
def setInDocument : Document :=
  .new 1 "\n\n  [1]\n".toList

/-- An indenter for which the language of the forest is switched off. Queries are known by the language that they
are for. -/
def offIndenter : Indenter String :=
  .new (.builtin { bundled := .ok, compile := fun language _ => .ok language })
    { languages := Table.empty.insert "json" { enabled := false } } .classes

/-- On these inputs the last line is left alone and the third line, the one with the token, is not. -/
theorem setIn_of_switchesOff :
    offIndenter.config.SwitchesOff setInForest ∧ setInForest.Covers 4 ∧ ¬ setInForest.Covers 3 ∧
      offIndenter.indentOf setInDocument setInForest 4 = (.auto, offIndenter) ∧
      offIndenter.indentOf setInDocument setInForest 3 = (.column 0, offIndenter) := by
  have hoff : offIndenter.config.SwitchesOff setInForest := by decide +kernel
  have hlast : setInForest.Covers 4 := by decide
  have htoken : ¬ setInForest.Covers 3 := by decide
  obtain ⟨hline, -, -⟩ := indentOf_of_switchesOff offIndenter setInDocument setInForest hoff
  refine ⟨hoff, hlast, htoken, ?_, ?_⟩
  · rw [hline 4, if_pos hlast]
  · rw [hline 3, if_neg htoken]

/-- It is not so that with all languages of a forest switched off every line is left alone: of the four lines
here the first three are put at column zero. -/
theorem setIn_lines_not_left_alone :
    offIndenter.config.SwitchesOff setInForest ∧ setInDocument.lineCount = 4 ∧
      (offIndenter.reindent setInDocument setInForest 1 4).1
        = [(1, .column 0), (2, .column 0), (3, .column 0), (4, .auto)] ∧
      ¬ ∀ line, 1 ≤ line → line ≤ setInDocument.lineCount →
        (offIndenter.indentOf setInDocument setInForest line).1 = .auto := by
  refine ⟨by decide +kernel, by decide, by decide +kernel, ?_⟩
  intro hall
  have hthird : (offIndenter.indentOf setInDocument setInForest 3).1 = .column 0 := by decide +kernel
  rw [hall 3 (by decide) (by decide)] at hthird
  cases hthird

end Indenter

end TreeIndent
