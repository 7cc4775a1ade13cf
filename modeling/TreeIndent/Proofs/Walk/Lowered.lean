import TreeIndent.Proofs.Document.Lines
import TreeIndent.Proofs.Walk.Twins

/-!
# Code further down the file

Empty lines above a text move its code down and change no indent. `Document.lowered` puts empty lines before a
document, `Node.down` moves a tree along, and `Walk.lowered` is the walk over both. It is a twin of the walk
before, with the rows counted from further down (`lowered_twins`), and it starts from the same node
(`anchor_lowered`).
-/

namespace TreeIndent

/-! ## Trees further down -/

/-- The point so many rows further down. -/
def Point.down (rows : Nat) (p : Point) : Point :=
  ⟨p.row + rows, p.column⟩

mutual

/-- The node with all that is below it so many rows further down. -/
def Node.down (rows : Nat) : Node → Node
  | ⟨id, kind, start, stop, hasError, children⟩ =>
    ⟨id, kind, start.down rows, stop.down rows, hasError, downAmong rows children⟩

/-- The children so many rows further down. -/
def downAmong (rows : Nat) : List Node → List Node
  | [] => []
  | child :: rest => child.down rows :: downAmong rows rest

end

/-- The place in the tree so many rows further down. -/
def Place.down (rows : Nat) (place : Place) : Place :=
  ⟨place.node.down rows, place.above.map (Node.down rows)⟩

/-- How positions correspond that are so many rows apart. -/
def Point.Below (rows : Nat) (p q : Point) : Prop :=
  q = p.down rows

lemma Point.Below.row {rows : Nat} {p q : Point} (h : Point.Below rows p q) : q.row = p.row + rows := by
  cases h
  rfl

lemma Point.Below.column {rows : Nat} {p q : Point} (h : Point.Below rows p q) : q.column = p.column := by
  cases h
  rfl

mutual

/-- A node and the same node further down are twins. -/
lemma Node.twins_down (rows : Nat) : ∀ node : Node, node.Twins (Point.Below rows) (node.down rows)
  | ⟨id, kind, start, stop, hasError, children⟩ => by
    rw [Node.down]
    exact .intro rfl rfl (twins_downAmong rows children)

lemma twins_downAmong (rows : Nat) :
    ∀ children : List Node, List.Forall₂ (Node.Twins (Point.Below rows)) children (downAmong rows children)
  | [] => by
    rw [downAmong]
    exact .nil
  | child :: rest => by
    rw [downAmong]
    exact .cons (child.twins_down rows) (twins_downAmong rows rest)

end

namespace Place

lemma twins_down (rows : Nat) (place : Place) : place.Twins (Point.Below rows) (place.down rows) := by
  refine ⟨place.node.twins_down rows, ?_⟩
  show List.Forall₂ _ place.above (place.above.map (Node.down rows))
  rw [List.forall₂_map_right_iff, List.forall₂_same]
  exact fun node _ => node.twins_down rows

/-- A lookup further down finds what is further down. -/
lemma twins_atColumn (rows : Nat) (place : Place) (row column : Nat) :
    (place.atColumn row column).Twins (Point.Below rows) ((place.down rows).atColumn (row + rows) column) := by
  have hlike : Point.LieAlike (Point.Below rows) ⟨row, column⟩ ⟨row, column + 1⟩
      ⟨row + rows, column⟩ ⟨row + rows, column + 1⟩ := by
    constructor
    all_goals
      intro p q hbelow
      have hrow := hbelow.row
      have hcolumn := hbelow.column
      rw [Point.lt_def, Point.lt_def]
      dsimp only
      omega
  exact (place.node.twins_down rows).descend hlike (place.twins_down rows).above

end Place

/-! ## Documents with empty lines above -/

/-- The ending of a line. -/
inductive LineBreak where
  | feed
  | returnFeed
deriving DecidableEq, Repr

/-- The characters of a line's ending. -/
def LineBreak.text : LineBreak → Text
  | .feed => ['\n']
  | .returnFeed => ['\r', '\n']

namespace Document

/-- The document with empty lines above it, one for each of the endings. -/
def lowered (doc : Document) (breaks : List LineBreak) : Document :=
  doc.withText (breaks.flatMap LineBreak.text ++ doc.text)

/-- One more empty line above: it is the first line, and the others are counted on. -/
lemma line?_lowered_cons (doc : Document) (first : LineBreak) (rest : List LineBreak) :
    (doc.lowered (first :: rest)).line? 1 = some [] ∧
      ∀ row, (doc.lowered (first :: rest)).line? (row + 2) = (doc.lowered rest).line? (row + 1) := by
  obtain ⟨piece, hpieces, hempty⟩ : ∃ piece,
      (doc.lowered (first :: rest)).pieces = piece :: (doc.lowered rest).pieces ∧ piece.dropReturn = [] := by
    have htext : (doc.lowered (first :: rest)).text = first.text ++ (doc.lowered rest).text :=
      List.append_assoc ..
    unfold LinedText.pieces
    rw [htext]
    cases first with
    | feed => exact ⟨[], rfl, rfl⟩
    | returnFeed => exact ⟨['\r'], rfl, rfl⟩
  constructor
  · rw [line?_succ, hpieces, List.getElem?_cons_zero, Option.map_some, hempty]
  · intro row
    rw [line?_succ, hpieces, List.getElem?_cons_succ, line?_succ]

lemma line?_lowered_above (doc : Document) (breaks : List LineBreak) {row : Nat} (h : row < breaks.length) :
    (doc.lowered breaks).line? (row + 1) = some [] := by
  induction breaks generalizing row with
  | nil => exact absurd h (Nat.not_lt_zero row)
  | cons first rest ih =>
    cases row with
    | zero => exact (doc.line?_lowered_cons first rest).1
    | succ row => rw [(doc.line?_lowered_cons first rest).2, ih (Nat.lt_of_succ_lt_succ h)]

variable {doc : Document} {line : Nat} (hline : 1 ≤ line) (breaks : List LineBreak)

/-- The empty lines are blank. -/
lemma previousNonblank?_lowered_above {row : Nat} (h : row ≤ breaks.length) :
    (doc.lowered breaks).previousNonblank? (row + 1) = none := by
  induction row with
  | zero => rfl
  | succ row ih =>
    rw [LinedText.previousNonblank?, doc.line?_lowered_above breaks h, ih (Nat.le_of_succ_le h)]
    rfl

include hline

lemma line?_lowered : (doc.lowered breaks).line? (line + breaks.length) = doc.line? line := by
  obtain ⟨row, rfl⟩ : ∃ row, line = row + 1 := ⟨line - 1, by omega⟩
  induction breaks with
  | nil =>
    show (doc.lowered []).line? (row + 1) = _
    rw [line?_succ, line?_succ]
    rfl
  | cons first rest ih =>
    rw [List.length_cons, show row + 1 + (rest.length + 1) = row + rest.length + 2 by omega,
      (doc.line?_lowered_cons first rest).2, ← ih]
    congr 1
    omega

lemma lineD_lowered : (doc.lowered breaks).lineD (line + breaks.length) = doc.lineD line := by
  rw [LinedText.lineD, LinedText.lineD, line?_lowered hline]

/-- So the last line with code above a line is still the same. -/
lemma previousNonblank?_lowered :
    (doc.lowered breaks).previousNonblank? (line + breaks.length)
      = (doc.previousNonblank? line).map (· + breaks.length) := by
  induction line, hline using Nat.le_induction with
  | base =>
    rw [Nat.add_comm, previousNonblank?_lowered_above breaks (Nat.le_refl _)]
    rfl
  | succ previous hprevious ih =>
    rw [Nat.add_right_comm, LinedText.previousNonblank?, LinedText.previousNonblank?, line?_lowered hprevious, ih]
    split <;> rfl

omit hline in
lemma previousNonblank?_pos {previous : Nat} (h : doc.previousNonblank? line = some previous) : 1 ≤ previous := by
  induction line with
  | zero => cases h
  | succ row ih =>
    rw [LinedText.previousNonblank?] at h
    split at h
    · next hcode =>
      obtain rfl : row = previous := Option.some.inj h
      cases row with
      | zero => cases hcode
      | succ row => exact Nat.succ_pos row
    · exact ih h

end Document

/-! ## Walks further down -/

namespace Walk

/-- The walk with empty lines above the text and the tree moved down along with it. A root that starts the text
does so no more when there is a line above it. -/
def lowered (walk : Walk) (breaks : List LineBreak) : Walk :=
  { walk with
    root := walk.root.down breaks.length
    startsText := walk.startsText && breaks.isEmpty
    document := walk.document.lowered breaks }

section Lowered

variable (walk : Walk) (breaks : List LineBreak)

lemma lineD_lowered {line : Nat} (hline : 1 ≤ line) :
    (walk.lowered breaks).document.lineD (line + breaks.length) = walk.document.lineD line :=
  Document.lineD_lowered hline breaks

lemma rowIndent_lowered (row : Nat) :
    (walk.lowered breaks).rowIndent (row + breaks.length) = walk.rowIndent row := by
  unfold rowIndent LinedText.lineIndent
  rw [Nat.add_right_comm row breaks.length 1, walk.lineD_lowered breaks (Nat.succ_pos row)]
  rfl

/-- The two walks read the same, with the rows counted from further down. -/
lemma lowered_twins (row : Nat) :
    Twins (Point.Below breaks.length) (· + breaks.length) (fun _ => True) row walk (walk.lowered breaks) where
  mono := fun _ _ h => Nat.add_lt_add_right h _
  rows _ _ hbelow := hbelow.row
  columns _ _ hbelow _ := hbelow.column
  indents r _ := walk.rowIndent_lowered breaks r
  endings node node' hnode _ delimiter := by
    unfold Node.restOfLine
    rw [hnode.start.row, hnode.stop.column, Nat.add_right_comm node.start.row breaks.length 1,
      walk.lineD_lowered breaks (Nat.succ_pos _)]
    rfl
  marking := rfl
  shiftWidth := rfl

/-- The root of an injected layer starts on the same line, and it starts the text neither before nor after. -/
lemma base_lowered (hlayer : walk.injected = true → walk.startsText = false) :
    (walk.lowered breaks).base = walk.base := by
  have hrow : (walk.lowered breaks).root.node.start.row = walk.root.node.start.row + breaks.length :=
    (walk.root.twins_down breaks.length).node.start.row
  have hindent := walk.rowIndent_lowered breaks walk.root.node.start.row
  unfold base
  rw [hrow, hindent]
  show (if walk.injected && !(walk.startsText && breaks.isEmpty) then _ else _) = _
  cases hinjected : walk.injected with
  | false => rfl
  | true =>
    rw [hlayer hinjected]
    rfl

/-! ### The anchor -/

section Anchor

variable {line : Nat} (hline : 1 ≤ line)

include hline

lemma twins_onLine (column : Nat) :
    (walk.root.atColumn (line - 1) column).Twins (Point.Below breaks.length)
      ((walk.lowered breaks).root.atColumn (line + breaks.length - 1) column) := by
  rw [show line + breaks.length - 1 = line - 1 + breaks.length by omega]
  exact walk.root.twins_atColumn ..

lemma twins_firstNode :
    (walk.firstNode line).Twins (Point.Below breaks.length)
      ((walk.lowered breaks).firstNode (line + breaks.length)) := by
  unfold firstNode Place.firstOnLine
  rw [walk.lineD_lowered breaks hline]
  exact walk.twins_onLine breaks hline _

/-- A comment after the code is skipped in both walks or in neither, and the code before it is the same. -/
lemma twins_lastCodeNode :
    (walk.lastCodeNode line).Twins (Point.Below breaks.length)
      ((walk.lowered breaks).lastCodeNode (line + breaks.length)) := by
  have hat := walk.twins_onLine breaks hline
  have hlast := hat ((walk.document.lineD line).lastColumn?.getD 0)
  have hfirst := hat (walk.document.lineD line).indentLength
  have hrow := hlast.node.start.row
  unfold lastCodeNode Place.firstOnLine Place.lastOnLine
  dsimp only [Option.getD_some, Option.getD_none]
  rw [walk.lineD_lowered breaks hline, hlast.node.isComment_eq, hlast.node.id_eq, hfirst.node.id_eq,
    hlast.node.start.column, hrow]
  have hon : ∀ r, (r + breaks.length == line + breaks.length - 1) = (r == line - 1) := by
    intro r
    rw [Bool.eq_iff_iff, beq_iff_eq, beq_iff_eq]
    omega
  rw [hon]
  split
  · split
    · exact hat _
    · exact hlast
  · exact hlast

/-- Both walks start from the same node. -/
lemma anchor_lowered :
    (walk.anchor line).Twins (Point.Below breaks.length)
      ((walk.lowered breaks).anchor (line + breaks.length)) := by
  have hprevious : (walk.lowered breaks).document.previousNonblank? (line + breaks.length)
      = (walk.document.previousNonblank? line).map (· + breaks.length) :=
    Document.previousNonblank?_lowered hline breaks
  have hfirst := walk.twins_firstNode breaks hline
  unfold anchor
  rw [walk.lineD_lowered breaks hline, hprevious]
  split
  · cases hfound : walk.document.previousNonblank? line with
    | none => exact hfirst
    | some previous =>
      have hlast := walk.twins_lastCodeNode breaks (Document.previousNonblank?_pos hfound)
      have hends : ((walk.lowered breaks).lastCodeNode (previous + breaks.length)).chain.any
          ((walk.lowered breaks).marks .finish)
            = (walk.lastCodeNode previous).chain.any (walk.marks .finish) := by
        refine forall₂_any ?_ hlast.chain
        exact fun node node' hnode => (walk.lowered_twins breaks 0).marks_eq hnode .finish
      dsimp only [Option.map_some]
      rw [hends]
      split
      · exact hfirst
      · exact hlast
  · exact hfirst

end Anchor

end Lowered

/-- Moving code down the file does not change its indent. With empty lines above the text, and the tree moved
down by as many rows, every line gets the indent that it had, unless an injected root stood at the start of the
text. -/
theorem indentOf_lowered (walk : Walk) (breaks : List LineBreak) (line : Nat) (hline : 1 ≤ line)
    (hlayer : walk.injected = true → walk.startsText = false) :
    (walk.lowered breaks).indentOf (line + breaks.length) = walk.indentOf line :=
  (walk.lowered_twins breaks (line - 1)).indentOf rfl (by omega) (walk.anchor_lowered breaks hline)
    (walk.base_lowered breaks hlayer) fun _ _ => trivial

/-- An injected block that starts on the second line. Its third line ends in a comment which would put the line
after it at column zero. -/
def injectedBlock : Walk where
  root := ⟨⟨0, "block", ⟨1, 2⟩, ⟨4, 3⟩, false,
    [⟨1, "do", ⟨1, 2⟩, ⟨1, 4⟩, false, []⟩, ⟨2, "name", ⟨2, 4⟩, ⟨2, 5⟩, false, []⟩,
      ⟨3, "comment", ⟨2, 6⟩, ⟨2, 9⟩, false, []⟩, ⟨4, "end", ⟨4, 0⟩, ⟨4, 3⟩, false, []⟩]⟩, []⟩
  injected := true
  startsText := false
  marking := .ofList [(.begin, 0, {}), (.zero, 3, {})]
  patterns := .classes
  document := .new 1 "<p>\n  do\n    x # c\n\nend".toList
  shiftWidth := 4
  tabSize := 4

/-- The blank line of the block is one level deeper than the block, with and without two empty lines above. -/
theorem injectedBlock_lowered :
    (injectedBlock.injected = true → injectedBlock.startsText = false) ∧
      (List.range' 1 7).map (injectedBlock.lowered [.feed, .returnFeed]).document.lineD
        = ["", "", "<p>", "  do", "    x # c", "", "end"].map String.toList ∧
      injectedBlock.indentOf 4 = .column 6 ∧
      (injectedBlock.lowered [.feed, .returnFeed]).indentOf 6 = injectedBlock.indentOf 4 := by
  have hlayer : injectedBlock.injected = true → injectedBlock.startsText = false := fun _ => rfl
  refine ⟨hlayer, by decide, by decide +kernel, ?_⟩
  exact indentOf_lowered injectedBlock [.feed, .returnFeed] 4 (by decide) hlayer

end Walk

end TreeIndent
