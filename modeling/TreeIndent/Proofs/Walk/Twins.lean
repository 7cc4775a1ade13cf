import TreeIndent.Walk.Basic
import TreeIndent.Proofs.Tree.Twins
import Mathlib.Order.Monotone.Basic
import Mathlib.Tactic.Common

/-!
# Walks over twin trees

A walk compares rows, reads roles by the numbers of nodes, and reads the text and the columns of a few places
only: the text after a delimiter, the column of an opening delimiter above the line and the indentation of
that delimiter's line. `Walk.Twins` says that two walks agree in all this, with the rows of one renamed into
those of the other. The climbs of twin walks give the same indent (`Twins.climb`), because each visit does the
same in both (`Twins.visit`).

The text after a delimiter is compared only for the delimiters that the walk selects (`selectedAlong`).
-/

namespace TreeIndent

/-- Delimiters at twin nodes. Where the first is `plain`, both end their lines or neither does. -/
structure Delimiter.Twins (moves : Point → Point → Prop) (plain : Node → Prop)
    (delimiter twin : Delimiter) : Prop where
  node : delimiter.node.Twins moves twin.node
  endsLine : plain delimiter.node → twin.endsLine = delimiter.endsLine

namespace Walk

/-! ## The delimiters that a walk selects -/

/-- The delimiters that alignment selects in the visit of a node. -/
def selectedAt (walk : Walk) (row : Nat) (progress : Progress) (inError : Bool) (node : Node) : List Node :=
  if (walk.verdict? row node).isSome || progress.counted.contains node.start.row then []
  else
    match walk.aligns? row inError node with
    | none => []
    | some attrs =>
      match walk.delimiter? .opening attrs node with
      | none => []
      | some opening =>
        let closing := walk.delimiter? .closing attrs node
        opening.node :: (closing.map Delimiter.node).toList

/-- The delimiters that alignment selects along a climb. -/
def selectedAlong (walk : Walk) (row : Nat) : Progress → List Node → List Node
  | _, [] => []
  | progress, node :: above =>
    let inError := above.head?.any (·.hasError)
    walk.selectedAt row progress inError node ++
      match walk.visit row progress inError node with
      | .stop _ => []
      | .go next => walk.selectedAlong row next above

/-- The delimiters that are selected on the way to the indent of a line. -/
def selected (walk : Walk) (line : Nat) : List Node :=
  let anchor := walk.anchor line
  if walk.marks .zero anchor.node then []
  else walk.selectedAlong (line - 1) ⟨walk.base, []⟩ anchor.chain

/-! ## Twin walks -/

/-- Two walks that read the same at a row of the first: rows are renamed by `rename`, positions correspond by
`moves`, and the text after a delimiter is alike where the delimiter is `plain`. Columns and indentations
need not be alike on the row itself. -/
structure Twins (moves : Point → Point → Prop) (rename : Nat → Nat) (plain : Node → Prop) (row : Nat)
    (walk twin : Walk) : Prop where
  mono : StrictMono rename
  rows : ∀ p q, moves p q → q.row = rename p.row
  columns : ∀ p q, moves p q → p.row ≠ row → q.column = p.column
  indents : ∀ r, r ≠ row → twin.rowIndent (rename r) = walk.rowIndent r
  endings : ∀ node node', node.Twins moves node' → plain node → ∀ delimiter,
    twin.patterns.onlyDelimiter delimiter (node'.restOfLine twin.document)
      = walk.patterns.onlyDelimiter delimiter (node.restOfLine walk.document)
  marking : twin.marking = walk.marking
  shiftWidth : twin.shiftWidth = walk.shiftWidth

/-- The progress with its rows renamed. -/
def Progress.rename (rename : Nat → Nat) (progress : Progress) : Progress :=
  ⟨progress.indent, progress.counted.map rename⟩

/-- What a node makes of the climb, with the rows renamed. -/
def Step.rename (rename : Nat → Nat) : Step → Step
  | .stop answer => .stop answer
  | .go progress => .go (progress.rename rename)

/-- Renaming after a row was counted, or not. -/
lemma Step.rename_go (rename : Nat → Nat) (indent : Int) (counts : Bool) (r : Nat) (counted : List Nat) :
    Step.rename rename (.go ⟨indent, if counts then r :: counted else counted⟩)
      = .go ⟨indent, if counts then rename r :: counted.map rename else counted.map rename⟩ := by
  cases counts <;> rfl

namespace Twins

variable {moves : Point → Point → Prop} {rename : Nat → Nat} {plain : Node → Prop} {row : Nat}
  {walk twin : Walk} {node node' : Node}

section Reads

variable (h : Twins moves rename plain row walk twin) (hnode : node.Twins moves node')

include h

lemma level_eq : twin.level = walk.level := by
  unfold level
  rw [h.shiftWidth]

lemma lt_iff (a b : Nat) : rename a < rename b ↔ a < b :=
  h.mono.lt_iff_lt

lemma beq_eq (a b : Nat) : (rename a == rename b) = (a == b) := by
  rw [Bool.eq_iff_iff, beq_iff_eq, beq_iff_eq]
  exact h.mono.injective.eq_iff

include hnode

lemma start_row : node'.start.row = rename node.start.row :=
  h.rows _ _ hnode.start

lemma stop_row : node'.stop.row = rename node.stop.row :=
  h.rows _ _ hnode.stop

lemma marks_eq (role : Role) : twin.marks role node' = walk.marks role node := by
  unfold marks
  rw [h.marking, hnode.id_eq]

lemma surroundsRow_eq : node'.surroundsRow (rename row) = node.surroundsRow row := by
  unfold Node.surroundsRow
  rw [h.start_row hnode, h.stop_row hnode]
  simp only [h.mono.lt_iff_lt, h.mono.le_iff_le]

lemma verdict?_eq : twin.verdict? (rename row) node' = walk.verdict? row node := by
  unfold verdict?
  simp only [h.marks_eq hnode, h.surroundsRow_eq hnode]

lemma dedents_eq : twin.dedents (rename row) node' = walk.dedents row node := by
  unfold dedents
  rw [h.start_row hnode, h.beq_eq, h.marks_eq hnode, h.marks_eq hnode]

lemma begins?_eq (inError : Bool) : twin.begins? (rename row) inError node' = walk.begins? row inError node := by
  unfold begins?
  rw [h.marking, hnode.id_eq, h.start_row hnode, h.stop_row hnode]
  simp only [bne, h.beq_eq]

lemma addLevels_eq (inError : Bool) (indent : Int) :
    twin.addLevels (rename row) inError node' indent = walk.addLevels row inError node indent := by
  unfold addLevels
  rw [h.dedents_eq hnode, h.begins?_eq hnode, h.level_eq]

lemma aligns?_eq (inError : Bool) : twin.aligns? (rename row) inError node' = walk.aligns? row inError node := by
  have hchildren : (node'.children.findSome? fun child => twin.marking.get? .align child.id)
      = node.children.findSome? fun child => walk.marking.get? .align child.id :=
    forall₂_findSome? (fun child child' hchild => by rw [h.marking, hchild.id_eq]) hnode.children
  unfold aligns?
  rw [hchildren, h.marking, hnode.id_eq, h.start_row hnode, h.stop_row hnode]
  simp only [bne, h.beq_eq]

end Reads

/-! ### Alignment -/

section Alignment

variable (h : Twins moves rename plain row walk twin)

include h

/-- The delimiters that twin nodes have at an edge. -/
lemma delimiter? (hnode : node.Twins moves node') (edge : Edge) (attrs : Attributes) :
    Option.Rel (Delimiter.Twins moves plain) (walk.delimiter? edge attrs node) (twin.delimiter? edge attrs node') := by
  unfold Walk.delimiter? Node.delimiter?
  refine rel_map ?_ (forall₂_find? ?_ hnode.children)
  · intro child child' hchild
    refine ⟨hchild, fun hplain => ?_⟩
    dsimp only
    rw [hchild.kind_eq]
    exact h.endings child child' hchild hplain _
  · intro child child' hchild
    unfold Node.isDelimiter
    rw [hchild.kind_eq, hchild.id_eq, h.marking]

/-- The indentation of the opening delimiter's line counts only where that is not the line itself. -/
lemma avoidNextLine_eq {opening opening' : Delimiter} {closing closing' : Option Delimiter}
    (hopen : opening.Twins moves plain opening')
    (hclose : Option.Rel (Delimiter.Twins moves plain) closing closing') (attrs : Attributes) (indent : Int) :
    twin.avoidNextLine (rename row) attrs opening' closing' indent
      = walk.avoidNextLine row attrs opening closing indent := by
  have hcloses : (closing'.any fun c =>
      c.node.start.row == rename row && c.node.start.row != opening'.node.start.row)
        = closing.any fun c => c.node.start.row == row && c.node.start.row != opening.node.start.row := by
    refine rel_any (fun c c' hc => ?_) hclose
    rw [h.start_row hc.node, h.start_row hopen.node]
    simp only [bne, h.beq_eq]
  unfold avoidNextLine
  dsimp only
  rw [hcloses]
  by_cases hrow : opening.node.start.row = row
  · -- A closing delimiter on the row does not stand below the opening one.
    have hnever : (closing.any fun c => c.node.start.row == row && c.node.start.row != opening.node.start.row)
        = false := by
      cases closing <;> simp [hrow]
    simp only [hnever, Bool.false_and, Bool.false_eq_true, if_false]
  · rw [h.start_row hopen.node, h.indents _ hrow, h.level_eq]

/-- Twin nodes align alike if the delimiters are plain. -/
lemma align_eq (hnode : node.Twins moves node') {attrs : Attributes}
    (hplain : ∀ opening ∈ walk.delimiter? .opening attrs node, plain opening.node ∧
      ∀ closing ∈ walk.delimiter? .closing attrs node, plain closing.node)
    (indent : Int) : twin.align (rename row) attrs node' indent = walk.align row attrs node indent := by
  have hopening := h.delimiter? hnode .opening attrs
  have hclosing := h.delimiter? hnode .closing attrs
  unfold align
  revert hplain hopening hclosing
  generalize walk.delimiter? .opening attrs node = opening?
  generalize twin.delimiter? .opening attrs node' = opening'?
  generalize walk.delimiter? .closing attrs node = closing
  generalize twin.delimiter? .closing attrs node' = closing'
  intro hplain hopening hclosing
  cases hopening with
  | none => rfl
  | @some opening opening' hopen =>
    obtain ⟨hplainOpen, hplainClose⟩ := hplain opening rfl
    have hbelow : opening'.node.start.row < rename row ↔ opening.node.start.row < row := by
      rw [h.start_row hopen.node, h.lt_iff]
    have hends : Option.Rel (fun c c' => c.node.Twins moves c'.node ∧ c'.endsLine = c.endsLine)
        closing closing' := by
      cases hclosing with
      | none => exact .none
      | some hc => exact .some ⟨hc.node, hc.endsLine (hplainClose _ rfl)⟩
    have hclosed : (closing'.any fun c => c.endsLine && decide (c.node.start.row < rename row))
        = closing.any fun c => c.endsLine && decide (c.node.start.row < row) := by
      refine rel_any (fun c c' hc => ?_) hends
      rw [hc.2, h.start_row hc.1]
      simp only [h.lt_iff]
    have hclosedApart : (closing'.any fun c => c.endsLine &&
        c.node.start.row != opening'.node.start.row && decide (c.node.start.row < rename row))
        = closing.any fun c => c.endsLine && c.node.start.row != opening.node.start.row &&
          decide (c.node.start.row < row) := by
      refine rel_any (fun c c' hc => ?_) hends
      rw [hc.2, h.start_row hc.1, h.start_row hopen.node]
      simp only [bne, h.beq_eq, h.lt_iff]
    simp only [hopen.endsLine hplainOpen, hclosed, hclosedApart, hbelow, h.avoidNextLine_eq hopen hclosing,
      outdent, h.level_eq]
    -- The column of the opening delimiter is read only below its row.
    by_cases habove : opening.node.start.row < row
    · rw [h.columns _ _ hopen.node.start (Nat.ne_of_lt habove)]
    · simp only [habove, if_false]

end Alignment

/-! ### The climb -/

/-- The delimiters by which a node aligns are selected in its visit. -/
lemma mem_selectedAt {progress : Progress} {inError : Bool} {attrs : Attributes} {opening : Delimiter}
    (hverdict : walk.verdict? row node = none) (hfree : progress.counted.contains node.start.row = false)
    (haligns : walk.aligns? row inError node = some attrs)
    (hopening : opening ∈ walk.delimiter? .opening attrs node) :
    opening.node ∈ walk.selectedAt row progress inError node ∧
      ∀ closing ∈ walk.delimiter? .closing attrs node, closing.node ∈ walk.selectedAt row progress inError node := by
  unfold selectedAt
  rw [hverdict, hfree, haligns]
  dsimp only
  rw [Option.mem_def.1 hopening]
  refine ⟨List.mem_cons_self .., fun closing hclosing => List.mem_cons_of_mem _ ?_⟩
  rw [Option.mem_def.1 hclosing]
  exact List.mem_singleton_self _

section Climb

variable (h : Twins moves rename plain row walk twin)

include h

/-- Twin nodes make the same of the climb if the selected delimiters are plain. -/
lemma visit (hnode : node.Twins moves node') (progress : Progress) (inError : Bool)
    (hplain : ∀ delimiter ∈ walk.selectedAt row progress inError node, plain delimiter) :
    twin.visit (rename row) (progress.rename rename) inError node'
      = (walk.visit row progress inError node).rename rename := by
  -- Renaming is one-to-one, so it does not mix up the rows that have been counted.
  have hcontains : (progress.rename rename).counted.contains (rename node.start.row)
      = progress.counted.contains node.start.row := by
    rw [List.contains_eq_mem, List.contains_eq_mem]
    exact decide_eq_decide.2 (List.mem_map_of_injective h.mono.injective)
  unfold Walk.visit
  rw [h.verdict?_eq hnode]
  cases hverdict : walk.verdict? row node with
  | some answer => rfl
  | none =>
    dsimp only
    rw [h.start_row hnode, hcontains]
    cases hfree : progress.counted.contains node.start.row with
    | true => rfl
    | false =>
      simp only [Bool.false_eq_true, if_false]
      rw [h.addLevels_eq hnode, h.dedents_eq hnode, h.begins?_eq hnode, h.aligns?_eq hnode]
      cases haligns : walk.aligns? row inError node with
      | none => exact (Step.rename_go ..).symm
      | some attrs =>
        -- Only here the text after the delimiters counts, and these are the selected ones.
        have hdelimiters : ∀ opening ∈ walk.delimiter? .opening attrs node,
            plain opening.node ∧ ∀ closing ∈ walk.delimiter? .closing attrs node, plain closing.node := by
          intro opening hopening
          obtain ⟨hopen, hclose⟩ := mem_selectedAt hverdict hfree haligns hopening
          exact ⟨hplain _ hopen, fun closing hclosing => hplain _ (hclose closing hclosing)⟩
        simp only [Progress.rename, h.align_eq hnode hdelimiters]
        cases walk.align row attrs node _ with
        | skipped => exact (Step.rename_go ..).symm
        | relative indent => exact (Step.rename_go ..).symm
        | absolute indent => rfl

/-- Twin climbs give the same indent if the delimiters selected along the first are plain. -/
theorem climb {chain chain' : List Node} (hchain : List.Forall₂ (Node.Twins moves) chain chain')
    (progress : Progress) (hplain : ∀ delimiter ∈ walk.selectedAlong row progress chain, plain delimiter) :
    twin.climb (rename row) (progress.rename rename) chain' = walk.climb row progress chain := by
  induction hchain generalizing progress with
  | nil => rfl
  | @cons node node' above above' hnode habove ih =>
    have hinError : (above'.head?.any (·.hasError)) = above.head?.any (·.hasError) := by
      cases habove with
      | nil => rfl
      | cons hparent _ => exact hparent.hasError_eq
    -- The delimiters of this visit come first, those of the visits after it follow.
    unfold selectedAlong at hplain
    have hhere := h.visit hnode progress (above.head?.any (·.hasError)) fun delimiter hdelimiter =>
      hplain delimiter (List.mem_append_left _ hdelimiter)
    rw [Walk.climb, Walk.climb, hinError, hhere]
    cases hvisit : walk.visit row progress (above.head?.any (·.hasError)) node with
    | stop answer => rfl
    | go next =>
      refine ih next fun delimiter hdelimiter => hplain delimiter (List.mem_append_right _ ?_)
      rw [hvisit]
      exact hdelimiter

/-- Twin walks from twin anchors give the same indent. -/
theorem indentOf {line line' : Nat} (hline : line - 1 = row) (hline' : line' - 1 = rename row)
    (hanchor : (walk.anchor line).Twins moves (twin.anchor line')) (hbase : twin.base = walk.base)
    (hplain : ∀ delimiter ∈ walk.selected line, plain delimiter) :
    twin.indentOf line' = walk.indentOf line := by
  subst hline
  unfold selected at hplain
  unfold Walk.indentOf
  dsimp only at hplain ⊢
  rw [h.marks_eq hanchor.node, hline', hbase]
  generalize walk.base = base at hplain ⊢
  by_cases hzero : walk.marks .zero (walk.anchor line).node = true
  · rw [if_pos hzero, if_pos hzero]
  · rw [if_neg hzero] at hplain
    rw [if_neg hzero, if_neg hzero]
    exact h.climb hanchor.chain ⟨base, []⟩ hplain

end Climb

end Twins

end Walk

end TreeIndent
