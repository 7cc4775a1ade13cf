import TreeIndent.Walk.Basic
import TreeIndent.Proofs.Tree.Places
import Mathlib.Tactic.Common
import Mathlib.Tactic.Ring

/-!
# The rules at one node

What a node of the chain does to the line at a row, said rule by rule, and the visit of a node in these terms.

* `Outdents`, `IndentsBy` and `share`: the levels that a node takes and adds.
* `Fills`: by this the row that the node starts on is used up, alignment left aside.
* `PinsBy`, `Pins` and `bump`: alignment that puts the line at a column next to a delimiter. Sums are those of
  signed words; `bump_of_isWord` is for sums that do not leave their range.
* `Seals`: by this the row is used up, alignment included.

A chain is a node and its ancestors, and nodes are known by their position on it. `Taken` says that a row is
used up by the nodes below a position. It is about the chain alone; `climb_drop` and the lemmas on `visit` tie
it to the rows that the climb has counted.
-/

namespace TreeIndent.Walk

/-! ## Positions on a chain -/

/-- Whether the parent of the node at a position has an error. -/
def parentError (chain : List Node) (i : Nat) : Bool :=
  (chain[i + 1]?).any (·.hasError)

/-- Whether some node below a position starts on a row and uses it up. -/
def Taken (uses : Bool → Node → Prop) (chain : List Node) (i row : Nat) : Prop :=
  ∃ j < i, ∃ lower ∈ chain[j]?, lower.start.row = row ∧ uses (parentError chain j) lower

instance (uses : Bool → Node → Prop) [∀ inError node, Decidable (uses inError node)] (chain : List Node)
    (i row : Nat) : Decidable (Taken uses chain i row) :=
  inferInstanceAs (Decidable (∃ j < i, ∃ lower ∈ chain[j]?, _))

lemma not_taken_zero (uses : Bool → Node → Prop) (chain : List Node) (row : Nat) :
    ¬ Taken uses chain 0 row := by
  rintro ⟨j, hj, -⟩
  omega

/-- A row is used up below the next position if it was before or if the node at this one uses it up. -/
lemma taken_succ {uses : Bool → Node → Prop} {chain : List Node} {i : Nat} {node : Node}
    (hnode : chain[i]? = some node) (row : Nat) :
    Taken uses chain (i + 1) row ↔
      Taken uses chain i row ∨ row = node.start.row ∧ uses (parentError chain i) node := by
  constructor
  · rintro ⟨j, hj, lower, hlower, hrow, huses⟩
    -- A position below the next one is below this one, or it is this one.
    rcases Nat.lt_succ_iff_lt_or_eq.1 hj with hlt | rfl
    · exact Or.inl ⟨j, hlt, lower, hlower, hrow, huses⟩
    · have hsame : lower = node := Option.some.inj (hlower.symm.trans hnode)
      subst hsame
      exact Or.inr ⟨hrow.symm, huses⟩
  · rintro (⟨j, hj, hrest⟩ | ⟨hrow, huses⟩)
    · exact ⟨j, Nat.lt_succ_of_lt hj, hrest⟩
    · exact ⟨i, Nat.lt_succ_self i, node, hnode, hrow.symm, huses⟩

/-- A node on a row that is used up leaves the rows as they are. -/
lemma taken_succ_of_taken {uses : Bool → Node → Prop} {chain : List Node} {i : Nat} {node : Node}
    (hnode : chain[i]? = some node) (htaken : Taken uses chain i node.start.row) (row : Nat) :
    Taken uses chain (i + 1) row ↔ Taken uses chain i row := by
  rw [taken_succ hnode]
  refine ⟨?_, Or.inl⟩
  rintro (hbelow | ⟨rfl, -⟩)
  · exact hbelow
  · exact htaken

/-! ## Levels -/

/-- A branch that starts on the row, or a dedent that starts off it, takes one level away. -/
def Outdents (walk : Walk) (row : Nat) (node : Node) : Prop :=
  walk.marks .branch node ∧ node.start.row = row ∨ walk.marks .dedent node ∧ node.start.row ≠ row

instance (walk : Walk) (row : Nat) (node : Node) : Decidable (walk.Outdents row node) :=
  inferInstanceAs (Decidable (_ ∨ _))

/-- A begin with these attributes adds to the indent: the node reaches over several rows, its parent has an
error or it counts at once, and it starts off the row or counts there too. -/
def IndentsBy (row : Nat) (inError : Bool) (node : Node) (attrs : Attributes) : Prop :=
  (node.start.row ≠ node.stop.row ∨ inError = true ∨ attrs.isImmediate = true) ∧
    (node.start.row ≠ row ∨ attrs.countsOnSameLine = true)

instance (row : Nat) (inError : Bool) (node : Node) (attrs : Attributes) :
    Decidable (IndentsBy row inError node attrs) :=
  inferInstanceAs (Decidable (_ ∧ _))

/-- What a node adds to the indent: minus one level, plus the increment of a begin or one level. -/
def share (walk : Walk) (row : Nat) (inError : Bool) (node : Node) : Int :=
  (if walk.Outdents row node then -walk.level else 0) +
    match walk.marking.get? .begin node.id with
    | some attrs => if IndentsBy row inError node attrs then attrs.increment.getD walk.level else 0
    | none => 0

/-- A node uses up its row when it takes a level away, and when it adds one without propagating. -/
def Fills (walk : Walk) (row : Nat) (inError : Bool) (node : Node) : Prop :=
  walk.Outdents row node ∨
    ∃ attrs ∈ walk.marking.get? .begin node.id,
      IndentsBy row inError node attrs ∧ attrs.isPropagating = false

instance (walk : Walk) (row : Nat) (inError : Bool) (node : Node) :
    Decidable (walk.Fills row inError node) :=
  inferInstanceAs (Decidable (_ ∨ ∃ attrs ∈ walk.marking.get? .begin node.id, _))

lemma dedents_eq_decide (walk : Walk) (row : Nat) (node : Node) :
    walk.dedents row node = decide (walk.Outdents row node) := by
  unfold dedents Outdents
  by_cases hrow : node.start.row = row <;> simp [hrow]

lemma begins?_eq_filter (walk : Walk) (row : Nat) (inError : Bool) (node : Node) :
    walk.begins? row inError node
      = (walk.marking.get? .begin node.id).filter fun attrs => IndentsBy row inError node attrs := by
  unfold begins?
  congr 1
  funext attrs
  rw [Bool.eq_iff_iff, decide_eq_true_iff]
  simp [IndentsBy, or_assoc]

/-- A node that takes no level away and has no begin that counts leaves the indent as it is. -/
lemma addLevels_of_idle {walk : Walk} {row : Nat} {inError : Bool} {node : Node}
    (hout : ¬ walk.Outdents row node)
    (hbegin : ∀ attrs ∈ walk.marking.get? .begin node.id, ¬ IndentsBy row inError node attrs) (indent : Int) :
    walk.addLevels row inError node indent = indent := by
  have hnone : walk.begins? row inError node = none := by
    rw [begins?_eq_filter, Option.filter_eq_none_iff]
    intro attrs hattrs
    simpa using hbegin attrs hattrs
  unfold addLevels
  rw [hnone, dedents_eq_decide, decide_eq_false hout]
  rfl

/-- From a word on, the levels of a node are its share, and what they leave is a word again. -/
lemma addLevels_eq_wrap (walk : Walk) (row : Nat) (inError : Bool) (node : Node) {indent : Int}
    (hword : wrap indent = indent) :
    walk.addLevels row inError node indent = wrap (indent + walk.share row inError node) := by
  -- The width is a variable here: a check that unfolds the modulus of 64-bit words would not end.
  unfold addLevels share
  generalize walk.level = level
  have hout : (if walk.dedents row node then wrap (indent - level) else indent)
      = wrap (indent + if walk.Outdents row node then -level else 0) := by
    rw [dedents_eq_decide]
    by_cases h : walk.Outdents row node
    · simp only [h, decide_true, if_true, Int.sub_eq_add_neg]
    · simp only [h, decide_false, Bool.false_eq_true, if_false, Int.add_zero, hword]
  dsimp only
  rw [hout, begins?_eq_filter, ← Int.add_assoc]
  cases walk.marking.get? .begin node.id with
  | none => simp only [Option.filter_none, Int.add_zero]
  | some attrs =>
    by_cases hbegin : IndentsBy row inError node attrs
    · simp only [Option.filter_some, hbegin, decide_true, if_true, wrap_wrap_add]
    · simp only [Option.filter_some, hbegin, decide_false, Bool.false_eq_true, if_false, Int.add_zero]

/-- The row is counted, alignment left aside, exactly if the node fills it. -/
lemma counts_iff_fills (walk : Walk) (row : Nat) (inError : Bool) (node : Node) :
    (walk.dedents row node || (walk.begins? row inError node).any fun attrs => !attrs.isPropagating) = true
      ↔ walk.Fills row inError node := by
  rw [dedents_eq_decide, begins?_eq_filter, Bool.or_eq_true, decide_eq_true_iff]
  unfold Fills
  refine or_congr Iff.rfl ?_
  cases walk.marking.get? .begin node.id with
  | none => simp
  | some attrs =>
    by_cases hbegin : IndentsBy row inError node attrs <;> simp [Option.filter_some, hbegin]

/-! ## Alignment -/

/-- Delimiters that put a line at a column: the opening one is not the last on its line, or lines hang on it
all the same; it stands above the row; and no closing one ends a line of its own above the row. -/
def PinsBy (row : Nat) (attrs : Attributes) (opening : Delimiter) (closing : Option Delimiter) : Prop :=
  (opening.endsLine = true → attrs.isHanging = true) ∧ opening.node.start.row < row ∧
    ∀ c ∈ closing, c.endsLine = true → c.node.start.row ≠ opening.node.start.row → row ≤ c.node.start.row

/-- The column next to an opening delimiter. -/
def besideOpening (attrs : Attributes) (opening : Delimiter) : Int :=
  opening.node.start.column + attrs.increment.getD 1

/-- One level below the line of an opening delimiter. -/
def belowOpening (walk : Walk) (opening : Delimiter) : Int :=
  walk.rowIndent opening.node.start.row + walk.level

/-- The closing delimiter stands on the row, below the opening one, and is not to line up with what comes
after. -/
def ClosesApart (row : Nat) (attrs : Attributes) (opening : Delimiter) (closing : Option Delimiter) : Prop :=
  (∃ c ∈ closing, c.node.start.row = row ∧ c.node.start.row ≠ opening.node.start.row) ∧
    attrs.avoidsNextLine = true

instance (row : Nat) (attrs : Attributes) (opening : Delimiter) (closing : Option Delimiter) :
    Decidable (ClosesApart row attrs opening closing) :=
  inferInstanceAs (Decidable (_ ∧ _))

/-- The level that is added where the closing delimiter stands on the row and the column would not go past a
level below the opening delimiter's line. -/
def bump (walk : Walk) (row : Nat) (attrs : Attributes) (opening : Delimiter)
    (closing : Option Delimiter) : Int :=
  if ClosesApart row attrs opening closing ∧ wrap (besideOpening attrs opening) ≤ wrap (walk.belowOpening opening)
  then walk.level else 0

/-- Where both sides of the comparison are words, they are compared as they are. -/
lemma bump_of_isWord {walk : Walk} {attrs : Attributes} {opening : Delimiter}
    (hbeside : IsWord (besideOpening attrs opening)) (hbelow : IsWord (walk.belowOpening opening)) (row : Nat)
    (closing : Option Delimiter) :
    walk.bump row attrs opening closing =
      if ClosesApart row attrs opening closing ∧ besideOpening attrs opening ≤ walk.belowOpening opening
      then walk.level else 0 := by
  unfold bump
  rw [wrap_of_isWord hbeside, wrap_of_isWord hbelow]

/-- The align rule at a node puts the line next to the opening delimiter. -/
structure Pins (walk : Walk) (row : Nat) (inError : Bool) (node : Node) (attrs : Attributes)
    (opening : Delimiter) (closing : Option Delimiter) : Prop where
  aligned : walk.aligns? row inError node = some attrs
  opened : walk.delimiter? .opening attrs node = some opening
  closed : walk.delimiter? .closing attrs node = closing
  pinned : PinsBy row attrs opening closing

/-- A node uses up its row when it fills it, and when it aligns the line without pinning it and without
propagating. -/
def Seals (walk : Walk) (row : Nat) (inError : Bool) (node : Node) : Prop :=
  walk.Fills row inError node ∨
    ∃ attrs opening, walk.aligns? row inError node = some attrs ∧
      walk.delimiter? .opening attrs node = some opening ∧
      ¬ PinsBy row attrs opening (walk.delimiter? .closing attrs node) ∧ attrs.isPropagating = false

lemma avoidNextLine_eq_add_bump (walk : Walk) (row : Nat) (attrs : Attributes) (opening : Delimiter)
    (closing : Option Delimiter) :
    walk.avoidNextLine row attrs opening closing (wrap (besideOpening attrs opening))
      = wrap (besideOpening attrs opening + walk.bump row attrs opening closing) := by
  unfold avoidNextLine bump belowOpening ClosesApart
  have hcloses : (closing.any fun c => c.node.start.row == row && c.node.start.row != opening.node.start.row)
      = true ↔ ∃ c ∈ closing, c.node.start.row = row ∧ c.node.start.row ≠ opening.node.start.row := by
    cases closing <;> simp
  generalize walk.level = level
  simp only [Bool.and_eq_true, hcloses, decide_eq_true_eq]
  split
  · exact wrap_wrap_add _ _
  · rw [Int.add_zero]

/-- Alignment without an opening delimiter. -/
lemma align_of_not_opened {walk : Walk} {attrs : Attributes} {node : Node}
    (h : walk.delimiter? .opening attrs node = none) (row : Nat) (indent : Int) :
    walk.align row attrs node indent = .skipped := by
  unfold align
  rw [h]

/-- Alignment is absolute where the delimiters pin the line, whatever the indent was before. -/
lemma align_of_pinsBy {walk : Walk} {row : Nat} {attrs : Attributes} {node : Node} {opening : Delimiter}
    {closing : Option Delimiter} (hopen : walk.delimiter? .opening attrs node = some opening)
    (hclose : walk.delimiter? .closing attrs node = closing) (h : PinsBy row attrs opening closing) (indent : Int) :
    walk.align row attrs node indent
      = .absolute (wrap (besideOpening attrs opening + walk.bump row attrs opening closing)) := by
  obtain ⟨hhanging, hbelow, hclosed⟩ := h
  -- The line does not hang below the opening delimiter.
  have hinline : (opening.endsLine && !attrs.isHanging) = false := by
    cases hends : opening.endsLine with
    | false => rfl
    | true => simp [hhanging hends]
  -- No closing delimiter has ended a line of its own above the row.
  have hopened : (closing.any fun c => c.endsLine && c.node.start.row != opening.node.start.row &&
      decide (c.node.start.row < row)) = false := by
    cases closing with
    | none => rfl
    | some c =>
      have hc := hclosed c rfl
      simp only [Option.any_some, Bool.and_eq_false_iff, bne_eq_false_iff_eq, decide_eq_false_iff_not]
      by_cases hends : c.endsLine = true
      · by_cases hrow : c.node.start.row = opening.node.start.row
        · exact Or.inl (Or.inr hrow)
        · exact Or.inr (Nat.not_lt.2 (hc hends hrow))
      · exact Or.inl (Or.inl (by simpa using hends))
  unfold align
  rw [hopen, hclose]
  simp only [hinline, hbelow, hopened, if_true, Bool.false_eq_true, if_false]
  rw [← avoidNextLine_eq_add_bump]
  rfl

/-- Alignment is relative where there is an opening delimiter and the line is not pinned. -/
lemma align_of_not_pinsBy {walk : Walk} {row : Nat} {attrs : Attributes} {node : Node} {opening : Delimiter}
    (hopen : walk.delimiter? .opening attrs node = some opening)
    (h : ¬ PinsBy row attrs opening (walk.delimiter? .closing attrs node)) (indent : Int) :
    ∃ next, walk.align row attrs node indent = .relative next := by
  unfold align
  rw [hopen]
  dsimp only
  split
  · split <;> exact ⟨_, rfl⟩
  · next hinline =>
    split
    · next hbelow =>
      split
      · exact ⟨_, rfl⟩
      · next hclosed =>
        -- The one absolute branch: what has been asked on the way is what pins the line.
        refine absurd ⟨?_, hbelow, ?_⟩ h
        · intro hends
          simpa [hends] using hinline
        · intro c hc hends hrow
          by_contra hlt
          refine hclosed ?_
          rw [Option.mem_def.1 hc]
          simp [hends, hrow, Nat.lt_of_not_le hlt]
    · exact ⟨_, rfl⟩

/-! ## Visits -/

section Visits

variable {walk : Walk} {row : Nat} {progress : Progress} {inError : Bool} {node : Node}

/-- A node that has the last word ends the walk. -/
lemma visit_of_verdict {answer : Indent} (h : walk.verdict? row node = some answer) :
    walk.visit row progress inError node = .stop answer := by
  unfold visit
  rw [h]

/-- A node on a row that is used up changes nothing. -/
lemma visit_of_counted (hverdict : walk.verdict? row node = none)
    (hcounted : node.start.row ∈ progress.counted) :
    walk.visit row progress inError node = .go progress := by
  unfold visit
  rw [hverdict]
  simp [hcounted]

/-- The rows that are used up after a node. -/
def rowsAfter (progress : Progress) (node : Node) (counts : Bool) : List Nat :=
  if counts then node.start.row :: progress.counted else progress.counted

lemma mem_rowsAfter {counts : Bool} {r : Nat} :
    r ∈ rowsAfter progress node counts ↔ r ∈ progress.counted ∨ r = node.start.row ∧ counts = true := by
  unfold rowsAfter
  cases counts <;> simp [or_comm]

/-- A node on a row that is free: its levels are added, and then alignment has its turn. -/
lemma visit_of_free (hverdict : walk.verdict? row node = none)
    (hfree : node.start.row ∉ progress.counted) :
    walk.visit row progress inError node =
      match walk.aligns? row inError node with
      | none =>
        .go ⟨walk.addLevels row inError node progress.indent,
          rowsAfter progress node (walk.Fills row inError node)⟩
      | some attrs =>
        match walk.align row attrs node (walk.addLevels row inError node progress.indent) with
        | .skipped =>
          .go ⟨walk.addLevels row inError node progress.indent,
            rowsAfter progress node (walk.Fills row inError node)⟩
        | .relative indent =>
          .go ⟨indent, rowsAfter progress node (decide (walk.Fills row inError node) || !attrs.isPropagating)⟩
        | .absolute indent => .stop (.column indent.toNat) := by
  have hcounts : (walk.dedents row node ||
      (walk.begins? row inError node).any fun attrs => !attrs.isPropagating)
        = decide (walk.Fills row inError node) := by
    rw [Bool.eq_iff_iff, counts_iff_fills, decide_eq_true_iff]
  have hnot : ¬ progress.counted.contains node.start.row = true := by
    rw [List.contains_iff_mem]
    exact hfree
  unfold visit
  rw [hverdict]
  dsimp only
  rewrite [if_neg hnot, hcounts]
  rfl

lemma toNat_max_zero (indent : Int) : (max 0 indent).toNat = indent.toNat := by
  omega

/-- A node that pins the line ends the walk. The indent so far is forgotten. -/
lemma visit_of_pins {attrs : Attributes} {opening : Delimiter} {closing : Option Delimiter}
    (hverdict : walk.verdict? row node = none) (hfree : node.start.row ∉ progress.counted)
    (h : walk.Pins row inError node attrs opening closing) :
    walk.visit row progress inError node =
      .stop (.column (max 0 (wrap (besideOpening attrs opening
        + walk.bump row attrs opening closing))).toNat) := by
  rw [visit_of_free hverdict hfree, h.aligned, toNat_max_zero]
  simp only [align_of_pinsBy h.opened h.closed h.pinned]

/-- A node that neither has the last word nor pins the line lets the climb go on. -/
lemma visit_of_passed (hverdict : walk.verdict? row node = none)
    (hfree : node.start.row ∉ progress.counted)
    (hpins : ∀ attrs opening closing, ¬ walk.Pins row inError node attrs opening closing) :
    ∃ next, walk.visit row progress inError node = .go next ∧
      ∀ r, r ∈ next.counted ↔
        r ∈ progress.counted ∨ r = node.start.row ∧ walk.Seals row inError node := by
  rw [visit_of_free hverdict hfree]
  cases haligns : walk.aligns? row inError node with
  | none =>
    refine ⟨_, rfl, fun r => ?_⟩
    have hseals : walk.Seals row inError node ↔ walk.Fills row inError node := by
      simp [Seals, haligns]
    rw [mem_rowsAfter, decide_eq_true_iff, hseals]
  | some attrs =>
    dsimp only
    cases hopen : walk.delimiter? .opening attrs node with
    | none =>
      rw [align_of_not_opened hopen]
      refine ⟨_, rfl, fun r => ?_⟩
      have hseals : walk.Seals row inError node ↔ walk.Fills row inError node := by
        simp only [Seals, haligns, Option.some.injEq, or_iff_left_iff_imp]
        rintro ⟨_, opening, rfl, hopening, -⟩
        rw [hopen] at hopening
        cases hopening
      rw [mem_rowsAfter, decide_eq_true_iff, hseals]
    | some opening =>
      -- Where the delimiters do not pin the line, the alignment is relative.
      have hnot : ¬ PinsBy row attrs opening (walk.delimiter? .closing attrs node) :=
        fun hpinned => hpins attrs opening _ ⟨haligns, hopen, rfl, hpinned⟩
      obtain ⟨indent, halign⟩ :=
        align_of_not_pinsBy hopen hnot (walk.addLevels row inError node progress.indent)
      rw [halign]
      refine ⟨_, rfl, fun r => ?_⟩
      have hseals : walk.Seals row inError node ↔
          walk.Fills row inError node ∨ attrs.isPropagating = false := by
        simp only [Seals, haligns, Option.some.injEq]
        refine or_congr Iff.rfl ⟨?_, fun hpropagating => ⟨attrs, opening, rfl, hopen, hnot, hpropagating⟩⟩
        rintro ⟨_, _, rfl, _, _, hpropagating⟩
        exact hpropagating
      rw [mem_rowsAfter, Bool.or_eq_true, decide_eq_true_iff, Bool.not_eq_true', hseals]

end Visits

/-! ## The climb, node by node -/

/-- The climb from a position on: the visit of the node there, and the climb from the next position. -/
lemma climb_drop {chain : List Node} {i : Nat} {node : Node} (hnode : chain[i]? = some node) (walk : Walk)
    (row : Nat) (progress : Progress) :
    walk.climb row progress (chain.drop i) =
      match walk.visit row progress (parentError chain i) node with
      | .stop answer => answer
      | .go next => walk.climb row next (chain.drop (i + 1)) := by
  obtain ⟨hi, rfl⟩ := List.getElem?_eq_some_iff.1 hnode
  have hhead : (chain.drop (i + 1)).head? = chain[i + 1]? := List.head?_drop ..
  rw [List.drop_eq_getElem_cons hi, climb, hhead]
  rfl

lemma climb_drop_length (walk : Walk) (row : Nat) (progress : Progress) (chain : List Node) :
    walk.climb row progress (chain.drop chain.length) = .column progress.indent.toNat := by
  rw [List.drop_length, climb]

/-- Every anchor is a place of the tree that is walked. -/
lemma anchor_mem (walk : Walk) (line : Nat) : walk.anchor line ∈ walk.root :: walk.root.below := by
  have hfirst : walk.firstNode line ∈ walk.root :: walk.root.below := Place.descend_mem ..
  have hlast : ∀ previous, walk.lastCodeNode previous ∈ walk.root :: walk.root.below := by
    intro previous
    unfold lastCodeNode
    dsimp only
    split
    · split <;> exact Place.descend_mem ..
    · exact Place.descend_mem ..
  unfold anchor
  split
  · split
    · exact hfirst
    · dsimp only
      split
      · exact hfirst
      · exact hlast _
  · exact hfirst

/-- The anchor of a line that is not blank is the node that the line starts with. -/
lemma anchor_of_not_blank {walk : Walk} {line : Nat} (h : (walk.document.lineD line).isBlank = false) :
    walk.anchor line = walk.firstNode line := by
  unfold anchor
  rw [h]
  rfl

/-- Unless the anchor puts the line at column zero, the indent of a line is what the climb gives. -/
lemma indentOf_of_not_zero {walk : Walk} {line : Nat}
    (hzero : walk.marks .zero (walk.anchor line).node = false) :
    walk.indentOf line = walk.climb (line - 1) ⟨walk.base, []⟩ (walk.anchor line).chain := by
  unfold indentOf
  dsimp only
  rw [hzero]
  rfl

end TreeIndent.Walk
