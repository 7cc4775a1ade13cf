import TreeIndent.Proofs.Walk.Rules
import TreeIndent.Proofs.Walk.Agreement

/-!
# The node that ends the walk

Three kinds of nodes end the walk: one that leaves the lines in it to generic indenting, one that ignores them,
and one that pins the line next to a delimiter. The lowest of them on the chain decides the indent: what was
added up below it is forgotten, and no node above it is asked.

A node pins the line only if the row it starts on is free. That is a fact about the nodes below it, and the
climb knows it from the rows that it has counted (`climb_passes`).
-/

namespace TreeIndent.Walk

/-! ## Terminal nodes -/

/-- The node leaves the line at the row to generic indenting. -/
def AutoStop (walk : Walk) (row : Nat) (node : Node) : Prop :=
  walk.marks .auto node ∧ ¬ walk.marks .begin node ∧ ¬ walk.marks .align node ∧
    node.start.row < row ∧ row ≤ node.stop.row

/-- The node keeps the line at the row at column zero. -/
def IgnoreStop (walk : Walk) (row : Nat) (node : Node) : Prop :=
  ¬ walk.AutoStop row node ∧ walk.marks .ignore node ∧ ¬ walk.marks .begin node ∧
    node.start.row < row ∧ row ≤ node.stop.row

/-- The node at a position pins the line: it is of neither other kind, its row is free, and the align rule puts
the line at a column next to the opening delimiter. -/
structure PinStop (walk : Walk) (row : Nat) (chain : List Node) (i : Nat) (node : Node) (attrs : Attributes)
    (opening : Delimiter) (closing : Option Delimiter) : Prop where
  not_auto : ¬ walk.AutoStop row node
  not_ignore : ¬ walk.IgnoreStop row node
  free : ¬ Taken (walk.Seals row) chain i node.start.row
  pins : walk.Pins row (parentError chain i) node attrs opening closing

/-- The walk ends at the node at a position, if it gets there. -/
def Terminal (walk : Walk) (row : Nat) (chain : List Node) (i : Nat) : Prop :=
  ∃ node ∈ chain[i]?, walk.AutoStop row node ∨ walk.IgnoreStop row node ∨
    ∃ attrs opening closing, walk.PinStop row chain i node attrs opening closing

instance (walk : Walk) (row : Nat) (node : Node) : Decidable (walk.AutoStop row node) :=
  inferInstanceAs (Decidable (_ ∧ _))

instance (walk : Walk) (row : Nat) (node : Node) : Decidable (walk.IgnoreStop row node) :=
  inferInstanceAs (Decidable (_ ∧ _))

lemma verdict?_of_autoStop {walk : Walk} {row : Nat} {node : Node} (h : walk.AutoStop row node) :
    walk.verdict? row node = some .auto := by
  obtain ⟨hauto, hbegin, halign, hstart, hstop⟩ := h
  unfold verdict? Node.surroundsRow
  simp [hauto, hbegin, halign, hstart, hstop]

lemma verdict?_of_ignoreStop {walk : Walk} {row : Nat} {node : Node} (h : walk.IgnoreStop row node) :
    walk.verdict? row node = some (.column 0) := by
  obtain ⟨hnot, hignore, hbegin, hstart, hstop⟩ := h
  have hauto : (walk.marks .auto node && !walk.marks .align node) = false := by
    by_contra htrue
    simp only [Bool.not_eq_false, Bool.and_eq_true, Bool.not_eq_true'] at htrue
    exact hnot ⟨htrue.1, hbegin, by simp [htrue.2], hstart, hstop⟩
  unfold verdict? Node.surroundsRow
  simp only [hauto, hignore, hbegin, hstart, hstop, decide_true, Bool.and_self, Bool.not_true, Bool.or_self,
    Bool.false_eq_true, if_false, if_true]

lemma verdict?_of_neither {walk : Walk} {row : Nat} {node : Node} (hauto : ¬ walk.AutoStop row node)
    (hignore : ¬ walk.IgnoreStop row node) : walk.verdict? row node = none := by
  unfold verdict? Node.surroundsRow
  split
  · rfl
  · next haround =>
    simp only [Bool.or_eq_true, Bool.not_eq_true', Bool.and_eq_false_iff, decide_eq_false_iff_not, not_or,
      Decidable.not_not] at haround
    obtain ⟨hbegin, hstart, hstop⟩ := haround
    split
    · next hmarks =>
      simp only [Bool.and_eq_true, Bool.not_eq_true'] at hmarks
      exact absurd ⟨hmarks.1, hbegin, by simp [hmarks.2], hstart, hstop⟩ hauto
    · split
      · next hmarks => exact absurd ⟨hauto, hmarks, hbegin, hstart, hstop⟩ hignore
      · rfl

/-! ## The climb below the terminal node -/

/-- The climb gets past every position that is not terminal, and it has counted the rows that the nodes below
have used up. A second walk whose visits are the same below the position gets there with the same progress. -/
lemma climb_passes (walk other : Walk) {row : Nat} {chain : List Node} {i : Nat} (hi : i ≤ chain.length)
    (hpass : ∀ j < i, ¬ walk.Terminal row chain j)
    (hother : ∀ j < i, ∀ node ∈ chain[j]?, ∀ progress,
      other.visit row progress (parentError chain j) node = walk.visit row progress (parentError chain j) node)
    (indent : Int) :
    ∃ next : Progress, walk.climb row ⟨indent, []⟩ chain = walk.climb row next (chain.drop i) ∧
      other.climb row ⟨indent, []⟩ chain = other.climb row next (chain.drop i) ∧
      ∀ r, r ∈ next.counted ↔ Taken (walk.Seals row) chain i r := by
  -- Both walks go up together, as long as no position below is terminal.
  induction i with
  | zero =>
    refine ⟨⟨indent, []⟩, by rw [List.drop_zero], by rw [List.drop_zero], fun r => ?_⟩
    simp [not_taken_zero]
  | succ i ih =>
    obtain ⟨progress, hclimb, hclimb', hcounted⟩ :=
      ih (Nat.le_of_lt hi) (fun j hj => hpass j (Nat.lt_succ_of_lt hj))
        (fun j hj => hother j (Nat.lt_succ_of_lt hj))
    obtain ⟨node, hnode⟩ : ∃ node, chain[i]? = some node := ⟨_, List.getElem?_eq_getElem hi⟩
    have hvisit := hother i (Nat.lt_succ_self i) node hnode progress
    -- The node is not terminal, so it has no last word, and it pins the line only if its row is used up.
    have hterminal : ¬ walk.Terminal row chain i := hpass i (Nat.lt_succ_self i)
    have hauto : ¬ walk.AutoStop row node := fun h => hterminal ⟨node, hnode, Or.inl h⟩
    have hignore : ¬ walk.IgnoreStop row node := fun h => hterminal ⟨node, hnode, Or.inr (Or.inl h)⟩
    have hverdict := verdict?_of_neither hauto hignore
    rw [hclimb, hclimb', climb_drop hnode, climb_drop hnode, hvisit]
    by_cases htaken : Taken (walk.Seals row) chain i node.start.row
    · rw [visit_of_counted hverdict ((hcounted _).2 htaken)]
      refine ⟨progress, rfl, rfl, fun r => ?_⟩
      rw [hcounted, taken_succ_of_taken hnode htaken]
    · have hfree : node.start.row ∉ progress.counted := fun hmem => htaken ((hcounted _).1 hmem)
      have hpins : ∀ attrs opening closing,
          ¬ walk.Pins row (parentError chain i) node attrs opening closing := by
        intro attrs opening closing hpins
        exact hterminal ⟨node, hnode, Or.inr (Or.inr ⟨attrs, opening, closing, hauto, hignore, htaken, hpins⟩)⟩
      obtain ⟨next, hgo, hrows⟩ := visit_of_passed hverdict hfree hpins
      rw [hgo]
      refine ⟨next, rfl, rfl, fun r => ?_⟩
      rw [hrows, hcounted, taken_succ hnode]

/-- At the lowest position where every visit stops with one answer, the climb has that answer. So has a second
walk whose visits are the same up to there. -/
lemma climb_stops (walk other : Walk) {row : Nat} {chain : List Node} {t : Nat} {node : Node}
    {answer : Indent} (hnode : chain[t]? = some node) (hlowest : ∀ j < t, ¬ walk.Terminal row chain j)
    (hother : ∀ j ≤ t, ∀ node ∈ chain[j]?, ∀ progress,
      other.visit row progress (parentError chain j) node = walk.visit row progress (parentError chain j) node)
    (hstop : ∀ progress : Progress, (∀ r, r ∈ progress.counted ↔ Taken (walk.Seals row) chain t r) →
      walk.visit row progress (parentError chain t) node = .stop answer) (indent : Int) :
    walk.climb row ⟨indent, []⟩ chain = answer ∧ other.climb row ⟨indent, []⟩ chain = answer := by
  have ht : t ≤ chain.length := Nat.le_of_lt (List.getElem?_eq_some_iff.1 hnode).1
  obtain ⟨progress, hclimb, hclimb', hcounted⟩ :=
    climb_passes walk other ht hlowest (fun j hj => hother j (Nat.le_of_lt hj)) indent
  have hvisit := hother t le_rfl node hnode progress
  rw [hclimb, hclimb', climb_drop hnode, climb_drop hnode, hvisit, hstop progress hcounted]
  exact ⟨rfl, rfl⟩

section Stops

variable {walk : Walk} {row : Nat} {chain : List Node} {t : Nat} {node : Node}

lemma PinStop.visit {attrs : Attributes} {opening : Delimiter} {closing : Option Delimiter}
    (h : walk.PinStop row chain t node attrs opening closing) (progress : Progress)
    (hcounted : ∀ r, r ∈ progress.counted ↔ Taken (walk.Seals row) chain t r) :
    walk.visit row progress (parentError chain t) node
      = .stop (.column (max 0 (wrap (besideOpening attrs opening
          + walk.bump row attrs opening closing))).toNat) := by
  have hfree : node.start.row ∉ progress.counted := fun hmem => h.free ((hcounted _).1 hmem)
  exact visit_of_pins (verdict?_of_neither h.not_auto h.not_ignore) hfree h.pins

/-- Every visit of a terminal node stops with one answer: its last word, or the column that it pins. -/
lemma Terminal.visit (h : walk.Terminal row chain t) (hnode : chain[t]? = some node) :
    ∃ answer, (∀ progress : Progress, (∀ r, r ∈ progress.counted ↔ Taken (walk.Seals row) chain t r) →
        walk.visit row progress (parentError chain t) node = .stop answer) ∧
      (walk.verdict? row node = some answer ∨
        walk.verdict? row node = none ∧ ∃ attrs opening closing,
          walk.Pins row (parentError chain t) node attrs opening closing ∧
          answer = .column (max 0 (wrap (besideOpening attrs opening
            + walk.bump row attrs opening closing))).toNat) := by
  obtain ⟨node', hnode', hkind⟩ := h
  obtain rfl : node' = node := Option.some.inj (hnode'.symm.trans hnode)
  rcases hkind with hauto | hignore | ⟨attrs, opening, closing, hpin⟩
  · have hverdict := verdict?_of_autoStop hauto
    exact ⟨_, fun progress _ => visit_of_verdict hverdict, Or.inl hverdict⟩
  · have hverdict := verdict?_of_ignoreStop hignore
    exact ⟨_, fun progress _ => visit_of_verdict hverdict, Or.inl hverdict⟩
  · exact ⟨_, hpin.visit, Or.inr ⟨verdict?_of_neither hpin.not_auto hpin.not_ignore, attrs, opening, closing,
      hpin.pins, rfl⟩⟩

/-- A node pins the line in one way. -/
lemma Pins.unique {inError : Bool} {attrs attrs' : Attributes} {opening opening' : Delimiter}
    {closing closing' : Option Delimiter} (h : walk.Pins row inError node attrs opening closing)
    (h' : walk.Pins row inError node attrs' opening' closing') :
    attrs' = attrs ∧ opening' = opening ∧ closing' = closing := by
  obtain rfl : attrs' = attrs := Option.some.inj (h'.aligned.symm.trans h.aligned)
  exact ⟨rfl, Option.some.inj (h'.opened.symm.trans h.opened), h'.closed.symm.trans h.closed⟩

lemma Pins.of_agrees {marking : Marking} (hagrees : walk.marking.AgreesAt marking node) {inError : Bool}
    {attrs : Attributes} {opening : Delimiter} {closing : Option Delimiter}
    (h : { walk with marking }.Pins row inError node attrs opening closing) :
    walk.Pins row inError node attrs opening closing :=
  ⟨(aligns?_congr hagrees row inError).symm.trans h.aligned,
    (delimiter?_congr hagrees .opening attrs).symm.trans h.opened,
    (delimiter?_congr hagrees .closing attrs).symm.trans h.closed, h.pinned⟩

/-- Two markings that agree on a node which is terminal under both give it the same answer. -/
lemma Terminal.visit_of_agrees {marking : Marking} (hagrees : walk.marking.AgreesAt marking node)
    (h : walk.Terminal row chain t) (h' : { walk with marking }.Terminal row chain t)
    (hnode : chain[t]? = some node) :
    ∃ answer, (∀ progress : Progress, (∀ r, r ∈ progress.counted ↔ Taken (walk.Seals row) chain t r) →
        walk.visit row progress (parentError chain t) node = .stop answer) ∧
      ∀ progress : Progress,
        (∀ r, r ∈ progress.counted ↔ Taken ({ walk with marking }.Seals row) chain t r) →
        { walk with marking }.visit row progress (parentError chain t) node = .stop answer := by
  obtain ⟨answer, hstop, hanswer⟩ := h.visit hnode
  obtain ⟨answer', hstop', hanswer'⟩ := h'.visit hnode
  -- Each walk has an answer of its own; both read the same at the node, so the answers are equal.
  suffices hsame : answer' = answer from ⟨answer, hstop, hsame ▸ hstop'⟩
  rw [verdict?_congr hagrees] at hanswer'
  rcases hanswer with hverdict | ⟨hverdict, attrs, opening, closing, hpins, rfl⟩ <;>
    rcases hanswer' with hverdict' | ⟨hverdict', attrs', opening', closing', hpins', rfl⟩ <;>
    rw [hverdict] at hverdict'
  · exact (Option.some.inj hverdict').symm
  · cases hverdict'
  · cases hverdict'
  · obtain ⟨rfl, rfl, rfl⟩ := hpins.unique (hpins'.of_agrees hagrees)
    rfl

end Stops

/-- The opening parenthesis of the call. -/
def openParen : Node := ⟨2, "(", ⟨1, 7⟩, ⟨1, 8⟩, false, []⟩

/-- The closing parenthesis of the call. -/
def closeParen : Node := ⟨5, ")", ⟨2, 3⟩, ⟨2, 4⟩, false, []⟩

/-- The arguments of the call, over two lines. -/
def callArguments : Node :=
  ⟨1, "arguments", ⟨1, 7⟩, ⟨2, 4⟩, false,
    [openParen, ⟨3, "name", ⟨1, 8⟩, ⟨1, 9⟩, false, []⟩, ⟨4, "name", ⟨2, 2⟩, ⟨2, 3⟩, false, []⟩, closeParen]⟩

/-- The attributes by which the arguments align. -/
def parenAttributes : Attributes :=
  { openDelimiter := some "(", closeDelimiter := some ")" }

/-- The call in a block that begins a level. -/
def pinnedCall : Walk where
  root := ⟨⟨0, "block", ⟨0, 0⟩, ⟨3, 3⟩, false, [callArguments]⟩, []⟩
  marking := .ofList [(.begin, 0, {}), (.align, 1, parenAttributes)]
  patterns := .classes
  document := .new 1 "do\n    foo(a,\n  b)\nend".toList
  shiftWidth := 4
  tabSize := 4

/-- The marking of the call where the block above it is ignored. -/
def ignoredBlock : Marking :=
  .ofList [(.ignore, 0, {}), (.align, 1, parenAttributes)]

/-- The attributes by which the arguments align where the closing line is not to line up with the next. -/
def apartAttributes : Attributes :=
  { parenAttributes with avoidLastMatchingNext := some true }

/-- With the largest width that is a positive word, a level below the opening line wraps around to a negative
number, so the closing line is not moved; with a width of four it is. -/
example :
    { pinnedCall with
        marking := .ofList [(.align, 1, apartAttributes)], shiftWidth := 0x7FFFFFFFFFFFFFFF }.indentOf 3
      = .column 8 ∧
    { pinnedCall with marking := .ofList [(.align, 1, apartAttributes)] }.indentOf 3 = .column 12 := by
  decide

end TreeIndent.Walk
