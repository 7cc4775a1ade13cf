import TreeIndent.Proofs.Walk.Rules
import Mathlib.Algebra.BigOperators.Intervals

/-!
# The indent as a sum

Where nothing aligns and no node has the last word, the indent of a line is a sum over the anchor and its
ancestors: each node adds its share unless a node below it has used up the row that both start on. The climb
decides this with the list of rows that it has counted; the sum asks it of the chain itself.

The climb wraps its sum at every node. Of all that only the wrap of the whole sum is left, so that the sum is exact
as soon as it is itself a signed word, however far the climb went out of their range on the way.
-/

namespace TreeIndent

/-- A role without entries is the role of no node. -/
lemma Marking.get?_eq_none_of_bucket {marking : Marking} {role : Role} (h : marking.bucket role = [])
    (id : Nat) : marking.get? role id = none := by
  unfold Marking.get?
  rw [Option.eq_none_iff_forall_not_mem]
  intro attrs hget
  -- Attributes that are found are an entry of the table, which the empty bucket excludes.
  have hentry : ((role, id), attrs) ∈ marking.table.entries := Table.get?_eq_some_iff.1 hget
  unfold Marking.bucket at h
  have hnone := List.filter_eq_nil_iff.1 (List.map_eq_nil_iff.1 h) _ hentry
  simp at hnone

lemma Marking.bucket_eq_nil {marking : Marking} {role : Role}
    (h : ∀ entry ∈ marking.table.entries, entry.1.1 ≠ role) : marking.bucket role = [] := by
  unfold Marking.bucket
  rw [List.map_eq_nil_iff, List.filter_eq_nil_iff]
  intro entry hentry
  rw [beq_iff_eq]
  exact h entry hentry

namespace Walk

lemma marks_of_bucket {walk : Walk} {role : Role} (h : walk.marking.bucket role = []) (node : Node) :
    walk.marks role node = false := by
  unfold marks Marking.has
  rw [Marking.get?_eq_none_of_bucket h]
  rfl

/-! ## Terms of the sum -/

/-- Whether a node below the one at a position has used up the row that both start on. -/
def FilledBelow (walk : Walk) (row : Nat) (chain : List Node) (i : Nat) : Prop :=
  ∃ node ∈ chain[i]?, Taken (walk.Fills row) chain i node.start.row

instance (walk : Walk) (row : Nat) (chain : List Node) (i : Nat) :
    Decidable (walk.FilledBelow row chain i) :=
  inferInstanceAs (Decidable (∃ node ∈ chain[i]?, _))

/-- What the node at a position adds to the indent. -/
def shareAt (walk : Walk) (row : Nat) (chain : List Node) (i : Nat) : Int :=
  (chain[i]?).elim 0 (walk.share row (parentError chain i))

/-- The shares of the nodes below a position whose row was free. -/
def sumBelow (walk : Walk) (row : Nat) (chain : List Node) (i : Nat) : Int :=
  ∑ j ∈ Finset.range i with ¬ walk.FilledBelow row chain j, walk.shareAt row chain j

lemma filledBelow_iff {chain : List Node} {i : Nat} {node : Node} (hnode : chain[i]? = some node)
    (walk : Walk) (row : Nat) :
    walk.FilledBelow row chain i ↔ Taken (walk.Fills row) chain i node.start.row := by
  simp [FilledBelow, hnode]

lemma sumBelow_zero (walk : Walk) (row : Nat) (chain : List Node) : walk.sumBelow row chain 0 = 0 := rfl

/-- One more node adds its share if its row is free, and nothing otherwise. -/
lemma sumBelow_succ {chain : List Node} {i : Nat} {node : Node} (hnode : chain[i]? = some node) (walk : Walk)
    (row : Nat) :
    walk.sumBelow row chain (i + 1) = walk.sumBelow row chain i +
      if Taken (walk.Fills row) chain i node.start.row then 0
      else walk.share row (parentError chain i) node := by
  have hshare : walk.shareAt row chain i = walk.share row (parentError chain i) node := by
    unfold shareAt
    rw [hnode]
    rfl
  unfold sumBelow
  rw [Finset.sum_filter, Finset.sum_filter, Finset.sum_range_succ, hshare]
  congr 1
  simp only [filledBelow_iff hnode, ite_not]

/-! ## The climb -/

/-- The roles that no node has where the indent is a plain sum. -/
def aligningRoles : List Role :=
  [.align, .auto, .ignore]

lemma wrap_base (walk : Walk) : wrap walk.base = walk.base := by
  unfold base
  split
  · exact wrap_signed _
  · rfl

section Unaligned

variable {walk : Walk} (hroles : ∀ role ∈ aligningRoles, walk.marking.bucket role = [])

include hroles

lemma verdict?_of_unaligned (row : Nat) (node : Node) : walk.verdict? row node = none := by
  have hauto : walk.marks .auto node = false := by
    simp [marks, Marking.has, Marking.get?_eq_none_of_bucket (hroles .auto (by decide))]
  have hignore : walk.marks .ignore node = false := by
    simp [marks, Marking.has, Marking.get?_eq_none_of_bucket (hroles .ignore (by decide))]
  unfold verdict?
  simp [hauto, hignore]

lemma aligns?_of_unaligned (row : Nat) (inError : Bool) (node : Node) :
    walk.aligns? row inError node = none := by
  have halign := Marking.get?_eq_none_of_bucket (hroles .align (by decide))
  unfold aligns?
  simp [halign]

/-- The climb reaches every position with the shares of the free rows below it, and it has counted the rows
that these nodes have used up. -/
lemma climb_reaches_sum (row : Nat) {indent : Int} (hword : wrap indent = indent) (chain : List Node) {i : Nat}
    (hi : i ≤ chain.length) :
    ∃ counted, walk.climb row ⟨indent, []⟩ chain
        = walk.climb row ⟨wrap (indent + walk.sumBelow row chain i), counted⟩ (chain.drop i) ∧
      ∀ r, r ∈ counted ↔ Taken (walk.Fills row) chain i r := by
  -- One position after the other; the rows that are counted are the invariant.
  induction i with
  | zero =>
    refine ⟨[], ?_, fun r => ?_⟩
    · rw [sumBelow_zero, Int.add_zero, List.drop_zero, hword]
    · simp [not_taken_zero]
  | succ i ih =>
    obtain ⟨counted, hclimb, hcounted⟩ := ih (Nat.le_of_lt hi)
    obtain ⟨node, hnode⟩ : ∃ node, chain[i]? = some node := ⟨_, List.getElem?_eq_getElem hi⟩
    have hverdict := verdict?_of_unaligned hroles row node
    rw [hclimb, climb_drop hnode, sumBelow_succ hnode]
    by_cases htaken : Taken (walk.Fills row) chain i node.start.row
    · -- The row is used up: nothing is added, and the same rows stay counted.
      rw [visit_of_counted hverdict ((hcounted _).2 htaken), if_pos htaken, Int.add_zero]
      refine ⟨counted, rfl, fun r => ?_⟩
      rw [hcounted, taken_succ_of_taken hnode htaken]
    · -- The row is free: the share is added, and the row is counted if the node fills it.
      have hfree : node.start.row ∉ counted := fun hmem => htaken ((hcounted _).1 hmem)
      rw [visit_of_free hverdict hfree, aligns?_of_unaligned hroles, if_neg htaken, ← Int.add_assoc,
        addLevels_eq_wrap _ _ _ _ (wrap_wrap _), wrap_wrap_add]
      refine ⟨_, rfl, fun r => ?_⟩
      rw [mem_rowsAfter, taken_succ hnode, hcounted, decide_eq_true_iff]

/-- Where the anchor is no zero the climb gives the indent: the base and the shares of all nodes whose rows were
free. -/
lemma indentOf_of_unaligned {line : Nat} (hzero : walk.marks .zero (walk.anchor line).node = false) :
    walk.indentOf line = .column (wrap (walk.base +
      walk.sumBelow (line - 1) (walk.anchor line).chain (walk.anchor line).chain.length)).toNat := by
  obtain ⟨counted, hclimb, -⟩ :=
    climb_reaches_sum hroles (line - 1) walk.wrap_base (walk.anchor line).chain le_rfl
  rw [indentOf_of_not_zero hzero, hclimb, climb_drop_length]

end Unaligned

/-- Without marks no node adds to the indent. -/
lemma share_of_isEmpty {walk : Walk} (h : walk.marking.isEmpty = true) (row : Nat) (inError : Bool)
    (node : Node) : walk.share row inError node = 0 := by
  have hget : ∀ role id, walk.marking.get? role id = none := by
    intro role id
    unfold Marking.get? Table.get?
    rw [List.isEmpty_iff.1 h]
    rfl
  unfold share Outdents
  simp [marks, Marking.has, hget]

/-- Blocks of which two start on one row; the inner one propagates, so both count. -/
def nestedBlocks : Walk where
  root := ⟨⟨0, "block", ⟨0, 0⟩, ⟨4, 3⟩, false,
    [⟨1, "if", ⟨1, 2⟩, ⟨3, 5⟩, false,
      [⟨2, "block", ⟨1, 5⟩, ⟨3, 5⟩, false,
        [⟨3, "call", ⟨2, 1⟩, ⟨2, 2⟩, false, []⟩, ⟨4, "end", ⟨3, 2⟩, ⟨3, 5⟩, false, []⟩]⟩]⟩]⟩, []⟩
  marking := .ofList
    [(.begin, 0, {}), (.begin, 1, {}), (.begin, 2, { propagate := some true }), (.branch, 4, {})]
  patterns := .classes
  document := .new 1 "do\n  if do\n c\n  end\nend".toList
  shiftWidth := 4
  tabSize := 4

end Walk

end TreeIndent
