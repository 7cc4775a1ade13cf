import TreeIndent.Proofs.Tree.Places
import TreeIndent.Proofs.Walk.Nesting

/-!
# Closing tokens

A token that closes a block and starts its line stands where the line stands on which the block opened. The two
lines have different anchors. What they have in common is found by the lookup: every node that reaches from above
the opening line down to the token is on both chains (`mem_opening_of_above`, `above_of_mem_opening`), and by then
the block and the token have cancelled each other.

The columns are compared by the rows that blocks open on (`openRowsBelow`). For the line of the token these are
the rows for the opening line and two more: the row of the token, which takes a level away, and the row of the
block, which adds one (`openRows_closing`).
-/

namespace TreeIndent

namespace Marking

/-- The only marks are begins without attributes, and branches. -/
def OnlyBlocks (marking : Marking) : Prop :=
  ∀ entry ∈ marking.table.entries, entry.1.1 = .begin ∧ entry.2 = {} ∨ entry.1.1 = .branch

instance (marking : Marking) : Decidable marking.OnlyBlocks :=
  inferInstanceAs (Decidable (∀ entry ∈ marking.table.entries, _))

namespace OnlyBlocks

variable {marking : Marking} (h : marking.OnlyBlocks)

include h

lemma of_begin {id : Nat} {attrs : Attributes} (hget : marking.get? .begin id = some attrs) : attrs = {} := by
  rcases h ((.begin, id), attrs) (Table.get?_eq_some_iff.1 hget) with hbegin | hbranch
  · exact hbegin.2
  · cases hbranch

lemma bucket_of_ne {role : Role} (hbegin : role ≠ .begin) (hbranch : role ≠ .branch) :
    marking.bucket role = [] := by
  apply bucket_eq_nil
  intro entry hentry
  rcases h entry hentry with heq | heq
  · rw [heq.1]
    exact hbegin.symm
  · rw [heq]
    exact hbranch.symm

end OnlyBlocks

end Marking

namespace Walk

/-! ## Rows along a chain without errors -/

/-- Without errors, a row is open just if some node of the chain starts on it and fills it. -/
lemma mem_openRows_iff {walk : Walk} {row : Nat} {chain : List Node}
    (herrors : ∀ node ∈ chain, node.hasError = false) {r : Nat} :
    r ∈ walk.openRowsBelow row chain chain.length ↔
      ∃ node ∈ chain, node.start.row = r ∧ walk.Fills row false node := by
  have hparent : ∀ j, parentError chain j = false := by
    intro j
    unfold parentError
    cases hnode : chain[j + 1]? with
    | none => rfl
    | some node => exact herrors node (List.mem_of_getElem? hnode)
  rw [mem_openRowsBelow]
  unfold Taken
  simp only [hparent]
  constructor
  · rintro ⟨j, -, node, hnode, hfills⟩
    exact ⟨node, List.mem_of_getElem? hnode, hfills⟩
  · rintro ⟨node, hmem, hfills⟩
    obtain ⟨j, hnode⟩ := List.getElem?_of_mem hmem
    exact ⟨j, (List.getElem?_eq_some_iff.1 hnode).1, node, hnode, hfills⟩

section OnlyBlocks

variable {walk : Walk} (hmarks : walk.marking.OnlyBlocks) {row : Nat} {node : Node}

include hmarks

/-- A node takes a level away just if it is a branch that starts on the row. -/
lemma outdents_iff_of_onlyBlocks :
    walk.Outdents row node ↔ walk.marks .branch node = true ∧ node.start.row = row := by
  have hdedent : walk.marks .dedent node = false :=
    marks_of_bucket (hmarks.bucket_of_ne (by decide) (by decide)) node
  unfold Outdents
  simp [hdedent]

lemma plain_of_onlyBlocks (h : node.start.row = row → walk.marks .branch node = false) :
    walk.Plain row node := by
  refine ⟨?_, fun attrs hattrs => hmarks.of_begin hattrs⟩
  rw [outdents_iff_of_onlyBlocks hmarks]
  intro houtdents
  have hbranch := h houtdents.2
  rw [houtdents.1] at hbranch
  cases hbranch

/-- A node that is no branch on the row fills its row just if it is a begin over several rows that starts off the
row. -/
lemma fills_iff_of_onlyBlocks (h : node.start.row = row → walk.marks .branch node = false) :
    walk.Fills row false node ↔
      walk.marks .begin node = true ∧ node.start.row ≠ node.stop.row ∧ node.start.row ≠ row := by
  have hbegin : walk.marking.get? .begin node.id = some {} ↔ walk.marks .begin node = true := by
    unfold marks Marking.has
    rw [Option.isSome_iff_exists]
    constructor
    · intro hget
      exact ⟨{}, hget⟩
    · rintro ⟨attrs, hget⟩
      rw [hget, hmarks.of_begin hget]
  rw [(plain_of_onlyBlocks hmarks h).fills_iff, hbegin]
  unfold IndentsBy
  simp [Attributes.isImmediate, Attributes.countsOnSameLine]

/-- Among begins and branches the indent of a line is a sum of shares. -/
lemma indentOf_of_onlyBlocks (line : Nat) :
    walk.indentOf line = .column (wrap (walk.base +
      walk.sumBelow (line - 1) (walk.anchor line).chain (walk.anchor line).chain.length)).toNat := by
  apply indentOf_of_unaligned
  · intro role hrole
    apply hmarks.bucket_of_ne
    · rintro rfl
      exact absurd hrole (by decide)
    · rintro rfl
      exact absurd hrole (by decide)
  · exact marks_of_bucket (hmarks.bucket_of_ne (by decide) (by decide)) _

end OnlyBlocks

/-! ## Chains of a clean tree -/

/-- The walk goes through a tree without errors in which children stand in order, side by side and inside their
parents. -/
structure Clean (walk : Walk) (tree : Tree) : Prop where
  root : walk.root ∈ tree.root.places []
  formed : tree.top.WellFormed
  errors : ∀ place ∈ tree.root.places [], place.node.hasError = false

/-- The node reaches around the first character of a line. -/
def CoversStart (walk : Walk) (line : Nat) (node : Node) : Prop :=
  node.Covers ⟨line - 1, (walk.document.lineD line).indentLength⟩
    ⟨line - 1, (walk.document.lineD line).indentLength + 1⟩

lemma CoversStart.start_row_le {walk : Walk} {line : Nat} {node : Node} (h : walk.CoversStart line node) :
    node.start.row ≤ line - 1 := by
  have hle := Point.row_le_of_le h.1
  exact hle

lemma anchor_eq_descend {walk : Walk} {line : Nat} (hcode : (walk.document.lineD line).isBlank = false) :
    walk.anchor line = walk.root.descend ⟨line - 1, (walk.document.lineD line).indentLength⟩
      ⟨line - 1, (walk.document.lineD line).indentLength + 1⟩ :=
  anchor_of_not_blank hcode

lemma root_chain_suffix_anchor {walk : Walk} {line : Nat} (hcode : (walk.document.lineD line).isBlank = false) :
    walk.root.chain <:+ (walk.anchor line).chain := by
  rw [anchor_eq_descend hcode]
  exact walk.root.suffix_descend _ _

/-- What is around the first character of a line is around the root, or it reaches around that character. -/
lemma coversStart_of_mem_anchor {walk : Walk} {line : Nat}
    (hcode : (walk.document.lineD line).isBlank = false) {node : Node}
    (hnode : node ∈ (walk.anchor line).chain) : node ∈ walk.root.chain ∨ walk.CoversStart line node := by
  rw [anchor_eq_descend hcode] at hnode
  rcases Place.mem_chain_descend hnode with hroot | ⟨-, -, -, hcovers⟩
  · exact Or.inl hroot
  · exact Or.inr hcovers

namespace Clean

variable {walk : Walk} {tree : Tree} (h : walk.Clean tree)

include h

lemma wellFormed_root : walk.root.WellFormed := by
  rcases Place.mem_places.1 h.root with heq | hbelow
  · rw [heq]
    exact h.formed
  · exact h.formed.of_mem_below hbelow

lemma anchor_mem_top (line : Nat) : walk.anchor line ∈ tree.top :: tree.top.below := by
  have hroot := Place.mem_places.1 h.root
  rcases List.mem_cons.1 (walk.anchor_mem line) with heq | hlower
  · rw [heq]
    exact List.mem_cons.2 hroot
  · apply List.mem_cons_of_mem
    rcases hroot with htop | hbelow
    · rw [htop] at hlower
      exact hlower
    · exact Place.below_trans hbelow hlower

/-- Every node of a chain is covered by all nodes above it. -/
lemma pairwise_anchor (line : Nat) :
    (walk.anchor line).chain.Pairwise fun inner outer => outer.Covers inner.start inner.stop :=
  h.formed.pairwise_chain (List.pairwise_singleton ..) (h.anchor_mem_top line)

/-- The nodes of a chain are nodes of the tree. -/
lemma exists_place {line : Nat} {node : Node} (hnode : node ∈ (walk.anchor line).chain) :
    ∃ place ∈ tree.root.places [], place.node = node := by
  have htop : tree.top ∈ tree.root.places [] := Place.mem_places.2 (Or.inl rfl)
  have hself : node ∈ tree.top.chain → ∃ place ∈ tree.root.places [], place.node = node := by
    intro hmem
    exact ⟨tree.top, htop, (List.mem_singleton.1 hmem).symm⟩
  rcases List.mem_cons.1 (h.anchor_mem_top line) with heq | hbelow
  · rw [heq] at hnode
    exact hself hnode
  · rcases Place.mem_chain_of_mem_below hbelow hnode with hmem | ⟨between, hbetween, heq⟩
    · exact hself hmem
    · exact ⟨between, Place.mem_places.2 (Or.inr hbetween), heq⟩

lemma hasError_of_mem_anchor {line : Nat} {node : Node} (hnode : node ∈ (walk.anchor line).chain) :
    node.hasError = false := by
  obtain ⟨place, hplace, rfl⟩ := h.exists_place hnode
  exact h.errors place hplace

lemma span_of_mem_anchor {line : Nat} {node : Node} (hnode : node ∈ (walk.anchor line).chain) :
    node.start ≤ node.stop := by
  obtain ⟨place, hplace, rfl⟩ := h.exists_place hnode
  exact (h.formed place (List.mem_cons.2 (Place.mem_places.1 hplace))).span

/-- A node around the start of one line is around the start of every line whose first character it covers. -/
lemma mem_anchor_of_coversStart {line other : Nat} (hcode : (walk.document.lineD line).isBlank = false)
    (hother : (walk.document.lineD other).isBlank = false) {node : Node}
    (hnode : node ∈ (walk.anchor line).chain) (hcovers : walk.CoversStart other node) :
    node ∈ (walk.anchor other).chain := by
  rw [anchor_eq_descend hcode] at hnode
  rcases Place.mem_chain_descend hnode with hroot | ⟨lower, hlower, hself, -⟩
  · exact (root_chain_suffix_anchor hother).subset hroot
  · have hsuffix : lower.chain <:+ (walk.anchor other).chain := by
      rw [anchor_eq_descend hother]
      apply Place.suffix_descend_of_covers h.wellFormed_root _ hlower
      · rw [hself]
        exact hcovers
      · exact Point.lt_def.2 (Or.inr ⟨rfl, Nat.lt_succ_self _⟩)
    apply hsuffix.subset
    rw [← hself]
    exact List.mem_cons_self ..

/-- Nodes that a lookup enters lie inside the nodes around the root. -/
lemma covers_of_not_mem_root {line : Nat} (hcode : (walk.document.lineD line).isBlank = false) {node outer : Node}
    (hnode : node ∈ (walk.anchor line).chain) (hinner : node ∉ walk.root.chain)
    (houter : outer ∈ walk.root.chain) : outer.Covers node.start node.stop := by
  obtain ⟨entered, hchain⟩ := root_chain_suffix_anchor hcode
  have hpairs := h.pairwise_anchor line
  rw [← hchain] at hnode hpairs
  have hentered : node ∈ entered := (List.mem_append.1 hnode).resolve_right hinner
  exact (List.pairwise_append.1 hpairs).2.2 node hentered outer houter

end Clean

/-! ## A block and its closing token -/

/-- A block over several rows that begins a level, and a child of it that is a branch and starts the line on which
the block ends. -/
structure Closes (walk : Walk) (token block : Node) : Prop where
  anchor : (walk.anchor (block.stop.row + 1)).node = token
  parent : (walk.anchor (block.stop.row + 1)).above.head? = some block
  code : (walk.document.lineD (block.stop.row + 1)).isBlank = false
  branch : walk.marks .branch token = true
  last : token.start.row = block.stop.row
  begins : walk.marks .begin block = true
  rows : block.start.row < block.stop.row

/-- The line on which a block opens: it is not blank, no branch starts it, and blocks around it that open further
up reach around the block. -/
structure OpensLine (walk : Walk) (block : Node) : Prop where
  code : (walk.document.lineD (block.start.row + 1)).isBlank = false
  unbranched : ∀ node ∈ (walk.anchor (block.start.row + 1)).chain, node.start.row = block.start.row →
    walk.marks .branch node = false
  around : ∀ node ∈ (walk.anchor (block.start.row + 1)).chain, walk.marks .begin node = true →
    node.start.row < block.start.row → node.start.row ≠ node.stop.row → node.Covers block.start block.stop

namespace Closes

variable {walk : Walk} {token block : Node} (h : walk.Closes token block)

include h

lemma chain_eq : (walk.anchor (block.stop.row + 1)).chain = token :: (walk.anchor (block.stop.row + 1)).above := by
  unfold Place.chain
  rw [h.anchor]

lemma token_mem : token ∈ (walk.anchor (block.stop.row + 1)).chain := by
  rw [h.chain_eq]
  exact List.mem_cons_self ..

lemma mem_above {node : Node} (hnode : node ∈ (walk.anchor (block.stop.row + 1)).chain) (hne : node ≠ token) :
    node ∈ (walk.anchor (block.stop.row + 1)).above := by
  rw [h.chain_eq] at hnode
  exact List.mem_of_ne_of_mem hne hnode

lemma getElem?_zero : (walk.anchor (block.stop.row + 1)).chain[0]? = some token := by
  rw [h.chain_eq]
  rfl

/-- The token takes one level away. -/
lemma outdents (hmarks : walk.marking.OnlyBlocks) : walk.Outdents block.stop.row token :=
  (outdents_iff_of_onlyBlocks hmarks).2 ⟨h.branch, h.last⟩

lemma block_mem : block ∈ (walk.anchor (block.stop.row + 1)).above :=
  List.mem_of_mem_head? h.parent

end Closes

section Closing

variable {walk : Walk} {tree : Tree} {token block : Node} (hclean : walk.Clean tree)
  (hcloses : walk.Closes token block)

include hclean hcloses

lemma covers_token_of_above {node : Node} (hnode : node ∈ (walk.anchor (block.stop.row + 1)).above) :
    node.Covers token.start token.stop := by
  have hpairs := hclean.pairwise_anchor (block.stop.row + 1)
  rw [hcloses.chain_eq] at hpairs
  exact (List.pairwise_cons.1 hpairs).1 node hnode

/-- The token stays on its row. -/
lemma token_stop_row : token.stop.row = block.stop.row := by
  have hspan := Point.row_le_of_le (hclean.span_of_mem_anchor hcloses.token_mem)
  have hstop := Point.row_le_of_le (covers_token_of_above hclean hcloses hcloses.block_mem).2
  have hlast := hcloses.last
  omega

/-- What is around the token reaches around the block. -/
lemma covers_block_of_above {node : Node} (hnode : node ∈ (walk.anchor (block.stop.row + 1)).above) :
    node.Covers block.start block.stop := by
  have hpairs := hclean.pairwise_anchor (block.stop.row + 1)
  rw [hcloses.chain_eq] at hpairs
  obtain ⟨outer, habove⟩ := List.head?_eq_some_iff.1 hcloses.parent
  rw [habove] at hpairs hnode
  rcases List.mem_cons.1 hnode with heq | houter
  · rw [heq]
    unfold Node.Covers
    simp [Point.le_def]
  · exact (List.pairwise_cons.1 (List.pairwise_cons.1 hpairs).2).1 node houter

lemma start_row_le_of_above {node : Node} (hnode : node ∈ (walk.anchor (block.stop.row + 1)).above) :
    node.start.row ≤ block.start.row :=
  Point.row_le_of_le (covers_block_of_above hclean hcloses hnode).1

/-- A node around the token that starts above the row of the block is around the opening line. -/
lemma mem_opening_of_above (hcode : (walk.document.lineD (block.start.row + 1)).isBlank = false) {node : Node}
    (hnode : node ∈ (walk.anchor (block.stop.row + 1)).chain) (hrow : node.start.row < block.start.row) :
    node ∈ (walk.anchor (block.start.row + 1)).chain := by
  have hne : node ≠ token := by
    rintro rfl
    have hlast := hcloses.last
    have hrows := hcloses.rows
    omega
  have hstop := Point.row_le_of_le (covers_block_of_above hclean hcloses (hcloses.mem_above hnode hne)).2
  apply hclean.mem_anchor_of_coversStart hcloses.code hcode hnode
  constructor
  · exact Point.le_def.2 (Or.inl hrow)
  · exact Point.le_def.2 (Or.inl (hcloses.rows.trans_le hstop))

/-- A block around the opening line that opens on another row is around the token, and it opens further up. -/
lemma above_of_mem_opening (hopens : walk.OpensLine block) {node : Node}
    (hnode : node ∈ (walk.anchor (block.start.row + 1)).chain) (hbegins : walk.marks .begin node = true)
    (hrows : node.start.row ≠ node.stop.row) (hrow : node.start.row ≠ block.start.row) :
    node ∈ (walk.anchor (block.stop.row + 1)).chain ∧ node.start.row < block.start.row := by
  have hlast := hcloses.last
  have hblock := hcloses.rows
  have hstop := token_stop_row hclean hcloses
  have hne : node ≠ token := by
    rintro rfl
    omega
  by_cases hroot : node ∈ walk.root.chain
  · -- Around the root: then it is around both lines.
    have hmem : node ∈ (walk.anchor (block.stop.row + 1)).chain :=
      (root_chain_suffix_anchor hcloses.code).subset hroot
    have hle := start_row_le_of_above hclean hcloses (hcloses.mem_above hmem hne)
    exact ⟨hmem, by omega⟩
  · have habove : node.start.row < block.start.row := by
      have hstart := ((coversStart_of_mem_anchor hopens.code hnode).resolve_left hroot).start_row_le
      omega
    have haround : node.Covers block.start block.stop := hopens.around node hnode hbegins habove hrows
    refine ⟨?_, habove⟩
    rcases coversStart_of_mem_anchor hcloses.code hcloses.token_mem with htoken | htoken
    · -- The token is no node around the root, as it would reach around the block.
      have hover := (hclean.covers_of_not_mem_root hopens.code hnode hroot htoken).trans haround
      have hstart := Point.row_le_of_le hover.1
      omega
    · apply hclean.mem_anchor_of_coversStart hopens.code hcloses.code hnode
      exact haround.trans ((covers_token_of_above hclean hcloses hcloses.block_mem).trans htoken)

section Rows

variable (hmarks : walk.marking.OnlyBlocks) {r : Nat}

include hmarks

/-- The rows for the line of the token: its own, and those of the blocks around it. -/
lemma mem_openRows_closing :
    r ∈ walk.openRows (block.stop.row + 1) ↔ r = block.stop.row ∨
      ∃ node ∈ (walk.anchor (block.stop.row + 1)).chain, node.start.row = r ∧ r ≤ block.start.row ∧
        walk.marks .begin node = true ∧ node.start.row ≠ node.stop.row := by
  have hrows := hcloses.rows
  have hlast := hcloses.last
  have hfills : ∀ node, node.start.row ≤ block.start.row → (walk.Fills block.stop.row false node ↔
      walk.marks .begin node = true ∧ node.start.row ≠ node.stop.row ∧ node.start.row ≠ block.stop.row) := by
    intro node hle
    apply fills_iff_of_onlyBlocks hmarks
    intro heq
    omega
  unfold openRows
  rw [Nat.add_sub_cancel, mem_openRows_iff fun _ => hclean.hasError_of_mem_anchor]
  constructor
  · rintro ⟨node, hnode, rfl, hnodeFills⟩
    by_cases htoken : node = token
    · left
      rw [htoken, hlast]
    · right
      have hle := start_row_le_of_above hclean hcloses (hcloses.mem_above hnode htoken)
      obtain ⟨hbegins, hspan, -⟩ := (hfills node hle).1 hnodeFills
      exact ⟨node, hnode, rfl, hle, hbegins, hspan⟩
  · rintro (rfl | ⟨node, hnode, rfl, hle, hbegins, hspan⟩)
    · exact ⟨token, hcloses.token_mem, hcloses.last, Or.inl (hcloses.outdents hmarks)⟩
    · refine ⟨node, hnode, rfl, (hfills node hle).2 ⟨hbegins, hspan, ?_⟩⟩
      omega

/-- The rows for the opening line: those of the blocks around the token that open further up. -/
lemma mem_openRows_opening (hopens : walk.OpensLine block) :
    r ∈ walk.openRows (block.start.row + 1) ↔
      ∃ node ∈ (walk.anchor (block.stop.row + 1)).chain, node.start.row = r ∧ r < block.start.row ∧
        walk.marks .begin node = true ∧ node.start.row ≠ node.stop.row := by
  unfold openRows
  rw [Nat.add_sub_cancel, mem_openRows_iff fun _ => hclean.hasError_of_mem_anchor]
  constructor
  · rintro ⟨node, hnode, rfl, hfills⟩
    obtain ⟨hbegins, hspan, hrow⟩ :=
      (fills_iff_of_onlyBlocks hmarks (hopens.unbranched node hnode)).1 hfills
    obtain ⟨hclosing, habove⟩ := above_of_mem_opening hclean hcloses hopens hnode hbegins hspan hrow
    exact ⟨node, hclosing, rfl, habove, hbegins, hspan⟩
  · rintro ⟨node, hclosing, rfl, habove, hbegins, hspan⟩
    have hnode := mem_opening_of_above hclean hcloses hopens.code hclosing habove
    refine ⟨node, hnode, rfl, ?_⟩
    exact (fills_iff_of_onlyBlocks hmarks (hopens.unbranched node hnode)).2 ⟨hbegins, hspan, habove.ne⟩

/-- For the line of the token two rows more are open than for the opening line: that of the block and that of the
token itself. -/
lemma openRows_closing (hopens : walk.OpensLine block) :
    walk.openRows (block.stop.row + 1)
      = insert block.stop.row (insert block.start.row (walk.openRows (block.start.row + 1))) := by
  ext r
  rw [Finset.mem_insert, Finset.mem_insert, mem_openRows_closing hclean hcloses hmarks,
    mem_openRows_opening hclean hcloses hmarks hopens]
  apply or_congr_right
  constructor
  · rintro ⟨node, hnode, hrow, hle, hbegins, hspan⟩
    rcases hle.eq_or_lt with heq | hlt
    · exact Or.inl heq
    · exact Or.inr ⟨node, hnode, hrow, hlt, hbegins, hspan⟩
  · rintro (heq | ⟨node, hnode, hrow, hlt, hbegins, hspan⟩)
    · exact ⟨block, List.mem_cons_of_mem _ hcloses.block_mem, heq.symm, heq.le, hcloses.begins, hcloses.rows.ne⟩
    · exact ⟨node, hnode, hrow, hlt.le, hbegins, hspan⟩

lemma card_openRows_closing (hopens : walk.OpensLine block) :
    (walk.openRows (block.stop.row + 1)).card = (walk.openRows (block.start.row + 1)).card + 2 := by
  have habove : ∀ r ∈ walk.openRows (block.start.row + 1), r < block.start.row := by
    intro r hr
    obtain ⟨-, -, -, hlt, -⟩ := (mem_openRows_opening hclean hcloses hmarks hopens).1 hr
    exact hlt
  have hrows := hcloses.rows
  have hblock : block.start.row ∉ walk.openRows (block.start.row + 1) := fun hmem => (habove _ hmem).false
  have htoken : block.stop.row ∉ insert block.start.row (walk.openRows (block.start.row + 1)) := by
    rw [Finset.mem_insert, not_or]
    exact ⟨hrows.ne', fun hmem => hrows.not_gt (habove _ hmem)⟩
  rw [openRows_closing hclean hcloses hmarks hopens, Finset.card_insert_of_notMem htoken,
    Finset.card_insert_of_notMem hblock]

end Rows

end Closing

/-! ## The two lines -/

/-- The shares along the chain of an opening line: one level for each open row. -/
lemma sumBelow_opening {walk : Walk} {block : Node} (hmarks : walk.marking.OnlyBlocks)
    (hopens : walk.OpensLine block) :
    walk.sumBelow block.start.row (walk.anchor (block.start.row + 1)).chain
        (walk.anchor (block.start.row + 1)).chain.length
      = walk.level * (walk.openRows (block.start.row + 1)).card :=
  sumBelow_length_of_plain fun node hnode => plain_of_onlyBlocks hmarks (hopens.unbranched node hnode)

/-- A branch that starts on the row takes one level away, also if it is a begin. -/
lemma share_of_outdents {walk : Walk} (hmarks : walk.marking.OnlyBlocks) {node : Node}
    {row : Nat} (houtdents : walk.Outdents row node) (inError : Bool) :
    walk.share row inError node = -walk.level := by
  have hrow : node.start.row = row := ((outdents_iff_of_onlyBlocks hmarks).1 houtdents).2
  unfold share
  generalize walk.level = level
  rw [if_pos houtdents]
  cases hget : walk.marking.get? .begin node.id with
  | none => exact Int.add_zero _
  | some attrs =>
    have hindents : ¬ IndentsBy row inError node attrs := by
      rw [hmarks.of_begin hget]
      unfold IndentsBy
      simp [hrow, Attributes.countsOnSameLine]
    simp only [if_neg hindents, Int.add_zero]

/-- The shares along the chain of a closing token: the token takes one level away, and each open row but its own
adds one. -/
lemma sumBelow_closing {walk : Walk} {tree : Tree} {token block : Node} (hclean : walk.Clean tree)
    (hcloses : walk.Closes token block) (hmarks : walk.marking.OnlyBlocks) :
    walk.sumBelow block.stop.row (walk.anchor (block.stop.row + 1)).chain
        (walk.anchor (block.stop.row + 1)).chain.length
      = walk.level * ((walk.openRows (block.stop.row + 1)).card - 2) := by
  have houtdents := hcloses.outdents hmarks
  have hsum : walk.sumBelow block.stop.row (walk.anchor (block.stop.row + 1)).chain 1 = -walk.level := by
    rw [sumBelow_succ hcloses.getElem?_zero, sumBelow_zero, if_neg (not_taken_zero _ _ _), Int.zero_add,
      share_of_outdents hmarks houtdents]
  have hcard : (walk.openRowsBelow block.stop.row (walk.anchor (block.stop.row + 1)).chain 1).card = 1 := by
    have hfills : ∀ inError, walk.Fills block.stop.row inError token := fun _ => Or.inl houtdents
    rw [openRowsBelow_succ, openRowAt_eq hcloses.getElem?_zero, if_pos (hfills _)]
    rfl
  -- From the parent of the token on all nodes are plain.
  have hplain : ∀ j, 1 ≤ j → ∀ node ∈ (walk.anchor (block.stop.row + 1)).chain[j]?,
      walk.Plain block.stop.row node := by
    intro j hj node hnode
    rw [hcloses.chain_eq, List.getElem?_cons, if_neg (by omega)] at hnode
    have hle := start_row_le_of_above hclean hcloses (List.mem_of_getElem? hnode)
    have hrows := hcloses.rows
    apply plain_of_onlyBlocks hmarks
    intro heq
    omega
  rw [sumBelow_of_plain hplain (by simp [Place.chain]) le_rfl, hsum, hcard]
  unfold openRows
  rw [Nat.add_sub_cancel]
  generalize walk.level = level
  push_cast
  ring

/-- A closing token lines up with its block: in a well-formed tree without errors, among plain begins and
branches, the line that a closing token starts has the indent of the line on which the block opens. -/
theorem indentOf_closing_eq_opening (tree : Tree) (walk : Walk) (hclean : walk.Clean tree)
    (hmarks : walk.marking.OnlyBlocks) {token block : Node} (hcloses : walk.Closes token block)
    (hopens : walk.OpensLine block) :
    walk.indentOf (block.stop.row + 1) = walk.indentOf (block.start.row + 1) := by
  -- The two sums are equal, and so they wrap around alike.
  rw [indentOf_of_onlyBlocks hmarks, indentOf_of_onlyBlocks hmarks, Nat.add_sub_cancel, Nat.add_sub_cancel,
    sumBelow_closing hclean hcloses hmarks, sumBelow_opening hmarks hopens,
    card_openRows_closing hclean hcloses hmarks hopens]
  push_cast
  rw [Int.add_sub_cancel]

/-! ### A call in a block

The inner call and its block start on one row and both begin a level. -/

/-- The inner block. -/
def innerBlock : Node :=
  ⟨5, "block", ⟨1, 4⟩, ⟨3, 5⟩, false,
    [⟨6, "call", ⟨2, 4⟩, ⟨2, 5⟩, false, []⟩, ⟨7, "end", ⟨3, 2⟩, ⟨3, 5⟩, false, []⟩]⟩

/-- The outer call, with the inner one in its block. -/
def closedCalls : Tree where
  identity := 0
  startByte := 0
  stopByte := 27
  root := ⟨0, "call", ⟨0, 0⟩, ⟨4, 3⟩, false,
    [⟨1, "name", ⟨0, 0⟩, ⟨0, 1⟩, false, []⟩,
      ⟨2, "block", ⟨0, 2⟩, ⟨4, 3⟩, false,
        [⟨3, "call", ⟨1, 2⟩, ⟨3, 5⟩, false, [⟨4, "name", ⟨1, 2⟩, ⟨1, 3⟩, false, []⟩, innerBlock]⟩,
          ⟨8, "end", ⟨4, 0⟩, ⟨4, 3⟩, false, []⟩]⟩]⟩

/-- The walk through these calls. -/
def closedCallsWalk : Walk where
  root := closedCalls.top
  marking := .ofList [(.begin, 2, {}), (.begin, 3, {}), (.begin, 5, {}), (.branch, 7, {}), (.branch, 8, {})]
  patterns := .classes
  document := .new 1 "f do\n  g do\n    c\n  end\nend".toList
  shiftWidth := 4
  tabSize := 4

/-- The end of the inner block stands where the inner call stands, one level deep. -/
theorem closedCalls_closing_eq_opening :
    closedCallsWalk.indentOf 3 = .column 8 ∧ closedCallsWalk.indentOf 2 = .column 4 ∧
      closedCallsWalk.indentOf 4 = closedCallsWalk.indentOf 2 := by
  have hclean : closedCallsWalk.Clean closedCalls :=
    ⟨Place.mem_places.2 (Or.inl rfl), by decide, by decide⟩
  have hmarks : closedCallsWalk.marking.OnlyBlocks := by decide
  have hcloses : closedCallsWalk.Closes ⟨7, "end", ⟨3, 2⟩, ⟨3, 5⟩, false, []⟩ innerBlock :=
    ⟨rfl, rfl, by decide, by decide, rfl, by decide, by decide⟩
  have hopens : closedCallsWalk.OpensLine innerBlock := ⟨by decide, by decide, by decide⟩
  have hlines := indentOf_closing_eq_opening closedCalls closedCallsWalk hclean hmarks hcloses hopens
  rw [show innerBlock.stop.row + 1 = 4 from rfl, show innerBlock.start.row + 1 = 2 from rfl] at hlines
  exact ⟨by decide, by decide, hlines⟩

end Walk

end TreeIndent
