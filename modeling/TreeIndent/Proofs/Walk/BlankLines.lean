import TreeIndent.Proofs.Walk.Rules

/-!
# Lines of one run of blank lines

Blank lines in a row belong together: where the tree does nothing on their rows, they get one indent. The two
ends of such a run are asked for at different rows. A walk uses the row of its line only to compare it with the
rows of nodes, and none of these comparisons can tell the two rows apart (`Point.OffRows`): not the lookup of
the anchor (`Place.Quiet.atColumn_eq`), and not a visit (`Node.Quiet.visit_eq`).
-/

namespace TreeIndent

/-! ## Quiet rows -/

/-- The point does not lie on the rows from the first to the last. -/
def Point.OffRows (first last : Nat) (p : Point) : Prop :=
  p.row < first ∨ last < p.row

instance (first last : Nat) (p : Point) : Decidable (p.OffRows first last) :=
  inferInstanceAs (Decidable (_ ∨ _))

/-- The tree does nothing on the rows from the first to the last: no node starts there, no node but the root ends
there, and the root does not end before the last of them. -/
structure Place.Quiet (root : Place) (first last : Nat) : Prop where
  starts : ∀ place ∈ root :: root.below, place.node.start.OffRows first last
  stops : ∀ place ∈ root.below, place.node.stop.OffRows first last
  reaches : last ≤ root.node.stop.row

/-- What a visit needs of quiet rows: the node and its children start off them, and the node ends off them or on
the last of them. -/
structure Node.Quiet (node : Node) (first last : Nat) : Prop where
  start : node.start.OffRows first last
  stop : node.stop.OffRows first last ∨ last ≤ node.stop.row
  children : ∀ child ∈ node.children, child.start.OffRows first last

namespace Place.Quiet

variable {root : Place} {first last : Nat} (h : root.Quiet first last)

include h

lemma node {place : Place} (hplace : place ∈ root :: root.below) : place.node.Quiet first last := by
  refine ⟨h.starts place hplace, ?_, ?_⟩
  · rcases List.mem_cons.1 hplace with heq | hbelow
    · rw [heq]
      exact Or.inr h.reaches
    · exact Or.inl (h.stops place hbelow)
  · intro child hchild
    have hbelow : place.child child ∈ root.below := by
      rcases List.mem_cons.1 hplace with heq | hbelow
      · rw [heq] at hchild ⊢
        exact child_mem_below hchild
      · exact below_trans hbelow (child_mem_below hchild)
    exact h.starts (place.child child) (List.mem_cons_of_mem _ hbelow)

/-- All nodes on the chain of a place are quiet, where the tree is walked from its root. -/
lemma chain (htop : root.above = []) {place : Place} (hplace : place ∈ root :: root.below) :
    ∀ node ∈ place.chain, node.Quiet first last := by
  have hroot : ∀ node ∈ root.chain, node.Quiet first last := by
    intro node hnode
    unfold Place.chain at hnode
    rw [htop, List.mem_singleton] at hnode
    rw [hnode]
    exact h.node (List.mem_cons_self ..)
  intro node hnode
  rcases List.mem_cons.1 hplace with heq | hbelow
  · rw [heq] at hnode
    exact hroot node hnode
  · rcases mem_chain_of_mem_below hbelow hnode with habove | ⟨between, hbetween, hself⟩
    · exact hroot node habove
    · rw [← hself]
      exact h.node (List.mem_cons_of_mem _ hbetween)

/-- Lookups on the first and on the last of the rows find the same place, whatever the columns. -/
lemma atColumn_eq (hle : first ≤ last) (column column' : Nat) :
    root.atColumn first column = root.atColumn last column' := by
  rw [atColumn_eq_descend, atColumn_eq_descend]
  apply descend_congr
  intro lower hlower
  have hstart := h.starts lower (List.mem_cons_of_mem _ hlower)
  have hstop := h.stops lower hlower
  unfold Point.OffRows at hstart hstop
  simp only [Point.lt_def]
  omega

end Place.Quiet

/-! ## Visits -/

namespace Node.Quiet

variable {node : Node} {first last : Nat} (h : node.Quiet first last)

include h

/-- Delimiters are children, so they start off the rows. -/
lemma delimiter_offRows {walk : Walk} {edge : Edge} {attrs : Attributes} {delimiter : Delimiter}
    (hdelimiter : walk.delimiter? edge attrs node = some delimiter) :
    delimiter.node.start.OffRows first last := by
  obtain ⟨child, hfind, hchild⟩ := Option.map_eq_some_iff.1 hdelimiter
  rw [← hchild]
  exact h.children child (List.mem_of_find?_eq_some hfind)

variable (hle : first ≤ last) (walk : Walk)

include hle

lemma start_ne : node.start.row ≠ first ∧ node.start.row ≠ last := by
  have hstart := h.start
  unfold Point.OffRows at hstart
  omega

lemma verdict?_eq : walk.verdict? first node = walk.verdict? last node := by
  have hsurrounds : node.surroundsRow first = node.surroundsRow last := by
    have hstart := h.start
    have hstop := h.stop
    unfold Point.OffRows at hstart hstop
    unfold Node.surroundsRow
    rw [Bool.eq_iff_iff]
    simp only [Bool.and_eq_true, decide_eq_true_eq]
    omega
  unfold Walk.verdict?
  rw [hsurrounds]

lemma dedents_eq : walk.dedents first node = walk.dedents last node := by
  obtain ⟨hfirst, hlast⟩ := h.start_ne hle
  unfold Walk.dedents
  simp only [beq_eq_false_iff_ne.2 hfirst, beq_eq_false_iff_ne.2 hlast]

lemma begins?_eq (inError : Bool) : walk.begins? first inError node = walk.begins? last inError node := by
  obtain ⟨hfirst, hlast⟩ := h.start_ne hle
  unfold Walk.begins?
  simp only [bne_iff_ne.2 hfirst, bne_iff_ne.2 hlast]

lemma addLevels_eq (inError : Bool) (indent : Int) :
    walk.addLevels first inError node indent = walk.addLevels last inError node indent := by
  unfold Walk.addLevels
  rw [h.dedents_eq hle, h.begins?_eq hle]

lemma aligns?_eq (inError : Bool) : walk.aligns? first inError node = walk.aligns? last inError node := by
  obtain ⟨hfirst, hlast⟩ := h.start_ne hle
  unfold Walk.aligns?
  simp only [bne_iff_ne.2 hfirst, bne_iff_ne.2 hlast]

lemma align_eq (attrs : Attributes) (indent : Int) :
    walk.align first attrs node indent = walk.align last attrs node indent := by
  cases hopening : walk.delimiter? .opening attrs node with
  | none =>
    unfold Walk.align
    rw [hopening]
  | some opening =>
    have hopen : opening.node.start.row < first ↔ opening.node.start.row < last := by
      have hoff := h.delimiter_offRows hopening
      unfold Point.OffRows at hoff
      omega
    -- The closing delimiter stands above both rows or above neither, and it stands on neither.
    have hclose : ∀ closing ∈ walk.delimiter? .closing attrs node,
        (closing.node.start.row < first ↔ closing.node.start.row < last) ∧
          closing.node.start.row ≠ first ∧ closing.node.start.row ≠ last := by
      intro closing hclosing
      have hoff := h.delimiter_offRows hclosing
      unfold Point.OffRows at hoff
      omega
    unfold Walk.align
    rw [hopening]
    revert hclose
    generalize walk.delimiter? .closing attrs node = closing
    intro hclose
    cases closing with
    | none => simp only [hopen, Option.any_none, Walk.avoidNextLine]
    | some closing =>
      obtain ⟨hlt, hfirst, hlast⟩ := hclose closing rfl
      simp only [hopen, hlt, Option.any_some, Walk.avoidNextLine, beq_eq_false_iff_ne.2 hfirst,
        beq_eq_false_iff_ne.2 hlast]

/-- A visit does the same for the line at the first and for the line at the last of the rows. -/
lemma visit_eq (progress : Walk.Progress) (inError : Bool) :
    walk.visit first progress inError node = walk.visit last progress inError node := by
  unfold Walk.visit
  rw [h.verdict?_eq hle, h.dedents_eq hle, h.begins?_eq hle, h.aligns?_eq hle]
  simp only [h.align_eq hle, h.addLevels_eq hle]

end Node.Quiet

/-! ## The two lines -/

namespace Walk

/-- Two blank lines below the same line of code have one anchor. Whether a block ends there is asked of that code;
if so, both lines are looked up by themselves and start with the same node. -/
lemma anchor_eq_of_blank {walk : Walk} {i j : Nat} (hij : i ≤ j)
    (hquiet : walk.root.Quiet (i - 1) (j - 1)) (hi : (walk.document.lineD i).isBlank = true)
    (hj : (walk.document.lineD j).isBlank = true)
    (hprevious : walk.document.previousNonblank? i = walk.document.previousNonblank? j) :
    walk.anchor i = walk.anchor j := by
  have hfirst : walk.firstNode i = walk.firstNode j := hquiet.atColumn_eq (Nat.sub_le_sub_right hij 1) ..
  unfold anchor
  rw [if_pos hi, if_pos hj, hprevious, hfirst]

/-- Along nodes that are quiet on the rows, the climbs for the two lines go up together. -/
lemma climb_eq_of_quiet {chain : List Node} {first last : Nat} (h : ∀ node ∈ chain, node.Quiet first last)
    (hle : first ≤ last) (walk : Walk) (progress : Progress) :
    walk.climb first progress chain = walk.climb last progress chain := by
  induction chain generalizing progress with
  | nil => rfl
  | cons node above ih =>
    have hvisit := (h node (List.mem_cons_self ..)).visit_eq hle walk progress
    have habove := ih fun other hother => h other (List.mem_cons_of_mem _ hother)
    rw [climb, climb, hvisit]
    split
    · rfl
    · exact habove _

/-- All lines of one run of blank lines get the same indent. The two lines may hold any white space, and the code
above them may end its block or not; the tree must do nothing on the rows from the one line to the other. -/
theorem indentOf_eq_of_blank_run (walk : Walk) (htop : walk.root.above = []) {i j : Nat} (hij : i < j)
    (hi : (walk.document.lineD i).isBlank = true) (hj : (walk.document.lineD j).isBlank = true)
    (hprevious : walk.document.previousNonblank? i = walk.document.previousNonblank? j)
    (hquiet : walk.root.Quiet (i - 1) (j - 1)) : walk.indentOf i = walk.indentOf j := by
  have hle : i - 1 ≤ j - 1 := by omega
  have hanchor : walk.anchor i = walk.anchor j := anchor_eq_of_blank hij.le hquiet hi hj hprevious
  have hclimb : walk.climb (i - 1) ⟨walk.base, []⟩ (walk.anchor j).chain
      = walk.climb (j - 1) ⟨walk.base, []⟩ (walk.anchor j).chain :=
    climb_eq_of_quiet (hquiet.chain htop (walk.anchor_mem j)) hle walk _
  unfold indentOf
  dsimp only
  rw [hanchor, hclimb]

/-- A block below which the program goes on for three blank lines, the last of them with a tab. The end of the
block is marked, so that blank lines after it are looked up by themselves. -/
def endedBlock : Walk where
  root := ⟨⟨0, "program", ⟨0, 0⟩, ⟨5, 1⟩, false,
    [⟨1, "block", ⟨0, 0⟩, ⟨2, 3⟩, false,
      [⟨2, "do", ⟨0, 0⟩, ⟨0, 2⟩, false, []⟩, ⟨3, "name", ⟨1, 2⟩, ⟨1, 3⟩, false, []⟩,
        ⟨4, "end", ⟨2, 0⟩, ⟨2, 3⟩, false, []⟩]⟩]⟩, []⟩
  marking := .ofList [(.begin, 0, {}), (.begin, 1, {}), (.finish, 4, {})]
  patterns := .classes
  document := .new 1 "do\n  x\nend\n\n  \n\t".toList
  shiftWidth := 4
  tabSize := 4

/-- The first and the last of the blank lines are one level deep; the program ends on the row of the last. -/
theorem endedBlock_eq_of_blank_run :
    (endedBlock.anchor 4).node.id = 0 ∧ endedBlock.indentOf 4 = .column 4 ∧
      endedBlock.root.Quiet 3 5 ∧ endedBlock.indentOf 4 = endedBlock.indentOf 6 := by
  have hquiet : endedBlock.root.Quiet 3 5 := ⟨by decide, by decide, by decide⟩
  refine ⟨by decide +kernel, by decide +kernel, hquiet, ?_⟩
  exact indentOf_eq_of_blank_run endedBlock rfl (by decide) (by decide +kernel) (by decide +kernel)
    (by decide +kernel) hquiet

end Walk

end TreeIndent
