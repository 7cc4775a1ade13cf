import TreeIndent.Proofs.Walk.Agreement

/-!
# What the indent of a line depends on

Of a whole marking the indent of one line reads little: roles of the anchor and its ancestors, of their
children and, for a blank line below a line of code, of the node in which that code ends and its ancestors.
`Walk.reads` lists them. Two markings that agree there give the line the same anchor and the same indent, so
marks on all other nodes of the tree are without influence on the line.
-/

namespace TreeIndent

namespace Marking

/-- The marking with some more marks, made in order. -/
def markAll (marking : Marking) (marks : List (Role × Nat × Attributes)) : Marking :=
  marks.foldl (fun marking (role, node, attrs) => marking.mark role node attrs) marking

/-- Two markings give the same attributes to the same nodes, for some roles and nodes. -/
def AgreesOnAll (marking other : Marking) (entries : List (Role × Nat)) : Prop :=
  ∀ entry ∈ entries, other.get? entry.1 entry.2 = marking.get? entry.1 entry.2

instance (marking other : Marking) (entries : List (Role × Nat)) :
    Decidable (marking.AgreesOnAll other entries) :=
  inferInstanceAs (Decidable (∀ entry ∈ entries, _ = _))

/-- Marks change the attributes of no node in a role that they do not name. -/
lemma get?_markAll {marking : Marking} {marks : List (Role × Nat × Attributes)} {role : Role} {node : Nat}
    (h : ∀ mark ∈ marks, (mark.1, mark.2.1) ≠ (role, node)) :
    (marking.markAll marks).get? role node = marking.get? role node := by
  induction marks generalizing marking with
  | nil => rfl
  | cons mark rest ih =>
    have hmark : (role, node) ≠ (mark.1, mark.2.1) := (h mark (List.mem_cons_self ..)).symm
    have hrest : ((marking.mark mark.1 mark.2.1 mark.2.2).markAll rest).get? role node
        = (marking.mark mark.1 mark.2.1 mark.2.2).get? role node :=
      ih fun other hother => h other (List.mem_cons_of_mem _ hother)
    rw [get?_mark, if_neg hmark] at hrest
    exact hrest

lemma agreesOnAll_markAll {marking : Marking} {marks : List (Role × Nat × Attributes)}
    {entries : List (Role × Nat)} (h : ∀ mark ∈ marks, (mark.1, mark.2.1) ∉ entries) :
    marking.AgreesOnAll (marking.markAll marks) entries := by
  intro entry hentry
  refine get?_markAll fun mark hmark heq => ?_
  exact h mark hmark (heq ▸ hentry)

end Marking

namespace Walk

/-! ## The roles that are read -/

/-- What a visit of a node reads: roles of the node, and roles of its children. -/
def visitReads (node : Node) : List (Role × Nat) :=
  Marking.visitRoles.map (·, node.id) ++
    node.children.flatMap fun child => Marking.childRoles.map (·, child.id)

/-- What the choice of the anchor reads. Only a blank line below a line of code reads something: whether the
node in which that code ends, or a node around it, ends its block. -/
def anchorReads (walk : Walk) (line : Nat) : List (Role × Nat) :=
  if (walk.document.lineD line).isBlank then
    match walk.document.previousNonblank? line with
    | none => []
    | some previous => (walk.lastCodeNode previous).chain.map fun node => (.finish, node.id)
  else []

lemma finish_of_mem_anchorReads {walk : Walk} {line : Nat} {entry : Role × Nat}
    (h : entry ∈ walk.anchorReads line) : entry.1 = .finish := by
  unfold anchorReads at h
  split at h
  · split at h
    · cases h
    · obtain ⟨node, -, rfl⟩ := List.mem_map.1 h
      rfl
  · cases h

/-- The roles, each with the number of a node, that the indent of a line depends on. -/
def reads (walk : Walk) (line : Nat) : List (Role × Nat) :=
  walk.anchorReads line ++ (.zero, (walk.anchor line).node.id) :: (walk.anchor line).chain.flatMap visitReads

variable {walk : Walk} {marking : Marking} {line : Nat}

lemma agreesAt_of_visitReads {node : Node} (h : walk.marking.AgreesOnAll marking (visitReads node)) :
    walk.marking.AgreesAt marking node where
  own role hrole := h (role, node.id) (List.mem_append_left _ (List.mem_map.2 ⟨role, hrole, rfl⟩))
  children child hchild role hrole :=
    h (role, child.id) (List.mem_append_right _
      (List.mem_flatMap.2 ⟨child, hchild, List.mem_map.2 ⟨role, hrole, rfl⟩⟩))

/-! ## Two markings -/

/-- Markings that agree on what the choice of the anchor reads give one anchor. -/
lemma anchor_congr (h : walk.marking.AgreesOnAll marking (walk.anchorReads line)) :
    { walk with marking }.anchor line = walk.anchor line := by
  unfold anchorReads at h
  unfold anchor
  split
  · next hblank =>
    rw [if_pos hblank] at h
    cases hprevious : walk.document.previousNonblank? line with
    | none => rfl
    | some previous =>
      rw [hprevious] at h
      -- The last node of the code is found without the marking; only the end of a block is asked of it.
      have hmarks : ∀ node ∈ (walk.lastCodeNode previous).chain,
          { walk with marking }.marks .finish node = walk.marks .finish node := by
        intro node hnode
        have hread := h (.finish, node.id) (List.mem_map.2 ⟨node, hnode, rfl⟩)
        unfold marks Marking.has
        rw [hread]
      have hends : (walk.lastCodeNode previous).chain.any ({ walk with marking }.marks .finish)
          = (walk.lastCodeNode previous).chain.any (walk.marks .finish) := by
        rw [Bool.eq_iff_iff, List.any_eq_true, List.any_eq_true]
        exact exists_congr fun node => and_congr_right fun hnode => by rw [hmarks node hnode]
      show (if (walk.lastCodeNode previous).chain.any ({ walk with marking }.marks .finish) then _ else _) = _
      rw [hends]
      rfl
  · rfl

/-- Markings that agree on what the visits along a chain read give the same climb. -/
lemma climb_congr {chain : List Node} (h : ∀ node ∈ chain, walk.marking.AgreesAt marking node) (row : Nat)
    (progress : Progress) :
    { walk with marking }.climb row progress chain = walk.climb row progress chain := by
  -- Both climbs go up together: equal visits leave equal progress for the rest of the chain.
  induction chain generalizing progress with
  | nil => rfl
  | cons node above ih =>
    have hvisit := visit_congr (h node (List.mem_cons_self ..)) row progress
    have habove := ih fun other hother => h other (List.mem_cons_of_mem _ hother)
    rw [climb, climb, hvisit]
    split
    · rfl
    · next next hgo => exact habove next

/-- Markings that agree on what the indent of a line depends on give the same anchor. -/
lemma anchor_of_reads (h : walk.marking.AgreesOnAll marking (walk.reads line)) :
    { walk with marking }.anchor line = walk.anchor line :=
  anchor_congr fun entry hentry => h entry (List.mem_append_left _ hentry)

/-- Markings that agree on what the indent of a line depends on give the same indent. -/
lemma indentOf_of_reads (h : walk.marking.AgreesOnAll marking (walk.reads line)) :
    { walk with marking }.indentOf line = walk.indentOf line := by
  have hzero : { walk with marking }.marks .zero (walk.anchor line).node
      = walk.marks .zero (walk.anchor line).node := by
    have hread := h (.zero, (walk.anchor line).node.id) (List.mem_append_right _ (List.mem_cons_self ..))
    unfold marks Marking.has
    rw [hread]
  have hchain : ∀ node ∈ (walk.anchor line).chain, walk.marking.AgreesAt marking node := by
    intro node hnode
    refine agreesAt_of_visitReads fun entry hentry => h entry ?_
    have hmem : entry ∈ (walk.anchor line).chain.flatMap visitReads :=
      List.mem_flatMap.2 ⟨node, hnode, hentry⟩
    exact List.mem_append_right _ (List.mem_cons_of_mem _ hmem)
  unfold indentOf
  dsimp only
  rw [anchor_of_reads h, hzero, climb_congr hchain]
  rfl

/-- The indent of a line depends on nothing of the marking but what `reads` lists. Two markings that agree
there give the line one anchor, one list of things to read and one indent, whatever else they mark; and no
number of marks on other nodes or in other roles changes the indent. -/
theorem indentOf_eq_of_agreesOnAll_reads (walk : Walk) (line : Nat) :
    (∀ marking, walk.marking.AgreesOnAll marking (walk.reads line) →
      { walk with marking }.anchor line = walk.anchor line ∧
        { walk with marking }.reads line = walk.reads line ∧
        { walk with marking }.indentOf line = walk.indentOf line) ∧
      ∀ marks : List (Role × Nat × Attributes), (∀ mark ∈ marks, (mark.1, mark.2.1) ∉ walk.reads line) →
        { walk with marking := walk.marking.markAll marks }.indentOf line = walk.indentOf line := by
  refine ⟨?_, ?_⟩
  · intro marking h
    refine ⟨anchor_of_reads h, ?_, indentOf_of_reads h⟩
    unfold reads
    rw [anchor_of_reads h]
    rfl
  · intro marks hmarks
    exact indentOf_of_reads (Marking.agreesOnAll_markAll hmarks)

/-! ### A blank line after a comment

The line above the blank one ends in a comment, so the anchor is the code before it. -/

/-- A block with a call, a comment behind the call, a blank line and the end of the block. -/
def blankBelowComment : Walk where
  root := ⟨⟨0, "block", ⟨0, 0⟩, ⟨3, 3⟩, false,
    [⟨1, "call", ⟨1, 2⟩, ⟨1, 6⟩, false,
      [⟨2, "name", ⟨1, 2⟩, ⟨1, 3⟩, false, []⟩, ⟨3, "arguments", ⟨1, 3⟩, ⟨1, 6⟩, false, []⟩]⟩,
     ⟨4, "comment", ⟨1, 7⟩, ⟨1, 10⟩, false, []⟩, ⟨5, "end", ⟨3, 0⟩, ⟨3, 3⟩, false, []⟩]⟩, []⟩
  marking := .ofList [(.begin, 0, {}), (.finish, 5, {})]
  patterns := .classes
  document := .new 1 "do\n  f(a) # c\n\nend".toList
  shiftWidth := 4
  tabSize := 4

/-- Marks on the comment, on the end of the block, and in roles of the block that no climb asks for. -/
def marksElsewhere : List (Role × Nat × Attributes) :=
  [(.begin, 4, {}), (.finish, 4, {}), (.zero, 4, {}), (.ignore, 5, {}), (.auto, 5, {}), (.zero, 0, {}),
   (.openDelimiter, 0, {}), (.dedent, 2, {})]

/-- The blank line stays one level deep under all these marks. A mark that is read is another matter. -/
theorem blankBelowComment_eq_of_reads :
    (blankBelowComment.anchor 3).node.id = 3 ∧
      (∀ mark ∈ marksElsewhere, (mark.1, mark.2.1) ∉ blankBelowComment.reads 3) ∧
      blankBelowComment.indentOf 3 = .column 4 ∧
      { blankBelowComment with
        marking := blankBelowComment.marking.markAll marksElsewhere }.indentOf 3 = .column 4 ∧
      blankBelowComment.marking.AgreesOnAll (.ofList [(.begin, 0, {}), (.begin, 2, {})])
        (blankBelowComment.reads 3) ∧
      { blankBelowComment with
        marking := .ofList [(.begin, 0, {}), (.begin, 2, {})] }.indentOf 3 = .column 4 ∧
      { blankBelowComment with
        marking := blankBelowComment.marking.markAll [(.zero, 3, {})] }.indentOf 3 = .column 0 := by
  have hmarks : ∀ mark ∈ marksElsewhere, (mark.1, mark.2.1) ∉ blankBelowComment.reads 3 := by decide +kernel
  have hfour : blankBelowComment.indentOf 3 = .column 4 := by decide +kernel
  have hagrees : blankBelowComment.marking.AgreesOnAll (.ofList [(.begin, 0, {}), (.begin, 2, {})])
      (blankBelowComment.reads 3) := by decide +kernel
  obtain ⟨hmarking, hmore⟩ := indentOf_eq_of_agreesOnAll_reads blankBelowComment 3
  exact ⟨by decide +kernel, hmarks, hfour, (hmore _ hmarks).trans hfour, hagrees,
    (hmarking _ hagrees).2.2.trans hfour, by decide +kernel⟩

end Walk

end TreeIndent
