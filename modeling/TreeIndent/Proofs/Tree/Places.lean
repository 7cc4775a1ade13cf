import TreeIndent.Tree.Place
import Mathlib.Data.List.Find
import Mathlib.Tactic.Common

/-!
# The places of a tree

All nodes below a place, with the nodes around them, and which of them a descent reaches.

* `Place.below`: the places below a place, and `Place.induction` over them. A place lies at another or below it
  when the other's chain is the end of its own.
* `Place.descend`: the lookup between two points. It ends at the place itself or below it, and every node that it
  enters on the way covers both points (`mem_chain_descend`).
* `Place.WellFormed`: children in order, side by side and inside their parent. Then the lookup misses no node:
  whatever covers both points is on the chain that it finds (`suffix_descend_of_covers`), and the node at which it
  ends is the innermost of them (`descend_eq_of_innermost`, `innermost_descend`). For the lookup at a column this is
  put together in `atColumn_finds_smallest`.
* `descend_congr`: two lookups agree where each node lies alike to the points of both.
-/

namespace TreeIndent

/-! ## Places below a place -/

/-- Induction over a tree: a fact that a node has as soon as its children have it. -/
@[elab_as_elim]
theorem Node.induction {motive : Node → Prop}
    (h : ∀ node : Node, (∀ child ∈ node.children, motive child) → motive node) (node : Node) :
    motive node := by
  refine @Node.rec motive (fun children => ∀ child ∈ children, motive child) ?_ ?_ ?_ node
  · intro id kind start stop hasError children ih
    exact h ⟨id, kind, start, stop, hasError, children⟩ ih
  · intro child hchild
    cases hchild
  · intro head tail hhead htail child hchild
    rcases List.mem_cons.1 hchild with heq | hmem
    · rw [heq]
      exact hhead
    · exact htail child hmem

namespace Place

/-- The place of a child. -/
def child (place : Place) (node : Node) : Place :=
  ⟨node, place.chain⟩

/-- The places of all nodes below a place, in preorder. -/
def below (place : Place) : List Place :=
  placesAmong place.chain place.node.children

/-- Induction over the places of a tree, from the children up. -/
@[elab_as_elim]
theorem induction {motive : Place → Prop}
    (h : ∀ place : Place, (∀ node ∈ place.node.children, motive (place.child node)) → motive place)
    (place : Place) : motive place := by
  obtain ⟨node, above⟩ := place
  induction node using Node.induction generalizing above with
  | h node ih => exact h ⟨node, above⟩ fun child hchild => ih child hchild (node :: above)

lemma mem_placesAmong {above children : List Node} {place : Place} :
    place ∈ placesAmong above children ↔ ∃ child ∈ children, place ∈ child.places above := by
  induction children with
  | nil => simp [placesAmong]
  | cons head tail ih =>
    rw [placesAmong, List.mem_append, ih]
    simp only [List.mem_cons, exists_eq_or_imp]

lemma mem_places {node : Node} {above : List Node} {place : Place} :
    place ∈ node.places above ↔ place = ⟨node, above⟩ ∨ place ∈ (Place.mk node above).below := by
  rw [Node.places_eq, List.mem_cons]
  rfl

lemma mem_below {place lower : Place} :
    lower ∈ place.below ↔
      ∃ node ∈ place.node.children, lower = place.child node ∨ lower ∈ (place.child node).below := by
  unfold below
  rw [mem_placesAmong]
  exact exists_congr fun node => and_congr_right fun _ => mem_places

lemma child_mem_below {place : Place} {node : Node} (h : node ∈ place.node.children) :
    place.child node ∈ place.below :=
  mem_below.2 ⟨node, h, Or.inl rfl⟩

/-- What is below a place that is below another is below that one too. -/
lemma below_trans {place lower lowest : Place} (hlower : lower ∈ place.below) (hlowest : lowest ∈ lower.below) :
    lowest ∈ place.below := by
  induction place using Place.induction with
  | h place ih =>
    obtain ⟨node, hnode, heq | hbelow⟩ := mem_below.1 hlower
    · rw [heq] at hlowest
      exact mem_below.2 ⟨node, hnode, Or.inr hlowest⟩
    · exact mem_below.2 ⟨node, hnode, Or.inr (ih node hnode hbelow)⟩

lemma child_suffix (place : Place) (node : Node) : place.chain <:+ (place.child node).chain :=
  List.suffix_cons node place.chain

/-- The chain of a place ends in the chain of each place that it lies below. -/
lemma suffix_of_mem_below {place lower : Place} (h : lower ∈ place.below) : place.chain <:+ lower.chain := by
  induction place using Place.induction with
  | h place ih =>
    obtain ⟨node, hnode, heq | hbelow⟩ := mem_below.1 h
    · rw [heq]
      exact place.child_suffix node
    · exact (place.child_suffix node).trans (ih node hnode hbelow)

/-- A node on the chain of a lower place is one of the chain above, or it has a place of its own in between. -/
lemma mem_chain_of_mem_below {place lower : Place} (h : lower ∈ place.below) {node : Node}
    (hnode : node ∈ lower.chain) : node ∈ place.chain ∨ ∃ between ∈ place.below, between.node = node := by
  induction place using Place.induction with
  | h place ih =>
    obtain ⟨child, hchild, heq | hbelow⟩ := mem_below.1 h
    · rw [heq] at hnode
      rcases List.mem_cons.1 hnode with hself | habove
      · exact Or.inr ⟨place.child child, child_mem_below hchild, hself.symm⟩
      · exact Or.inl habove
    · rcases ih child hchild hbelow with hchain | ⟨between, hbetween, hself⟩
      · rcases List.mem_cons.1 hchain with hself | habove
        · exact Or.inr ⟨place.child child, child_mem_below hchild, hself.symm⟩
        · exact Or.inl habove
      · exact Or.inr ⟨between, below_trans (child_mem_below hchild) hbetween, hself⟩

/-! ## Descents -/

/-- The place that a descent from a place reaches between two points. -/
def descend (place : Place) (a b : Point) : Place :=
  place.node.descend a b place.above

lemma atColumn_eq_descend (place : Place) (row column : Nat) :
    place.atColumn row column = place.descend ⟨row, column⟩ ⟨row, column + 1⟩ := rfl

/-- The descent looks at one child only: the first that does not end before the second point. -/
lemma descendAmong_eq_find? (a b : Point) (above children : List Node) :
    descendAmong a b above children = (children.find? fun child => ¬ child.stop < b).bind fun child =>
      if a < child.start then none else some (child.descend a b above) := by
  induction children with
  | nil => rfl
  | cons child rest ih =>
    rw [descendAmong, List.find?_cons]
    by_cases hstop : child.stop < b
    · simpa [hstop] using ih
    · simp [hstop]

lemma descend_eq (place : Place) (a b : Point) :
    place.descend a b = ((place.node.children.find? fun child => ¬ child.stop < b).bind fun child =>
      if a < child.start then none else some ((place.child child).descend a b)).getD place := by
  unfold descend
  rw [Node.descend_eq, descendAmong_eq_find?]
  rfl

/-- A descent stays where it is, or it enters a child that reaches around both points. -/
lemma descend_cases (place : Place) (a b : Point) :
    place.descend a b = place ∨ ∃ child ∈ place.node.children, ¬ a < child.start ∧ ¬ child.stop < b ∧
      place.descend a b = (place.child child).descend a b := by
  rw [descend_eq]
  cases hfind : place.node.children.find? fun child => ¬ child.stop < b with
  | none => exact Or.inl rfl
  | some child =>
    have hmem : child ∈ place.node.children := List.mem_of_find?_eq_some hfind
    have hstop : ¬ child.stop < b := by simpa using List.find?_some hfind
    by_cases hstart : a < child.start
    · left
      simp [hstart]
    · right
      refine ⟨child, hmem, hstart, hstop, ?_⟩
      simp [hstart]

/-- A descent ends at the place itself or below it. -/
lemma descend_mem (place : Place) (a b : Point) : place.descend a b ∈ place :: place.below := by
  induction place using Place.induction with
  | h place ih =>
    rcases place.descend_cases a b with hstays | ⟨child, hchild, -, -, henters⟩
    · rw [hstays]
      exact List.mem_cons_self ..
    · rw [henters]
      apply List.mem_cons_of_mem
      refine mem_below.2 ⟨child, hchild, ?_⟩
      exact List.mem_cons.1 (ih child hchild)

lemma suffix_descend (place : Place) (a b : Point) : place.chain <:+ (place.descend a b).chain := by
  rcases List.mem_cons.1 (place.descend_mem a b) with heq | hbelow
  · exact ⟨[], by rw [heq, List.nil_append]⟩
  · exact suffix_of_mem_below hbelow

/-- Two descents take the same way if every node below lies alike to the points of both. -/
lemma descend_congr {place : Place} {a b a' b' : Point}
    (h : ∀ lower ∈ place.below,
      (a < lower.node.start ↔ a' < lower.node.start) ∧ (lower.node.stop < b ↔ lower.node.stop < b')) :
    place.descend a b = place.descend a' b' := by
  induction place using Place.induction with
  | h place ih =>
    have hchild : ∀ child ∈ place.node.children,
        (a < child.start ↔ a' < child.start) ∧ (child.stop < b ↔ child.stop < b') :=
      fun child hmem => h _ (child_mem_below hmem)
    -- Both look at the same child, and both enter it or neither does.
    have hfind : (place.node.children.find? fun child => ¬ child.stop < b)
        = place.node.children.find? fun child => ¬ child.stop < b' :=
      List.find?_congr fun child hmem => decide_eq_decide.2 (not_congr (hchild child hmem).2)
    rw [descend_eq, descend_eq, hfind]
    cases hfound : place.node.children.find? fun child => ¬ child.stop < b' with
    | none => rfl
    | some child =>
      have hmem : child ∈ place.node.children := List.mem_of_find?_eq_some hfound
      have hrest : (place.child child).descend a b = (place.child child).descend a' b' :=
        ih child hmem fun lower hlower => h lower (below_trans (child_mem_below hmem) hlower)
      simp only [Option.bind_some, (hchild child hmem).1, hrest]

end Place

/-! ## Nodes that cover a range -/

lemma Point.row_le_of_le {p q : Point} (h : p ≤ q) : p.row ≤ q.row := by
  rw [Point.le_def] at h
  omega

lemma Point.lt_next (row column : Nat) : (⟨row, column⟩ : Point) < ⟨row, column + 1⟩ :=
  Or.inr ⟨rfl, Nat.lt_succ_self column⟩

/-- The node reaches around both points. -/
def Node.Covers (node : Node) (a b : Point) : Prop :=
  node.start ≤ a ∧ b ≤ node.stop

instance (node : Node) (a b : Point) : Decidable (node.Covers a b) :=
  inferInstanceAs (Decidable (_ ∧ _))

lemma Node.covers_of_not_lt {node : Node} {a b : Point} (hstart : ¬ a < node.start) (hstop : ¬ node.stop < b) :
    node.Covers a b := by
  rw [Point.lt_def] at hstart hstop
  unfold Node.Covers
  rw [Point.le_def, Point.le_def]
  omega

/-- The node reaches around both points, and none of its children does. -/
def Node.Innermost (node : Node) (a b : Point) : Prop :=
  node.Covers a b ∧ ∀ child ∈ node.children, ¬ child.Covers a b

/-- A node that covers another covers all that the other covers. -/
lemma Node.Covers.trans {outer inner : Node} {a b : Point} (houter : outer.Covers inner.start inner.stop)
    (hinner : inner.Covers a b) : outer.Covers a b := by
  unfold Node.Covers at *
  simp only [Point.le_def] at *
  omega

/-- The span of a node is in order, and its children stand inside it, one after the other. -/
structure Node.Fits (node : Node) : Prop where
  span : node.start ≤ node.stop
  inside : ∀ child ∈ node.children, node.Covers child.start child.stop
  ordered : node.children.Pairwise fun earlier later => earlier.stop ≤ later.start

instance (node : Node) : Decidable node.Fits :=
  decidable_of_iff
    (node.start ≤ node.stop ∧ (∀ child ∈ node.children, node.Covers child.start child.stop) ∧
      node.children.Pairwise fun earlier later => earlier.stop ≤ later.start)
    ⟨fun h => ⟨h.1, h.2.1, h.2.2⟩, fun h => ⟨h.span, h.inside, h.ordered⟩⟩

namespace Place

/-- Every node from a place down has its children in order, side by side and inside it. -/
def WellFormed (place : Place) : Prop :=
  ∀ lower ∈ place :: place.below, lower.node.Fits

instance (place : Place) : Decidable place.WellFormed :=
  inferInstanceAs (Decidable (∀ lower ∈ place :: place.below, _))

lemma WellFormed.fits {place : Place} (h : place.WellFormed) : place.node.Fits :=
  h place (List.mem_cons_self ..)

lemma WellFormed.of_mem_below {place lower : Place} (h : place.WellFormed) (hlower : lower ∈ place.below) :
    lower.WellFormed := by
  intro lowest hlowest
  rcases List.mem_cons.1 hlowest with heq | hbelow
  · rw [heq]
    exact h lower (List.mem_cons_of_mem _ hlower)
  · exact h lowest (List.mem_cons_of_mem _ (below_trans hlower hbelow))

lemma WellFormed.child {place : Place} (h : place.WellFormed) {node : Node}
    (hnode : node ∈ place.node.children) : (place.child node).WellFormed :=
  h.of_mem_below (child_mem_below hnode)

/-- A node of a well-formed tree covers all nodes below it. -/
lemma WellFormed.covers {place : Place} (h : place.WellFormed) {lower : Place} (hlower : lower ∈ place.below) :
    place.node.Covers lower.node.start lower.node.stop := by
  induction place using Place.induction with
  | h place ih =>
    obtain ⟨node, hnode, heq | hbelow⟩ := mem_below.1 hlower
    · rw [heq]
      exact h.fits.inside node hnode
    · exact (h.fits.inside node hnode).trans (ih node hnode (h.child hnode) hbelow)

/-- From a place down, every node of a chain is covered by all nodes above it, if the chain of the place itself
is of that kind. -/
lemma WellFormed.pairwise_chain {place : Place} (h : place.WellFormed)
    (hchain : place.chain.Pairwise fun inner outer => outer.Covers inner.start inner.stop) {lower : Place}
    (hlower : lower ∈ place :: place.below) :
    lower.chain.Pairwise fun inner outer => outer.Covers inner.start inner.stop := by
  induction place using Place.induction with
  | h place ih =>
    rcases List.mem_cons.1 hlower with heq | hbelow
    · rw [heq]
      exact hchain
    · obtain ⟨node, hnode, hrest⟩ := mem_below.1 hbelow
      have hinside : place.node.Covers node.start node.stop := h.fits.inside node hnode
      refine ih node hnode (h.child hnode) ?_ (List.mem_cons.2 hrest)
      refine List.pairwise_cons.2 ⟨fun outer houter => ?_, hchain⟩
      -- The parent covers the child, and what is above the parent covers the parent.
      rcases List.mem_cons.1 houter with heq | habove
      · rw [heq]
        exact hinside
      · exact ((List.pairwise_cons.1 hchain).1 outer habove).trans hinside

/-! ## What a descent finds -/

/-- Every node that a descent enters reaches around both points. -/
lemma mem_chain_descend {place : Place} {a b : Point} {node : Node}
    (h : node ∈ (place.descend a b).chain) :
    node ∈ place.chain ∨ ∃ lower ∈ place.below, lower.node = node ∧ node.Covers a b := by
  induction place using Place.induction with
  | h place ih =>
    rcases place.descend_cases a b with hstays | ⟨child, hchild, hstart, hstop, henters⟩
    · rw [hstays] at h
      exact Or.inl h
    · rw [henters] at h
      have hcovers : child.Covers a b := Node.covers_of_not_lt hstart hstop
      rcases ih child hchild h with hchain | ⟨lower, hlower, hself, hnode⟩
      · rcases List.mem_cons.1 hchain with heq | habove
        · rw [heq]
          exact Or.inr ⟨place.child child, child_mem_below hchild, rfl, hcovers⟩
        · exact Or.inl habove
      · exact Or.inr ⟨lower, below_trans (child_mem_below hchild) hlower, hself, hnode⟩

/-- Among children that stand side by side, the descent enters the one that covers both points. -/
lemma descend_of_child_covers {place : Place} (h : place.node.Fits) {a b : Point} (hab : a < b) {child : Node}
    (hchild : child ∈ place.node.children) (hcovers : child.Covers a b) :
    place.descend a b = (place.child child).descend a b := by
  have hfind : (place.node.children.find? fun other => ¬ other.stop < b) = some child := by
    obtain ⟨earlier, later, hsplit⟩ := List.append_of_mem hchild
    have hordered := h.ordered
    rw [hsplit] at hordered ⊢
    rw [List.find?_append, List.find?_eq_none.2, Option.none_or, List.find?_cons_of_pos]
    · have hstop := hcovers.2
      rw [Point.le_def] at hstop
      simp only [Point.lt_def, decide_eq_true_eq]
      omega
    · -- The children before it end where it starts at the latest, so they end before the second point.
      intro other hother
      have hbefore : other.stop ≤ child.start :=
        (List.pairwise_append.1 hordered).2.2 other hother child (List.mem_cons_self ..)
      have hstart := hcovers.1
      rw [Point.le_def] at hbefore hstart
      rw [Point.lt_def] at hab
      simp only [Point.lt_def, decide_eq_true_eq, Decidable.not_not]
      omega
  have hstart : ¬ a < child.start := by
    have hstart := hcovers.1
    rw [Point.le_def] at hstart
    rw [Point.lt_def]
    omega
  rw [descend_eq, hfind]
  simp [hstart]

/-- In a well-formed tree the lookup goes through every place below whose node covers both points. -/
lemma descend_eq_of_covers {place : Place} (h : place.WellFormed) {a b : Point} (hab : a < b)
    {lower : Place} (hlower : lower ∈ place.below) (hcovers : lower.node.Covers a b) :
    place.descend a b = lower.descend a b := by
  induction place using Place.induction with
  | h place ih =>
    obtain ⟨node, hnode, hrest⟩ := mem_below.1 hlower
    have hchild : node.Covers a b := by
      rcases hrest with heq | hbelow
      · rw [heq] at hcovers
        exact hcovers
      · exact ((h.child hnode).covers hbelow).trans hcovers
    rw [descend_of_child_covers h.fits hab hnode hchild]
    rcases hrest with heq | hbelow
    · rw [heq]
    · exact ih node hnode (h.child hnode) hbelow

/-- So it misses no node: such a place is found, or one below it is. -/
theorem suffix_descend_of_covers {place : Place} (h : place.WellFormed) {a b : Point} (hab : a < b)
    {lower : Place} (hlower : lower ∈ place.below) (hcovers : lower.node.Covers a b) :
    lower.chain <:+ (place.descend a b).chain := by
  rw [descend_eq_of_covers h hab hlower hcovers]
  exact suffix_descend ..

/-- A descent stays where no child covers both points. -/
lemma descend_eq_self {place : Place} {a b : Point}
    (h : ∀ child ∈ place.node.children, ¬ child.Covers a b) : place.descend a b = place := by
  rcases place.descend_cases a b with hstays | ⟨child, hchild, hstart, hstop, -⟩
  · exact hstays
  · exact absurd (Node.covers_of_not_lt hstart hstop) (h child hchild)

/-- Where a descent stays, no child covers both points: it would have been entered. -/
lemma not_covers_of_descend_eq_self {place : Place} (h : place.node.Fits) {a b : Point} (hab : a < b)
    (hstays : place.descend a b = place) : ∀ child ∈ place.node.children, ¬ child.Covers a b := by
  intro child hchild hcovers
  have hdown : (place.child child).chain <:+ place.chain := by
    have hsuffix := (place.child child).suffix_descend a b
    rwa [← descend_of_child_covers h hab hchild hcovers, hstays] at hsuffix
  have hlength : place.chain.length + 1 ≤ place.chain.length := hdown.length_le
  omega

/-- The innermost node around both points is found. -/
lemma descend_eq_of_innermost {place : Place} (h : place.WellFormed) {a b : Point} (hab : a < b)
    {lower : Place} (hlower : lower ∈ place.below) (hinner : lower.node.Innermost a b) :
    place.descend a b = lower := by
  rw [descend_eq_of_covers h hab hlower hinner.1]
  exact descend_eq_self hinner.2

/-- A descent that goes down ends at the innermost node around both points. -/
lemma innermost_descend {place : Place} (h : place.WellFormed) {a b : Point} (hab : a < b) :
    place.descend a b = place ∨ (place.descend a b).node.Innermost a b := by
  induction place using Place.induction with
  | h place ih =>
    rcases place.descend_cases a b with hstays | ⟨child, hchild, hstart, hstop, henters⟩
    · exact Or.inl hstays
    · right
      rw [henters]
      rcases ih child hchild (h.child hchild) with hends | hinner
      · have hnone := not_covers_of_descend_eq_self (h.child hchild).fits hab hends
        rw [hends]
        exact ⟨Node.covers_of_not_lt hstart hstop, hnone⟩
      · exact hinner

/-- Between a place and the end of a descent from it there are only nodes around both points. -/
lemma exists_path_descend (place : Place) (a b : Point) :
    ∃ path, (place.descend a b).chain = path ++ place.chain ∧ ∀ node ∈ path, node.Covers a b := by
  induction place using Place.induction with
  | h place ih =>
    rcases place.descend_cases a b with hstays | ⟨child, hchild, hstart, hstop, henters⟩
    · refine ⟨[], ?_, ?_⟩
      · rw [hstays, List.nil_append]
      · intro node hnode
        cases hnode
    · obtain ⟨path, hpath, hcovers⟩ := ih child hchild
      have hchain : (place.child child).chain = child :: place.chain := rfl
      -- The child stands at the upper end of the path.
      refine ⟨path ++ [child], ?_, ?_⟩
      · rw [henters, hpath, hchain, List.append_assoc]
        rfl
      · intro node hnode
        rcases List.mem_append.1 hnode with hpart | hlast
        · exact hcovers node hpart
        · rw [List.mem_singleton.1 hlast]
          exact Node.covers_of_not_lt hstart hstop

/-! ## The node at a column -/

/-- The lookup at a column of a well-formed tree finds the smallest node around the column. It ends at the place
where it starts or below it; every node that it passes on the way down reaches around the column, and no child of
the node found does. Every node below that reaches around the column is the one found or stands above it. -/
theorem atColumn_finds_smallest (root : Place) (row column : Nat) (h : root.WellFormed) :
    root.atColumn row column ∈ root :: root.below ∧
    (∃ path, (root.atColumn row column).chain = path ++ root.chain ∧
      ∀ node ∈ path, node.Covers ⟨row, column⟩ ⟨row, column + 1⟩) ∧
    (∀ child ∈ (root.atColumn row column).node.children,
      ¬ child.Covers ⟨row, column⟩ ⟨row, column + 1⟩) ∧
    ∀ lower ∈ root.below, lower.node.Covers ⟨row, column⟩ ⟨row, column + 1⟩ →
      root.atColumn row column ∈ lower :: lower.below := by
  have hcolumn : (⟨row, column⟩ : Point) < ⟨row, column + 1⟩ := Point.lt_next row column
  rw [atColumn_eq_descend]
  refine ⟨root.descend_mem _ _, root.exists_path_descend _ _, ?_, ?_⟩
  · rcases innermost_descend h hcolumn with hstays | hinner
    · rw [hstays]
      exact not_covers_of_descend_eq_self h.fits hcolumn hstays
    · exact hinner.2
  · intro lower hlower hcovers
    rw [descend_eq_of_covers h hcolumn hlower hcovers]
    exact lower.descend_mem _ _

/-- The arguments of a call of which the first is missing: a node without width stands for it. -/
def commaArguments : Node :=
  ⟨2, "arguments", ⟨0, 1⟩, ⟨0, 4⟩, true,
    [⟨3, "(", ⟨0, 1⟩, ⟨0, 2⟩, false, []⟩, ⟨4, "identifier", ⟨0, 2⟩, ⟨0, 2⟩, true, []⟩,
      ⟨5, ",", ⟨0, 2⟩, ⟨0, 3⟩, false, []⟩, ⟨6, ")", ⟨0, 3⟩, ⟨0, 4⟩, false, []⟩]⟩

/-- The place of that call. -/
def commaCall : Place :=
  ⟨⟨0, "call", ⟨0, 0⟩, ⟨0, 4⟩, true, [⟨1, "identifier", ⟨0, 0⟩, ⟨0, 1⟩, false, []⟩, commaArguments]⟩, []⟩

/-- At the column of the comma the comma is found, and not the node without width before it; the arguments reach
around that column and stand above the comma. -/
theorem commaCall_finds_smallest :
    commaCall.WellFormed ∧ (commaCall.atColumn 0 2).node.kind = "," ∧
      (∃ path, (commaCall.atColumn 0 2).chain = path ++ commaCall.chain ∧
        ∀ node ∈ path, node.Covers ⟨0, 2⟩ ⟨0, 3⟩) ∧
      commaCall.atColumn 0 2 ∈ commaCall.child commaArguments :: (commaCall.child commaArguments).below := by
  have hformed : commaCall.WellFormed := by decide
  obtain ⟨-, hpath, -, hfound⟩ := atColumn_finds_smallest commaCall 0 2 hformed
  have harguments : commaCall.child commaArguments ∈ commaCall.below :=
    child_mem_below (List.mem_cons_of_mem _ (List.mem_cons_self ..))
  exact ⟨hformed, by decide, hpath, hfound _ harguments (by decide)⟩

end Place

end TreeIndent
