import TreeIndent.Tree.Node

/-!
# Places

A place is a node together with the nodes around it, so that going up needs no more than the place itself.
`Place.atColumn` is the lookup by position: it goes down from a place to the smallest node around one column.
-/

namespace TreeIndent

/-- A node in its tree: `above` are its ancestors, the parent first. -/
structure Place where
  node : Node
  above : List Node

mutual

/-- The place that a descent from a node reaches: below the first child that does not end before `b`, if
that child starts at or before `a`, and at the node itself otherwise. -/
def Node.descend (a b : Point) (above : List Node) : Node → Place
  | ⟨id, kind, start, stop, hasError, children⟩ =>
    let node : Node := ⟨id, kind, start, stop, hasError, children⟩
    (descendAmong a b (node :: above) children).getD ⟨node, above⟩

/-- The descent into one of a node's children. -/
def descendAmong (a b : Point) (above : List Node) : List Node → Option Place
  | [] => none
  | child :: rest =>
    if child.stop < b then descendAmong a b above rest
    else if a < child.start then none
    else some (child.descend a b above)

end

mutual

/-- The places of a node and of all nodes below it, in preorder. -/
def Node.places (above : List Node) : Node → List Place
  | ⟨id, kind, start, stop, hasError, children⟩ =>
    let node : Node := ⟨id, kind, start, stop, hasError, children⟩
    ⟨node, above⟩ :: placesAmong (node :: above) children

/-- The places of some children and of all nodes below them, in preorder. -/
def placesAmong (above : List Node) : List Node → List Place
  | [] => []
  | child :: rest => child.places above ++ placesAmong above rest

end

namespace Place

/-- The node and its ancestors, from the node up. -/
def chain (place : Place) : List Node :=
  place.node :: place.above

/-- The smallest node below this place around the one column, and the place itself where no node below it
reaches around that column. -/
def atColumn (place : Place) (row column : Nat) : Place :=
  place.node.descend ⟨row, column⟩ ⟨row, column + 1⟩ place.above

end Place

/-! ## Trees -/

/-- A tree of one parse. `identity` tells the trees apart that are alive at the same time; the byte offsets
are those of the root. -/
structure Tree where
  identity : Nat
  startByte : Nat
  stopByte : Nat
  root : Node

namespace Tree

/-- The number of bytes that the root spans. -/
def byteSpan (tree : Tree) : Nat :=
  tree.stopByte - tree.startByte

/-- The place of the root. -/
def top (tree : Tree) : Place :=
  ⟨tree.root, []⟩

/-- The place of the node with a number. -/
def place? (tree : Tree) (id : Nat) : Option Place :=
  (tree.root.places []).find? fun place => place.node.id == id

/-- Whether a place of the tree starts where the text starts. The offset of the root is known; another node
starts the text when it stands at the origin. -/
def startsText (tree : Tree) (place : Place) : Bool :=
  if place.above.isEmpty then tree.startByte == 0 else place.node.start == Point.origin

end Tree

theorem Node.descend_eq (a b : Point) (above : List Node) (node : Node) :
    node.descend a b above = (descendAmong a b (node :: above) node.children).getD ⟨node, above⟩ := by
  cases node
  rw [Node.descend]

theorem Node.places_eq (above : List Node) (node : Node) :
    node.places above = ⟨node, above⟩ :: placesAmong (node :: above) node.children := by
  cases node
  rw [Node.places]

end TreeIndent
