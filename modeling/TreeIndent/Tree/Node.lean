import TreeIndent.Text.Point

/-!
# Nodes

A syntax tree is given by its nodes: what each one is, the range of text it stands for and whether the
parser had to recover from an error inside it. `Node.ofPreorder?` reads a tree from the listing of its
nodes in preorder, each with the number of its children; a node's number is its position in that listing.
-/

namespace TreeIndent

/-- A node of a syntax tree with everything below it. -/
structure Node where
  /-- The number by which captures refer to the node. -/
  id : Nat
  kind : String
  start : Point
  stop : Point
  /-- Whether the parser recovered from an error in this node or below it. -/
  hasError : Bool
  children : List Node

namespace Node

/-- Whether the node is a comment, by the name of its kind. -/
def isComment (node : Node) : Bool :=
  Text.hasPart "comment".toList node.kind.toList

/-- Whether the start of a row lies in the node. The row that the node ends on counts, also when the node
ends at its start, so the empty line after a final line feed still belongs to the node. -/
def coversRow (node : Node) (row : Nat) : Bool :=
  (node.start.row < row || node.start.row == row && node.start.column == 0) && row ≤ node.stop.row

/-- Whether the node begins above a row and reaches it. -/
def surroundsRow (node : Node) (row : Nat) : Bool :=
  node.start.row < row && row ≤ node.stop.row

/-! ## Preorder listings -/

/-- One line of a preorder listing: a node without its children, and their number. -/
structure Entry where
  kind : String
  start : Point
  stop : Point
  hasError : Bool
  childCount : Nat

/-- Puts a node before the trees that follow it in the listing: the first of them are its children. -/
def adopt (entry : Entry × Nat) (following : List Node) : List Node :=
  { id := entry.2
    kind := entry.1.kind
    start := entry.1.start
    stop := entry.1.stop
    hasError := entry.1.hasError
    children := following.take entry.1.childCount } :: following.drop entry.1.childCount

/-- The tree of a preorder listing, if the listing is that of one tree. -/
def ofPreorder? (entries : List Entry) : Option Node :=
  match entries.zipIdx.foldr adopt [] with
  | [root] => some root
  | _ => none

end Node

end TreeIndent
