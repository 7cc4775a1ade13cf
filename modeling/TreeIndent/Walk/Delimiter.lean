import TreeIndent.Document
import TreeIndent.Tree.Node
import TreeIndent.Marking.Basic
import TreeIndent.Walk.Pattern

/-!
# Delimiters

The opening and the closing delimiter of an aligned node, among its children. What matters of a delimiter
besides its place is whether it ends its line: nothing may follow it there but white space and more of the
delimiter's own characters.
-/

namespace TreeIndent

/-- One of the two ends of an aligned node. -/
inductive Edge where
  | opening
  | closing
deriving DecidableEq, Repr

namespace Edge

/-- The role that marks a child as the delimiter. -/
def role : Edge → Role
  | .opening => .openDelimiter
  | .closing => .closeDelimiter

/-- The kind that the attributes name for the delimiter. -/
def expected : Edge → Attributes → Option String
  | .opening, attrs => attrs.openDelimiter
  | .closing, attrs => attrs.closeDelimiter

end Edge

/-- A delimiter that was found, and whether it ends its line. -/
structure Delimiter where
  node : Node
  endsLine : Bool

namespace Node

/-- Whether a child is the delimiter at an edge: by its kind, or because it is marked so. -/
def isDelimiter (child : Node) (edge : Edge) (attrs : Attributes) (marking : Marking) : Bool :=
  edge.expected attrs == some child.kind || marking.has edge.role child.id

/-- The text after a node on the line that it starts on; empty where the line has no such column. -/
def restOfLine (node : Node) (doc : Document) : Text :=
  ((doc.lineD (node.start.row + 1)).dropBytes? node.stop.column).getD []

/-- The delimiter at an edge of a node: the first child that is one. -/
def delimiter? (node : Node) (patterns : Patterns) (edge : Edge) (attrs : Attributes) (marking : Marking)
    (doc : Document) : Option Delimiter :=
  (node.children.find? fun child => child.isDelimiter edge attrs marking).map fun child =>
    { node := child
      endsLine := patterns.onlyDelimiter ((edge.expected attrs).getD child.kind) (child.restOfLine doc) }

end Node

end TreeIndent
