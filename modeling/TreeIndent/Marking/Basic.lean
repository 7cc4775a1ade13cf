import TreeIndent.Table
import TreeIndent.Marking.Role
import TreeIndent.Marking.Attributes

/-!
# Markings

A marking says which nodes of a tree play which roles, with the attributes that came along. Nodes are
known by their numbers. Marking a node twice in one role merges the attributes.
-/

namespace TreeIndent

/-- Marks are ordered by role, then by node. -/
instance : Ord (Role × Nat) := lexOrd

/-- The roles of the nodes of one tree. -/
structure Marking where
  table : Table (Role × Nat) Attributes

namespace Marking

/-- The marking of a tree without a query: no node has a role. -/
def empty : Marking := ⟨Table.empty⟩

/-- The attributes of a node in a role, if it has the role. -/
def get? (marking : Marking) (role : Role) (node : Nat) : Option Attributes :=
  marking.table.get? (role, node)

/-- Whether a node has a role. -/
def has (marking : Marking) (role : Role) (node : Nat) : Bool :=
  (marking.get? role node).isSome

/-- Gives a node a role; attributes it already has in that role stay where the new ones are silent. -/
def mark (marking : Marking) (role : Role) (node : Nat) (attrs : Attributes) : Marking :=
  ⟨marking.table.insert (role, node) (((marking.get? role node).getD {}).merge attrs)⟩

/-- The marking of a list of marks, made in order. -/
def ofList (marks : List (Role × Nat × Attributes)) : Marking :=
  marks.foldl (fun marking (role, node, attrs) => marking.mark role node attrs) empty

/-- The nodes of a role in ascending order, with their attributes. -/
def bucket (marking : Marking) (role : Role) : List (Nat × Attributes) :=
  (marking.table.entries.filter fun entry => entry.1.1 == role).map fun entry => (entry.1.2, entry.2)

/-- Whether no node has a role. -/
def isEmpty (marking : Marking) : Bool :=
  marking.table.isEmpty

@[simp]
theorem get?_empty (role : Role) (node : Nat) : empty.get? role node = none := rfl

theorem get?_mark (marking : Marking) (role other : Role) (node id : Nat) (attrs : Attributes) :
    (marking.mark role node attrs).get? other id =
      if (other, id) = (role, node) then some (((marking.get? role node).getD {}).merge attrs)
      else marking.get? other id := by
  simp only [get?, mark, Table.get?_insert]

end Marking

end TreeIndent
