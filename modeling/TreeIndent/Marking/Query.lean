import TreeIndent.Marking.Basic

/-!
# Query runs

What running a compiled query over a tree found: which patterns matched and which nodes they captured under
which names. `QueryRun.marking` reads a marking off it. The roles come from the capture names, and the
attributes from the properties of the matched pattern.
-/

namespace TreeIndent

/-- A property that a pattern sets, for one of its captures or for all of them. -/
structure Property where
  /-- The capture that the property is limited to. -/
  target : Option Nat
  key : String
  value : Option String

/-- A node captured under the name with an index. -/
structure Capture where
  name : Nat
  node : Nat

/-- One match of a pattern. -/
structure Match where
  pattern : Nat
  captures : List Capture

/-- The matches of a query over one tree, in the order found. -/
structure QueryRun where
  captureNames : List String := []
  /-- The properties of each pattern, in the order they are set. -/
  properties : List (List Property) := []
  found : List Match := []

namespace QueryRun

/-- The attributes that a capture gets from the properties of its pattern. -/
def attributes (properties : List Property) (capture : Capture) : Attributes :=
  (properties.filter fun property => property.target.all (· == capture.name)).foldl
    (fun attrs property => attrs.set property.key property.value) {}

/-- The mark that a capture makes; a name that is no role's makes none. -/
def mark? (run : QueryRun) (pattern : Nat) (capture : Capture) : Option (Role × Nat × Attributes) := do
  let name ← run.captureNames[capture.name]?
  let role ← Role.ofCaptureName? name
  return (role, capture.node, attributes (run.properties[pattern]?.getD []) capture)

/-- The marks of a run, in the order of the matches and of the captures in each. -/
def marks (run : QueryRun) : List (Role × Nat × Attributes) :=
  run.found.flatMap fun m => m.captures.filterMap (run.mark? m.pattern)

/-- The marking that a run gives. -/
def marking (run : QueryRun) : Marking :=
  Marking.ofList run.marks

end QueryRun

end TreeIndent
