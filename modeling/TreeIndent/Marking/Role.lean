/-!
# Roles

The parts that a node can play in indenting a line. A query gives a node a role by capturing it under the
role's name.
-/

namespace TreeIndent

/-- The part that a node plays in indenting. -/
inductive Role where
  /-- Lines inside the node are one level deeper. -/
  | begin
  /-- The node ends a block; a blank line after it starts afresh. -/
  | finish
  /-- Lines inside the node, after its first row, are one level less deep. -/
  | dedent
  /-- A line that starts with the node is one level less deep. -/
  | branch
  /-- Lines inside the node stay at column zero. -/
  | ignore
  /-- Lines inside the node line up with its opening delimiter. -/
  | align
  /-- A line that starts with the node stands at column zero. -/
  | zero
  /-- Lines inside the node are left to generic indenting. -/
  | auto
  /-- The opening delimiter of an aligned node. -/
  | openDelimiter
  /-- The closing delimiter of an aligned node. -/
  | closeDelimiter
deriving DecidableEq, Repr

namespace Role

/-- All roles. -/
def all : List Role :=
  [.begin, .finish, .dedent, .branch, .ignore, .align, .zero, .auto, .openDelimiter, .closeDelimiter]

/-- The capture name that gives the role. -/
def captureName : Role → String
  | .begin => "indent.begin"
  | .finish => "indent.end"
  | .dedent => "indent.dedent"
  | .branch => "indent.branch"
  | .ignore => "indent.ignore"
  | .align => "indent.align"
  | .zero => "indent.zero"
  | .auto => "indent.auto"
  | .openDelimiter => "indent.open_delimiter"
  | .closeDelimiter => "indent.close_delimiter"

/-- The role that a capture name gives. -/
def ofCaptureName? (name : String) : Option Role :=
  all.find? fun role => role.captureName == name

/-- Roles are ordered as `all` lists them. -/
instance : Ord Role :=
  ⟨compareOn Role.ctorIdx⟩

instance : Std.TransOrd Role :=
  inferInstanceAs (Std.TransCmp (compareOn Role.ctorIdx))

instance : Std.LawfulEqOrd Role where
  compare_self {a} := Nat.compare_eq_eq.2 rfl
  eq_of_compare {a b} h := by
    have h : a.ctorIdx = b.ctorIdx := Nat.compare_eq_eq.1 h
    cases a <;> cases b <;> first | rfl | cases h

theorem ofCaptureName?_captureName (role : Role) : ofCaptureName? role.captureName = some role := by
  cases role <;> decide

end Role

end TreeIndent
