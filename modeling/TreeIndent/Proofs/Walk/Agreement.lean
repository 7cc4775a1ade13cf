import TreeIndent.Walk.Basic
import Mathlib.Data.List.Find
import Mathlib.Tactic.Common

/-!
# What a visit reads of the marking

A visit asks for the roles of the node itself and for the delimiters and aligned nodes among its children. Two
markings that agree on these (`AgreesAt`) give the same visit, whatever the climb has done before.
-/

namespace TreeIndent

namespace Marking

/-- Two markings give a node the same attributes in some roles. -/
def AgreesOn (marking other : Marking) (roles : List Role) (node : Node) : Prop :=
  ∀ role ∈ roles, other.get? role node.id = marking.get? role node.id

instance (marking other : Marking) (roles : List Role) (node : Node) :
    Decidable (marking.AgreesOn other roles node) :=
  inferInstanceAs (Decidable (∀ role ∈ roles, _ = _))

/-- The roles of the node itself that a visit asks for. -/
def visitRoles : List Role :=
  [.begin, .branch, .dedent, .auto, .ignore, .align]

/-- The roles of the children that a visit asks for. -/
def childRoles : List Role :=
  [.align, .openDelimiter, .closeDelimiter]

/-- Two markings agree on all that a visit of the node asks for. -/
structure AgreesAt (marking other : Marking) (node : Node) : Prop where
  own : marking.AgreesOn other visitRoles node
  children : ∀ child ∈ node.children, marking.AgreesOn other childRoles child

lemma AgreesOn.has {marking other : Marking} {roles : List Role} {node : Node}
    (h : marking.AgreesOn other roles node) {role : Role} (hrole : role ∈ roles) :
    other.has role node.id = marking.has role node.id := by
  unfold Marking.has
  rw [h role hrole]

end Marking

namespace Walk

variable {walk : Walk} {marking : Marking} {node : Node}

lemma marks_congr (h : walk.marking.AgreesAt marking node) {role : Role} (hrole : role ∈ Marking.visitRoles) :
    { walk with marking }.marks role node = walk.marks role node :=
  h.own.has hrole

lemma verdict?_congr (h : walk.marking.AgreesAt marking node) (row : Nat) :
    { walk with marking }.verdict? row node = walk.verdict? row node := by
  unfold verdict?
  rw [marks_congr h (by decide), marks_congr h (by decide), marks_congr h (by decide),
    marks_congr h (by decide)]

lemma dedents_congr (h : walk.marking.AgreesAt marking node) (row : Nat) :
    { walk with marking }.dedents row node = walk.dedents row node := by
  unfold dedents
  rw [marks_congr h (by decide), marks_congr h (by decide)]

lemma begins?_congr (h : walk.marking.AgreesAt marking node) (row : Nat) (inError : Bool) :
    { walk with marking }.begins? row inError node = walk.begins? row inError node := by
  unfold begins?
  rw [h.own .begin (by decide)]

lemma addLevels_congr (h : walk.marking.AgreesAt marking node) (row : Nat) (inError : Bool) (indent : Int) :
    { walk with marking }.addLevels row inError node indent = walk.addLevels row inError node indent := by
  unfold addLevels
  rw [dedents_congr h, begins?_congr h]
  rfl

private lemma findSome?_congr_of_mem {α β : Type} {f g : α → Option β} {items : List α}
    (h : ∀ item ∈ items, f item = g item) : items.findSome? f = items.findSome? g := by
  induction items with
  | nil => rfl
  | cons item rest ih =>
    have hrest := ih fun other hother => h other (List.mem_cons_of_mem _ hother)
    rw [List.findSome?_cons, List.findSome?_cons, h item (List.mem_cons_self ..), hrest]

lemma aligns?_congr (h : walk.marking.AgreesAt marking node) (row : Nat) (inError : Bool) :
    { walk with marking }.aligns? row inError node = walk.aligns? row inError node := by
  have hchildren : (node.children.findSome? fun child => marking.get? .align child.id)
      = node.children.findSome? fun child => walk.marking.get? .align child.id :=
    findSome?_congr_of_mem fun child hchild => h.children child hchild .align (by decide)
  unfold aligns?
  rw [h.own .align (by decide), hchildren]

lemma delimiter?_congr (h : walk.marking.AgreesAt marking node) (edge : Edge) (attrs : Attributes) :
    { walk with marking }.delimiter? edge attrs node = walk.delimiter? edge attrs node := by
  have hrole : edge.role ∈ Marking.childRoles := by cases edge <;> decide
  unfold delimiter? Node.delimiter?
  rw [List.find?_congr fun child hchild => ?_]
  unfold Node.isDelimiter
  rw [(h.children child hchild).has hrole]

lemma align_congr (h : walk.marking.AgreesAt marking node) (row : Nat) (attrs : Attributes) (indent : Int) :
    { walk with marking }.align row attrs node indent = walk.align row attrs node indent := by
  unfold align
  dsimp only
  rw [delimiter?_congr h, delimiter?_congr h]
  rfl

/-- Markings that agree on what a visit asks for give the same visit. -/
theorem visit_congr (h : walk.marking.AgreesAt marking node) (row : Nat) (progress : Progress)
    (inError : Bool) :
    { walk with marking }.visit row progress inError node = walk.visit row progress inError node := by
  unfold visit
  rw [verdict?_congr h, dedents_congr h, begins?_congr h, aligns?_congr h]
  simp only [align_congr h, addLevels_congr h]

end Walk

end TreeIndent
