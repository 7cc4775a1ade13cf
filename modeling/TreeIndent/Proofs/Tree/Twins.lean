import TreeIndent.Tree.Place
import Mathlib.Data.List.Forall2
import Mathlib.Tactic.Common

/-!
# Twin trees

Two trees of the same shape whose nodes have the same numbers, kinds and error flags, and whose positions
correspond. How they correspond is a parameter `moves` that takes a position and its counterpart.

A descent between two points takes the same way in twin trees if the points lie alike among the positions
(`Node.Twins.descend`).
-/

namespace TreeIndent

/-- Nodes that differ in positions only, with all that is below them. -/
inductive Node.Twins (moves : Point → Point → Prop) : Node → Node → Prop
  | intro {id : Nat} {kind : String} {hasError : Bool} {start stop start' stop' : Point}
      {children children' : List Node} (hstart : moves start start') (hstop : moves stop stop')
      (hchildren : List.Forall₂ (Node.Twins moves) children children') :
      Node.Twins moves ⟨id, kind, start, stop, hasError, children⟩
        ⟨id, kind, start', stop', hasError, children'⟩

/-- Places of twin nodes below twin ancestors. -/
structure Place.Twins (moves : Point → Point → Prop) (place twin : Place) : Prop where
  node : place.node.Twins moves twin.node
  above : List.Forall₂ (Node.Twins moves) place.above twin.above

variable {moves : Point → Point → Prop}

namespace Node.Twins

variable {node twin : Node} (h : node.Twins moves twin)

include h

lemma id_eq : twin.id = node.id := by
  cases h
  rfl

lemma kind_eq : twin.kind = node.kind := by
  cases h
  rfl

lemma isComment_eq : twin.isComment = node.isComment := by
  unfold Node.isComment
  rw [h.kind_eq]

lemma hasError_eq : twin.hasError = node.hasError := by
  cases h
  rfl

lemma start : moves node.start twin.start := by
  cases h
  assumption

lemma stop : moves node.stop twin.stop := by
  cases h
  assumption

lemma children : List.Forall₂ (Node.Twins moves) node.children twin.children := by
  cases h
  assumption

end Node.Twins

lemma Place.Twins.chain {place twin : Place} (h : place.Twins moves twin) :
    List.Forall₂ (Node.Twins moves) place.chain twin.chain :=
  .cons h.node h.above

/-! ## Searches among twins -/

/-- A search that asks for the same in twin lists finds twins. -/
lemma forall₂_find? {α : Type} {related : α → α → Prop} {p q : α → Bool}
    (hsame : ∀ a b, related a b → q b = p a) {items twins : List α} (h : List.Forall₂ related items twins) :
    Option.Rel related (items.find? p) (twins.find? q) := by
  induction h with
  | nil => exact .none
  | @cons a b rest rest' hab _ ih =>
    rw [List.find?_cons, List.find?_cons, hsame a b hab]
    cases p a with
    | true => exact .some hab
    | false => exact ih

/-- A search that reads the same from twin lists finds the same. -/
lemma forall₂_findSome? {α β : Type} {related : α → α → Prop} {f g : α → Option β}
    (hsame : ∀ a b, related a b → g b = f a) {items twins : List α} (h : List.Forall₂ related items twins) :
    twins.findSome? g = items.findSome? f := by
  induction h with
  | nil => rfl
  | @cons a b rest rest' hab _ ih =>
    rw [List.findSome?_cons, List.findSome?_cons, hsame a b hab, ih]

/-- Of twin lists both have a member of a kind, or neither has one. -/
lemma forall₂_any {α : Type} {related : α → α → Prop} {p q : α → Bool}
    (hsame : ∀ a b, related a b → q b = p a) {items twins : List α} (h : List.Forall₂ related items twins) :
    twins.any q = items.any p := by
  induction h with
  | nil => rfl
  | @cons a b rest rest' hab _ ih => rw [List.any_cons, List.any_cons, hsame a b hab, ih]

/-- Twin answers stay twins where a twin answer stands in for none. -/
lemma rel_getD {α : Type} {related : α → α → Prop} {answer twin : Option α} {a b : α}
    (h : Option.Rel related answer twin) (hab : related a b) : related (answer.getD a) (twin.getD b) := by
  cases h with
  | none => exact hab
  | some hsome => exact hsome

lemma rel_map {α β : Type} {related : α → α → Prop} {related' : β → β → Prop} {f g : α → β}
    (hmap : ∀ a b, related a b → related' (f a) (g b)) {answer twin : Option α}
    (h : Option.Rel related answer twin) : Option.Rel related' (answer.map f) (twin.map g) := by
  cases h with
  | none => exact .none
  | some hsome => exact .some (hmap _ _ hsome)

lemma rel_any {α : Type} {related : α → α → Prop} {p q : α → Bool}
    (hsame : ∀ a b, related a b → q b = p a) {answer twin : Option α} (h : Option.Rel related answer twin) :
    twin.any q = answer.any p := by
  cases h with
  | none => rfl
  | some hsome => exact hsame _ _ hsome

/-! ## Descents -/

/-- Two points lie among the positions of one tree as two others do among those of its twin. -/
structure Point.LieAlike (moves : Point → Point → Prop) (a b a' b' : Point) : Prop where
  start : ∀ p q, moves p q → (a' < q ↔ a < p)
  stop : ∀ p q, moves p q → (q < b' ↔ p < b)

variable {a b a' b' : Point}

mutual

/-- Descents take the same way in twin trees where the two points lie alike among twin positions. -/
theorem Node.Twins.descend (hlike : Point.LieAlike moves a b a' b') :
    ∀ {node twin : Node} {above above' : List Node}, node.Twins moves twin →
    List.Forall₂ (Node.Twins moves) above above' →
    (node.descend a b above).Twins moves (twin.descend a' b' above')
  | ⟨id, kind, start, stop, hasError, children⟩, twin, above, above', h, habove => by
    rw [Node.descend_eq, Node.descend_eq]
    -- Where no child is entered, the descents end at the nodes themselves, which are twins.
    exact rel_getD (descendAmong_twins hlike h.children (.cons h habove)) ⟨h, habove⟩

/-- The same for the descent into one of a node's children. -/
theorem descendAmong_twins (hlike : Point.LieAlike moves a b a' b') :
    ∀ {children children' above above' : List Node},
    List.Forall₂ (Node.Twins moves) children children' → List.Forall₂ (Node.Twins moves) above above' →
    Option.Rel (Place.Twins moves) (descendAmong a b above children) (descendAmong a' b' above' children')
  | [], _, above, above', h, habove => by
    cases h
    rw [descendAmong, descendAmong]
    exact .none
  | child :: rest, _, above, above', h, habove => by
    cases h with
    | cons hchild hrest =>
    rw [descendAmong, descendAmong]
    -- Each comparison of a child's position has one outcome in both trees.
    simp only [hlike.stop _ _ hchild.stop, hlike.start _ _ hchild.start]
    split
    · exact descendAmong_twins hlike hrest habove
    · split
      · exact .none
      · exact .some (hchild.descend hlike habove)

end

end TreeIndent
