import TreeIndent.Forest.Basic

/-!
# The layer for a line

Where several layers cover the start of a line, the one with the smallest root decides the line's indent,
and of equally small ones the earliest. Layers for text inside comments never do.
-/

namespace TreeIndent

/-- Whether a layer may decide the indent of a line. -/
def Layer.isCandidate (line : Nat) (layer : Layer) : Bool :=
  !layer.commentOnly && layer.tree.root.coversRow (line - 1)

namespace Forest

/-- The better of the choice so far and one more layer with its position: a layer replaces the choice if its
root is strictly smaller. -/
def better (choice : Option (Layer × Nat)) (next : Layer × Nat) : Option (Layer × Nat) :=
  match choice with
  | none => some next
  | some chosen =>
    if next.1.tree.byteSpan < chosen.1.tree.byteSpan then some next else some chosen

/-- The layer that decides the indent of a line, and its position in the forest. -/
def choice? (forest : Forest) (line : Nat) : Option (Layer × Nat) :=
  (forest.layers.zipIdx.filter fun entry => entry.1.isCandidate line).foldl better none

/-- The layer that decides the indent of a line. -/
def layerFor? (forest : Forest) (line : Nat) : Option Layer :=
  (forest.choice? line).map Prod.fst

end Forest

end TreeIndent
