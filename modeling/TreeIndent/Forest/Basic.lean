import TreeIndent.Marking.Query
import TreeIndent.Registry
import TreeIndent.Tree.Place

/-!
# Forests

The trees that cover one document: a host layer, and layers injected over parts of the text in other
languages. Every change takes a new generation number, so that a generation never stands for two different
lists of trees. Parsing is not done here: each operation takes the parser's outcome. Operations on a forest are run
on it one write after the other and give the forest back, also where they fail.
-/

namespace TreeIndent

variable {Query : Type}

/-- What the parser gives: a tree, and the matches of its language's query over it. -/
structure Parsed where
  tree : Tree
  run : QueryRun := {}

/-- One tree of a forest with the language it was parsed in. -/
structure Layer where
  language : String
  parsed : Parsed
  /-- Whether the layer's grammar is for text inside comments. -/
  commentOnly : Bool
  /-- Whether the layer was parsed over ranges of the host text. -/
  injected : Bool

/-- All trees over one document. -/
structure Forest where
  /-- The layers, the host first and then the injected ones, oldest first. -/
  layers : List Layer
  generation : Nat

namespace ByteRange

/-- The index of the first bad range, counting from `index`, where the range before ends at `bound`. -/
def firstBadFrom? (index bound : Nat) : List ByteRange → Option Nat
  | [] => none
  | range :: rest =>
    if range.start < bound || range.stop < range.start then some index
    else firstBadFrom? (index + 1) range.stop rest

/-- The index of the first range that starts before the end of the one before it or ends before its own
start. -/
def firstBad? (ranges : List ByteRange) : Option Nat :=
  firstBadFrom? 0 0 ranges

end ByteRange

namespace Layer

/-- The tree of a layer. -/
def tree (layer : Layer) : Tree :=
  layer.parsed.tree

/-- A layer in a language, over the whole text or over ranges of it. The language must be known, the ranges
in order, and the parser must have given a tree; the first of these to fail is the error. -/
def parse (registry : Registry Query) (language : String) (ranges : Option (List ByteRange))
    (outcome : Option Parsed) : Except Error Layer :=
  match registry.get? language with
  | none => .error (.unknownLanguage language)
  | some grammar =>
    match ranges.bind ByteRange.firstBad? with
    | some index => .error (.badRange language index)
    | none =>
      match outcome with
      | none => .error (.unparsed language)
      | some parsed =>
        .ok { language, parsed, commentOnly := grammar.commentOnly, injected := ranges.isSome }

end Layer

namespace Forest

/-- The language of the host layer. -/
def hostLanguage? (forest : Forest) : Option String :=
  forest.layers.head?.map Layer.language

/-- A new forest with only a host layer. -/
def parse (registry : Registry Query) (language : String) (outcome : Option Parsed) (generation : Nat) :
    Except Error Forest :=
  (Layer.parse registry language none outcome).map fun host => ⟨[host], generation⟩

/-- What comes of an operation that writes to a forest and may fail, and the forest as it leaves it. -/
def perform (forest : Forest) (operation : ExceptT Error (StateM Forest) Unit) : Except Error Unit × Forest :=
  operation.run.run forest

/-- Puts one more injected layer behind the others. -/
def inject (forest : Forest) (registry : Registry Query) (language : String) (ranges : List ByteRange)
    (outcome : Option Parsed) (generation : Nat) : Except Error Unit × Forest :=
  forest.perform do
    let layer ← Layer.parse registry language (some ranges) outcome
    modify fun forest => { forest with layers := forest.layers ++ [layer] }
    modify fun forest => { forest with generation }

/-- Parses the host again and drops the injected layers. A forest without a host has no language to parse it in. -/
def reparse (forest : Forest) (registry : Registry Query) (outcome : Option Parsed) (generation : Nat) :
    Except Error Unit × Forest :=
  forest.perform do
    let language ← match forest.hostLanguage? with
      | some language => pure language
      | none => throw (.unknownLanguage "")
    let host ← Layer.parse registry language none outcome
    modify fun forest => { forest with layers := [host] }
    modify fun forest => { forest with generation }

end Forest

end TreeIndent
