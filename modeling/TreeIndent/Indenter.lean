import TreeIndent.Cache
import TreeIndent.Config.Basic
import TreeIndent.Forest.Selection
import TreeIndent.Walk.Basic

/-!
# The indenter

The indenter computes the indents of lines over a forest. It has the grammars whose queries give the nodes
their roles, the configuration, the patterns that delimiters are looked for with, and a cache of the markings that it
has built.
-/

namespace TreeIndent

variable {Query : Type}

/-- What computing indents needs besides a document and its forest. -/
structure Indenter (Query : Type) where
  registry : Registry Query
  config : Config
  patterns : Patterns
  cache : Cache Marking

namespace Indenter

/-- An indenter with an empty cache of the configured size. -/
def new (registry : Registry Query) (config : Config) (patterns : Patterns) : Indenter Query :=
  ⟨registry, config, patterns, .new config.cacheSize.toNat⟩

/-- The marking of a layer: what the query of its language found, and nothing for a language without one. -/
def markingOf (indenter : Indenter Query) (layer : Layer) : Marking :=
  match (indenter.registry.get? layer.language).bind (·.indents) with
  | some _ => layer.parsed.run.marking
  | none => .empty

/-- What the marking of a layer is cached under. -/
def keyOf (doc : Document) (forest : Forest) (layer : Layer) : Cache.Key where
  buffer := doc.buffer
  generation := forest.generation
  root := layer.tree.identity
  language := layer.language

/-- The walk over a layer with a marking. -/
def walkOver (indenter : Indenter Query) (doc : Document) (layer : Layer) (marking : Marking) : Walk where
  root := layer.tree.top
  injected := layer.injected
  startsText := layer.tree.startsText layer.tree.top
  marking := marking
  patterns := indenter.patterns
  document := doc
  shiftWidth := indenter.config.shiftWidthFor layer.language
  tabSize := indenter.config.tabSize.toNat

/-- The indent of a line, and the indenter after that. A line that no tree covers is at column zero; a language
that is switched off leaves its lines alone. -/
def indentOf (indenter : Indenter Query) (doc : Document) (forest : Forest) (line : Nat) : Indent × Indenter Query :=
  match forest.layerFor? line with
  | none => (.column 0, indenter)
  | some layer =>
    if indenter.config.isEnabled layer.language then
      let fetched := indenter.cache.fetch (keyOf doc forest layer) fun _ => indenter.markingOf layer
      ((indenter.walkOver doc layer fetched.1).indentOf line, { indenter with cache := fetched.2 })
    else (.auto, indenter)

/-- The indents of some lines, one after the other. -/
def indentsOf (indenter : Indenter Query) (doc : Document) (forest : Forest) :
    List Nat → List (Nat × Indent) × Indenter Query
  | [] => ([], indenter)
  | line :: rest =>
    let first := indenter.indentOf doc forest line
    let others := first.2.indentsOf doc forest rest
    ((line, first.1) :: others.1, others.2)

/-- The lines of a document from `first` to `last`. -/
def linesBetween (doc : Document) (first last : Nat) : List Nat :=
  (List.range' 1 doc.lineCount).filter fun line => first ≤ line && line ≤ last

/-- The indents of the lines of a document from `first` to `last`. -/
def reindent (indenter : Indenter Query) (doc : Document) (forest : Forest) (first last : Nat) :
    List (Nat × Indent) × Indenter Query :=
  indenter.indentsOf doc forest (linesBetween doc first last)

/-- The indenter without what it keeps for a buffer. -/
def forget (indenter : Indenter Query) (buffer : Nat) : Indenter Query :=
  { indenter with cache := indenter.cache.forget buffer }

end Indenter

end TreeIndent
