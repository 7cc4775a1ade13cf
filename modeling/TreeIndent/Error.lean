import TreeIndent.Files

/-!
# Errors

What can go wrong while grammars, files and trees are made ready. Computing an indent never fails. The
wording of each error is in `Error.message`.
-/

namespace TreeIndent

/-- An error in setting up a grammar, a document or a tree. -/
inductive Error where
  /-- A file could not be read. -/
  | unreadable (path : String) (cause : ReadError)
  /-- The ranges given for an injected layer overlap, go backwards or are out of order; `index` is that of the
  first bad one. -/
  | badRange (language : String) (index : Nat)
  /-- The query of a grammar did not compile. -/
  | badQuery (language : String) (cause : String)
  /-- The parser gave no tree. -/
  | unparsed (language : String)
  /-- No grammar has this name. -/
  | unknownLanguage (name : String)
deriving DecidableEq, Repr

/-- The wording of an error. -/
def Error.message : Error → String
  | .unreadable path cause => s!"IO error reading {path}: {cause.message}"
  | .badRange language index =>
    s!"Failed to set language {language}: invalid included ranges: IncludedRangesError({index})"
  | .badQuery language cause => s!"Invalid indents query for {language}: {cause}"
  | .unparsed language => s!"Failed to parse {language} source"
  | .unknownLanguage name => s!"Unknown language: {name}"

end TreeIndent
