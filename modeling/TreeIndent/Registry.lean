import TreeIndent.Error
import TreeIndent.Table

/-!
# The registry of grammars

A registry maps names to grammars and file extensions to names. Five grammars are built in, each with a bundled query
that a user's own query file can replace. Compiling queries is not done here: `Queries` has the outcomes, and of a
compiled query nothing is known.
-/

namespace TreeIndent

variable {Query : Type}

/-- The outcome of compiling a query text: the query, or the compiler's message. -/
abbrev Compiled (Query : Type) := Except String Query

/-- The compiler of queries. -/
structure Queries (Query : Type) where
  /-- The outcome for the bundled query of a built-in grammar. -/
  bundled : String → Compiled Query
  /-- The outcome for a text and a grammar. -/
  compile : String → Text → Compiled Query

/-- A grammar under its name. -/
structure Grammar (Query : Type) where
  name : String
  /-- The query for indents. Without one no node of the grammar's trees has a role. -/
  indents : Option Query
  /-- Whether the grammar is for text inside comments, which never decides the indent of code. -/
  commentOnly : Bool
deriving DecidableEq, Repr

/-- The known grammars, and the grammar names of file extensions. -/
structure Registry (Query : Type) where
  grammars : Table String (Grammar Query)
  extensions : Table String String

/-! ## Built-in grammars -/

/-- A built-in grammar. -/
structure Bundled where
  name : String
  extensions : List String

/-- The built-in grammars. -/
def Bundled.all : List Bundled :=
  [{ name := "c", extensions := ["c", "h"] },
   { name := "rust", extensions := ["rs"] },
   { name := "python", extensions := ["py", "pyi"] },
   { name := "javascript", extensions := ["js", "mjs", "cjs", "jsx"] },
   { name := "json", extensions := ["json"] }]

namespace Queries

/-- The query of a user's file for a grammar, if there is such a file, it can be read and its text compiles. -/
def user? (queries : Queries Query) (name : String) (file : File) : Option Query :=
  if file.isPresent then
    match file.read with
    | .ok text => (queries.compile name text).toOption
    | .error _ => none
  else none

end Queries

namespace Registry

/-- The registry without grammars. -/
def empty : Registry Query :=
  ⟨.empty, .empty⟩

/-- Adds a built-in grammar and its extensions. -/
def addBundled (registry : Registry Query) (bundled : Bundled) (query : Option Query) : Registry Query where
  grammars := registry.grammars.insert bundled.name ⟨bundled.name, query, false⟩
  extensions := bundled.extensions.foldl (fun table ext => table.insert ext bundled.name) registry.extensions

/-- The built-in grammars, each with the user's query where there is a good one and the bundled query otherwise. A
bundled query that does not compile leaves its grammar without one. The user's files are given by the grammar's name,
where there is a directory for them. -/
def load (queries : Queries Query) (userFile : Option (String → File)) : Registry Query :=
  Bundled.all.foldl
    (fun registry bundled =>
      let own := userFile.bind fun fileOf => queries.user? bundled.name (fileOf bundled.name)
      registry.addBundled bundled (own.or (queries.bundled bundled.name).toOption))
    empty

/-- The built-in grammars with their bundled queries. -/
def builtin (queries : Queries Query) : Registry Query :=
  load queries none

/-- Adds or replaces a grammar. A query that did not compile is an error. -/
def register (registry : Registry Query) (name : String) (query : Option (Compiled Query)) (commentOnly : Bool) :
    Except Error (Registry Query) :=
  match query with
  | some (.error cause) => .error (.badQuery name cause)
  | some (.ok query) =>
    .ok { registry with grammars := registry.grammars.insert name ⟨name, some query, commentOnly⟩ }
  | none => .ok { registry with grammars := registry.grammars.insert name ⟨name, none, commentOnly⟩ }

/-- Gives a file extension to a grammar name. -/
def addExtension (registry : Registry Query) (ext name : String) : Registry Query :=
  { registry with extensions := registry.extensions.insert ext name }

/-- The grammar with a name. -/
def get? (registry : Registry Query) (name : String) : Option (Grammar Query) :=
  registry.grammars.get? name

/-- The grammar name for a file, by its extension. -/
def detect? (registry : Registry Query) (path : String) : Option String :=
  (Path.extension? path).bind registry.extensions.get?

/-- The names of all grammars in ascending order. -/
def names (registry : Registry Query) : List String :=
  registry.grammars.keys

end Registry

end TreeIndent
