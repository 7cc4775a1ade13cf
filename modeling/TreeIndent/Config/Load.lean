import TreeIndent.Config.Basic
import TreeIndent.Files
import TreeIndent.Json.Record

/-!
# Configuration files

A configuration is written as a JSON record, and so are the settings of each language. A missing field takes its
default value.

`Config.load` reads and checks one file, `Config.search` takes the first file that loads of those in two directories.
-/

namespace TreeIndent

open Json

/-- The settings of a language from their written form. -/
def LanguageConfig.ofJson? (json : Json) : Option LanguageConfig := do
  match ← fields? ["shift_width", "enabled"] json with
  | [shiftWidth, enabled] =>
    return { shiftWidth := ← fieldOr none (orNull word?) shiftWidth
             enabled := ← fieldOr true bool? enabled }
  | _ => none

namespace Config

/-- The settings of all languages. A language may be repeated, and its last settings count. -/
def languagesOfJson? (json : Json) : Option (Table String LanguageConfig) := do
  let languages ← (← members? json).mapM fun member =>
    (LanguageConfig.ofJson? member.2).map fun settings => (member.1, settings)
  return Table.ofList languages

/-- A configuration from its written form. -/
def ofJson? (json : Json) : Option Config := do
  match ← fields? ["shift_width", "tab_size", "capture_cache_size", "languages"] json with
  | [shiftWidth, tabSize, cacheSize, languages] =>
    return { shiftWidth := ← fieldOr 4 word? shiftWidth
             tabSize := ← fieldOr 4 word? tabSize
             cacheSize := ← fieldOr 64 word? cacheSize
             languages := ← fieldOr .empty languagesOfJson? languages }
  | _ => none

/-- A configuration from a text. -/
def ofText? (t : Text) : Option Config :=
  (Json.read? t).bind ofJson?

/-- Why a configuration file did not load. -/
inductive LoadError where
  | unreadable (cause : ReadError)
  | malformed
  | invalid (fault : Fault)
deriving DecidableEq, Repr

/-- The wording of a load error. -/
def LoadError.message : LoadError → String
  | .unreadable cause => s!"IO error: {cause.message}"
  | .malformed => "Parse error: the file does not describe a configuration"
  | .invalid fault => s!"Validation error: {fault.message}"

/-- The configuration in a file. -/
def load (file : File) : Except LoadError Config :=
  match file.read with
  | .error cause => .error (.unreadable cause)
  | .ok text =>
    match ofText? text with
    | none => .error .malformed
    | some config =>
      match config.fault? with
      | some fault => .error (.invalid fault)
      | none => .ok config

/-- The name of configuration files. -/
def fileName : String := "indent.json"

/-- The paths at which a configuration is looked for: that of the directory's own file and that of the user's, where
something stands at them. Where the two are one path, it is looked at once. -/
def searchPaths (fileAt : String → File) (directory userDirectory : String) : List String :=
  let own := Path.join directory fileName
  let user := Path.join userDirectory fileName
  let found := if (fileAt own).isPresent then [own] else []
  if !found.any (Path.isSame user) && (fileAt user).isPresent then found ++ [user] else found

/-- The configuration for a directory: that of the first file that loads, and the default one if none does. -/
def search (fileAt : String → File) (directory userDirectory : String) : Config :=
  ((searchPaths fileAt directory userDirectory).findSome? fun path => (load (fileAt path)).toOption).getD {}

end Config

end TreeIndent
