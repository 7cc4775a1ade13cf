import TreeIndent.Numeral

/-!
# Arguments

The arguments of the command: one file, and the options `--language`, `--line`, `--config` and `--check`, each at
most once. The value of an option follows it as an argument of its own or after an equals sign. Two dashes
alone end the options.
-/

namespace TreeIndent.CommandLine

/-- What the command is asked to do. -/
structure Arguments where
  file : String
  /-- The language to use instead of detecting it. -/
  language : Option String := none
  /-- The only line to indent, counted from one. -/
  line : Option Nat := none
  /-- The configuration file to use instead of searching for one. -/
  config : Option String := none
  /-- Whether to compare the lines with their indents. -/
  check : Bool := false
deriving DecidableEq, Repr

/-- The arguments read so far. -/
structure Draft where
  file : Option String := none
  language : Option String := none
  line : Option Nat := none
  config : Option String := none
  check : Bool := false

namespace Draft

/-- Gives an option its value. An option has a value at most once, and a path is not empty. -/
def setOption? (draft : Draft) (name value : String) : Option Draft :=
  match name with
  | "language" => if draft.language.isSome then none else some { draft with language := some value }
  | "line" =>
    if draft.line.isSome then none
    else (Numeral.plusWord? value.toList).map fun n => { draft with line := some n.toNat }
  | "config" =>
    if draft.config.isSome || value.isEmpty then none else some { draft with config := some value }
  | _ => none

/-- Sets the file, of which there is only one. -/
def setFile? (draft : Draft) (path : String) : Option Draft :=
  if draft.file.isSome || path.isEmpty then none else some { draft with file := some path }

/-- The arguments, complete if there is a file. -/
def finish? (draft : Draft) : Option Arguments :=
  draft.file.map fun file =>
    { file
      language := draft.language
      line := draft.line
      config := draft.config
      check := draft.check }

end Draft

/-- The name of an option, and its value if an equals sign gives one. -/
def longOption? (arg : String) : Option (String × Option String) :=
  match arg.toList with
  | '-' :: '-' :: rest =>
    let name := String.ofList (rest.takeWhile (· ≠ '='))
    match rest.dropWhile (· ≠ '=') with
    | _equals :: value => some (name, some (String.ofList value))
    | [] => some (name, none)
  | _ => none

/-- Whether an argument looks like an option. A single dash does not. -/
def looksLikeOption (arg : String) : Bool :=
  match arg.toList with
  | '-' :: _ :: _ => true
  | _ => false

/-- Reads the arguments from a draft on. -/
def readFrom? (draft : Draft) : List String → Option Arguments
  | [] => draft.finish?
  | "--" :: files => (files.foldlM Draft.setFile? draft).bind Draft.finish?
  | "--check" :: rest => if draft.check then none else readFrom? { draft with check := true } rest
  | arg :: rest =>
    match longOption? arg, rest with
    | some (name, some value), rest =>
      match draft.setOption? name value with
      | some draft => readFrom? draft rest
      | none => none
    | some (_, none), [] => none
    | some (name, none), value :: rest =>
      if looksLikeOption value then none
      else
        match draft.setOption? name value with
        | some draft => readFrom? draft rest
        | none => none
    | none, rest =>
      if looksLikeOption arg then none
      else
        match draft.setFile? arg with
        | some draft => readFrom? draft rest
        | none => none

/-- The meaning of a list of arguments; none is a mistake in their use. -/
def Arguments.read? (args : List String) : Option Arguments :=
  readFrom? {} args

end TreeIndent.CommandLine
