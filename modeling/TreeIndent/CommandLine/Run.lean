import TreeIndent.CommandLine.Arguments
import TreeIndent.Config.Load
import TreeIndent.Document.Read
import TreeIndent.Indenter

/-!
# The command

The command prints the indent of each line of a file, or of one of them, and on request compares the indents
with the indentation that is there. Everything outside the program is given: the files, the directories, the
compiler of queries, the library of regular expressions, and the parser.
-/

namespace TreeIndent.CommandLine

variable {Query : Type}

/-- What the command finds around it. -/
structure Surroundings (Query : Type) where
  /-- What stands at a path. -/
  fileAt : String → File
  /-- The working directory, or the system's wording of why there is none. -/
  workingDirectory : Except String String
  /-- The user's configuration directory, if there is one. -/
  configDirectory : Option String
  queries : Queries Query
  patterns : Patterns
  /-- The outcome of parsing a file in a language. -/
  parse : String → String → Option Parsed

namespace Surroundings

/-- The user's query file for a language. -/
def queryFile (world : Surroundings Query) (directory language : String) : File :=
  world.fileAt (Path.join (Path.join (Path.join directory "queries") language) "indents.scm")

/-- The built-in grammars, with the user's queries where there is a directory for them. -/
def registry (world : Surroundings Query) : Registry Query :=
  .load world.queries (world.configDirectory.map world.queryFile)

end Surroundings

/-- Why the command gave up. -/
inductive Failure where
  | config (path : String) (cause : Config.LoadError)
  | noDirectory (cause : String)
  | undetected (file : String) (languages : List String)
  | unreadable (cause : Error)
  | unparsed (file : String) (cause : Error)
  | lineOutOfRange (line count : Nat)
deriving DecidableEq, Repr

namespace Failure

/-- What failed. -/
def headline : Failure → String
  | .config path _ => s!"Failed to load config {path}"
  | .noDirectory _ => "Failed to read working directory"
  | .undetected file languages =>
    let choices := String.intercalate ", " languages
    s!"Cannot detect language of {file}, pass --language (one of: {choices})"
  | .unreadable cause => cause.message
  | .unparsed file _ => s!"Failed to parse {file}"
  | .lineOutOfRange line count => s!"Line {line} is out of range (1..={count})"

/-- What it failed of, where that is told apart. -/
def cause? : Failure → Option String
  | .config _ cause => some cause.message
  | .noDirectory cause => some cause
  | .unparsed _ cause => some cause.message
  | _ => none

/-- A text with every line set in by four spaces. -/
def setIn (text : String) : String :=
  String.ofList ("    ".toList ++ text.toList.flatMap fun c => if c = '\n' then "\n    ".toList else [c])

/-- The report of a failure. -/
def report (failure : Failure) : String :=
  match failure.cause? with
  | none => s!"Error: {failure.headline}\n"
  | some cause => s!"Error: {failure.headline}\n\nCaused by:\n{setIn cause}\n"

end Failure

/-- What the command leaves behind. -/
inductive Outcome where
  /-- The arguments were not understood. -/
  | usage
  | finished (exitCode : Nat) (output errors : String)
deriving DecidableEq, Repr

/-- Everything that the indents of a file's lines are computed from. -/
structure Job (Query : Type) where
  indenter : Indenter Query
  document : Document
  forest : Forest

/-- The configuration that the command works with: the one asked for, or the one that is found. It is looked for only
where there is a configuration directory. -/
def chooseConfig (world : Surroundings Query) (args : Arguments) : Except Failure Config :=
  match args.config with
  | some path => (Config.load (world.fileAt path)).mapError (.config path)
  | none =>
    match world.workingDirectory with
    | .error cause => .error (.noDirectory cause)
    | .ok directory =>
      match world.configDirectory with
      | some userDirectory => .ok (.search world.fileAt directory userDirectory)
      | none => .ok {}

/-- The language of the file: the one asked for, or the one of the file's extension. -/
def chooseLanguage (registry : Registry Query) (args : Arguments) : Except Failure String :=
  match args.language.or (registry.detect? args.file) with
  | some language => .ok language
  | none => .error (.undetected args.file registry.names)

/-- Makes everything ready, in the order in which failures are reported. -/
def prepare (world : Surroundings Query) (args : Arguments) : Except Failure (Job Query) := do
  let config ← chooseConfig world args
  let registry := world.registry
  let language ← chooseLanguage registry args
  let document ← (Document.read 1 args.file (world.fileAt args.file)).mapError .unreadable
  let forest ← (Forest.parse registry language (world.parse args.file language) 1).mapError
    (.unparsed args.file)
  return ⟨.new registry config world.patterns, document, forest⟩

/-- The lines that the command is asked for. -/
def chooseLines (args : Arguments) (document : Document) : Except Failure (List Nat) :=
  match args.line with
  | none => .ok (List.range' 1 document.lineCount)
  | some line =>
    if 1 ≤ line && line ≤ document.lineCount then .ok [line]
    else .error (.lineOutOfRange line document.lineCount)

/-- The indents of the lines asked for. -/
def compute (job : Job Query) (lines : List Nat) : List (Nat × Indent) :=
  (job.indenter.indentsOf job.document job.forest lines).1

/-- The line printed for an indent. -/
def entry (result : Nat × Indent) : String :=
  s!"{result.1}: {result.2.text}\n"

/-- The width that a line is indented by and the one it should be, if it is not blank and they differ. -/
def mismatch? (job : Job Query) (result : Nat × Indent) : Option (Nat × Nat) :=
  match result.2 with
  | .auto => none
  | .column expected =>
    let actual := job.document.lineIndent job.indenter.config.tabSize.toNat result.1
    if (job.document.lineD result.1).isBlank || actual = expected then none else some (actual, expected)

/-- The complaint about a line that is not indented as it should be. -/
def complaint? (job : Job Query) (file : String) (result : Nat × Indent) : Option String :=
  (mismatch? job result).map fun (actual, expected) =>
    s!"{file}:{result.1}: indented {actual} columns, expected {expected}\n"

/-- What the command prints about the indents. With a check it fails if there is something to complain about. -/
def conclude (args : Arguments) (job : Job Query) (results : List (Nat × Indent)) : Outcome :=
  let output := String.join (results.map entry)
  let complaints := if args.check then results.filterMap (complaint? job args.file) else []
  if complaints.isEmpty then .finished 0 output ""
  else .finished 1 output (String.join complaints ++ s!"{complaints.length} line(s) need reindenting\n")

/-- The command with arguments that were understood. -/
def runWith (world : Surroundings Query) (args : Arguments) : Outcome :=
  let outcome := do
    let job ← prepare world args
    let lines ← chooseLines args job.document
    return conclude args job (compute job lines)
  match outcome with
  | .ok outcome => outcome
  | .error failure => .finished 1 "" failure.report

/-- The command. -/
def run (world : Surroundings Query) (args : List String) : Outcome :=
  match Arguments.read? args with
  | none => .usage
  | some args => runWith world args

end TreeIndent.CommandLine
