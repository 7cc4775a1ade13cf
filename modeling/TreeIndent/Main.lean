import TreeIndent.CommandLine.Run
import TreeIndent.Forest.Facts

/-!
# The program

The command on real files. Parsing is left to the parser of each language: its outcome for `FILE` is read from
`FILE.tree`, in the written form of `Parsed.ofJson?`. Without that file the command reports that `FILE` could
not be parsed. What a query finds is part of that outcome, and so every query counts as compiled. The user's files are
in `tree-indent` in the configuration directory.
-/

namespace TreeIndent.CommandLine

/-- What stands at a path. A directory opens and then cannot be read, so that its error names no file. -/
def fileAt (path : String) : IO File := do
  try
    return .content (← IO.FS.readBinFile path)
  catch
    | .inappropriateType none .. => return .directory
    | .inappropriateType (some _) .. => return .beyondFile
    | .invalidArgument .. => return .tooLong
    | _ => return .missing

/-- The user's configuration directory. -/
def configDirectory? : IO (Option String) := do
  let base ← match ← IO.getEnv "XDG_CONFIG_HOME" with
    | some directory => pure (some directory)
    | none => pure ((← IO.getEnv "HOME").map (Path.join · ".config"))
  return base.map (Path.join · "tree-indent")

/-- The working directory. -/
def workingDirectory : IO (Except String String) := do
  try
    return .ok (← IO.currentDir).toString
  catch error => return .error error.toString

/-- The paths that the command may look at. -/
def pathsOf (args : Arguments) (workingDirectory : Except String String) (configDirectory : Option String) :
    List String :=
  let directories := workingDirectory.toOption.toList ++ configDirectory.toList
  [args.file] ++ args.config.toList ++ directories.map (Path.join · Config.fileName)

/-- Everything around the command that its arguments let it look at. -/
def surroundings (args : Arguments) : IO (Surroundings Unit) := do
  let workingDirectory ← workingDirectory
  let configDirectory ← configDirectory?
  let files ← (pathsOf args workingDirectory configDirectory).mapM fun path => do return (path, ← fileAt path)
  let written := (← fileAt (args.file ++ ".tree")).read.toOption
  let outcome := (written.bind Json.read?).bind (Parsed.ofJson? 0)
  return {
    fileAt := fun path => (files.lookup path).getD .missing
    workingDirectory
    configDirectory
    queries := { bundled := fun _ => .ok (), compile := fun _ _ => .ok () }
    patterns := .classes
    parse := fun _ _ => outcome }

/-- What is printed when the arguments were not understood. -/
def usage : String :=
  "Usage: tree-indent [--language LANGUAGE] [--line LINE] [--config CONFIG] [--check] FILE"

end TreeIndent.CommandLine

open TreeIndent CommandLine in
/-- Runs the command and gives its exit code. -/
def main (args : List String) : IO UInt32 := do
  match Arguments.read? args with
  | none =>
    IO.eprintln usage
    return 2
  | some arguments =>
    match runWith (← surroundings arguments) arguments with
    | .usage => return 2
    | .finished exitCode output errors =>
      IO.print output
      IO.eprint errors
      return UInt32.ofNat exitCode
