/-!
# Paths

What the program reads off a path given by its text: its parts, its last name and that name's extension, whether it
is another path in another spelling, and the `Location` that its steps lead to.
-/

namespace TreeIndent

namespace Path

/-- The texts between the slashes of a path. -/
def steps (path : String) : List String :=
  (path.toList.splitOn '/').map String.ofList

/-- Whether a step of a path stays where it is. -/
def stays (step : String) : Bool :=
  step == "" || step == "."

/-- The steps of a path that do not stay where they are. -/
def parts (path : String) : List String :=
  (steps path).filter fun step => !stays step

/-- The name a path ends in. A path that ends in two dots has none. -/
def fileName? (path : String) : Option String :=
  (parts path).getLast?.filter (· ≠ "..")

/-- The text after the last dot of a name. A dot that starts the name is not followed by an extension. -/
def extensionOfName? (name : String) : Option String :=
  let reversed := name.toList.reverse
  let afterDot := reversed.takeWhile (· ≠ '.')
  match reversed.dropWhile (· ≠ '.') with
  | _dot :: _ :: _ => some (String.ofList afterDot.reverse)
  | _ => none

/-- The extension of the file that a path names. -/
def extension? (path : String) : Option String :=
  (fileName? path).bind extensionOfName?

/-- Whether a path starts at the root of the file system. -/
def isAbsolute (path : String) : Bool :=
  path.toList.head? == some '/'

/-- What two spellings of a path have in common: where the path starts and its parts. Slashes that are repeated or
come last do not count, nor do steps that stay where they are, except the first one. -/
def components (path : String) : List String :=
  let start := if isAbsolute path then ["/"] else if (steps path).head? = some "." then ["."] else []
  start ++ parts path

/-- Whether two paths are one path, in one spelling or two. -/
def isSame (path other : String) : Bool :=
  components path = components other

/-- The path of a name in a directory. -/
def join (directory name : String) : String :=
  if directory.isEmpty || directory.toList.getLast? = some '/' then directory ++ name else directory ++ "/" ++ name

/-- Whether a path holds the character that ends a path for the system. -/
def hasNul (path : String) : Bool :=
  path.toList.contains '\x00'

/-- Whether a path is longer than the system takes: it may have 4095 bytes. -/
def isTooLong (path : String) : Bool :=
  4096 ≤ path.utf8ByteSize

/-- Whether a name is longer than the system takes: it may have 255 bytes. -/
def isNameTooLong (name : String) : Bool :=
  255 < name.utf8ByteSize

end Path

/-! ## Locations -/

/-- A place in the file system, as a way down from a directory that is there. -/
structure Location where
  /-- How far above the working directory the way starts; none if it starts at the root of the file system. -/
  up : Option Nat
  /-- The names on the way, the last one first. -/
  names : List String
deriving DecidableEq, Repr

namespace Location

/-- Where a path starts: in the working directory, or at the root of the file system. -/
def start (path : String) : Location :=
  ⟨if Path.isAbsolute path then none else some 0, []⟩

/-- The directory around a location. The root of the file system has itself around it. -/
def parent (location : Location) : Location :=
  match location.names with
  | [] => { location with up := location.up.map (· + 1) }
  | _ :: above => { location with names := above }

/-- Where one step of a path leads. -/
def follow (location : Location) (step : String) : Location :=
  if Path.stays step then location
  else if step = ".." then location.parent
  else { location with names := step :: location.names }

/-- Where a path leads. -/
def ofPath (path : String) : Location :=
  (Path.steps path).foldl follow (start path)

/-- The locations that steps lead through, from the first to the last. -/
def through : Location → List String → List Location
  | location, [] => [location]
  | location, step :: steps => location :: (location.follow step).through steps

/-- The locations that a path leads through. -/
def trail (path : String) : List Location :=
  (start path).through (Path.steps path)

end Location

end TreeIndent
