import TreeIndent.Json.Literal
import TreeIndent.Json.Token

/-!
# JSON values

A JSON value as it is written: numbers and strings are kept as their literals, and the members of an object
in order, with repetitions. What a literal means, and whether a member may be repeated, is up to whoever
takes the value apart.

`Json.read?` reads a whole text. The reader keeps the arrays and objects that are still open in a list, so
there is no limit to the depth of nesting.
-/

namespace TreeIndent

/-- A JSON value as written. -/
inductive Json where
  | null
  | bool (value : Bool)
  /-- A number literal. -/
  | number (literal : Text)
  /-- A string: the text between its quotes. -/
  | string (literal : Text)
  | array (elements : List Json)
  /-- An object: its members in order, the names as the text between their quotes. -/
  | object (members : List (Text × Json))

namespace Json

/-- The value of a scalar token. -/
def ofScalar? (literal : Text) : Option Json :=
  if literal = "null".toList then some .null
  else if literal = "true".toList then some (.bool true)
  else if literal = "false".toList then some (.bool false)
  else if isNumber literal then some (.number literal)
  else none

/-- An array or object that is still open; what it holds so far is kept last first. -/
inductive Frame where
  | array (before : List Json)
  | object (before : List (Text × Json)) (name : Text)

/-- What the reader has read and what it expects. `frames` are the arrays and objects still open around that
point, the innermost first. -/
inductive Reader where
  /-- A value. -/
  | atValue (frames : List Frame)
  /-- The first element of an array, or its end. -/
  | atFirstElement (frames : List Frame)
  /-- The first name in an object, or its end. -/
  | atFirstName (frames : List Frame)
  /-- A name in an object. -/
  | atName (before : List (Text × Json)) (frames : List Frame)
  /-- The colon after a name. -/
  | atColon (before : List (Text × Json)) (name : Text) (frames : List Frame)
  /-- A comma in an array, or its end. -/
  | afterElement (before : List Json) (frames : List Frame)
  /-- A comma in an object, or its end. -/
  | afterMember (before : List (Text × Json)) (frames : List Frame)
  /-- Nothing more. -/
  | done (value : Json)

namespace Reader

/-- A value is complete: it goes into the innermost open frame. -/
def complete (value : Json) : List Frame → Reader
  | [] => .done value
  | .array before :: frames => .afterElement (value :: before) frames
  | .object before name :: frames => .afterMember ((name, value) :: before) frames

/-- A token at which a value starts. -/
def startValue? (frames : List Frame) : Token → Option Reader
  | .scalar literal => (ofScalar? literal).map fun value => complete value frames
  | .string literal => if isWellEscaped literal then some (complete (.string literal) frames) else none
  | .openBracket => some (.atFirstElement frames)
  | .openBrace => some (.atFirstName frames)
  | _ => none

/-- A token at which a member of an object starts. -/
def startMember? (before : List (Text × Json)) (frames : List Frame) : Token → Option Reader
  | .string literal => if isWellEscaped literal then some (.atColon before literal frames) else none
  | _ => none

/-- The reader after one more token. -/
def next? : Reader → Token → Option Reader
  | .atValue frames, token => startValue? frames token
  | .atFirstElement frames, .closeBracket => some (complete (.array []) frames)
  | .atFirstElement frames, token => startValue? (.array [] :: frames) token
  | .atFirstName frames, .closeBrace => some (complete (.object []) frames)
  | .atFirstName frames, token => startMember? [] frames token
  | .atName before frames, token => startMember? before frames token
  | .atColon before name frames, .colon => some (.atValue (.object before name :: frames))
  | .afterElement before frames, .comma => some (.atValue (.array before :: frames))
  | .afterElement before frames, .closeBracket => some (complete (.array before.reverse) frames)
  | .afterMember before frames, .comma => some (.atName before frames)
  | .afterMember before frames, .closeBrace => some (complete (.object before.reverse) frames)
  | _, _ => none

/-- The value, if the reader has read one and expects nothing more. -/
def value? : Reader → Option Json
  | .done value => some value
  | _ => none

end Reader

/-- The value that a whole text is written for. -/
def read? (t : Text) : Option Json := do
  (← (← tokens? t).foldlM Reader.next? (.atValue [])).value?

end Json

end TreeIndent
