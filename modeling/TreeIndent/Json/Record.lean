import TreeIndent.Json.Basic
import TreeIndent.Numeral

/-!
# Records and other values in JSON

How the values of the program are taken out of a JSON value. A record is an object, whose unknown members
are passed over and whose known members may stand once each, or an array of the record's fields in order, of
which the last ones may be missing.
-/

namespace TreeIndent.Json

/-! ## Records -/

/-- The members of an object with their names decoded. -/
def members? : Json → Option (List (String × Json))
  | .object members =>
    members.mapM fun member => (unescape? member.1).map fun name => (String.ofList name, member.2)
  | _ => none

/-- A member that may stand once: none of it, or its value. -/
def member? (name : String) (members : List (String × Json)) : Option (Option Json) :=
  match members.filter fun member => member.1 == name with
  | [] => some none
  | [member] => some (some member.2)
  | _ => none

/-- The values of a record's fields, in the order of their names; none for a field that is missing. -/
def fields? (names : List String) : Json → Option (List (Option Json))
  | .array elements =>
    if elements.length ≤ names.length then
      some (elements.map some ++ List.replicate (names.length - elements.length) none)
    else none
  | json => do
    let members ← members? json
    names.mapM fun name => member? name members

/-- A field with a default value for where it is missing. -/
def fieldOr {α : Type} (default : α) (read : Json → Option α) : Option Json → Option α
  | none => some default
  | some json => read json

/-! ## Values -/

/-- A number of 64 bits, which must be written without sign, fraction and exponent. -/
def word? : Json → Option UInt64
  | .number literal => Numeral.word? literal
  | _ => none

/-- A truth value. -/
def bool? : Json → Option Bool
  | .bool value => some value
  | _ => none

/-- The characters of a string. -/
def text? : Json → Option String
  | .string literal => (unescape? literal).map String.ofList
  | _ => none

/-- Null, or what `read` makes of another value. -/
def orNull {α : Type} (read : Json → Option α) : Json → Option (Option α)
  | .null => some none
  | json => (read json).map some

/-- The elements of an array, each of them read. -/
def list? {α : Type} (read : Json → Option α) : Json → Option (List α)
  | .array elements => elements.mapM read
  | _ => none

end TreeIndent.Json
