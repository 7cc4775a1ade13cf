import TreeIndent.Text.Space
import TreeIndent.Numeral

/-!
# Attributes

A query can attach attributes to the role that it gives a node: flags, an increment and the two delimiters
of an aligned node. Each of them may be unset, so that merging keeps what the later attributes do not
mention.

- `Attributes.set?`: one assignment `key value`, refused for a key or a value that is not understood.
- `Attributes.merge`: the attributes of an earlier and a later capture taken together.
-/

namespace TreeIndent

/-- The attributes of a captured node. -/
structure Attributes where
  immediate : Option Bool := none
  increment : Option Int := none
  propagate : Option Bool := none
  startAtSameLine : Option Bool := none
  alignHanging : Option Bool := none
  avoidLastMatchingNext : Option Bool := none
  openDelimiter : Option String := none
  closeDelimiter : Option String := none
deriving DecidableEq, Repr

namespace Attributes

/-- The flag that a value stands for: only `0` and `false` switch it off, and no value switches it on. -/
def flag (value : Option String) : Bool :=
  value != some "0" && value != some "false"

/-- The increment that a value stands for: an integer of 32 bits, with white space around it allowed. -/
def increment? (value : Option String) : Option Int :=
  value.bind fun text => Numeral.int32? (Text.trim text.toList)

/-- One assignment. It is refused for an unknown key and for an increment that is no number; a delimiter
without a value is cleared. -/
def set? (attrs : Attributes) (key : String) (value : Option String) : Option Attributes :=
  match key with
  | "indent.immediate" => some { attrs with immediate := some (flag value) }
  | "indent.propagate" => some { attrs with propagate := some (flag value) }
  | "indent.start_at_same_line" => some { attrs with startAtSameLine := some (flag value) }
  | "indent.align_hanging" => some { attrs with alignHanging := some (flag value) }
  | "indent.avoid_last_matching_next" => some { attrs with avoidLastMatchingNext := some (flag value) }
  | "indent.increment" => (increment? value).map fun n => { attrs with increment := some n }
  | "indent.open_delimiter" => some { attrs with openDelimiter := value }
  | "indent.close_delimiter" => some { attrs with closeDelimiter := value }
  | _ => none

/-- The attributes after an assignment, unchanged if it is refused. -/
def set (attrs : Attributes) (key : String) (value : Option String) : Attributes :=
  (attrs.set? key value).getD attrs

/-- Two captures taken together: what the later one sets stands over what the earlier one set. -/
def merge (earlier later : Attributes) : Attributes where
  immediate := later.immediate.or earlier.immediate
  increment := later.increment.or earlier.increment
  propagate := later.propagate.or earlier.propagate
  startAtSameLine := later.startAtSameLine.or earlier.startAtSameLine
  alignHanging := later.alignHanging.or earlier.alignHanging
  avoidLastMatchingNext := later.avoidLastMatchingNext.or earlier.avoidLastMatchingNext
  openDelimiter := later.openDelimiter.or earlier.openDelimiter
  closeDelimiter := later.closeDelimiter.or earlier.closeDelimiter

/-! ## Flags, off where they are unset -/

/-- Whether a `begin` counts also for a node on a single row. -/
def isImmediate (attrs : Attributes) : Bool := attrs.immediate.getD false

/-- Whether the row may contribute again after the node. -/
def isPropagating (attrs : Attributes) : Bool := attrs.propagate.getD false

/-- Whether a `begin` counts also for the line on which it starts. -/
def countsOnSameLine (attrs : Attributes) : Bool := attrs.startAtSameLine.getD false

/-- Whether an `align` pins lines also when its opening delimiter ends its line. -/
def isHanging (attrs : Attributes) : Bool := attrs.alignHanging.getD false

/-- Whether the line of the closing delimiter is kept from lining up with what follows it. -/
def avoidsNextLine (attrs : Attributes) : Bool := attrs.avoidLastMatchingNext.getD false

end Attributes

end TreeIndent
