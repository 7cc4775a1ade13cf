import TreeIndent.Text.Indentation
import TreeIndent.Text.Point

/-!
# Texts with an index of their lines

A text is kept together with the byte offsets at which its lines start, so that a line is found by offsets and no
line feed has to be looked for. Lines are counted from one. A line feed ends a line, and so a text that ends in a
line feed has one more, empty, line. One carriage return at the end of a line belongs to its ending, also on the
last line.

- `Text.lineStarts`: the index of a text. `Indexed` says that the index that is kept is the one of the text.
- `lineCount`, `lineStart?`, `lineRange?`, `line?`: what is read off the index and, between two of its offsets, off
  the text.
- `ofText`, `reindentLine?`: the edits, another text and another indentation of one line. Both index the text anew.
- `lineIndent`, `previousNonblank?`: what indenting reads of other lines.
-/

namespace TreeIndent

namespace Text

/-- The byte of the carriage return. -/
def carriageReturn : UInt8 := 13

/-- The byte offsets behind the line feeds of a text that starts at an offset. -/
def startsAfter (offset : Nat) : Text → List Nat
  | [] => []
  | c :: t =>
    let next := offset + c.utf8Size
    if c = '\n' then next :: startsAfter next t else startsAfter next t

/-- The byte offsets at which the lines of a text start. -/
def lineStarts (t : Text) : List Nat :=
  0 :: startsAfter 0 t

end Text

/-- A text and the byte offsets at which its lines start. -/
structure LinedText where
  text : Text
  starts : List Nat
deriving DecidableEq, Repr

namespace LinedText

/-- A text with its index. -/
def ofText (text : Text) : LinedText :=
  ⟨text, text.lineStarts⟩

/-- The index is that of the text. -/
def Indexed (lined : LinedText) : Prop :=
  lined.starts = lined.text.lineStarts

theorem indexed_ofText (text : Text) : (ofText text).Indexed := rfl

/-! ## Lines -/

/-- The number of lines. -/
def lineCount (lined : LinedText) : Nat :=
  lined.starts.length

/-- The byte range of a line without its ending: it stops at the line feed before the start of the next line, the
last one at the end of the text, and in front of one carriage return there. -/
def lineRange? (lined : LinedText) : Nat → Option ByteRange
  | 0 => none
  | row + 1 =>
    (lined.starts[row]?).map fun start =>
      let stop := (lined.starts[row + 1]?).elim lined.text.byteLength (· - 1)
      if start < stop && lined.text.bytes[stop - 1]? == some Text.carriageReturn then ⟨start, stop - 1⟩
      else ⟨start, stop⟩

/-- The byte offset at which a line starts. -/
def lineStart? (lined : LinedText) (line : Nat) : Option Nat :=
  (lined.lineRange? line).map ByteRange.start

/-- A line without its ending, counted from one. -/
def line? (lined : LinedText) (line : Nat) : Option Text :=
  (lined.lineRange? line).bind lined.text.slice?

/-- A line without its ending, empty where there is no such line. -/
def lineD (lined : LinedText) (line : Nat) : Text :=
  (lined.line? line).getD []

/-- The width of a line's indentation, zero where there is no such line. -/
def lineIndent (lined : LinedText) (tabSize line : Nat) : Nat :=
  (lined.lineD line).indentWidth tabSize

/-- The last line before a line that is not blank. -/
def previousNonblank? (lined : LinedText) : Nat → Option Nat
  | 0 => none
  | previous + 1 =>
    if (lined.line? previous).any fun text => !text.isBlank then some previous
    else lined.previousNonblank? previous

/-! ## Edits -/

/-- The text with one line indented to so many columns, its ending kept; none without that line. -/
def reindentedText? (lined : LinedText) (line columns : Nat) : Option Text :=
  (lined.lineRange? line).bind fun range =>
    (lined.text.slice? range).bind fun old => lined.text.replace? range (old.reindent columns)

/-- One line indented to so many columns, and the text indexed anew; none without that line. -/
def reindentLine? (lined : LinedText) (line columns : Nat) : Option LinedText :=
  (lined.reindentedText? line columns).map ofText

end LinedText

end TreeIndent
