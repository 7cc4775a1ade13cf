import TreeIndent.Text.Space

/-!
# The indentation of a line

What one line of text says about its own indentation. Indentation is made of spaces and tabs only;
whether the line is blank is a question about all white space.

- `isBlank`: only white space.
- `indentLength`, `body`: the leading spaces and tabs, and the text after them.
- `lastColumn?`: the byte column of the last character that is not white space.
- `indentWidth`: the display width of the indentation, a tab going to the next tab stop.
- `reindent`: the line with another indentation.
-/

namespace TreeIndent.Text

/-- Whether a line holds white space only. -/
def isBlank (t : Text) : Bool :=
  t.all isSpace

/-- The two characters that indentation is made of. -/
def isIndentChar (c : Char) : Bool :=
  c == ' ' || c == '\t'

/-- The number of leading spaces and tabs, which is also the column of the first other character. -/
def indentLength (t : Text) : Nat :=
  (t.takeWhile isIndentChar).length

/-- The line after its leading spaces and tabs. -/
def body (t : Text) : Text :=
  t.dropWhile isIndentChar

/-- The byte column of the last character that is not white space; none in a blank line. -/
def lastColumn? : Text → Option Nat
  | [] => none
  | c :: t =>
    match lastColumn? t with
    | some column => some (c.utf8Size + column)
    | none => if isSpace c then none else some 0

/-- The width after one more character of indentation: a tab goes to the next multiple of the tab size. -/
def advance (tabSize width : Nat) (c : Char) : Nat :=
  if c = '\t' then width + (tabSize - width % tabSize) else width + 1

/-- The display width of a line's leading spaces and tabs. A tab size of zero counts as one. -/
def indentWidth (tabSize : Nat) (t : Text) : Nat :=
  (t.takeWhile isIndentChar).foldl (advance (max 1 tabSize)) 0

/-- The line indented with so many spaces; a line without a body becomes empty. -/
def reindent (columns : Nat) (t : Text) : Text :=
  if t.body.isEmpty then [] else List.replicate columns ' ' ++ t.body

/-- A line is its indentation followed by its body. -/
theorem indentation_append_body (t : Text) : t.takeWhile isIndentChar ++ t.body = t :=
  List.takeWhile_append_dropWhile

end TreeIndent.Text
