import TreeIndent.Text.Lined

/-!
# Documents

A document is a text with an index of its lines and an identity that stays when the text is edited. The index of a
document is always that of its text: a document is made with its index, and each edit makes it anew.
-/

namespace TreeIndent

/-- A text under edit with an index of its lines: `buffer` is its identity, which copies of the document share. -/
structure Document extends LinedText where
  buffer : Nat
  indexed : toLinedText.Indexed
deriving DecidableEq, Repr

namespace Document

/-- A document with a text. -/
def new (buffer : Nat) (text : Text) : Document where
  toLinedText := .ofText text
  buffer := buffer
  indexed := LinedText.indexed_ofText text

/-- The document with another text. -/
def withText (doc : Document) (text : Text) : Document :=
  .new doc.buffer text

/-- The document with one line indented to so many columns, its ending kept; none without that line. -/
def reindentLine? (doc : Document) (line columns : Nat) : Option Document :=
  (doc.toLinedText.reindentedText? line columns).map doc.withText

end Document

end TreeIndent
