import TreeIndent.Document
import TreeIndent.Error

/-!
# Documents from files

A document is opened from what stands at a path.
-/

namespace TreeIndent

/-- The document of a file at a path, under a buffer number. -/
def Document.read (buffer : Nat) (path : String) (file : File) : Except Error Document :=
  match file.read with
  | .ok text => .ok (.new buffer text)
  | .error cause => .error (.unreadable path cause)

end TreeIndent
