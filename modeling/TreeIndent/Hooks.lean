import TreeIndent.Table

/-!
# Hooks

The buffers whose indenting is routed here, each with the expression that it used before. Detaching a
buffer gives that expression back.
-/

namespace TreeIndent

/-- The attached buffers and the expression each of them had, if any. -/
structure Hooks where
  attached : Table Nat (Option String)

namespace Hooks

/-- No buffer is attached. -/
def empty : Hooks := ⟨.empty⟩

/-- Attaches a buffer. One that is attached keeps the expression it was first attached with. -/
def attach (hooks : Hooks) (buffer : Nat) (previous : Option String) : Hooks :=
  if hooks.attached.contains buffer then hooks else ⟨hooks.attached.insert buffer previous⟩

/-- Detaches a buffer and gives back what it had before; none if it was not attached. -/
def detach (hooks : Hooks) (buffer : Nat) : Option (Option String) × Hooks :=
  (hooks.attached.get? buffer, ⟨hooks.attached.erase buffer⟩)

/-- Whether a buffer is attached. -/
def isAttached (hooks : Hooks) (buffer : Nat) : Bool :=
  hooks.attached.contains buffer

/-- The number of attached buffers. -/
def size (hooks : Hooks) : Nat :=
  hooks.attached.size

end Hooks

end TreeIndent
