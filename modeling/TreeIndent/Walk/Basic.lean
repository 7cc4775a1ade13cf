import TreeIndent.Indent
import TreeIndent.Walk.Lookup
import TreeIndent.Walk.Delimiter

/-!
# The walk from a line's anchor

The indent of a line comes from the nodes around its start. The *anchor* is the node that the line starts
with; for a blank line it is the node that the previous line of code ends in. From the anchor the walk
climbs to the top of the tree and adds up what the marked nodes contribute.

1. An anchor marked `zero` puts the line at column zero.
2. A node marked `auto` or `ignore` around the line ends the walk.
3. A `branch` that starts on the line, and a `dedent` that starts off it, take one level away.
4. A `begin` adds one level, or its increment.
5. An `align` node either hangs the line one level below an opening delimiter that ends its line, or pins the
   line to a column next to the delimiter. A pinned column ends the walk.

A row contributes at most once: nodes that start on a row which has already contributed are passed over.

Widths and sums are signed words of 64 bits. A sum that leaves their range wraps around (`wrap`).

`Walk.indentOf` is the whole computation, `Walk.anchor` the first part of it, `Walk.climb` the second,
`Walk.visit` one node of the climb.
-/

namespace TreeIndent

/-- Everything that the indent of a line is computed from. -/
structure Walk where
  /-- Where lookups start. The climb goes on past it to the top of the tree. -/
  root : Place
  /-- Whether the tree is an injected layer. -/
  injected : Bool := false
  /-- Whether the root starts where the text starts. -/
  startsText : Bool := true
  marking : Marking
  patterns : Patterns
  document : Document
  /-- The width of one level, a word of 64 bits. -/
  shiftWidth : UInt64
  tabSize : Nat

namespace Walk

/-! ## Signed words -/

/-- The signed word of 64 bits that is left of a number, as of a sum that leaves the range of the words. -/
def wrap (n : Int) : Int :=
  n.bmod UInt64.size

/-- The numbers that are signed words of 64 bits: half of the words are negative. -/
def IsWord (n : Int) : Prop :=
  -UInt64.size ≤ 2 * n ∧ 2 * n < UInt64.size

instance (n : Int) : Decidable (IsWord n) :=
  inferInstanceAs (Decidable (_ ∧ _))

theorem wrap_of_isWord {n : Int} (h : IsWord n) : wrap n = n := by
  unfold IsWord at h
  apply Int.bmod_eq_of_le_mul_two <;> omega

theorem wrap_wrap (n : Int) : wrap (wrap n) = wrap n :=
  Int.bmod_bmod

/-- Of a sum of words only the result is wrapped: how often it was wrapped on the way leaves no trace. -/
theorem wrap_wrap_add (m n : Int) : wrap (wrap m + n) = wrap (m + n) :=
  Int.bmod_add_bmod

/-- A width as it enters the sum: a word of 64 bits, read as a signed number. -/
def signed (width : Nat) : Int :=
  wrap width

theorem wrap_signed (width : Nat) : wrap (signed width) = signed width :=
  wrap_wrap width

/-- A width in the lower half of the words stands for itself. -/
theorem signed_eq_self {width : Nat} (h : 2 * width < UInt64.size) : signed width = width := by
  apply wrap_of_isWord
  unfold IsWord
  omega

/-- The width of one level in the sum. -/
def level (walk : Walk) : Int :=
  signed walk.shiftWidth.toNat

/-- The indentation of the line at a row in the sum. -/
def rowIndent (walk : Walk) (row : Nat) : Int :=
  signed (walk.document.lineIndent walk.tabSize (row + 1))

/-- Whether a node has a role. -/
def marks (walk : Walk) (role : Role) (node : Node) : Bool :=
  walk.marking.has role node.id

/-- The indent that the walk starts with: that of the line on which an injected root starts. A root at the
start of the text has none. -/
def base (walk : Walk) : Int :=
  if walk.injected && !walk.startsText then walk.rowIndent walk.root.node.start.row else 0

/-! ## The anchor -/

/-- The node that a line starts with. -/
def firstNode (walk : Walk) (line : Nat) : Place :=
  walk.root.firstOnLine walk.document line

/-- The node in which a line of code ends. A comment after the code is not looked at: the code before it is. -/
def lastCodeNode (walk : Walk) (line : Nat) : Place :=
  let text := walk.document.lineD line
  let last := walk.root.lastOnLine walk.document line
  let first := walk.root.firstOnLine walk.document line (some text.indentLength)
  if last.node.isComment && last.node.start.row == line - 1 && first.node.id != last.node.id then
    let code := (text.takeBytes? last.node.start.column).getD text
    match code.lastColumn? with
    | some column => walk.root.lastOnLine walk.document line (some column)
    | none => last
  else last

/-- The node whose ancestors decide the indent of a line. A blank line after a node that ends its block is
taken like a line of its own. -/
def anchor (walk : Walk) (line : Nat) : Place :=
  if (walk.document.lineD line).isBlank then
    match walk.document.previousNonblank? line with
    | none => walk.firstNode line
    | some previous =>
      let last := walk.lastCodeNode previous
      if last.chain.any (walk.marks .finish) then walk.firstNode line else last
  else walk.firstNode line

/-! ## Alignment -/

/-- What alignment makes of the indent so far. -/
inductive Alignment where
  /-- There is no opening delimiter to align with. -/
  | skipped
  /-- The indent is adjusted, and the ancestors go on contributing. -/
  | relative (indent : Int)
  /-- The line is pinned to a column. -/
  | absolute (indent : Int)
deriving DecidableEq, Repr

/-- The delimiter at an edge of a node. -/
def delimiter? (walk : Walk) (edge : Edge) (attrs : Attributes) (node : Node) : Option Delimiter :=
  node.delimiter? walk.patterns edge attrs walk.marking walk.document

/-- Takes one level away, though not below zero. -/
def outdent (walk : Walk) (indent : Int) : Int :=
  max (wrap (indent - walk.level)) 0

/-- One more level where the line of the closing delimiter would otherwise line up with what comes after. -/
def avoidNextLine (walk : Walk) (row : Nat) (attrs : Attributes) (opening : Delimiter)
    (closing : Option Delimiter) (indent : Int) : Int :=
  let openRow := opening.node.start.row
  let closesOnRow := closing.any fun c => c.node.start.row == row && c.node.start.row != openRow
  if closesOnRow && attrs.avoidsNextLine && indent ≤ wrap (walk.rowIndent openRow + walk.level) then
    wrap (indent + walk.level)
  else indent

/-- Alignment of a line to the delimiters of a node. -/
def align (walk : Walk) (row : Nat) (attrs : Attributes) (node : Node) (indent : Int) : Alignment :=
  match walk.delimiter? .opening attrs node with
  | none => .skipped
  | some opening =>
    let closing := walk.delimiter? .closing attrs node
    let openAt := opening.node.start
    let finish := walk.avoidNextLine row attrs opening closing
    if opening.endsLine && !attrs.isHanging then
      -- The opening delimiter ends its line, so the content hangs one level below it.
      if closing.any fun c => c.endsLine && c.node.start.row < row then
        .relative (finish (walk.outdent (wrap (indent + walk.level))))
      else .relative (finish (wrap (indent + walk.level)))
    else if openAt.row < row then
      if closing.any fun c => c.endsLine && c.node.start.row != openAt.row && c.node.start.row < row then
        -- The line is below the line of the closing delimiter.
        .relative (finish (walk.outdent indent))
      else .absolute (finish (wrap (openAt.column + attrs.increment.getD 1)))
    else .relative (finish indent)

/-! ## The climb -/

/-- What the climb carries from node to node. -/
structure Progress where
  indent : Int
  /-- The rows that have contributed. -/
  counted : List Nat := []
deriving DecidableEq, Repr

/-- What a node makes of the climb. -/
inductive Step where
  | stop (answer : Indent)
  | go (progress : Progress)
deriving DecidableEq, Repr

/-- The answer of a node around the line that ends the walk. A node marked `begin` never does. -/
def verdict? (walk : Walk) (row : Nat) (node : Node) : Option Indent :=
  if walk.marks .begin node || !node.surroundsRow row then none
  else if walk.marks .auto node && !walk.marks .align node then some .auto
  else if walk.marks .ignore node then some (.column 0)
  else none

/-- Whether a node takes one level away. -/
def dedents (walk : Walk) (row : Nat) (node : Node) : Bool :=
  if node.start.row == row then walk.marks .branch node else walk.marks .dedent node

/-- The attributes of a node that adds a level. It must reach over several rows, unless it stands in an error
or counts at once, and it must start off the line, unless it counts there too. -/
def begins? (walk : Walk) (row : Nat) (inError : Bool) (node : Node) : Option Attributes :=
  (walk.marking.get? .begin node.id).filter fun attrs =>
    (node.start.row != node.stop.row || inError || attrs.isImmediate) &&
      (node.start.row != row || attrs.countsOnSameLine)

/-- The attributes by which a node aligns. In code with an error a node takes over those of its first aligned
child. -/
def aligns? (walk : Walk) (row : Nat) (inError : Bool) (node : Node) : Option Attributes :=
  if (node.start.row != node.stop.row || inError) && node.start.row != row then
    (walk.marking.get? .align node.id).or
      (if inError then node.children.findSome? fun child => walk.marking.get? .align child.id else none)
  else none

/-- The indent after the level that a node takes away and the one that it adds. -/
def addLevels (walk : Walk) (row : Nat) (inError : Bool) (node : Node) (indent : Int) : Int :=
  let outdented := if walk.dedents row node then wrap (indent - walk.level) else indent
  match walk.begins? row inError node with
  | none => outdented
  | some attrs => wrap (outdented + attrs.increment.getD walk.level)

/-- One node of the climb. `inError` says that its parent has an error. -/
def visit (walk : Walk) (row : Nat) (progress : Progress) (inError : Bool) (node : Node) : Step :=
  match walk.verdict? row node with
  | some answer => .stop answer
  | none =>
    if progress.counted.contains node.start.row then .go progress
    else
      let indent := walk.addLevels row inError node progress.indent
      let counts :=
        walk.dedents row node || (walk.begins? row inError node).any fun attrs => !attrs.isPropagating
      let onward (indent : Int) (counts : Bool) : Step :=
        .go ⟨indent, if counts then node.start.row :: progress.counted else progress.counted⟩
      match walk.aligns? row inError node with
      | none => onward indent counts
      | some attrs =>
        match walk.align row attrs node indent with
        | .skipped => onward indent counts
        | .relative indent => onward indent (counts || !attrs.isPropagating)
        | .absolute indent => .stop (.column indent.toNat)

/-- The climb along a node and its ancestors. -/
def climb (walk : Walk) (row : Nat) : Progress → List Node → Indent
  | progress, [] => .column progress.indent.toNat
  | progress, node :: above =>
    match walk.visit row progress (above.head?.any (·.hasError)) node with
    | .stop answer => answer
    | .go progress => walk.climb row progress above

/-- The indent of a line, counted from one. -/
def indentOf (walk : Walk) (line : Nat) : Indent :=
  let anchor := walk.anchor line
  if walk.marks .zero anchor.node then .column 0
  else walk.climb (line - 1) ⟨walk.base, []⟩ anchor.chain

end Walk

end TreeIndent
