/-!
# Text

A text is its list of characters. Columns and offsets into it count the bytes of its UTF-8 form,
so this file gives the size of a text in bytes, its bytes, and the cut at a byte offset.

Definitions: `byteLength`, `bytes`, `hasPart`, `splitAtByte?`, `takeBytes?`, `dropBytes?`, and over a `ByteRange`
`slice?` and `replace?`. Main statements: a cut gives the text back (`append_of_splitAtByte?`), and it can be made
after each of the text's prefixes (`splitAtByte?_append`), so that a range between two prefixes can be read and
replaced (`slice?_append`, `replace?_append`).
-/

namespace TreeIndent

/-- A text: its characters in order. -/
abbrev Text := List Char

/-- A range of bytes of a text. -/
structure ByteRange where
  start : Nat
  stop : Nat
deriving DecidableEq, Repr

namespace Text

/-- The number of bytes of a text in UTF-8. -/
def byteLength : Text → Nat
  | [] => 0
  | c :: t => c.utf8Size + byteLength t

/-- The bytes of a text in UTF-8. -/
def bytes (t : Text) : List UInt8 :=
  t.flatMap String.utf8EncodeChar

/-- Whether a text contains another. -/
def hasPart (part : Text) : Text → Bool
  | [] => part.isEmpty
  | c :: t => part.isPrefixOf (c :: t) || hasPart part t

/-- Cuts a text at a byte offset. There is no cut inside a character or past the end. -/
def splitAtByte? : Text → Nat → Option (Text × Text)
  | t, 0 => some ([], t)
  | [], _ + 1 => none
  | c :: t, n + 1 =>
    if c.utf8Size ≤ n + 1 then
      (splitAtByte? t (n + 1 - c.utf8Size)).map fun cut => (c :: cut.1, cut.2)
    else none

/-- The text before a byte offset, where the text can be cut there. -/
def takeBytes? (t : Text) (offset : Nat) : Option Text :=
  (t.splitAtByte? offset).map Prod.fst

/-- The text from a byte offset on, where the text can be cut there. -/
def dropBytes? (t : Text) (offset : Nat) : Option Text :=
  (t.splitAtByte? offset).map Prod.snd

/-- The text in a byte range, where the text can be cut at both its ends. -/
def slice? (t : Text) (range : ByteRange) : Option Text :=
  (t.takeBytes? range.stop).bind fun front => front.dropBytes? range.start

/-- The text with another text in the place of a byte range, where the text can be cut at both its ends. -/
def replace? (t : Text) (range : ByteRange) (new : Text) : Option Text :=
  (t.splitAtByte? range.stop).bind fun cut =>
    (cut.1.takeBytes? range.start).map fun before => before ++ new ++ cut.2

@[simp]
theorem byteLength_nil : byteLength [] = 0 := rfl

@[simp]
theorem byteLength_cons (c : Char) (t : Text) : byteLength (c :: t) = c.utf8Size + byteLength t := rfl

@[simp]
theorem byteLength_append (s t : Text) : byteLength (s ++ t) = byteLength s + byteLength t := by
  induction s with
  | nil => simp
  | cons c s ih => simp [ih, Nat.add_assoc]

theorem length_bytes (t : Text) : t.bytes.length = t.byteLength := by
  induction t with
  | nil => rfl
  | cons c t ih => simpa [bytes] using ih

/-- The two sides of a cut are the text. -/
theorem append_of_splitAtByte? {t before after : Text} {offset : Nat}
    (h : t.splitAtByte? offset = some (before, after)) : before ++ after = t := by
  fun_induction splitAtByte? t offset generalizing before after with
  | case1 => simp_all
  | case2 => simp at h
  | case3 c t n _ ih =>
    obtain ⟨⟨b, a⟩, hcut, heq⟩ := Option.map_eq_some_iff.1 h
    simp only [Prod.mk.injEq] at heq
    obtain ⟨rfl, rfl⟩ := heq
    simp [ih hcut]
  | case4 => simp at h

/-- A text can be cut after any of its prefixes. -/
theorem splitAtByte?_append (before after : Text) :
    (before ++ after).splitAtByte? before.byteLength = some (before, after) := by
  induction before with
  | nil => cases after <;> simp [splitAtByte?]
  | cons c t ih =>
    have pos : 0 < c.utf8Size := c.utf8Size_pos
    obtain ⟨n, hn⟩ : ∃ n, c.utf8Size + byteLength t = n + 1 := ⟨c.utf8Size + byteLength t - 1, by omega⟩
    have hle : c.utf8Size ≤ n + 1 := by omega
    have hsub : n + 1 - c.utf8Size = byteLength t := by omega
    simp [splitAtByte?, hn, hle, hsub, ih]

section Ranges

variable (before middle after : Text)

/-- What stands between two prefixes of a text can be read. -/
theorem slice?_append :
    (before ++ (middle ++ after)).slice? ⟨before.byteLength, before.byteLength + middle.byteLength⟩
      = some middle := by
  unfold slice? takeBytes? dropBytes?
  rw [← byteLength_append, ← List.append_assoc, splitAtByte?_append, Option.map_some, Option.bind_some,
    splitAtByte?_append, Option.map_some]

/-- What stands between two prefixes of a text can be replaced. -/
theorem replace?_append (new : Text) :
    (before ++ (middle ++ after)).replace? ⟨before.byteLength, before.byteLength + middle.byteLength⟩ new
      = some (before ++ (new ++ after)) := by
  unfold replace? takeBytes?
  rw [← byteLength_append, ← List.append_assoc, splitAtByte?_append, Option.bind_some, splitAtByte?_append,
    Option.map_some, Option.map_some, List.append_assoc]

end Ranges

end Text

end TreeIndent
