import TreeIndent.Document
import TreeIndent.Walk.Delimiter
import Mathlib.Tactic.Common

/-!
# Another indentation for a line

A line is its indentation followed by its body. With another indentation the column of its first other
character changes with the length of the indentation, the text after the indentation can be cut at the same
places, and whether the line is blank does not change.

`Document.Reindented` relates two documents that differ in the indentation of one line.
-/

namespace TreeIndent

namespace Text

/-- Spaces and tabs are white space. -/
lemma isSpace_of_isIndentChar {c : Char} (h : isIndentChar c = true) : isSpace c = true := by
  simp only [isIndentChar, Bool.or_eq_true, beq_iff_eq] at h
  rcases h with rfl | rfl <;> decide

/-- A text of spaces and tabs has one byte for each of its characters. -/
lemma byteLength_of_indent {new : Text} (h : ∀ c ∈ new, isIndentChar c = true) :
    new.byteLength = new.length := by
  induction new with
  | nil => rfl
  | cons c rest ih =>
    have hsize : c.utf8Size = 1 := by
      have hc := h c (List.mem_cons_self ..)
      simp only [isIndentChar, Bool.or_eq_true, beq_iff_eq] at hc
      rcases hc with rfl | rfl <;> decide
    rw [byteLength_cons, hsize, ih fun d hd => h d (List.mem_cons_of_mem _ hd), List.length_cons, Nat.add_comm]

/-- The body starts with no space and no tab. -/
lemma takeWhile_body (t : Text) : t.body.takeWhile isIndentChar = [] := by
  unfold body
  induction t with
  | nil => rfl
  | cons c rest ih =>
    by_cases hc : isIndentChar c = true
    · rw [List.dropWhile_cons_of_pos hc]
      exact ih
    · rw [List.dropWhile_cons_of_neg hc, List.takeWhile_cons_of_neg hc]

/-- Before a body all the spaces and tabs are indentation. -/
lemma indentLength_append_body {new : Text} (h : ∀ c ∈ new, isIndentChar c = true) (t : Text) :
    (new ++ t.body).indentLength = new.length := by
  unfold indentLength
  rw [List.takeWhile_append_of_pos h, takeWhile_body, List.append_nil]

/-- Spaces and tabs before a text say nothing about what else it holds. -/
lemma onlyDelimiter_append (patterns : Patterns) (delimiter : String) {new : Text}
    (h : ∀ c ∈ new, isIndentChar c = true) (t : Text) :
    patterns.onlyDelimiter delimiter (new ++ t) = patterns.onlyDelimiter delimiter t := by
  have hnew : new.isBlank = true := List.all_eq_true.2 fun c hc => isSpace_of_isIndentChar (h c hc)
  rw [Patterns.onlyDelimiter_append, patterns.onlyDelimiter_of_isBlank _ hnew, Bool.true_and]

lemma isBlank_append {new : Text} (h : ∀ c ∈ new, isIndentChar c = true) (t : Text) :
    (new ++ t).isBlank = t.isBlank := by
  have hnew : new.isBlank = true := List.all_eq_true.2 fun c hc => isSpace_of_isIndentChar (h c hc)
  unfold isBlank at hnew ⊢
  rw [List.all_append, hnew, Bool.true_and]

/-- The indentation of a line is made of spaces and tabs. -/
lemma isIndentChar_of_mem_takeWhile (t : Text) : ∀ c ∈ t.takeWhile isIndentChar, isIndentChar c = true :=
  List.all_eq_true.1 List.all_takeWhile

/-! ## Cuts -/

/-- A cut after a first part is a cut of the rest. -/
lemma splitAtByte?_append_add (s t : Text) (k : Nat) :
    (s ++ t).splitAtByte? (s.byteLength + k) = (t.splitAtByte? k).map fun cut => (s ++ cut.1, cut.2) := by
  induction s with
  | nil =>
    rw [byteLength_nil, Nat.zero_add, List.nil_append]
    exact Option.map_id'.symm
  | cons c s ih =>
    -- The cut lies after the first character, which has at least one byte.
    have hpos : 0 < c.utf8Size := c.utf8Size_pos
    obtain ⟨n, hn⟩ : ∃ n, c.utf8Size + byteLength s + k = n + 1 :=
      ⟨c.utf8Size + byteLength s + k - 1, by omega⟩
    have hle : c.utf8Size ≤ n + 1 := by omega
    have hrest : n + 1 - c.utf8Size = byteLength s + k := by omega
    rw [byteLength_cons, hn, List.cons_append, splitAtByte?, if_pos hle, hrest, ih, Option.map_map]
    rfl

/-- What comes after a column of a line's body, the column counted from the start of the line. -/
lemma dropBytes?_append_add (s t : Text) (k : Nat) :
    (s ++ t).dropBytes? (s.byteLength + k) = t.dropBytes? k := by
  unfold dropBytes?
  rw [splitAtByte?_append_add, Option.map_map]
  rfl

lemma dropBytes?_zero (t : Text) : t.dropBytes? 0 = some t := by
  unfold dropBytes?
  cases t <;> rfl

end Text

/-! ## Documents -/

/-- Two documents that have the same lines, except that one line with code on it has another indentation. -/
structure Document.Reindented (doc other : Document) (line : Nat) (text new : Text) : Prop where
  before : doc.line? line = some text
  code : text.isBlank = false
  indentation : ∀ c ∈ new, Text.isIndentChar c = true
  after : other.line? line = some (new ++ text.body)
  elsewhere : ∀ l, l ≠ line → other.line? l = doc.line? l

end TreeIndent
