import TreeIndent.Proofs.Text.Reindented

/-!
# The width of an indentation

A line is measured by going through its spaces and tabs, and it is indented anew by putting spaces before its
body. Here the two are shown to fit: the measure reads back the width that a line was given, and a line that is
given its own measure is the line with its tabs expanded.

* `nextStop`, `expandTabs`: the next multiple of the tab size, and a line with spaces up to there for each of its
  leading tabs.
* `indentation_reindent`, `body_reindent`: the two parts of a line that was indented anew.
* `expandFrom_eq`: after the expansion there are as many spaces as the measure has gone through.

`reindent_normal_form` puts them together.
-/

namespace TreeIndent.Text

/-! ## Expanded tabs -/

/-- The next tab stop behind a width: the next multiple of the tab size. -/
def nextStop (tabSize width : Nat) : Nat :=
  (width / tabSize + 1) * tabSize

/-- Expands the leading tabs of a text that starts at a width. -/
def expandFrom (tabSize : Nat) : Nat → Text → Text
  | _, [] => []
  | width, c :: t =>
    if c = '\t' then
      List.replicate (nextStop tabSize width - width) ' ' ++ expandFrom tabSize (nextStop tabSize width) t
    else if c = ' ' then ' ' :: expandFrom tabSize (width + 1) t
    else c :: t

/-- A line with spaces up to the next tab stop for each of its leading tabs. A tab size of zero counts as one. -/
def expandTabs (tabSize : Nat) (t : Text) : Text :=
  expandFrom (max 1 tabSize) 0 t

/-- A tab goes to the next tab stop. -/
lemma advance_tab {tabSize : Nat} (h : 0 < tabSize) (width : Nat) :
    advance tabSize width '\t' = nextStop tabSize width := by
  have hmod : width % tabSize < tabSize := Nat.mod_lt _ h
  have hdiv : tabSize * (width / tabSize) + width % tabSize = width := Nat.div_add_mod width tabSize
  have hstop : nextStop tabSize width = tabSize * (width / tabSize) + tabSize := by
    unfold nextStop
    rw [Nat.add_mul, Nat.one_mul, Nat.mul_comm]
  show width + (tabSize - width % tabSize) = nextStop tabSize width
  omega

lemma advance_space (tabSize width : Nat) : advance tabSize width ' ' = width + 1 := rfl

lemma lt_advance {tabSize : Nat} (h : 0 < tabSize) (width : Nat) (c : Char) : width < advance tabSize width c := by
  have hmod : width % tabSize < tabSize := Nat.mod_lt _ h
  unfold advance
  split
  · omega
  · omega

/-- Measuring goes forward. -/
lemma le_foldl_advance {tabSize : Nat} (h : 0 < tabSize) (t : Text) (width : Nat) :
    width ≤ t.foldl (advance tabSize) width := by
  induction t generalizing width with
  | nil => exact Nat.le_refl width
  | cons c t ih => exact Nat.le_trans (Nat.le_of_lt (lt_advance h width c)) (ih _)

lemma foldl_advance_spaces (tabSize count width : Nat) :
    (List.replicate count ' ').foldl (advance tabSize) width = width + count := by
  induction count generalizing width with
  | zero => rfl
  | succ count ih =>
    rw [List.replicate_succ, List.foldl_cons, advance_space, ih]
    omega

/-- With its tabs expanded a line has as many leading spaces as measuring goes forward on it. -/
lemma expandFrom_eq {tabSize : Nat} (h : 0 < tabSize) (width : Nat) (t : Text) :
    expandFrom tabSize width t
      = List.replicate ((t.takeWhile isIndentChar).foldl (advance tabSize) width - width) ' ' ++ t.body := by
  induction t generalizing width with
  | nil =>
    show [] = List.replicate (width - width) ' ' ++ []
    rw [Nat.sub_self]
    rfl
  | cons c t ih =>
    by_cases hc : isIndentChar c = true
    · have hbody : body (c :: t) = body t := List.dropWhile_cons_of_pos hc
      have hlt : width < advance tabSize width c := lt_advance h width c
      have hle := le_foldl_advance h (t.takeWhile isIndentChar) (advance tabSize width c)
      -- The spaces for this character, and then those for the others.
      have hspaces : expandFrom tabSize width (c :: t)
          = List.replicate (advance tabSize width c - width) ' '
            ++ expandFrom tabSize (advance tabSize width c) t := by
        simp only [isIndentChar, Bool.or_eq_true, beq_iff_eq] at hc
        rcases hc with rfl | rfl
        · rw [advance_space, Nat.add_sub_cancel_left]
          rfl
        · rw [advance_tab h]
          rfl
      rw [hspaces, ih, List.takeWhile_cons_of_pos hc, List.foldl_cons, hbody, ← List.append_assoc,
        List.replicate_append_replicate]
      congr 2
      omega
    · have hbody : body (c :: t) = c :: t := List.dropWhile_cons_of_neg hc
      have hplain : expandFrom tabSize width (c :: t) = c :: t := by
        simp only [isIndentChar, Bool.or_eq_true, beq_iff_eq, not_or] at hc
        rw [expandFrom, if_neg hc.2, if_neg hc.1]
      rw [hplain, hbody, List.takeWhile_cons_of_neg hc, List.foldl_nil, Nat.sub_self]
      rfl

/-! ## Lines indented anew -/

lemma isIndentChar_of_mem_spaces {columns : Nat} : ∀ c ∈ List.replicate columns ' ', isIndentChar c = true := by
  intro c hc
  rw [List.eq_of_mem_replicate hc]
  rfl

lemma reindent_of_body {t : Text} (h : t.body ≠ []) (columns : Nat) :
    t.reindent columns = List.replicate columns ' ' ++ t.body := by
  unfold reindent
  rw [if_neg]
  rwa [List.isEmpty_iff]

/-- The indentation of a line that was indented anew is the spaces that it was given. -/
lemma indentation_reindent {t : Text} (h : t.body ≠ []) (columns : Nat) :
    (t.reindent columns).takeWhile isIndentChar = List.replicate columns ' ' := by
  rw [reindent_of_body h, List.takeWhile_append_of_pos isIndentChar_of_mem_spaces, takeWhile_body,
    List.append_nil]

/-- Its body is the body of the line. -/
lemma body_reindent {t : Text} (h : t.body ≠ []) (columns : Nat) : (t.reindent columns).body = t.body := by
  have hparts := indentation_append_body (t.reindent columns)
  rw [indentation_reindent h, reindent_of_body h] at hparts
  rw [reindent_of_body h]
  exact List.append_cancel_left hparts

/-- Indenting a line anew is a normal form that loses nothing of its body. A line with a body has the indentation
that it was given, in characters and by every measure, and the same body; indenting twice is indenting once; and a
line that is given its own width is the line with its leading tabs expanded. -/
theorem reindent_normal_form (t : Text) (h : t.body ≠ []) :
    (∀ columns, (t.reindent columns).indentLength = columns ∧
      (∀ tabSize, (t.reindent columns).indentWidth tabSize = columns) ∧
      (t.reindent columns).body = t.body) ∧
    (∀ columns other, (t.reindent columns).reindent other = t.reindent other) ∧
    ∀ tabSize, t.reindent (t.indentWidth tabSize) = t.expandTabs tabSize := by
  refine ⟨?_, ?_, ?_⟩
  · intro columns
    refine ⟨?_, ?_, body_reindent h columns⟩
    · unfold indentLength
      rw [indentation_reindent h, List.length_replicate]
    · intro tabSize
      unfold indentWidth
      rw [indentation_reindent h, foldl_advance_spaces, Nat.zero_add]
  · intro columns other
    have hbody : (t.reindent columns).body ≠ [] := by
      rw [body_reindent h]
      exact h
    rw [reindent_of_body hbody, body_reindent h, reindent_of_body h]
  · intro tabSize
    have hpos : 0 < max 1 tabSize := by omega
    unfold expandTabs
    rw [reindent_of_body h, expandFrom_eq hpos, Nat.sub_zero]
    rfl

/-- A line whose indentation is a space and two tabs, and whose body starts with white space of another kind. -/
def tabbedLine : Text :=
  " \t\t\u3000x".toList

/-- With a tab size of three its tabs stand for two and for three spaces, and two columns are two columns also by
the measure with a tab size of zero. -/
theorem tabbedLine_normal_form :
    tabbedLine.body ≠ [] ∧ tabbedLine.reindent (tabbedLine.indentWidth 3) = tabbedLine.expandTabs 3 ∧
      tabbedLine.expandTabs 3 = "      \u3000x".toList ∧ (tabbedLine.reindent 2).indentWidth 0 = 2 ∧
      (tabbedLine.reindent 2).body = tabbedLine.body := by
  have hbody : tabbedLine.body ≠ [] := by decide
  obtain ⟨hgiven, -, hown⟩ := reindent_normal_form tabbedLine hbody
  obtain ⟨-, hwidth, hsame⟩ := hgiven 2
  exact ⟨hbody, hown 3, by decide, hwidth 0, hsame⟩

end TreeIndent.Text
